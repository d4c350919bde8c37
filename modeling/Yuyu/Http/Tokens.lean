import Yuyu.Http.Parser

/-!
# The tokens of a request

What the request parser is for, without its buffers: the automaton cuts the byte stream into
tokens, each a range of positions from the first byte of the request on, and the tokens fill in
the request.
-/

namespace Yuyu.Http

open List
open Automaton (Act delta row httpParserStart httpParserFirstFinal httpParserError)

/-- A token of the request, by stream positions.  `stop` is the position of the
byte that ends it. -/
inductive Token where
  | method (start stop : Nat)
  | path (start stop : Nat)
  | query (start stop : Nat)
  | fragment (start stop : Nat)
  | version (start stop : Nat)
  | header (start colon value stop : Nat)
deriving DecidableEq, Repr

namespace Token

def start : Token → Nat
  | method i _ | path i _ | query i _ | fragment i _ | version i _ | header i _ _ _ => i

def stop : Token → Nat
  | method _ j | path _ j | query _ j | fragment _ j | version _ j | header _ _ _ j => j

/-- A cut before position `c` separates bytes of the token, or the token from the
byte that ends it. -/
def CutBy (t : Token) (c : Nat) : Prop := t.start < c ∧ c ≤ t.stop
deriving Decidable

end Token

/-- The bytes of a stream from position `i` up to `j`. -/
def slice (stream : Bytes) (i j : Nat) : Bytes := (stream.drop i).take (j - i)

def deliver (stream : Bytes) (d : CallbackData) : Token → CallbackData
  | .method i j => onRequestMethod (slice stream i j) d
  | .path i j => { d with data := { d.data with path := slice stream i j } }
  | .query i j => { d with data := { d.data with query := slice stream i j } }
  | .fragment i j => { d with data := { d.data with fragment := slice stream i j } }
  | .version i j => onRequestVersion (slice stream i j) (j - i) d
  | .header i colon v j =>
    if colon - i = 0 then d
    else { d with data := d.data.setHeader (slice stream i colon) (slice stream v j) }

def deliverAll (stream : Bytes) (tokens : List Token) (d : CallbackData) : CallbackData :=
  tokens.foldl (deliver stream) d

variable {stream : Bytes}

/-- An error flag that is set stays set. -/
theorem deliver_error {d : CallbackData} (t : Token) (herr : d.error ≠ 0) :
    (deliver stream d t).error ≠ 0 := by
  cases t with
  | method i j =>
    simp only [deliver, onRequestMethod, CallbackData.setError]
    split <;> simp [herr]
  | version i j =>
    simp only [deliver, onRequestVersion, CallbackData.setError]
    split
    · exact herr
    · split <;> simp [herr]
  | header i colon v j =>
    simp only [deliver]
    split <;> exact herr
  | path | query | fragment => exact herr

lemma deliverAll_error (tokens : List Token) {d : CallbackData}
    (herr : d.error ≠ 0) : (deliverAll stream tokens d).error ≠ 0 := by
  induction tokens generalizing d with
  | nil => exact herr
  | cons t tokens ih => exact ih (deliver_error t herr)

lemma deliverAll_append (xs ys : List Token) (d : CallbackData) :
    deliverAll stream (xs ++ ys) d = deliverAll stream ys (deliverAll stream xs d) := foldl_append

/-- The stream positions at which the automaton last began something.  A colon is
forgotten when the next header begins. -/
structure Marks where
  mark : Nat
  fieldStart : Nat
  fieldEnd : Option Nat
  queryStart : Option Nat
deriving DecidableEq, Repr

namespace Marks

def zero : Marks := ⟨0, 0, none, none⟩

/-- The positions after an action at position `P`. -/
def note (P : Nat) (k : Marks) : Act → Marks
  | .mark => { k with mark := P }
  | .startField => { k with fieldStart := P, fieldEnd := none }
  | .writeField => { k with fieldEnd := some P }
  | .startQuery => { k with queryStart := some P }
  | _ => k

/-- The token that an action at position `P` ends. -/
def token (P : Nat) (k : Marks) : Act → Option Token
  | .requestMethod => some (.method k.mark P)
  | .requestPath => some (.path k.mark P)
  | .fragment => some (.fragment k.mark P)
  | .httpVersion => some (.version k.mark P)
  | .queryString => k.queryStart.map fun q => .query q P
  | .writeValue => k.fieldEnd.map fun colon => .header k.fieldStart colon k.mark P
  | _ => none

/-- No position lies beyond `P`, and a colon not before the header's start. -/
structure Within (P : Nat) (k : Marks) : Prop where
  mark : k.mark ≤ P
  fieldStart : k.fieldStart ≤ P
  fieldEnd : ∀ e, k.fieldEnd = some e → k.fieldStart ≤ e ∧ e ≤ P
  queryStart : ∀ q, k.queryStart = some q → q ≤ P

lemma Within.mono {P Q : Nat} {k : Marks} (h : k.Within P) (hle : P ≤ Q) : k.Within Q where
  mark := h.mark.trans hle
  fieldStart := h.fieldStart.trans hle
  fieldEnd e he := ⟨(h.fieldEnd e he).1, (h.fieldEnd e he).2.trans hle⟩
  queryStart q hq := (h.queryStart q hq).trans hle

lemma Within.note {P : Nat} {k : Marks} (h : k.Within P) (a : Act) :
    (k.note P a).Within P := by
  cases a with
  | mark => exact { h with mark := le_refl P }
  | startField => exact { h with fieldStart := le_refl P, fieldEnd := by simp [Marks.note] }
  | writeField =>
    refine { h with fieldEnd := ?_ }
    simp only [Marks.note, Option.some.injEq]
    rintro e rfl
    exact ⟨h.fieldStart, le_refl P⟩
  | startQuery =>
    refine { h with queryStart := ?_ }
    simp only [Marks.note, Option.some.injEq]
    rintro q rfl
    exact le_refl P
  | _ => exact h

end Marks

structure Ready where
  query : Bool
  field : Bool
  value : Bool
deriving DecidableEq

namespace Ready

/-- The parts begun in a state of the automaton: inside a query, after the colon of
a header, inside its value. -/
def ofState (cs : Nat) : Ready where
  query := cs ∈ [30, 31, 32]
  field := cs ∈ [15, 16]
  value := cs = 16

def after (r : Ready) : Act → Ready
  | .mark => { r with value := true }
  | .startField => { r with field := false, value := false }
  | .writeField => { r with field := true }
  | .startQuery => { r with query := true }
  | _ => r

def allows (r : Ready) : Act → Bool
  | .queryString => r.query
  | .writeValue => r.field && r.value
  | _ => true

def allowsAll : Ready → List Act → Bool
  | _, [] => true
  | r, a :: acts => r.allows a && (r.after a).allowsAll acts

/-- Every part begun in `r` has begun in `s`. -/
def le (r s : Ready) : Bool :=
  (!r.query || s.query) && (!r.field || s.field) && (!r.value || s.value)

/-- The recorded positions confirm what has begun. -/
structure Holds (r : Ready) (k : Marks) : Prop where
  query : r.query = true → k.queryStart.isSome
  field : r.field = true → k.fieldEnd.isSome
  value : r.value = true → k.fieldStart ≤ k.mark

lemma Holds.of_le {r s : Ready} {k : Marks} (h : s.Holds k) (hle : r.le s = true) :
    r.Holds k := by
  simp only [le, Bool.and_eq_true, Bool.or_eq_true, Bool.not_eq_true'] at hle
  rcases hle with ⟨⟨hq, hf⟩, hv⟩
  constructor
  · intro hr
    exact h.query (hq.resolve_left (by simp [hr]))
  · intro hr
    exact h.field (hf.resolve_left (by simp [hr]))
  · intro hr
    exact h.value (hv.resolve_left (by simp [hr]))

lemma Holds.note {r : Ready} {k : Marks} {P : Nat} (h : r.Holds k) (hk : k.Within P) (a : Act) :
    (r.after a).Holds (k.note P a) := by
  cases a with
  | mark => exact { h with value := fun _ => hk.fieldStart }
  | startField =>
    exact { h with
      field := by simp [Ready.after]
      value := by simp [Ready.after] }
  | writeField => exact { h with field := fun _ => rfl }
  | startQuery => exact { h with query := fun _ => rfl }
  | _ => exact h

lemma edge_ready {cs : Nat} {e : Automaton.Edge} (hmem : e ∈ row cs) :
    (ofState cs).allowsAll e.acts = true ∧
      (ofState e.target).le (e.acts.foldl after (ofState cs)) = true := by
  have htable : ∀ x ∈ Automaton.rows.zipIdx 1, ∀ e ∈ x.1,
      (ofState x.2).allowsAll e.acts = true ∧
        (ofState e.target).le (e.acts.foldl after (ofState x.2)) = true := by
    decide +kernel
  exact htable _ (Automaton.mem_zipIdx_of_row hmem) e hmem

end Ready

/-! ## The lexer -/

def lexActs (P : Nat) : List Act → Marks → List Token × Marks
  | [], k => ([], k)
  | a :: acts, k =>
    let r := lexActs P acts (k.note P a)
    ((k.token P a).toList ++ r.1, r.2)

structure Lexer where
  cs : Nat
  marks : Marks
  pos : Nat
deriving DecidableEq, Repr

namespace Lexer

def start : Lexer := ⟨httpParserStart, .zero, 0⟩

@[simp]
lemma start_pos : start.pos = 0 := rfl

def Live (s : Lexer) : Prop := s.cs ≠ httpParserError ∧ s.cs < httpParserFirstFinal
deriving Decidable

end Lexer

def lex (uriRelaxed : Bool) : Bytes → Lexer → List Token × Lexer
  | [], s => ([], s)
  | c :: rest, s =>
    match delta uriRelaxed s.cs c with
    | none => ([], { s with cs := httpParserError })
    | some (acts, target) =>
      let step := lexActs s.pos acts s.marks
      let s := ⟨target, step.2, s.pos + 1⟩
      if .done ∈ acts then (step.1, s)
      else
        let r := lex uriRelaxed rest s
        (step.1 ++ r.1, r.2)

/-- A complete header section: the automaton stops at its last byte. -/
def Complete (uriRelaxed : Bool) (bytes : Bytes) : Prop :=
  httpParserFirstFinal ≤ (lex uriRelaxed bytes .start).2.cs ∧
    (lex uriRelaxed bytes .start).2.pos = bytes.length
deriving Decidable

def tokens (uriRelaxed : Bool) (bytes : Bytes) : List Token := (lex uriRelaxed bytes .start).1

section Lexing

variable {uriRelaxed : Bool}

variable {c : UInt8} {s : Lexer} {acts : List Act} {target P : Nat} {k : Marks} {t : Token}
   {stream : Bytes}

lemma lex_error (h : delta uriRelaxed s.cs c = none) (rest : Bytes) :
    lex uriRelaxed (c :: rest) s = ([], { s with cs := httpParserError }) := by
  simp only [lex, h]

lemma lex_done
    (h : delta uriRelaxed s.cs c = some (acts, target)) (hdone : .done ∈ acts) (rest : Bytes) :
    lex uriRelaxed (c :: rest) s =
      ((lexActs s.pos acts s.marks).1, ⟨target, (lexActs s.pos acts s.marks).2, s.pos + 1⟩) := by
  simp only [lex, h, if_pos hdone]

lemma lex_step
    (h : delta uriRelaxed s.cs c = some (acts, target)) (hdone : .done ∉ acts) (rest : Bytes) :
    lex uriRelaxed (c :: rest) s =
      let r := lex uriRelaxed rest ⟨target, (lexActs s.pos acts s.marks).2, s.pos + 1⟩
      ((lexActs s.pos acts s.marks).1 ++ r.1, r.2) := by
  simp only [lex, h, if_neg hdone]

lemma live_of_step {cs pos : Nat}
    (h : delta uriRelaxed cs c = some (acts, target)) (hdone : .done ∉ acts) :
    Lexer.Live ⟨target, k, pos⟩ := by
  constructor
  · exact Automaton.delta_ne_error h
  · exact not_le.mp fun hle => hdone ((Automaton.delta_done_final h).mpr hle)

/-- The tokens of a stream are those of its parts. -/
theorem lex_append (xs ys : Bytes) (hlive : (lex uriRelaxed xs s).2.Live) :
    lex uriRelaxed (xs ++ ys) s =
      ((lex uriRelaxed xs s).1 ++ (lex uriRelaxed ys (lex uriRelaxed xs s).2).1,
        (lex uriRelaxed ys (lex uriRelaxed xs s).2).2) := by
  induction xs generalizing s with
  | nil => simp [lex]
  | cons c xs ih =>
    rw [cons_append]
    rcases hdelta : delta uriRelaxed s.cs c with _ | ⟨acts, target⟩
    · rw [lex_error hdelta] at hlive
      exact absurd rfl hlive.1
    by_cases hdone : .done ∈ acts
    · rw [lex_done hdelta hdone] at hlive
      exact absurd ((Automaton.delta_done_final hdelta).mp hdone) (not_le.mpr hlive.2)
    rw [lex_step hdelta hdone] at hlive
    rw [lex_step hdelta hdone, lex_step hdelta hdone, ih hlive]
    simp only [append_assoc]

lemma lex_append_of_stopped (xs ys : Bytes) (hs : s.Live)
    (hstop : ¬ (lex uriRelaxed xs s).2.Live) :
    lex uriRelaxed (xs ++ ys) s = lex uriRelaxed xs s := by
  induction xs generalizing s with
  | nil => exact absurd hs hstop
  | cons c xs ih =>
    rw [cons_append]
    rcases hdelta : delta uriRelaxed s.cs c with _ | ⟨acts, target⟩
    · rw [lex_error hdelta, lex_error hdelta]
    by_cases hdone : .done ∈ acts
    · rw [lex_done hdelta hdone, lex_done hdelta hdone]
    rw [lex_step hdelta hdone] at hstop
    rw [lex_step hdelta hdone, lex_step hdelta hdone, ih (live_of_step hdelta hdone) hstop]

lemma mem_lex_append {xs : Bytes} (ys : Bytes) (hs : s.Live)
    (ht : t ∈ (lex uriRelaxed xs s).1) : t ∈ (lex uriRelaxed (xs ++ ys) s).1 := by
  by_cases hlive : (lex uriRelaxed xs s).2.Live
  · rw [lex_append xs ys hlive]
    exact mem_append_left _ ht
  · rwa [lex_append_of_stopped xs ys hs hlive]

lemma lex_pos_le (bytes : Bytes) (s : Lexer) :
    s.pos ≤ (lex uriRelaxed bytes s).2.pos ∧
      (lex uriRelaxed bytes s).2.pos ≤ s.pos + bytes.length := by
  induction bytes generalizing s with
  | nil => simp [lex]
  | cons c rest ih =>
    rcases hdelta : delta uriRelaxed s.cs c with _ | ⟨acts, target⟩
    · rw [lex_error hdelta]
      exact ⟨le_refl _, Nat.le_add_right _ _⟩
    by_cases hdone : .done ∈ acts
    · rw [lex_done hdelta hdone]
      simp
    rw [lex_step hdelta hdone]
    have hih := ih ⟨target, (lexActs s.pos acts s.marks).2, s.pos + 1⟩
    simp only [length_cons] at hih ⊢
    omega

lemma lex_pos_of_live (bytes : Bytes) (hlive : (lex uriRelaxed bytes s).2.Live) :
    (lex uriRelaxed bytes s).2.pos = s.pos + bytes.length := by
  induction bytes generalizing s with
  | nil => rfl
  | cons c rest ih =>
    rcases hdelta : delta uriRelaxed s.cs c with _ | ⟨acts, target⟩
    · rw [lex_error hdelta] at hlive
      exact absurd rfl hlive.1
    by_cases hdone : .done ∈ acts
    · rw [lex_done hdelta hdone] at hlive
      exact absurd ((Automaton.delta_done_final hdelta).mp hdone) (not_le.mpr hlive.2)
    rw [lex_step hdelta hdone] at hlive ⊢
    have hih := ih hlive
    simp only [length_cons] at hih ⊢
    omega

lemma live_of_complete {xs ys : Bytes} (hs : s.Live) (hys : ys ≠ [])
    (hpos : (lex uriRelaxed (xs ++ ys) s).2.pos = s.pos + (xs ++ ys).length) :
    (lex uriRelaxed xs s).2.Live := by
  by_contra hstop
  rw [lex_append_of_stopped xs ys hs hstop, length_append] at hpos
  have hle : (lex uriRelaxed xs s).2.pos ≤ s.pos + xs.length := (lex_pos_le xs s).2
  have hlen : 0 < ys.length := length_pos_iff.mpr hys
  omega

lemma lex_of_strict (bytes : Bytes) (hfinal : httpParserFirstFinal ≤ (lex false bytes s).2.cs) :
    lex uriRelaxed bytes s = lex false bytes s := by
  induction bytes generalizing s with
  | nil => rfl
  | cons c rest ih =>
    rcases hdelta : delta false s.cs c with _ | ⟨acts, target⟩
    · rw [lex_error hdelta] at hfinal
      exact absurd hfinal (by simp [httpParserFirstFinal, httpParserError])
    have hrelaxed := Automaton.delta_of_strict hdelta uriRelaxed
    by_cases hdone : .done ∈ acts
    · rw [lex_done hdelta hdone, lex_done hrelaxed hdone]
    · rw [lex_step hdelta hdone] at hfinal
      rw [lex_step hdelta hdone, lex_step hrelaxed hdone, ih hfinal]

structure Lexer.Sound (s : Lexer) : Prop where
  within : s.marks.Within s.pos
  query : ∀ q, s.marks.queryStart = some q → q < s.pos
  ready : (Ready.ofState s.cs).Holds s.marks

lemma Lexer.sound_start : Lexer.start.Sound where
  within := by constructor <;> simp [Lexer.start, Marks.zero]
  query := by simp [Lexer.start, Marks.zero]
  ready := by
    constructor <;> simp [Lexer.start, Ready.ofState, httpParserStart]

lemma lexActs_holds (acts : List Act) {r : Ready} (hk : k.Within P) (hr : r.Holds k) :
    (lexActs P acts k).2.Within P ∧ (acts.foldl Ready.after r).Holds (lexActs P acts k).2 := by
  induction acts generalizing k r with
  | nil => exact ⟨hk, hr⟩
  | cons a acts ih => exact ih (hk.note a) (hr.note hk a)

lemma Lexer.Sound.step (hs : s.Sound) (h : delta uriRelaxed s.cs c = some (acts, target)) :
    Lexer.Sound ⟨target, (lexActs s.pos acts s.marks).2, s.pos + 1⟩ := by
  rcases Automaton.delta_row h with ⟨e, hmem, _, rfl, rfl⟩
  have hacts := lexActs_holds e.acts hs.within hs.ready
  constructor
  · exact hacts.1.mono (Nat.le_succ _)
  · exact fun q hq => Nat.lt_succ_of_le (hacts.1.queryStart q hq)
  · exact hacts.2.of_le (Ready.edge_ready hmem).2

/-- The automaton only ends a token it has begun. -/
theorem Lexer.Sound.lex (bytes : Bytes) (hs : s.Sound) :
    (lex uriRelaxed bytes s).2.Sound := by
  induction bytes generalizing s with
  | nil => exact hs
  | cons c rest ih =>
    rcases hdelta : delta uriRelaxed s.cs c with _ | ⟨acts, target⟩
    · rw [lex_error hdelta]
      exact { hs with ready := by constructor <;> simp [Ready.ofState, httpParserError] }
    by_cases hdone : .done ∈ acts
    · rw [lex_done hdelta hdone]
      exact hs.step hdelta
    · rw [lex_step hdelta hdone]
      exact ih (hs.step hdelta)

def Token.ColonInside : Token → Prop
  | .header _ colon _ stop => colon ≤ stop
  | _ => True

lemma Marks.token_stop {a : Act} (hk : k.Within P)
    (h : t ∈ (k.token P a).toList) : t.stop = P ∧ t.ColonInside := by
  cases a <;> simp only [Marks.token, Option.mem_toList, Option.some.injEq, Option.map_eq_some_iff,
    reduceCtorEq] at h
  case writeValue =>
    rcases h with ⟨colon, hcolon, rfl⟩
    exact ⟨rfl, (hk.fieldEnd colon hcolon).2⟩
  case queryString =>
    rcases h with ⟨q, _, rfl⟩
    exact ⟨rfl, trivial⟩
  all_goals
    subst h
    exact ⟨rfl, trivial⟩

lemma lexActs_stop (acts : List Act) (hk : k.Within P)
    (h : t ∈ (lexActs P acts k).1) : t.stop = P ∧ t.ColonInside := by
  induction acts generalizing k with
  | nil => cases h
  | cons a acts ih =>
    rcases mem_append.mp h with h | h
    · exact Marks.token_stop hk h
    · exact ih (hk.note a) h

lemma lex_stop (bytes : Bytes) (hs : s.Sound) (h : t ∈ (lex uriRelaxed bytes s).1) :
    s.pos ≤ t.stop ∧ t.stop < s.pos + bytes.length ∧ t.ColonInside := by
  induction bytes generalizing s with
  | nil => cases h
  | cons c rest ih =>
    rw [length_cons]
    rcases hdelta : delta uriRelaxed s.cs c with _ | ⟨acts, target⟩
    · rw [lex_error hdelta] at h
      cases h
    have hfirst : t ∈ (lexActs s.pos acts s.marks).1 →
        s.pos ≤ t.stop ∧ t.stop < s.pos + (rest.length + 1) ∧ t.ColonInside := by
      intro hmem
      have hstop := lexActs_stop acts hs.within hmem
      exact ⟨hstop.1.ge, by omega, hstop.2⟩
    by_cases hdone : .done ∈ acts
    · rw [lex_done hdelta hdone] at h
      exact hfirst h
    rw [lex_step hdelta hdone] at h
    rcases mem_append.mp h with h | h
    · exact hfirst h
    rcases ih (hs.step hdelta) h with ⟨hlow, hhigh, hcolon⟩
    simp only at hlow hhigh
    exact ⟨by omega, by omega, hcolon⟩

lemma slice_append (more : Bytes) {i j : Nat} (hj : j ≤ stream.length) :
    slice (stream ++ more) i j = slice stream i j := by
  rcases Nat.lt_or_ge i j with hij | hij
  · have hlen : j - i ≤ (stream.drop i).length := by rw [length_drop]; omega
    rw [slice, slice, drop_append_of_le_length (hij.le.trans hj), take_append_of_le_length hlen]
  · rw [slice, slice, Nat.sub_eq_zero_of_le hij, take_zero, take_zero]

lemma deliver_append (more : Bytes) (d : CallbackData)
    (hstop : t.stop ≤ stream.length) (hcolon : t.ColonInside) :
    deliver (stream ++ more) d t = deliver stream d t := by
  cases t <;> simp only [Token.stop] at hstop
  case header i colon v j =>
    have hc : colon ≤ stream.length := Nat.le_trans hcolon hstop
    simp only [deliver, slice_append more hc, slice_append more hstop]
  all_goals simp only [deliver, slice_append more hstop]

lemma deliverAll_append_stream (more : Bytes) (ts : List Token)
    (d : CallbackData) (hts : ∀ t ∈ ts, t.stop ≤ stream.length ∧ t.ColonInside) :
    deliverAll (stream ++ more) ts d = deliverAll stream ts d := by
  induction ts generalizing d with
  | nil => rfl
  | cons t ts ih =>
    have ht := hts t (mem_cons_self ..)
    rw [deliverAll, deliverAll, foldl_cons, foldl_cons, deliver_append more d ht.1 ht.2]
    exact ih _ fun u hu => hts u (mem_cons_of_mem _ hu)

end Lexing

end Yuyu.Http
