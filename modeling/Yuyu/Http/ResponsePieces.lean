import Yuyu.Foundation.ChunkRun
import Yuyu.Http.ChunkLoop
import Yuyu.Http.Dump

/-!
# The pieces of a printed response

The output of `HttpResponse::dump`, piece by piece, as the generated code reads it. The grammar
knows three header names; other names come to the states of ordinary headers.
-/

namespace Yuyu.Http

open Foundation List
open Foundation.ChunkRun
open Foundation.Decimal (decimal)
open Foundation.Strtol (strtol)
open Automaton (ByteClass)
open ClientAutomaton (Act Edge delta row takes delta_of_takes httpclientParserStart
  httpclientParserFirstFinal)

structure ResponseData where
  data : HttpResponse
  error : Nat
  chunked : Bool

namespace ResponseData

def setVersion (version : Nat) (d : ResponseData) : ResponseData :=
  { d with data := { d.data with version := version } }

def setStatus (status : Int) (d : ResponseData) : ResponseData :=
  { d with data := { d.data with status := status } }

def setReason (reason : Bytes) (d : ResponseData) : ResponseData :=
  { d with data := { d.data with reason := reason } }

def setHeader (entry : Bytes × Bytes) (d : ResponseData) : ResponseData :=
  { d with data := d.data.setHeader entry.1 entry.2 }

end ResponseData

def parserAt (k : HttpclientParser) (cs : Nat) (d : ResponseData) : HttpResponseParser :=
  ⟨{ k with cs := cs, chunked := d.chunked }, d.data, d.error⟩

def clientRun (stream rest : Bytes) (cs : Nat) (k : HttpclientParser) (p : Nat)
    (d : ResponseData) : Except Fault (HttpResponseParser × Nat) :=
  HttpResponseParser.exec stream p rest (parserAt k cs d)

abbrev ClientMoves (cs : Nat) (bytes : Bytes) (target : Nat) (f : ResponseData → ResponseData) :
    Prop := Advances clientRun (fun stream => stream.length ≤ stringMaxSize) cs bytes target f

section Runs

variable {stream rest : Bytes} {cs target p : Nat} {c : UInt8} {acts : List Act}
  {k : HttpclientParser} {d : ResponseData}

lemma clientRun_step (k' : HttpclientParser) (d' : ResponseData)
    (h : delta cs c = some (acts, target)) (hdone : .done ∉ acts)
    (hacts : HttpResponseParser.runActs stream p acts (parserAt k cs d) = .ok (parserAt k' cs d')) :
    clientRun stream (c :: rest) cs k p d = clientRun stream rest target k' (p + 1) d' :=
  HttpResponseParser.exec_step h hacts hdone

lemma clientRun_glide {xs : Bytes} (h : glide delta cs xs = some target) (rest : Bytes)
    (k : HttpclientParser) (p : Nat) (d : ResponseData) :
    clientRun stream (xs ++ rest) cs k p d = clientRun stream rest target k (p + xs.length) d := by
  induction xs generalizing cs p with
  | nil =>
    cases h
    rfl
  | cons x xs ih =>
    obtain ⟨next, hstep, hrest⟩ := step_of_glide h
    rw [cons_append, clientRun_step k d hstep not_mem_nil rfl,
      length_cons, Nat.add_comm xs.length, ← Nat.add_assoc]
    exact ih hrest (p + 1)

lemma lt_length_of_drop {x : UInt8} {xs : Bytes} (h : stream.drop p = x :: xs) :
    p < stream.length := by
  by_contra hle
  rw [drop_eq_nil_of_le (Nat.le_of_not_lt hle)] at h
  cases h

lemma stdString_of_drop {text : Bytes} {i : Nat} (hmax : stream.length ≤ stringMaxSize)
    (hdrop : stream.drop i = text ++ c :: rest) :
    stdString (stream.drop i) (len i (i + text.length)) = .ok text := by
  have hlt : i + text.length < stream.length := by
    refine lt_length_of_drop (?_ : _ = c :: rest)
    rw [← drop_drop, hdrop, drop_left]
  rw [len_eq (Nat.le_add_right _ _) (by omega), Nat.add_sub_cancel_left,
    HttpResponseParser.stdString_ok _ (by omega), hdrop, take_left]

lemma runAct_writeValue {name value more : Bytes} (hmax : stream.length ≤ stringMaxSize)
    (hne : name ≠ []) (hname : stream.drop k.fieldStart = name ++ more)
    (hlen : k.fieldLen = name.length) (hvalue : stream.drop k.mark = value ++ c :: rest) :
    HttpResponseParser.runAct stream (k.mark + value.length) (parserAt k cs d) .writeValue =
      .ok (parserAt k cs (d.setHeader (name, value))) := by
  have hsize : name.length ≤ stringMaxSize := by
    have hle := congrArg List.length hname
    rw [length_drop, length_append] at hle
    omega
  have hkey : stdString (stream.drop k.fieldStart) k.fieldLen = .ok name := by
    rw [hlen, HttpResponseParser.stdString_ok _ hsize, hname, take_left]
  have hpos : k.fieldLen ≠ 0 := by
    rw [hlen]
    exact (length_pos_iff.mpr hne).ne'
  have hmark : (parserAt k cs d).parser.mark = k.mark := rfl
  have hstart : (parserAt k cs d).parser.fieldStart = k.fieldStart := rfl
  have hfield : (parserAt k cs d).parser.fieldLen = k.fieldLen := rfl
  simp only [HttpResponseParser.runAct, HttpResponseParser.onHttpField, hmark, hstart, hfield,
    if_neg hpos, hkey, stdString_of_drop hmax hvalue]
  rfl

lemma clientMoves_text {a : Act} {next last : Nat} {x : UInt8} {xs : Bytes}
    {f : ResponseData → ResponseData} (hfirst : delta cs x = some ([.mark], next))
    (hrest : glide delta next xs = some last) (hlast : delta last c = some ([a], target))
    (ha : a ≠ .done)
    (hrun : ∀ (stream rest : Bytes) (k : HttpclientParser) (d : ResponseData),
      stream.length ≤ stringMaxSize → stream.drop k.mark = x :: xs ++ c :: rest →
      ∃ k', HttpResponseParser.runAct stream (k.mark + (x :: xs).length) (parserAt k last d) a =
        .ok (parserAt k' last (f d))) : ClientMoves cs (x :: xs ++ [c]) target f := by
  intro stream rest k p d hmax hdrop
  have hlen : p + (x :: xs).length = p + 1 + xs.length := by
    rw [length_cons]
    omega
  rw [append_assoc, singleton_append] at hdrop ⊢
  obtain ⟨k', hact⟩ := hrun stream rest { k with mark := p } d hmax hdrop
  refine ⟨k', ?_⟩
  rw [cons_append, clientRun_step { k with mark := p } d hfirst (by decide) rfl,
    clientRun_glide hrest, clientRun_step k' (f d) hlast (by simpa using Ne.symm ha),
    length_append, ← Nat.add_assoc, hlen]
  · rfl
  · rw [← hlen, HttpResponseParser.runActs_cons hact]
    rfl

lemma clientMoves_byte (h : delta cs c = some ([], target)) : ClientMoves cs [c] target id :=
  fun _ _ k _ _ _ _ => ⟨k, clientRun_step _ _ h not_mem_nil rfl⟩

end Runs

lemma clientMoves_version {version : Nat} (h : version = 0x10 ∨ version = 0x11) :
    ClientMoves httpclientParserStart (ascii "HTTP/" ++ versionNumber version ++ [32]) 16
      (ResponseData.setVersion version) := by
  have hfirst : delta httpclientParserStart 72 = some ([.mark], 8) := by decide
  have hlast : delta 15 32 = some ([.httpVersion], 16) := by decide
  have hglide : ∃ xs, ascii "HTTP/" ++ versionNumber version = 72 :: xs ∧
      glide delta 8 xs = some 15 := by
    rcases h with rfl | rfl
    · exact ⟨_, rfl, by decide⟩
    · exact ⟨_, rfl, by decide⟩
  obtain ⟨xs, htext, hxs⟩ := hglide
  rw [htext]
  refine clientMoves_text hfirst hxs hlast (by decide) ?_
  intro stream rest k d hmax hdrop
  refine ⟨k, ?_⟩
  have hpast : k.mark + (72 :: xs).length < stream.length := by
    refine lt_length_of_drop (?_ : _ = 32 :: rest)
    rw [← drop_drop, hdrop, drop_left]
  have hlen : len k.mark (k.mark + (72 :: xs).length) = (72 :: xs).length := by
    rw [len_eq (Nat.le_add_right _ _) (by omega), Nat.add_sub_cancel_left]
  have hset : (parserAt k 15 d).onVersion (stream.drop k.mark) (72 :: xs).length =
      parserAt k 15 (d.setVersion version) := by
    rw [HttpResponseParser.onVersion, ← strncmpEq_take (stream.drop k.mark),
      ← strncmpEq_take (stream.drop k.mark), hdrop, take_left, ← htext]
    rcases h with rfl | rfl <;> rfl
  have hmark : (parserAt k 15 d).parser.mark = k.mark := rfl
  simp only [HttpResponseParser.runAct, hmark, hlen, hset]

lemma clientMoves_status {n : Nat} (hn : n < 2 ^ 31) :
    ClientMoves 16 (decimal n ++ [32]) 18 (ResponseData.setStatus n) := by
  have hfirst : takes 16 Automaton.digit ([.mark], 17) = true := by decide
  have hloop : takes 17 Automaton.digit ([], 17) = true := by decide
  have hlast : delta 17 32 = some ([.statusCode], 18) := by decide
  have hdigit : ∀ c ∈ decimal n, Automaton.digit.has c = true :=
    fun c hc => has_digit_of_isDigit (Decimal.isDigit_of_mem_decimal hc)
  have hvalue : ∀ rest : Bytes, wrap32 (strtol 10 (decimal n ++ 32 :: rest)) = n := by
    intro rest
    have hrest : ∀ c ∈ (32 :: rest : Bytes).head?, Strtol.digitVal c = none := by
      rintro c ⟨⟩
      decide
    rw [Strtol.strtol_digits (Decimal.decimal_ne_nil n) (by decide)
      (fun c hc => Decimal.isDigit_of_mem_decimal hc) hrest, Decimal.value_decimal,
      min_eq_left (by rw [Strtol.longMax]; omega)]
    apply wrap32_of_lt <;> omega
  cases hdec : decimal n with
  | nil => exact absurd hdec (Decimal.decimal_ne_nil n)
  | cons x xs =>
    rw [hdec] at hdigit hvalue
    refine clientMoves_text (delta_of_takes hfirst (hdigit x mem_cons_self))
      (glide_loop fun c hc => delta_of_takes hloop (hdigit c (mem_cons_of_mem x hc)))
      hlast (by decide) ?_
    intro stream rest k d _ hdrop
    refine ⟨{ k with status := n }, ?_⟩
    have hmark : (parserAt k 17 d).parser.mark = k.mark := rfl
    simp only [HttpResponseParser.runAct, HttpResponseParser.onStatus, hmark, hdrop, hvalue]
    rfl

lemma has_text_of_line {c : UInt8} (hlf : c ≠ 10) (hcr : c ≠ 13) :
    ClientAutomaton.text.has c = true := by
  have hlf' : c.toNat ≠ 10 := fun h => hlf (UInt8.toNat_inj.mp h)
  have hcr' : c.toNat ≠ 13 := fun h => hcr (UInt8.toNat_inj.mp h)
  have hlt := c.toNat_lt
  simp [ByteClass.has, ClientAutomaton.text]
  omega

lemma clientMoves_reason {reason : Bytes} (hne : reason ≠ [])
    (hline : ∀ c ∈ reason, c ≠ 10 ∧ c ≠ 13) :
    ClientMoves 18 (reason ++ crlf) 20 (ResponseData.setReason reason) := by
  have hfirst : takes 18 ClientAutomaton.text ([.mark], 19) = true := by decide
  have hloop : takes 19 ClientAutomaton.text ([], 19) = true := by decide
  have hlast : delta 19 13 = some ([.reasonPhrase], 24) := by decide
  have hend : delta 24 10 = some ([], 20) := by decide
  have htext : ∀ c ∈ reason, ClientAutomaton.text.has c = true :=
    fun c hc => has_text_of_line (hline c hc).1 (hline c hc).2
  cases reason with
  | nil => exact absurd rfl hne
  | cons x xs =>
    have hmoves : ClientMoves 18 (x :: xs ++ [13]) 24 (ResponseData.setReason (x :: xs)) := by
      refine clientMoves_text (delta_of_takes hfirst (htext x mem_cons_self))
        (glide_loop fun c hc => delta_of_takes hloop (htext c (mem_cons_of_mem x hc)))
        hlast (by decide) ?_
      intro stream rest k d hmax hdrop
      refine ⟨k, ?_⟩
      have hmark : (parserAt k 19 d).parser.mark = k.mark := rfl
      simp only [HttpResponseParser.runAct, HttpResponseParser.onReason, hmark,
        stdString_of_drop hmax hdrop]
      rfl
    have hboth := hmoves.trans (clientMoves_byte hend)
    rw [append_assoc] at hboth
    exact hboth

/-! ## Header lines -/

/-- From the state `s` the name of a header, the colon and a blank lead to the state
`v`, and the first byte of the name marks it. -/
inductive NamePath : Nat → Bytes → Nat → Prop
  | intro {s n q v : Nat} {x : UInt8} {xs : Bytes} {acts : List Act}
      (first : delta s x = some (acts, n))
      (start : acts = [.startField] ∨ acts = [.writeConnectionClose, .startField])
      (rest : glide delta n xs = some q) (colon : delta q 58 = some ([.writeField], v))
      (blank : delta v 32 = some ([.mark], v)) : NamePath s (x :: xs) v

/-- From the state `v` a value and a carriage return lead to the state `t`, and the
header is written. -/
inductive ValuePath : Nat → Bytes → Nat → Prop
  | empty {v t : Nat} (last : delta v 13 = some ([.mark, .writeValue], t)) : ValuePath v [] t
  | text {v n q t : Nat} {x : UInt8} {xs : Bytes} {acts : List Act}
      (first : delta v x = some ([.mark], n)) (rest : glide delta n xs = some q)
      (last : delta q 13 = some (acts, t))
      (write : acts = [.writeValue] ∨ acts = [.writeContentLen, .writeValue]) :
      ValuePath v (x :: xs) t

section Lines

variable {stream rest name value : Bytes} {s v t p : Nat} {k : HttpclientParser} {d : ResponseData}

lemma NamePath.ne_nil (h : NamePath s name v) : name ≠ [] := by
  cases h
  exact cons_ne_nil _ _

lemma clientRun_name (h : NamePath s name v) (hmax : stream.length ≤ stringMaxSize)
    (hdrop : stream.drop p = name ++ 58 :: 32 :: rest) :
    ∃ k', k'.fieldStart = p ∧ k'.fieldLen = name.length ∧
      clientRun stream (name ++ 58 :: 32 :: rest) s k p d =
        clientRun stream rest v k' (p + name.length + 2) d := by
  have hcolonAt : p + name.length < stream.length := by
    refine lt_length_of_drop (?_ : _ = 58 :: 32 :: rest)
    rw [← drop_drop, hdrop, drop_left]
  have hfield : len p (p + name.length) = name.length := by
    rw [len_eq (Nat.le_add_right _ _) (by omega), Nat.add_sub_cancel_left]
  cases h with
  | @intro n q _ x xs acts first start rest' colon blank =>
    have hlen : p + (x :: xs).length = p + 1 + xs.length := by
      rw [length_cons]
      omega
    rw [hlen] at hfield
    have hdone : .done ∉ acts := by
      rcases start with rfl | rfl <;> decide
    obtain ⟨k₁, hstart, hacts⟩ : ∃ k₁, k₁.fieldStart = p ∧
        HttpResponseParser.runActs stream p acts (parserAt k s d) = .ok (parserAt k₁ s d) := by
      rcases start with rfl | rfl
      · exact ⟨{ k with fieldStart := p }, rfl, rfl⟩
      · exact ⟨{ k with close := true, fieldStart := p }, rfl, rfl⟩
    refine ⟨{ k₁ with
        fieldLen := len k₁.fieldStart (p + 1 + xs.length), mark := p + 1 + xs.length + 1 },
      hstart, ?_, ?_⟩
    · rw [← hfield]
      exact congrArg (len · (p + 1 + xs.length)) hstart
    rw [cons_append, clientRun_step k₁ d first hdone hacts, clientRun_glide rest',
      clientRun_step { k₁ with fieldLen := len k₁.fieldStart (p + 1 + xs.length) } d colon
        (by decide) rfl,
      clientRun_step { k₁ with
          fieldLen := len k₁.fieldStart (p + 1 + xs.length), mark := p + 1 + xs.length + 1 } d
        blank (by decide) rfl,
      hlen]

lemma clientRun_value (h : ValuePath v value t) (hmax : stream.length ≤ stringMaxSize)
    (hne : name ≠ []) {more : Bytes} (hname : stream.drop k.fieldStart = name ++ more)
    (hlen : k.fieldLen = name.length) (hdrop : stream.drop p = value ++ 13 :: rest) :
    ∃ k', clientRun stream (value ++ 13 :: rest) v k p d =
      clientRun stream rest t k' (p + value.length + 1) (d.setHeader (name, value)) := by
  have hwrite : ∀ cs contentLen, HttpResponseParser.runAct stream (p + value.length)
      (parserAt { k with mark := p, contentLen := contentLen } cs d) .writeValue =
      .ok (parserAt { k with mark := p, contentLen := contentLen } cs
        (d.setHeader (name, value))) :=
    fun cs contentLen => runAct_writeValue hmax hne hname hlen hdrop
  cases h with
  | empty last =>
    refine ⟨{ k with mark := p }, clientRun_step _ _ last (by decide) ?_⟩
    exact HttpResponseParser.runActs_cons (hwrite v k.contentLen)
  | @text n q _ x xs acts first rest' last write =>
    have hat : p + (x :: xs).length = p + 1 + xs.length := by
      rw [length_cons]
      omega
    rw [hat] at hwrite ⊢
    have hdone : .done ∉ acts := by
      rcases write with rfl | rfl <;> decide
    obtain ⟨k', hacts⟩ : ∃ k', HttpResponseParser.runActs stream (p + 1 + xs.length) acts
        (parserAt { k with mark := p } q d) =
          .ok (parserAt k' q (d.setHeader (name, x :: xs))) := by
      rcases write with rfl | rfl
      · refine ⟨{ k with mark := p }, ?_⟩
        exact HttpResponseParser.runActs_cons (hwrite q k.contentLen)
      · refine ⟨{ k with mark := p, contentLen := wrap32 (strtol 10 (stream.drop p)) }, ?_⟩
        exact HttpResponseParser.runActs_cons (hwrite q (wrap32 (strtol 10 (stream.drop p))))
    refine ⟨k', ?_⟩
    rw [cons_append, clientRun_step { k with mark := p } d first (by decide) rfl,
      clientRun_glide rest', clientRun_step k' _ last hdone hacts]

/-- A header line on a path of the automaton. -/
theorem clientMoves_line {u : Nat} (hname : NamePath s name v) (hvalue : ValuePath v value t)
    (hline : delta t 10 = some ([], u)) :
    ClientMoves s (headerLine name value) u (ResponseData.setHeader (name, value)) := by
  intro stream rest k p d hmax hdrop
  have htext : headerLine name value ++ rest = name ++ 58 :: 32 :: (value ++ 13 :: 10 :: rest) := by
    simp [headerLine, crlf, show ascii ": " = [58, 32] from rfl]
  have hlen : p + (headerLine name value).length = p + name.length + 2 + value.length + 1 + 1 := by
    simp [headerLine, crlf, show ascii ": " = [58, 32] from rfl]
    omega
  rw [htext] at hdrop ⊢
  obtain ⟨k₁, hstart, hfield, hrun₁⟩ := clientRun_name (k := k) (d := d) hname hmax hdrop
  have hbehind : stream.drop (p + name.length + 2) = value ++ 13 :: 10 :: rest := by
    rw [Nat.add_assoc, ← drop_drop, hdrop, ← drop_drop, drop_left]
    rfl
  rw [← hstart] at hdrop
  obtain ⟨k₂, hrun₂⟩ := clientRun_value (d := d) hvalue hmax hname.ne_nil hdrop hfield hbehind
  refine ⟨k₂, ?_⟩
  rw [hrun₁, hrun₂, clientRun_step k₂ _ hline not_mem_nil rfl, hlen]

end Lines

/-! ## Header names -/

def nameStates : List Nat :=
  21 :: ((List.range 10).map (· + 25) ++ (List.range 17).map (· + 44) ++
    (List.range 11).map (· + 101))

def nameWord (cs : Nat) : Option Bytes :=
  if cs = 20 then some []
  else if 25 ≤ cs ∧ cs ≤ 34 then some ((ascii "connection").take (cs - 24))
  else if 44 ≤ cs ∧ cs ≤ 60 then some ((ascii "transfer-encoding").take (cs - 43))
  else if 101 ≤ cs ∧ cs ≤ 111 then some ((ascii "content-length").take (cs - 97))
  else none

def valueState (cs : Nat) : Nat :=
  if cs = 34 then 35 else if cs = 60 then 61 else if cs = 111 then 112 else 22

/-- An edge that no byte of a name takes, or one with the given actions that stays in the name and
adds a letter to the word. -/
def nameEdge (cs : Nat) (acts : List Act) (e : Edge) : Bool :=
  (e.cls.all fun r => !tokenClass.meets r) ||
    (e.acts == acts && nameStates.contains e.target &&
      match nameWord e.target with
      | none => true
      | some word =>
        e.cls.all fun r =>
          r.1 == r.2 && (nameWord cs).map (· ++ [toLower (UInt8.ofNat r.1)]) == some word)

def readsName (cs : Nat) (acts : List Act) : Bool :=
  ((row cs).any fun e => e.cls == tokenClass) && (row cs).all (nameEdge cs acts)

lemma readsName_first : readsName 20 [.startField] = true := by decide

lemma readsName_of_mem {cs : Nat} (h : cs ∈ nameStates) : readsName cs [] = true := by
  have htable : ∀ cs ∈ nameStates, readsName cs [] = true := by decide
  exact htable cs h

lemma delta_colon {cs : Nat} (h : cs ∈ nameStates) :
    delta cs 58 = some ([.writeField], valueState cs) := by
  have htable : ∀ cs ∈ nameStates, delta cs 58 = some ([.writeField], valueState cs) := by
    decide
  exact htable cs h

structure InName (front : Bytes) (cs : Nat) : Prop where
  mem : cs ∈ nameStates
  word : ∀ w, nameWord cs = some w → front.map toLower = w

/-- A byte of a header name. -/
theorem nameStep (front : Bytes) {cs : Nat} {c : UInt8} {acts : List Act}
    (h : readsName cs acts = true) (hword : ∀ w, nameWord cs = some w → front.map toLower = w)
    (hc : tokenClass.has c = true) :
    ∃ t, delta cs c = some (acts, t) ∧ InName (front ++ [c]) t := by
  simp only [readsName, Bool.and_eq_true, any_eq_true, all_eq_true, beq_iff_eq] at h
  obtain ⟨⟨e₀, hmem₀, hcls₀⟩, hedges⟩ := h
  obtain ⟨e, hfind⟩ : ∃ e, (row cs).find? (fun e => e.cls.has c) = some e :=
    Option.isSome_iff_exists.mp (List.find?_isSome.mpr ⟨e₀, hmem₀, by rw [hcls₀, hc]⟩)
  have hhas : e.cls.has c = true := by simpa using List.find?_some hfind
  obtain ⟨r, hr, hin⟩ := any_eq_true.mp hhas
  simp only [Bool.and_eq_true, decide_eq_true_eq] at hin
  have hedge := hedges e (mem_of_find?_eq_some hfind)
  simp only [nameEdge, Bool.or_eq_true, Bool.and_eq_true, beq_iff_eq, contains_iff_mem] at hedge
  rcases hedge with hnone | ⟨⟨hacts, hmem⟩, hstep⟩
  · -- the byte would be in a range of the edge and in one of the tokens
    obtain ⟨range, hrange, hle⟩ := any_eq_true.mp hc
    simp only [Bool.and_eq_true, decide_eq_true_eq] at hle
    have hmeets := all_eq_true.mp hnone r hr
    simp only [ByteClass.meets, Bool.not_eq_true', any_eq_false, Bool.and_eq_true,
      decide_eq_true_eq] at hmeets
    exact absurd ⟨by omega, by omega⟩ (hmeets range hrange)
  refine ⟨e.target, by rw [delta, hfind, Option.map_some, hacts], hmem, fun w hw => ?_⟩
  rw [hw] at hstep
  have hletter := all_eq_true.mp hstep r hr
  simp only [Bool.and_eq_true, beq_iff_eq, Option.map_eq_some_iff] at hletter
  obtain ⟨hone, before, hbefore, rfl⟩ := hletter
  have hbyte : UInt8.ofNat r.1 = c := by
    apply UInt8.toNat_inj.mp
    have hlt := c.toNat_lt
    simp
    omega
  rw [map_append, hword before hbefore, map_singleton, hbyte]

lemma namePath_of_token {x : UInt8} {xs : Bytes} (h : ∀ c ∈ x :: xs, tokenClass.has c = true) :
    ∃ n q, delta 20 x = some ([.startField], n) ∧ glide delta n xs = some q ∧
      InName (x :: xs) q := by
  obtain ⟨n, hfirst, hn⟩ := nameStep [] readsName_first (by rintro w ⟨⟩; rfl) (h x mem_cons_self)
  obtain ⟨q, hrest, hq⟩ := glide_invariant InName
    (fun front s c hs hc => nameStep front (readsName_of_mem hs.mem) hs.word hc) hn
    fun c hc => h c (mem_cons_of_mem x hc)
  exact ⟨n, q, hfirst, hrest, hq⟩

lemma compareLower_of_map {a b : Bytes} (h : a.map toLower = b.map toLower) :
    compareLower a b = .eq := by
  induction a generalizing b with
  | nil =>
    cases b with
    | nil => rfl
    | cons y b => cases h
  | cons x a ih =>
    cases b with
    | nil => cases h
    | cons y b =>
      rw [map_cons, map_cons, cons.injEq] at h
      rw [compareLower, h.1, ih h.2]
      simp

def knownNames : List Bytes :=
  [ascii "connection", ascii "content-length", ascii "transfer-encoding"]

/-- The path of a name that the grammar does not know. -/
theorem namePath_ordinary {name : Bytes} (hne : name ≠ [])
    (htoken : ∀ c ∈ name, tokenClass.has c = true)
    (hother : ∀ known ∈ knownNames, strcasecmp name known ≠ .eq) : NamePath 20 name 22 := by
  have hzero : cStr name = name := by
    rw [cStr, takeWhile_eq_self_iff]
    rintro c hc
    have hc' := htoken c hc
    rw [decide_eq_true_eq]
    rintro rfl
    revert hc'
    decide
  have hno : ∀ known ∈ knownNames, name.map toLower ≠ known := by
    intro known hknown hmap
    refine hother known hknown ?_
    have hfixed : ∀ known ∈ knownNames, cStr known = known ∧ known.map toLower = known := by
      decide
    rw [strcasecmp, hzero, (hfixed known hknown).1]
    exact compareLower_of_map (hmap.trans (hfixed known hknown).2.symm)
  cases name with
  | nil => exact absurd rfl hne
  | cons x xs =>
    obtain ⟨n, q, hfirst, hrest, hq⟩ := namePath_of_token htoken
    have hordinary : valueState q = 22 := by
      have hend :
          ∀ cs ∈ nameStates, valueState cs ≠ 22 → ∃ w ∈ knownNames, nameWord cs = some w := by
        decide
      by_contra hv
      obtain ⟨w, hknown, hw⟩ := hend q hq.mem hv
      exact hno w hknown (hq.word w hw)
    refine .intro hfirst (Or.inl rfl) hrest ?_ (by decide)
    rw [delta_colon hq.mem, hordinary]

lemma valuePath_plain {value : Bytes} (hvalue : ∀ c ∈ value, textClass.has c = true)
    (hhead : value.head? ≠ some 32) : ValuePath 22 value 24 := by
  have hfirst : takes 22 [(33, 126), (128, 255)] ([.mark], 23) = true := by decide
  have hloop : takes 23 textClass ([], 23) = true := by decide
  cases value with
  | nil => exact .empty (by decide)
  | cons x xs =>
    have hx := has_text_of_ne (hvalue x mem_cons_self) (by simpa using hhead)
    refine .text (delta_of_takes hfirst hx)
      (glide_loop fun c hc => delta_of_takes hloop (hvalue c (mem_cons_of_mem x hc)))
      (by decide) (Or.inl rfl)

/-! ## The lines of a printed response -/

def ResponseData.setHeaders (entries : List (Bytes × Bytes)) (d : ResponseData) : ResponseData :=
  { d with data := { d.data with
      headers := OrderedMap.insertAll strcasecmp d.data.headers entries } }

lemma ResponseData.setHeaders_append (xs ys : List (Bytes × Bytes)) :
    setHeaders (xs ++ ys) = setHeaders ys ∘ setHeaders xs := by
  funext d
  rw [setHeaders, OrderedMap.insertAll_append]
  rfl

lemma ResponseData.setHeader_eq (entry : Bytes × Bytes) : setHeader entry = setHeaders [entry] := by
  funext d
  rw [setHeader, HttpResponse.setHeader, MapType.set_eq]
  rfl

lemma ResponseData.foldl_setHeader (entries : List (Bytes × Bytes)) (d : ResponseData) :
    entries.foldl (fun d e => d.setHeader e) d = d.setHeaders entries := by
  induction entries generalizing d with
  | nil => rfl
  | cons e entries ih =>
    rw [foldl_cons, ih, setHeader_eq]
    rfl

/-- The states before a header line; behind the line `connection: close` the automaton is in the
second one. -/
def lineStates : List Nat := [20, 43]

lemma clientMoves_headerLines {entries : List (Bytes × Bytes)}
    (hplain : ∀ e ∈ entries, PlainHeader e)
    (hother : ∀ e ∈ entries, ∀ known ∈ knownNames, strcasecmp e.1 known ≠ .eq) :
    ClientMoves 20 (headerLines entries) 20 (ResponseData.setHeaders entries) := by
  have hline : delta 24 10 = some ([], 20) := by decide
  have hmoves : ClientMoves 20 (headerLines entries) 20
      fun d => entries.foldl (fun d e => d.setHeader e) d := by
    refine Advances.flatMap fun e he => clientMoves_line (v := 22) ?_ ?_ hline
    · exact namePath_ordinary (hplain e he).name_ne (hplain e he).name (hother e he)
    · exact valuePath_plain (hplain e he).value (hplain e he).head
  rwa [funext (ResponseData.foldl_setHeader entries)] at hmoves

lemma clientMoves_connection (close : Bool) :
    ∃ t ∈ lineStates, ClientMoves 20 (headerLines [(ascii "connection", connectionValue close)]) t
      (ResponseData.setHeaders [(ascii "connection", connectionValue close)]) := by
  have hname : NamePath 20 (ascii "connection") 35 :=
    .intro (x := 99) (n := 25) (q := 34) (by decide) (Or.inl rfl) (by decide +kernel)
      (by decide) (by decide +kernel)
  rw [headerLines_cons, headerLines, flatMap_nil, append_nil, ← ResponseData.setHeader_eq]
  cases close with
  | false =>
    have hvalue : ValuePath 35 (ascii "keep-alive") 24 :=
      .text (x := 107) (n := 23) (q := 23) (by decide) (by decide +kernel) (by decide) (Or.inl rfl)
    exact ⟨20, by decide, clientMoves_line hname hvalue (by decide)⟩
  | true =>
    have hvalue : ValuePath 35 (ascii "close") 88 :=
      .text (x := 99) (n := 96) (q := 100) (by decide) (by decide +kernel) (by decide) (Or.inl rfl)
    exact ⟨43, by decide, clientMoves_line hname hvalue (by decide)⟩

lemma clientMoves_length {s : Nat} (hs : s ∈ lineStates) (body : Bytes) :
    ∃ t ∈ lineStates, ClientMoves s (headerLines (lengthEntry body)) t
      (ResponseData.setHeaders (lengthEntry body)) := by
  by_cases hbody : body = []
  · have hnone : lengthEntry body = [] := if_pos hbody
    rw [hnone]
    exact ⟨s, hs, .nil s⟩
  have hone : lengthEntry body = [(ascii "content-length", decimal body.length)] := if_neg hbody
  have hname : NamePath s (ascii "content-length") 112 := by
    have hfirst : ∀ s ∈ lineStates, delta s 99 = some ([.startField], 25) ∨
        delta s 99 = some ([.writeConnectionClose, .startField], 25) := by decide
    rcases hfirst s hs with hstart | hstart
    · exact .intro (x := 99) (q := 111) hstart (Or.inl rfl) (by decide)
        (by decide) (by decide +kernel)
    · exact .intro (x := 99) (q := 111) hstart (Or.inr rfl) (by decide)
        (by decide) (by decide +kernel)
  have hfirst : takes 112 Automaton.digit ([.mark], 119) = true := by decide
  have hloop : takes 119 Automaton.digit ([], 119) = true := by decide
  have hdigit : ∀ c ∈ decimal body.length, Automaton.digit.has c = true :=
    fun c hc => has_digit_of_isDigit (Decimal.isDigit_of_mem_decimal hc)
  have hvalue : ValuePath 112 (decimal body.length) 24 := by
    cases hdec : decimal body.length with
    | nil => exact absurd hdec (Decimal.decimal_ne_nil _)
    | cons x xs =>
      rw [hdec] at hdigit
      exact .text (delta_of_takes hfirst (hdigit x mem_cons_self))
        (glide_loop fun c hc => delta_of_takes hloop (hdigit c (mem_cons_of_mem x hc)))
        (by decide) (Or.inr rfl)
  rw [hone, headerLines_cons, headerLines, flatMap_nil, append_nil, ← ResponseData.setHeader_eq]
  exact ⟨20, by decide, clientMoves_line hname hvalue (by decide)⟩

lemma clientRun_end {s : Nat} (hs : s ∈ lineStates) (stream rest : Bytes) (k : HttpclientParser)
    (p : Nat) (d : ResponseData) :
    ∃ k', clientRun stream (crlf ++ rest) s k p d =
      .ok (parserAt k' httpclientParserFirstFinal d, p + 2) := by
  have hreturn : ∀ s ∈ lineStates, delta s 13 = some ([], 3) ∨
      delta s 13 = some ([.writeConnectionClose], 3) := by decide
  have hdone : delta 3 10 = some ([.done], httpclientParserFirstFinal) := by decide
  obtain ⟨k₁, hrun⟩ : ∃ k₁, clientRun stream (crlf ++ rest) s k p d =
      clientRun stream (10 :: rest) 3 k₁ (p + 1) d := by
    rcases hreturn s hs with hstep | hstep
    · exact ⟨k, clientRun_step k d hstep (by decide) rfl⟩
    · exact ⟨{ k with close := true }, clientRun_step _ d hstep (by decide) rfl⟩
  have hfinal : (parserAt k₁ 3 d).runActs stream (p + 1) [.done] =
      .ok (parserAt { k₁ with bodyStart := p + 2 } 3 d) := rfl
  exact ⟨{ k₁ with bodyStart := p + 2 },
    hrun.trans (HttpResponseParser.exec_done (by exact hdone) hfinal (by decide))⟩

end Yuyu.Http
