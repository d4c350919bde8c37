import Yuyu.Foundation.Related
import Yuyu.Http.Tokens

/-!
# Leftover memory of the request parser

`http_parser_init` leaves `query_start` and `uri_relaxed` as the memory had them. `query_start` is
never read before it is written. `uri_relaxed` guards the edges for the bytes of `more_delims`, and
two runs part where one of them takes such an edge.
-/

namespace Yuyu.Http

open Foundation
open Automaton (Act delta httpParserStart httpParserError)

section Agreement

variable {σ τ ε ε' : Type} (relaxed relaxed' : Bool) (D : σ → τ → Prop)

/-- The registers of the two parsers agree, `query_start` only if a query has begun. -/
structure Agree (r : Ready) (m : Machine σ) (m' : Machine τ) : Prop where
  cs : m.1.cs = m'.1.cs
  mark : m.1.mark = m'.1.mark
  fieldStart : m.1.fieldStart = m'.1.fieldStart
  fieldLen : m.1.fieldLen = m'.1.fieldLen
  queryStart : r.query = true → m.1.queryStart = m'.1.queryStart
  xmlSent : m.1.xmlSent = m'.1.xmlSent
  jsonSent : m.1.jsonSent = m'.1.jsonSent
  uriRelaxed : m.1.uriRelaxed = relaxed
  uriRelaxed' : m'.1.uriRelaxed = relaxed'
  data : D m.2 m'.2

def Aligned (m : Machine σ) (m' : Machine τ) : Prop :=
  Agree relaxed relaxed' D (.ofState m.1.cs) m m'

variable {relaxed relaxed' D} {m : Machine σ} {m' : Machine τ} {r : Ready}

lemma Agree.setState (h : Agree relaxed relaxed' D r m m') {cs : Nat}
    (hle : (Ready.ofState cs).le r = true) :
    Aligned relaxed relaxed' D (setState cs m) (setState cs m') :=
  { h with
    cs := rfl
    queryStart := fun hquery => by
      simp only [Ready.le, Bool.and_eq_true, Bool.or_eq_true, Bool.not_eq_true'] at hle
      have hr := hle.1.1.resolve_left (by simpa [Http.setState] using hquery)
      exact h.queryStart hr }

lemma Aligned.error (h : Aligned relaxed relaxed' D m m') :
    Aligned relaxed relaxed' D (setState httpParserError m) (setState httpParserError m') :=
  h.setState (by simp [Ready.le, Ready.ofState, httpParserError])

lemma Aligned.enter (h : Aligned relaxed relaxed' D m m') :
    Aligned relaxed relaxed' D (m.1.enter, m.2) (m'.1.enter, m'.2) :=
  { h with mark := rfl, fieldStart := rfl, fieldLen := rfl }

variable {E : ε → ε' → Prop} {call : Callback → σ → Except ε σ}
  {call' : Callback → τ → Except ε' τ}
  (hcall : ∀ cb d d', D d d' → Related E D (call cb d) (call' cb d'))

include hcall

lemma report_related (h : Agree relaxed relaxed' D r m m') (cb : Callback) :
    Related E (Agree relaxed relaxed' D r) (report call cb m) (report call' cb m') :=
  (hcall cb _ _ h.data).map fun _ _ hdata => { h with data := hdata }

lemma runAct_related (h : Agree relaxed relaxed' D r m m') (buffer : Bytes) (p : Nat) {a : Act}
    (hallow : r.allows a = true) :
    Related E (Agree relaxed relaxed' D (r.after a)) (runAct call buffer p m a)
      (runAct call' buffer p m' a) := by
  cases a with
  | mark => exact .ok { h with mark := rfl }
  | startField => exact .ok { h with fieldStart := rfl }
  | writeField =>
    rw [runAct, runAct, h.fieldStart]
    exact .ok { h with fieldLen := rfl }
  | writeValue =>
    rw [runAct, runAct, h.fieldStart, h.fieldLen, h.mark]
    exact report_related hcall h _
  | requestMethod | requestUri | fragment | httpVersion | requestPath =>
    rw [runAct, runAct, h.mark]
    exact report_related hcall h _
  | startQuery => exact .ok { h with queryStart := fun _ => rfl }
  | queryString =>
    rw [runAct, runAct, h.queryStart hallow]
    exact report_related hcall h _
  | done =>
    rw [runAct, runAct, h.xmlSent, h.jsonSent]
    split
    · exact .ok h
    · exact report_related hcall h _
  | xml => exact .ok { h with xmlSent := rfl }
  | json => exact .ok { h with jsonSent := rfl }

lemma runActs_related (h : Aligned relaxed relaxed' D m m') (buffer : Bytes) (p : Nat)
    {flag : Bool} {c : UInt8} {acts : List Act} {target : Nat}
    (hdelta : delta flag m.1.cs c = some (acts, target)) : Related E
      (fun a b => Aligned relaxed relaxed' D (setState target a) (setState target b))
      (runActs call buffer p acts m) (runActs call' buffer p acts m') := by
  obtain ⟨e, hmem, -, rfl, rfl⟩ := Automaton.delta_row hdelta
  obtain ⟨hallows, hle⟩ := Ready.edge_ready hmem
  have hround (r : Ready) (a : Act) (acts : List Act) (m : Machine σ) (m' : Machine τ)
      (hall : r.allowsAll (a :: acts) = true) (h : Agree relaxed relaxed' D r m m') :
      (r.after a).allowsAll acts = true ∧ Related E (Agree relaxed relaxed' D (r.after a))
        (runAct call buffer p m a) (runAct call' buffer p m' a) := by
    rw [Ready.allowsAll, Bool.and_eq_true] at hall
    exact ⟨hall.2, runAct_related hcall h buffer p hall.1⟩
  have hrun := Related.foldlM (Agree relaxed relaxed' D) Ready.after
    (fun r acts => r.allowsAll acts = true) hround e.acts hallows h
  exact hrun.mono fun a b hab => hab.setState hle

/-! ## A whole buffer -/

omit hcall

/-- The strict automaton stops in front of a byte that it takes with `uri_relaxed`, unless an
exception ends the walk before. -/
def meetsRelaxed (call : Callback → σ → Except ε σ) (buffer : Bytes) :
    Nat → Bytes → Machine σ → Bool
  | _, [], _ => false
  | p, c :: rest, m =>
    match delta false m.1.cs c with
    | none => (delta true m.1.cs c).isSome
    | some (acts, target) =>
      match runActs call buffer p acts m with
      | .error _ => false
      | .ok m =>
        !decide (.done ∈ acts) && meetsRelaxed call buffer (p + 1) rest (setState target m)

lemma delta_eq_of_strict {cs : Nat} {c : UInt8}
    (h : delta false cs c = none → delta true cs c = none) (flag flag' : Bool) :
    delta flag cs c = delta flag' cs c := by
  have hfalse (flag : Bool) : delta flag cs c = delta false cs c := by
    cases hstrict : delta false cs c with
    | none =>
      cases flag with
      | false => exact hstrict
      | true => exact h hstrict
    | some next => exact Automaton.delta_of_strict hstrict flag
  rw [hfalse flag, hfalse flag']

lemma exec_pos {buffer rest : Bytes} {p q : Nat} {m m₁ : Machine σ}
    (h : exec call buffer p rest m = .ok (m₁, q)) : p ≤ q := by
  induction rest generalizing p m with
  | nil =>
    cases h
    exact le_rfl
  | cons c rest ih =>
    rw [exec] at h
    split at h
    · cases h
      exact le_rfl
    split at h
    · cases h
    split_ifs at h
    · cases h
      exact Nat.le_succ p
    · exact (Nat.le_succ p).trans (ih h)

include hcall

lemma exec_related (buffer rest : Bytes) {p : Nat} (h : Aligned relaxed relaxed' D m m')
    (hsame : relaxed = relaxed' ∨ meetsRelaxed call buffer p rest m = false) :
    Related E (fun a b => Aligned relaxed relaxed' D a.1 b.1 ∧ a.2 = b.2)
      (exec call buffer p rest m) (exec call' buffer p rest m') := by
  induction rest generalizing p m m' with
  | nil => exact .ok ⟨h, rfl⟩
  | cons c rest ih =>
    have hstrict (hmeets : meetsRelaxed call buffer p (c :: rest) m = false) (flag flag' : Bool) :
        delta flag m.1.cs c = delta flag' m.1.cs c := by
      apply delta_eq_of_strict
      intro hnone
      simpa [meetsRelaxed, hnone] using hmeets
    have hdelta : delta relaxed m.1.cs c = delta relaxed' m.1.cs c := by
      rcases hsame with rfl | hmeets
      · rfl
      · exact hstrict hmeets relaxed relaxed'
    rw [exec, exec, h.uriRelaxed, h.uriRelaxed', ← h.cs, ← hdelta]
    cases hnext : delta relaxed m.1.cs c with
    | none => exact .ok ⟨h.error, rfl⟩
    | some next =>
      obtain ⟨acts, target⟩ := next
      have hacts := runActs_related hcall h buffer p hnext
      dsimp only
      generalize hrun : runActs call buffer p acts m = x at hacts ⊢
      generalize runActs call' buffer p acts m' = y at hacts ⊢
      cases hacts with
      | error he => exact .error he
      | @ok a b hab =>
        split_ifs with hdone
        · exact .ok ⟨hab, rfl⟩
        apply ih hab
        apply hsame.imp_right
        intro hmeets
        rw [meetsRelaxed, hstrict hmeets false relaxed, hnext] at hmeets
        simpa [hrun, hdone] using hmeets

lemma exec_apart (buffer rest : Bytes) {p : Nat} (h : Aligned false true D m m')
    (hmeets : meetsRelaxed call buffer p rest m = true) :
    ∃ m₁ q, exec call buffer p rest m = .ok (m₁, q)
      ∧ ∀ m₂ q', exec call' buffer p rest m' = .ok (m₂, q') → q < q' := by
  induction rest generalizing p m m' with
  | nil => cases hmeets
  | cons c rest ih =>
    rw [meetsRelaxed] at hmeets
    rw [exec, exec, h.uriRelaxed, h.uriRelaxed', ← h.cs]
    cases hstrict : delta false m.1.cs c with
    | none =>
      rw [hstrict] at hmeets
      obtain ⟨⟨acts, target⟩, hnext⟩ := Option.isSome_iff_exists.mp hmeets
      refine ⟨_, p, rfl, fun m₂ q' hrun => ?_⟩
      rw [hnext] at hrun
      dsimp only at hrun
      split at hrun
      · cases hrun
      split_ifs at hrun
      · cases hrun
        exact Nat.lt_succ_self p
      · exact exec_pos hrun
    | some next =>
      obtain ⟨acts, target⟩ := next
      have hacts := runActs_related hcall h buffer p hstrict
      rw [hstrict] at hmeets
      rw [Automaton.delta_of_strict hstrict true]
      dsimp only at hmeets ⊢
      generalize runActs call buffer p acts m = x at hacts hmeets ⊢
      generalize runActs call' buffer p acts m' = y at hacts ⊢
      cases hacts with
      | error he => cases hmeets
      | @ok a b hab =>
        rw [Bool.and_eq_true, Bool.not_eq_true', decide_eq_false_iff_not] at hmeets
        dsimp only
        rw [if_neg hmeets.1, if_neg hmeets.1]
        exact ih hab hmeets.2

lemma execute_related (buffer : Bytes) (h : Aligned relaxed relaxed' D m m')
    (hsame : relaxed = relaxed' ∨ meetsRelaxed call buffer 0 buffer (m.1.enter, m.2) = false) :
    Related E (fun a b => Aligned relaxed relaxed' D a.1 b.1 ∧ a.2 = b.2)
      (httpParserExecute call buffer m) (httpParserExecute call' buffer m') := by
  rw [httpParserExecute, httpParserExecute]
  split_ifs
  · exact .ok ⟨h, rfl⟩
  · exact exec_related hcall buffer buffer h.enter hsame

end Agreement

abbrev Log := List Callback × CallbackData

/-- The callbacks of `HttpRequestParser`, written down as they are made. -/
def logged (cb : Callback) (d : Log) : Except (List Callback × StdException) Log :=
  match onCallback cb d.2 with
  | .ok data => .ok (d.1 ++ [cb], data)
  | .error e => .error (d.1 ++ [cb], e)

/-- The callbacks so far, and the result of a call: an exception, or the error flag and the number
of consumed bytes. -/
structure Seen where
  callbacks : List Callback
  result : Except StdException (Bool × Nat)
deriving DecidableEq

def newLogged (memory : HttpParser) : Machine Log :=
  ((HttpRequestParser.new memory).1, [], (HttpRequestParser.new memory).2)

/-- What a caller sees of the calls on the given buffers, up to an exception. -/
def observe : Machine Log → List Bytes → List Seen
  | _, [] => []
  | m, data :: inputs =>
    match httpParserExecute logged data m with
    | .error (callbacks, e) => [⟨callbacks, .error e⟩]
    | .ok (m, offset) =>
      ⟨m.2.1, .ok (HttpRequestParser.hasError (m.1, m.2.2), offset)⟩ :: observe m inputs

/-- In one of the calls the strict automaton stops in front of a byte that it takes with
`uri_relaxed`. -/
def meetsRelaxedIn : Machine Log → List Bytes → Bool
  | _, [] => false
  | m, data :: inputs =>
    meetsRelaxed logged data 0 data (m.1.enter, m.2) ||
      match httpParserExecute logged data m with
      | .error _ => false
      | .ok (m, _) => meetsRelaxedIn m inputs

lemma logged_related (cb : Callback) (d d' : Log) (h : d = d') :
    Related Eq Eq (logged cb d) (logged cb d') := by
  subst h
  cases logged cb d with
  | error e => exact .error rfl
  | ok data => exact .ok rfl

lemma newLogged_aligned (memory memory' : HttpParser) :
    Aligned memory.uriRelaxed memory'.uriRelaxed Eq (newLogged memory) (newLogged memory') where
  cs := rfl
  mark := rfl
  fieldStart := rfl
  fieldLen := rfl
  queryStart h := absurd h (show ¬ (Ready.ofState httpParserStart).query = true by decide)
  xmlSent := rfl
  jsonSent := rfl
  uriRelaxed := rfl
  uriRelaxed' := rfl
  data := rfl

section Callers

variable {relaxed relaxed' : Bool} {m m' : Machine Log}

lemma observe_eq (inputs : List Bytes) (h : Aligned relaxed relaxed' Eq m m')
    (hsame : relaxed = relaxed' ∨ meetsRelaxedIn m inputs = false) :
    observe m inputs = observe m' inputs := by
  induction inputs generalizing m m' with
  | nil => rfl
  | cons data inputs ih =>
    have hcall := execute_related logged_related data h (hsame.imp_right fun hmeets => by
        rw [meetsRelaxedIn, Bool.or_eq_false_iff] at hmeets
        exact hmeets.1)
    rw [observe, observe]
    generalize hrun : httpParserExecute logged data m = x at hcall ⊢
    generalize httpParserExecute logged data m' = y at hcall ⊢
    cases hcall with
    | error he =>
      subst he
      rfl
    | @ok a b hab =>
      obtain ⟨hab, hpos⟩ := hab
      have hrest : observe a.1 inputs = observe b.1 inputs := by
        apply ih hab
        apply hsame.imp_right
        intro hmeets
        rw [meetsRelaxedIn, Bool.or_eq_false_iff, hrun] at hmeets
        exact hmeets.2
      dsimp only
      rw [hrest, hab.data, hpos, HttpRequestParser.hasError, HttpRequestParser.hasError,
        HttpParser.hasError, HttpParser.hasError, hab.cs]

lemma observe_ne (inputs : List Bytes) (h : Aligned false true Eq m m')
    (hmeets : meetsRelaxedIn m inputs = true) : observe m inputs ≠ observe m' inputs := by
  induction inputs generalizing m m' with
  | nil => cases hmeets
  | cons data inputs ih =>
    by_cases hhere : meetsRelaxed logged data 0 data (m.1.enter, m.2) = true
    · obtain ⟨m₁, q, hrun, hbehind⟩ := exec_apart logged_related data data h.enter hhere
      have hdata : data.length ≠ 0 := by
        intro hnil
        rw [List.length_eq_zero_iff] at hnil
        rw [hnil] at hhere
        cases hhere
      rw [observe, observe, httpParserExecute, httpParserExecute, if_neg hdata, if_neg hdata, hrun]
      intro heq
      cases hrun' : exec logged data 0 data (m'.1.enter, m'.2) with
      | error e => simp [hrun'] at heq
      | ok a =>
        have hlt := hbehind a.1 a.2 hrun'
        simp [hrun'] at heq
        omega
    have hcall := execute_related logged_related data h (Or.inr (Bool.eq_false_iff.mpr hhere))
    rw [meetsRelaxedIn, Bool.or_eq_true] at hmeets
    have hlater := hmeets.resolve_left hhere
    rw [observe, observe]
    generalize httpParserExecute logged data m = x at hcall hlater ⊢
    generalize httpParserExecute logged data m' = y at hcall ⊢
    cases hcall with
    | error he => cases hlater
    | ok hab =>
      intro heq
      exact ih hab.1 hlater (List.cons.inj heq).2

end Callers

/-- The callers see the same for two contents of the memory exactly if `uri_relaxed` was the same,
or it is never looked at where it matters. -/
theorem leftover_memory_iff (memory memory' : HttpParser) (inputs : List Bytes) :
    observe (newLogged memory) inputs = observe (newLogged memory') inputs
      ↔ memory.uriRelaxed = memory'.uriRelaxed
        ∨ meetsRelaxedIn (newLogged zeroMemory) inputs = false := by
  have hzero (memory' : HttpParser) (h : memory'.uriRelaxed = false) :
      observe (newLogged memory') inputs = observe (newLogged zeroMemory) inputs :=
    observe_eq inputs (newLogged_aligned memory' zeroMemory) (Or.inl h)
  have hrelaxed (memory' : HttpParser) (h : memory'.uriRelaxed = true) :
      observe (newLogged zeroMemory) inputs = observe (newLogged memory') inputs
        ↔ meetsRelaxedIn (newLogged zeroMemory) inputs = false := by
    have haligned := newLogged_aligned zeroMemory memory'
    rw [h] at haligned
    refine ⟨fun heq => ?_, fun hmeets => observe_eq inputs haligned (Or.inr hmeets)⟩
    rw [← Bool.not_eq_true]
    exact fun hmeets => observe_ne inputs haligned hmeets heq
  by_cases hsame : memory.uriRelaxed = memory'.uriRelaxed
  · exact iff_of_true (observe_eq inputs (newLogged_aligned memory memory') (Or.inl hsame))
      (Or.inl hsame)
  rw [or_iff_right hsame]
  cases hflag : memory.uriRelaxed with
  | false =>
    have hflag' : memory'.uriRelaxed = true := by simpa [hflag] using hsame
    rw [hzero memory hflag, hrelaxed memory' hflag']
  | true =>
    have hflag' : memory'.uriRelaxed = false := by simpa [hflag] using hsame
    rw [hzero memory' hflag', eq_comm, hrelaxed memory hflag]

/-- A path with a brace is an error in zero memory, and accepted with a leftover `uri_relaxed`. -/
theorem brace_in_path :
    (observe (newLogged zeroMemory) [ascii "GET /\x7b HTTP/1.1\r\n\r\n"]).map Seen.result
        = [.ok (true, 5)]
      ∧ (observe (newLogged { zeroMemory with uriRelaxed := true })
          [ascii "GET /\x7b HTTP/1.1\r\n\r\n"]).map Seen.result
        = [.ok (false, 19)] := by
  decide +kernel

end Yuyu.Http
