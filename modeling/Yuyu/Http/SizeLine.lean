import Yuyu.Http.Connection
import Yuyu.Http.Execution

/-!
# Size lines

What `HttpResponseParser::execute` does on a buffer when it is to parse the size
line of a chunk.
-/

namespace Yuyu.Http

open Foundation List
open Foundation.Strtol
open ClientAutomaton (Act delta isHex httpclientParserStart httpclientParserFirstFinal
  httpclientParserError)

lemma isHex_eq_isDigit (c : UInt8) : isHex c = isDigit 16 c := by
  rw [Bool.eq_iff_iff]
  simp only [isHex, Automaton.hex, Automaton.ByteClass.has, isDigit, digitVal, any_cons,
    any_nil, Bool.or_false, Bool.or_eq_true, Bool.and_eq_true, decide_eq_true_eq]
  split
  · simp only [Option.any_some, decide_eq_true_eq]
    omega
  split
  · simp only [Option.any_some, decide_eq_true_eq]
    omega
  split
  · simp only [Option.any_some, decide_eq_true_eq]
    omega
  · simp only [Option.any_none, Bool.false_eq_true, iff_false]
    omega

def EndsSize (c : UInt8) : Prop := c.toNat = 10 ∨ c.toNat = 13 ∨ c.toNat = 59

lemma EndsSize.digitVal {c : UInt8} (h : EndsSize c) : digitVal c = none := by
  rcases h with h | h | h <;> simp [Strtol.digitVal, h]

lemma EndsSize.not_isHex {c : UInt8} (h : EndsSize c) : isHex c = false :=
  ClientAutomaton.not_isHex_of_toNat h

/-- The number that `chunk_size` stores for a line that starts with these digits. -/
def storedSize (ds : Bytes) : Int := wrap32 (min (value 16 ds : Int) longMax)

lemma storedSize_eq {ds : Bytes} (h : value 16 ds < 2 ^ 31) :
    storedSize ds = (value 16 ds : Int) := by
  have hmin : min (value 16 ds : Int) longMax = value 16 ds := by
    rw [longMax]
    omega
  rw [storedSize, hmin]
  apply wrap32_of_lt <;> omega

lemma wrap32_strtol {ds rest : Bytes} (hne : ds ≠ []) (hds : ∀ c ∈ ds, isHex c = true)
    (hrest : ∀ c ∈ rest.head?, EndsSize c) : wrap32 (strtol 16 (ds ++ rest)) = storedSize ds := by
  have hdigits : ∀ c ∈ ds, isDigit 16 c = true := by
    intro c hc
    rw [← isHex_eq_isDigit]
    exact hds c hc
  rw [storedSize, strtol_digits hne (by decide) hdigits fun c hc => (hrest c hc).digitVal]

namespace HttpResponseParser

/-- The registers of the parser at position `p` of a buffer. -/
structure Within (len p : Nat) (q : HttpclientParser) : Prop where
  mark_le : q.mark ≤ p
  mark_lt : q.mark < len
  fieldStart_le : q.fieldStart ≤ p
  fieldStart_lt : q.fieldStart < len
  fieldLen_le : q.fieldLen ≤ len
  bodyStart_le : q.bodyStart ≤ len

lemma Within.mono {len p p' : Nat} {q : HttpclientParser} (h : Within len p q) (hp : p ≤ p') :
    Within len p' q :=
  ⟨h.mark_le.trans hp, h.mark_lt, h.fieldStart_le.trans hp, h.fieldStart_lt, h.fieldLen_le,
    h.bodyStart_le⟩

lemma Within.setState {len p : Nat} {this : HttpResponseParser} (h : Within len p this.parser)
    (cs : Nat) : Within len p (this.setState cs).parser :=
  ⟨h.mark_le, h.mark_lt, h.fieldStart_le, h.fieldStart_lt, h.fieldLen_le, h.bodyStart_le⟩

variable {buffer : Bytes} {p : Nat} {this : HttpResponseParser}

variable {n : Nat} {acts : List Act} {this' : HttpResponseParser} {rest ds tail : Bytes} {c : UInt8}

lemma stdString_ok (start : Bytes) (h : n ≤ stringMaxSize) :
    stdString start n = .ok (start.take n) := if_pos h

lemma parser_onVersion (start : Bytes) (n : Nat) (this : HttpResponseParser) :
    (this.onVersion start n).parser = this.parser := by
  unfold onVersion
  split
  · rfl
  · split <;> rfl

lemma runAct_within (hmax : buffer.length ≤ stringMaxSize) (hp : p < buffer.length)
    (h : Within buffer.length p this.parser) (a : Act) :
    ∃ this', this.runAct buffer p a = .ok this' ∧ Within buffer.length p this'.parser := by
  have hmark : len this.parser.mark p = p - this.parser.mark := len_eq h.mark_le (by omega)
  have hfield : len this.parser.fieldStart p = p - this.parser.fieldStart :=
    len_eq h.fieldStart_le (by omega)
  have hmarkMax : p - this.parser.mark ≤ stringMaxSize := by omega
  have hfieldMax : this.parser.fieldLen ≤ stringMaxSize := h.fieldLen_le.trans hmax
  cases a with
  | mark => exact ⟨_, rfl, { h with mark_le := le_refl p, mark_lt := hp }⟩
  | startField => exact ⟨_, rfl, { h with fieldStart_le := le_refl p, fieldStart_lt := hp }⟩
  | writeField =>
    refine ⟨_, rfl, { h with fieldLen_le := ?_ }⟩
    show len this.parser.fieldStart p ≤ buffer.length
    omega
  | writeContentLen | writeConnectionClose | statusCode | chunkSize | transChunked =>
    exact ⟨_, rfl, { h with }⟩
  | writeValue =>
    rw [runAct, onHttpField, hmark, stdString_ok _ hfieldMax, stdString_ok _ hmarkMax]
    split
    · exact ⟨_, rfl, h⟩
    · exact ⟨_, rfl, h⟩
  | reasonPhrase =>
    rw [runAct, onReason, hmark, stdString_ok _ hmarkMax]
    exact ⟨_, rfl, h⟩
  | httpVersion => exact ⟨_, rfl, by rwa [parser_onVersion]⟩
  | done => exact ⟨_, rfl, { h with bodyStart_le := hp }⟩

lemma runActs_cons {a : Act} (h : this.runAct buffer p a = .ok this') :
    this.runActs buffer p (a :: acts) = this'.runActs buffer p acts := by
  rw [runActs, foldlM_cons, h]
  rfl

lemma runActs_within (hmax : buffer.length ≤ stringMaxSize) (hp : p < buffer.length)
    (h : Within buffer.length p this.parser) (acts : List Act) :
    ∃ this', this.runActs buffer p acts = .ok this' ∧ Within buffer.length p this'.parser := by
  induction acts generalizing this with
  | nil => exact ⟨this, rfl, h⟩
  | cons a acts ih =>
    rcases runAct_within hmax hp h a with ⟨this₁, hrun, h₁⟩
    rcases ih h₁ with ⟨this₂, hruns, h₂⟩
    exact ⟨this₂, (runActs_cons hrun).trans hruns, h₂⟩

lemma exec_within (hmax : buffer.length ≤ stringMaxSize)
    (hrest : p + rest.length = buffer.length) (h : Within buffer.length p this.parser) :
    ∃ this' n, exec buffer p rest this = .ok (this', n) ∧ p ≤ n ∧ n ≤ buffer.length ∧
      Within buffer.length n this'.parser := by
  induction rest generalizing p this with
  | nil => exact ⟨this, p, rfl, le_refl p, by simp at hrest; omega, h⟩
  | cons c rest ih =>
    rw [length_cons] at hrest
    cases hdelta : delta this.parser.cs c with
    | none =>
      refine ⟨this.setState httpclientParserError, p, ?_, le_refl p, by omega, h.setState _⟩
      rw [exec, hdelta]
    | some next =>
      rcases runActs_within hmax (by omega) h next.1 with ⟨this₁, hrun, h₁⟩
      have hnext := (h₁.setState next.2).mono (Nat.le_succ p)
      by_cases hdone : .done ∈ next.1
      · refine ⟨this₁.setState next.2, p + 1, ?_, Nat.le_succ p, by omega, hnext⟩
        rw [exec, hdelta]
        simp only [hrun, if_pos hdone]
      rcases ih (by omega) hnext with ⟨this', n, hexec, hle, hlen, h'⟩
      refine ⟨this', n, ?_, Nat.le_of_succ_le hle, hlen, h'⟩
      rw [exec, hdelta]
      simp only [hrun, if_neg hdone, hexec]

def inState (this : HttpResponseParser) (cs : Nat) : HttpResponseParser :=
  this.mapParser fun q => { q.init with cs := cs }

lemma within_inState (hne : buffer ≠ []) (this : HttpResponseParser) (cs : Nat) :
    Within buffer.length 0 (this.inState cs).parser :=
  have hpos := length_pos_iff.mpr hne
  ⟨le_refl 0, hpos, le_refl 0, hpos, Nat.zero_le _, Nat.zero_le _⟩

/-- An attempt never faults, on any bytes. -/
theorem execute_chunk (hne : buffer ≠ []) (hlen : buffer.length < 2 ^ 31)
    (this : HttpResponseParser) :
    ∃ this' n, exec buffer 0 buffer (this.inState httpclientParserStart) = .ok (this', n) ∧
      n ≤ buffer.length ∧ this.execute buffer true = .ok (this', buffer.drop n) := by
  have hmax : buffer.length ≤ stringMaxSize := by
    rw [stringMaxSize]
    omega
  rcases exec_within hmax (Nat.zero_add _) (within_inState hne this httpclientParserStart) with
    ⟨this', n, hexec, _, hn, h'⟩
  refine ⟨this', n, hexec, hn, ?_⟩
  have hparse : httpclientParserExecute buffer (this.mapParser HttpclientParser.init) =
      .ok (this', some n) := by
    have hassert : ¬ ((buffer.length : Int) ≠ toInt32 buffer.length ∨
        buffer.length < this'.parser.bodyStart) := by
      rw [toInt32_of_lt hlen]
      have := h'.bodyStart_le
      omega
    rw [httpclientParserExecute]
    have henter : (this.mapParser HttpclientParser.init).mapParser HttpclientParser.enter =
        this.inState httpclientParserStart := rfl
    simp only [henter, hexec, if_neg hassert]
    exact if_pos ⟨h'.mark_lt, h'.fieldLen_le, h'.fieldStart_lt⟩
  simp only [execute, if_true, hparse]

lemma execute_of_exec (hne : buffer ≠ []) (hlen : buffer.length < 2 ^ 31)
    (h : exec buffer 0 buffer (this.inState httpclientParserStart) = .ok (this', n)) :
    this.execute buffer true = .ok (this', buffer.drop n) := by
  rcases execute_chunk hne hlen this with ⟨this₁, n₁, hexec, _, heq⟩
  rw [h] at hexec
  cases hexec
  exact heq

/-! ## Attempts on the bytes of a line -/

def sized (this : HttpResponseParser) (size : Int) (cs bodyStart : Nat) : HttpResponseParser :=
  this.mapParser fun q =>
    { q.init with
      cs := cs, bodyStart := bodyStart, contentLen := size, chunked := true
      chunksDone := decide (size ≤ 0) }

lemma exec_step {target : Nat} (hdelta : delta this.parser.cs c = some (acts, target))
    (hacts : this.runActs buffer p acts = .ok this') (hdone : .done ∉ acts) :
    exec buffer p (c :: rest) this = exec buffer (p + 1) rest (this'.setState target) := by
  rw [exec, hdelta]
  simp only [hacts, if_neg hdone]

lemma exec_done {target : Nat} (hdelta : delta this.parser.cs c = some (acts, target))
    (hacts : this.runActs buffer p acts = .ok this') (hdone : .done ∈ acts) :
    exec buffer p (c :: rest) this = .ok (this'.setState target, p + 1) := by
  rw [exec, hdelta]
  simp only [hacts, if_pos hdone]

lemma exec_error (hdelta : delta this.parser.cs c = none) :
    exec buffer p (c :: rest) this = .ok (this.setState httpclientParserError, p) := by
  rw [exec, hdelta]

lemma exec_first (hc : isHex c = true) (this : HttpResponseParser) :
    exec buffer 0 (c :: rest) (this.inState httpclientParserStart) =
      exec buffer 1 rest (this.inState 2) := by
  have hdelta : delta 1 c = some ([.mark], 2) := by
    rw [ClientAutomaton.delta_start, if_pos hc]
  rw [exec_step hdelta rfl (by decide)]
  rfl

lemma exec_more (hds : ∀ c ∈ ds, isHex c = true) (p : Nat) (this : HttpResponseParser) :
    exec buffer p (ds ++ tail) (this.inState 2) =
      exec buffer (p + ds.length) tail (this.inState 2) := by
  induction ds generalizing p with
  | nil => rfl
  | cons c ds ih =>
    have hdelta : delta 2 c = some ([], 2) := by
      rw [ClientAutomaton.delta_digits, if_pos (hds c mem_cons_self)]
    rw [cons_append, exec_step hdelta rfl (by decide), length_cons,
      Nat.add_comm ds.length, ← Nat.add_assoc]
    exact ih (fun d hd => hds d (mem_cons_of_mem c hd)) (p + 1)

section Digits

variable (hne : ds ≠ []) (hds : ∀ c ∈ ds, isHex c = true)

include hne hds

lemma exec_ds (this : HttpResponseParser) :
    exec buffer 0 (ds ++ tail) (this.inState httpclientParserStart) =
      exec buffer ds.length tail (this.inState 2) := by
  cases ds with
  | nil => contradiction
  | cons c ds =>
    rw [cons_append, exec_first (hds c mem_cons_self),
      exec_more fun d hd => hds d (mem_cons_of_mem c hd), length_cons, Nat.add_comm]

lemma runActs_chunkSize (htail : ∀ c ∈ tail.head?, EndsSize c) (p : Nat)
    (this : HttpResponseParser) :
    (this.inState 2).runActs (ds ++ tail) p [.chunkSize] =
      .ok (this.sized (storedSize ds) 2 0) := by
  rw [← wrap32_strtol hne hds htail]
  rfl

lemma exec_cr (this : HttpResponseParser) :
    exec (ds ++ 13 :: rest) 0 (ds ++ 13 :: rest) (this.inState httpclientParserStart) =
      exec (ds ++ 13 :: rest) (ds.length + 1) rest (this.sized (storedSize ds) 3 0) := by
  have hdelta : delta 2 13 = some ([.chunkSize], 3) := by decide
  have hends : ∀ c ∈ (13 :: rest).head?, EndsSize c := by
    rintro c ⟨⟩
    exact Or.inr (Or.inl rfl)
  rw [exec_ds hne hds]
  exact exec_step hdelta (runActs_chunkSize hne hds hends ds.length this) (by decide)

/-- The attempts on a whole line, on parts of one, and on other bytes. -/
theorem execute_line (hlen : (ds ++ 13 :: 10 :: rest).length < 2 ^ 31) (this : HttpResponseParser) :
    this.execute (ds ++ 13 :: 10 :: rest) true =
      .ok (this.sized (storedSize ds) httpclientParserFirstFinal (ds.length + 2), rest) := by
  have hdelta : delta 3 10 = some ([.done], 120) := by decide
  have hexec : exec (ds ++ 13 :: 10 :: rest) 0 (ds ++ 13 :: 10 :: rest)
      (this.inState httpclientParserStart) =
      .ok (this.sized (storedSize ds) httpclientParserFirstFinal (ds.length + 2),
        ds.length + 2) := by
    have hacts : (this.sized (storedSize ds) 3 0).runActs (ds ++ 13 :: 10 :: rest)
        (ds.length + 1) [.done] = .ok (this.sized (storedSize ds) 3 (ds.length + 2)) := rfl
    rw [exec_cr hne hds, exec_done hdelta hacts (by decide)]
    rfl
  rw [execute_of_exec (by simp) hlen hexec]
  simp

theorem execute_digits (hlen : ds.length < 2 ^ 31) (this : HttpResponseParser) :
    this.execute ds true = .ok (this.inState 2, []) := by
  have hexec : exec ds 0 (ds ++ []) (this.inState httpclientParserStart) =
      .ok (this.inState 2, ds.length) := exec_ds hne hds this
  rw [append_nil] at hexec
  rw [execute_of_exec hne hlen hexec, drop_length]

theorem execute_digits_cr (hlen : (ds ++ [13]).length < 2 ^ 31) (this : HttpResponseParser) :
    this.execute (ds ++ [13]) true = .ok (this.sized (storedSize ds) 3 0, []) := by
  rw [execute_of_exec (by simp) hlen (exec_cr hne hds this)]
  simp

end Digits

theorem execute_reject (hc : isHex c = false) (hH : c.toNat ≠ 72)
    (hlen : (c :: rest).length < 2 ^ 31) (this : HttpResponseParser) :
    this.execute (c :: rest) true = .ok (this.inState httpclientParserError, c :: rest) := by
  have hdelta : delta 1 c = none := by
    rw [ClientAutomaton.delta_start, if_neg (by simp [hc]), if_neg hH]
  exact execute_of_exec (by simp) hlen (exec_error hdelta)

/-! ## Accepted lines -/

lemma runAct_contentLen {a : Act}
    (hrun : this.runAct buffer p a = .ok this') (hsize : a ≠ .chunkSize)
    (hlength : a ≠ .writeContentLen) : this'.parser.contentLen = this.parser.contentLen := by
  cases a with
  | chunkSize | writeContentLen => contradiction
  | writeValue =>
    rw [runAct, onHttpField] at hrun
    split at hrun
    · cases hrun
      rfl
    split at hrun
    · cases hrun
      rfl
    · cases hrun
  | reasonPhrase =>
    rw [runAct, onReason] at hrun
    split at hrun
    · cases hrun
      rfl
    · cases hrun
  | httpVersion =>
    cases hrun
    rw [parser_onVersion]
  | _ =>
    cases hrun
    rfl

lemma runActs_keeps {α : Type} {f : HttpResponseParser → α}
    (hkeep : ∀ a ∈ acts, ∀ t t' : HttpResponseParser, t.runAct buffer p a = .ok t' → f t' = f t)
    (hrun : this.runActs buffer p acts = .ok this') : f this' = f this := by
  induction acts generalizing this with
  | nil =>
    cases hrun
    rfl
  | cons a acts ih =>
    rw [forall_mem_cons] at hkeep
    rw [runActs, foldlM_cons] at hrun
    cases hone : this.runAct buffer p a with
    | error e =>
      rw [hone] at hrun
      cases hrun
    | ok this₁ =>
      rw [hone] at hrun
      exact (ih hkeep.2 hrun).trans (hkeep.1 this this₁ hone)

lemma runActs_contentLen (hrun : this.runActs buffer p acts = .ok this') (hsize : .chunkSize ∉ acts)
    (hlength : .writeContentLen ∉ acts) : this'.parser.contentLen = this.parser.contentLen := by
  refine runActs_keeps (f := fun t => t.parser.contentLen) ?_ hrun
  intro a ha t t' hone
  exact runAct_contentLen hone (ne_of_mem_of_not_mem ha hsize) (ne_of_mem_of_not_mem ha hlength)

lemma exec_le (h : exec buffer p rest this = .ok (this', n)) : p ≤ n := by
  induction rest generalizing p this with
  | nil =>
    cases h
    exact le_refl _
  | cons c rest ih =>
    rw [exec] at h
    split at h
    · cases h
      exact le_refl _
    split at h
    · cases h
    split at h
    · cases h
      exact Nat.le_succ _
    · exact Nat.le_of_succ_le (ih h)

lemma exec_extension (hcs : 3 ≤ this.parser.cs ∧ this.parser.cs ≤ 7)
    (h : exec buffer p rest this = .ok (this', n)) :
    this'.parser.contentLen = this.parser.contentLen := by
  induction rest generalizing p this with
  | nil =>
    cases h
    rfl
  | cons c rest ih =>
    rw [exec] at h
    split at h
    · cases h
      rfl
    next acts target hdelta =>
      rcases ClientAutomaton.delta_extension hcs hdelta with ⟨htarget, hsize, hlength⟩
      split at h
      · cases h
      next this₁ hacts =>
        have hkeep := runActs_contentLen hacts hsize hlength
        split at h
        · cases h
          exact hkeep
        next hdone =>
          have hnext : 3 ≤ target ∧ target ≤ 7 := by
            rcases htarget with htarget | htarget
            · exact htarget
            · exact absurd ((ClientAutomaton.delta_done_final hdelta).mpr htarget.ge) hdone
          exact (ih hnext h).trans hkeep

lemma exec_finished (hcs : this.parser.cs ≠ httpclientParserFirstFinal)
    (h : exec buffer p rest this = .ok (this', n))
    (hfinal : this'.parser.cs = httpclientParserFirstFinal) : p < n := by
  cases rest with
  | nil =>
    cases h
    contradiction
  | cons c rest =>
    rw [exec] at h
    split at h
    · cases h
      contradiction
    split at h
    · cases h
    split at h
    · cases h
      exact Nat.lt_succ_self p
    · exact exec_le h

lemma exec_ends (hne : ds ≠ []) (hds : ∀ c ∈ ds, isHex c = true) (hc : EndsSize c)
    (h : exec (ds ++ c :: tail) ds.length (c :: tail) (this.inState 2) = .ok (this', n)) :
    this'.parser.contentLen = storedSize ds := by
  have hends : ∀ d ∈ (c :: tail).head?, EndsSize d := by
    rintro d ⟨⟩
    exact hc
  have hsize := runActs_chunkSize hne hds hends ds.length this
  have hdelta := ClientAutomaton.delta_digits c
  rw [hc.not_isHex, if_neg Bool.false_ne_true] at hdelta
  rcases hc with hc | hc | hc
  · rw [if_pos hc] at hdelta
    have hboth : (this.inState 2).runActs (ds ++ c :: tail) ds.length [.chunkSize, .done] =
        .ok (this.sized (storedSize ds) 2 (ds.length + 1)) := by
      rw [← wrap32_strtol hne hds hends]
      rfl
    rw [exec_done hdelta hboth (by decide)] at h
    cases h
    rfl
  · rw [if_neg (by omega), if_pos hc] at hdelta
    rw [exec_step hdelta hsize (by decide)] at h
    exact exec_extension (by decide : 3 ≤ 3 ∧ 3 ≤ 7) h
  rw [if_neg (by omega), if_neg (by omega), if_pos hc] at hdelta
  rw [exec_step hdelta hsize (by decide)] at h
  exact exec_extension (by decide : 3 ≤ 4 ∧ 4 ≤ 7) h

/-- What an accepted line looks like when it starts with a digit. -/
lemma exec_sound
    (hne : ds ≠ []) (hds : ∀ c ∈ ds, isHex c = true) (htail : ∀ c ∈ tail.head?, isHex c = false)
    (h : exec (ds ++ tail) 0 (ds ++ tail) (this.inState httpclientParserStart) = .ok (this', n))
    (hfinal : this'.parser.cs = httpclientParserFirstFinal) :
    ds.length < n ∧ (∃ c ∈ tail.head?, EndsSize c) ∧ this'.parser.contentLen = storedSize ds := by
  rw [exec_ds hne hds] at h
  have hlt : ds.length < n := exec_finished (by decide : (2 : Nat) ≠ 120) h hfinal
  cases tail with
  | nil =>
    cases h
    exact absurd hlt (lt_irrefl _)
  | cons c tail =>
    have hhex : isHex c = false := htail c rfl
    by_cases hc : EndsSize c
    · exact ⟨hlt, ⟨c, rfl, hc⟩, exec_ends hne hds hc h⟩
    have hdelta := ClientAutomaton.delta_digits c
    rw [EndsSize, not_or, not_or] at hc
    rw [hhex, if_neg Bool.false_ne_true, if_neg hc.1, if_neg hc.2.1, if_neg hc.2.2] at hdelta
    rw [exec_error hdelta] at h
    cases h
    exact absurd hlt (lt_irrefl _)

lemma length_of_execute {chunk : Bool}
    (h : this.execute buffer chunk = .ok (this', rest)) : buffer.length < 2 ^ 31 := by
  rw [execute] at h
  split at h
  · cases h
  · cases h
  next this₁ n hparse =>
    rw [httpclientParserExecute] at hparse
    split at hparse
    · cases hparse
    dsimp only at hparse
    split at hparse
    · cases hparse
    next hassert =>
      have hrange := toInt32_lt buffer.length
      omega

end HttpResponseParser

end Yuyu.Http
