import Yuyu.ByteArray.RoundTrip

/-!
# Loading from a stream that can fail

`readFromFile` reads blocks until the stream is at the end of the file.  Behind a read error no
read takes anything, and none comes to the end of the file.
-/

namespace Yuyu.ByteArray

open Foundation List

/-- The rest of the file and the state bits.  `errors i` says that the read number `i` fails, and
after how many bytes. -/
structure Ifstream where
  left : List Byte
  errors : Nat → Option Nat
  calls : Nat := 0
  eofbit : Bool := false
  failbit : Bool := false
  badbit : Bool := false

def Ifstream.behind (s : Ifstream) (n : Nat) : Ifstream :=
  { s with
    left := s.left.drop n
    calls := s.calls + 1
    eofbit := decide (s.left.length < n)
    failbit := decide (s.left.length < n) }

/-- `read` with the bytes that `gcount` counts.  A stream that is not good takes nothing. -/
def Ifstream.read (s : Ifstream) (n : Nat) : Ifstream × List Byte :=
  if s.eofbit || s.failbit || s.badbit then ({ s with failbit := true }, [])
  else
    match s.errors s.calls with
    | some count =>
      ({ s with left := s.left.drop (min count n), calls := s.calls + 1, badbit := true },
        s.left.take (min count n))
    | none => (s.behind n, s.left.take n)

/-- The loop of `ByteArray::readFromFile` for a number of rounds: whether it has ended. -/
def loadRounds : Nat → Ifstream → Action Bool
  | 0, s => return s.eofbit
  | rounds + 1, s => do
      if s.eofbit then return true
      else
        let b ← get
        let r := s.read b.baseSize
        write r.2
        loadRounds rounds r.1

def Ifstream.Clean (s : Ifstream) (n : Nat) : Prop :=
  ∀ i ≤ s.left.length / n, s.errors (s.calls + i) = none

section Rounds

variable {s : Ifstream} {b : ByteArray}

lemma loadRounds_eof (h : s.eofbit = true) (rounds : Nat) (b : ByteArray) :
    loadRounds rounds s b = .ok true b := by
  cases rounds with
  | zero =>
    rw [loadRounds, h]
    rfl
  | succ rounds =>
    rw [loadRounds, if_pos h]
    rfl

lemma loadRounds_bad (hbad : s.badbit = true) (heof : s.eofbit = false) (rounds : Nat)
    (b : ByteArray) : loadRounds rounds s b = .ok false b := by
  induction rounds generalizing s with
  | zero =>
    rw [loadRounds, heof]
    rfl
  | succ rounds ih =>
    have hread : s.read b.baseSize = ({ s with failbit := true }, []) := by
      simp [Ifstream.read, hbad]
    rw [loadRounds, heof, if_neg Bool.false_ne_true,
      bind_of_ok (show (get : Action ByteArray) b = .ok b b from rfl)]
    simp only [hread]
    exact (bind_of_ok (show write [] b = .ok () b from rfl)).trans (ih hbad heof)

lemma write_written (h : b.WellFormed) (bytes : List Byte) (hlen : bytes.length < 2 ^ 53)
    (hword : b.position + bytes.length + b.baseSize ≤ word64) :
    ∃ b', write bytes b = .ok () b' ∧ b'.WellFormed ∧ b'.written = b.written ++ bytes ∧
      b'.position = b.position + bytes.length ∧ b'.baseSize = b.baseSize := by
  obtain ⟨b', ext, hrun, h', -, hcont, hpos, -, hbase, -⟩ := write_spec h hlen hword
  have hcap : b.position ≤ (contents b.nodes).length :=
    h.length_contents.symm ▸ h.position_le_capacity
  refine ⟨b', hrun, h', ?_, hpos, hbase⟩
  rw [written, hcont, hpos, take_splice (by rw [length_append]; omega), written,
    take_append_of_le_length hcap]

lemma Ifstream.length_behind {n : Nat} (hn : 0 < n) (hle : n ≤ s.left.length) :
    (s.behind n).left.length / n + 1 = s.left.length / n := by
  rw [behind, length_drop, ← Nat.add_div_right _ hn, Nat.sub_add_cancel hle]

lemma Ifstream.clean_behind {n : Nat} (hn : 0 < n) (hle : n ≤ s.left.length)
    (hok : s.errors s.calls = none) : (s.behind n).Clean n ↔ s.Clean n := by
  have hdiv := length_behind hn hle
  change (∀ i ≤ _, s.errors (s.calls + 1 + i) = none) ↔ _
  constructor
  · intro h i hi
    cases i with
    | zero => exact hok
    | succ i =>
      have hi' := h i (by omega)
      rwa [Nat.add_assoc, Nat.add_comm 1] at hi'
  intro h i hi
  have hi' := h (i + 1) (by omega)
  rwa [Nat.add_assoc, Nat.add_comm 1]

lemma loadRounds_spec (rounds : Nat) (heof : s.eofbit = false) (hfail : s.failbit = false)
    (hbad : s.badbit = false) (h : b.WellFormed) (hblock : min s.left.length b.baseSize < 2 ^ 53)
    (hword : b.position + s.left.length + b.baseSize ≤ word64) :
    ∃ ended b', loadRounds rounds s b = .ok ended b' ∧
      (ended = true → s.Clean b.baseSize ∧ b'.written = b.written ++ s.left) ∧
      (s.Clean b.baseSize → s.left.length / b.baseSize < rounds → ended = true) := by
  induction rounds generalizing s b with
  | zero =>
    refine ⟨false, b, ?_, by simp, by simp⟩
    rw [loadRounds, heof]
    rfl
  | succ rounds ih =>
    have hget : (get : Action ByteArray) b = .ok b b := rfl
    rw [loadRounds, heof, if_neg Bool.false_ne_true, bind_of_ok hget]
    cases herror : s.errors s.calls with
    | some count =>
      have hread : s.read b.baseSize = ({ s with
          left := s.left.drop (min count b.baseSize), calls := s.calls + 1, badbit := true },
          s.left.take (min count b.baseSize)) := by
        simp [Ifstream.read, heof, hfail, hbad, herror]
      have hlen : (s.left.take (min count b.baseSize)).length ≤ min s.left.length b.baseSize := by
        rw [length_take]
        omega
      obtain ⟨b₁, hrun, -⟩ :=
        write_written h (s.left.take (min count b.baseSize)) (by omega) (by omega)
      refine ⟨false, b₁, ?_, by simp, fun hclean => ?_⟩
      · simp only [hread]
        refine (bind_of_ok hrun).trans (loadRounds_bad ?_ ?_ rounds b₁)
        · rfl
        · exact heof
      have hfirst := hclean 0 (Nat.zero_le _)
      rw [Nat.add_zero, herror] at hfirst
      contradiction
    | none =>
      have hread : s.read b.baseSize = (s.behind b.baseSize, s.left.take b.baseSize) := by
        simp [Ifstream.read, heof, hfail, hbad, herror]
      have hlen : (s.left.take b.baseSize).length = min s.left.length b.baseSize := by
        rw [length_take, Nat.min_comm]
      obtain ⟨b₁, hrun, h₁, hwritten, hpos, hbase⟩ :=
        write_written h (s.left.take b.baseSize) (by omega) (by omega)
      simp only [hread]
      rw [bind_of_ok hrun]
      by_cases hlast : s.left.length < b.baseSize
      · refine ⟨true, b₁, loadRounds_eof (decide_eq_true hlast) rounds b₁, fun _ => ⟨?_, ?_⟩,
          fun _ _ => rfl⟩
        · intro i hi
          rw [Nat.div_eq_of_lt hlast, Nat.le_zero] at hi
          rw [hi, Nat.add_zero, herror]
        · rw [hwritten, take_of_length_le hlast.le]
      have hle := not_lt.mp hlast
      have hmore : (s.behind b.baseSize).left.length = s.left.length - b.baseSize := length_drop
      have hdiv := Ifstream.length_behind h.base_pos hle
      obtain ⟨ended, b₂, hrun₂, hended, hclean⟩ := ih (s := s.behind b.baseSize)
        (decide_eq_false hlast) (decide_eq_false hlast) hbad h₁ (by omega) (by omega)
      rw [hbase, Ifstream.clean_behind h.base_pos hle herror] at hended hclean
      refine ⟨ended, b₂, hrun₂, fun htrue => ⟨(hended htrue).1, ?_⟩,
        fun hok hrounds => hclean hok (by omega)⟩
      rw [(hended htrue).2, hwritten, append_assoc]
      exact congrArg _ (take_append_drop _ _)

end Rounds

/-- When the loop of `readFromFile` has ended, the file is behind what was written before; it ends
exactly if no read up to the end of the file fails. -/
theorem load_ends_iff {b : ByteArray} (h : b.WellFormed) (data : List Byte)
    (hblock : min data.length b.baseSize < 2 ^ 53)
    (hword : b.position + data.length + b.baseSize ≤ word64) (errors : Nat → Option Nat) :
    (∀ rounds, ∃ ended b', loadRounds rounds { left := data, errors := errors } b = .ok ended b' ∧
      (ended = true → b'.written = b.written ++ data)) ∧
    ((∃ rounds b', loadRounds rounds { left := data, errors := errors } b = .ok true b') ↔
      ∀ i ≤ data.length / b.baseSize, errors i = none) := by
  have hspec := fun rounds => loadRounds_spec (s := { left := data, errors := errors }) rounds
    rfl rfl rfl h hblock hword
  have hclean : Ifstream.Clean { left := data, errors := errors } b.baseSize ↔
      ∀ i ≤ data.length / b.baseSize, errors i = none := by
    simp [Ifstream.Clean]
  rw [← hclean]
  refine ⟨fun rounds => ?_, ?_, fun hok => ?_⟩
  · obtain ⟨ended, b', hrun, hended, -⟩ := hspec rounds
    exact ⟨ended, b', hrun, fun htrue => (hended htrue).2⟩
  · rintro ⟨rounds, b', hrun⟩
    obtain ⟨ended, b₁, hrun₁, hended, -⟩ := hspec rounds
    cases hrun₁.symm.trans hrun
    exact (hended rfl).1
  obtain ⟨ended, b', hrun, -, hends⟩ := hspec (data.length / b.baseSize + 1)
  cases hends hok (Nat.lt_succ_self _)
  exact ⟨_, b', hrun⟩

theorem load_ends_iff_three :
    ∃ rounds b', loadRounds rounds { left := [1, 2, 3], errors := fun _ => none }
      (new 2 fun _ => 0) = .ok true b' :=
  (load_ends_iff (wellFormed_new _ (by decide) (by decide)) [1, 2, 3] (by decide)
    (by decide) fun _ => none).2.mpr fun _ _ => rfl

/-- The first read fails: no number of rounds is enough. -/
theorem bad_stream_loops :
    ¬ ∃ rounds b', loadRounds rounds
      { left := [1, 2, 3], errors := fun i => if i = 0 then some 0 else none } (new 2 fun _ => 0) =
        .ok true b' := by
  rintro ⟨rounds, b', hrun⟩
  cases rounds with
  | zero => cases hrun
  | succ rounds => cases (loadRounds_bad rfl rfl rounds _).symm.trans hrun

end Yuyu.ByteArray
