import Mathlib.Data.List.Basic
import Mathlib.Order.Nat

/-!
# Streams that arrive in segments

A stream is the list of the segments in which it arrives.  A read takes elements of the first
segment only.
-/

namespace Foundation
namespace Segments

open List

universe u

variable {α : Type u}

/-- Read with room for `n` elements: what is read, and the stream after it. -/
def read (n : Nat) : List (List α) → List α × List (List α)
  | [] => ([], [])
  | segment :: rest =>
    (segment.take n, if segment.length ≤ n then rest else segment.drop n :: rest)

/-- The stream without its first `n` elements. -/
def skip : Nat → List (List α) → List (List α)
  | 0, segments => segments
  | _ + 1, [] => []
  | n + 1, segment :: rest =>
    if segment.length ≤ n + 1 then skip (n + 1 - segment.length) rest
    else segment.drop (n + 1) :: rest

def Proper (segments : List (List α)) : Prop := ∀ segment ∈ segments, segment ≠ []

instance [DecidableEq α] (segments : List (List α)) : Decidable (Proper segments) := by
  unfold Proper
  infer_instance

lemma Proper.tail {segment : List α} {rest : List (List α)} (h : Proper (segment :: rest)) :
    Proper rest := fun s hs => h s (mem_cons_of_mem _ hs)

variable {segments : List (List α)} {n : Nat}

lemma Proper.eq_nil (h : Proper segments) (hflat : segments.flatten = []) : segments = [] := by
  cases segments with
  | nil => rfl
  | cons segment rest =>
    rw [flatten_cons, append_eq_nil_iff] at hflat
    exact absurd hflat.1 (h segment (mem_cons_self ..))

lemma Proper.length_le (h : Proper segments) : segments.length ≤ segments.flatten.length := by
  induction segments with
  | nil => exact Nat.zero_le _
  | cons segment rest ih =>
    have hpos : 0 < segment.length := length_pos_iff.mpr (h segment (mem_cons_self ..))
    have hrest := ih h.tail
    rw [flatten_cons, length_append, length_cons]
    omega

@[simp]
lemma skip_zero (segments : List (List α)) : skip 0 segments = segments := by
  cases segments <;> rfl

lemma skip_cons (hn : 0 < n) (segment : List α) (rest : List (List α)) :
    skip n (segment :: rest) =
      if segment.length ≤ n then skip (n - segment.length) rest else segment.drop n :: rest := by
  cases n with
  | zero => exact absurd hn (lt_irrefl 0)
  | succ n => rfl

lemma read_segment {segment : List α} (hn : segment.length ≤ n)
    (rest : List (List α)) : read n (segment :: rest) = (segment, rest) := by
  simp only [read, take_of_length_le hn, if_pos hn]

lemma length_read_le (n : Nat) (segments : List (List α)) : (read n segments).1.length ≤ n := by
  cases segments with
  | nil => exact Nat.zero_le n
  | cons segment rest => exact length_take_le n segment

lemma read_ne_nil (h : Proper segments) (hn : 0 < n)
    (hsegs : segments ≠ []) : (read n segments).1 ≠ [] := by
  cases segments with
  | nil => exact absurd rfl hsegs
  | cons segment rest =>
    intro hnil
    rcases take_eq_nil_iff.mp hnil with hzero | hempty
    · exact absurd hzero hn.ne'
    · exact h segment (mem_cons_self ..) hempty

lemma read_append_flatten (n : Nat) (segments : List (List α)) :
    (read n segments).1 ++ (read n segments).2.flatten = segments.flatten := by
  cases segments with
  | nil => rfl
  | cons segment rest =>
    simp only [read, flatten_cons]
    split
    · next h => rw [take_of_length_le h]
    · rw [flatten_cons, ← append_assoc, take_append_drop]

lemma read_fst (n : Nat) (segments : List (List α)) :
    (read n segments).1 = segments.flatten.take (read n segments).1.length := by
  conv_rhs => rw [← read_append_flatten n segments]
  rw [take_left]

/-- After a read the stream is advanced by what was read. -/
theorem read_snd (h : Proper segments) (hn : 0 < n) :
    (read n segments).2 = skip (read n segments).1.length segments := by
  cases segments with
  | nil => rfl
  | cons segment rest =>
    have hpos : 0 < segment.length := length_pos_iff.mpr (h segment (mem_cons_self ..))
    rcases Nat.lt_or_ge n segment.length with hlt | hle
    · have hlen : (segment.take n).length = n := length_take_of_le hlt.le
      simp only [read, hlen, skip_cons hn, if_neg (not_le.mpr hlt)]
    · rw [read_segment hle, skip_cons hpos, if_pos (le_refl _), Nat.sub_self, skip_zero]

lemma Proper.read (h : Proper segments) (n : Nat) : Proper (read n segments).2 := by
  cases segments with
  | nil => exact h
  | cons segment rest =>
    dsimp only [Segments.read]
    split
    · exact h.tail
    next hlt =>
      intro s hs
      rcases mem_cons.mp hs with rfl | hs
      · intro hnil
        exact hlt (drop_eq_nil_iff.mp hnil)
      · exact h.tail s hs

lemma skip_flatten (n : Nat) (segments : List (List α)) :
    (skip n segments).flatten = segments.flatten.drop n := by
  induction segments generalizing n with
  | nil => cases n <;> simp [skip]
  | cons segment rest ih =>
    cases n with
    | zero => rfl
    | succ n =>
      rw [skip, flatten_cons, drop_append]
      split
      · next h => rw [ih, drop_eq_nil_of_le h, nil_append]
      · next h =>
          rw [Nat.sub_eq_zero_of_le (not_le.mp h).le, drop_zero, flatten_cons]

lemma Proper.skip (h : Proper segments) (n : Nat) : Proper (skip n segments) := by
  induction segments generalizing n with
  | nil => cases n <;> exact h
  | cons segment rest ih =>
    cases n with
    | zero => exact h
    | succ n =>
      rw [Segments.skip]
      split
      · exact ih h.tail _
      next hlt =>
        intro s hs
        rcases mem_cons.mp hs with rfl | hs
        · intro hnil
          have hlen := drop_eq_nil_iff.mp hnil
          exact hlt hlen
        · exact h.tail s hs

/-- Advancing a stream composes. -/
theorem skip_add (a b : Nat) : skip (a + b) segments = skip b (skip a segments) := by
  induction segments generalizing a with
  | nil => cases a <;> cases b <;> rfl
  | cons segment rest ih =>
    rcases Nat.eq_zero_or_pos a with rfl | ha
    · rw [Nat.zero_add, skip_zero]
    rw [skip_cons ha, skip_cons (Nat.add_pos_left ha b)]
    rcases Nat.lt_or_ge a segment.length with hlt | hle
    · rw [if_neg (not_le.mpr hlt)]
      rcases Nat.eq_zero_or_pos b with rfl | hb
      · rw [Nat.add_zero, if_neg (not_le.mpr hlt), skip_zero]
      have hiff : segment.length ≤ a + b ↔ (segment.drop a).length ≤ b := by
        rw [length_drop]
        omega
      have hsub : b - (segment.drop a).length = a + b - segment.length := by
        rw [length_drop]
        omega
      rw [skip_cons hb, drop_drop, hsub]
      simp only [hiff]
    · rw [if_pos hle, if_pos (Nat.le_add_right_of_le hle), ← ih, Nat.sub_add_comm hle]

end Segments
end Foundation
