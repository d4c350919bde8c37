import Mathlib.Data.List.Basic

/-!
# Overwriting a range of a list

`splice` replaces the elements of a list from a position on.
-/

namespace Foundation

open List

universe u

variable {α : Type u}

/-- Replace the elements of `l` at `[pos, pos + buf.length)` by `buf`. -/
def splice (l : List α) (pos : Nat) (buf : List α) : List α :=
  l.take pos ++ buf ++ l.drop (pos + buf.length)

@[simp]
lemma splice_nil (l : List α) (pos : Nat) : splice l pos [] = l := by
  simp [splice]

variable {l buf r : List α} {pos : Nat}

lemma length_splice (h : pos + buf.length ≤ l.length) : (splice l pos buf).length = l.length := by
  simp only [splice, length_append, length_take, length_drop]
  omega

lemma splice_append_left (h : pos + buf.length ≤ l.length) :
    splice (l ++ r) pos buf = splice l pos buf ++ r := by
  have hpos : pos ≤ l.length := by omega
  simp [splice, take_append_of_le_length hpos, drop_append_of_le_length h]

lemma splice_append_right (h : l.length ≤ pos) :
    splice (l ++ r) pos buf = l ++ splice r (pos - l.length) buf := by
  have hdrop : l.drop (pos + buf.length) = [] := drop_eq_nil_of_le (by omega)
  have hsub : pos + buf.length - l.length = pos - l.length + buf.length := by omega
  simp [splice, take_append, drop_append, take_of_length_le h, hdrop, hsub]

lemma splice_append_across (hpos : pos ≤ l.length) (h : l.length ≤ pos + buf.length) :
    splice (l ++ r) pos buf =
      splice l pos (buf.take (l.length - pos)) ++ splice r 0 (buf.drop (l.length - pos)) := by
  have htake : (buf.take (l.length - pos)).length = l.length - pos := by
    simp only [length_take]
    omega
  have hend : pos + (l.length - pos) = l.length := by omega
  have hrest : pos + buf.length - l.length = buf.length - (l.length - pos) := by omega
  have hdrop : l.drop (pos + buf.length) = [] := drop_eq_nil_of_le h
  simp only [splice, htake, hend, take_append_of_le_length hpos, drop_append, hdrop,
    drop_length, append_nil, nil_append, take_zero, Nat.zero_add,
    length_drop, hrest]
  rw [append_assoc, append_assoc, ← append_assoc (buf.take _), take_append_drop]

lemma take_splice (h : pos ≤ l.length) :
    (splice l pos buf).take (pos + buf.length) = l.take pos ++ buf := by
  have hlen : (l.take pos ++ buf).length = pos + buf.length := by simp [h]
  rw [splice, ← hlen, take_left]

lemma drop_splice (h : pos ≤ l.length) (n : Nat) :
    (splice l pos buf).drop (pos + buf.length + n) = l.drop (pos + buf.length + n) := by
  have hlen : (l.take pos ++ buf).length = pos + buf.length := by simp [h]
  rw [← drop_drop, splice, ← hlen, drop_left, drop_drop]

lemma splice_splice {more : List α} (h : pos ≤ l.length) :
    splice (splice l pos buf) (pos + buf.length) more = splice l pos (buf ++ more) := by
  rw [splice, take_splice h, drop_splice h, splice, length_append, Nat.add_assoc,
    append_assoc (l.take pos)]

end Foundation
