import Mathlib.Data.List.Basic

/-!
# Copies that are made at the first change

A loop keeps each element of a list, or writes something else in its place and skips some of what
follows.  The output is created at the first change.
-/

namespace Foundation
namespace LazyCopy

open List

universe u

variable {α : Type u}

/-- What replaces an element, and how many of the elements that follow are skipped.  An element
without a replacement is kept. -/
abbrev Edit (α : Type u) := α → List α → Option (List α × Nat)

/-- The loop from a position of `str` on, with a number of elements still to be skipped and
the output. -/
def scan (edit : Edit α) (str : List α) : Nat → Nat → List α → Option (List α) → Option (List α)
  | _, _, [], out => out
  | pos, skip + 1, _ :: rest, out => scan edit str (pos + 1) skip rest out
  | pos, 0, c :: rest, out =>
    match edit c rest with
    | some (text, n) => scan edit str (pos + 1) n rest (some (out.getD (str.take pos) ++ text))
    | none => scan edit str (pos + 1) 0 rest (out.map (· ++ [c]))

def result (edit : Edit α) (str : List α) : List α := (scan edit str 0 0 str none).getD str

def copy (edit : Edit α) : Nat → List α → List α
  | _, [] => []
  | skip + 1, _ :: rest => copy edit skip rest
  | 0, c :: rest =>
    match edit c rest with
    | some (text, n) => text ++ copy edit n rest
    | none => c :: copy edit 0 rest

variable {edit : Edit α}

lemma scan_some (str : List α) (pos skip : Nat) (rest out : List α) :
    scan edit str pos skip rest (some out) = some (out ++ copy edit skip rest) := by
  induction rest generalizing pos skip out with
  | nil => rw [scan, copy, append_nil]
  | cons c rest ih =>
    cases skip with
    | succ skip => rw [scan, copy, ih]
    | zero =>
      cases hedit : edit c rest with
      | some e => simp only [scan, copy, hedit, Option.getD_some, ih, append_assoc]
      | none =>
        simp only [scan, copy, hedit, Option.map_some, ih, append_assoc, singleton_append]

/-- It does not matter when the output is created. -/
theorem scan_allocated (str : List α) :
    scan edit str 0 0 str (some []) = some (copy edit 0 str) := by
  rw [scan_some, nil_append]

lemma scan_none {str rest : List α} {pos : Nat} (hrest : str.drop pos = rest) :
    (scan edit str pos 0 rest none).getD str = str.take pos ++ copy edit 0 rest
      ∧ (scan edit str pos 0 rest none = none → copy edit 0 rest = rest) := by
  induction rest generalizing pos with
  | nil =>
    have hall : str.take pos = str := take_of_length_le (drop_eq_nil_iff.mp hrest)
    exact ⟨by rw [scan, copy, Option.getD_none, append_nil, hall], fun _ => rfl⟩
  | cons c rest ih =>
    have htail : str.drop (pos + 1) = rest := by rw [← tail_drop, hrest, tail_cons]
    have htake : str.take (pos + 1) = str.take pos ++ [c] := by
      rw [take_add, hrest]
      rfl
    cases hedit : edit c rest with
    | some e => simp [scan, copy, hedit, scan_some]
    | none =>
      obtain ⟨hresult, hkeep⟩ := ih htail
      simp only [scan, copy, hedit, Option.map_none]
      rw [hresult, htake, append_assoc, singleton_append]
      exact ⟨rfl, fun h => by rw [hkeep h]⟩

/-- The result is that of the loop which always writes. -/
theorem result_eq (str : List α) : result edit str = copy edit 0 str := by
  rw [result, (scan_none (drop_zero (l := str))).1, take_zero, nil_append]

/-- The output is not created exactly if nothing changes. -/
theorem scan_eq_none_iff (hedit : ∀ c rest e, edit c rest = some e →
      e.1 ++ copy edit e.2 rest ≠ c :: rest) (str : List α) :
    scan edit str 0 0 str none = none ↔ result edit str = str := by
  have hgeneral : ∀ (rest : List α) (pos : Nat),
      copy edit 0 rest = rest → scan edit str pos 0 rest none = none := by
    intro rest
    induction rest with
    | nil => exact fun _ _ => rfl
    | cons c rest ih =>
      intro pos hcopy
      rw [copy] at hcopy
      cases he : edit c rest with
      | some e =>
        rw [he] at hcopy
        exact absurd hcopy (hedit c rest e he)
      | none =>
        rw [he] at hcopy
        simp only [scan, he, Option.map_none]
        exact ih (pos + 1) (cons.inj hcopy).2
  rw [result_eq]
  exact ⟨(scan_none (drop_zero (l := str))).2, hgeneral str 0⟩

end LazyCopy
end Foundation
