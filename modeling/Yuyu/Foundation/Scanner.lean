import Mathlib.Data.List.Basic

/-!
# Scanners

On each element a scanner fails, goes on in a new state, or stops behind the element.  Where it
stops does not depend on how the list is cut into pieces.
-/

namespace Foundation
namespace Scanner

variable {σ α : Type}

/-- How a scan ends; `stopped` has the number of elements up to the stop. -/
inductive Outcome (σ : Type) where
  | failed
  | stopped (n : Nat) (s : σ)
  | passed (s : σ)
deriving DecidableEq, Repr

def Outcome.shift (k : Nat) : Outcome σ → Outcome σ
  | .stopped n s => .stopped (n + k) s
  | o => o

def scan (step : σ → α → Option (σ × Bool)) : σ → List α → Outcome σ
  | s, [] => .passed s
  | s, x :: xs =>
    match step s x with
    | none => .failed
    | some (s', true) => .stopped 1 s'
    | some (s', false) => (scan step s' xs).shift 1

lemma Outcome.shift_zero (o : Outcome σ) : o.shift 0 = o := by
  cases o <;> rfl

lemma Outcome.shift_shift (o : Outcome σ) (j k : Nat) : (o.shift j).shift k = o.shift (j + k) := by
  cases o with
  | failed | passed => rfl
  | stopped n s => rw [shift, shift, shift, Nat.add_assoc]

variable {step : σ → α → Option (σ × Bool)}

/-- A list can be scanned in two pieces. -/
theorem scan_append (s : σ) (xs ys : List α) :
    scan step s (xs ++ ys) =
      match scan step s xs with
      | .passed s' => (scan step s' ys).shift xs.length
      | o => o := by
  induction xs generalizing s with
  | nil => exact (Outcome.shift_zero _).symm
  | cons x xs ih =>
    rw [List.cons_append, scan, scan]
    cases step s x with
    | none => rfl
    | some next =>
      rcases next with ⟨s', b⟩
      cases b with
      | true => rfl
      | false =>
        dsimp only
        rw [ih]
        cases scan step s' xs with
        | failed | stopped => rfl
        | passed t =>
          rw [Outcome.shift_shift, List.length_cons]
          rfl

/-- A scan goes on from any place it has come to. -/
theorem scan_append_shift {s t : σ} {xs ys : List α} {k : Nat}
    (h : scan step s xs = (scan step t ys).shift k) (hlen : xs.length = ys.length + k)
    (zs : List α) : scan step s (xs ++ zs) = (scan step t (ys ++ zs)).shift k := by
  rw [scan_append, scan_append, h]
  cases scan step t ys with
  | failed | stopped => rfl
  | passed u =>
    rw [hlen]
    exact (Outcome.shift_shift _ _ _).symm

end Scanner
end Foundation
