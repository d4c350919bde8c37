import Mathlib.Tactic.Ring

/-!
# Fixed-width unsigned arithmetic on natural numbers

Unsigned machine words are natural numbers below a power of two, and the operations wrap around.
-/

namespace Foundation

def word64 : Nat := 2 ^ 64

def add64 (a b : Nat) : Nat := (a + b) % word64

def sub64 (a b : Nat) : Nat := (a + (word64 - b % word64)) % word64

def toInt32 (n : Nat) : Int :=
  let r : Nat := n % 2 ^ 32
  if r < 2 ^ 31 then (r : Int) else (r : Int) - 2 ^ 32

def wrap32 (v : Int) : Int := v.bmod (2 ^ 32)

def toInt64 (v : Int) : Int := v.bmod (2 ^ 64)

/-- The wrapping operations agree with the exact ones when the exact result fits. -/
theorem add64_eq {a b : Nat} (h : a + b < word64) : add64 a b = a + b := Nat.mod_eq_of_lt h

theorem sub64_eq {a b : Nat} (ha : a < word64) (hb : b ≤ a) : sub64 a b = a - b := by
  have hbw : b % word64 = b := Nat.mod_eq_of_lt (lt_of_le_of_lt hb ha)
  have hsum : a + (word64 - b) = (a - b) + word64 := by omega
  rw [sub64, hbw, hsum, Nat.add_mod_right, Nat.mod_eq_of_lt (by omega)]

lemma sub64_borrow {a b : Nat} (hab : a < b) (hb : b < word64) : sub64 a b = word64 - (b - a) := by
  rw [sub64, Nat.mod_eq_of_lt hb, Nat.mod_eq_of_lt (by omega)]
  omega

lemma toInt32_of_lt {n : Nat} (h : n < 2 ^ 31) : toInt32 n = (n : Int) := by
  have hmod : n % 2 ^ 32 = n := Nat.mod_eq_of_lt (by omega)
  simp only [toInt32, hmod, if_pos h]

lemma toInt32_lt (n : Nat) : toInt32 n < 2 ^ 31 := by
  unfold toInt32
  dsimp only
  split <;> omega

lemma toInt32_nonneg_iff (n : Nat) : 0 ≤ toInt32 n ↔ n % 2 ^ 32 < 2 ^ 31 := by
  unfold toInt32
  dsimp only
  split <;> omega

lemma toInt32_le (n : Nat) : toInt32 n ≤ n := by
  unfold toInt32
  dsimp only
  split <;> omega

lemma wrap32_of_lt {v : Int} (hlo : -2 ^ 31 ≤ v) (hhi : v < 2 ^ 31) : wrap32 v = v := by
  unfold wrap32
  rw [Int.bmod_eq_of_le] <;> omega

lemma toInt64_of_lt {v : Int} (hlo : -2 ^ 63 ≤ v) (hhi : v < 2 ^ 63) : toInt64 v = v := by
  unfold toInt64
  rw [Int.bmod_eq_of_le] <;> omega

@[simp] lemma wrap32_wrap32_add (a b : Int) : wrap32 (wrap32 a + b) = wrap32 (a + b) := by
  exact Int.bmod_add_bmod

end Foundation
