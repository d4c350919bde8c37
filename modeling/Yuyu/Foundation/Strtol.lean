import Mathlib.Tactic.Ring

/-!
# Numbers in text, as the C library reads them

`strtol` skips white space, takes a sign and, in base 16, a prefix `0x`, and then the digits.  The
result is limited to the range of a `long` of 64 bits.
-/

namespace Foundation
namespace Strtol

open List

def digitVal (c : UInt8) : Option Nat :=
  if 48 ≤ c.toNat ∧ c.toNat ≤ 57 then some (c.toNat - 48)
  else if 65 ≤ c.toNat ∧ c.toNat ≤ 90 then some (c.toNat - 55)
  else if 97 ≤ c.toNat ∧ c.toNat ≤ 122 then some (c.toNat - 87)
  else none

def isDigit (base : Nat) (c : UInt8) : Bool := (digitVal c).any (· < base)

def value (base : Nat) (ds : List UInt8) : Nat :=
  ds.foldl (fun acc c => acc * base + (digitVal c).getD 0) 0

variable {base : Nat}

lemma foldl_value (ds : List UInt8) (acc : Nat) :
    ds.foldl (fun acc c => acc * base + (digitVal c).getD 0) acc =
      acc * base ^ ds.length + value base ds := by
  induction ds generalizing acc with
  | nil => simp [value]
  | cons c ds ih =>
    rw [value, foldl_cons, foldl_cons, ih, ih, length_cons, Nat.pow_succ]
    ring

@[simp] lemma value_nil : value base [] = 0 := rfl

/-- The weight of the leading digit. -/
theorem value_cons (c : UInt8) (ds : List UInt8) :
    value base (c :: ds) = (digitVal c).getD 0 * base ^ ds.length + value base ds := by
  rw [value, foldl_cons, foldl_value]
  simp

lemma value_append (ds es : List UInt8) :
    value base (ds ++ es) = value base ds * base ^ es.length + value base es := by
  rw [value, foldl_append, foldl_value]
  rfl

lemma value_suffix_le {ds es : List UInt8} (h : es <:+ ds) : value base es ≤ value base ds := by
  rcases h with ⟨front, rfl⟩
  rw [value_append]
  exact Nat.le_add_left _ _

lemma value_pos {ds : List UInt8} (hbase : 0 < base) (h : ∃ c ∈ ds, 0 < (digitVal c).getD 0) :
    0 < value base ds := by
  rcases h with ⟨c, hc, hpos⟩
  rcases append_of_mem hc with ⟨front, back, rfl⟩
  have hweight : 0 < (digitVal c).getD 0 * base ^ back.length :=
    Nat.mul_pos hpos (Nat.pow_pos hbase)
  rw [value_append, value_cons]
  omega

lemma value_zeros {ds : List UInt8} (h : ∀ c ∈ ds, (digitVal c).getD 0 = 0) :
    value base ds = 0 := by
  induction ds with
  | nil => exact value_nil
  | cons c ds ih =>
    rw [value_cons, h c mem_cons_self, Nat.zero_mul, Nat.zero_add]
    exact ih fun d hd => h d (mem_cons_of_mem c hd)

/-- `isspace` in the C locale. -/
def isSpace (c : UInt8) : Bool := c.toNat == 32 || (9 ≤ c.toNat && c.toNat ≤ 13)

def sign : List UInt8 → Bool × List UInt8
  | [] => (false, [])
  | c :: s => if c = 45 then (true, s) else if c = 43 then (false, s) else (false, c :: s)

/-- Skip a prefix `0x` in base 16, if a digit follows. -/
def skipPrefix (base : Nat) : List UInt8 → List UInt8
  | 48 :: x :: d :: s =>
    if base = 16 ∧ (x = 120 ∨ x = 88) ∧ isDigit 16 d = true then d :: s else 48 :: x :: d :: s
  | s => s

def longMax : Int := 2 ^ 63 - 1

/-- `strtol(s, NULL, base)`, for bases up to 36. -/
def strtol (base : Nat) (s : List UInt8) : Int :=
  let r := sign (s.dropWhile isSpace)
  let v := value base ((skipPrefix base r.2).takeWhile (isDigit base))
  if r.1 then max (-v) (-longMax - 1) else min v longMax

lemma isDigit_not_isSpace {c : UInt8} (h : isDigit base c = true) : isSpace c = false := by
  unfold isDigit digitVal at h
  unfold isSpace
  split at h
  · simp; omega
  split at h
  · simp; omega
  split at h
  · simp; omega
  · cases h

lemma isDigit_ne {c d : UInt8} (h : isDigit base c = true) (hd : digitVal d = none) : c ≠ d := by
  rintro rfl
  simp [isDigit, hd] at h

lemma sign_of_isDigit {c : UInt8} {s : List UInt8} (h : isDigit base c = true) :
    sign (c :: s) = (false, c :: s) := by
  rw [sign, if_neg (isDigit_ne h (by decide)), if_neg (isDigit_ne h (by decide))]

lemma skipPrefix_digits {c : UInt8} {s : List UInt8}
    (h : ∀ x ∈ s.head?, x.toNat ≠ 120 ∧ x.toNat ≠ 88) : skipPrefix base (c :: s) = c :: s := by
  unfold skipPrefix
  split
  · rename_i x d s' heq
    obtain ⟨rfl, rfl⟩ := heq
    have hx := h x rfl
    rw [if_neg]
    rintro ⟨-, rfl | rfl, -⟩
    · exact hx.1 rfl
    · exact hx.2 rfl
  · rfl

lemma letter_ne {x : UInt8} (h : digitVal x = none ∨ isDigit base x = true) (hbase : base ≤ 16) :
    x.toNat ≠ 120 ∧ x.toNat ≠ 88 := by
  constructor
  · intro hx
    simp [isDigit, digitVal, hx] at h
    omega
  intro hx
  simp [isDigit, digitVal, hx] at h
  omega

/-- The value of a text that begins with digits. -/
theorem strtol_digits {ds rest : List UInt8} (hne : ds ≠ []) (hbase : base ≤ 16)
    (hds : ∀ c ∈ ds, isDigit base c = true) (hrest : ∀ c ∈ rest.head?, digitVal c = none) :
    strtol base (ds ++ rest) = min (value base ds : Int) longMax := by
  have hdigits : (ds ++ rest).takeWhile (isDigit base) = ds := by
    rw [takeWhile_append_of_pos hds]
    cases rest with
    | nil => simp
    | cons c rest => simp [isDigit, hrest c rfl]
  cases ds with
  | nil => contradiction
  | cons c ds =>
    have hc := hds c mem_cons_self
    have hsecond : ∀ x ∈ (ds ++ rest).head?, x.toNat ≠ 120 ∧ x.toNat ≠ 88 := by
      intro x hx
      cases ds with
      | nil => exact letter_ne (Or.inl (hrest x hx)) hbase
      | cons d ds =>
        cases hx
        exact letter_ne (Or.inr (hds x (by simp))) hbase
    rw [cons_append] at hdigits ⊢
    simp only [strtol, dropWhile_cons, isDigit_not_isSpace hc, Bool.false_eq_true, if_false,
      sign_of_isDigit hc, skipPrefix_digits hsecond, hdigits]

end Strtol
end Foundation
