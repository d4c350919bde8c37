import Yuyu.Foundation.Strtol
import Mathlib.Data.List.TakeWhile
import Mathlib.Data.Nat.Digits.Lemmas

/-!
# Numbers printed in decimal

The text that an output stream gives for an integer, also in hexadecimal, and readers of such
text.
-/

namespace Foundation
namespace Decimal

open Strtol List

/-- The digit character of a number below ten. -/
def digit (d : Nat) : UInt8 := UInt8.ofNat (48 + d)

/-- The digits of a number in the given base. -/
def positional (base : Nat) (digit : Nat → UInt8) (n : Nat) : List UInt8 :=
  if n = 0 then [digit 0] else ((Nat.digits base n).map digit).reverse

/-- `os << n` for an unsigned number. -/
def decimal : Nat → List UInt8 := positional 10 digit

/-- The digit character of a number below sixteen. -/
def hexDigit (d : Nat) : UInt8 := if d < 10 then digit d else UInt8.ofNat (87 + d)

/-- `os << std::hex << n` for an unsigned number. -/
def hexadecimal : Nat → List UInt8 := positional 16 hexDigit

/-- `os << v` for a signed number. -/
def printInt (v : Int) : List UInt8 := if v < 0 then 45 :: decimal v.natAbs else decimal v.natAbs

lemma toNat_digit {d : Nat} (h : d < 10) : (digit d).toNat = 48 + d := by
  unfold digit
  simp
  omega

lemma digitVal_digit {d : Nat} (h : d < 10) : digitVal (digit d) = some d := by
  simp only [digitVal, toNat_digit h]
  rw [if_pos (by omega), Nat.add_sub_cancel_left]

lemma digitVal_hexDigit : ∀ d < 16, digitVal (hexDigit d) = some d := by
  decide

section Positional

variable {base : Nat} {digit : Nat → UInt8} (hdigit : ∀ d < base, digitVal (digit d) = some d)

include hdigit

lemma value_reverse {ds : List Nat} (h : ∀ d ∈ ds, d < base) :
    value base (ds.map digit).reverse = Nat.ofDigits base ds := by
  induction ds with
  | nil => rfl
  | cons d ds ih =>
    have hd : (digitVal (digit d)).getD 0 = d := by
      rw [hdigit d (h d mem_cons_self), Option.getD_some]
    have hds := ih fun e he => h e (mem_cons_of_mem d he)
    rw [map_cons, reverse_cons, value_append, hds, value_cons, hd, Nat.ofDigits_cons]
    simp
    ring

lemma value_positional (hbase : 1 < base) (n : Nat) : value base (positional base digit n) = n := by
  unfold positional
  split
  · rename_i hn
    rw [value_cons, hdigit 0 (by omega), hn]
    simp
  · rw [value_reverse hdigit fun d hd => Nat.digits_lt_base hbase hd, Nat.ofDigits_digits]

lemma isDigit_of_mem_positional (hbase : 1 < base) {n : Nat} {c : UInt8}
    (h : c ∈ positional base digit n) : isDigit base c = true := by
  have hall : ∀ d < base, isDigit base (digit d) = true := by
    intro d hd
    simp [isDigit, hdigit d hd, hd]
  unfold positional at h
  split at h
  · rw [mem_singleton.mp h]
    exact hall 0 (by omega)
  rw [mem_reverse, mem_map] at h
  obtain ⟨d, hd, rfl⟩ := h
  exact hall d (Nat.digits_lt_base hbase hd)

end Positional

lemma positional_ne_nil (base : Nat) (digit : Nat → UInt8) (n : Nat) :
    positional base digit n ≠ [] := by
  unfold positional
  split
  · simp
  · rename_i hn
    simpa using Nat.digits_ne_nil_iff_ne_zero.mpr hn

lemma length_positional_le {base n k : Nat} (digit : Nat → UInt8) (hbase : 1 < base) (hk : 0 < k)
    (hn : n < base ^ k) : (positional base digit n).length ≤ k := by
  unfold positional
  split
  · exact hk
  · rw [length_reverse, length_map]
    exact (Nat.digits_length_le_iff hbase n).mpr hn

/-- The digits printed have the value of the number. -/
theorem value_decimal (n : Nat) : value 10 (decimal n) = n := by
  rw [decimal, value_positional (fun _ => digitVal_digit) (by decide)]

lemma isDigit_of_mem_decimal {n : Nat} {c : UInt8} (h : c ∈ decimal n) : isDigit 10 c = true :=
  isDigit_of_mem_positional (fun _ => digitVal_digit) (by decide) h

lemma decimal_ne_nil (n : Nat) : decimal n ≠ [] := positional_ne_nil 10 digit n

/-- An unsigned number of 64 bits that takes up the whole text, with an optional
sign; a minus sign negates modulo the word. -/
def readUnsigned (s : List UInt8) : Option UInt64 :=
  let r := sign s
  let v := value 10 r.2
  if r.2 ≠ [] ∧ r.2.all (isDigit 10) = true ∧ v < 2 ^ 64 then
    some (if r.1 then -UInt64.ofNat v else UInt64.ofNat v)
  else none

lemma sign_decimal (n : Nat) : sign (decimal n) = (false, decimal n) := by
  cases hdec : decimal n with
  | nil => exact absurd hdec (decimal_ne_nil n)
  | cons c s => exact sign_of_isDigit (isDigit_of_mem_decimal (hdec ▸ mem_cons_self))

/-- The unsigned reader gives the number back. -/
theorem readUnsigned_decimal {n : Nat} (h : n < 2 ^ 64) :
    readUnsigned (decimal n) = some (UInt64.ofNat n) := by
  have hdigits : (decimal n).all (isDigit 10) = true :=
    all_eq_true.mpr fun c hc => isDigit_of_mem_decimal hc
  simp only [readUnsigned, sign_decimal, value_decimal]
  rw [if_pos ⟨decimal_ne_nil n, hdigits, h⟩]
  rfl

/-- A signed number that takes up the whole text, with an optional sign. -/
def readSigned (s : List UInt8) : Option Int :=
  let r := sign s
  if r.2 ≠ [] ∧ r.2.all (isDigit 10) = true then
    some (if r.1 then -(value 10 r.2 : Int) else value 10 r.2)
  else none

/-- The signed reader gives the number back. -/
theorem readSigned_printInt (v : Int) : readSigned (printInt v) = some v := by
  have hdigits : (decimal v.natAbs).all (isDigit 10) = true :=
    all_eq_true.mpr fun c hc => isDigit_of_mem_decimal hc
  have hsign : sign (printInt v) = (decide (v < 0), decimal v.natAbs) := by
    unfold printInt
    split
    · rename_i hneg
      simp [sign, hneg]
    · rename_i hneg
      simp [sign_decimal, hneg]
  simp only [readSigned, hsign, value_decimal]
  rw [if_pos ⟨decimal_ne_nil _, hdigits⟩]
  split
  · rename_i hneg
    have hlt : v < 0 := of_decide_eq_true hneg
    congr 1
    omega
  · rename_i hneg
    have hge : ¬ v < 0 := fun hlt => hneg (decide_eq_true hlt)
    congr 1
    omega

end Decimal
end Foundation
