import Mathlib.Data.BitVec

/-!
# Words as bytes

The bytes of a word from the lowest on, the reversal of their order, and the
bit-level facts behind seven-bit groups and the zigzag code.
-/

namespace Foundation
namespace WordBytes

variable {w : Nat}

/-- The lowest `n` bytes of a word, lowest first. -/
def leBytes : Nat → BitVec w → List (BitVec 8)
  | 0, _ => []
  | n + 1, v => v.setWidth 8 :: leBytes n (v >>> 8)

def ofLeBytes : List (BitVec 8) → BitVec w
  | [] => 0
  | c :: cs => ofLeBytes cs <<< 8 ||| c.setWidth w

/-- Reverse the order of the `n` bytes of a word. -/
def byteswap (n : Nat) (v : BitVec w) : BitVec w := ofLeBytes (leBytes n v).reverse

@[simp]
lemma length_leBytes (n : Nat) (v : BitVec w) : (leBytes n v).length = n := by
  induction n generalizing v with
  | zero => rfl
  | succ n ih => simp [leBytes, ih]

lemma getLsbD_ofLeBytes (l : List (BitVec 8)) (i : Nat) :
    (ofLeBytes l : BitVec w).getLsbD i =
      (decide (i < w) && (l.getD (i / 8) 0).getLsbD (i % 8)) := by
  induction l generalizing i with
  | nil => simp [ofLeBytes]
  | cons c cs ih =>
    simp only [ofLeBytes, BitVec.getLsbD_or, BitVec.getLsbD_shiftLeft, BitVec.getLsbD_setWidth, ih]
    by_cases hi : i < 8
    · simp [hi, Nat.div_eq_of_lt hi, Nat.mod_eq_of_lt hi]
    have hdiv : i / 8 = (i - 8) / 8 + 1 := by omega
    have hmod : i % 8 = (i - 8) % 8 := by omega
    have hc : c.getLsbD i = false := BitVec.getLsbD_of_ge c i (by omega)
    simp only [hi, hdiv, hmod, hc, List.getD_cons_succ, decide_false, Bool.not_false,
      Bool.and_true, Bool.and_false, Bool.or_false]
    by_cases hw : i < w
    · have hw' : i - 8 < w := by omega
      simp [hw, hw']
    · simp [hw]

lemma getD_leBytes (n : Nat) (v : BitVec w) (k : Nat) (hk : k < n) :
    (leBytes n v).getD k 0 = (v >>> (8 * k)).setWidth 8 := by
  induction n generalizing v k with
  | zero => omega
  | succ n ih =>
    cases k with
    | zero => simp [leBytes]
    | succ k =>
      rw [leBytes, List.getD_cons_succ, ih _ _ (by omega), ← BitVec.shiftRight_add,
        Nat.mul_succ, Nat.add_comm]

/-- A word is recovered from its bytes. -/
theorem ofLeBytes_leBytes {n : Nat} (hw : w = 8 * n) (v : BitVec w) :
    ofLeBytes (leBytes n v) = v := by
  apply BitVec.eq_of_getLsbD_eq
  intro i hi
  rw [getLsbD_ofLeBytes, getD_leBytes n v _ (by omega)]
  have hmod : i % 8 < 8 := Nat.mod_lt _ (by decide)
  have hsum : 8 * (i / 8) + i % 8 = i := by omega
  simp [hi, hmod, hsum]

lemma leBytes_ofLeBytes {n : Nat} (hw : w = 8 * n) (l : List (BitVec 8)) (hl : l.length = n) :
    leBytes n (ofLeBytes l : BitVec w) = l := by
  apply List.ext_getElem (by simp [hl])
  intro k hk hk'
  have hkn : k < n := by simpa using hk
  have hget := getD_leBytes n (ofLeBytes l : BitVec w) k hkn
  rw [← List.getElem_eq_getD (h := hk)] at hget
  rw [hget]
  apply BitVec.eq_of_getLsbD_eq
  intro i hi
  have hdiv : (8 * k + i) / 8 = k := by omega
  have hmod : (8 * k + i) % 8 = i := by omega
  have hlt : 8 * k + i < w := by omega
  rw [BitVec.getLsbD_setWidth, BitVec.getLsbD_ushiftRight, getLsbD_ofLeBytes, hdiv, hmod,
    ← List.getElem_eq_getD (h := hk')]
  simp [hi, hlt]

/-- Reversing the bytes twice changes nothing. -/
theorem byteswap_byteswap {n : Nat} (hw : w = 8 * n) (v : BitVec w) :
    byteswap n (byteswap n v) = v := by
  rw [byteswap, byteswap, leBytes_ofLeBytes hw _ (by simp), List.reverse_reverse,
    ofLeBytes_leBytes hw]

lemma getLsbD_byteswap {n : Nat} (hw : w = 8 * n) (v : BitVec w) {i : Nat} (hi : i < w) :
    (byteswap n v).getLsbD i = v.getLsbD (8 * (n - 1 - i / 8) + i % 8) := by
  have hlt : i / 8 < (leBytes n v).length := by
    rw [length_leBytes]
    omega
  have hmod : i % 8 < 8 := Nat.mod_lt _ (by decide)
  have hrev : (leBytes n v).reverse.getD (i / 8) 0 = (leBytes n v).getD (n - 1 - i / 8) 0 := by
    rw [List.getD_eq_getElem?_getD, List.getElem?_reverse hlt, length_leBytes,
      List.getD_eq_getElem?_getD]
  rw [byteswap, getLsbD_ofLeBytes, hrev, getD_leBytes n v _ (by omega)]
  simp [hi, hmod]

section Bitwise

variable {n : Nat} (hw : w = 8 * n) (u v : BitVec w)

include hw

lemma byteswap_and : byteswap n (u &&& v) = byteswap n u &&& byteswap n v := by
  apply BitVec.eq_of_getLsbD_eq
  intro i hi
  simp only [BitVec.getLsbD_and, getLsbD_byteswap hw _ hi]

lemma byteswap_or : byteswap n (u ||| v) = byteswap n u ||| byteswap n v := by
  apply BitVec.eq_of_getLsbD_eq
  intro i hi
  simp only [BitVec.getLsbD_or, getLsbD_byteswap hw _ hi]

lemma byteswap_not : byteswap n (~~~v) = ~~~byteswap n v := by
  apply BitVec.eq_of_getLsbD_eq
  intro i hi
  have hlt : 8 * (n - 1 - i / 8) + i % 8 < w := by omega
  simp only [BitVec.getLsbD_not, getLsbD_byteswap hw _ hi, hi, hlt]

end Bitwise

lemma getLsbD_lowGroup (i : Nat) : (0x7f#w).getLsbD i = (decide (i < w) && decide (i < 7)) := by
  rw [BitVec.getLsbD_ofNat, show (127 : Nat) = 2 ^ 7 - 1 from rfl, Nat.testBit_two_pow_sub_one]

lemma getLsbD_continuation (i : Nat) : (0x80#w).getLsbD i = (decide (i < w) && decide (7 = i)) := by
  rw [BitVec.getLsbD_ofNat, show (128 : Nat) = 2 ^ 7 from rfl, Nat.testBit_two_pow]

lemma group_of_continued (v : BitVec w) :
    ((((v &&& 0x7f#w) ||| 0x80#w).setWidth 8) &&& 0x7f#8).setWidth w = v &&& 0x7f#w := by
  apply BitVec.eq_of_getLsbD_eq
  intro i hi
  simp only [BitVec.getLsbD_setWidth, BitVec.getLsbD_and, BitVec.getLsbD_or, getLsbD_lowGroup,
    getLsbD_continuation, hi]
  by_cases h7 : i < 7
  · simp [h7, show i < 8 by omega, show ¬ 7 = i by omega]
  · simp [h7]

lemma continued_ge (hw : 8 ≤ w) (v : BitVec w) :
    ¬ (((v &&& 0x7f#w) ||| 0x80#w).setWidth 8) < 0x80#8 := by
  have hbit : (((v &&& 0x7f#w) ||| 0x80#w).setWidth 8).msb = true := by
    rw [BitVec.msb_eq_getLsbD_last]
    simp [getLsbD_continuation, show 7 < w by omega]
  rw [BitVec.msb_eq_decide, decide_eq_true_iff] at hbit
  rw [BitVec.lt_def]
  exact Nat.not_lt.mpr hbit

lemma setWidth_of_lt (hw : 8 ≤ w) {v : BitVec w} (hv : v < 0x80#w) :
    (v.setWidth 8).setWidth w = v ∧ v.setWidth 8 < 0x80#8 := by
  have hpow : 2 ^ 8 ≤ 2 ^ w := Nat.pow_le_pow_right (by decide) hw
  have hlt : v.toNat < 128 := by
    rw [BitVec.lt_def, BitVec.toNat_ofNat, Nat.mod_eq_of_lt (by omega)] at hv
    exact hv
  have hbyte : v.toNat % 2 ^ 8 = v.toNat := Nat.mod_eq_of_lt (by omega)
  constructor
  · apply BitVec.eq_of_toNat_eq
    rw [BitVec.toNat_setWidth, BitVec.toNat_setWidth, hbyte, Nat.mod_eq_of_lt v.isLt]
  · rw [BitVec.lt_def, BitVec.toNat_setWidth, hbyte]
    exact hlt

lemma shiftLeft_groups (v : BitVec w) (i : Nat) :
    (v &&& 0x7f#w) <<< i ||| (v >>> 7) <<< (i + 7) = v <<< i := by
  apply BitVec.eq_of_getLsbD_eq
  intro j hj
  simp only [BitVec.getLsbD_or, BitVec.getLsbD_shiftLeft, BitVec.getLsbD_and, getLsbD_lowGroup,
    BitVec.getLsbD_ushiftRight, hj]
  by_cases hi : j < i
  · simp [hi, show j < i + 7 by omega]
  by_cases h7 : j < i + 7
  · simp [hi, h7, show j - i < 7 by omega, show j - i < w by omega]
  · have hsub : 7 + (j - (i + 7)) = j - i := by omega
    simp [hi, h7, hsub, show ¬ j - i < 7 by omega]

def zigzagEncode (v : BitVec w) : BitVec w := if v.slt 0#w then (-v) * 2#w - 1#w else v * 2#w

def zigzagDecode (v : BitVec w) : BitVec w := (v >>> 1) ^^^ (-(v &&& 1#w))

lemma mul_two_eq_shiftLeft (v : BitVec w) : v * 2#w = v <<< 1 := by
  rw [BitVec.shiftLeft_eq_mul_twoPow]
  congr 1
  apply BitVec.eq_of_toNat_eq
  simp [BitVec.toNat_twoPow]

lemma and_one (v : BitVec w) : v &&& 1#w = if v.getLsbD 0 then 1#w else 0#w := by
  apply BitVec.eq_of_getLsbD_eq
  intro i hi
  rw [BitVec.getLsbD_and, BitVec.getLsbD_one]
  by_cases h0 : i = 0
  · subst h0
    cases v.getLsbD 0 <;> simp [hi]
  · cases v.getLsbD 0 <;> simp [h0, BitVec.getLsbD_one]

lemma getLsbD_shiftLeft_one_succ (v : BitVec w) (i : Nat) :
    (v <<< 1).getLsbD (1 + i) = (decide (1 + i < w) && v.getLsbD i) := by
  rw [BitVec.getLsbD_shiftLeft, Nat.add_sub_cancel_left]
  simp

/-- The zigzag code is invertible in wrapping arithmetic. -/
theorem zigzagDecode_zigzagEncode (hw : 0 < w) (v : BitVec w) :
    zigzagDecode (zigzagEncode v) = v := by
  have hmsb := BitVec.msb_eq_getLsbD_last v
  rw [zigzagEncode, BitVec.slt_zero_eq_msb]
  cases hsign : v.msb with
  | true =>
    -- the code of a negative value is the complement of its double
    have hcode : -v * 2#w - 1#w = ~~~ (v <<< 1) := by
      rw [BitVec.not_eq_neg_add, ← mul_two_eq_shiftLeft, BitVec.neg_mul]
    have hodd : (~~~ (v <<< 1)).getLsbD 0 = true := by simp [hw]
    rw [if_pos rfl, hcode, zigzagDecode, and_one, hodd, if_pos rfl, BitVec.neg_one_eq_allOnes]
    apply BitVec.eq_of_getLsbD_eq
    intro i hi
    rw [BitVec.getLsbD_xor, BitVec.getLsbD_ushiftRight, BitVec.getLsbD_not,
      getLsbD_shiftLeft_one_succ, BitVec.getLsbD_allOnes]
    by_cases hlast : 1 + i < w
    · simp [hlast, hi]
    · obtain rfl : i = w - 1 := by omega
      simp [hlast, hi, hmsb.symm.trans hsign]
  | false =>
    have heven : (v <<< 1).getLsbD 0 = false := by simp
    rw [if_neg (by decide), mul_two_eq_shiftLeft, zigzagDecode, and_one, heven, if_neg (by decide)]
    apply BitVec.eq_of_getLsbD_eq
    intro i hi
    rw [BitVec.getLsbD_xor, BitVec.getLsbD_ushiftRight, getLsbD_shiftLeft_one_succ]
    by_cases hlast : 1 + i < w
    · simp [hlast]
    · obtain rfl : i = w - 1 := by omega
      simp [hlast, hmsb.symm.trans hsign]

end WordBytes
end Foundation
