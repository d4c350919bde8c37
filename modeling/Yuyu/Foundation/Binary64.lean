import Mathlib.Data.Int.Log
import Mathlib.Data.Rat.Floor

/-!
# Rounding to binary64

The normal range of binary64 as rationals with a 53-bit significand, rounded to nearest with ties
to even.  Quotients of 64-bit words are neither subnormal nor too large.
-/

namespace Foundation
namespace Binary64

def roundHalfEven (q : ℚ) : ℤ :=
  let f := ⌊q⌋
  if q - f < 1 / 2 then f
  else if 1 / 2 < q - f then f + 1
  else if f % 2 = 0 then f
  else f + 1

/-- The weight of the last significand bit of a value in the binade of `q`. -/
def ulp (q : ℚ) : ℚ := (2 : ℚ) ^ (Int.log 2 q - 52)

def round (q : ℚ) : ℚ := if q = 0 then 0 else roundHalfEven (q / ulp q) * ulp q

/-- `ceil(1.0 * a / b)` for machine words `a` and `b`, converted
back to a word. -/
def ceilDiv (a b : Nat) : Nat := ⌈round (round a / round b)⌉₊

lemma roundHalfEven_spec (q : ℚ) :
    q - 1 / 2 ≤ roundHalfEven q ∧ (roundHalfEven q : ℚ) ≤ q + 1 / 2 := by
  have hle := Int.floor_le q
  have hlt := Int.lt_floor_add_one q
  simp only [roundHalfEven]
  split_ifs <;> push_cast <;> constructor <;> linarith

lemma roundHalfEven_le {q : ℚ} {k : ℤ} (h : q ≤ k) : roundHalfEven q ≤ k := by
  rcases h.lt_or_eq with hlt | heq
  · have hfloor : ⌊q⌋ + 1 ≤ k := Int.floor_lt.mpr hlt
    simp only [roundHalfEven]
    split_ifs <;> omega
  · simp [roundHalfEven, heq]

lemma roundHalfEven_intCast (k : ℤ) : roundHalfEven (k : ℚ) = k := by
  simp [roundHalfEven]

lemma ulp_pos (q : ℚ) : 0 < ulp q := zpow_pos (by norm_num) _

lemma ulp_mul_le {q : ℚ} (hq : 0 < q) : ulp q * 2 ^ 52 ≤ q := by
  have hlog : (2 : ℚ) ^ Int.log 2 q ≤ q := by
    exact_mod_cast Int.zpow_log_le_self (b := 2) (by norm_num) hq
  have hsplit : ulp q * 2 ^ 52 = (2 : ℚ) ^ Int.log 2 q := by
    rw [ulp, ← zpow_natCast (2 : ℚ) 52, ← zpow_add₀ (by norm_num)]
    congr 1
    omega
  rw [hsplit]
  exact hlog

lemma natCast_div_ulp {q : ℚ} (hq : 0 < q) (hlt : q < 2 ^ 53) (n : Nat) :
    ∃ k : ℤ, (n : ℚ) / ulp q = k := by
  have hlog : Int.log 2 q < 53 := by
    rw [← Int.lt_zpow_iff_log_lt (by norm_num) hq]
    exact_mod_cast hlt
  obtain ⟨d, hd⟩ : ∃ d : Nat, Int.log 2 q - 52 = -(d : ℤ) := ⟨(52 - Int.log 2 q).toNat, by omega⟩
  refine ⟨n * 2 ^ d, ?_⟩
  rw [ulp, hd, zpow_neg, zpow_natCast, div_inv_eq_mul]
  push_cast
  rfl

lemma round_lower {q : ℚ} (hq : 0 < q) : q - ulp q / 2 ≤ round q := by
  have hulp := ulp_pos q
  have hspec := (roundHalfEven_spec (q / ulp q)).1
  have hmul := mul_le_mul_of_nonneg_right hspec hulp.le
  have hcancel : q / ulp q * ulp q = q := div_mul_cancel₀ q hulp.ne'
  rw [round, if_neg hq.ne']
  linarith

lemma round_le_natCast {q : ℚ} (hq : 0 < q) (hlt : q < 2 ^ 53) {n : Nat} (h : q ≤ n) :
    round q ≤ n := by
  have hulp := ulp_pos q
  obtain ⟨k, hk⟩ := natCast_div_ulp hq hlt n
  have hle : q / ulp q ≤ k := hk ▸ div_le_div_of_nonneg_right h hulp.le
  have hround : (roundHalfEven (q / ulp q) : ℚ) ≤ k := by
    exact_mod_cast roundHalfEven_le hle
  rw [round, if_neg hq.ne']
  calc (roundHalfEven (q / ulp q) : ℚ) * ulp q
      ≤ k * ulp q := mul_le_mul_of_nonneg_right hround hulp.le
    _ = n := by rw [← hk, div_mul_cancel₀ _ hulp.ne']

/-- Naturals below `2^53` are exact. -/
theorem round_natCast {n : Nat} (hn : n < 2 ^ 53) : round n = n := by
  rcases Nat.eq_zero_or_pos n with rfl | hpos
  · simp [round]
  have hq : (0 : ℚ) < n := by exact_mod_cast hpos
  have hulp := ulp_pos (n : ℚ)
  obtain ⟨k, hk⟩ := natCast_div_ulp hq (by exact_mod_cast hn) n
  rw [round, if_neg hq.ne', hk, roundHalfEven_intCast, ← hk, div_mul_cancel₀ _ hulp.ne']

lemma ceil_round {q : ℚ} {k : Nat} (hq : 0 < q) (hlt : q < 2 ^ 53)
    (hlow : (k : ℚ) + q / 2 ^ 53 < q) (hup : q ≤ (k + 1 : Nat)) : ⌈round q⌉₊ = k + 1 := by
  have hround := round_lower hq
  have hulp := ulp_mul_le hq
  rw [Nat.ceil_eq_iff (by omega)]
  refine ⟨?_, round_le_natCast hq hlt hup⟩
  push_cast
  linarith

lemma le_round_of_large {a b : Nat} (ha : a < 2 ^ 53) (hb : 2 ^ 53 ≤ b) : (a : ℚ) ≤ round b := by
  have hbq : (2 : ℚ) ^ 53 ≤ b := by exact_mod_cast hb
  have haq : (a : ℚ) + 1 ≤ 2 ^ 53 := by exact_mod_cast ha
  have hpos : (0 : ℚ) < b := by linarith
  have hround := round_lower hpos
  have hulp := ulp_mul_le hpos
  linarith

/-- The ceiling of a rounded quotient is the ceiling of the exact quotient when the dividend is such
a natural. -/
theorem ceilDiv_eq {a b : Nat} (ha : a < 2 ^ 53) (hpos : 0 < b) :
    ceilDiv a b = (a + b - 1) / b := by
  rw [ceilDiv, round_natCast ha]
  rcases Nat.eq_zero_or_pos a with rfl | hapos
  · rw [Nat.div_eq_of_lt (by omega)]
    simp [round]
  have haq : (0 : ℚ) < a := by exact_mod_cast hapos
  by_cases hb : b < 2 ^ 53
  · obtain ⟨k, hk⟩ : ∃ k, (a + b - 1) / b = k + 1 := by
      have hone : 1 ≤ (a + b - 1) / b := (Nat.one_le_div_iff hpos).mpr (by omega)
      exact ⟨(a + b - 1) / b - 1, by omega⟩
    have hdiv := Nat.div_add_mod (a + b - 1) b
    have hmod := Nat.mod_lt (a + b - 1) hpos
    rw [hk, Nat.mul_add, Nat.mul_one] at hdiv
    -- the exact quotient lies in `(k, k + 1]`, at least `1 / b` above `k`
    have hlow : (b : ℚ) * k + 1 ≤ a := by exact_mod_cast (by omega : b * k + 1 ≤ a)
    have hup : (a : ℚ) ≤ b * k + b := by exact_mod_cast (by omega : a ≤ b * k + b)
    have hbq : (0 : ℚ) < b := by exact_mod_cast hpos
    have ha53 : (a : ℚ) / 2 ^ 53 < 1 := by
      rw [div_lt_one (by norm_num)]
      exact_mod_cast ha
    have hqa : (a : ℚ) / b ≤ a := div_le_self haq.le (by exact_mod_cast hpos)
    rw [round_natCast hb, hk]
    refine ceil_round (div_pos haq hbq) (lt_of_le_of_lt hqa (by exact_mod_cast ha)) ?_ ?_
    · rw [div_right_comm, lt_div_iff₀ hbq, add_mul, div_mul_cancel₀ _ hbq.ne']
      linarith
    rw [div_le_iff₀ hbq]
    push_cast
    linarith
  have hone : (a + b - 1) / b = 1 := by
    rw [Nat.div_eq_iff hpos]
    omega
  have hround := le_round_of_large ha (Nat.not_lt.mp hb)
  have hrpos : 0 < round (b : ℚ) := lt_of_lt_of_le haq hround
  have hq := div_pos haq hrpos
  have hle : (a : ℚ) / round b ≤ 1 := (div_le_one hrpos).mpr hround
  rw [hone]
  exact ceil_round (k := 0) hq (lt_of_le_of_lt hle (by norm_num))
    (by push_cast; linarith) (by push_cast; linarith)

end Binary64
end Foundation
