import Lemonade.Contract.Memo
import Lemonade.Kernel.Checked
import Mathlib.Tactic

/-!
# Checked 64-bit arithmetic

The operators of safe.hpp return the exact integer or stop.  The guard of each
operator is read over the integers, where it says that the result lies between
the ends of the 64-bit range.  The bounds which the guards compute on the way
are exact themselves.
-/

namespace Lemonade

open Kernel

section Range

/-- The integers of `int64_t`. -/
def FitsInt64 (n : ℤ) : Prop := -2 ^ 63 ≤ n ∧ n < 2 ^ 63

theorem fitsInt64_toInt (a : Int64) : FitsInt64 a.toInt := ⟨a.le_toInt, a.toInt_lt⟩

theorem bmod_of_fitsInt64 {n : ℤ} (h : FitsInt64 n) : n.bmod (2 ^ 64) = n := by
  unfold FitsInt64 at h
  exact Int.bmod_eq_of_le (by omega) (by omega)

theorem toInt_injective : Function.Injective Int64.toInt := fun _ _ => Int64.toInt.inj

theorem zero_lt_iff_toInt {a : Int64} : 0 < a ↔ 0 < a.toInt := Int64.lt_iff_toInt_lt

theorem lt_zero_iff_toInt {a : Int64} : a < 0 ↔ a.toInt < 0 := Int64.lt_iff_toInt_lt

theorem ne_zero_of_pos {a : Int64} (h : 0 < a) : a ≠ 0 := by
  rintro rfl
  exact absurd h (by decide)

theorem eq_zero_iff_toInt {a : Int64} : a = 0 ↔ a.toInt = 0 := Int64.toInt_inj.symm

end Range

section Bounds

variable {a b : Int64}

/-! The bound expressions of the guards, in the branches that evaluate them. -/

theorem toInt_maxValue_sub (hb : 0 < b) :
    (Int64.maxValue - b).toInt = Int64.maxValue.toInt - b.toInt := by
  rw [zero_lt_iff_toInt] at hb
  have hlt := b.toInt_lt
  rw [Int64.toInt_sub, Int64.toInt_maxValue, bmod_of_fitsInt64]
  unfold FitsInt64
  omega

theorem toInt_minValue_sub (hb : b < 0) :
    (Int64.minValue - b).toInt = Int64.minValue.toInt - b.toInt := by
  rw [lt_zero_iff_toInt] at hb
  have hle := b.le_toInt
  rw [Int64.toInt_sub, Int64.toInt_minValue, bmod_of_fitsInt64]
  unfold FitsInt64
  omega

theorem toInt_minValue_add (hb : 0 < b) :
    (Int64.minValue + b).toInt = Int64.minValue.toInt + b.toInt := by
  rw [zero_lt_iff_toInt] at hb
  have hlt := b.toInt_lt
  rw [Int64.toInt_add, Int64.toInt_minValue, bmod_of_fitsInt64]
  unfold FitsInt64
  omega

theorem toInt_maxValue_add (hb : b < 0) :
    (Int64.maxValue + b).toInt = Int64.maxValue.toInt + b.toInt := by
  rw [lt_zero_iff_toInt] at hb
  have hle := b.le_toInt
  rw [Int64.toInt_add, Int64.toInt_maxValue, bmod_of_fitsInt64]
  unfold FitsInt64
  omega

theorem toInt_maxValue_div :
    (Int64.maxValue / b).toInt = Int64.maxValue.toInt.tdiv b.toInt :=
  Int64.toInt_div_of_ne_left _ _ (by decide)

theorem toInt_minValue_div (hb : 0 < b) :
    (Int64.minValue / b).toInt = Int64.minValue.toInt.tdiv b.toInt := by
  refine Int64.toInt_div_of_ne_right _ _ ?_
  rintro rfl
  exact absurd hb (by decide)

end Bounds

section Operators

/-- The operation returns the exact integer or fails because that is no 64-bit integer. -/
abbrev Checked64 (x : Result Int64) (n : ℤ) : Prop := Checked Int64.toInt FitsInt64 x n

variable {a b r : Int64}

theorem Checked64.ok_iff {x : Result Int64} {n : ℤ} (h : Checked64 x n) :
    x = .ok r ↔ r.toInt = n :=
  h.eq_ok_iff toInt_injective fitsInt64_toInt

/-- The wrapped result is exact if the exact result fits. -/
theorem toInt_eq_of_bmod
    {c : Int64} {n : ℤ} (hc : c.toInt = n.bmod (2 ^ 64)) (hn : FitsInt64 n) : c.toInt = n :=
  hc.trans (bmod_of_fitsInt64 hn)

theorem checked_safeAdd (a b : Int64) : Checked64 (safeAdd a b) (a.toInt + b.toInt) := by
  have hupper : 0 < b ∧ Int64.maxValue - b < a ↔ 2 ^ 63 - 1 < a.toInt + b.toInt := by
    have ha := a.toInt_lt
    rw [and_congr_right fun hb => by rw [Int64.lt_iff_toInt_lt, toInt_maxValue_sub hb],
      zero_lt_iff_toInt, Int64.toInt_maxValue]
    omega
  have hlower : b < 0 ∧ a < Int64.minValue - b ↔ a.toInt + b.toInt < -2 ^ 63 := by
    have ha := a.le_toInt
    rw [and_congr_right fun hb => by rw [Int64.lt_iff_toInt_lt, toInt_minValue_sub hb],
      lt_zero_iff_toInt, Int64.toInt_minValue]
    omega
  refine checked_of_demand_demand ?_ (toInt_eq_of_bmod (Int64.toInt_add a b))
  rw [hupper, hlower]
  unfold FitsInt64
  omega

theorem checked_safeSub (a b : Int64) : Checked64 (safeSub a b) (a.toInt - b.toInt) := by
  have hlower : 0 < b ∧ a < Int64.minValue + b ↔ a.toInt - b.toInt < -2 ^ 63 := by
    have ha := a.le_toInt
    rw [and_congr_right fun hb => by rw [Int64.lt_iff_toInt_lt, toInt_minValue_add hb],
      zero_lt_iff_toInt, Int64.toInt_minValue]
    omega
  have hupper : b < 0 ∧ Int64.maxValue + b < a ↔ 2 ^ 63 - 1 < a.toInt - b.toInt := by
    have ha := a.toInt_lt
    rw [and_congr_right fun hb => by rw [Int64.lt_iff_toInt_lt, toInt_maxValue_add hb],
      lt_zero_iff_toInt, Int64.toInt_maxValue]
    omega
  refine checked_of_demand_demand ?_ (toInt_eq_of_bmod (Int64.toInt_sub a b))
  rw [hlower, hupper]
  unfold FitsInt64
  omega

/-- The guard of a product, with one branch for each pair of signs. -/
theorem checked_safeMul (a b : Int64) : Checked64 (safeMul a b) (a.toInt * b.toInt) := by
  have hmul := toInt_eq_of_bmod (Int64.toInt_mul a b)
  unfold safeMul
  split_ifs with ha hb hb
  · refine checked_of_demand ?_ hmul
    rw [Int64.lt_iff_toInt_lt, toInt_maxValue_div, Int64.toInt_maxValue]
    rw [zero_lt_iff_toInt] at ha hb
    rw [tdiv_lt_iff hb (by norm_num)]
    have hpos := Int.mul_pos ha hb
    unfold FitsInt64
    omega
  · refine checked_of_demand ?_ hmul
    rw [Int64.lt_iff_toInt_lt, toInt_minValue_div ha, Int64.toInt_minValue]
    rw [zero_lt_iff_toInt] at ha hb
    rw [lt_tdiv_iff ha (by norm_num)]
    have hneg := Int.mul_nonpos_of_nonneg_of_nonpos ha.le (not_lt.mp hb)
    unfold FitsInt64
    rw [mul_comm]
    omega
  · refine checked_of_demand ?_ hmul
    rw [Int64.lt_iff_toInt_lt, toInt_minValue_div hb, Int64.toInt_minValue]
    rw [zero_lt_iff_toInt] at ha hb
    rw [lt_tdiv_iff hb (by norm_num)]
    have hneg := Int.mul_nonpos_of_nonpos_of_nonneg (not_lt.mp ha) hb.le
    unfold FitsInt64
    omega
  · refine checked_of_demand ?_ hmul
    rw [Int64.lt_iff_toInt_lt, toInt_maxValue_div, Int64.toInt_maxValue, ne_eq,
      eq_zero_iff_toInt]
    rw [zero_lt_iff_toInt] at ha hb
    have hpos := Int.mul_nonneg_of_nonpos_of_nonpos (not_lt.mp ha) (not_lt.mp hb)
    unfold FitsInt64
    rcases (not_lt.mp ha).eq_or_lt with hzero | hneg
    · simp [hzero]
    · rw [lt_tdiv_neg_iff hneg (by norm_num), mul_comm]
      omega

/-- Only the quotient of the smallest value by minus one does not fit. -/
theorem fitsInt64_tdiv_iff
    (hb : b ≠ 0) :
    FitsInt64 (a.toInt.tdiv b.toInt) ↔ ¬ (a = Int64.minValue ∧ b = -1) := by
  constructor
  · rintro h ⟨rfl, rfl⟩
    revert h
    unfold FitsInt64
    decide
  · intro h
    rcases not_and_or.mp h with ha | hb
    · exact Int64.toInt_div_of_ne_left a b ha ▸ fitsInt64_toInt (a / b)
    · exact Int64.toInt_div_of_ne_right a b hb ▸ fitsInt64_toInt (a / b)

theorem checked_safeDiv
    (a : Int64) (hb : b ≠ 0) :
    Checked64 (safeDiv a b) (a.toInt.tdiv b.toInt) := by
  refine checked_of_demand_demand ?_ (toInt_eq_of_bmod (Int64.toInt_div a b))
  rw [fitsInt64_tdiv_iff hb]
  exact and_iff_right hb

theorem checked_safeNeg (a : Int64) : Checked64 (safeNeg a) (-a.toInt) := by
  refine checked_of_demand ?_ (toInt_eq_of_bmod (Int64.toInt_neg a))
  have hle := a.le_toInt
  have hlt := a.toInt_lt
  rw [← Int64.toInt_inj, Int64.toInt_minValue]
  unfold FitsInt64
  omega

end Operators

section Main

variable {a b : Int64}

/-- Where a guard of the pair is evaluated, its bound is an exact 64-bit integer, and
a divisor is not zero. -/
structure GuardsExact (a b : Int64) : Prop where
  add_upper : 0 < b → (Int64.maxValue - b).toInt = Int64.maxValue.toInt - b.toInt
  add_lower : b < 0 → (Int64.minValue - b).toInt = Int64.minValue.toInt - b.toInt
  sub_lower : 0 < b → (Int64.minValue + b).toInt = Int64.minValue.toInt + b.toInt
  sub_upper : b < 0 → (Int64.maxValue + b).toInt = Int64.maxValue.toInt + b.toInt
  mul_pos_pos : 0 < a → 0 < b →
    b ≠ 0 ∧ (Int64.maxValue / b).toInt = Int64.maxValue.toInt.tdiv b.toInt
  mul_pos_nonpos : 0 < a → ¬ 0 < b →
    a ≠ 0 ∧ (Int64.minValue / a).toInt = Int64.minValue.toInt.tdiv a.toInt
  mul_nonpos_pos : ¬ 0 < a → 0 < b →
    b ≠ 0 ∧ (Int64.minValue / b).toInt = Int64.minValue.toInt.tdiv b.toInt
  mul_nonpos_nonpos : ¬ 0 < a → ¬ 0 < b → a ≠ 0 →
    (Int64.maxValue / a).toInt = Int64.maxValue.toInt.tdiv a.toInt

theorem guardsExact (a b : Int64) : GuardsExact a b where
  add_upper := toInt_maxValue_sub
  add_lower := toInt_minValue_sub
  sub_lower := toInt_minValue_add
  sub_upper := toInt_maxValue_add
  mul_pos_pos _ hb := ⟨ne_zero_of_pos hb, toInt_maxValue_div⟩
  mul_pos_nonpos ha _ := ⟨ne_zero_of_pos ha, toInt_minValue_div ha⟩
  mul_nonpos_pos _ hb := ⟨ne_zero_of_pos hb, toInt_minValue_div hb⟩
  mul_nonpos_nonpos _ _ _ := toInt_maxValue_div

/-- Every operator returns the exact integer or stops, and, the remainder apart, it
stops just when that integer does not fit or the divisor is zero. -/
theorem safe_arithmetic_is_exact_or_stops (a b : Int64) :
    Checked64 (safeAdd a b) (a.toInt + b.toInt) ∧
      Checked64 (safeSub a b) (a.toInt - b.toInt) ∧
      Checked64 (safeMul a b) (a.toInt * b.toInt) ∧
      Checked64 (safeNeg a) (-a.toInt) ∧
      (∀ r, safeDiv a b = .ok r → r.toInt = a.toInt.tdiv b.toInt) ∧
      (Succeeds (safeDiv a b) ↔ b ≠ 0 ∧ FitsInt64 (a.toInt.tdiv b.toInt)) ∧
      (∀ r, safeMod a b = .ok r → b ≠ 0 ∧ r.toInt = a.toInt.tmod b.toInt) ∧
      GuardsExact a b := by
  refine ⟨checked_safeAdd a b, checked_safeSub a b, checked_safeMul a b, checked_safeNeg a,
    ?_, ?_, ?_, guardsExact a b⟩
  · intro r hr
    have hb : b ≠ 0 := by
      simp only [safeDiv, bind_eq_ok_iff, check_eq_ok_iff] at hr
      exact hr.choose_spec.1
    exact (checked_safeDiv a hb).exact r hr
  · by_cases hb : b = 0
    · simp [safeDiv, hb]
    · rw [(checked_safeDiv a hb).succeeds_iff]
      exact (and_iff_right hb).symm
  · intro r hr
    simp only [safeMod, bind_eq_ok_iff, check_eq_ok_iff, pure_eq_ok_iff] at hr
    obtain ⟨_, hb, _, _, rfl⟩ := hr
    exact ⟨hb, Int64.toInt_mod a b⟩

end Main

end Lemonade
