import Lemonade.Kernel.Rounding
import Mathlib.Algebra.Order.Floor.Ring
import Mathlib.Data.Int.Log
import Mathlib.Data.Rat.Floor
import Mathlib.Tactic

/-!
# Doubles

Arithmetic on doubles is exact arithmetic whose results are rounded.  A program is
written with the rounding `Doubles.rnd` after each operation, and has two readings:
with `Binary64.doubles` it computes as the hardware does, with `Idealised.doubles`
no result is rounded.

`nearest p` rounds to `p` significant bits, to the even one of two neighbours that
are equally near.  The exponent is unbounded: subnormal numbers, infinities and
results that are no number do not occur.
-/

namespace Lemonade
namespace Kernel

section HalfEven

variable {K : Type*} [Field K] [LinearOrder K] [FloorRing K]

/-- The nearest integer, the even one in the middle between two. -/
def roundHalfEven (x : K) : ℤ :=
  if x - ⌊x⌋ < 1 / 2 then ⌊x⌋
  else if 1 / 2 < x - ⌊x⌋ then ⌊x⌋ + 1
  else if ⌊x⌋ % 2 = 0 then ⌊x⌋
  else ⌊x⌋ + 1

theorem floor_le_roundHalfEven (x : K) : ⌊x⌋ ≤ roundHalfEven x := by
  unfold roundHalfEven
  split_ifs <;> omega

theorem roundHalfEven_le_floor_add_one (x : K) : roundHalfEven x ≤ ⌊x⌋ + 1 := by
  unfold roundHalfEven
  split_ifs <;> omega

variable [IsStrictOrderedRing K]

theorem abs_roundHalfEven_sub_le (x : K) : |(roundHalfEven x : K) - x| ≤ 1 / 2 := by
  have hlow := Int.floor_le x
  have hhigh := Int.lt_floor_add_one x
  rw [abs_le]
  unfold roundHalfEven
  split_ifs <;> push_cast <;> constructor <;> linarith

@[simp] theorem roundHalfEven_intCast (n : ℤ) : roundHalfEven (n : K) = n := by
  simp [roundHalfEven]

theorem roundHalfEven_mono : Monotone (roundHalfEven : K → ℤ) := by
  intro x y hxy
  rcases (Int.floor_mono hxy).lt_or_eq with hlt | heq
  · have hx := roundHalfEven_le_floor_add_one x
    have hy := floor_le_roundHalfEven y
    omega
  · -- in one unit interval the fractional parts decide
    have hsub : x - ⌊x⌋ ≤ y - ⌊x⌋ := sub_le_sub_right hxy _
    unfold roundHalfEven
    rw [← heq]
    split_ifs <;> first | omega | linarith

theorem roundHalfEven_neg (x : K) : roundHalfEven (-x) = -roundHalfEven x := by
  by_cases hint : (⌊x⌋ : K) = x
  · rw [← hint, ← Int.cast_neg, roundHalfEven_intCast, roundHalfEven_intCast]
  · have hlow : (⌊x⌋ : K) < x := lt_of_le_of_ne (Int.floor_le x) hint
    have hhigh := Int.lt_floor_add_one x
    have hfloor : ⌊-x⌋ = -⌊x⌋ - 1 := by
      rw [Int.floor_eq_iff]
      push_cast
      constructor <;> linarith
    unfold roundHalfEven
    rw [hfloor]
    push_cast
    split_ifs <;> first | omega | linarith

end HalfEven

section SignificantBits

variable {K : Type*} [Field K] [LinearOrder K] [FloorRing K]

/-- The distance of the numbers with `p` significant bits around `x`. -/
def quantum (p : ℕ) (x : K) : K := 2 ^ (Int.log 2 |x| - p + 1)

/-- The nearest number with `p` significant bits. -/
def nearest (p : ℕ) (x : K) : K := roundHalfEven (x / quantum p x) * quantum p x

theorem two_pow_mul_quantum (p : ℕ) (x : K) :
    2 ^ p * quantum p x = 2 ^ (Int.log 2 |x| + 1) := by
  rw [quantum, ← zpow_natCast, ← zpow_add₀ (two_ne_zero' K)]
  congr 1
  ring

variable [IsStrictOrderedRing K]

theorem quantum_pos (p : ℕ) (x : K) : 0 < quantum p x := by
  unfold quantum
  positivity

theorem abs_lt_two_pow_mul_quantum (p : ℕ) (x : K) : |x| < 2 ^ p * quantum p x := by
  rw [two_pow_mul_quantum]
  exact Int.lt_zpow_succ_log_self (by norm_num) |x|

/-- The last place of a number from `2 ^ k` on -/
theorem zpow_le_quantum (p : ℕ) {x : K} {k : ℤ} (h : 2 ^ k ≤ x) :
    2 ^ (k - p + 1) ≤ quantum p x := by
  have hpos : 0 < x := lt_of_lt_of_le (by positivity) h
  have hlog : k ≤ Int.log 2 x :=
    (Int.zpow_le_iff_le_log (by norm_num) hpos).mp (by exact_mod_cast h)
  rw [quantum, abs_of_pos hpos]
  exact zpow_le_zpow_right₀ (by norm_num) (by omega)

@[simp] theorem nearest_zero (p : ℕ) : nearest p (0 : K) = 0 := by
  have hzero := roundHalfEven_intCast (K := K) 0
  rw [Int.cast_zero] at hzero
  rw [nearest, zero_div, hzero, Int.cast_zero, zero_mul]

theorem nearest_neg (p : ℕ) (x : K) : nearest p (-x) = -nearest p x := by
  rw [nearest, nearest, quantum, abs_neg, ← quantum, neg_div, roundHalfEven_neg]
  push_cast
  ring

theorem abs_nearest_sub_le_quantum (p : ℕ) (x : K) :
    |nearest p x - x| ≤ quantum p x / 2 := by
  have hpos := quantum_pos p x
  have hfactor : nearest p x - x =
      (roundHalfEven (x / quantum p x) - x / quantum p x) * quantum p x := by
    rw [nearest, sub_mul, div_mul_cancel₀ _ hpos.ne']
  rw [hfactor, abs_mul, abs_of_pos hpos]
  have herror := abs_roundHalfEven_sub_le (x / quantum p x)
  calc |(roundHalfEven (x / quantum p x) : K) - x / quantum p x| * quantum p x
      ≤ 1 / 2 * quantum p x := mul_le_mul_of_nonneg_right herror hpos.le
    _ = quantum p x / 2 := by ring

/-- A number is rounded down by at most half of its last place. -/
theorem sub_le_nearest (p : ℕ) {x : K} (hx : 0 < x) :
    x - 2 ^ Int.log 2 x / 2 ^ p ≤ nearest p x := by
  have hscale := two_pow_mul_quantum p x
  rw [zpow_add_one₀ (two_ne_zero' K), abs_of_pos hx] at hscale
  have hhalf : quantum p x / 2 = 2 ^ Int.log 2 x / 2 ^ p := by
    rw [eq_div_iff (by positivity)]
    linarith
  have herror := (abs_le.mp (abs_nearest_sub_le_quantum p x)).1
  rw [hhalf] at herror
  linarith

/-- The error is at most half a unit in the last place. -/
theorem abs_nearest_sub_le (p : ℕ) (x : K) : |nearest p x - x| ≤ |x| / 2 ^ p := by
  rcases eq_or_ne x 0 with rfl | hx
  · simp
  · have hlog : (2 : K) ^ Int.log 2 |x| ≤ |x| :=
      Int.zpow_log_le_self (by norm_num) (abs_pos.mpr hx)
    have hscale := two_pow_mul_quantum p x
    rw [zpow_add_one₀ (two_ne_zero' K)] at hscale
    refine (abs_nearest_sub_le_quantum p x).trans ?_
    rw [le_div_iff₀ (by positivity)]
    linarith

theorem nearest_of_div_eq {p : ℕ} {x : K} {n : ℤ} (h : x / quantum p x = n) :
    nearest p x = x := by
  rw [nearest, h, roundHalfEven_intCast, ← h, div_mul_cancel₀ _ (quantum_pos p x).ne']

/-- Numbers with fewer than `p` significant bits are kept. -/
theorem nearest_of_lt {p : ℕ} {n : ℤ} (hn : |n| < 2 ^ p) (e : ℤ) :
    nearest p ((n : K) * 2 ^ e) = n * 2 ^ e := by
  rcases eq_or_ne n 0 with rfl | hne
  · simp
  · have hpos : (0 : K) < |(n : K) * 2 ^ e| := abs_pos.mpr (by positivity)
    have hlt : |(n : K) * 2 ^ e| < ((2 : ℕ) : K) ^ ((p : ℤ) + e) := by
      rw [abs_mul, abs_of_pos (show (0 : K) < 2 ^ e by positivity), Nat.cast_ofNat,
        zpow_add₀ (two_ne_zero' K), zpow_natCast]
      exact mul_lt_mul_of_pos_right (by exact_mod_cast hn) (by positivity)
    have hlog := (Int.lt_zpow_iff_log_lt (by norm_num) hpos).mp hlt
    obtain ⟨k, hk⟩ := Int.eq_ofNat_of_zero_le
      (show 0 ≤ e - (Int.log 2 |(n : K) * 2 ^ e| - p + 1) by omega)
    refine nearest_of_div_eq (n := n * 2 ^ k) ?_
    rw [quantum, mul_div_assoc, ← zpow_sub₀ (two_ne_zero' K), hk]
    push_cast
    rw [zpow_natCast]

/-- Numbers with `p` significant bits are kept. -/
theorem nearest_of_le {p : ℕ} (hp : 0 < p) {n : ℤ} (hn : |n| ≤ 2 ^ p) (e : ℤ) :
    nearest p ((n : K) * 2 ^ e) = n * 2 ^ e := by
  rcases hn.lt_or_eq with hlt | heq
  · exact nearest_of_lt hlt e
  · -- a power of two needs one bit only
    obtain ⟨q, rfl⟩ := Nat.exists_eq_add_one.mpr hp
    obtain ⟨m, hm, habs⟩ : ∃ m : ℤ, n = m * 2 ∧ |m| = 2 ^ q := by
      rcases abs_choice n with habs | habs <;> rw [habs] at heq
      · exact ⟨2 ^ q, by rw [heq, pow_succ], by simp⟩
      · exact ⟨-2 ^ q, by rw [neg_mul, ← pow_succ, ← heq, neg_neg], by simp⟩
    have hshift : (n : K) * 2 ^ e = m * 2 ^ (e + 1) := by
      rw [hm, zpow_add_one₀ (two_ne_zero' K)]
      push_cast
      ring
    rw [hshift]
    refine nearest_of_lt ?_ (e + 1)
    rw [habs]
    exact pow_lt_pow_right₀ (by norm_num) (by omega)

/-- A multiple of the last place that lies less than half a place above a number bounds its
rounding. -/
theorem le_nearest {p : ℕ} {x : K} {m : ℤ} (h : m * quantum p x < x + quantum p x / 2) :
    m * quantum p x ≤ nearest p x := by
  have hpos := quantum_pos p x
  have herror := (abs_le.mp (abs_roundHalfEven_sub_le (x / quantum p x))).1
  have hbelow : (m : K) - 1 / 2 < x / quantum p x := by
    rw [lt_div_iff₀ hpos]
    linarith
  have hlt : ((m - 1 : ℤ) : K) < roundHalfEven (x / quantum p x) := by
    push_cast
    linarith
  have hle : m ≤ roundHalfEven (x / quantum p x) := Int.le_of_sub_one_lt (by exact_mod_cast hlt)
  exact mul_le_mul_of_nonneg_right (by exact_mod_cast hle) hpos.le

theorem nearest_le {p : ℕ} {x : K} {m : ℤ} (h : x < m * quantum p x + quantum p x / 2) :
    nearest p x ≤ m * quantum p x := by
  have hquantum : quantum p (-x) = quantum p x := by rw [quantum, abs_neg, ← quantum]
  have hneg : ((-m : ℤ) : K) * quantum p (-x) ≤ nearest p (-x) := by
    refine le_nearest ?_
    rw [hquantum]
    push_cast
    linarith
  rw [nearest_neg, hquantum] at hneg
  push_cast at hneg
  linarith

/-- The last place of a number below `2 ^ (p + e)` divides the multiples of `2 ^ e`. -/
theorem exists_mul_quantum {p : ℕ} {x : K} {e : ℤ} (hx : 0 < x) (h : x < 2 ^ ((p : ℤ) + e))
    (n : ℤ) : ∃ m : ℤ, (n : K) * 2 ^ e = m * quantum p x := by
  have hlog : Int.log 2 x < p + e :=
    (Int.lt_zpow_iff_log_lt (by norm_num) hx).mp (by exact_mod_cast h)
  obtain ⟨k, hk⟩ := Int.eq_ofNat_of_zero_le (show 0 ≤ e - (Int.log 2 x - p + 1) by omega)
  refine ⟨n * 2 ^ k, ?_⟩
  have hsplit : e = k + (Int.log 2 x - p + 1) := by omega
  rw [quantum, abs_of_pos hx, hsplit, zpow_add₀ (two_ne_zero' K), zpow_natCast]
  push_cast
  rw [mul_assoc]

theorem nearest_nonneg (p : ℕ) {x : K} (hx : 0 ≤ x) : 0 ≤ nearest p x := by
  have hround := roundHalfEven_mono (div_nonneg hx (quantum_pos p x).le)
  have hzero := roundHalfEven_intCast (K := K) 0
  rw [Int.cast_zero] at hzero
  rw [hzero] at hround
  exact mul_nonneg (by exact_mod_cast hround) (quantum_pos p x).le

/-- The power of two above a number bounds its rounding. -/
theorem nearest_le_zpow (p : ℕ) (x : K) : nearest p x ≤ 2 ^ (Int.log 2 |x| + 1) := by
  have hpos := quantum_pos p x
  have hlt := (le_abs_self x).trans_lt (abs_lt_two_pow_mul_quantum p x)
  rw [← two_pow_mul_quantum p x]
  have hround := roundHalfEven_mono ((div_lt_iff₀ hpos).mpr hlt).le
  have hpow := roundHalfEven_intCast (K := K) (2 ^ p)
  push_cast at hpow
  rw [hpow] at hround
  exact mul_le_mul_of_nonneg_right (by exact_mod_cast hround) hpos.le

/-- The power of two below a number bounds its rounding. -/
theorem zpow_le_nearest {p : ℕ} (hp : 0 < p) {x : K} (hx : 0 < x) :
    2 ^ Int.log 2 |x| ≤ nearest p x := by
  obtain ⟨q, rfl⟩ := Nat.exists_eq_add_one.mpr hp
  have hpos := quantum_pos (q + 1) x
  have hscale := two_pow_mul_quantum (q + 1) x
  rw [zpow_add_one₀ (two_ne_zero' K), pow_succ] at hscale
  have hlow : 2 ^ q * quantum (q + 1) x = 2 ^ Int.log 2 |x| := by linarith
  have hle : (2 : K) ^ Int.log 2 |x| ≤ x := by
    have hlog : (2 : K) ^ Int.log 2 |x| ≤ |x| :=
      Int.zpow_log_le_self (by norm_num) (abs_pos.mpr hx.ne')
    rwa [abs_of_pos hx] at hlog ⊢
  rw [← hlow] at hle ⊢
  have hround := roundHalfEven_mono ((le_div_iff₀ hpos).mpr hle)
  have hpow := roundHalfEven_intCast (K := K) (2 ^ q)
  push_cast at hpow
  rw [hpow] at hround
  exact mul_le_mul_of_nonneg_right (by exact_mod_cast hround) hpos.le

theorem nearest_mono_of_pos {p : ℕ} (hp : 0 < p) {x y : K} (hx : 0 < x) (hxy : x ≤ y) :
    nearest p x ≤ nearest p y := by
  have hy := hx.trans_le hxy
  have hlog : Int.log 2 |x| ≤ Int.log 2 |y| := by
    rw [abs_of_pos hx, abs_of_pos hy]
    exact Int.log_mono_right hx hxy
  rcases hlog.lt_or_eq with hlt | heq
  · calc nearest p x ≤ 2 ^ (Int.log 2 |x| + 1) := nearest_le_zpow p x
      _ ≤ 2 ^ Int.log 2 |y| := zpow_le_zpow_right₀ (by norm_num) hlt
      _ ≤ nearest p y := zpow_le_nearest hp hy
  · have hquantum : quantum p x = quantum p y := by rw [quantum, heq, ← quantum]
    rw [nearest, nearest, hquantum]
    have hpos := quantum_pos p y
    have hround := roundHalfEven_mono (div_le_div_of_nonneg_right hxy hpos.le)
    exact mul_le_mul_of_nonneg_right (by exact_mod_cast hround) hpos.le

theorem nearest_mono {p : ℕ} (hp : 0 < p) : Monotone (nearest p : K → K) := by
  intro x y hxy
  rcases lt_or_ge 0 x with hx | hx
  · exact nearest_mono_of_pos hp hx hxy
  · rcases lt_or_ge y 0 with hy | hy
    · have hneg := nearest_mono_of_pos hp (neg_pos.mpr hy) (neg_le_neg hxy)
      rwa [nearest_neg, nearest_neg, neg_le_neg_iff] at hneg
    · have hneg := nearest_nonneg p (neg_nonneg.mpr hx)
      rw [nearest_neg, neg_nonneg] at hneg
      exact hneg.trans (nearest_nonneg p hy)

/-- The rounding has `p` significant bits. -/
theorem abs_roundHalfEven_le (p : ℕ) (x : K) :
    |roundHalfEven (x / quantum p x)| ≤ 2 ^ p := by
  have hpos := quantum_pos p x
  obtain ⟨hlow, hhigh⟩ := abs_lt.mp (abs_lt_two_pow_mul_quantum p x)
  have hupper := roundHalfEven_mono ((div_lt_iff₀ hpos).mpr hhigh).le
  rw [← neg_mul] at hlow
  have hlower := roundHalfEven_mono ((lt_div_iff₀ hpos).mpr hlow).le
  have hpow := roundHalfEven_intCast (K := K) (2 ^ p)
  push_cast at hpow
  rw [roundHalfEven_neg, hpow] at hlower
  rw [hpow] at hupper
  exact abs_le.mpr ⟨hlower, hupper⟩

theorem nearest_nearest {p : ℕ} (hp : 0 < p) (x : K) : nearest p (nearest p x) = nearest p x :=
  nearest_of_le hp (abs_roundHalfEven_le p x) _

end SignificantBits

section Rounding

/-- A number with 53 significant bits. -/
def IsDouble (x : ℚ) : Prop := ∃ n e : ℤ, |n| ≤ 2 ^ 53 ∧ x = n * 2 ^ e

theorem isDouble_intCast {n : ℤ} (h : |n| ≤ 2 ^ 53) : IsDouble n := ⟨n, 0, h, by simp⟩

theorem isDouble_zero : IsDouble 0 := ⟨0, 0, by norm_num, by simp⟩

theorem isDouble_one : IsDouble 1 := ⟨1, 0, by norm_num, by simp⟩

theorem isDouble_two_pow (k : ℕ) : IsDouble (2 ^ k) := ⟨1, k, by norm_num, by simp⟩

theorem isDouble_inv_two_pow (k : ℕ) : IsDouble (1 / 2 ^ k) := ⟨1, -k, by norm_num, by simp⟩

theorem IsDouble.neg {x : ℚ} (h : IsDouble x) : IsDouble (-x) := by
  obtain ⟨n, e, hn, rfl⟩ := h
  exact ⟨-n, e, by rwa [abs_neg], by rw [Int.cast_neg, neg_mul]⟩

theorem isDouble_nearest (x : ℚ) : IsDouble (nearest 53 x) :=
  ⟨roundHalfEven (x / quantum 53 x), _, abs_roundHalfEven_le 53 x, rfl⟩

/-- The integer part of a double is a double. -/
theorem IsDouble.trunc {x : ℚ} (h : IsDouble x) : IsDouble (trunc x) := by
  obtain ⟨n, e, hn, rfl⟩ := h
  rcases le_or_gt 0 e with he | he
  · obtain ⟨k, rfl⟩ := Int.eq_ofNat_of_zero_le he
    refine ⟨n, k, hn, ?_⟩
    have hint : (n : ℚ) * 2 ^ (k : ℤ) = ((n * 2 ^ k : ℤ) : ℚ) := by push_cast; rfl
    rw [hint, trunc_intCast]
  · refine isDouble_intCast ?_
    have hle : |(n : ℚ) * 2 ^ e| ≤ |(n : ℚ)| := by
      rw [abs_mul, abs_of_pos (show (0 : ℚ) < 2 ^ e by positivity)]
      exact mul_le_of_le_one_right (abs_nonneg _) (zpow_le_one_of_nonpos₀ (by norm_num) he.le)
    have habs : |(Kernel.trunc ((n : ℚ) * 2 ^ e) : ℚ)| ≤ 2 ^ 53 :=
      ((abs_trunc_le _).trans hle).trans (by exact_mod_cast hn)
    exact_mod_cast habs

/-- How the results of arithmetic on doubles are rounded, and the largest relative error
of that. -/
class Doubles where
  rnd : ℚ → ℚ
  eps : ℚ
  rnd_mono : Monotone rnd
  rnd_neg (x : ℚ) : rnd (-x) = -rnd x
  rnd_rnd (x : ℚ) : rnd (rnd x) = rnd x
  rnd_trunc (x : ℚ) : rnd (trunc (rnd x)) = trunc (rnd x)
  rnd_of_isDouble {x : ℚ} (h : IsDouble x) : rnd x = x
  eps_nonneg : 0 ≤ eps
  eps_le : eps ≤ 1 / 2 ^ 53
  abs_rnd_sub_le (x : ℚ) : |rnd x - x| ≤ |x| * eps

export Doubles (rnd eps)

namespace Idealised

/-- Doubles idealised as rational numbers. -/
scoped instance doubles : Doubles where
  rnd x := x
  eps := 0
  rnd_mono := monotone_id
  rnd_neg _ := rfl
  rnd_rnd _ := rfl
  rnd_trunc _ := rfl
  rnd_of_isDouble _ := rfl
  eps_nonneg := le_refl 0
  eps_le := by norm_num
  abs_rnd_sub_le x := by simp

@[simp] theorem rnd_eq (x : ℚ) : rnd x = x := rfl

@[simp] theorem eps_eq : eps = 0 := rfl

end Idealised

namespace Binary64

/-- Doubles of 64 bits, rounded to nearest. -/
scoped instance doubles : Doubles where
  rnd := nearest 53
  eps := 1 / 2 ^ 53
  rnd_mono := nearest_mono (by norm_num)
  rnd_neg := nearest_neg 53
  rnd_rnd := nearest_nearest (by norm_num)
  rnd_trunc x := by
    obtain ⟨n, e, hn, he⟩ := (isDouble_nearest x).trunc
    rw [he]
    exact nearest_of_le (by norm_num) hn e
  rnd_of_isDouble := by
    rintro x ⟨n, e, hn, rfl⟩
    exact nearest_of_le (by norm_num) hn e
  eps_nonneg := by norm_num
  eps_le := le_refl _
  abs_rnd_sub_le x := (abs_nearest_sub_le 53 x).trans_eq (by rw [mul_one_div])

theorem eps_eq : eps = 1 / 2 ^ 53 := rfl

end Binary64

namespace Doubles

variable [Doubles] {x y : ℚ}

@[simp] theorem rnd_zero : rnd 0 = 0 := rnd_of_isDouble isDouble_zero

theorem rnd_intCast {n : ℤ} (h : |n| ≤ 2 ^ 53) : rnd n = n := rnd_of_isDouble (isDouble_intCast h)

/-- Rounding does not pass a double. -/
theorem rnd_le (hy : IsDouble y) (h : x ≤ y) : rnd x ≤ y :=
  (rnd_mono h).trans_eq (rnd_of_isDouble hy)

theorem le_rnd (hy : IsDouble y) (h : y ≤ x) : y ≤ rnd x :=
  (rnd_of_isDouble hy).symm.trans_le (rnd_mono h)

theorem abs_rnd_le (hy : IsDouble y) (h : |x| ≤ y) : |rnd x| ≤ y :=
  abs_le.mpr ⟨le_rnd hy.neg (abs_le.mp h).1, rnd_le hy (abs_le.mp h).2⟩

theorem rnd_nonneg (h : 0 ≤ x) : 0 ≤ rnd x := le_rnd isDouble_zero h

theorem rnd_nonpos (h : x ≤ 0) : rnd x ≤ 0 := rnd_le isDouble_zero h

theorem rnd_le_mul (h : 0 ≤ x) : rnd x ≤ x * (1 + 1 / 2 ^ 53) := by
  have herror := abs_rnd_sub_le x
  have heps := mul_le_mul_of_nonneg_left eps_le h
  rw [abs_of_nonneg h, abs_le] at herror
  linarith [herror.2]

theorem mul_le_rnd (h : 0 ≤ x) : x * (1 - 1 / 2 ^ 53) ≤ rnd x := by
  have herror := abs_rnd_sub_le x
  have heps := mul_le_mul_of_nonneg_left eps_le h
  rw [abs_of_nonneg h, abs_le] at herror
  linarith [herror.1]

theorem one_add_eps_pow_nonneg (k : ℕ) : 0 ≤ (1 + eps) ^ k :=
  pow_nonneg (add_nonneg zero_le_one eps_nonneg) k

end Doubles

end Rounding

section Errors

variable [Doubles] {k l : ℕ} {x y u v : ℚ}

/-- `y` is `x` up to the error of `k` roundings. -/
def Rounded (k : ℕ) (x y : ℚ) : Prop := |y - x| ≤ |x| * ((1 + eps) ^ k - 1)

theorem rounding_factor_nonneg (k : ℕ) : 0 ≤ (1 + eps) ^ k - 1 :=
  sub_nonneg.mpr (one_le_pow₀ (le_add_of_nonneg_right Doubles.eps_nonneg))

namespace Rounded

protected theorem refl (x : ℚ) : Rounded 0 x x := by simp [Rounded]

theorem abs_le (h : Rounded k x y) : |y| ≤ |x| * (1 + eps) ^ k := by
  calc |y| = |x + (y - x)| := by rw [add_sub_cancel]
    _ ≤ |x| + |y - x| := abs_add_le x (y - x)
    _ ≤ |x| + |x| * ((1 + eps) ^ k - 1) := by
      gcongr
      exact h
    _ = |x| * (1 + eps) ^ k := by ring

/-- One more rounding. -/
theorem rnd (h : Rounded k x y) : Rounded (k + 1) x (rnd y) := by
  have heps := Doubles.eps_nonneg
  calc |Kernel.rnd y - x| = |(Kernel.rnd y - y) + (y - x)| := by rw [sub_add_sub_cancel]
    _ ≤ |Kernel.rnd y - y| + |y - x| := abs_add_le _ _
    _ ≤ |y| * eps + |y - x| := by
      gcongr
      exact Doubles.abs_rnd_sub_le y
    _ ≤ |x| * (1 + eps) ^ k * eps + |x| * ((1 + eps) ^ k - 1) := by
      gcongr
      · exact h.abs_le
      · exact h
    _ = |x| * ((1 + eps) ^ (k + 1) - 1) := by ring

/-- The errors of two factors add up. -/
protected theorem mul (h : Rounded k x y) (h' : Rounded l u v) :
    Rounded (k + l) (x * u) (y * v) := by
  have hfactor := rounding_factor_nonneg l
  calc |y * v - x * u| = |y * (v - u) + (y - x) * u| := by ring_nf
    _ ≤ |y * (v - u)| + |(y - x) * u| := abs_add_le _ _
    _ = |y| * |v - u| + |y - x| * |u| := by rw [abs_mul, abs_mul]
    _ ≤ |x| * (1 + eps) ^ k * (|u| * ((1 + eps) ^ l - 1)) +
        |x| * ((1 + eps) ^ k - 1) * |u| := by
      gcongr
      · exact (abs_nonneg y).trans h.abs_le
      · exact h.abs_le
      · exact h'
      · exact h
    _ = |x * u| * ((1 + eps) ^ (k + l) - 1) := by
      rw [abs_mul]
      ring

theorem mul_const (h : Rounded k x y) (c : ℚ) : Rounded k (x * c) (y * c) := by
  simpa only [add_zero] using h.mul (Rounded.refl c)

theorem div_const (h : Rounded k x y) (c : ℚ) : Rounded k (x / c) (y / c) := by
  rw [div_eq_mul_inv, div_eq_mul_inv]
  exact h.mul_const c⁻¹

theorem le (h : Rounded k x y) (hx : 0 ≤ x) : y ≤ x * (1 + eps) ^ k := by
  have hle := h.abs_le
  rw [abs_of_nonneg hx] at hle
  exact (le_abs_self y).trans hle

/-- Up to eight roundings err by less than one part in `2 ^ 49`. -/
theorem abs_sub_le (h : Rounded k x y) (hk : k ≤ 8) : |y - x| ≤ |x| / 2 ^ 49 := by
  have hpow : (1 + eps) ^ k ≤ (1 + 1 / 2 ^ 53) ^ 8 := by
    calc (1 + eps) ^ k ≤ (1 + eps) ^ 8 :=
          pow_le_pow_right₀ (le_add_of_nonneg_right Doubles.eps_nonneg) hk
      _ ≤ (1 + 1 / 2 ^ 53) ^ 8 := by
          have heps := Doubles.eps_nonneg
          gcongr
          exact Doubles.eps_le
  have hbound : ((1 + 1 / 2 ^ 53) ^ 8 : ℚ) ≤ 1 + 1 / 2 ^ 49 := by norm_num
  calc |y - x| ≤ |x| * ((1 + eps) ^ k - 1) := h
    _ ≤ |x| * (1 / 2 ^ 49) := by
      gcongr
      linarith
    _ = |x| / 2 ^ 49 := by rw [mul_one_div]

end Rounded

end Errors

end Kernel
end Lemonade
