import Mathlib.Algebra.Order.Floor.Ring
import Mathlib.Data.Rat.Floor
import Mathlib.Tactic

/-!
# Rounding

Two ways to round are used when money is computed: a real amount is cut off
towards zero when it is stored as an integer (`trunc`), and an integer quotient
is rounded up against the caller (`IsCeilDiv`).
-/

namespace Lemonade
namespace Kernel

section Truncation

variable {K : Type*} [Field K] [LinearOrder K] [FloorRing K]

/-- The integer part towards zero. -/
def trunc (q : K) : ℤ := if 0 ≤ q then ⌊q⌋ else ⌈q⌉

theorem trunc_of_nonneg {q : K} (h : 0 ≤ q) : trunc q = ⌊q⌋ := if_pos h

theorem trunc_nonneg {q : K} (h : 0 ≤ q) : 0 ≤ trunc q := by
  rw [trunc_of_nonneg h]
  exact Int.floor_nonneg.mpr h

/-- Cutting off never raises a nonnegative amount. -/
theorem trunc_le {q : K} (h : 0 ≤ q) : (trunc q : K) ≤ q := by
  rw [trunc_of_nonneg h]
  exact Int.floor_le q

variable [IsStrictOrderedRing K]

theorem trunc_of_nonpos {q : K} (h : q ≤ 0) : trunc q = ⌈q⌉ := by
  rcases h.lt_or_eq with hlt | rfl
  · exact if_neg (not_le.mpr hlt)
  · simp [trunc]

@[simp] theorem trunc_intCast (n : ℤ) : trunc (n : K) = n := by
  simp [trunc]

theorem trunc_nonpos {q : K} (h : q ≤ 0) : trunc q ≤ 0 := by
  rw [trunc_of_nonpos h]
  exact Int.ceil_le.mpr (by simpa using h)

theorem le_trunc {q : K} (h : q ≤ 0) : q ≤ (trunc q : K) := by
  rw [trunc_of_nonpos h]
  exact Int.le_ceil q

theorem trunc_mono {p q : K} (h : p ≤ q) : trunc p ≤ trunc q := by
  rcases le_total 0 p with hp | hp
  · rw [trunc_of_nonneg hp, trunc_of_nonneg (hp.trans h)]
    exact Int.floor_mono h
  · rcases le_total 0 q with hq | hq
    · exact (trunc_nonpos hp).trans (trunc_nonneg hq)
    · rw [trunc_of_nonpos hp, trunc_of_nonpos hq]
      exact Int.ceil_mono h

theorem trunc_lt_add_one (q : K) : (trunc q : K) < q + 1 := by
  rcases le_total 0 q with hq | hq
  · exact (trunc_le hq).trans_lt (lt_add_one q)
  · rw [trunc_of_nonpos hq]
    exact Int.ceil_lt_add_one q

theorem le_trunc_of_le {n : ℤ} {q : K} (hn : 0 ≤ n) (h : (n : K) ≤ q) : n ≤ trunc q := by
  have hq : 0 ≤ q := le_trans (by exact_mod_cast hn) h
  rw [trunc_of_nonneg hq]
  exact Int.le_floor.mpr h

/-- What an integer loses or gains when it is moved by `x` and cut off again. -/
theorem trunc_add_le_iff {f : ℤ} {x : K} :
    trunc ((f : K) + x) ≤ f ↔ x ≤ 0 ∨ 0 ≤ f ∧ x < 1 := by
  constructor
  · intro h
    by_contra hnot
    rw [not_or, not_le] at hnot
    obtain ⟨hx, hnot⟩ := hnot
    rcases lt_or_ge f 0 with hf | hf
    · rcases le_total 0 ((f : K) + x) with hsum | hsum
      · have hnonneg := trunc_nonneg hsum
        omega
      · have hlt : (f : K) < trunc ((f : K) + x) :=
          (lt_add_of_pos_right (f : K) hx).trans_le (le_trunc hsum)
        rw [Int.cast_lt] at hlt
        omega
    · have hone : 1 ≤ x := not_lt.mp fun hlt => hnot ⟨hf, hlt⟩
      have hle : ((f + 1 : ℤ) : K) ≤ (f : K) + x := by
        push_cast
        linarith
      have hmono := le_trunc_of_le (by omega) hle
      omega
  · rintro (hx | ⟨hf, hx⟩)
    · have hmono := trunc_mono (show (f : K) + x ≤ f by linarith)
      rwa [trunc_intCast] at hmono
    · rcases le_total 0 ((f : K) + x) with hsum | hsum
      · rw [trunc_of_nonneg hsum, ← Int.lt_add_one_iff, Int.floor_lt]
        push_cast
        linarith
      · exact (trunc_nonpos hsum).trans hf

theorem trunc_neg (q : K) : trunc (-q) = -trunc q := by
  rcases le_total 0 q with hq | hq
  · rw [trunc_of_nonneg hq, trunc_of_nonpos (neg_nonpos.mpr hq), Int.ceil_neg]
  · rw [trunc_of_nonpos hq, trunc_of_nonneg (neg_nonneg.mpr hq), Int.floor_neg]

theorem abs_trunc_le (q : K) : |(trunc q : K)| ≤ |q| := by
  rcases le_total 0 q with hq | hq
  · rw [abs_of_nonneg hq, abs_of_nonneg (by exact_mod_cast trunc_nonneg hq)]
    exact trunc_le hq
  · rw [abs_of_nonpos hq, abs_of_nonpos (by exact_mod_cast trunc_nonpos hq)]
    exact neg_le_neg (le_trunc hq)

/-- Amounts that are one unit apart stay apart when they are cut off. -/
theorem trunc_lt_trunc {p q : K} (hp : 0 ≤ p) (h : p + 1 ≤ q) : trunc p < trunc q := by
  rw [trunc_of_nonneg hp, trunc_of_nonneg (by linarith), ← Int.add_one_le_iff]
  refine Int.le_floor.mpr ?_
  push_cast
  linarith [Int.floor_le p]

/-- An amount cut off is at most any bound that is at least zero. -/
theorem trunc_le_of_le {p q : K} (h : p ≤ q) (hq : 0 ≤ q) : (trunc p : K) ≤ q :=
  (Int.cast_le.mpr (trunc_mono h)).trans (trunc_le hq)

end Truncation

section Wrapping

/-- A number cut off at a modulus loses at least the quotient of that modulus. -/
theorem wrapped_div_add_le {p m w : ℕ} (hp : m ≤ p) : p % m / w + m / w ≤ p / w := by
  have hsum : p % m + m ≤ p := by
    have hle := Nat.mod_le (p - m) m
    rw [← Nat.mod_eq_sub_mod hp] at hle
    omega
  calc p % m / w + m / w ≤ (p % m + m) / w := Nat.div_add_div_le_add_div
    _ ≤ p / w := Nat.div_le_div_right hsum

end Wrapping

section CeilingDivision

/-- `q` is the quotient `p / z` rounded up. -/
def IsCeilDiv (q p z : ℤ) : Prop := p ≤ q * z ∧ q * z < p + z

/-- For a positive numerator: one more than the quotient of the predecessor. -/
theorem isCeilDiv_of_pos {p z : ℤ} (hp : 0 < p) (hz : 0 < z) :
    IsCeilDiv (1 + (p - 1).tdiv z) p z := by
  have h0 : 0 ≤ p - 1 := by omega
  rw [Int.tdiv_eq_ediv_of_nonneg h0]
  have h1 := Int.emod_add_mul_ediv (p - 1) z
  have h2 := Int.emod_nonneg (p - 1) hz.ne'
  have h3 := Int.emod_lt_of_pos (p - 1) hz
  constructor <;> linarith [mul_comm z ((p - 1) / z)]

/-- For a nonpositive numerator truncation already rounds up. -/
theorem isCeilDiv_of_nonpos {p z : ℤ} (hp : p ≤ 0) (hz : 0 < z) :
    IsCeilDiv (p.tdiv z) p z := by
  obtain ⟨n, rfl⟩ : ∃ n, p = -n := ⟨-p, by ring⟩
  have h0 : 0 ≤ n := by omega
  rw [Int.neg_tdiv, Int.tdiv_eq_ediv_of_nonneg h0]
  have h1 := Int.emod_add_mul_ediv n z
  have h2 := Int.emod_nonneg n hz.ne'
  have h3 := Int.emod_lt_of_pos n hz
  constructor <;> linarith [mul_comm z (n / z)]

namespace IsCeilDiv

variable {q p z : ℤ}

theorem pos (h : IsCeilDiv q p z) (hz : 0 < z) (hp : 0 < p) : 0 < q := by
  by_contra hq
  have : q * z ≤ 0 := mul_nonpos_of_nonpos_of_nonneg (by omega) hz.le
  linarith [h.1]

theorem nonpos (h : IsCeilDiv q p z) (hz : 0 < z) (hp : p ≤ 0) : q ≤ 0 := by
  by_contra hq
  have : z ≤ q * z := le_mul_of_one_le_left hz.le (by omega)
  linarith [h.2]

/-- A quotient stays above a bound that the numerator stays strictly above. -/
theorem lt_of_mul_lt (h : IsCeilDiv q p z) (hz : 0 < z) {m : ℤ} (hm : m * z < p) :
    m < q := by
  have : m * z < q * z := lt_of_lt_of_le hm h.1
  exact lt_of_mul_lt_mul_right this hz.le

/-- Rounding a negative quotient up is rounding the positive one down. -/
theorem neg_iff (hz : 0 < z) : IsCeilDiv (-q) (-p) z ↔ q = p / z := by
  rw [eq_comm, Int.ediv_eq_iff_of_pos hz]
  unfold IsCeilDiv
  rw [neg_mul]
  constructor
  · rintro ⟨h1, h2⟩
    constructor <;> linarith
  · rintro ⟨h1, h2⟩
    constructor <;> linarith

/-- Both rules round up as the rationals do. -/
theorem eq_ceil (h : IsCeilDiv q p z) (hz : 0 < z) : ⌈(p : ℚ) / z⌉ = q := by
  have hzq : (0 : ℚ) < z := by exact_mod_cast hz
  have hlow : (p : ℚ) ≤ q * z := by exact_mod_cast h.1
  have hhigh : (q * z : ℚ) < p + z := by exact_mod_cast h.2
  rw [Int.ceil_eq_iff]
  constructor
  · rw [lt_div_iff₀ hzq]
    linarith
  · rwa [div_le_iff₀ hzq]

/-- What `n` of `s` parts cost, rounded up, is paid back up to one unit, rounded down, once it
has been added. -/
theorem paid_back {s n x c : ℤ} (hs : 0 < s) (hn : 0 < n) (h : IsCeilDiv c (n * x) s) :
    c - 1 ≤ n * (x + c) / (s + n) ∧ n * (x + c) / (s + n) ≤ c := by
  obtain ⟨hlow, hhigh⟩ := h
  have hpos : 0 < s + n := by omega
  constructor
  · rw [Int.le_ediv_iff_mul_le hpos]
    linarith
  · refine Int.le_of_lt_add_one ((Int.ediv_lt_iff_lt_mul hpos).mpr ?_)
    linarith

end IsCeilDiv

end CeilingDivision

end Kernel
end Lemonade
