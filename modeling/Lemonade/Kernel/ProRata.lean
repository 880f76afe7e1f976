import Mathlib.Algebra.Order.Ring.Defs
import Mathlib.Tactic

/-!
# Pro-rata division

A pot is divided among claimants in proportion to their stakes, each part rounded
down.  Parts add up within the share of the stakes added up, so claimants whose
stakes make up at most the whole never take more than the pot.  If the stakes make up
the whole, less than one unit is left over for each of them.
-/

namespace Lemonade
namespace Kernel

variable {R : Type*} [CommRing R] [LinearOrder R]

/-- `part` is at most the fraction `stake / whole` of `pot`. -/
def WithinShare (whole pot stake part : R) : Prop := part * whole ≤ stake * pot

namespace WithinShare

variable {whole pot stake stake' part part' : R}

theorem zero : WithinShare whole pot 0 0 := by
  unfold WithinShare
  rw [zero_mul, zero_mul]

variable [IsStrictOrderedRing R]

theorem add
    (h : WithinShare whole pot stake part) (h' : WithinShare whole pot stake' part') :
    WithinShare whole pot (stake + stake') (part + part') := by
  unfold WithinShare at *
  rw [add_mul, add_mul]
  exact add_le_add h h'

theorem of_le
    (h : WithinShare whole pot stake part) (hwhole : 0 ≤ whole) (hle : part' ≤ part) :
    WithinShare whole pot stake part' :=
  (mul_le_mul_of_nonneg_right hle hwhole).trans h

/-- A pot is never overspent. -/
theorem part_le_pot
    (h : WithinShare whole pot stake part) (hwhole : 0 < whole) (hpot : 0 ≤ pot)
    (hstake : stake ≤ whole) : part ≤ pot := by
  refine le_of_mul_le_mul_right ?_ hwhole
  calc part * whole ≤ stake * pot := h
    _ ≤ whole * pot := mul_le_mul_of_nonneg_right hstake hpot
    _ = pot * whole := mul_comm whole pot

end WithinShare

section FloorShares

/-- The share of a stake in a pot, rounded down -/
def floorShare (whole pot stake : ℤ) : ℤ := stake * pot / whole

variable {whole pot : ℤ} {stakes : List ℤ}

/-- The shares and what rounding takes from them. -/
theorem sum_floorShare_add_sum_emod (whole pot : ℤ) (stakes : List ℤ) :
    whole * (stakes.map (floorShare whole pot)).sum +
      (stakes.map fun stake => stake * pot % whole).sum = stakes.sum * pot := by
  induction stakes with
  | nil => simp
  | cons stake stakes ih =>
      have hdiv := Int.mul_ediv_add_emod (stake * pot) whole
      simp only [List.map_cons, List.sum_cons, mul_add, add_mul]
      rw [← ih]
      unfold floorShare
      omega

/-- Rounding takes less than one unit from each share. -/
theorem sum_emod_lt
    (pot : ℤ) (hwhole : 0 < whole) (hne : stakes ≠ []) :
    0 ≤ (stakes.map fun stake => stake * pot % whole).sum ∧
      (stakes.map fun stake => stake * pot % whole).sum < whole * stakes.length := by
  have hle : ∀ l : List ℤ, 0 ≤ (l.map fun stake => stake * pot % whole).sum ∧
      (l.map fun stake => stake * pot % whole).sum ≤ (whole - 1) * l.length := by
    intro l
    induction l with
    | nil => simp
    | cons stake l ih =>
        have hnonneg := Int.emod_nonneg (stake * pot) hwhole.ne'
        have hlt := Int.emod_lt_of_pos (stake * pot) hwhole
        simp only [List.map_cons, List.sum_cons, List.length_cons]
        push_cast
        constructor <;> linarith [ih.1, ih.2]
  have hlength : (0 : ℤ) < stakes.length := by
    exact_mod_cast List.length_pos_iff.mpr hne
  refine ⟨(hle stakes).1, (hle stakes).2.trans_lt ?_⟩
  exact mul_lt_mul_of_pos_right (by omega) hlength

/-- The shares of the whole do not overspend the pot. -/
theorem sum_floorShare_le
    (hwhole : 0 < whole) (hsum : stakes.sum = whole) :
    (stakes.map (floorShare whole pot)).sum ≤ pot := by
  have hne : stakes ≠ [] := by
    rintro rfl
    exact hwhole.ne hsum
  have hsplit := sum_floorShare_add_sum_emod whole pot stakes
  have hrest := (sum_emod_lt pot hwhole hne).1
  rw [hsum] at hsplit
  refine le_of_mul_le_mul_left ?_ hwhole
  linarith

/-- They leave less than one unit for each stake. -/
theorem lt_sum_floorShare_add_length
    (hwhole : 0 < whole) (hsum : stakes.sum = whole) :
    pot < (stakes.map (floorShare whole pot)).sum + stakes.length := by
  have hne : stakes ≠ [] := by
    rintro rfl
    exact hwhole.ne hsum
  have hsplit := sum_floorShare_add_sum_emod whole pot stakes
  have hrest := (sum_emod_lt pot hwhole hne).2
  rw [hsum] at hsplit
  refine lt_of_mul_lt_mul_left ?_ hwhole.le
  rw [mul_add]
  linarith

end FloorShares

end Kernel
end Lemonade
