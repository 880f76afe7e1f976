import Mathlib.Algebra.Order.Ring.Defs
import Mathlib.Tactic

/-!
# Constant-product pools

The general mathematics of a pool with two reserves and a supply of shares.
A pool's reserves and supply are positive by construction.  One pool is worth
at least another when the product of its reserves per squared share is at least
the other's; written without division this is `ValueLE`, a preorder.

Shares are bought and sold, and one reserve is swapped against the other, at
quantities rounded against the caller.  The three lemmas `swap_product_le`,
`reserve_share_le` and `valueLE_of_shares` say that no such operation lowers the
value of a share.
-/

namespace Lemonade
namespace Kernel

variable {R : Type*} [CommRing R] [LinearOrder R] [IsStrictOrderedRing R]

/-- Reserves of a pool and the number of its shares, all positive. -/
structure Pool (R : Type*) [CommRing R] [LinearOrder R] where
  supply : R
  left : R
  right : R
  supply_pos : 0 < supply
  left_pos : 0 < left
  right_pos : 0 < right

namespace Pool

/-- A share of `q` is worth at least a share of `p`. -/
def ValueLE (p q : Pool R) : Prop :=
  p.left * p.right * q.supply ^ 2 ≤ q.left * q.right * p.supply ^ 2

omit [IsStrictOrderedRing R] in
theorem valueLE_refl (p : Pool R) : p.ValueLE p := le_refl _

theorem valueLE_trans {p q r : Pool R} (hpq : p.ValueLE q) (hqr : q.ValueLE r) :
    p.ValueLE r := by
  unfold ValueLE at *
  have hq : 0 < q.supply ^ 2 := pow_pos q.supply_pos 2
  have hp : 0 ≤ p.supply ^ 2 := sq_nonneg _
  have hr : 0 ≤ r.supply ^ 2 := sq_nonneg _
  refine le_of_mul_le_mul_right ?_ hq
  calc p.left * p.right * r.supply ^ 2 * q.supply ^ 2
      = p.left * p.right * q.supply ^ 2 * r.supply ^ 2 := by ring
    _ ≤ q.left * q.right * p.supply ^ 2 * r.supply ^ 2 :=
        mul_le_mul_of_nonneg_right hpq hr
    _ = q.left * q.right * r.supply ^ 2 * p.supply ^ 2 := by ring
    _ ≤ r.left * r.right * q.supply ^ 2 * p.supply ^ 2 :=
        mul_le_mul_of_nonneg_right hqr hp
    _ = r.left * r.right * p.supply ^ 2 * q.supply ^ 2 := by ring

/-- If each reserve per share has not fallen, neither has the value of a share. -/
theorem valueLE_of_shares {p q : Pool R}
    (hl : p.left * q.supply ≤ q.left * p.supply)
    (hr : p.right * q.supply ≤ q.right * p.supply) : p.ValueLE q := by
  unfold ValueLE
  calc p.left * p.right * q.supply ^ 2
      = p.left * q.supply * (p.right * q.supply) := by ring
    _ ≤ q.left * p.supply * (q.right * p.supply) :=
        mul_le_mul hl hr (mul_nonneg p.right_pos.le q.supply_pos.le)
          (mul_nonneg q.left_pos.le p.supply_pos.le)
    _ = q.left * q.right * p.supply ^ 2 := by ring

/-- If the supply is kept and the product has not fallen, neither has the value. -/
theorem valueLE_of_product {p q : Pool R} (hs : q.supply = p.supply)
    (hprod : p.left * p.right ≤ q.left * q.right) : p.ValueLE q := by
  unfold ValueLE
  rw [hs]
  exact mul_le_mul_of_nonneg_right hprod (sq_nonneg _)

/-- If a share has kept its value and none is missing, the product has not fallen. -/
theorem ValueLE.product_le {p q : Pool R}
    (h : p.ValueLE q) (hs : p.supply ≤ q.supply) : p.left * p.right ≤ q.left * q.right := by
  have hp : 0 < p.supply ^ 2 := pow_pos p.supply_pos 2
  refine le_of_mul_le_mul_right ?_ hp
  calc p.left * p.right * p.supply ^ 2
      ≤ p.left * p.right * q.supply ^ 2 := by
        have hsq := pow_le_pow_left₀ p.supply_pos.le hs 2
        exact mul_le_mul_of_nonneg_left hsq (mul_pos p.left_pos p.right_pos).le
    _ ≤ q.left * q.right * p.supply ^ 2 := h

/-- One reserve only falls if the other rises. -/
theorem ValueLE.right_lt {p q : Pool R}
    (h : p.ValueLE q) (hs : p.supply ≤ q.supply) (hl : q.left < p.left) : p.right < q.right := by
  by_contra hnot
  have hlt : q.left * q.right < p.left * p.right :=
    mul_lt_mul hl (not_lt.mp hnot) q.right_pos p.left_pos.le
  exact absurd (h.product_le hs) (not_le.mpr hlt)

theorem ValueLE.left_lt {p q : Pool R}
    (h : p.ValueLE q) (hs : p.supply ≤ q.supply) (hr : q.right < p.right) : p.left < q.left := by
  by_contra hnot
  have hlt : q.left * q.right < p.left * p.right :=
    mul_lt_mul' (not_lt.mp hnot) hr q.right_pos.le p.left_pos
  exact absurd (h.product_le hs) (not_le.mpr hlt)

end Pool

/-- Taking `d` into one reserve and changing the other by at least the balancing
quantity keeps the product of the reserves. -/
theorem swap_product_le {a b d q : R} (hq : -d * b ≤ q * (a + d)) :
    a * b ≤ (a + d) * (b + q) := by
  calc a * b = (a + d) * b + -d * b := by ring
    _ ≤ (a + d) * b + q * (a + d) := by gcongr
    _ = (a + d) * (b + q) := by ring

/-- Changing a reserve by at least the part that belongs to `n` shares keeps the
reserve per share. -/
theorem reserve_share_le {a s n q : R} (hq : n * a ≤ q * s) :
    a * (s + n) ≤ (a + q) * s := by
  calc a * (s + n) = a * s + n * a := by ring
    _ ≤ a * s + q * s := by gcongr
    _ = (a + q) * s := by ring

section Output

/-- What leaves the reserve `b` when `d` enters the reserve `a`, rounded against the caller. -/
def swapOut (a b d : ℤ) : ℤ := d * b / (a + d)

theorem swapOut_nonneg {a b d : ℤ} (ha : 0 < a) (hb : 0 < b) (hd : 0 ≤ d) :
    0 ≤ swapOut a b d :=
  Int.ediv_nonneg (mul_nonneg hd hb.le) (by omega)

/-- No swap empties a reserve. -/
theorem swapOut_lt {a b d : ℤ} (ha : 0 < a) (hb : 0 < b) (hd : 0 ≤ d) :
    swapOut a b d < b := by
  refine Int.ediv_lt_of_lt_mul (by omega) ?_
  rw [mul_add, mul_comm d b]
  exact lt_add_of_pos_left _ (mul_pos hb ha)

/-- The rounded output is the largest that does not lower the product of the reserves. -/
theorem product_le_iff_le_swapOut {a b d o : ℤ} (h : 0 < a + d) :
    a * b ≤ (a + d) * (b - o) ↔ o ≤ swapOut a b d := by
  unfold swapOut
  rw [Int.le_ediv_iff_mul_le h]
  constructor
  · intro hle
    linarith
  · intro hle
    linarith

/-- More input yields more. -/
theorem swapOut_mono {a b d e : ℤ} (ha : 0 < a) (hb : 0 < b) (hd : 0 ≤ d) (hde : d ≤ e) :
    swapOut a b d ≤ swapOut a b e := by
  have hlt := swapOut_lt ha hb hd
  refine (product_le_iff_le_swapOut (by omega)).mp ?_
  calc a * b ≤ (a + d) * (b - swapOut a b d) :=
        (product_le_iff_le_swapOut (by omega)).mpr (le_refl _)
    _ ≤ (a + e) * (b - swapOut a b d) := mul_le_mul_of_nonneg_right (by omega) (by omega)

/-- Two swaps in a row yield at most what one swap of both inputs does. -/
theorem swapOut_add_le {a b d e : ℤ} (ha : 0 < a) (hd : 0 ≤ d) (he : 0 ≤ e) :
    swapOut a b d + swapOut (a + d) (b - swapOut a b d) e ≤ swapOut a b (d + e) := by
  refine (product_le_iff_le_swapOut (by omega)).mp ?_
  calc a * b ≤ (a + d) * (b - swapOut a b d) :=
        (product_le_iff_le_swapOut (by omega)).mpr (le_refl _)
    _ ≤ (a + d + e) * (b - swapOut a b d - swapOut (a + d) (b - swapOut a b d) e) :=
        (product_le_iff_le_swapOut (by omega)).mpr (le_refl _)
    _ = (a + (d + e)) * (b - (swapOut a b d + swapOut (a + d) (b - swapOut a b d) e)) := by ring

end Output

end Kernel
end Lemonade
