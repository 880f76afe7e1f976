import Lemonade.Kernel.Fallible
import Mathlib.Tactic

/-!
# Checked machine arithmetic

A machine integer type holds the integers of an interval.  An operation on it is
checked when it has a result exactly if the result over the integers fits, and
then returns that one.  The guards of such operations compare an operand with a
bound; a product is guarded by a quotient of an end of the interval that is cut
off towards zero, and the lemmas on quotients show that the cut-off never
changes the comparison.
-/

namespace Lemonade
namespace Kernel

section Checked

universe u

variable {ε : Type u} {α : Type} {value : α → ℤ} {fits : ℤ → Prop} {x : Except ε α} {n : ℤ}

/-- The computation returns `n` exactly, or fails because `n` does not fit. -/
structure Checked (value : α → ℤ) (fits : ℤ → Prop) (x : Except ε α) (n : ℤ) : Prop where
  exact : ∀ r, x = .ok r → value r = n
  succeeds_iff : Succeeds x ↔ fits n

/-- A guard that says whether the exact result fits makes an operation checked. -/
theorem checked_of_demand
    {p : Prop} [Decidable p] {e : ε} {c : α}
    (hp : p ↔ fits n)
    (hc : fits n → value c = n) :
    Checked value fits (do demand p e; return c) n := by
  refine ⟨?_, ?_⟩
  · intro r hr
    simp only [bind_eq_ok_iff, demand_eq_ok_iff, exists_const, pure_eq_ok_iff] at hr
    obtain ⟨hg, rfl⟩ := hr
    exact hc (hp.mp hg)
  · simp [Succeeds, hp]

/-- Two guards in a row, one for each end of the interval. -/
theorem checked_of_demand_demand
    {p q : Prop} [Decidable p] [Decidable q] {e e' : ε} {c : α}
    (hpq : p ∧ q ↔ fits n)
    (hc : fits n → value c = n) :
    Checked value fits (do demand p e; demand q e'; return c) n := by
  by_cases hp : p
  · have hok : (demand p e : Except ε PUnit) = .ok ⟨⟩ := if_pos hp
    rw [hok]
    exact checked_of_demand ((and_iff_right hp).symm.trans hpq) hc
  · have hn : ¬ fits n := fun h => hp (hpq.mpr h).1
    refine ⟨?_, ?_⟩
    · simp [hp]
    · simp [Succeeds, hp, hn]

/-- A checked operation returns the one value that stands for the exact result. -/
theorem Checked.eq_ok_iff
    (h : Checked value fits x n)
    (hinj : Function.Injective value)
    (hfits : ∀ r, fits (value r))
    {r : α} :
    x = .ok r ↔ value r = n := by
  constructor
  · exact h.exact r
  · intro hr
    obtain ⟨s, hs⟩ := h.succeeds_iff.mpr (hr ▸ hfits r)
    have hrs : r = s := hinj (hr.trans (h.exact s hs).symm)
    exact hrs ▸ hs

end Checked

section Quotients

variable {a b m : ℤ}

theorem tdiv_lt_iff (hb : 0 < b) (hm : 0 ≤ m) : m.tdiv b < a ↔ m < a * b := by
  rw [Int.tdiv_eq_ediv_of_nonneg hm]
  exact Int.ediv_lt_iff_lt_mul hb

theorem lt_tdiv_iff (hb : 0 < b) (hm : m ≤ 0) : a < m.tdiv b ↔ a * b < m := by
  have h := tdiv_lt_iff (a := -a) hb (neg_nonneg.mpr hm)
  rw [Int.neg_tdiv, neg_lt_neg_iff, neg_mul, neg_lt_neg_iff] at h
  exact h

theorem lt_tdiv_neg_iff (hb : b < 0) (hm : 0 ≤ m) : a < m.tdiv b ↔ m < a * b := by
  have h := tdiv_lt_iff (a := -a) (neg_pos.mpr hb) hm
  rw [Int.tdiv_neg, neg_lt_neg_iff, neg_mul_neg] at h
  exact h

end Quotients

end Kernel

end Lemonade
