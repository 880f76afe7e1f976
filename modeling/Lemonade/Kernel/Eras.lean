import Mathlib.Algebra.BigOperators.Intervals
import Mathlib.Algebra.Order.BigOperators.Group.Finset
import Mathlib.Tactic

/-!
# Time weighted by era

Points `bound 0 ≤ bound 1 ≤ …` cut time into eras, and time spent in era `i` counts
for one part in `divisor i`, rounded down.  A scan over the eras computes the weight
of an interval: it carries the weight so far, the point it has counted up to, and the
era it has come to.
-/

namespace Lemonade
namespace Kernel

section Weights

/-- Length of the common part of `[a, t]` and `[lo, hi]`. -/
def overlap (a t lo hi : ℕ) : ℕ := min t hi - max a lo

/-- Weight of `[a, t]` in the eras from `k` up to `n`. -/
def eraWeight (bound divisor : ℕ → ℕ) (k n a t : ℕ) : ℕ :=
  ∑ i ∈ Finset.Ico k n, overlap a t (bound i) (bound (i + 1)) / divisor i

variable {bound divisor : ℕ → ℕ} {k m n a t : ℕ}

theorem eraWeight_self : eraWeight bound divisor k k a t = 0 := by
  simp [eraWeight]

theorem eraWeight_succ (h : k ≤ m) :
    eraWeight bound divisor k (m + 1) a t =
      eraWeight bound divisor k m a t + overlap a t (bound m) (bound (m + 1)) / divisor m :=
  Finset.sum_Ico_succ_top h _

/-- An interval weighs at most its length, as far as the eras reach. -/
theorem eraWeight_add_le (hmono : Monotone bound) (h : k ≤ m) :
    eraWeight bound divisor k m a t + a ≤ max a (min t (bound m)) := by
  induction m, h using Nat.le_induction with
  | base =>
      rw [eraWeight_self]
      omega
  | succ m hm ih =>
      have hbound := hmono (Nat.le_succ m)
      have hdiv := Nat.div_le_self (overlap a t (bound m) (bound (m + 1))) (divisor m)
      rw [eraWeight_succ hm]
      unfold overlap at *
      simp only [Nat.succ_eq_add_one] at *
      omega

end Weights

section Scan

/-- The point lies in era `k`, or behind all `n` eras if `k = n`. -/
structure InEra (bound : ℕ → ℕ) (n k t : ℕ) : Prop where
  le : k ≤ n
  start : bound k ≤ t
  stop : k < n → t < bound (k + 1)

/-- The state of a scan over the eras. -/
structure Scan where
  total : ℕ
  last : ℕ
  era : ℕ

/-- The scan of one more era. -/
def scanStep (bound divisor : ℕ → ℕ) (t : ℕ) (f : Scan) (i : ℕ) : Scan :=
  if bound i ≤ t ∧ t < bound (i + 1) then
    { f with total := f.total + (t - f.last) / divisor i, era := i }
  else if bound (i + 1) ≤ t then
    ⟨f.total + (bound (i + 1) - f.last) / divisor i, bound (i + 1), i + 1⟩
  else f

/-- What a scan of `[a, t]` from era `k` has found before era `m`: it is over, or it
has come to the start of era `m`. -/
structure Scanned (bound divisor : ℕ → ℕ) (k a t m : ℕ) (f : Scan) : Prop where
  total : f.total = eraWeight bound divisor k m a t
  last : InEra bound m f.era t ∧ f.era < m ∧ f.last ≤ t ∨
    bound m ≤ t ∧ f.era = m ∧ f.last = max a (bound m)

variable {bound divisor : ℕ → ℕ} {k m n a t : ℕ} {f : Scan}

theorem scanned_start (h : InEra bound n k a) (hat : a ≤ t) :
    Scanned bound divisor k a t k ⟨0, a, k⟩ where
  total := eraWeight_self.symm
  last := Or.inr ⟨h.start.trans hat, rfl, (max_eq_left h.start).symm⟩

/-- The scan has not counted beyond the next era. -/
theorem Scanned.last_le
    (h : Scanned bound divisor k a t m f) (hmono : Monotone bound) (hk : InEra bound n k a)
    (hat : a ≤ t) (hkm : k ≤ m) (hmn : m < n) :
    (bound m ≤ t → f.last ≤ t) ∧ (bound (m + 1) ≤ t → f.last ≤ bound (m + 1)) := by
  have hstop := hk.stop (by omega)
  have hnext := hmono (show k + 1 ≤ m + 1 by omega)
  have hbound := hmono (Nat.le_succ m)
  simp only [Nat.succ_eq_add_one] at hbound
  obtain ⟨hera, hlt, hle⟩ | ⟨hm, -, hlast⟩ := h.last
  · have hend := hera.stop hlt
    have hbefore := hmono (show f.era + 1 ≤ m by omega)
    omega
  · omega

theorem Scanned.step
    (h : Scanned bound divisor k a t m f) (hmono : Monotone bound) (hk : InEra bound n k a)
    (hat : a ≤ t) (hkm : k ≤ m) (hmn : m < n) :
    Scanned bound divisor k a t (m + 1) (scanStep bound divisor t f m) := by
  have hbound := hmono (Nat.le_succ m)
  have hstop := hk.stop (by omega)
  have hnext := hmono (show k + 1 ≤ m + 1 by omega)
  simp only [Nat.succ_eq_add_one] at hbound
  obtain ⟨hera, hlt, hle⟩ | ⟨hm, hm', hlast⟩ := h.last
  · -- the scan is over, and the interval does not reach era `m`
    have hend := hera.stop hlt
    have hbefore := hmono (show f.era + 1 ≤ m by omega)
    have hnone : overlap a t (bound m) (bound (m + 1)) = 0 := by
      unfold overlap
      omega
    have hsame : scanStep bound divisor t f m = f := by
      unfold scanStep
      rw [if_neg (by omega), if_neg (by omega)]
    rw [hsame]
    refine ⟨?_, Or.inl ⟨⟨by omega, hera.start, fun _ => hend⟩, by omega, hle⟩⟩
    rw [eraWeight_succ hkm, hnone, Nat.zero_div, h.total, Nat.add_zero]
  · unfold scanStep
    rcases lt_or_ge t (bound (m + 1)) with hin | hpast
    · -- the interval ends in era `m`
      have hpart : overlap a t (bound m) (bound (m + 1)) = t - f.last := by
        unfold overlap
        omega
      rw [if_pos ⟨hm, hin⟩]
      refine ⟨?_, Or.inl ⟨⟨Nat.le_succ m, hm, fun _ => hin⟩, Nat.lt_succ_self m, ?_⟩⟩
      · rw [eraWeight_succ hkm, hpart, h.total]
      · dsimp only
        omega
    · -- era `m` is counted to its end
      have hpart : overlap a t (bound m) (bound (m + 1)) = bound (m + 1) - f.last := by
        unfold overlap
        omega
      rw [if_neg (by omega), if_pos hpast]
      refine ⟨?_, Or.inr ⟨hpast, rfl, ?_⟩⟩
      · rw [eraWeight_succ hkm, hpart, h.total]
      · dsimp only
        omega

/-- A scan that has passed all eras knows the era of its end point. -/
theorem Scanned.inEra
    (h : Scanned bound divisor k a t n f) : InEra bound n f.era t := by
  obtain ⟨hera, -, -⟩ | ⟨hn, hn', -⟩ := h.last
  · exact hera
  · rw [hn']
    exact ⟨le_refl n, hn, fun hlt => absurd hlt (lt_irrefl n)⟩

theorem Scanned.total_le
    (h : Scanned bound divisor k a t m f) (hmono : Monotone bound) (hkm : k ≤ m) (hat : a ≤ t) :
    f.total ≤ t := by
  have hle : eraWeight bound divisor k m a t + a ≤ max a (min t (bound m)) :=
    eraWeight_add_le hmono hkm
  rw [← h.total] at hle
  omega

end Scan

end Kernel
end Lemonade
