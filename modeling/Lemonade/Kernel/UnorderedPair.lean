import Mathlib.Data.Sym.Sym2
import Mathlib.Tactic

/-!
# Unordered pairs

A table that is to find a pair in either order stores it in the order of a key.
If the key tells the elements apart, the sorted pair is a canonical form of the
unordered one.
-/

namespace Lemonade
namespace Kernel

section SortedPair

variable {α β : Type*} [LinearOrder β] {key : α → β} {x y x' y' : α}

/-- The pair in the order of its keys. -/
def sortedPair (key : α → β) (x y : α) : α × α :=
  if key x < key y then (x, y) else (y, x)

/-- Sorting forgets nothing but the order. -/
theorem mk_sortedPair (key : α → β) (x y : α) :
    s((sortedPair key x y).1, (sortedPair key x y).2) = s(x, y) := by
  by_cases h : key x < key y
  · rw [sortedPair, if_pos h]
  · rw [sortedPair, if_neg h]
    exact Sym2.eq_swap

theorem sortedPair_comm
    (hkey : Function.Injective key) (x y : α) :
    sortedPair key x y = sortedPair key y x := by
  unfold sortedPair
  rcases lt_trichotomy (key x) (key y) with h | h | h
  · rw [if_pos h, if_neg h.not_gt]
  · rw [hkey h]
  · rw [if_neg h.not_gt, if_pos h]

theorem sortedPair_eq_iff
    (hkey : Function.Injective key) :
    sortedPair key x y = sortedPair key x' y' ↔ s(x, y) = s(x', y') := by
  constructor
  · intro h
    rw [← mk_sortedPair key x y, h, mk_sortedPair]
  · intro h
    rcases Sym2.eq_iff.mp h with ⟨rfl, rfl⟩ | ⟨rfl, rfl⟩
    · rfl
    · exact sortedPair_comm hkey x y

end SortedPair

end Kernel

end Lemonade
