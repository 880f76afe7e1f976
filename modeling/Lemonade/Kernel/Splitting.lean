import Mathlib.Tactic

/-!
# Splitting at a separator

The split of a list at a separator is the one way to write it as pieces that do not contain
the separator, joined by it.  `List.splitOn` computes it, and has one piece more than there
are separators.
-/

namespace Lemonade
namespace Kernel

section Splitting

variable {α : Type*} [DecidableEq α] {sep : α} {xs : List α} {pieces : List (List α)}

/-- The pieces between the separators of a list. -/
structure IsSplit (sep : α) (xs : List α) (pieces : List (List α)) : Prop where
  ne_nil : pieces ≠ []
  not_mem : ∀ piece ∈ pieces, sep ∉ piece
  joined : [sep].intercalate pieces = xs

theorem IsSplit.eq_splitOn (h : IsSplit sep xs pieces) : pieces = xs.splitOn sep := by
  rw [← h.joined, List.splitOn_intercalate sep h.not_mem h.ne_nil]

theorem not_mem_of_mem_splitOn {piece : List α} (h : piece ∈ xs.splitOn sep) : sep ∉ piece := by
  induction xs generalizing piece with
  | nil =>
      rw [List.splitOn_nil, List.mem_singleton] at h
      subst h
      exact List.not_mem_nil
  | cons x xs ih =>
      rw [List.splitOn_cons_eq_if_modifyHead] at h
      split_ifs at h with hx
      · rcases List.mem_cons.mp h with rfl | h
        · exact List.not_mem_nil
        · exact ih h
      · obtain ⟨first, rest, hsplit⟩ := List.exists_cons_of_ne_nil (List.splitOn_ne_nil sep xs)
        rw [hsplit, List.modifyHead_cons] at h
        rcases List.mem_cons.mp h with rfl | h
        · rw [List.mem_cons, not_or]
          have hne : sep ≠ x := fun he => hx (by simp [he])
          exact ⟨hne, ih (hsplit ▸ List.mem_cons_self)⟩
        · exact ih (hsplit ▸ List.mem_cons_of_mem _ h)

/-- Every list has a split, and only one. -/
theorem isSplit_iff : IsSplit sep xs pieces ↔ pieces = xs.splitOn sep := by
  constructor
  · exact IsSplit.eq_splitOn
  · rintro rfl
    exact ⟨List.splitOn_ne_nil sep xs, fun _ => not_mem_of_mem_splitOn,
      List.intercalate_splitOn sep⟩

theorem length_splitOn : (xs.splitOn sep).length = xs.count sep + 1 := by
  induction xs with
  | nil => rfl
  | cons x xs ih =>
      rw [List.splitOn_cons_eq_if_modifyHead, List.count_cons]
      split_ifs with hx
      · rw [List.length_cons, ih]
      · rw [List.length_modifyHead, ih]

theorem findIdx?_eq_none_of_not_mem (h : sep ∉ xs) :
    xs.findIdx? (fun x => x = sep) = none := by
  refine List.findIdx?_eq_none_iff.mpr ?_
  intro x hx
  have hne : x ≠ sep := fun he => h (he ▸ hx)
  simp [hne]

/-- The first separator of a list ends its first piece. -/
theorem exists_first_piece (h : sep ∈ xs) :
    ∃ piece rest, xs = piece ++ sep :: rest ∧ sep ∉ piece ∧
      xs.findIdx? (fun x => x = sep) = some piece.length := by
  obtain ⟨piece, rest, rfl, hpiece⟩ := List.eq_append_cons_of_mem h
  refine ⟨piece, rest, rfl, hpiece, ?_⟩
  rw [List.findIdx?_append, findIdx?_eq_none_of_not_mem hpiece]
  simp [List.findIdx?_cons]

end Splitting

end Kernel
end Lemonade
