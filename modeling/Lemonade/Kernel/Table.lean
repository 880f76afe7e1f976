import Mathlib.Algebra.Order.BigOperators.Group.List
import Mathlib.Tactic

/-!
# Keyed tables

A database table is a list of rows under pairwise distinct keys, kept in the
order in which the rows were stored.  The distinctness of the keys is a field,
so no operation can build a table with two rows under one key.

* `find?` reads the row under a key, `findBy` the first row with a property
  (a secondary index).
* `put` overwrites the row under a key or appends a new one, `erase` removes
  one row, `eraseWhere` every row with a property.
* `sum` adds a weight over all rows.  The lemmas `sum_put` and `sum_erase`
  give the change of a total under an update of one row, which is what every
  conservation argument about a ledger consumes.
-/

namespace Lemonade
namespace Kernel

universe u v w

/-- Rows under pairwise distinct keys. -/
structure Table (κ : Type u) (ρ : Type v) where
  rows : List (κ × ρ)
  nodup : (rows.map Prod.fst).Nodup

namespace Table

variable {κ : Type u} {ρ : Type v} [DecidableEq κ]

instance [DecidableEq ρ] : DecidableEq (Table κ ρ) := fun s t =>
  decidable_of_iff (s.rows = t.rows) (by
    cases s
    cases t
    simp)

section Rows

/-- First row under the key `k`. -/
def lookupRow (k : κ) : List (κ × ρ) → Option ρ
  | [] => none
  | e :: es => if e.1 = k then some e.2 else lookupRow k es

/-- Overwrite the row under `k`, or append one. -/
def putRow (k : κ) (r : ρ) : List (κ × ρ) → List (κ × ρ)
  | [] => [(k, r)]
  | e :: es => if e.1 = k then (k, r) :: es else e :: putRow k r es

theorem mem_keys_putRow (k : κ) (r : ρ) (l : List (κ × ρ)) (k' : κ) :
    k' ∈ (putRow k r l).map Prod.fst ↔ k' = k ∨ k' ∈ l.map Prod.fst := by
  induction l with
  | nil =>
      simp [putRow]
  | cons e es ih =>
      unfold putRow
      split_ifs with h
      · subst h
        simp
      · rw [List.map_cons, List.mem_cons, ih, List.map_cons, List.mem_cons]
        exact or_left_comm

theorem nodup_putRow (k : κ) (r : ρ) (l : List (κ × ρ))
    (hl : (l.map Prod.fst).Nodup) :
    ((putRow k r l).map Prod.fst).Nodup := by
  induction l with
  | nil =>
      simp [putRow]
  | cons e es ih =>
      rw [List.map_cons, List.nodup_cons] at hl
      unfold putRow
      split_ifs with h
      · subst h
        simpa using hl
      · rw [List.map_cons, List.nodup_cons, mem_keys_putRow]
        refine ⟨?_, ih hl.2⟩
        rintro (he | he)
        · exact h he
        · exact hl.1 he

theorem lookupRow_eq_none_iff (k : κ) (l : List (κ × ρ)) :
    lookupRow k l = none ↔ k ∉ l.map Prod.fst := by
  induction l with
  | nil =>
      simp [lookupRow]
  | cons e es ih =>
      unfold lookupRow
      split_ifs with h
      · simp [h]
      · rw [ih, List.map_cons, List.mem_cons, not_or]
        exact ⟨fun he => ⟨Ne.symm h, he⟩, fun he => he.2⟩

theorem lookupRow_eq_some_iff (k : κ) (r : ρ) (l : List (κ × ρ))
    (hl : (l.map Prod.fst).Nodup) :
    lookupRow k l = some r ↔ (k, r) ∈ l := by
  induction l with
  | nil =>
      simp [lookupRow]
  | cons e es ih =>
      rw [List.map_cons, List.nodup_cons] at hl
      obtain ⟨ek, er⟩ := e
      unfold lookupRow
      split_ifs with h
      · simp only at h
        subst h
        have hne : (ek, r) ∉ es := fun hm =>
          hl.1 (List.mem_map.mpr ⟨_, hm, rfl⟩)
        simp [hne, eq_comm]
      · simp only at h
        rw [ih hl.2, List.mem_cons, Prod.mk.injEq]
        exact ⟨Or.inr, fun hm => hm.resolve_left fun he => h he.1.symm⟩

theorem lookupRow_putRow (k k' : κ) (r : ρ) (l : List (κ × ρ)) :
    lookupRow k' (putRow k r l) =
      if k = k' then some r else lookupRow k' l := by
  induction l with
  | nil =>
      simp [putRow, lookupRow]
  | cons e es ih =>
      unfold putRow
      split_ifs with he hk hk
      · simp [lookupRow, hk]
      · simp [lookupRow, hk, he]
      · subst hk
        simpa [lookupRow, he] using ih
      · simp only [lookupRow, ih, if_neg hk]

theorem lookupRow_filter (p : κ → ρ → Bool) (k : κ) (l : List (κ × ρ))
    (hl : (l.map Prod.fst).Nodup) :
    lookupRow k (l.filter fun e => p e.1 e.2) =
      (lookupRow k l).filter fun r => p k r := by
  induction l with
  | nil =>
      simp [lookupRow]
  | cons e es ih =>
      rw [List.map_cons, List.nodup_cons] at hl
      have ih := ih hl.2
      by_cases hp : p e.1 e.2
      · rw [List.filter_cons_of_pos (by simpa using hp)]
        by_cases he : e.1 = k
        · subst he
          simp [lookupRow, Option.filter, hp]
        · simp only [lookupRow, if_neg he, ih]
      · rw [List.filter_cons_of_neg (by simpa using hp), ih]
        by_cases he : e.1 = k
        · subst he
          have hnone : lookupRow e.1 es = none :=
            (lookupRow_eq_none_iff e.1 es).mpr hl.1
          simp [lookupRow, Option.filter, hp, hnone]
        · simp only [lookupRow, if_neg he]

end Rows

/-- The table without rows. -/
def empty : Table κ ρ := ⟨[], List.nodup_nil⟩

/-- The row under a key. -/
def find? (t : Table κ ρ) (k : κ) : Option ρ := lookupRow k t.rows

/-- The first row with a property. -/
def findBy (t : Table κ ρ) (p : κ → ρ → Bool) : Option (κ × ρ) :=
  t.rows.find? fun e => p e.1 e.2

/-- Overwrite the row under a key, or store a new row there. -/
def put (t : Table κ ρ) (k : κ) (r : ρ) : Table κ ρ :=
  ⟨putRow k r t.rows, nodup_putRow k r t.rows t.nodup⟩

/-- Remove every row with a property. -/
def eraseWhere (t : Table κ ρ) (p : κ → ρ → Bool) : Table κ ρ :=
  ⟨t.rows.filter fun e => !p e.1 e.2,
    t.nodup.sublist (List.filter_sublist.map Prod.fst)⟩

/-- Remove the row under a key. -/
def erase (t : Table κ ρ) (k : κ) : Table κ ρ :=
  t.eraseWhere fun k' _ => decide (k' = k)

theorem mem_rows_iff {t : Table κ ρ} {k : κ} {r : ρ} :
    (k, r) ∈ t.rows ↔ t.find? k = some r :=
  (lookupRow_eq_some_iff k r t.rows t.nodup).symm

theorem find?_put (t : Table κ ρ) (k k' : κ) (r : ρ) :
    (t.put k r).find? k' = if k = k' then some r else t.find? k' :=
  lookupRow_putRow k k' r t.rows

/-- A new row that shows the same as the old one changes nothing that is shown. -/
theorem map_find?_put {β : Type*} (t : Table κ ρ) {k : κ} {r : ρ} (f : ρ → β)
    (h : (t.find? k).map f = some (f r)) (k' : κ) :
    ((t.put k r).find? k').map f = (t.find? k').map f := by
  rw [find?_put]
  split_ifs with hk
  · subst hk
    rw [h, Option.map_some]
  · rfl

@[simp] theorem find?_put_self (t : Table κ ρ) (k : κ) (r : ρ) :
    (t.put k r).find? k = some r := by
  simp [find?_put]

theorem find?_put_of_ne (t : Table κ ρ) {k k' : κ} (r : ρ) (h : k ≠ k') :
    (t.put k r).find? k' = t.find? k' := by
  simp [find?_put, h]

theorem find?_eraseWhere (t : Table κ ρ) (p : κ → ρ → Bool) (k : κ) :
    (t.eraseWhere p).find? k = (t.find? k).filter fun r => !p k r :=
  lookupRow_filter (fun k r => !p k r) k t.rows t.nodup

theorem find?_erase (t : Table κ ρ) (k k' : κ) :
    (t.erase k).find? k' = if k = k' then none else t.find? k' := by
  rw [erase, find?_eraseWhere]
  by_cases h : k = k'
  · subst h
    cases t.find? k <;> simp
  · have hne : ¬ k' = k := fun he => h he.symm
    cases t.find? k' <;> simp [h, hne]

@[simp] theorem find?_erase_self (t : Table κ ρ) (k : κ) :
    (t.erase k).find? k = none := by
  simp [find?_erase]

theorem find?_erase_of_ne (t : Table κ ρ) {k k' : κ} (h : k ≠ k') :
    (t.erase k).find? k' = t.find? k' := by
  simp [find?_erase, h]

theorem find?_of_findBy {t : Table κ ρ} {p : κ → ρ → Bool} {k : κ} {r : ρ}
    (h : t.findBy p = some (k, r)) : t.find? k = some r :=
  mem_rows_iff.mp (List.mem_of_find?_eq_some h)

omit [DecidableEq κ] in
theorem prop_of_findBy {t : Table κ ρ} {p : κ → ρ → Bool} {k : κ} {r : ρ}
    (h : t.findBy p = some (k, r)) : p k r = true := by
  simpa using List.find?_some h

omit [DecidableEq κ] in
@[ext] theorem ext {s t : Table κ ρ} (h : s.rows = t.rows) : s = t := by
  cases s
  cases t
  simpa using h

/-- Of two rows stored under one key the second stays. -/
theorem put_put (t : Table κ ρ) (k : κ) (r r' : ρ) : (t.put k r).put k r' = t.put k r' := by
  have key : ∀ l : List (κ × ρ), putRow k r' (putRow k r l) = putRow k r' l := by
    intro l
    induction l with
    | nil => simp [putRow]
    | cons e es ih =>
        by_cases h : e.1 = k
        · simp [putRow, h]
        · simp [putRow, h, ih]
  exact ext (key t.rows)

/-- The index misses iff no row has the property. -/
theorem findBy_eq_none_iff {t : Table κ ρ} {p : κ → ρ → Bool} :
    t.findBy p = none ↔ ∀ k r, t.find? k = some r → p k r = false := by
  rw [findBy, List.find?_eq_none]
  constructor
  · intro h k r hk
    simpa using h (k, r) (mem_rows_iff.mpr hk)
  · rintro h ⟨k, r⟩ hm
    simp [h k r (mem_rows_iff.mp hm)]

/-- Overwriting a row adds no key. -/
theorem map_fst_put {t : Table κ ρ} {k : κ} {r : ρ} (h : t.find? k = some r) (r' : ρ) :
    (t.put k r').rows.map Prod.fst = t.rows.map Prod.fst := by
  have key : ∀ l : List (κ × ρ), lookupRow k l = some r →
      (putRow k r' l).map Prod.fst = l.map Prod.fst := by
    intro l hl
    induction l with
    | nil => simp [lookupRow] at hl
    | cons e es ih =>
        by_cases he : e.1 = k
        · simp [putRow, he]
        · simp only [lookupRow, if_neg he] at hl
          simp [putRow, he, ih hl]
  exact key t.rows h

/-- The index does not see a row change that lacks the property before and after. -/
theorem findBy_put_of_false
    {t : Table κ ρ} {p : κ → ρ → Bool} {k : κ} {r r' : ρ} (h : t.find? k = some r)
    (hr : p k r = false) (hr' : p k r' = false) : (t.put k r').findBy p = t.findBy p := by
  have key : ∀ l : List (κ × ρ), lookupRow k l = some r →
      (putRow k r' l).find? (fun e => p e.1 e.2) = l.find? fun e => p e.1 e.2 := by
    intro l hl
    induction l with
    | nil => simp [lookupRow] at hl
    | cons e es ih =>
        obtain ⟨k₀, r₀⟩ := e
        by_cases he : k₀ = k
        · subst he
          simp only [lookupRow, if_pos, Option.some.injEq] at hl
          subst hl
          simp [putRow, hr, hr']
        · simp only [lookupRow, if_neg he] at hl
          simp only [putRow, if_neg he, List.find?_cons, ih hl]
  exact key t.rows h

section Sums

variable {M : Type w} [AddCommGroup M]

/-- Total weight of the rows. -/
def sum (t : Table κ ρ) (f : κ → ρ → M) : M := (t.rows.map fun e => f e.1 e.2).sum

/-- Weight of the row under a key, zero if there is none. -/
def weight (t : Table κ ρ) (f : κ → ρ → M) (k : κ) : M := (t.find? k).elim 0 (f k)

theorem weight_of_find? {t : Table κ ρ} {f : κ → ρ → M} {k : κ} {r : ρ}
    (h : t.find? k = some r) : t.weight f k = f k r := by
  simp [weight, h]

theorem weight_of_find?_none {t : Table κ ρ} {f : κ → ρ → M} {k : κ}
    (h : t.find? k = none) : t.weight f k = 0 := by
  simp [weight, h]

theorem weight_put (t : Table κ ρ) (f : κ → ρ → M) (k k' : κ) (r : ρ) :
    (t.put k r).weight f k' = if k = k' then f k' r else t.weight f k' := by
  rw [weight, find?_put]
  split_ifs with h
  · rfl
  · rfl

theorem weight_erase (t : Table κ ρ) (f : κ → ρ → M) (k k' : κ) :
    (t.erase k).weight f k' = if k = k' then 0 else t.weight f k' := by
  rw [weight, find?_erase]
  split_ifs with h
  · rfl
  · rfl

/-- Storing one row moves a total by the difference of the two weights. -/
theorem sum_put (t : Table κ ρ) (f : κ → ρ → M) (k : κ) (r : ρ) :
    (t.put k r).sum f = t.sum f - t.weight f k + f k r := by
  have key : ∀ l : List (κ × ρ),
      ((putRow k r l).map fun e => f e.1 e.2).sum =
        (l.map fun e => f e.1 e.2).sum - (lookupRow k l).elim 0 (f k) + f k r := by
    intro l
    induction l with
    | nil =>
        simp [putRow, lookupRow]
    | cons e es ih =>
        unfold putRow lookupRow
        split_ifs with h
        · subst h
          simp only [List.map_cons, List.sum_cons, Option.elim_some]
          abel
        · simp only [List.map_cons, List.sum_cons, ih]
          abel
  exact key t.rows

/-- Removing one row lowers a total by its weight. -/
theorem sum_erase (t : Table κ ρ) (f : κ → ρ → M) (k : κ) :
    (t.erase k).sum f = t.sum f - t.weight f k := by
  have key : ∀ l : List (κ × ρ), (l.map Prod.fst).Nodup →
      ((l.filter fun e => !decide (e.1 = k)).map fun e => f e.1 e.2).sum =
        (l.map fun e => f e.1 e.2).sum - (lookupRow k l).elim 0 (f k) := by
    intro l hl
    induction l with
    | nil =>
        simp [lookupRow]
    | cons e es ih =>
        rw [List.map_cons, List.nodup_cons] at hl
        have ih := ih hl.2
        by_cases h : e.1 = k
        · subst h
          have hnone : lookupRow e.1 es = none :=
            (lookupRow_eq_none_iff e.1 es).mpr hl.1
          rw [List.filter_cons_of_neg (by simp), ih, hnone]
          simp [lookupRow]
        · rw [List.filter_cons_of_pos (by simpa using h)]
          simp only [List.map_cons, List.sum_cons, ih, lookupRow, if_neg h]
          abel
  exact key t.rows t.nodup

theorem sum_eq_zero {t : Table κ ρ} {f : κ → ρ → M}
    (h : ∀ k r, t.find? k = some r → f k r = 0) : t.sum f = 0 := by
  refine List.sum_eq_zero ?_
  intro x hx
  obtain ⟨⟨k, r⟩, hm, rfl⟩ := List.mem_map.mp hx
  exact h k r (mem_rows_iff.mp hm)

omit [DecidableEq κ] in
/-- An additive map goes through a total. -/
theorem map_sum {N : Type*} [AddCommGroup N] (φ : M →+ N) (t : Table κ ρ) (f : κ → ρ → M) :
    φ (t.sum f) = t.sum fun k r => φ (f k r) := by
  rw [sum, map_list_sum, List.map_map]
  rfl

/-- A total in which one row counts is the weight of that row. -/
theorem sum_eq_weight {t : Table κ ρ} {f : κ → ρ → M} {k : κ}
    (h : ∀ k' r, k' ≠ k → f k' r = 0) : t.sum f = t.weight f k := by
  have hrest : (t.erase k).sum f = 0 := by
    refine sum_eq_zero ?_
    intro k' r hk'
    refine h k' r ?_
    rintro rfl
    simp at hk'
  rw [sum_erase] at hrest
  exact sub_eq_zero.mp hrest

variable [PartialOrder M] [IsOrderedAddMonoid M]

theorem sum_nonneg {t : Table κ ρ} {f : κ → ρ → M}
    (h : ∀ k r, t.find? k = some r → 0 ≤ f k r) : 0 ≤ t.sum f := by
  refine List.sum_nonneg ?_
  intro x hx
  obtain ⟨⟨k, r⟩, hm, rfl⟩ := List.mem_map.mp hx
  exact h k r (mem_rows_iff.mp hm)

/-- One row weighs at most the total of nonnegative weights. -/
theorem weight_le_sum {t : Table κ ρ} {f : κ → ρ → M}
    (h : ∀ k r, t.find? k = some r → 0 ≤ f k r) (k : κ) : t.weight f k ≤ t.sum f := by
  have hrest : 0 ≤ (t.erase k).sum f := by
    refine sum_nonneg fun k' r hk' => ?_
    by_cases hne : k = k'
    · subst hne
      simp at hk'
    · exact h k' r (by rwa [find?_erase_of_ne t hne] at hk')
  rw [sum_erase] at hrest
  exact sub_nonneg.mp hrest

end Sums

end Table

end Kernel
end Lemonade
