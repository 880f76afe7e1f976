import Mathlib.Tactic

/-!
# Fallible computations

A transaction either runs to its end or is rolled back by the first failed
check.  Such code is written in `Except ε`, and every proof about a successful
call starts by reading off which checks it has passed.  This module collects
the two primitive checks (a decidable condition, a lookup that must succeed)
and the lemmas by which simp peels a successful computation apart.  That there is a result
at all is `Succeeds`; a failed call is described by the failures it can have (`FailsOnly`).
Simp collects both from the parts of a computation.
-/

namespace Lemonade
namespace Kernel

universe u v

variable {ε : Type u} {α β : Type v}

/-- Stop with `e` unless `p` holds. -/
def demand (p : Prop) [Decidable p] (e : ε) : Except ε PUnit :=
  if p then .ok ⟨⟩ else .error e

/-- Stop with `e` unless the lookup has a result. -/
def demandSome (o : Option α) (e : ε) : Except ε α :=
  match o with
  | some a => .ok a
  | none => .error e

@[simp] theorem demand_eq_ok_iff
    {p : Prop} [Decidable p] {e : ε} {x : PUnit.{v + 1}} :
    demand p e = .ok x ↔ p := by
  unfold demand
  split_ifs with h
  · exact ⟨fun _ => h, fun _ => rfl⟩
  · exact ⟨fun he => (by cases he), fun hp => absurd hp h⟩

@[simp] theorem demandSome_eq_ok_iff
    {o : Option α} {e : ε} {a : α} :
    demandSome o e = .ok a ↔ o = some a := by
  cases o with
  | none => simp [demandSome]
  | some b => simp [demandSome]

/-- A sequence succeeds iff both of its parts do. -/
@[simp] theorem bind_eq_ok_iff
    {x : Except ε α} {f : α → Except ε β} {b : β} :
    (x >>= f) = .ok b ↔ ∃ a, x = .ok a ∧ f a = .ok b := by
  cases x with
  | error e =>
      simp [bind, Except.bind]
  | ok a =>
      simp [bind, Except.bind]

@[simp] theorem pure_eq_ok_iff
    {a b : α} :
    (pure a : Except ε α) = .ok b ↔ b = a := by
  simp [pure, Except.pure, eq_comm]

@[simp] theorem map_eq_ok_iff
    {f : α → β} {x : Except ε α} {b : β} :
    (f <$> x) = .ok b ↔ ∃ a, x = .ok a ∧ b = f a := by
  cases x with
  | error e =>
      simp [Functor.map, Except.map]
  | ok a =>
      simp [Functor.map, Except.map, eq_comm]

/-- A guarded branch that stops on its right-hand side succeeds only on the left. -/
@[simp] theorem ite_error_eq_ok_iff
    {p : Prop} [Decidable p] {x : Except ε α} {e : ε} {a : α} :
    (if p then x else .error e) = .ok a ↔ p ∧ x = .ok a := by
  split_ifs with h
  · simp [h]
  · simp [h]

section Success

/-- The computation has a result. -/
def Succeeds (x : Except ε α) : Prop := ∃ a, x = .ok a

theorem succeeds_iff_isOk {x : Except ε α} : Succeeds x ↔ x.isOk = true := by
  cases x with
  | error e => simp [Succeeds, Except.isOk, Except.toBool]
  | ok a => simp [Succeeds, Except.isOk, Except.toBool]

@[simp] theorem succeeds_pure (a : α) : Succeeds (pure a : Except ε α) := ⟨a, rfl⟩

/-- A sequence succeeds iff its second part does after the first. -/
@[simp] theorem succeeds_bind_iff
    {x : Except ε α} {f : α → Except ε β} :
    Succeeds (x >>= f) ↔ ∃ a, x = .ok a ∧ Succeeds (f a) := by
  unfold Succeeds
  simp only [bind_eq_ok_iff]
  exact exists_comm.trans (exists_congr fun a => exists_and_left)

end Success

section Failures

variable {P Q : ε → Prop} {x y : Except ε α} {f : α → Except ε β}

/-- If the computation fails, the failure has a property. -/
def FailsOnly (P : ε → Prop) (x : Except ε α) : Prop := ∀ e, x = .error e → P e

theorem FailsOnly.mono
    (h : FailsOnly P x) (hPQ : ∀ e, P e → Q e) : FailsOnly Q x := fun e he => hPQ e (h e he)

@[simp] theorem failsOnly_ok (a : α) : FailsOnly P (.ok a : Except ε α) := by
  intro e he
  cases he

@[simp] theorem failsOnly_pure (a : α) : FailsOnly P (pure a : Except ε α) := failsOnly_ok a

@[simp] theorem failsOnly_error_iff (e : ε) : FailsOnly P (.error e : Except ε α) ↔ P e := by
  constructor
  · intro h
    exact h e rfl
  · rintro h _ he
    cases he
    exact h

/-- A sequence fails in its first part, or in its second part after the first. -/
@[simp] theorem failsOnly_bind_iff :
    FailsOnly P (x >>= f) ↔ FailsOnly P x ∧ ∀ a, x = .ok a → FailsOnly P (f a) := by
  cases x with
  | error e => simp [bind, Except.bind]
  | ok a => simp [bind, Except.bind]

@[simp] theorem failsOnly_map_iff
    {g : α → β} : FailsOnly P (g <$> x) ↔ FailsOnly P x := by
  cases x with
  | error e => simp [Functor.map, Except.map]
  | ok a => simp [Functor.map, Except.map]

@[simp] theorem failsOnly_demand_iff
    {p : Prop} [Decidable p] {e : ε} : FailsOnly P (demand p e : Except ε PUnit) ↔ p ∨ P e := by
  unfold demand
  split_ifs with h
  · simp [h]
  · simp [h]

@[simp] theorem failsOnly_demandSome_iff
    {o : Option α} {e : ε} : FailsOnly P (demandSome o e) ↔ o ≠ none ∨ P e := by
  cases o with
  | none => simp [demandSome]
  | some a => simp [demandSome]

@[simp] theorem failsOnly_ite_iff
    {c : Prop} [Decidable c] :
    FailsOnly P (if c then x else y) ↔ (c → FailsOnly P x) ∧ (¬ c → FailsOnly P y) := by
  split_ifs with h
  · simp [h]
  · simp [h]

end Failures

end Kernel
end Lemonade
