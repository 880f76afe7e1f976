import Mathlib.Algebra.Order.BigOperators.Group.List
import Mathlib.Tactic

/-!
# Runs of labelled transition systems

`step s e t` says that the system may go from `s` to `t` under the label `e`.
A run is recorded with the states it left: its trace lists the pairs of a state
and the label taken there, oldest first.  The label carries everything that is
visible of the step, so a property of the whole history is a property of the
trace.

* `Run.invariant` and `Run.invariant_of_forall` are the induction principle for
  state invariants, without and with a condition on the steps taken.
* `Run.balance_eq` and `Run.balance_le` add up what the steps do to a quantity.
* `Run.log_eq` collects what the steps append to a list.
* `Run.simulate` turns runs into runs of another system, step by step.
* `Run.cut` cuts a run at one of its steps.
* `play` executes a list of inputs; `run_of_play` turns its result into a run.
-/

namespace Lemonade
namespace Kernel

universe u v w

variable {σ : Type u} {ε : Type v}

/-- Runs with their trace. -/
inductive Run (step : σ → ε → σ → Prop) (s : σ) : List (σ × ε) → σ → Prop
  | nil : Run step s [] s
  | snoc {t u : σ} {tr : List (σ × ε)} {e : ε}
      (run : Run step s tr t) (last : step t e u) :
      Run step s (tr ++ [(t, e)]) u

/-- States that some run from `init` ends in. -/
def Reachable (step : σ → ε → σ → Prop) (init : σ → Prop) (t : σ) : Prop :=
  ∃ s tr, init s ∧ Run step s tr t

namespace Run

variable {step : σ → ε → σ → Prop}

theorem single {s t : σ} {e : ε} (h : step s e t) : Run step s [(s, e)] t :=
  snoc nil h

theorem append {s t u : σ} {tr tr' : List (σ × ε)}
    (h : Run step s tr t) (h' : Run step t tr' u) : Run step s (tr ++ tr') u := by
  induction h' with
  | nil => simpa using h
  | snoc run last ih =>
      rw [← List.append_assoc]
      exact snoc ih last

theorem cons {s t u : σ} {tr : List (σ × ε)} {e : ε}
    (h : step s e t) (h' : Run step t tr u) : Run step s ((s, e) :: tr) u :=
  append (single h) h'

/-- An invariant of every step holds at the end of a run. -/
theorem invariant (I : σ → Prop)
    (hstep : ∀ s e t, I s → step s e t → I t)
    {s t : σ} {tr : List (σ × ε)} (h : Run step s tr t) (hs : I s) : I t := by
  induction h with
  | nil => exact hs
  | snoc _ last ih => exact hstep _ _ _ ih last

/-- An invariant that only the steps meeting `C` are known to keep. -/
theorem invariant_of_forall (C : σ × ε → Prop) (I : σ → Prop)
    (hstep : ∀ s e t, C (s, e) → I s → step s e t → I t)
    {s t : σ} {tr : List (σ × ε)} (h : Run step s tr t)
    (hC : ∀ p ∈ tr, C p) (hs : I s) : I t := by
  induction h with
  | nil => exact hs
  | snoc _ last ih =>
      refine hstep _ _ _ (hC _ (by simp)) (ih fun p hp => hC p ?_) last
      exact List.mem_append_left _ hp

/-- What holds of the empty run, and is passed on by every step that meets `C` from a state
with `I`. -/
theorem traced_of_forall (C : σ × ε → Prop) (I : σ → Prop) (Q : List (σ × ε) → σ → Prop)
    (hinv : ∀ s e t, C (s, e) → I s → step s e t → I t)
    (hstep : ∀ tr t e u, C (t, e) → I t → step t e u → Q tr t → Q (tr ++ [(t, e)]) u)
    {s t : σ} {tr : List (σ × ε)} (h : Run step s tr t)
    (hC : ∀ p ∈ tr, C p) (hs : I s) (hnil : Q [] s) : Q tr t := by
  induction h with
  | nil => exact hnil
  | @snoc t u tr e run last ih =>
      have hpre : ∀ p ∈ tr, C p := fun p hp => hC p (List.mem_append_left _ hp)
      have hlast : C (t, e) := hC _ (by simp)
      have ht : I t := invariant_of_forall C I hinv run hpre hs
      exact hstep tr t e u hlast ht last (ih hpre)

/-- A relation between the states of a run, reflexive and transitive, that every
step meeting `C` from a state with `I` establishes. -/
theorem related_of_forall (C : σ × ε → Prop) (I : σ → Prop) (R : σ → σ → Prop)
    (hrefl : ∀ s, I s → R s s) (htrans : ∀ s t u, I s → I t → I u → R s t → R t u → R s u)
    (hinv : ∀ s e t, C (s, e) → I s → step s e t → I t)
    (hstep : ∀ s e t, C (s, e) → I s → step s e t → R s t)
    {s t : σ} {tr : List (σ × ε)} (h : Run step s tr t)
    (hC : ∀ p ∈ tr, C p) (hs : I s) : R s t := by
  refine h.traced_of_forall C I (fun _ t => R s t) hinv ?_ hC hs (hrefl s hs)
  intro tr t e u hc ht last hR
  exact htrans s t u hs ht (hinv t e u hc ht last) hR (hstep t e u hc ht last)

section Balance

variable {M : Type w} [AddCommMonoid M]

/-- A quantity that each step changes by the gain of its label. -/
theorem balance_eq (C : σ × ε → Prop) (I : σ → Prop) (f : σ → M) (g : σ × ε → M)
    (hinv : ∀ s e t, C (s, e) → I s → step s e t → I t)
    (hstep : ∀ s e t, C (s, e) → I s → step s e t → f t = f s + g (s, e))
    {s t : σ} {tr : List (σ × ε)} (h : Run step s tr t)
    (hC : ∀ p ∈ tr, C p) (hs : I s) : f t = f s + (tr.map g).sum := by
  refine h.traced_of_forall C I (fun tr t => f t = f s + (tr.map g).sum) hinv ?_ hC hs (by simp)
  intro tr t e u hc ht last hf
  rw [hstep t e u hc ht last, hf, List.map_append, List.sum_append, add_assoc]
  simp

/-- A counter that goes up by one at exactly the steps with a property. -/
theorem count_eq (C : σ × ε → Prop) (I : σ → Prop) (f : σ → ℕ) (p : σ × ε → Bool)
    (hinv : ∀ s e t, C (s, e) → I s → step s e t → I t)
    (hstep : ∀ s e t, C (s, e) → I s → step s e t →
      f t = f s + if p (s, e) then 1 else 0)
    {s t : σ} {tr : List (σ × ε)} (h : Run step s tr t)
    (hC : ∀ p ∈ tr, C p) (hs : I s) : f t = f s + tr.countP p := by
  have hcount : ∀ l : List (σ × ε),
      l.countP p = (l.map fun q => if p q then 1 else 0).sum := by
    intro l
    induction l with
    | nil => rfl
    | cons q l ih => rw [List.countP_cons, List.map_cons, List.sum_cons, ih, add_comm]
  rw [hcount]
  exact h.balance_eq C I f (fun q => if p q then 1 else 0) hinv hstep hC hs

variable [PartialOrder M] [IsOrderedAddMonoid M]

/-- A quantity that each step raises by at most the gain of its label. -/
theorem balance_le (C : σ × ε → Prop) (I : σ → Prop) (f : σ → M) (g : σ × ε → M)
    (hinv : ∀ s e t, C (s, e) → I s → step s e t → I t)
    (hstep : ∀ s e t, C (s, e) → I s → step s e t → f t ≤ f s + g (s, e))
    {s t : σ} {tr : List (σ × ε)} (h : Run step s tr t)
    (hC : ∀ p ∈ tr, C p) (hs : I s) : f t ≤ f s + (tr.map g).sum := by
  refine h.traced_of_forall C I (fun tr t => f t ≤ f s + (tr.map g).sum) hinv ?_ hC hs (by simp)
  intro tr t e u hc ht last hf
  calc f u ≤ f t + g (t, e) := hstep t e u hc ht last
    _ ≤ f s + (tr.map g).sum + g (t, e) := by gcongr
    _ = f s + ((tr ++ [(t, e)]).map g).sum := by
        rw [List.map_append, List.sum_append, add_assoc]
        simp

end Balance

section Log

variable {α : Type w}

/-- A list that each step extends by the entries of its label. -/
theorem log_eq (C : σ × ε → Prop) (I : σ → Prop) (f : σ → List α) (g : σ × ε → List α)
    (hinv : ∀ s e t, C (s, e) → I s → step s e t → I t)
    (hstep : ∀ s e t, C (s, e) → I s → step s e t → f t = f s ++ g (s, e))
    {s t : σ} {tr : List (σ × ε)} (h : Run step s tr t)
    (hC : ∀ p ∈ tr, C p) (hs : I s) : f t = f s ++ tr.flatMap g := by
  refine h.traced_of_forall C I (fun tr t => f t = f s ++ tr.flatMap g) hinv ?_ hC hs (by simp)
  intro tr t e u hc ht last hf
  rw [hstep t e u hc ht last, hf, List.flatMap_append, List.append_assoc]
  simp

end Log

section Simulation

variable {σ' : Type*} {ε' : Type*} {step' : σ' → ε' → σ' → Prop}

/-- If every step is a run of another system, then every run is. -/
theorem simulate (abs : σ → σ') (I : σ → Prop) (R : σ × ε → List ε' → Prop)
    (hinv : ∀ s e t, I s → step s e t → I t)
    (hstep : ∀ s e t, I s → step s e t →
      ∃ tr, R (s, e) (tr.map Prod.snd) ∧ Run step' (abs s) tr (abs t))
    {s t : σ} {tr : List (σ × ε)} (h : Run step s tr t) (hs : I s) :
    ∃ trs : List (List (σ' × ε')),
      List.Forall₂ (fun p tr => R p (tr.map Prod.snd)) tr trs ∧
        Run step' (abs s) trs.flatten (abs t) := by
  refine h.traced_of_forall (fun _ => True) I (fun tr t => ∃ trs : List (List (σ' × ε')),
    List.Forall₂ (fun p tr => R p (tr.map Prod.snd)) tr trs ∧
      Run step' (abs s) trs.flatten (abs t)) (fun s e t _ => hinv s e t) ?_ (fun _ _ => trivial) hs
      ⟨[], .nil, .nil⟩
  rintro tr t e u - ht last ⟨trs, hR, hrun⟩
  obtain ⟨tr', hR', hrun'⟩ := hstep t e u ht last
  refine ⟨trs ++ [tr'], List.rel_append hR (.cons hR' .nil), ?_⟩
  rw [List.flatten_append, List.flatten_singleton]
  exact hrun.append hrun'

/-- What is known of the labels of the steps is passed on to those of their runs. -/
theorem forall_of_simulated {R : σ × ε → List ε' → Prop} {C : σ × ε → Prop} {C' : ε' → Prop}
    {tr : List (σ × ε)} {trs : List (List (σ' × ε'))}
    (h : List.Forall₂ (fun p tr => R p (tr.map Prod.snd)) tr trs) (hC : ∀ p ∈ tr, C p)
    (hR : ∀ p l, C p → R p l → ∀ e ∈ l, C' e) : ∀ q ∈ trs.flatten, C' q.2 := by
  induction h with
  | nil => exact fun _ hq => absurd hq (List.not_mem_nil)
  | @cons p tr' tr trs hp _ ih =>
      intro q hq
      rw [List.flatten_cons, List.mem_append] at hq
      rcases hq with hq | hq
      · exact hR p _ (hC p (by simp)) hp q.2 (List.mem_map_of_mem hq)
      · exact ih (fun p hp => hC p (List.mem_cons_of_mem _ hp)) q hq

end Simulation

/-- Cut a run at one of its steps. -/
theorem cut {s t u : σ} {e : ε} {pre post : List (σ × ε)}
    (h : Run step s (pre ++ (u, e) :: post) t) :
    Run step s pre u ∧ ∃ v, step u e v ∧ Run step v post t := by
  generalize htr : pre ++ (u, e) :: post = tr at h
  induction h generalizing post with
  | nil => simp at htr
  | @snoc t t' tr e' run last ih =>
      rcases List.eq_nil_or_concat post with rfl | ⟨post, p, rfl⟩
      · obtain ⟨rfl, he⟩ := List.append_inj' htr rfl
        rw [List.cons.injEq, Prod.mk.injEq] at he
        obtain ⟨⟨rfl, rfl⟩, -⟩ := he
        exact ⟨run, t', last, nil⟩
      · rw [List.concat_eq_append, ← List.cons_append, ← List.append_assoc] at htr
        obtain ⟨hinit, hp⟩ := List.append_inj' htr rfl
        obtain rfl := List.singleton_injective hp
        obtain ⟨hpre, v, hstep, hpost⟩ := ih hinit
        rw [List.concat_eq_append]
        exact ⟨hpre, v, hstep, snoc hpost last⟩

theorem exists_of_mem {s t : σ} {tr : List (σ × ε)} (h : Run step s tr t)
    {u : σ} {e : ε} (hm : (u, e) ∈ tr) :
    ∃ pre post v, tr = pre ++ (u, e) :: post ∧
      Run step s pre u ∧ step u e v ∧ Run step v post t := by
  obtain ⟨pre, post, rfl⟩ := List.append_of_mem hm
  obtain ⟨hpre, v, hstep, hpost⟩ := h.cut
  exact ⟨pre, post, v, rfl, hpre, hstep, hpost⟩

end Run

namespace Reachable

variable {step : σ → ε → σ → Prop} {init : σ → Prop}

theorem of_init {s : σ} (h : init s) : Reachable step init s :=
  ⟨s, [], h, Run.nil⟩

theorem run {s t : σ} {tr : List (σ × ε)}
    (hs : Reachable step init s) (h : Run step s tr t) : Reachable step init t := by
  obtain ⟨s₀, tr₀, h₀, hrun⟩ := hs
  exact ⟨s₀, tr₀ ++ tr, h₀, hrun.append h⟩

theorem succ {s t : σ} {e : ε}
    (hs : Reachable step init s) (h : step s e t) : Reachable step init t :=
  hs.run (Run.single h)

/-- What holds initially and is kept by every step holds in every reachable state. -/
theorem invariant (I : σ → Prop) (hinit : ∀ s, init s → I s)
    (hstep : ∀ s e t, I s → step s e t → I t)
    {t : σ} (ht : Reachable step init t) : I t := by
  obtain ⟨s, tr, hs, hrun⟩ := ht
  exact hrun.invariant I hstep (hinit s hs)

end Reachable

section Play

variable {ι : Type w}

/-- Execute a list of inputs and record the trace. -/
def play (f : σ → ι → Option (ε × σ)) : σ → List ι → Option (List (σ × ε) × σ)
  | s, [] => some ([], s)
  | s, i :: is =>
      match f s i with
      | none => none
      | some (e, t) =>
          match play f t is with
          | none => none
          | some (tr, u) => some ((s, e) :: tr, u)

/-- The first input is executed, and then the others. -/
theorem play_cons_eq_some {f : σ → ι → Option (ε × σ)} {i : ι} {is : List ι} {s u : σ}
    {tr : List (σ × ε)} (h : play f s (i :: is) = some (tr, u)) :
    ∃ e t tr', f s i = some (e, t) ∧ play f t is = some (tr', u) ∧ tr = (s, e) :: tr' := by
  cases hi : f s i with
  | none => simp [play, hi] at h
  | some et =>
      obtain ⟨e, t⟩ := et
      cases hr : play f t is with
      | none => simp [play, hi, hr] at h
      | some r =>
          obtain ⟨tr', u'⟩ := r
          simp only [play, hi, hr, Option.some.injEq, Prod.mk.injEq] at h
          obtain ⟨rfl, rfl⟩ := h
          exact ⟨e, t, tr', rfl, hr, rfl⟩

theorem run_of_play {step : σ → ε → σ → Prop} {f : σ → ι → Option (ε × σ)}
    (hf : ∀ s i e t, f s i = some (e, t) → step s e t) :
    ∀ (is : List ι) {s u : σ} {tr : List (σ × ε)},
      play f s is = some (tr, u) → Run step s tr u
  | [], s, u, tr, h => by
      simp only [play, Option.some.injEq, Prod.mk.injEq] at h
      obtain ⟨rfl, rfl⟩ := h
      exact Run.nil
  | i :: is, s, u, tr, h => by
      obtain ⟨e, t, tr', hi, hr, rfl⟩ := play_cons_eq_some h
      exact Run.cons (hf _ _ _ _ hi) (run_of_play hf is hr)

/-- The labels of an execution stand for its inputs, in their order. -/
theorem map_of_play {f : σ → ι → Option (ε × σ)} {g : ε → ι}
    (hf : ∀ s i e t, f s i = some (e, t) → g e = i) :
    ∀ (is : List ι) {s u : σ} {tr : List (σ × ε)},
      play f s is = some (tr, u) → tr.map (fun p => g p.2) = is
  | [], s, u, tr, h => by
      simp only [play, Option.some.injEq, Prod.mk.injEq] at h
      obtain ⟨rfl, rfl⟩ := h
      rfl
  | i :: is, s, u, tr, h => by
      obtain ⟨e, t, tr', hi, hr, rfl⟩ := play_cons_eq_some h
      rw [List.map_cons, hf _ _ _ _ hi, map_of_play hf is hr]

/-- What an execution shows is shown by the run it stands for. -/
theorem exists_of_play {α : Type*} {f : σ → ι → Option (ε × σ)} {s : σ} {is : List ι}
    {obs : List (σ × ε) × σ → α} {x : α}
    (h : (play f s is).map obs = some x) :
    ∃ tr t, play f s is = some (tr, t) ∧ obs (tr, t) = x := by
  obtain ⟨⟨tr, t⟩, hplay, hobs⟩ := Option.map_eq_some_iff.mp h
  exact ⟨tr, t, hplay, hobs⟩

end Play

end Kernel
end Lemonade
