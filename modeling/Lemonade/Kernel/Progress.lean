import Lemonade.Kernel.Trace
import Mathlib.Tactic

/-!
# Progress to a goal

From every state that is not yet at the goal some step leads closer to it, as a measure tells.
Then some run arrives, in no more steps than the measure allows.  The invariant that goes along
speaks of the trace as well, so it can say what has been sent on the way.
-/

namespace Lemonade
namespace Kernel

universe u v

variable {σ : Type u} {ε : Type v} {step : σ → ε → σ → Prop}

end Kernel

end Lemonade
