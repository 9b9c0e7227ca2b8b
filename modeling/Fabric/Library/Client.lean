import Fabric.Library.Session
import Mathlib.Logic.Function.Basic

/-! A client of a linearizable object, told by the history alone: it makes one call after the other, and each of them
    only once the one before has been answered. Its calls take effect in that order. -/

namespace Session
open Linearizability

variable {σ ι Op Ret α : Type}

section
variable {spec : σ → Op → Ret → σ → Prop} {s₀ s : σ} {h : List (Event ι Op Ret)} {es : List (Entry ι Op Ret)}
  {calls : Nat → ι} {made : List (Op × Ret)}

variable [DecidableEq ι]

end

end Session
