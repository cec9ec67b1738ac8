import FcTpms.Job.LogActivity
import Mathlib.Data.List.Basic
import Mathlib.Tactic.ByContra

/-!
# The jobs come to rest

Without the button only so much can happen; and when nothing else can, the button starts a job,
unless some job has ended with an exception that nothing catches.
-/

namespace FcTpms.StartStop

open Machine

/-! ## What the methods leave alone -/

namespace State

variable (state : State) (job : ℕ)

end State

/-! ## Coming to rest -/

/-- More than can still happen without the button and without tests. -/
def State.weight (state : State) : ℕ :=
  4 * state.queued.length + 3 * state.current.toList.length + 2 * state.broadcasts.length +
    state.dialogs.length + state.finishing.toNat

section Steps

variable {state next : State} {event : Event}

end Steps

end FcTpms.StartStop
