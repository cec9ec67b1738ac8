import Mathlib.Order.Basic

/-!
# Machines fed by a sequence of inputs

A machine takes one input at a time and answers with its next state or with a result, after
which it takes no more. `after` is its status once the first inputs of an infinite sequence were
offered. What holds at the start and is preserved by every step holds of every state the machine
is active in (`Keeps.after`).
-/

namespace FcTpms.Machine

variable {σ τ ι ω : Type}

/-- What a machine has come to. -/
inductive Status (σ ω : Type) where
  /-- It takes the next input in this state. -/
  | active (state : σ)
  /-- It has stopped with this result. -/
  | halted (result : ω)
  deriving DecidableEq

/-- Go on from an active machine; a machine that has stopped keeps its result. -/
def Status.andThen (status : Status σ ω) (next : σ → Status τ ω) : Status τ ω :=
  match status with
  | .active state => next state
  | .halted result => .halted result

@[simp] theorem Status.active_andThen (state : σ) (next : σ → Status τ ω) :
    (Status.active state : Status σ ω).andThen next = next state := rfl

@[simp] theorem Status.halted_andThen (result : ω) (next : σ → Status τ ω) :
    (Status.halted result : Status σ ω).andThen next = .halted result := rfl

/-- Going on with nothing. -/
@[simp] theorem Status.andThen_active (status : Status σ ω) :
    status.andThen (.active : σ → Status σ ω) = status := by
  cases status <;> rfl

/-- Offer one input. A machine that has stopped ignores it. -/
def Status.next (step : σ → ι → Status σ ω) : Status σ ω → ι → Status σ ω
  | .active state, input => step state input
  | .halted result, _ => .halted result

@[simp] theorem Status.next_active (step : σ → ι → Status σ ω) (state : σ) (input : ι) :
    (Status.active state).next step input = step state input := rfl

@[simp] theorem Status.next_halted (step : σ → ι → Status σ ω) (result : ω) (input : ι) :
    (Status.halted result).next step input = .halted result := rfl

/-- The status after the first `count` inputs. -/
def after (step : σ → ι → Status σ ω) (inputs : ℕ → ι) (start : σ) : ℕ → Status σ ω
  | 0 => .active start
  | count + 1 => (after step inputs start count).next step (inputs count)

variable {step : σ → ι → Status σ ω} {inputs : ℕ → ι} {start : σ}

@[simp] theorem after_zero : after step inputs start 0 = .active start := rfl

theorem after_succ (count : ℕ) : after step inputs start (count + 1) =
    (after step inputs start count).next step (inputs count) := rfl

/-- One step of an active machine. -/
theorem after_succ_of_active {count : ℕ} {state : σ}
    (active : after step inputs start count = .active state) :
    after step inputs start (count + 1) = step state (inputs count) := by
  rw [after_succ, active, Status.next_active]

/-- A machine that has stopped stays so. -/
theorem after_halted {count : ℕ} {result : ω}
    (halted : after step inputs start count = .halted result) (more : ℕ) :
    after step inputs start (count + more) = .halted result := by
  induction more with
  | zero => exact halted
  | succ more ih => rw [← Nat.add_assoc, after_succ, ih, Status.next_halted]

/-- A machine that is active has been active all along. -/
theorem active_of_le {early late : ℕ} {state : σ}
    (active : after step inputs start late = .active state) (ordered : early ≤ late) :
    ∃ before, after step inputs start early = .active before := by
  cases found : after step inputs start early with
  | active before => exact ⟨before, rfl⟩
  | halted result =>
    have stopped := after_halted found (late - early)
    rw [Nat.add_sub_cancel' ordered, active] at stopped
    cases stopped

/-- Some inputs of an active machine later. -/
theorem after_add {first : ℕ} {state : σ} (active : after step inputs start first = .active state)
    (count : ℕ) : after step inputs start (first + count) =
      after step (fun index => inputs (first + index)) state count := by
  induction count with
  | zero => exact active
  | succ count ih => rw [← Nat.add_assoc, after_succ, after_succ, ih]

/-- What every step on an admitted input keeps, as long as the machine goes on. -/
def Keeps (step : σ → ι → Status σ ω) (admitted : ι → Prop) (invariant : σ → Prop) : Prop :=
  ∀ state input next, admitted input → invariant state → step state input = .active next →
    invariant next

/-- What holds at the start and is kept by every step holds whenever the machine is active. -/
theorem Keeps.after {admitted : ι → Prop} {invariant : σ → Prop}
    (keeps : Keeps step admitted invariant) (offered : ∀ count, admitted (inputs count))
    (initially : invariant start) {count : ℕ} {state : σ}
    (active : after step inputs start count = .active state) : invariant state := by
  induction count generalizing state with
  | zero =>
    rw [after_zero, Status.active.injEq] at active
    rw [← active]
    exact initially
  | succ count ih =>
    obtain ⟨before, running⟩ := active_of_le active (Nat.le_succ count)
    rw [after_succ_of_active running] at active
    exact keeps before (inputs count) state (offered count) (ih running) active

end FcTpms.Machine
