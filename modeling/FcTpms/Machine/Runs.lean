import Mathlib.Order.Basic

/-!
# Runs over events

A system whose next state is determined by an event, if the event can happen at all. A run is a
sequence of events that could all happen. What one step keeps, as long as the step meets a
condition on the state before it and its event, is kept by every run whose steps all meet it
(`run_keeps`).
-/

namespace FcTpms.Machine

variable {σ ε : Type}

/-- The state after a run, if all its events could happen. -/
def run (step : σ → ε → Option σ) : σ → List ε → Option σ
  | state, [] => .some state
  | state, event :: rest => (step state event).bind fun next => run step next rest

/-- Every step of a run meets a condition on the state before it and its event. -/
def Meets (step : σ → ε → Option σ) (condition : σ → ε → Prop) : σ → List ε → Prop
  | _, [] => True
  | state, event :: rest =>
    condition state event ∧ ∀ next, step state event = .some next → Meets step condition next rest

variable {step : σ → ε → Option σ} {condition : σ → ε → Prop} {invariant : σ → Prop}

@[simp] theorem run_nil (state : σ) : run step state [] = .some state := rfl

/-- A run that meets a condition, by its first step. -/
theorem Meets.cons {state next : σ} {event : ε} {rest : List ε} (here : condition state event)
    (stepped : step state event = .some next) (later : Meets step condition next rest) :
    Meets step condition state (event :: rest) := by
  constructor
  · exact here
  · intro other reached
    rw [stepped] at reached
    rw [← Option.some.inj reached]
    exact later

/-- What every step that meets the condition keeps, every run of such steps keeps. -/
theorem run_keeps
    (keeps : ∀ state event next, invariant state → condition state event →
      step state event = .some next → invariant next)
    {start : σ} (initially : invariant start) {events : List ε}
    (meets : Meets step condition start events) {last : σ}
    (reached : run step start events = .some last) : invariant last := by
  induction events generalizing start with
  | nil =>
    obtain rfl := Option.some.inj reached
    exact initially
  | cons event rest ih =>
    obtain ⟨here, later⟩ := meets
    obtain ⟨next, stepped, continued⟩ := Option.bind_eq_some_iff.mp reached
    exact ih (keeps start event next initially here stepped) (later next stepped) continued

/-- A property holds of every state of a run. -/
def Along (step : σ → ε → Option σ) (property : σ → Prop) : σ → List ε → Prop
  | state, [] => property state
  | state, event :: rest =>
    property state ∧ ∀ next, step state event = .some next → Along step property next rest

/-- If steps that meet the condition keep an invariant, and steps that do not break the property
that the invariant implies, then a run has the property in all its states if and only if all its
steps meet the condition. -/
theorem along_iff_meets {property : σ → Prop}
    (implies : ∀ state, invariant state → property state)
    (keeps : ∀ state event next, invariant state → condition state event →
      step state event = .some next → invariant next)
    (breaks : ∀ state event next, invariant state → ¬condition state event →
      step state event = .some next → ¬property next)
    {start : σ} (initially : invariant start) {events : List ε} {last : σ}
    (reached : run step start events = .some last) :
    Along step property start events ↔ Meets step condition start events := by
  induction events generalizing start with
  | nil => exact ⟨fun _ => trivial, fun _ => implies start initially⟩
  | cons event rest ih =>
    obtain ⟨next, stepped, continued⟩ := Option.bind_eq_some_iff.mp reached
    constructor
    · rintro ⟨-, later⟩
      have after := later next stepped
      have here : condition start event := by
        by_contra unmet
        have broken := breaks start event next initially unmet stepped
        cases rest with
        | nil => exact broken after
        | cons following others => exact broken after.1
      have kept := keeps start event next initially here stepped
      exact .cons here stepped ((ih kept continued).mp after)
    · rintro ⟨here, later⟩
      refine ⟨implies start initially, fun other same => ?_⟩
      rw [stepped] at same
      obtain rfl := Option.some.inj same
      have kept := keeps start event next initially here stepped
      exact (ih kept continued).mpr (later next stepped)

end FcTpms.Machine
