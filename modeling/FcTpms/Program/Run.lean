import Mathlib.Data.List.Infix
import Mathlib.Order.Basic

/-!
# Programs with state, observations and loops

A program takes an amount of fuel and a start state to a run: the observations it made in
order, the state it stopped in, and how it stopped. Loops spend fuel, nothing else does, and a
run that needs more than it was given is `exhausted`. Every program carries the law that makes
fuel harmless: more fuel only lengthens an exhausted run and leaves every other run as it is
(`Run.Extends`). Statements about programs therefore never depend on the amount of fuel.
-/

namespace FcTpms.Program

/-- How a run stops. -/
inductive Outcome (α : Type) where
  /-- The program returned a value. -/
  | returned (value : α)
  /-- The process died, for example on a null pointer. -/
  | crashed
  /-- The fuel did not suffice. -/
  | exhausted
  deriving DecidableEq

/-- One run of a program from one state. -/
structure Run (σ ε α : Type) where
  /-- Observations in the order in which they were made. -/
  trace : List ε
  /-- The state in which the run stopped. -/
  state : σ
  /-- How the run stopped. -/
  outcome : Outcome α

namespace Run

variable {σ ε α β : Type}

/-- `longer` is what `shorter` becomes under more fuel: its observations go on from those of
`shorter`, and it is the same run unless `shorter` ran out of fuel. -/
structure Extends (shorter longer : Run σ ε α) : Prop where
  /-- No observation is lost or changed. -/
  before : shorter.trace <+: longer.trace
  /-- A run that stopped by itself stays as it is. -/
  stable : shorter.outcome ≠ .exhausted → longer = shorter

/-- Every run extends itself. -/
theorem Extends.refl (run : Run σ ε α) : run.Extends run :=
  ⟨List.prefix_refl _, fun _ => rfl⟩

/-- Continue a run that returned; a run that stopped otherwise is passed on. -/
def andThen (run : Run σ ε α) (next : α → σ → Run σ ε β) : Run σ ε β :=
  match run.outcome with
  | .returned value =>
    let later := next value run.state
    ⟨run.trace ++ later.trace, later.state, later.outcome⟩
  | .crashed => ⟨run.trace, run.state, .crashed⟩
  | .exhausted => ⟨run.trace, run.state, .exhausted⟩

/-- The observations of the first part begin those of the whole. -/
theorem andThen_before (run : Run σ ε α) (next : α → σ → Run σ ε β) :
    run.trace <+: (run.andThen next).trace := by
  unfold andThen
  cases run.outcome with
  | returned value => exact List.prefix_append _ _
  | crashed => exact List.prefix_refl _
  | exhausted => exact List.prefix_refl _

/-- Continuing extended runs by extended runs gives an extended run. -/
theorem Extends.andThen {shorter longer : Run σ ε α} {next later : α → σ → Run σ ε β}
    (first : shorter.Extends longer) (second : ∀ value state,
      (next value state).Extends (later value state)) :
    (shorter.andThen next).Extends (longer.andThen later) := by
  by_cases spent : shorter.outcome = .exhausted
  · refine ⟨?_, fun finished => ?_⟩
    · have whole : (shorter.andThen next).trace = shorter.trace := by
        simp only [Run.andThen, spent]
      rw [whole]
      exact first.before.trans (andThen_before longer later)
    · simp only [Run.andThen, spent, ne_eq, not_true_eq_false] at finished
  · rw [first.stable spent]
    cases stopped : shorter.outcome with
    | exhausted => exact absurd stopped spent
    | crashed =>
      simp only [Run.andThen, stopped]
      exact Extends.refl _
    | returned value =>
      have rest := second value shorter.state
      simp only [Run.andThen, stopped]
      refine ⟨(List.prefix_append_right_inj _).mpr rest.before, fun finished => ?_⟩
      rw [rest.stable finished]

end Run

/-- A program: a run for every amount of fuel and every start state, where more fuel extends
the run. -/
structure Prog (σ ε α : Type) where
  /-- The run with this much fuel from this state. -/
  run : ℕ → σ → Run σ ε α
  /-- More fuel extends the run. -/
  extend : ∀ {fuel more : ℕ}, fuel ≤ more → ∀ state, (run fuel state).Extends (run more state)

namespace Prog

variable {σ ε α β γ : Type}

/-- A program whose run needs no fuel. -/
def ofRun (step : σ → Run σ ε α) : Prog σ ε α where
  run _ state := step state
  extend _ state := Run.Extends.refl (step state)

/-- Sequential composition. -/
protected def bind (first : Prog σ ε α) (second : α → Prog σ ε β) : Prog σ ε β where
  run fuel state := (first.run fuel state).andThen fun value => (second value).run fuel
  extend enough state := (first.extend enough state).andThen fun value =>
    (second value).extend enough

instance : Monad (Prog σ ε) where
  pure value := ofRun fun state => ⟨[], state, .returned value⟩
  bind := Prog.bind

/-- The current state. -/
def get : Prog σ ε σ := ofRun fun state => ⟨[], state, .returned state⟩

/-- Replace the state, observing the new one through `note`. -/
def update (note : σ → ε) (change : σ → σ) : Prog σ ε Unit :=
  ofRun fun state => ⟨[note (change state)], change state, .returned ()⟩

/-- Make an observation. -/
def emit (observation : ε) : Prog σ ε Unit :=
  ofRun fun state => ⟨[observation], state, .returned ()⟩

/-- Stop the process. -/
def crash : Prog σ ε α := ofRun fun state => ⟨[], state, .crashed⟩

/-- At most `rounds` rounds of a loop, each with the same fuel. The body answers with the loop
variable of the next round or with the result of the loop. -/
def rounds (body : β → Prog σ ε (β ⊕ α)) (fuel : ℕ) : ℕ → β → σ → Run σ ε α
  | 0, _, state => ⟨[], state, .exhausted⟩
  | count + 1, counter, state =>
    ((body counter).run fuel state).andThen fun answer later =>
      match answer with
      | .inl next => rounds body fuel count next later
      | .inr result => ⟨[], later, .returned result⟩

/-- More rounds of a loop with more fuel extend its run. -/
theorem rounds_extend (body : β → Prog σ ε (β ⊕ α)) {fuel more : ℕ} (enough : fuel ≤ more)
    {count further : ℕ} (longer : count ≤ further) (counter : β) (state : σ) :
    (rounds body fuel count counter state).Extends (rounds body more further counter state) := by
  induction count generalizing further counter state with
  | zero =>
    refine ⟨List.nil_prefix, fun finished => ?_⟩
    simp only [rounds, ne_eq, not_true_eq_false] at finished
  | succ count ih =>
    obtain ⟨further, rfl⟩ : ∃ rest, further = rest + 1 := ⟨further - 1, by omega⟩
    refine ((body counter).extend enough state).andThen fun answer later => ?_
    cases answer with
    | inl next => exact ih (by omega) next later
    | inr result => exact Run.Extends.refl _

/-- A loop; fuel bounds its rounds. -/
def loop (body : β → Prog σ ε (β ⊕ α)) (start : β) : Prog σ ε α where
  run fuel state := rounds body fuel fuel start state
  extend enough state := rounds_extend body enough enough start state

@[simp] theorem run_pure (fuel : ℕ) (state : σ) (value : α) :
    (pure value : Prog σ ε α).run fuel state = ⟨[], state, .returned value⟩ := rfl

@[simp] theorem run_bind (first : Prog σ ε α) (second : α → Prog σ ε β) (fuel : ℕ) (state : σ) :
    (first >>= second).run fuel state =
      (first.run fuel state).andThen fun value => (second value).run fuel := rfl

@[simp] theorem run_get (fuel : ℕ) (state : σ) :
    (get : Prog σ ε σ).run fuel state = ⟨[], state, .returned state⟩ := rfl

@[simp] theorem run_update (note : σ → ε) (change : σ → σ) (fuel : ℕ) (state : σ) :
    (update note change).run fuel state = ⟨[note (change state)], change state, .returned ()⟩ := rfl

@[simp] theorem run_emit (observation : ε) (fuel : ℕ) (state : σ) :
    (emit observation).run fuel state = ⟨[observation], state, .returned ()⟩ := rfl

@[simp] theorem run_crash (fuel : ℕ) (state : σ) :
    (crash : Prog σ ε α).run fuel state = ⟨[], state, .crashed⟩ := rfl

end Prog

end FcTpms.Program
