import Mathlib.Order.Basic

/-!
# Jobs that interact with their environment

A job makes observable steps, one after the other, and ends with a value or with an exit, such as an
exception. What the environment answers may depend on everything that happened before. A condition
on the way a job ended and on its steps that composes along the steps (`Composes`) is proved of a
job part by part.
-/

namespace FcTpms.Machine

variable {η σ ε α β : Type}

/-- A job in an environment, after a history of steps: how it ends, and its own steps. -/
def Job (η σ ε α : Type) : Type := η → List σ → Except ε α × List σ

namespace Job

/-- Do the next job after one that has ended with a value. -/
protected def bind (job : Job η σ ε α) (next : α → Job η σ ε β) : Job η σ ε β :=
  fun environment history =>
    match job environment history with
    | (.ok value, steps) =>
      let (result, more) := next value environment (history ++ steps)
      (result, steps ++ more)
    | (.error exit, steps) => (.error exit, steps)

instance : Monad (Job η σ ε) where
  pure value := fun _ _ => (.ok value, [])
  bind := Job.bind

/-- A job that makes one step. -/
def emit (step : σ) : Job η σ ε Unit := fun _ _ => (.ok (), [step])

/-- A job that ends at once. -/
def exit (how : ε) : Job η σ ε α := fun _ _ => (.error how, [])

/-- What the environment answers after a history. -/
def ask (answer : η → List σ → α) : Job η σ ε α :=
  fun environment history => (.ok (answer environment history), [])

/-- Do another job after one that has ended with an exit. -/
def handle (job : Job η σ ε α) (handler : ε → Job η σ ε α) : Job η σ ε α :=
  fun environment history =>
    match job environment history with
    | (.ok value, steps) => (.ok value, steps)
    | (.error how, steps) =>
      let (result, more) := handler how environment (history ++ steps)
      (result, steps ++ more)

/-- With which exit a job has ended, if any. -/
def ended : Except ε α → Option ε
  | .ok _ => none
  | .error how => .some how

/-- A condition holds of the end and the steps of a job, in every environment. -/
def Ensures (job : Job η σ ε α) (post : Option ε → List σ → Prop) : Prop :=
  ∀ environment history,
    post (ended (job environment history).1) (job environment history).2

/-- A condition that holds of a job if it holds of its parts. -/
structure Composes (post : Option ε → List σ → Prop) : Prop where
  /-- It holds of a job that does nothing. -/
  nil : post none []
  /-- It holds of two jobs after each other. -/
  append : ∀ {first later how}, post none first → post how later → post how (first ++ later)

variable {job : Job η σ ε α} {next : α → Job η σ ε β} {handler : ε → Job η σ ε α}
  {post first : Option ε → List σ → Prop}

/-- Two jobs after each other, of which the first ends with a value. -/
theorem bind_ok {environment : η} {history steps : List σ} {value : α}
    (first : job environment history = (.ok value, steps)) :
    (job >>= next) environment history =
      ((next value environment (history ++ steps)).1,
        steps ++ (next value environment (history ++ steps)).2) := by
  show Job.bind job next environment history = _
  unfold Job.bind
  rw [first]

/-- Two jobs after each other, of which the first ends with an exit. -/
theorem bind_error {environment : η} {history steps : List σ} {how : ε}
    (first : job environment history = (.error how, steps)) :
    (job >>= next) environment history = (.error how, steps) := by
  show Job.bind job next environment history = _
  unfold Job.bind
  rw [first]

/-- A handler that is not needed. -/
theorem handle_ok {environment : η} {history steps : List σ} {value : α}
    (first : job environment history = (.ok value, steps)) :
    job.handle handler environment history = (.ok value, steps) := by
  unfold Job.handle
  rw [first]

/-- A handler that is needed. -/
theorem handle_error {environment : η} {history steps : List σ} {how : ε}
    (first : job environment history = (.error how, steps)) :
    job.handle handler environment history =
      ((handler how environment (history ++ steps)).1,
        steps ++ (handler how environment (history ++ steps)).2) := by
  unfold Job.handle
  rw [first]

theorem ask_eq (answer : η → List σ → α) (environment : η) (history : List σ) :
    (ask answer : Job η σ ε α) environment history = (.ok (answer environment history), []) := rfl

theorem emit_eq (step : σ) (environment : η) (history : List σ) :
    (emit step : Job η σ ε Unit) environment history = (.ok (), [step]) := rfl

theorem Ensures.mono (ensures : job.Ensures first)
    (weaker : ∀ how steps, first how steps → post how steps) : job.Ensures post :=
  fun environment history => weaker _ _ (ensures environment history)

theorem Ensures.pure (composes : Composes post) (value : α) :
    (pure value : Job η σ ε α).Ensures post :=
  fun _ _ => composes.nil

theorem Ensures.ask (composes : Composes post) (answer : η → List σ → α) :
    (ask answer : Job η σ ε α).Ensures post :=
  fun _ _ => composes.nil

theorem Ensures.emit {step : σ} (holds : post none [step]) :
    (emit step : Job η σ ε Unit).Ensures post :=
  fun _ _ => holds

theorem Ensures.exit {how : ε} (holds : post (.some how) []) :
    (exit how : Job η σ ε α).Ensures post :=
  fun _ _ => holds

/-- Two jobs after each other, with a condition on each: either the first one is left before its
end, or the second one follows. -/
theorem Ensures.andThen {second : Option ε → List σ → Prop} (before : job.Ensures first)
    (after : ∀ value, (next value).Ensures second)
    (left : ∀ how steps, first (.some how) steps → post (.some how) steps)
    (both : ∀ how steps more, first none steps → second how more → post how (steps ++ more)) :
    (job >>= next).Ensures post := by
  intro environment history
  have here := before environment history
  show post (ended (Job.bind job next environment history).1)
    (Job.bind job next environment history).2
  unfold Job.bind
  cases result : job environment history with
  | mk value steps =>
    rw [result] at here
    cases value with
    | error how => exact left how steps here
    | ok value => exact both _ _ _ here (after value environment (history ++ steps))

/-- Two jobs after each other. -/
theorem Ensures.seq (composes : Composes post) (before : job.Ensures post)
    (after : ∀ value, (next value).Ensures post) : (job >>= next).Ensures post :=
  before.andThen after (fun _ _ => id) fun _ _ _ => composes.append

/-- A job with a handler for its exits. -/
theorem Ensures.handle (before : job.Ensures first)
    (normal : ∀ steps, first none steps → post none steps)
    (caught : ∀ how steps, first (.some how) steps →
      (handler how).Ensures fun how more => post how (steps ++ more)) :
    (job.handle handler).Ensures post := by
  intro environment history
  have here := before environment history
  unfold Job.handle
  cases result : job environment history with
  | mk value steps =>
    rw [result] at here
    cases value with
    | ok value => exact normal steps here
    | error how => exact caught how steps here environment (history ++ steps)

end Job

end FcTpms.Machine
