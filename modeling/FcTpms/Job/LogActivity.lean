import FcTpms.Machine.Runs

/-!
# Starting and stopping jobs

`LogActivity` starts a job of `SdrFtpService` or asks it to stop when its button is pressed. The
service takes one job after the other. A job tests `abort_requested` and ends; its broadcasts reach
the activity in order. Which job a broadcast, a dialog or a request to stop belongs to is not
known to the code. After `finishWithError` the activity is destroyed, and a new one may be created;
that the user leaves or turns it is left out.
-/

namespace FcTpms.StartStop

/-- The broadcasts that the activity does not only display. -/
inductive Terminal where
  /-- `EXTENDED_DATA_COMPLETEOK`. -/
  | completeOk
  /-- `EXTENDED_DATA_FAILURE`. -/
  | failure
  deriving DecidableEq

/-- A broadcast on its way. -/
structure Broadcast where
  /-- What is sent. -/
  terminal : Terminal
  /-- The job that sent it. -/
  job : ℕ
  deriving DecidableEq

/-- An error dialog of `errorModalBox`. -/
structure Dialog where
  /-- The job that it is about. -/
  job : ℕ
  /-- It shows a broadcast, and does not come of `finishWithError`. -/
  ofBroadcast : Bool
  deriving DecidableEq

/-- A test of `abort_requested` that has seen a request. -/
structure Act where
  /-- The job that made the test. -/
  job : ℕ
  /-- The job for which the button was pressed. -/
  pressedFor : ℕ
  deriving DecidableEq

/-- How a job ends. -/
inductive Ending where
  /-- With a last broadcast. -/
  | broadcast (terminal : Terminal)
  /-- With `activity.finishWithError`, which shows a dialog and finishes the activity. -/
  | finishWithError
  /-- With an exception that nothing catches. -/
  | uncaught
  deriving DecidableEq

/-- The activity, the service, and what is on its way between them. -/
structure State where
  /-- `running`. -/
  running : Bool
  /-- `abort_requested`. -/
  abortRequested : Bool
  /-- The number of jobs that were started. -/
  started : ℕ
  /-- The jobs that wait for the service. -/
  queued : List ℕ
  /-- The job that the service executes. -/
  current : Option ℕ
  /-- The broadcasts on their way. -/
  broadcasts : List Broadcast
  /-- The dialogs that are shown. -/
  dialogs : List Dialog
  /-- `finish` of the activity was called. Until it is destroyed it may still take clicks. -/
  finishing : Bool
  /-- `abort_requested` of the activity that the current job was begun under, if that activity has
  been destroyed, and the job for which it was requested. -/
  abandoned : Option (Bool × ℕ)
  /-- The job for which an abort was last requested. -/
  pressedFor : ℕ
  /-- The jobs whose terminal broadcasts were handled. -/
  handled : List ℕ
  /-- The tests that have seen a request. -/
  acts : List Act
  deriving DecidableEq

/-- The activity was created. -/
def State.initial : State := ⟨false, false, 0, [], none, [], [], false, none, 0, [], []⟩

/-- What can happen next. -/
inductive Event where
  /-- The button is pressed. -/
  | press
  /-- The service takes the next job. -/
  | take
  /-- The job tests `abort_requested`. If it sees a request, it broadcasts unless `ftpClient.logout`
  or `disconnect` throws before. -/
  | check (broadcasts : Bool)
  /-- The job ends. -/
  | finish (ending : Ending)
  /-- The next broadcast reaches the activity. -/
  | deliver
  /-- The button of a dialog is clicked. -/
  | dismiss (index : ℕ)
  /-- The activity that was finished is destroyed, and another one is created. -/
  | create
  deriving DecidableEq

namespace State

/-- `onOptionsItemSelected`, for `action_startstop`. -/
def onOptionsItemSelected (state : State) : State :=
  if state.running = false then
    { state with
      running := true
      abortRequested := false
      queued := state.queued ++ [state.started]
      started := state.started + 1 }
  else if state.abortRequested = false then
    { state with abortRequested := true, pressedFor := state.started - 1 }
  else { state with running := false, abortRequested := false }

/-- A broadcast of a job. -/
def feedback (state : State) (terminal : Terminal) (job : ℕ) : State :=
  { state with broadcasts := state.broadcasts ++ [⟨terminal, job⟩] }

/-- `errorModalBox` of the activity. -/
def errorModalBox (state : State) (dialog : Dialog) : State :=
  { state with dialogs := state.dialogs ++ [dialog] }

/-- `abort_requested` of the activity that the current job was begun under, and the job for which it
was last requested. -/
def abortOfJob (state : State) : Bool × ℕ :=
  state.abandoned.getD (state.abortRequested, state.pressedFor)

/-- A test of `abort_requested` by a job. -/
def checkAbort (state : State) (job : ℕ) (broadcasts : Bool) : State :=
  if state.abortOfJob.1 then
    let seen := { state with acts := state.acts ++ [⟨job, state.abortOfJob.2⟩] }
    if broadcasts then seen.feedback .completeOk job else seen
  else state

/-- The end of a job. `finishWithError` of a destroyed activity finishes the present one, but its
dialog writes only fields of its own. -/
def endJob (state : State) (job : ℕ) : Ending → State
  | .broadcast terminal => { state with current := none }.feedback terminal job
  | .finishWithError =>
    let ended := { state with current := none, finishing := true }
    if state.abandoned.isNone then ended.errorModalBox ⟨job, false⟩ else ended
  | .uncaught => { state with current := none }

/-- `onReceive`. -/
def onReceive (state : State) (broadcast : Broadcast) : State :=
  match broadcast.terminal with
  | .completeOk => { state with running := false, handled := state.handled ++ [broadcast.job] }
  | .failure => state.errorModalBox ⟨broadcast.job, true⟩

/-- `onClick` of a dialog. The broadcast that it shows is handled. -/
def onClick (state : State) (dialog : Dialog) : State :=
  { state with
    running := false
    abortRequested := false
    handled := if dialog.ofBroadcast then state.handled ++ [dialog.job] else state.handled }

/-- `onCreate` of the next activity. The dialogs of the one before it are gone, and a job that is
executed keeps that one. -/
def onCreate (state : State) : State :=
  { state with
    running := false
    abortRequested := false
    dialogs := []
    finishing := false
    abandoned := state.current.map fun _ => state.abortOfJob }

end State

/-- What an event does, if it can happen. -/
def step (state : State) : Event → Option State
  | .press => .some state.onOptionsItemSelected
  | .take =>
    match state.current, state.queued with
    | none, job :: rest =>
      .some { state with current := .some job, abandoned := none, queued := rest }
    | _, _ => none
  | .check broadcasts => state.current.map fun job => state.checkAbort job broadcasts
  | .finish ending => state.current.map fun job => state.endJob job ending
  | .deliver =>
    match state.broadcasts with
    | [] => none
    | broadcast :: rest => .some ({ state with broadcasts := rest }.onReceive broadcast)
  | .dismiss index =>
    state.dialogs[index]?.map fun dialog =>
      { state with dialogs := state.dialogs.eraseIdx index }.onClick dialog
  | .create => if state.finishing then .some state.onCreate else none

end FcTpms.StartStop
