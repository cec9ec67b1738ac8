import FcTpms.Job.LogActivity
import Mathlib.Tactic.ByContra

/-!
# The protocol of starting and stopping

As long as it goes well there is at most one job, in one of a few stages, and all that is queued, on
its way or shown belongs to it. Four steps end this at once: a third press of the button, a
`COMPLETEOK` that arrives while an abort is requested, the click on a dialog of `finishWithError`,
and the creation of a new activity after it.
-/

namespace FcTpms.StartStop

open Machine

/-- A job was started, and no terminal broadcast of it was handled. -/
def Outstanding (state : State) (job : ℕ) : Prop := job < state.started ∧ job ∉ state.handled

instance (state : State) (job : ℕ) : Decidable (Outstanding state job) :=
  inferInstanceAs (Decidable (job < state.started ∧ job ∉ state.handled))

/-- What should hold in every state. -/
structure Protocol (state : State) : Prop where
  /-- The activity is running when a job is outstanding, and only then. -/
  running : state.running = true ↔ ∃ job, Outstanding state job
  /-- An abort is requested only then. -/
  aborting : state.abortRequested = true → state.running = true
  /-- At most one job is outstanding. -/
  single : ∀ job other, Outstanding state job → Outstanding state other → job = other
  /-- Requests were seen only by the jobs that they were meant for. -/
  acted : ∀ act ∈ state.acts, act.job = act.pressedFor

/-- The condition on a step. -/
def Harmless (state : State) : Event → Prop
  | .press => state.running = true → state.abortRequested = false
  | .deliver => ∀ broadcast ∈ state.broadcasts.head?, broadcast.terminal = .completeOk →
      state.abortRequested = false
  | .dismiss index => ∀ dialog ∈ state.dialogs[index]?, dialog.ofBroadcast = true
  | .create => False
  | _ => True

/-! ## The stages of a job -/

/-- Where a job is. -/
inductive Stage where
  /-- It waits for the service. -/
  | waiting
  /-- The service executes it. -/
  | working
  /-- Its last broadcast is on its way. -/
  | ended (terminal : Terminal)
  /-- It has ended without a broadcast or a dialog. -/
  | lost
  /-- Its error is shown by `finishWithError`. -/
  | finishing
  /-- Its broadcast of an error is shown. -/
  | failed

namespace Stage

/-- The jobs that wait for the service. -/
def queued (job : ℕ) : Stage → List ℕ
  | waiting => [job]
  | _ => []

/-- The job that the service executes. -/
def current (job : ℕ) : Stage → Option ℕ
  | working => .some job
  | _ => none

/-- The last broadcast on its way. -/
def broadcasts (job : ℕ) : Stage → List Broadcast
  | ended terminal => [⟨terminal, job⟩]
  | _ => []

/-- The dialogs that are shown. -/
def dialogs (job : ℕ) : Stage → List Dialog
  | finishing => [⟨job, false⟩]
  | failed => [⟨job, true⟩]
  | _ => []

/-- Only in one stage is a job executed. -/
theorem of_current {job executed : ℕ} {stage : Stage} (found : stage.current job = .some executed) :
    stage = .working ∧ executed = job := by
  cases stage with
  | working => exact ⟨rfl, (Option.some.inj found).symm⟩
  | waiting => cases found
  | ended terminal => cases found
  | lost => cases found
  | finishing => cases found
  | failed => cases found

/-- Only in one stage does a job wait. -/
theorem of_queued {job first : ℕ} {rest : List ℕ} {stage : Stage}
    (found : stage.queued job = first :: rest) : stage = .waiting ∧ first = job ∧ rest = [] := by
  cases stage with
  | waiting =>
    cases found
    exact ⟨rfl, rfl, rfl⟩
  | working => cases found
  | ended terminal => cases found
  | lost => cases found
  | finishing => cases found
  | failed => cases found

end Stage

/-- What is known of the history: handled jobs were started, and requests were seen by the jobs they
were meant for. -/
structure History (state : State) : Prop where
  /-- Handled jobs were started. -/
  handled : ∀ job ∈ state.handled, job < state.started
  /-- Requests were seen only by the jobs that they were meant for. -/
  acted : ∀ act ∈ state.acts, act.job = act.pressedFor

/-- Nothing goes on. -/
structure Idle (state : State) : Prop extends History state where
  /-- The flags are clear. -/
  running : state.running = false
  /-- The flags are clear. -/
  abortRequested : state.abortRequested = false
  /-- No job is outstanding. -/
  none : ∀ job, ¬Outstanding state job
  /-- No job waits. -/
  queued : state.queued = []
  /-- No job is executed. -/
  current : state.current = .none
  /-- No broadcast is on its way. -/
  broadcasts : state.broadcasts = []
  /-- No dialog is shown. -/
  dialogs : state.dialogs = []
  /-- The activity was not finished. -/
  finishing : state.finishing = false
  /-- No job was begun under an activity that is gone. -/
  attached : state.abandoned = .none

/-- One job is outstanding. It has broadcast `COMPLETEOK` for so many requests that it has seen. -/
structure Busy (state : State) (job : ℕ) (stage : Stage) (sent : ℕ) : Prop extends
    History state where
  /-- The flag is set. -/
  running : state.running = true
  /-- It is the last job that was started. -/
  last : state.started = job + 1
  /-- No other one is outstanding. -/
  only : ∀ other, Outstanding state other ↔ other = job
  /-- It waits if this is its stage. -/
  queued : state.queued = stage.queued job
  /-- It is executed if this is its stage. -/
  current : state.current = stage.current job
  /-- The broadcasts on their way are its own. -/
  broadcasts : state.broadcasts = List.replicate sent ⟨.completeOk, job⟩ ++ stage.broadcasts job
  /-- The dialogs that are shown are its own. -/
  dialogs : state.dialogs = stage.dialogs job
  /-- A request to abort is meant for it. -/
  pressedFor : state.abortRequested = true → state.pressedFor = job
  /-- It sees requests only when there is one. -/
  requested : 0 < sent → state.abortRequested = true
  /-- A broadcast of an error is the last one. -/
  alone : stage = .failed → sent = 0
  /-- The activity was finished only if this is its stage. -/
  finishing : state.finishing = true → stage = .finishing
  /-- No job was begun under an activity that is gone. -/
  attached : state.abandoned = .none

/-- What harmless steps keep. -/
inductive Kept (state : State) : Prop where
  /-- Nothing goes on. -/
  | idle (idle : Idle state)
  /-- One job is outstanding. -/
  | busy (job : ℕ) (stage : Stage) (sent : ℕ) (busy : Busy state job stage sent)

theorem kept_initial : Kept .initial := by
  apply Kept.idle
  constructor
  · constructor
    · exact fun _ member => (nomatch member)
    · exact fun _ member => (nomatch member)
  · rfl
  · rfl
  · exact fun job outstanding => absurd outstanding.1 (Nat.not_lt_zero job)
  · rfl
  · rfl
  · rfl
  · rfl
  · rfl
  · rfl

theorem Idle.protocol {state : State} (idle : Idle state) : Protocol state := by
  constructor
  · rw [idle.running]
    constructor
    · exact fun set => (nomatch set)
    · exact fun ⟨job, outstanding⟩ => absurd outstanding (idle.none job)
  · rw [idle.abortRequested]
    exact fun set => (nomatch set)
  · exact fun job _ outstanding _ => absurd outstanding (idle.none job)
  · exact idle.acted

theorem Busy.protocol {state : State} {job sent : ℕ} {stage : Stage}
    (busy : Busy state job stage sent) : Protocol state := by
  constructor
  · exact ⟨fun _ => ⟨job, (busy.only job).mpr rfl⟩, fun _ => busy.running⟩
  · exact fun _ => busy.running
  · intro one other first second
    rw [(busy.only one).mp first, (busy.only other).mp second]
  · exact busy.acted

theorem Kept.protocol {state : State} (kept : Kept state) : Protocol state := by
  cases kept with
  | idle idle => exact idle.protocol
  | busy job stage sent busy => exact busy.protocol

/-! ## The steps -/

section Steps

variable {state next : State} {job sent : ℕ} {stage : Stage}

/-- A press that starts a job. -/
theorem Idle.press (idle : Idle state) :
    Busy state.onOptionsItemSelected state.started .waiting 0 := by
  have started : state.onOptionsItemSelected = { state with
      running := true
      abortRequested := false
      queued := state.queued ++ [state.started]
      started := state.started + 1 } := if_pos idle.running
  rw [started]
  constructor
  · constructor
    · exact fun job member => Nat.lt_succ_of_lt (idle.handled job member)
    · exact idle.acted
  · rfl
  · rfl
  · intro other
    have before := idle.none other
    unfold Outstanding at before ⊢
    constructor
    · rintro ⟨bound, unhandled⟩
      have bound : other < state.started + 1 := bound
      by_contra different
      exact before ⟨by omega, unhandled⟩
    · intro same
      rw [same]
      refine ⟨Nat.lt_succ_self _, fun member => ?_⟩
      exact absurd (idle.handled _ member) (Nat.lt_irrefl _)
  · rw [idle.queued]
    rfl
  · exact idle.current
  · exact idle.broadcasts
  · exact idle.dialogs
  · exact fun set => (nomatch set)
  · exact fun positive => absurd positive (Nat.lt_irrefl 0)
  · exact fun _ => rfl
  · intro finishing
    have going : state.finishing = false := idle.finishing
    cases going.symm.trans finishing
  · exact idle.attached

/-- A press that requests an abort. -/
theorem Busy.press (busy : Busy state job stage sent) (first : state.abortRequested = false) :
    Busy state.onOptionsItemSelected job stage sent := by
  have aborting : state.onOptionsItemSelected = { state with
      abortRequested := true, pressedFor := state.started - 1 } := by
    unfold State.onOptionsItemSelected
    rw [if_neg (by rw [busy.running]; exact Bool.noConfusion), if_pos first]
  rw [aborting]
  constructor
  · exact ⟨busy.handled, busy.acted⟩
  · exact busy.running
  · exact busy.last
  · exact busy.only
  · exact busy.queued
  · exact busy.current
  · exact busy.broadcasts
  · exact busy.dialogs
  · intro _
    show state.started - 1 = job
    rw [busy.last, Nat.add_sub_cancel]
  · exact fun _ => rfl
  · exact busy.alone
  · exact busy.finishing
  · exact busy.attached

/-- A change that only moves the job to another stage. -/
theorem Busy.move (busy : Busy state job stage sent) (later : Stage)
    (queue : List ℕ) (current : Option ℕ) (broadcasts : List Broadcast) (dialogs : List Dialog)
    (finishing : Bool) (queued : queue = later.queued job) (executed : current = later.current job)
    (onTheirWay : broadcasts =
      List.replicate sent ⟨.completeOk, job⟩ ++ later.broadcasts job)
    (shown : dialogs = later.dialogs job) (alone : later = .failed → sent = 0)
    (closing : finishing = true → later = .finishing) :
    Busy { state with queued := queue, current, broadcasts, dialogs, finishing } job later
      sent := by
  constructor
  · exact ⟨busy.handled, busy.acted⟩
  · exact busy.running
  · exact busy.last
  · exact busy.only
  · exact queued
  · exact executed
  · exact onTheirWay
  · exact shown
  · exact busy.pressedFor
  · exact busy.requested
  · exact alone
  · exact closing
  · exact busy.attached

/-- In any other stage the activity was not finished. -/
theorem Busy.unfinished (busy : Busy state job stage sent) (other : stage ≠ .finishing) :
    state.finishing = false := by
  by_contra set
  exact other (busy.finishing (eq_true_of_ne_false set))

/-- A test of `abort_requested`. -/
theorem Busy.check (busy : Busy state job .working sent) (broadcasts : Bool) :
    ∃ sent, Busy (state.checkAbort job broadcasts) job .working sent := by
  have attached : state.abortOfJob = (state.abortRequested, state.pressedFor) := by
    rw [State.abortOfJob, busy.attached]
    rfl
  unfold State.checkAbort
  rw [attached]
  by_cases request : state.abortRequested = true
  · rw [if_pos request]
    have acted : ∀ act ∈ state.acts ++ [⟨job, state.pressedFor⟩], act.job = act.pressedFor := by
      intro act member
      rcases List.mem_append.mp member with before | now
      · exact busy.acted act before
      · rw [List.mem_singleton.mp now]
        exact (busy.pressedFor request).symm
    cases broadcasts with
    | true =>
      refine ⟨sent + 1, ⟨busy.handled, acted⟩, busy.running, busy.last, busy.only, busy.queued,
        busy.current, ?_, busy.dialogs, busy.pressedFor, fun _ => request,
        fun same => (nomatch same),
        busy.finishing, busy.attached⟩
      show state.broadcasts ++ [⟨.completeOk, job⟩] = _
      have none : Stage.working.broadcasts job = [] := rfl
      rw [busy.broadcasts, List.replicate_succ', none, List.append_nil, List.append_nil]
    | false =>
      exact ⟨sent, ⟨busy.handled, acted⟩, busy.running, busy.last, busy.only, busy.queued,
        busy.current, busy.broadcasts, busy.dialogs, busy.pressedFor, busy.requested,
        fun same => (nomatch same), busy.finishing, busy.attached⟩
  · rw [if_neg request]
    exact ⟨sent, busy⟩

/-- The end of a job. -/
theorem Busy.finish (busy : Busy state job .working sent) (ending : Ending) :
    ∃ stage, Busy (state.endJob job ending) job stage sent := by
  have unfinished : state.finishing = true → False := by
    rw [busy.unfinished nofun]
    exact Bool.noConfusion
  cases ending with
  | broadcast terminal =>
    refine ⟨.ended terminal, busy.move (.ended terminal) state.queued none
      (state.broadcasts ++ [Broadcast.mk terminal job]) state.dialogs state.finishing busy.queued
      rfl
      ?_ busy.dialogs (fun same => (nomatch same)) fun set => absurd set unfinished⟩
    rw [busy.broadcasts]
    exact congrArg (· ++ _) (List.append_nil _)
  | finishWithError =>
    have ended : state.endJob job .finishWithError = { state with
        current := none
        dialogs := state.dialogs ++ [⟨job, false⟩]
        finishing := true } := by
      rw [State.endJob, busy.attached]
      rfl
    rw [ended]
    refine ⟨.finishing, busy.move .finishing state.queued none state.broadcasts
      (state.dialogs ++ [Dialog.mk job false]) true busy.queued rfl busy.broadcasts ?_
      (fun same => (nomatch same)) fun _ => rfl⟩
    rw [busy.dialogs]
    rfl
  | uncaught =>
    exact ⟨.lost, busy.move .lost state.queued none state.broadcasts state.dialogs state.finishing
      busy.queued rfl busy.broadcasts busy.dialogs (fun same => (nomatch same))
      fun set => absurd set unfinished⟩

/-- A terminal broadcast is handled. -/
theorem Busy.handle (busy : Busy state job stage 0) (abort : Bool) (clear : abort = false)
    (queued : state.queued = []) (current : state.current = none)
    (other : stage ≠ .finishing) :
    Idle { state with
      running := false
      abortRequested := abort
      broadcasts := []
      dialogs := []
      handled := state.handled ++ [job] } := by
  constructor
  · constructor
    · intro other member
      rcases List.mem_append.mp member with before | now
      · exact busy.handled other before
      · rw [List.mem_singleton.mp now]
        show job < state.started
        rw [busy.last]
        exact Nat.lt_succ_self job
    · exact busy.acted
  · rfl
  · exact clear
  · rintro other ⟨bound, unhandled⟩
    have before : Outstanding state other :=
      ⟨bound, fun member => unhandled (List.mem_append_left _ member)⟩
    have same := (busy.only other).mp before
    exact unhandled (List.mem_append_right _ (List.mem_singleton.mpr same))
  · exact queued
  · exact current
  · rfl
  · rfl
  · exact busy.unfinished other
  · exact busy.attached

/-- A broadcast reaches the activity. -/
theorem Busy.deliver (busy : Busy state job stage sent)
    (harmless : Harmless state .deliver) (stepped : step state .deliver = .some next) :
    Kept next := by
  unfold step at stepped
  unfold Harmless at harmless
  rw [busy.broadcasts] at stepped harmless
  cases sent with
  | succ sent =>
    -- a `COMPLETEOK` for a request that is still set
    have clear := harmless _ rfl rfl
    rw [busy.requested (Nat.succ_pos sent)] at clear
    cases clear
  | zero =>
    cases stage with
    | ended terminal =>
      cases terminal with
      | completeOk =>
        have clear := harmless _ rfl rfl
        cases stepped
        have idle := busy.handle state.abortRequested clear busy.queued busy.current nofun
        rw [← show state.dialogs = [] from busy.dialogs] at idle
        exact .idle idle
      | failure =>
        cases stepped
        apply Kept.busy job .failed 0
        apply busy.move .failed state.queued state.current []
          (state.dialogs ++ [Dialog.mk job true])
          state.finishing busy.queued busy.current rfl
        · rw [busy.dialogs]
          rfl
        · exact fun _ => rfl
        · intro set
          cases (busy.unfinished nofun).symm.trans set
    | waiting => cases stepped
    | working => cases stepped
    | lost => cases stepped
    | finishing => cases stepped
    | failed => cases stepped

/-- The button of a dialog is clicked. -/
theorem Busy.dismiss (busy : Busy state job stage sent) {index : ℕ}
    (harmless : Harmless state (.dismiss index))
    (stepped : step state (.dismiss index) = .some next) : Kept next := by
  obtain ⟨dialog, found, rfl⟩ := Option.map_eq_some_iff.mp stepped
  have broadcast := harmless dialog found
  have member := List.mem_of_getElem? found
  have shown := busy.dialogs
  rw [shown] at member
  cases stage with
  | waiting => cases member
  | working => cases member
  | ended terminal => cases member
  | lost => cases member
  | finishing =>
    -- the dialog of `finishWithError`
    rw [List.mem_singleton.mp member] at broadcast
    cases broadcast
  | failed =>
    have alone := busy.alone rfl
    rw [alone] at busy
    have only := List.mem_singleton.mp member
    have first : index = 0 := by
      have bound := (List.getElem?_eq_some_iff.mp found).1
      rw [shown] at bound
      exact Nat.lt_one_iff.mp bound
    have idle := busy.handle false rfl busy.queued busy.current nofun
    have closed : state.dialogs.eraseIdx index = [] := by
      rw [shown, first]
      rfl
    have empty : state.broadcasts = [] := busy.broadcasts
    have result : { state with dialogs := state.dialogs.eraseIdx index }.onClick dialog =
        { state with
          running := false
          abortRequested := false
          broadcasts := []
          dialogs := []
          handled := state.handled ++ [job] } := by
      unfold State.onClick
      rw [closed, only, empty]
      rfl
    rw [result]
    exact .idle idle

/-- Harmless steps. -/
theorem Kept.step (kept : Kept state) {event : Event} (harmless : Harmless state event)
    (stepped : step state event = .some next) : Kept next := by
  cases kept with
  | idle idle =>
    cases event with
    | press =>
      cases stepped
      exact .busy _ _ _ idle.press
    | take =>
      unfold StartStop.step at stepped
      rw [idle.current, idle.queued] at stepped
      cases stepped
    | check broadcasts =>
      unfold StartStop.step at stepped
      rw [idle.current] at stepped
      cases stepped
    | finish ending =>
      unfold StartStop.step at stepped
      rw [idle.current] at stepped
      cases stepped
    | deliver =>
      unfold StartStop.step at stepped
      rw [idle.broadcasts] at stepped
      cases stepped
    | dismiss index =>
      unfold StartStop.step at stepped
      rw [idle.dialogs] at stepped
      cases stepped
    | create => exact absurd harmless id
  | busy job stage sent busy =>
    cases event with
    | press =>
      cases stepped
      exact .busy _ _ _ (busy.press (harmless busy.running))
    | take =>
      unfold StartStop.step at stepped
      dsimp only at stepped
      split at stepped
      · next first rest _ queued =>
        rw [busy.queued] at queued
        obtain ⟨rfl, rfl, rfl⟩ := Stage.of_queued queued
        cases stepped
        rw [← busy.attached]
        exact .busy first .working sent (busy.move .working [] _ _ _ _ rfl rfl busy.broadcasts
          busy.dialogs (fun same => (nomatch same)) fun set =>
            absurd (busy.finishing set) Stage.noConfusion)
      · cases stepped
    | check broadcasts =>
      obtain ⟨executed, current, rfl⟩ := Option.map_eq_some_iff.mp stepped
      rw [busy.current] at current
      obtain ⟨rfl, rfl⟩ := Stage.of_current current
      obtain ⟨later, checked⟩ := busy.check broadcasts
      exact .busy _ _ _ checked
    | finish ending =>
      obtain ⟨executed, current, rfl⟩ := Option.map_eq_some_iff.mp stepped
      rw [busy.current] at current
      obtain ⟨rfl, rfl⟩ := Stage.of_current current
      obtain ⟨later, finished⟩ := busy.finish ending
      exact .busy _ _ _ finished
    | deliver => exact busy.deliver harmless stepped
    | dismiss index => exact busy.dismiss harmless stepped
    | create => exact absurd harmless id

/-- Any other step breaks the protocol at once. -/
theorem Kept.breaks (kept : Kept state) {event : Event} (harmful : ¬Harmless state event)
    (stepped : StartStop.step state event = .some next) : ¬Protocol next := by
  cases event with
  | take => exact absurd trivial harmful
  | check broadcasts => exact absurd trivial harmful
  | finish ending => exact absurd trivial harmful
  | press =>
    -- both flags are cleared while the job goes on
    unfold Harmless at harmful
    push Not at harmful
    obtain ⟨running, aborting⟩ := harmful
    have aborting : state.abortRequested ≠ false := aborting
    cases stepped
    unfold State.onOptionsItemSelected
    rw [if_neg (by rw [running]; exact Bool.noConfusion), if_neg aborting]
    intro protocol
    have outstanding := kept.protocol.running.mp running
    have set := protocol.running.mpr outstanding
    cases set
  | deliver =>
    -- only one of the flags is cleared
    unfold Harmless at harmful
    push Not at harmful
    obtain ⟨broadcast, first, completeOk, aborting⟩ := harmful
    obtain ⟨rest, onTheirWay⟩ := List.head?_eq_some_iff.mp first
    unfold StartStop.step at stepped
    rw [onTheirWay] at stepped
    cases stepped
    unfold State.onReceive
    rw [completeOk]
    intro protocol
    have set := protocol.aborting (eq_true_of_ne_false aborting)
    cases set
  | dismiss index =>
    -- the flags are cleared for a job without a terminal broadcast
    unfold Harmless at harmful
    push Not at harmful
    obtain ⟨dialog, found, notOfBroadcast⟩ := harmful
    obtain ⟨same, shown, rfl⟩ := Option.map_eq_some_iff.mp stepped
    rw [show state.dialogs[index]? = .some dialog from found] at shown
    obtain rfl := Option.some.inj shown
    cases kept with
    | idle idle =>
      have member := List.mem_of_getElem? found
      rw [idle.dialogs] at member
      cases member
    | busy job stage sent busy =>
      intro protocol
      unfold State.onClick at protocol
      rw [if_neg notOfBroadcast] at protocol
      have set := protocol.running.mpr ⟨job, (busy.only job).mpr rfl⟩
      cases set
  | create =>
    -- the flags of the new activity are clear, and the job that has ended is outstanding
    have created : (if state.finishing then some state.onCreate else none) = some next := stepped
    cases kept with
    | idle idle =>
      rw [idle.finishing] at created
      cases created
    | busy job stage sent busy =>
      split at created
      · intro protocol
        rw [← Option.some.inj created] at protocol
        have set := protocol.running.mpr ⟨job, (busy.only job).mpr rfl⟩
        cases set
      · cases created

end Steps

/-- A run follows the protocol in all its states if and only if all its steps are harmless. -/
theorem protocol_iff (events : List Event) {state : State}
    (reached : run step .initial events = .some state) :
    Along step Protocol .initial events ↔ Meets step Harmless .initial events :=
  along_iff_meets (fun _ kept => Kept.protocol kept)
    (fun _ _ _ kept harmless stepped => Kept.step kept harmless stepped)
    (fun _ _ _ kept harmful stepped => Kept.breaks kept harmful stepped) kept_initial reached

/-- A job that is started, executed and completed. -/
def completed : List Event :=
  [.press, .take, .check true, .finish (.broadcast .completeOk), .deliver]

/-- It follows the protocol. -/
theorem completed_protocol : Along step Protocol .initial completed := by
  apply (protocol_iff completed rfl).mpr
  unfold completed
  apply Meets.cons
  · exact fun running => (nomatch running)
  · rfl
  apply Meets.cons trivial rfl
  apply Meets.cons trivial rfl
  apply Meets.cons trivial rfl
  apply Meets.cons
  · exact fun _ _ _ => rfl
  · rfl
  trivial

/-- A job that is started, asked to stop and given up by a third press, and another one that is
started and asked to stop. The first one sees the request. -/
def givenUp : List Event := [.press, .take, .press, .press, .press, .press, .check true]

/-- A request is acted on by a job for which it was not meant, and two jobs are outstanding. -/
theorem givenUp_acts : ∃ state, run step .initial givenUp = .some state ∧
    state.acts = [⟨0, 1⟩] ∧ Outstanding state 0 ∧ Outstanding state 1 ∧ ¬Protocol state := by
  refine ⟨_, rfl, rfl, by decide, by decide, fun protocol => ?_⟩
  have meant := protocol.acted ⟨0, 1⟩ List.mem_cons_self
  cases meant

end FcTpms.StartStop
