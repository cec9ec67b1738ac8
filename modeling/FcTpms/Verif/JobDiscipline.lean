import FcTpms.Verif.JobBroadcasts
import Mathlib.Data.List.TakeWhile

/-!
# Broadcasts and aborts of a job

What a job sends it sends in two places: it uploads the recording, and it posts the sample behind
all its tests. So its steps are those before the upload, the upload, steps up to the post, and the
post. Where an exception ends a job that one test has told to stop, it depends on the place whether
anything was sent in between.
-/

namespace FcTpms.Job

open Machine

/-! ## Places -/

/-- The upload of the recording. -/
def Step.isUpload : Step → Bool
  | .call .storeUniqueFile _ => true
  | _ => false

/-- Neither a sending step nor a test that sees the request. -/
def Step.isStill (step : Step) : Bool := !step.isSending && !step.isSighting

/-- A part that sends nothing, and is left where it throws what is not answered. -/
structure Quiet (how : Option Exit) (steps : List Step) : Prop where
  silent : ∀ step ∈ steps, step.isSending = false
  answered : how = none → unanswered steps = 0

/-- The tries of the upload. -/
structure Stores (how : Option Exit) (steps : List Step) : Prop where
  uploads : ∀ step ∈ steps, step.isUpload = true
  answered : how = none → unanswered steps = 0

/-- What follows steps of which one throws what is not answered: it neither sends nor tests. -/
def Stops (steps later : List Step) : Prop :=
  0 < unanswered steps → ∀ step ∈ later, step.isStill = true

/-- Steps before the upload, the upload, steps behind it, and the post with what follows. -/
structure Phases (how : Option Exit) (early uploads middle posts : List Step) : Prop where
  silentEarly : ∀ step ∈ early, step.isSending = false
  storing : ∀ step ∈ uploads, step.isUpload = true
  silentMiddle : ∀ step ∈ middle, step.isSending = false
  untested : ∀ step ∈ posts, step.isSighting = false
  sending : ∀ step ∈ posts, step.isUnanswered = true → step.isSending = true
  stopsEarly : Stops early (uploads ++ (middle ++ posts))
  stopsUploads : Stops uploads (middle ++ posts)
  stopsMiddle : Stops middle posts
  answered : how = none → unanswered (early ++ (uploads ++ (middle ++ posts))) = 0

/-- Steps that can be parted so. -/
def InPhases (how : Option Exit) (steps : List Step) : Prop :=
  ∃ early uploads middle posts, steps = early ++ (uploads ++ (middle ++ posts)) ∧
    Phases how early uploads middle posts

/-- The same without a post, -/
def Uploads (how : Option Exit) (steps : List Step) : Prop :=
  ∃ early uploads middle, steps = early ++ (uploads ++ middle) ∧ Phases how early uploads middle []

/-- and without an upload. -/
def Posts (how : Option Exit) (steps : List Step) : Prop :=
  ∃ middle posts, steps = middle ++ posts ∧ Phases how [] [] middle posts

theorem quiet_composes : Job.Composes Quiet := by
  constructor
  · exact ⟨List.forall_mem_nil _, fun _ => rfl⟩
  · intro first later how before after
    constructor
    · exact List.forall_mem_append.mpr ⟨before.silent, after.silent⟩
    · intro passed
      rw [unanswered_append, before.answered rfl, after.answered passed]

theorem stops_nil (later : List Step) : Stops [] later := fun some => absurd some (by decide)

theorem stops_end (steps : List Step) : Stops steps [] := fun _ => List.forall_mem_nil _

theorem stops_of_answered {steps later : List Step} (answered : unanswered steps = 0) :
    Stops steps later := by
  intro some
  omega

theorem Stops.prepend {first steps later : List Step} (answered : unanswered first = 0)
    (stops : Stops steps later) : Stops (first ++ steps) later := by
  intro some
  rw [unanswered_append] at some
  exact stops (by omega)

/-- A quiet part comes before the upload, -/
theorem Quiet.early {how : Option Exit} {steps : List Step} (quiet : Quiet how steps) :
    Phases how steps [] [] [] where
  silentEarly := quiet.silent
  storing := List.forall_mem_nil _
  silentMiddle := List.forall_mem_nil _
  untested := List.forall_mem_nil _
  sending := List.forall_mem_nil _
  stopsEarly := stops_end _
  stopsUploads := stops_end _
  stopsMiddle := stops_end _
  answered := fun passed => by rw [unanswered_append, quiet.answered passed]; rfl

/-- or behind it. -/
theorem Quiet.middle {how : Option Exit} {steps : List Step} (quiet : Quiet how steps) :
    Phases how [] [] steps [] where
  silentEarly := List.forall_mem_nil _
  storing := List.forall_mem_nil _
  silentMiddle := quiet.silent
  untested := List.forall_mem_nil _
  sending := List.forall_mem_nil _
  stopsEarly := stops_nil _
  stopsUploads := stops_nil _
  stopsMiddle := stops_end _
  answered := fun passed => by
    rw [List.nil_append, List.nil_append, List.append_nil, quiet.answered passed]

theorem Stores.phases {how : Option Exit} {steps : List Step} (stores : Stores how steps) :
    Phases how [] steps [] [] where
  silentEarly := List.forall_mem_nil _
  storing := stores.uploads
  silentMiddle := List.forall_mem_nil _
  untested := List.forall_mem_nil _
  sending := List.forall_mem_nil _
  stopsEarly := stops_nil _
  stopsUploads := stops_end _
  stopsMiddle := stops_end _
  answered := fun passed => by
    rw [List.nil_append, List.append_nil, List.append_nil, stores.answered passed]

section Phases

variable {how : Option Exit} {first early uploads middle posts more : List Step}

/-- Quiet steps come before the others. -/
theorem Phases.afterEarly (quiet : Quiet none first)
    (phases : Phases how early uploads middle posts) :
    Phases how (first ++ early) uploads middle posts where
  silentEarly := List.forall_mem_append.mpr ⟨quiet.silent, phases.silentEarly⟩
  storing := phases.storing
  silentMiddle := phases.silentMiddle
  untested := phases.untested
  sending := phases.sending
  stopsEarly := phases.stopsEarly.prepend (quiet.answered rfl)
  stopsUploads := phases.stopsUploads
  stopsMiddle := phases.stopsMiddle
  answered := fun passed => by
    rw [List.append_assoc, unanswered_append, quiet.answered rfl, phases.answered passed]

/-- Where a part without a post has passed, the post may follow. -/
theorem Phases.afterMiddle (before : Phases none early uploads middle [])
    (after : Phases how [] [] more posts) : Phases how early uploads (middle ++ more) posts := by
  have passed := before.answered rfl
  rw [unanswered_append, unanswered_append, unanswered_append] at passed
  constructor
  case silentEarly => exact before.silentEarly
  case storing => exact before.storing
  case silentMiddle => exact List.forall_mem_append.mpr ⟨before.silentMiddle, after.silentMiddle⟩
  case untested => exact after.untested
  case sending => exact after.sending
  case stopsEarly => exact stops_of_answered (by omega)
  case stopsUploads => exact stops_of_answered (by omega)
  case stopsMiddle => exact after.stopsMiddle.prepend (by omega)
  case answered =>
    intro ended
    have whole := after.answered ended
    simp only [List.nil_append, unanswered_append] at whole ⊢
    omega

/-- The last broadcast follows. -/
theorem Phases.complete (phases : Phases none early uploads middle posts) :
    Phases none early uploads middle (posts ++ [Step.completeOk]) := by
  have passed := phases.answered rfl
  simp only [unanswered_append] at passed
  constructor
  case silentEarly => exact phases.silentEarly
  case storing => exact phases.storing
  case silentMiddle => exact phases.silentMiddle
  case untested =>
    refine List.forall_mem_append.mpr ⟨phases.untested, ?_⟩
    simp [Step.isSighting]
  case sending =>
    refine List.forall_mem_append.mpr ⟨phases.sending, ?_⟩
    simp [Step.isUnanswered]
  case stopsEarly => exact stops_of_answered (by omega)
  case stopsUploads => exact stops_of_answered (by omega)
  case stopsMiddle => exact stops_of_answered (by omega)
  case answered =>
    intro _
    simp only [unanswered_append]
    have last : unanswered [.completeOk] = 0 := rfl
    omega

/-- A broadcast may follow. -/
theorem Phases.broadcast (phases : Phases how early uploads middle []) (text : ErrorText)
    (exit : Exit) : Phases (.some exit) early uploads (middle ++ [Step.failure text]) [] := by
  have still : ∀ step ∈ [Step.failure text], step.isStill = true := by simp [Step.isStill,
    Step.isSending, Step.isSighting]
  have extend {steps later : List Step} (stops : Stops steps (later ++ [])) :
      Stops steps (later ++ [Step.failure text]) := by
    intro some
    rw [List.append_nil] at stops
    exact List.forall_mem_append.mpr ⟨stops some, still⟩
  have stopsEarly := phases.stopsEarly
  rw [← List.append_assoc] at stopsEarly
  constructor
  case silentEarly => exact phases.silentEarly
  case storing => exact phases.storing
  case silentMiddle =>
    refine List.forall_mem_append.mpr ⟨phases.silentMiddle, ?_⟩
    simp [Step.isSending]
  case untested => exact phases.untested
  case sending => exact phases.sending
  case stopsEarly =>
    rw [List.append_nil, ← List.append_assoc]
    exact extend stopsEarly
  case stopsUploads =>
    rw [List.append_nil]
    exact extend phases.stopsUploads
  case stopsMiddle => exact stops_end _
  case answered =>
    intro passed
    cases passed

end Phases

/-! ## Parts -/

theorem checkAbort_quiet : checkAbort.Ensures Quiet := by
  intro environment history
  rw [checkAbort_eq]
  cases environment.requested history with
  | false => exact ⟨by simp [Step.isSending], fun _ => rfl⟩
  | true => exact ⟨by simp [Step.isSending], fun _ => rfl⟩

/-- A call other than the upload or the post. -/
theorem call_quiet {name : Call} (silent : ∀ thrown, (Step.call name thrown).isSending = false) :
    (call name).Ensures Quiet := by
  intro environment history
  rw [call_eq]
  cases environment.thrown history name with
  | none => exact ⟨by simp [silent], fun _ => rfl⟩
  | some what => exact ⟨by simp [silent], fun passed => by cases passed⟩

theorem errorModalBox_quiet (text : ErrorText) : (errorModalBox text).Ensures Quiet :=
  fun _ _ => ⟨by simp [errorModalBox, Job.emit_eq, Step.isSending], fun _ => rfl⟩

/-- A part that sends nothing and does not end. -/
def Leaving (how : Option Exit) (steps : List Step) : Prop :=
  how ≠ none ∧ ∀ step ∈ steps, step.isSending = false

theorem exit_leaves {α : Type} (how : Exit) : (Job.exit how : Part α).Ensures Leaving :=
  Job.Ensures.exit ⟨Option.some_ne_none how, List.forall_mem_nil _⟩

theorem seq_leaves {α β : Type} {body : Part α} {next : α → Part β} (quiet : body.Ensures Quiet)
    (leaves : ∀ value, (next value).Ensures Leaving) : (body >>= next).Ensures Leaving := by
  refine quiet.andThen leaves ?_ ?_
  · intro how steps quiet
    exact ⟨Option.some_ne_none how, quiet.silent⟩
  · intro how steps more quiet leaving
    exact ⟨leaving.1, List.forall_mem_append.mpr ⟨quiet.silent, leaving.2⟩⟩

/-- A quiet part with handlers that leave it. -/
theorem catching_quiet {α : Type} {body : Part α} {handler : Thrown → Part α}
    (quiet : body.Ensures Quiet) (leaves : ∀ what, (handler what).Ensures Leaving) :
    (catching body handler).Ensures Quiet := by
  refine quiet.handle (fun _ => id) fun how steps before => ?_
  have behind (left : Option Exit) (more : List Step) (leaving : Leaving left more) :
      Quiet left (steps ++ more) :=
    ⟨List.forall_mem_append.mpr ⟨before.silent, leaving.2⟩,
      fun passed => absurd passed leaving.1⟩
  cases how with
  | returned => exact (exit_leaves .returned).mono behind
  | thrown what => exact (leaves what).mono behind

theorem openUsb_quiet : openUsb.Ensures Quiet := by
  apply catching_quiet
  · exact tryOpenUsb_ensures quiet_composes checkAbort_quiet (call_quiet fun _ => rfl)
      (call_quiet fun _ => rfl)
  · intro what
    split
    · split
      · exact seq_leaves (errorModalBox_quiet _) fun _ => exit_leaves _
      · exact exit_leaves _
    · exact exit_leaves _

theorem captureOrFinish_quiet : captureOrFinish.Ensures Quiet := by
  apply catching_quiet
  · exact capture_ensures quiet_composes checkAbort_quiet openUsb_quiet (call_quiet fun _ => rfl)
      ⟨by simp [Step.isSending], fun passed => by cases passed⟩
  · intro what
    split
    · exact seq_leaves (call_quiet fun _ => rfl) fun _ => exit_leaves _
    · exact exit_leaves _

/-- A test for the abort while the FTP client is connected. -/
theorem checkAbortConnected_quiet : checkAbortConnected.Ensures Quiet := by
  have hangUp : completeOkConnected.Ensures Quiet := by
    apply Job.Ensures.seq quiet_composes (call_quiet fun _ => rfl)
    intro _
    apply Job.Ensures.seq quiet_composes (call_quiet fun _ => rfl)
    intro _
    exact Job.Ensures.emit ⟨by simp [Step.isSending], fun _ => rfl⟩
  have requested : abortRequested.Ensures Quiet := by
    intro environment history
    rw [abortRequested_eq]
    cases environment.requested history with
    | false => exact ⟨by simp [Step.isSending], fun _ => rfl⟩
    | true => exact ⟨by simp [Step.isSending], fun _ => rfl⟩
  apply Job.Ensures.seq quiet_composes requested
  intro seen
  cases seen with
  | false => exact .pure quiet_composes _
  | true => exact hangUp

/-- The loop around `storeUniqueFile`. -/
theorem storeFile_stores (tries : ℕ) : (storeFile tries).Ensures Stores := by
  have once : (call .storeUniqueFile).Ensures Stores := by
    intro environment history
    rw [call_eq]
    cases environment.thrown history .storeUniqueFile with
    | none => exact ⟨by simp [Step.isUpload], fun _ => rfl⟩
    | some what => exact ⟨by simp [Step.isUpload], fun passed => by cases passed⟩
  induction tries with
  | zero => exact once
  | succ tries ih =>
    intro environment history
    have here := call_eq .storeUniqueFile environment history
    have direct := once environment history
    rw [storeFile, catching]
    cases thrown : environment.thrown history .storeUniqueFile with
    | none =>
      rw [thrown] at here
      rw [here] at direct
      rw [Job.handle_ok here]
      exact direct
    | some what =>
      rw [thrown] at here
      rw [here] at direct
      rw [Job.handle_error here]
      dsimp only
      by_cases again : what.isIOException = true
      · have later := ih environment (history ++ [Step.call .storeUniqueFile (.some what)])
        rw [if_pos again]
        constructor
        · exact List.forall_mem_append.mpr ⟨direct.uploads, later.uploads⟩
        · intro passed
          rw [unanswered_append, unanswered_throw, later.answered passed, Nat.add_zero]
          exact if_pos again
      · rw [if_neg again]
        exact ⟨direct.uploads, fun passed => by cases passed⟩

theorem upload_uploads : upload.Ensures Uploads := by
  refine upload_ensures quiet_composes checkAbort_quiet checkAbortConnected_quiet ?_
    (storeFile_stores _) ?_ ?_ ?_ ?_
  · intro name member
    rcases member with rfl | rfl | rfl | rfl | rfl | rfl | rfl | rfl
    all_goals exact call_quiet fun _ => rfl
  · intro how steps quiet
    exact ⟨steps, [], [], by simp, quiet.early⟩
  · rintro how first _ quiet ⟨early, uploads, middle, rfl, phases⟩
    exact ⟨first ++ early, uploads, middle, by simp, phases.afterEarly quiet⟩
  · intro how steps stores
    exact ⟨[], steps, [], by simp, stores.phases⟩
  · intro how uploads middle stores quiet
    exact ⟨[], uploads, [] ++ middle, by simp, stores.phases.afterMiddle quiet.middle⟩

/-- The upload with its handlers. -/
theorem uploadOrFail_uploads : uploadOrFail.Ensures Uploads := by
  refine upload_uploads.handle (fun _ => id) fun how steps before => ?_
  obtain ⟨early, uploads, middle, rfl, phases⟩ := before
  have left (exit : Exit) : Uploads (.some exit) ((early ++ (uploads ++ middle)) ++ []) := by
    rw [List.append_nil]
    exact ⟨early, uploads, middle, rfl, { phases with answered := fun passed => by cases passed }⟩
  cases how with
  | returned => exact fun _ _ => left _
  | thrown what =>
    dsimp only
    by_cases answered : what.isIOException = true
    · rw [if_pos answered]
      intro environment history
      show Uploads (.some .returned)
        ((early ++ (uploads ++ middle)) ++ [Step.failure (uploadError what)])
      exact ⟨early, uploads, middle ++ [Step.failure (uploadError what)], by simp,
        phases.broadcast _ _⟩
    · rw [if_neg answered]
      exact fun _ _ => left _

theorem showValues_quiet : showValues.Ensures Quiet := by
  intro environment history
  have here := call_eq .messageValues environment history
  rw [showValues, catching]
  cases thrown : environment.thrown history .messageValues with
  | none =>
    rw [thrown] at here
    rw [Job.handle_ok (Job.bind_ok here)]
    show Quiet none ([_] ++ [])
    exact ⟨by simp [Step.isSending], fun _ => rfl⟩
  | some what =>
    rw [thrown] at here
    have table := unanswered_throw .messageValues what
    rw [Job.handle_error (Job.bind_error here)]
    dsimp only
    by_cases caught : (what = .numberFormat || what = .arrayIndexOutOfBounds) = true
    · rw [if_pos caught]
      show Quiet none ([_] ++ [])
      refine ⟨by simp [Step.isSending], fun _ => ?_⟩
      rw [List.append_nil, table]
      exact if_pos caught
    · rw [if_neg caught]
      show Quiet (.some (.thrown what)) ([_] ++ [])
      exact ⟨by simp [Step.isSending], fun passed => by cases passed⟩

theorem readResponse_quiet : readResponse.Ensures Quiet :=
  readResponse_ensures quiet_composes checkAbort_quiet (call_quiet fun _ => rfl)
    (call_quiet fun _ => rfl) showValues_quiet

theorem Quiet.posts {how : Option Exit} {steps : List Step} (quiet : Quiet how steps) :
    Posts how steps := ⟨steps, [], by simp, quiet.middle⟩

theorem Posts.afterQuiet {how : Option Exit} {first later : List Step} (quiet : Quiet none first)
    (posts : Posts how later) : Posts how (first ++ later) := by
  obtain ⟨middle, posts, rfl, phases⟩ := posts
  exact ⟨first ++ middle, posts, by simp, quiet.middle.afterMiddle phases⟩

/-- The post of a sample. -/
theorem postSample_posts : postSample.Ensures Posts := by
  have left : ∀ (how : Exit) steps, Quiet (.some how) steps → Posts (.some how) steps :=
    fun _ _ => Quiet.posts
  have before : ∀ how first later, Quiet none first → Posts how later →
      Posts how (first ++ later) := fun _ _ _ => Posts.afterQuiet
  have posted : (call .queueAdd).Ensures Posts := by
    intro environment history
    rw [call_eq]
    refine ⟨[], [.call .queueAdd (environment.thrown history .queueAdd)], rfl, ?_⟩
    refine ⟨List.forall_mem_nil _, List.forall_mem_nil _, List.forall_mem_nil _, ?_, ?_,
      stops_nil _, stops_nil _, stops_nil _, ?_⟩
    · simp [Step.isSighting]
    · simp [Step.isSending]
    · cases environment.thrown history .queueAdd with
      | none => exact fun _ => rfl
      | some what => exact fun passed => by cases passed
  apply (call_quiet fun _ => rfl).andThen ?_ left before
  intro _
  apply (call_quiet fun _ => rfl).andThen ?_ left before
  intro _
  apply checkAbort_quiet.andThen ?_ left before
  intro _
  exact posted

/-! ## The job -/

theorem Quiet.inPhases {how : Exit} {steps : List Step} (quiet : Quiet (.some how) steps) :
    InPhases (.some how) steps :=
  ⟨steps, [], [], [], by simp, quiet.early⟩

theorem InPhases.afterQuiet {how : Option Exit} {first later : List Step} (quiet : Quiet none first)
    (phases : InPhases how later) : InPhases how (first ++ later) := by
  obtain ⟨early, uploads, middle, posts, rfl, phases⟩ := phases
  exact ⟨first ++ early, uploads, middle, posts, by simp, phases.afterEarly quiet⟩

theorem Posts.inPhases {how : Option Exit} {steps : List Step} (posts : Posts how steps) :
    InPhases how steps := by
  obtain ⟨middle, posts, rfl, phases⟩ := posts
  exact ⟨[], [], middle, posts, rfl, phases⟩

theorem Uploads.inPhases {how : Option Exit} {first later : List Step}
    (uploads : Uploads none first) (posts : Posts how later) : InPhases how (first ++ later) := by
  obtain ⟨early, uploads, middle, rfl, before⟩ := uploads
  obtain ⟨more, posts, rfl, after⟩ := posts
  exact ⟨early, uploads, middle ++ more, posts, by simp, before.afterMiddle after⟩

/-- All of the job but its last statement. -/
theorem collectSample_phases : collectSample.Ensures InPhases := by
  have left : ∀ (how : Exit) steps, Quiet (.some how) steps → InPhases (.some how) steps :=
    fun _ _ quiet => quiet.inPhases
  have before : ∀ how first later, Quiet none first → InPhases how later →
      InPhases how (first ++ later) := fun _ _ _ quiet phases => phases.afterQuiet quiet
  have rest : (readResponse >>= fun found => if found then postSample else pure ()).Ensures
      Posts := by
    apply readResponse_quiet.andThen ?_ (fun _ _ => Quiet.posts) fun _ _ _ => Posts.afterQuiet
    intro found
    cases found with
    | false => exact fun _ _ => ⟨[], [], rfl, quiet_composes.nil.early⟩
    | true => exact postSample_posts
  apply (call_quiet fun _ => rfl).andThen ?_ left before
  intro _
  apply checkAbort_quiet.andThen ?_ left before
  intro _
  apply checkAbort_quiet.andThen ?_ left before
  intro _
  apply captureOrFinish_quiet.andThen ?_ left before
  intro _
  apply (Job.Ensures.ask quiet_composes _).andThen ?_ left before
  intro procLocal
  cases procLocal with
  | true =>
    apply (call_quiet fun _ => rfl).andThen ?_ left before
    intro _
    exact rest.mono fun _ _ => Posts.inPhases
  | false =>
    refine uploadOrFail_uploads.andThen (fun _ => rest) ?_ fun _ _ _ => Uploads.inPhases
    rintro how _ ⟨early, uploads, middle, rfl, phases⟩
    exact ⟨early, uploads, middle, [], by simp, phases⟩

/-- The steps of the whole job. -/
theorem steps_phases (environment : Environment) : ∃ how, InPhases how (steps environment) := by
  have outcome := collectSample_phases environment []
  unfold steps
  rw [onHandleIntent]
  cases result : collectSample environment [] with
  | mk value collected =>
    rw [result] at outcome
    cases value with
    | error how =>
      rw [Job.bind_error result]
      exact ⟨_, outcome⟩
    | ok value =>
      obtain ⟨early, uploads, middle, posts, shown, phases⟩ := outcome
      have shown : collected = early ++ (uploads ++ (middle ++ posts)) := shown
      rw [Job.bind_ok result]
      show ∃ how, InPhases how (collected ++ [Step.completeOk])
      exact ⟨none, early, uploads, middle, posts ++ [Step.completeOk], by simp [shown],
        phases.complete⟩

/-! ## Where an exception ends the job -/

/-- The steps before the upload. -/
def beforeUpload (steps : List Step) : List Step := steps.takeWhile fun step => !step.isUpload

/-- What is not answered is thrown neither by the upload nor by the post, and either before the
upload or where no test before the upload has seen the request. -/
def EndsInTime (steps : List Step) : Prop :=
  ∀ step ∈ steps, step.isUnanswered = true → step.isSending = false ∧
    (step ∈ beforeUpload steps ∨ sightings (beforeUpload steps) = 0)

theorem Step.sends_of_isUpload {step : Step} (upload : step.isUpload = true) :
    step.isSending = true := by
  cases step with
  | call name thrown =>
    cases name with
    | storeUniqueFile => rfl
    | _ => cases upload
  | _ => cases upload

theorem Step.unseen_of_isSending {step : Step} (sends : step.isSending = true) :
    step.isSighting = false := by
  cases step with
  | check requested => cases sends
  | _ => rfl

/-- Steps that send nothing at all. -/
theorem sendsNothing_of_silent {steps : List Step}
    (silent : ∀ step ∈ steps, step.isSending = false) : SendsNothing steps :=
  fun step member => silent step ((List.dropWhile_suffix _).subset member)

/-- A step that sends comes after a test that has seen the request. -/
theorem not_sendsNothing {first later : List Step} (seen : 0 < sightings first) {step : Step}
    (member : step ∈ later) (sends : step.isSending = true) : ¬SendsNothing (first ++ later) := by
  intro nothing
  obtain ⟨sighting, inside, here⟩ := List.countP_pos_iff.mp seen
  have rest : sighting ∈ first.dropWhile fun step => !step.isSighting := by
    have parted := List.takeWhile_append_dropWhile (p := fun step : Step => !step.isSighting)
      (l := first)
    rw [← parted] at inside
    rcases List.mem_append.mp inside with before | behind
    · have unseen := List.mem_takeWhile_imp before
      rw [here] at unseen
      cases unseen
    · exact behind
  have after : step ∈ fromSighting (first ++ later) := by
    unfold fromSighting
    rw [List.dropWhile_append, if_neg]
    · exact List.mem_append_right _ member
    · rw [List.isEmpty_iff]
      exact List.ne_nil_of_mem rest
  rw [nothing step after] at sends
  cases sends

theorem beforeUpload_append {early : List Step} (silent : ∀ step ∈ early, step.isSending = false)
    (later : List Step) : beforeUpload (early ++ later) = early ++ beforeUpload later := by
  apply List.takeWhile_append_of_pos
  intro step member
  cases upload : step.isUpload with
  | false => rfl
  | true =>
    have sends := step.sends_of_isUpload upload
    rw [silent step member] at sends
    cases sends

theorem sightings_eq_zero {steps : List Step} (unseen : ∀ step ∈ steps, step.isSighting = false) :
    sightings steps = 0 := by
  apply List.countP_eq_zero.mpr
  intro step member
  rw [unseen step member]
  exact Bool.false_ne_true

theorem unanswered_pos {steps : List Step} {step : Step} (member : step ∈ steps)
    (thrown : step.isUnanswered = true) : 0 < unanswered steps :=
  List.countP_pos_iff.mpr ⟨step, member, thrown⟩

theorem Step.isStill_iff {step : Step} :
    step.isStill = true ↔ step.isSending = false ∧ step.isSighting = false := by
  simp [Step.isStill]

/-- Where a test has seen the request, a job that ends by what is not answered has sent nothing
after it if and only if that was thrown in time. -/
theorem InPhases.sendsNothing_iff {how : Option Exit} {steps : List Step}
    (phases : InPhases how steps) (thrown : 0 < unanswered steps) (seen : 0 < sightings steps) :
    SendsNothing steps ↔ EndsInTime steps := by
  obtain ⟨early, uploads, middle, posts, rfl, phases⟩ := phases
  have before := beforeUpload_append phases.silentEarly (uploads ++ (middle ++ posts))
  have sent : ∀ step ∈ uploads, step.isSending = true := fun step member =>
    step.sends_of_isUpload (phases.storing step member)
  have unseenUploads : sightings uploads = 0 := sightings_eq_zero fun step member =>
    step.unseen_of_isSending (sent step member)
  have unseenPosts : sightings posts = 0 := sightings_eq_zero phases.untested
  simp only [sightings_append] at seen
  constructor
  · intro nothing step member unanswered
    rcases List.mem_append.mp member with inEarly | later
    · refine ⟨phases.silentEarly step inEarly, Or.inl ?_⟩
      rw [before]
      exact List.mem_append_left _ inEarly
    · rcases List.mem_append.mp later with inUploads | behind
      · have still := phases.stopsUploads (unanswered_pos inUploads unanswered)
        have unseen : sightings (middle ++ posts) = 0 := sightings_eq_zero fun other inside =>
          (Step.isStill_iff.mp (still other inside)).2
        rw [sightings_append] at unseen
        exact absurd nothing (not_sendsNothing (by omega) later (sent step inUploads))
      · rcases List.mem_append.mp behind with inMiddle | inPosts
        · refine ⟨phases.silentMiddle step inMiddle, ?_⟩
          cases stored : uploads with
          | nil =>
            left
            rw [stored, List.nil_append] at before
            rw [List.nil_append, before, beforeUpload_append phases.silentMiddle]
            exact List.mem_append_right _ (List.mem_append_left _ inMiddle)
          | cons upload others =>
            right
            have inside : upload ∈ uploads := by
              rw [stored]
              exact List.mem_cons_self
            have ended : beforeUpload (uploads ++ (middle ++ posts)) = [] := by
              rw [stored]
              exact List.takeWhile_cons_of_neg (by simp [phases.storing upload inside])
            rw [← stored, before, ended, List.append_nil]
            by_contra some
            exact not_sendsNothing (Nat.pos_of_ne_zero some) (List.mem_append_left _ inside)
              (sent upload inside) nothing
        · have sends := phases.sending step inPosts unanswered
          rw [← List.append_assoc, ← List.append_assoc] at nothing
          refine absurd nothing (not_sendsNothing ?_ inPosts sends)
          simp only [sightings_append]
          omega
  · intro ends
    obtain ⟨step, member, unanswered⟩ := List.countP_pos_iff.mp thrown
    obtain ⟨silent, place⟩ := ends step member unanswered
    rcases List.mem_append.mp member with inEarly | later
    · have still := phases.stopsEarly (unanswered_pos inEarly unanswered)
      apply sendsNothing_of_silent
      refine List.forall_mem_append.mpr ⟨phases.silentEarly, fun other inside => ?_⟩
      exact (Step.isStill_iff.mp (still other inside)).1
    · rcases List.mem_append.mp later with inUploads | behind
      · rw [sent step inUploads] at silent
        cases silent
      · rcases List.mem_append.mp behind with inMiddle | inPosts
        · have still := phases.stopsMiddle (unanswered_pos inMiddle unanswered)
          have rest : ∀ other ∈ middle ++ posts, other.isSending = false :=
            List.forall_mem_append.mpr ⟨phases.silentMiddle, fun other inside =>
              (Step.isStill_iff.mp (still other inside)).1⟩
          cases stored : uploads with
          | nil =>
            rw [List.nil_append]
            exact sendsNothing_of_silent (List.forall_mem_append.mpr ⟨phases.silentEarly, rest⟩)
          | cons upload others =>
            have inside : upload ∈ uploads := by
              rw [stored]
              exact List.mem_cons_self
            have ended : beforeUpload (uploads ++ (middle ++ posts)) = [] := by
              rw [stored]
              exact List.takeWhile_cons_of_neg (by simp [phases.storing upload inside])
            rw [before, ended, List.append_nil] at place
            rw [← stored]
            rcases place with inEarly | none
            · have still := phases.stopsEarly (unanswered_pos inEarly unanswered) upload
                (List.mem_append_left _ inside)
              have sends := sent upload inside
              rw [(Step.isStill_iff.mp still).1] at sends
              cases sends
            · apply SendsNothing.append none
              apply SendsNothing.append unseenUploads
              exact sendsNothing_of_silent rest
        · rw [phases.sending step inPosts unanswered] at silent
          cases silent

/-- When a job sends one terminal broadcast, and nothing after an abort. Either every exception is
answered and no test sees the request, except one whose hanging up throws; or one test has sent its
`COMPLETEOK`, and an exception that is not answered ends the job in time. -/
theorem disciplined_iff (environment : Environment) :
    Disciplined (steps environment) ↔
      unanswered (steps environment) = 0 ∧
        sightings (steps environment) = cuts (steps environment) ∨
      0 < unanswered (steps environment) ∧
        sightings (steps environment) = cuts (steps environment) + 1 ∧
        EndsInTime (steps environment) := by
  obtain ⟨⟨bounded, safe⟩, balanced⟩ := steps_settle environment
  obtain ⟨how, phases⟩ := steps_phases environment
  unfold Balanced at balanced
  constructor
  · rintro ⟨terminal, stops⟩
    rw [terminal] at balanced
    by_cases answered : unanswered (steps environment) = 0
    · rw [if_pos answered] at balanced
      left
      exact ⟨answered, by omega⟩
    · rw [if_neg answered] at balanced
      right
      have ends := (phases.sendsNothing_iff (by omega) (by omega)).mp stops
      exact ⟨by omega, by omega, ends⟩
  · rintro (⟨answered, same⟩ | ⟨some, one, ends⟩)
    · rw [if_pos answered] at balanced
      constructor
      · omega
      · rcases safe with completed | nothing
        · omega
        · exact nothing
    · rw [if_neg (Nat.ne_of_gt some)] at balanced
      constructor
      · omega
      · exact (phases.sendsNothing_iff some (by omega)).mpr ends

/-- The user asks for an abort while the tuner records for a local analysis, and no call throws. -/
def abortDuringCapture : Environment where
  requested history := decide (.call .rtlSdrOpen none ∈ history)
  thrown _ _ := none
  testing := false
  procLocal := true
  connected := true
  complete := true
  long := true

/-- The sample is posted all the same, with three broadcasts before that the job is complete. -/
theorem abortDuringCapture_undisciplined :
    terminals (steps abortDuringCapture) = 4 ∧
      ¬SendsNothing (steps abortDuringCapture) ∧ ¬Disciplined (steps abortDuringCapture) := by
  have four : terminals (steps abortDuringCapture) = 4 := by decide +kernel
  have sends : ¬SendsNothing (steps abortDuringCapture) := by
    unfold SendsNothing
    decide +kernel
  exact ⟨four, sends, fun disciplined => sends disciplined.stops⟩

end FcTpms.Job
