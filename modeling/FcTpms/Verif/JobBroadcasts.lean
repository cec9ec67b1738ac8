import FcTpms.Job.SdrFtpService
import Mathlib.Data.List.Basic

/-!
# Broadcasts of a job

A job tests `abort_requested` at a dozen places. A test that sees the request broadcasts
`COMPLETEOK` and goes on. So a job broadcasts as many of them as tests have seen the request, and
one more at its end, unless it ends by an exception that is not answered with a broadcast.
-/

namespace FcTpms.Job

open Machine

/-! ## Counting steps -/

/-- A terminal broadcast. -/
def Step.isTerminal : Step → Bool
  | .completeOk | .failure _ => true
  | _ => false

/-- A test that sees the request. -/
def Step.isSighting : Step → Bool
  | .check true => true
  | _ => false

/-- A call that throws between a test that sees the request and its `completeOk`. -/
def Step.isCut : Step → Bool
  | .call .abortLogout (.some _) | .call .abortDisconnect (.some _) => true
  | _ => false

/-- The upload of the recording, or the post of a sample. -/
def Step.isSending : Step → Bool
  | .call .storeUniqueFile _ | .call .queueAdd _ => true
  | _ => false

/-- Calls whose exceptions are answered: by `errorModalBox`, by another try, or, for the values of
the message, by going on without them. -/
def answered : Call → Thrown → Bool
  | .findDevice, what | .openDevice, what => what = .runtime true
  | .getByName, what | .connect, what | .login, what | .changeWorkingDirectory, what
  | .openFile, what | .storeUniqueFile, what | .closeFile, what | .logout, what
  | .disconnect, what | .abortLogout, what | .abortDisconnect, what => what.isIOException
  | .messageValues, what => what = .numberFormat || what = .arrayIndexOutOfBounds
  | _, _ => false

/-- A call that throws what is not answered. -/
def Step.isUnanswered : Step → Bool
  | .call name (.some what) => !answered name what
  | _ => false

/-- The number of terminal broadcasts. -/
def terminals (steps : List Step) : ℕ := steps.countP Step.isTerminal

/-- The number of tests that see the request. -/
def sightings (steps : List Step) : ℕ := steps.countP Step.isSighting

/-- The number of those that are cut off before their `completeOk`. -/
def cuts (steps : List Step) : ℕ := steps.countP Step.isCut

/-- The number of calls that throw what is not answered. -/
def unanswered (steps : List Step) : ℕ := steps.countP Step.isUnanswered

/-- The steps from the first test on that sees the request. -/
def fromSighting (steps : List Step) : List Step := steps.dropWhile fun step => !step.isSighting

/-- The steps after a test that sees the request send nothing. -/
def SendsNothing (steps : List Step) : Prop := ∀ step ∈ fromSighting steps, step.isSending = false

/-- One terminal broadcast, and nothing is sent after a test that has seen the request. -/
structure Disciplined (steps : List Step) : Prop where
  /-- One terminal broadcast. -/
  terminal : terminals steps = 1
  /-- Nothing is sent. -/
  stops : SendsNothing steps

section Counting

variable (first later : List Step)

@[simp] theorem terminals_append :
    terminals (first ++ later) = terminals first + terminals later := List.countP_append

@[simp] theorem sightings_append :
    sightings (first ++ later) = sightings first + sightings later := List.countP_append

@[simp] theorem cuts_append : cuts (first ++ later) = cuts first + cuts later := List.countP_append

@[simp] theorem unanswered_append :
    unanswered (first ++ later) = unanswered first + unanswered later := List.countP_append

end Counting

section Sending

variable {first later steps : List Step}

/-- Steps without a sighting make no difference. -/
theorem SendsNothing.append (none : sightings first = 0) (nothing : SendsNothing later) :
    SendsNothing (first ++ later) := by
  have unseen := List.countP_eq_zero.mp none
  have skipped : fromSighting (first ++ later) = fromSighting later := by
    apply List.dropWhile_append_of_pos
    intro step member
    rw [Bool.not_eq_true']
    exact Bool.eq_false_iff.mpr (unseen step member)
  unfold SendsNothing
  rw [skipped]
  exact nothing

/-- Steps without a sighting send nothing after one. -/
theorem sendsNothing_of_none (none : sightings steps = 0) : SendsNothing steps := by
  have nothing : SendsNothing [] := fun _ member => (nomatch member)
  have whole := nothing.append none
  rw [List.append_nil] at whole
  exact whole

/-- Steps that send nothing come after. -/
theorem SendsNothing.append_silent (nothing : SendsNothing first)
    (silent : ∀ step ∈ later, step.isSending = false) : SendsNothing (first ++ later) := by
  intro step member
  unfold fromSighting at member
  rw [List.dropWhile_append] at member
  split at member
  · exact silent step ((List.dropWhile_suffix _).subset member)
  · rcases List.mem_append.mp member with before | after
    · exact nothing step before
    · exact silent step after

/-- Steps that send nothing at all. -/
theorem sendsNothing_of_all (none : steps.all (fun step => !step.isSending) = true) :
    SendsNothing steps := by
  intro step member
  have here : step ∈ steps := (List.dropWhile_suffix _).subset member
  rw [← Bool.not_eq_true']
  exact List.all_eq_true.mp none step here

end Sending

/-! ## Parts of a job -/

/-- The broadcasts so far: one for each sighting that was not cut off, and `extra` more. -/
def Balanced (extra : ℕ) (steps : List Step) : Prop :=
  terminals steps + cuts steps = sightings steps + extra

/-- If no sighting was completed, nothing was sent after one. -/
def Guarded (steps : List Step) : Prop :=
  cuts steps ≤ sightings steps ∧ (cuts steps < sightings steps ∨ SendsNothing steps)

/-- The steps of a part after which the job goes on. -/
structure Passes (steps : List Step) : Prop where
  /-- Each sighting has its broadcast. -/
  balanced : Balanced 0 steps
  /-- All exceptions were answered. -/
  answered : unanswered steps = 0
  /-- No sighting was cut off. -/
  whole : cuts steps = 0

/-- The steps of a part of the job: either it goes on, or it was left by `return`, with or without a
broadcast of its own, or by an exception. -/
def Settles : Option Exit → List Step → Prop
  | none, steps => Passes steps
  | .some .returned, steps =>
    Guarded steps ∧ (unanswered steps = 0 ∧ Balanced 1 steps ∨
      0 < unanswered steps ∧ Balanced 0 steps)
  | .some (.thrown _), steps => Guarded steps ∧ 0 < unanswered steps ∧ Balanced 0 steps

/-- The steps of a part of a `try`: it goes on, or is left by an exception of one of the calls that
stand in it. -/
def Tries (calls : Call → Prop) : Option Exit → List Step → Prop
  | none, steps => Passes steps
  | .some .returned, _ => False
  | .some (.thrown what), steps =>
    Guarded steps ∧ Balanced 0 steps ∧
      ∃ name, calls name ∧ unanswered steps = if answered name what then 0 else 1

theorem passes_nil : Passes [] := ⟨rfl, rfl, rfl⟩

section Append

variable {first later : List Step}

theorem Passes.append (before : Passes first) (after : Passes later) : Passes (first ++ later) := by
  have early := before.balanced
  have late := after.balanced
  unfold Balanced at early late
  constructor
  · unfold Balanced
    rw [terminals_append, cuts_append, sightings_append]
    omega
  · rw [unanswered_append, before.answered, after.answered]
  · rw [cuts_append, before.whole, after.whole]

theorem Balanced.append (before : Passes first) {extra : ℕ} (after : Balanced extra later) :
    Balanced extra (first ++ later) := by
  have early := before.balanced
  unfold Balanced at early after ⊢
  rw [terminals_append, cuts_append, sightings_append]
  omega

theorem Guarded.append (before : Passes first) (after : Guarded later) :
    Guarded (first ++ later) := by
  have whole := before.whole
  obtain ⟨bounded, safe⟩ := after
  unfold Guarded
  rw [cuts_append, sightings_append]
  constructor
  · omega
  · by_cases seen : sightings first = 0
    · rcases safe with completed | nothing
      · left
        omega
      · right
        exact nothing.append seen
    · left
      omega

/-- Steps come after that send nothing and test nothing. -/
theorem Guarded.append_quiet (guarded : Guarded first) (uncut : cuts later = 0)
    (unseen : sightings later = 0) (silent : ∀ step ∈ later, step.isSending = false) :
    Guarded (first ++ later) := by
  obtain ⟨bounded, safe⟩ := guarded
  constructor
  · rw [cuts_append, sightings_append, uncut, unseen]
    exact bounded
  · rw [cuts_append, sightings_append, uncut, unseen]
    rcases safe with completed | nothing
    · exact Or.inl completed
    · exact Or.inr (nothing.append_silent silent)

theorem unanswered_after (before : Passes first) :
    unanswered (first ++ later) = unanswered later := by
  rw [unanswered_append, before.answered, Nat.zero_add]

end Append

theorem settles_composes : Job.Composes Settles := by
  constructor
  · exact passes_nil
  · intro first later how before after
    have before : Passes first := before
    cases how with
    | none => exact before.append after
    | some exit =>
      cases exit with
      | returned =>
        obtain ⟨guarded, outcome⟩ := after
        refine ⟨guarded.append before, ?_⟩
        rw [unanswered_after before]
        rcases outcome with ⟨none, balanced⟩ | ⟨some, balanced⟩
        · exact Or.inl ⟨none, balanced.append before⟩
        · exact Or.inr ⟨some, balanced.append before⟩
      | thrown what =>
        obtain ⟨guarded, some, balanced⟩ := after
        refine ⟨guarded.append before, ?_, balanced.append before⟩
        rw [unanswered_after before]
        exact some

theorem tries_composes (calls : Call → Prop) : Job.Composes (Tries calls) := by
  constructor
  · exact passes_nil
  · intro first later how before after
    have before : Passes first := before
    cases how with
    | none => exact before.append after
    | some exit =>
      cases exit with
      | returned => exact after
      | thrown what =>
        obtain ⟨guarded, balanced, name, member, count⟩ := after
        refine ⟨guarded.append before, balanced.append before, name, member, ?_⟩
        rw [unanswered_after before]
        exact count

/-! ## The parts one by one -/

theorem unanswered_throw (name : Call) (what : Thrown) :
    unanswered [.call name (.some what)] = if answered name what then 0 else 1 := by
  have open_ : (Step.call name (.some what)).isUnanswered = !answered name what := rfl
  unfold unanswered
  rw [List.countP_singleton, open_]
  cases answered name what <;> rfl

/-- A call, by what it throws. -/
theorem call_eq (name : Call) (environment : Environment) (history : List Step) :
    call name environment history =
      (match environment.thrown history name with
        | none => .ok ()
        | .some what => .error (.thrown what),
      [.call name (environment.thrown history name)]) := by
  rw [call, Job.bind_ok (Job.ask_eq _ _ _), Job.bind_ok (Job.emit_eq _ _ _)]
  cases environment.thrown history name <;> rfl

/-- A test for the abort. -/
theorem abortRequested_eq (environment : Environment) (history : List Step) :
    abortRequested environment history =
      (.ok (environment.requested history), [.check (environment.requested history)]) := by
  rw [abortRequested, Job.bind_ok (Job.ask_eq _ _ _), Job.bind_ok (Job.emit_eq _ _ _)]
  rfl

/-- A test for the abort with its broadcast. -/
theorem checkAbort_eq (environment : Environment) (history : List Step) :
    checkAbort environment history =
      (.ok (), if environment.requested history then [.check true, .completeOk]
        else [.check false]) := by
  rw [checkAbort, Job.bind_ok (abortRequested_eq _ _)]
  cases environment.requested history <;> rfl

/-- A test that has its broadcast is a part after which the job goes on. -/
theorem checkAbort_passes {post : Option Exit → List Step → Prop}
    (passes : ∀ steps, Passes steps → post none steps) : checkAbort.Ensures post := by
  intro environment history
  rw [checkAbort_eq]
  apply passes
  cases environment.requested history with
  | false => exact ⟨rfl, rfl, rfl⟩
  | true => exact ⟨rfl, rfl, rfl⟩

/-- A call that is not part of an abort. -/
theorem call_tries {name : Call} (uncut : ∀ thrown, (Step.call name thrown).isCut = false)
    {calls : Call → Prop} (member : calls name) : (call name).Ensures (Tries calls) := by
  intro environment history
  rw [call_eq]
  have cuts_zero (thrown : Option Thrown) : cuts [.call name thrown] = 0 := by
    apply List.countP_eq_zero.mpr
    intro step here
    rw [List.mem_singleton.mp here, uncut]
    exact Bool.false_ne_true
  cases environment.thrown history name with
  | none =>
    constructor
    · show 0 + cuts _ = 0 + 0
      rw [cuts_zero]
    · rfl
    · exact cuts_zero none
  | some what =>
    have guarded : Guarded [.call name (.some what)] := by
      constructor
      · rw [cuts_zero]
        exact Nat.zero_le _
      · right
        exact sendsNothing_of_none rfl
    refine ⟨guarded, ?_, name, member, ?_⟩
    · show 0 + cuts _ = 0 + 0
      rw [cuts_zero]
    · exact unanswered_throw name what

/-- A test for the abort while the FTP client is connected. -/
theorem checkAbortConnected_tries {calls : Call → Prop} (logout : calls .abortLogout)
    (disconnect : calls .abortDisconnect) : checkAbortConnected.Ensures (Tries calls) := by
  intro environment history
  rw [checkAbortConnected, Job.bind_ok (abortRequested_eq _ _)]
  cases environment.requested history with
  | false => exact ⟨rfl, rfl, rfl⟩
  | true =>
    show Tries calls (Job.ended (completeOkConnected environment _).1)
      ([Step.check true] ++ (completeOkConnected environment _).2)
    have loggedOut := call_eq .abortLogout environment (history ++ [Step.check true])
    cases first : environment.thrown (history ++ [Step.check true]) .abortLogout with
    | some what =>
      rw [first] at loggedOut
      rw [completeOkConnected, Job.bind_error loggedOut]
      refine ⟨⟨Nat.le_refl 1, Or.inr (sendsNothing_of_all rfl)⟩, rfl, .abortLogout, logout, ?_⟩
      rw [unanswered_append, unanswered_throw]
      exact Nat.zero_add _
    | none =>
      rw [first] at loggedOut
      have disconnected := call_eq .abortDisconnect environment
        (history ++ [Step.check true] ++ [Step.call .abortLogout none])
      rw [completeOkConnected, Job.bind_ok loggedOut]
      cases second : environment.thrown
        (history ++ [Step.check true] ++ [Step.call .abortLogout none]) .abortDisconnect with
      | some what =>
        rw [second] at disconnected
        rw [Job.bind_error disconnected]
        refine ⟨⟨Nat.le_refl 1, Or.inr (sendsNothing_of_all rfl)⟩, rfl, .abortDisconnect,
          disconnect, ?_⟩
        rw [unanswered_append, unanswered_append, unanswered_throw]
        exact (Nat.zero_add _).trans (Nat.zero_add _)
      | none =>
        rw [second] at disconnected
        rw [Job.bind_ok disconnected]
        exact ⟨rfl, rfl, rfl⟩

/-! ## What holds part by part -/

/-- The calls of the upload but `storeUniqueFile`. -/
def besideStore (name : Call) : Prop :=
  name = .getByName ∨ name = .connect ∨ name = .login ∨ name = .changeWorkingDirectory ∨
    name = .openFile ∨ name = .closeFile ∨ name = .logout ∨ name = .disconnect

section Parts

variable {post : Option Exit → List Step → Prop} (composes : Job.Composes post)
  (tested : checkAbort.Ensures post)

include composes tested

theorem tryOpenUsb_ensures (found : (call .findDevice).Ensures post)
    (opened : (call .openDevice).Ensures post) : tryOpenUsb.Ensures post := by
  apply Job.Ensures.seq composes tested
  intro _
  apply Job.Ensures.seq composes found
  intro _
  apply Job.Ensures.seq composes opened
  intro _
  exact tested

theorem capture_ensures (usb : openUsb.Ensures post) (recorded : (call .rtlSdrOpen).Ensures post)
    (failed : post (.some .returned) [.failure .failedToOpenDevice]) : capture.Ensures post := by
  apply Job.Ensures.seq composes (.ask composes _)
  intro testing
  cases testing with
  | true =>
    apply Job.Ensures.seq composes tested
    intro _
    apply Job.Ensures.seq composes recorded
    intro _
    exact tested
  | false =>
    apply Job.Ensures.seq composes usb
    intro _
    apply Job.Ensures.seq composes (.ask composes _)
    intro disconnected
    cases disconnected with
    | true => exact fun _ _ => failed
    | false =>
      apply Job.Ensures.seq composes tested
      intro _
      apply Job.Ensures.seq composes recorded
      intro _
      exact tested

theorem readResponse_ensures (parsed : (call .parseCode).Ensures post)
    (relevant : (call .relevantResponse).Ensures post) (shown : showValues.Ensures post) :
    readResponse.Ensures post := by
  apply Job.Ensures.seq composes parsed
  intro _
  apply Job.Ensures.seq composes (.ask composes _)
  intro complete
  cases complete with
  | false => exact .pure composes _
  | true =>
    apply Job.Ensures.seq composes relevant
    intro _
    apply Job.Ensures.seq composes tested
    intro _
    apply Job.Ensures.seq composes (.ask composes _)
    intro long
    cases long with
    | false => exact .pure composes _
    | true => exact shown

/-- The upload, with conditions of their own on what stands before and behind `storeUniqueFile`. -/
theorem upload_ensures {stores whole : Option Exit → List Step → Prop}
    (testedConnected : checkAbortConnected.Ensures post)
    (made : ∀ name, besideStore name → (call name).Ensures post)
    (stored : (storeFile (maxTries - 1)).Ensures stores)
    (left : ∀ how steps, post (.some how) steps → whole (.some how) steps)
    (before : ∀ how steps more, post none steps → whole how more → whole how (steps ++ more))
    (leftStores : ∀ how steps, stores (.some how) steps → whole (.some how) steps)
    (behind : ∀ how steps more, stores none steps → post how more → whole how (steps ++ more)) :
    upload.Ensures whole := by
  have calls (name : Call) (member : besideStore name) := made name member
  unfold besideStore at calls
  apply (calls .getByName (by simp)).andThen ?_ left before
  intro _
  apply tested.andThen ?_ left before
  intro _
  apply (calls .connect (by simp)).andThen ?_ left before
  intro _
  apply (calls .login (by simp)).andThen ?_ left before
  intro _
  apply testedConnected.andThen ?_ left before
  intro _
  apply (calls .changeWorkingDirectory (by simp)).andThen ?_ left before
  intro _
  apply (calls .openFile (by simp)).andThen ?_ left before
  intro _
  apply testedConnected.andThen ?_ left before
  intro _
  apply stored.andThen ?_ leftStores behind
  intro _
  apply Job.Ensures.seq composes testedConnected
  intro _
  apply Job.Ensures.seq composes (calls .closeFile (by simp))
  intro _
  apply Job.Ensures.seq composes (calls .logout (by simp))
  intro _
  apply Job.Ensures.seq composes (calls .disconnect (by simp))
  intro _
  exact tested

end Parts

/-! ## The job -/

/-- A call whose exceptions are never answered. -/
theorem call_settles {name : Call} (uncut : ∀ thrown, (Step.call name thrown).isCut = false)
    (never : ∀ what, answered name what = false) : (call name).Ensures Settles := by
  have tries : (call name).Ensures (Tries (· = name)) := call_tries uncut rfl
  refine tries.mono fun how steps outcome => ?_
  cases how with
  | none => exact outcome
  | some exit =>
    cases exit with
    | returned => exact outcome.elim
    | thrown what =>
      obtain ⟨guarded, balanced, _, rfl, count⟩ := outcome
      rw [never, if_neg Bool.false_ne_true] at count
      refine ⟨guarded, ?_, balanced⟩
      omega

/-- A broadcast that answers an exception. -/
theorem settles_failure {steps : List Step} (guarded : Guarded steps) (balanced : Balanced 0 steps)
    (answered : unanswered steps = 0) (text : ErrorText) :
    Settles (.some .returned) (steps ++ [Step.failure text]) := by
  unfold Balanced at balanced
  have failed : terminals [.failure text] = 1 := rfl
  have uncut : cuts [.failure text] = 0 := rfl
  have unseen : sightings [.failure text] = 0 := rfl
  have thrown : unanswered [.failure text] = 0 := rfl
  refine ⟨guarded.append_quiet uncut unseen ?_, Or.inl ⟨?_, ?_⟩⟩
  · intro step member
    rw [List.mem_singleton.mp member]
    rfl
  · rw [unanswered_append, answered, thrown]
  · unfold Balanced
    rw [terminals_append, cuts_append, sightings_append, failed, uncut, unseen]
    omega

/-- A `try` whose handler broadcasts what is answered and passes on what is not. -/
theorem catching_settles {body : Part Unit} {calls : Call → Prop}
    (tries : body.Ensures (Tries calls))
    {handler : Thrown → Part Unit}
    (broadcast : ∀ what, ∃ text, ∀ name, calls name → answered name what = true →
      handler what = (errorModalBox text >>= fun _ => Job.exit .returned))
    (passed : ∀ what, ∃ other, ∀ name, calls name → answered name what = false →
      handler what = Job.exit (.thrown other)) : (catching body handler).Ensures Settles := by
  refine tries.handle (fun _ => id) fun how steps outcome => ?_
  cases how with
  | returned => exact outcome.elim
  | thrown what =>
    obtain ⟨guarded, balanced, name, member, count⟩ := outcome
    show Job.Ensures (handler what) _
    cases table : answered name what with
    | true =>
      obtain ⟨text, same⟩ := broadcast what
      rw [table, if_pos rfl] at count
      rw [same name member table]
      intro environment history
      exact settles_failure guarded balanced count text
    | false =>
      obtain ⟨other, same⟩ := passed what
      rw [table, if_neg Bool.false_ne_true] at count
      rw [same name member table]
      intro environment history
      show Settles (.some (.thrown other)) (steps ++ [])
      rw [List.append_nil]
      exact ⟨guarded, by omega, balanced⟩

/-- The calls of the inner `try` of the capture. -/
def usbCalls (name : Call) : Prop := name = .findDevice ∨ name = .openDevice

theorem tryOpenUsb_tries : tryOpenUsb.Ensures (Tries usbCalls) :=
  tryOpenUsb_ensures (tries_composes _) (checkAbort_passes fun _ => id)
    (call_tries (fun _ => rfl) (Or.inl rfl)) (call_tries (fun _ => rfl) (Or.inr rfl))

/-- The inner `try` of the capture. -/
theorem openUsb_settles : openUsb.Ensures Settles := by
  have table {name : Call} (member : usbCalls name) (what : Thrown) :
      answered name what = decide (what = .runtime true) := by
    rcases member with rfl | rfl <;> rfl
  apply catching_settles tryOpenUsb_tries
  · intro what
    refine ⟨.ofMessage, fun name member shown => ?_⟩
    rw [table member, decide_eq_true_eq] at shown
    rw [shown]
    rfl
  · intro what
    by_cases runtime : what.isRuntimeException = true
    · refine ⟨.numberFormat, fun name member hidden => ?_⟩
      rw [table member, decide_eq_false_iff_not] at hidden
      rw [if_pos runtime, if_neg hidden]
    · exact ⟨what, fun name member hidden => if_neg runtime⟩

theorem checkAbort_settles : checkAbort.Ensures Settles := checkAbort_passes fun _ => id

theorem settles_onlyFailure (text : ErrorText) : Settles (.some .returned) [.failure text] := by
  have guarded : Guarded [] := ⟨Nat.le_refl _, Or.inr fun _ member => (nomatch member)⟩
  have balanced : Balanced 0 [] := rfl
  exact settles_failure guarded balanced rfl text

/-- The capture. -/
theorem capture_settles : capture.Ensures Settles :=
  capture_ensures settles_composes checkAbort_settles openUsb_settles
    (call_settles (fun _ => rfl) fun _ => rfl) (settles_onlyFailure .failedToOpenDevice)

/-- The capture with its handler, which answers nothing with a broadcast. -/
theorem captureOrFinish_settles : captureOrFinish.Ensures Settles := by
  refine capture_settles.handle (fun _ => id) fun how steps outcome => ?_
  cases how with
  | returned =>
    intro environment history
    show Settles (.some .returned) (steps ++ [])
    rw [List.append_nil]
    exact outcome
  | thrown what =>
    obtain ⟨guarded, unansweredBefore, balanced⟩ := outcome
    show Job.Ensures (if what.isException then _ else _) _
    by_cases exception : what.isException = true
    · rw [if_pos exception]
      intro environment history
      have finished := call_eq .finishWithError environment history
      have guardedAfter (thrown : Option Thrown) :
          Guarded (steps ++ [Step.call .finishWithError thrown]) := by
        apply guarded.append_quiet rfl rfl
        intro step member
        rw [List.mem_singleton.mp member]
        rfl
      have balancedAfter (thrown : Option Thrown) :
          Balanced 0 (steps ++ [Step.call .finishWithError thrown]) := by
        unfold Balanced at balanced ⊢
        rw [terminals_append, cuts_append, sightings_append]
        exact balanced
      have unansweredAfter (thrown : Option Thrown) :
          0 < unanswered (steps ++ [Step.call .finishWithError thrown]) := by
        rw [unanswered_append]
        exact Nat.lt_of_lt_of_le unansweredBefore (Nat.le_add_right _ _)
      cases thrown : environment.thrown history .finishWithError with
      | none =>
        rw [thrown] at finished
        rw [Job.bind_ok finished]
        exact ⟨guardedAfter none, Or.inr ⟨unansweredAfter none, balancedAfter none⟩⟩
      | some other =>
        rw [thrown] at finished
        rw [Job.bind_error finished]
        exact ⟨guardedAfter _, unansweredAfter _, balancedAfter _⟩
    · rw [if_neg exception]
      intro environment history
      show Settles (.some (.thrown what)) (steps ++ [])
      rw [List.append_nil]
      exact ⟨guarded, unansweredBefore, balanced⟩

/-- The calls of the upload. -/
def ftpCalls (name : Call) : Prop := ∀ what, answered name what = what.isIOException

/-- The loop around `storeUniqueFile`. -/
theorem storeFile_tries (tries : ℕ) : (storeFile tries).Ensures (Tries ftpCalls) := by
  have once : (call .storeUniqueFile).Ensures (Tries ftpCalls) :=
    call_tries (fun _ => rfl) fun _ => rfl
  induction tries with
  | zero => exact once
  | succ tries ih =>
    intro environment history
    have here := call_eq .storeUniqueFile environment history
    have direct := once environment history
    rw [storeFile, catching]
    cases thrown : environment.thrown history .storeUniqueFile with
    | none =>
      rw [thrown] at here
      rw [here] at direct
      rw [Job.handle_ok here]
      exact direct
    | some what =>
      rw [thrown] at here
      rw [here] at direct
      rw [Job.handle_error here]
      dsimp only
      by_cases again : what.isIOException = true
      · have passes : Passes [.call .storeUniqueFile (.some what)] := by
          refine ⟨rfl, ?_, rfl⟩
          rw [unanswered_throw]
          exact if_pos again
        rw [if_pos again]
        exact (tries_composes ftpCalls).append passes (ih environment _)
      · rw [if_neg again]
        exact direct

theorem upload_tries : upload.Ensures (Tries ftpCalls) := by
  have composes := tries_composes ftpCalls
  refine upload_ensures composes (checkAbort_passes fun _ => id)
    (checkAbortConnected_tries (fun _ => rfl) fun _ => rfl) ?_ (storeFile_tries _)
    (fun _ _ => id) (fun _ _ _ => composes.append) (fun _ _ => id) fun _ _ _ => composes.append
  · intro name member
    rcases member with rfl | rfl | rfl | rfl | rfl | rfl | rfl | rfl
    all_goals exact call_tries (fun _ => rfl) fun _ => rfl

/-- The upload with its handlers. -/
theorem uploadOrFail_settles : uploadOrFail.Ensures Settles := by
  apply catching_settles upload_tries
  · intro what
    refine ⟨uploadError what, fun name member shown => ?_⟩
    rw [member] at shown
    exact if_pos shown
  · intro what
    refine ⟨what, fun name member hidden => ?_⟩
    rw [member] at hidden
    rw [hidden]
    rfl

/-- The values for the message. -/
theorem showValues_settles : showValues.Ensures Settles := by
  intro environment history
  have here := call_eq .messageValues environment history
  rw [showValues, catching]
  cases thrown : environment.thrown history .messageValues with
  | none =>
    rw [thrown] at here
    rw [Job.handle_ok (Job.bind_ok here)]
    exact ⟨rfl, rfl, rfl⟩
  | some what =>
    rw [thrown] at here
    have table := unanswered_throw .messageValues what
    rw [Job.handle_error (Job.bind_error here)]
    dsimp only
    by_cases caught : (what = .numberFormat || what = .arrayIndexOutOfBounds) = true
    · rw [if_pos caught]
      refine ⟨rfl, ?_, rfl⟩
      show unanswered ([_] ++ []) = 0
      rw [List.append_nil, table]
      exact if_pos caught
    · rw [if_neg caught]
      show Settles (.some (.thrown what)) _
      refine ⟨⟨Nat.le_refl _, Or.inr (sendsNothing_of_none rfl)⟩, ?_, rfl⟩
      show 0 < unanswered ([_] ++ [])
      rw [List.append_nil, table, if_neg (show ¬answered .messageValues what = true from caught)]
      exact Nat.one_pos

/-- The response. -/
theorem readResponse_settles : readResponse.Ensures Settles :=
  readResponse_ensures settles_composes checkAbort_settles
    (call_settles (fun _ => rfl) fun _ => rfl) (call_settles (fun _ => rfl) fun _ => rfl)
    showValues_settles

/-- The post of a sample. -/
theorem postSample_settles : postSample.Ensures Settles := by
  apply Job.Ensures.seq settles_composes (call_settles (fun _ => rfl) fun _ => rfl)
  intro _
  apply Job.Ensures.seq settles_composes (call_settles (fun _ => rfl) fun _ => rfl)
  intro _
  apply Job.Ensures.seq settles_composes checkAbort_settles
  intro _
  exact call_settles (fun _ => rfl) fun _ => rfl

/-- All of the job but its last statement. -/
theorem collectSample_settles : collectSample.Ensures Settles := by
  apply Job.Ensures.seq settles_composes (call_settles (fun _ => rfl) fun _ => rfl)
  intro _
  apply Job.Ensures.seq settles_composes checkAbort_settles
  intro _
  apply Job.Ensures.seq settles_composes checkAbort_settles
  intro _
  apply Job.Ensures.seq settles_composes captureOrFinish_settles
  intro _
  apply Job.Ensures.seq settles_composes (.ask settles_composes _)
  intro procLocal
  have rest : (readResponse >>= fun found => if found then postSample else pure ()).Ensures
      Settles := by
    apply Job.Ensures.seq settles_composes readResponse_settles
    intro found
    cases found with
    | false => exact .pure settles_composes _
    | true => exact postSample_settles
  cases procLocal with
  | true =>
    exact Job.Ensures.seq settles_composes (call_settles (fun _ => rfl) fun _ => rfl) fun _ => rest
  | false => exact Job.Ensures.seq settles_composes uploadOrFail_settles fun _ => rest

/-- The steps of the whole job. -/
theorem steps_settle (environment : Environment) :
    Guarded (steps environment) ∧ Balanced (if unanswered (steps environment) = 0 then 1 else 0)
      (steps environment) := by
  have outcome := collectSample_settles environment []
  unfold steps
  rw [onHandleIntent]
  cases result : collectSample environment [] with
  | mk value collected =>
    rw [result] at outcome
    cases value with
    | error how =>
      rw [Job.bind_error result]
      cases how with
      | returned =>
        obtain ⟨guarded, ⟨none, balanced⟩ | ⟨some, balanced⟩⟩ := outcome
        · rw [if_pos none]
          exact ⟨guarded, balanced⟩
        · rw [if_neg (Nat.ne_of_gt some)]
          exact ⟨guarded, balanced⟩
      | thrown what =>
        obtain ⟨guarded, some, balanced⟩ := outcome
        rw [if_neg (Nat.ne_of_gt some)]
        exact ⟨guarded, balanced⟩
    | ok value =>
      have passes : Passes collected := outcome
      have balanced := passes.balanced
      have whole := passes.whole
      have answered : unanswered (collected ++ [Step.completeOk]) = 0 := by
        rw [unanswered_append, passes.answered]
        rfl
      have completed : terminals [.completeOk] = 1 := rfl
      have uncut : cuts [.completeOk] = 0 := rfl
      have unseen : sightings [.completeOk] = 0 := rfl
      rw [Job.bind_ok result]
      show Guarded (collected ++ [Step.completeOk]) ∧
        Balanced (if unanswered (collected ++ [Step.completeOk]) = 0 then 1 else 0)
          (collected ++ [Step.completeOk])
      rw [if_pos answered]
      unfold Guarded Balanced at *
      rw [terminals_append, cuts_append, sightings_append, completed, uncut, unseen]
      refine ⟨⟨by omega, ?_⟩, by omega⟩
      by_cases seen : sightings collected = 0
      · right
        apply sendsNothing_of_none
        rw [sightings_append, seen, unseen]
      · left
        omega

end FcTpms.Job
