import FcTpms.Job.Upload
import Mathlib.Data.List.TakeDrop

/-!
# What the server has after the upload

The loop makes at most three attempts, and throws the last exception again if all of them throw. An
attempt after a failed one goes on in the middle of the recording, and a refused one ends the loop
as if it had succeeded.
-/

namespace FcTpms.Job

variable {attempts : ℕ → Attempt} {recording : List UInt8}

/-- The attempt throws. -/
def Attempt.Throws (attempt : Attempt) : Prop := ∃ what sent, attempt = .thrown what sent

/-- The rest of the recording before an attempt. -/
def restBefore (attempts : ℕ → Attempt) (recording : List UInt8) : ℕ → List UInt8
  | 0 => recording
  | number + 1 => (attempts number).rest (restBefore attempts recording number)

/-- Up to an attempt, all have thrown. -/
def ThrowsUpTo (attempts : ℕ → Attempt) (number : ℕ) : Prop :=
  ∀ earlier < number, (attempts earlier).Throws

/-- The upload before an attempt, if all attempts before it have thrown. -/
def uploadBefore (attempts : ℕ → Attempt) (recording : List UInt8) (number : ℕ) : Upload :=
  ⟨restBefore attempts recording number, [], number⟩

/-- The ways in which the loop ends. -/
inductive Ends (attempts : ℕ → Attempt) (recording : List UInt8) : UploadExit × Upload → Prop
  | stored (number : ℕ) (few : number < maxTries) (before : ThrowsUpTo attempts number)
      (stores : attempts number = .stored) :
      Ends attempts recording
        (.uploaded, ⟨[], [restBefore attempts recording number], number + 1⟩)
  | refused (number sent : ℕ) (few : number < maxTries) (before : ThrowsUpTo attempts number)
      (refuses : attempts number = .refused sent) :
      Ends attempts recording
        (.uploaded, ⟨restBefore attempts recording (number + 1), [], number + 1⟩)
  | rethrown (what : UploadException) (sent : ℕ) (before : ThrowsUpTo attempts maxTries)
      (last : attempts (maxTries - 1) = .thrown what sent) :
      Ends attempts recording (.rethrown what, uploadBefore attempts recording maxTries)

/-- One more attempt has thrown. -/
theorem ThrowsUpTo.succ {number sent : ℕ} {what : UploadException}
    (before : ThrowsUpTo attempts number) (throws : attempts number = .thrown what sent) :
    ThrowsUpTo attempts (number + 1) := by
  intro earlier below
  by_cases last : earlier = number
  · rw [last]
    exact ⟨what, sent, throws⟩
  · exact before earlier (by omega)

/-- The upload after an attempt that throws. -/
theorem storeUniqueFile_thrown (recording : List UInt8) {number sent : ℕ} {what : UploadException}
    (throws : attempts number = .thrown what sent) :
    (uploadBefore attempts recording number).storeUniqueFile (attempts number) =
      uploadBefore attempts recording (number + 1) := by
  have notStored : attempts number ≠ .stored := by
    rw [throws]
    exact fun same => by cases same
  simp only [Upload.storeUniqueFile, if_neg notStored]
  rfl

/-- An attempt that returns ends the loop, whatever it returns. -/
theorem uploadLoop_returns {upload : Upload} {attempt : Attempt}
    (made : attempts upload.attempts = attempt) (returns : ∀ what sent, attempt ≠ .thrown what sent)
    (rounds count : ℕ) :
    uploadLoop attempts (rounds + 1) count upload =
      some (.uploaded, upload.storeUniqueFile attempt) := by
  rw [uploadLoop, made]
  cases attempt with
  | stored => rfl
  | refused sent => rfl
  | thrown what sent => exact absurd rfl (returns what sent)

/-- An attempt that throws is the last of three, or the loop goes on. -/
theorem uploadLoop_throws {upload : Upload} {what : UploadException} {sent : ℕ}
    (throws : attempts upload.attempts = .thrown what sent) (rounds count : ℕ) :
    uploadLoop attempts (rounds + 1) count upload =
      if count + 1 = maxTries then
        some (.rethrown what, upload.storeUniqueFile (.thrown what sent))
      else uploadLoop attempts rounds (count + 1) (upload.storeUniqueFile (.thrown what sent)) := by
  rw [uploadLoop, throws]

/-- The loop ends, from every attempt on that it comes to. -/
theorem uploadLoop_ends {rounds number : ℕ} (left : number + rounds = maxTries) (more : 0 < rounds)
    (before : ThrowsUpTo attempts number) :
    ∃ result, uploadLoop attempts rounds number (uploadBefore attempts recording number) =
      some result ∧ Ends attempts recording result := by
  induction rounds generalizing number with
  | zero => omega
  | succ rounds ih =>
    let upload := uploadBefore attempts recording number
    cases attempt : attempts number with
    | stored =>
      have ends : uploadLoop attempts (rounds + 1) number upload = _ :=
        uploadLoop_returns attempt (by simp) rounds number
      exact ⟨_, ends, Ends.stored number (by omega) before attempt⟩
    | refused sent =>
      have later : upload.storeUniqueFile (.refused sent) =
          ⟨restBefore attempts recording (number + 1), [], number + 1⟩ := by
        rw [restBefore, attempt]
        rfl
      have ends : uploadLoop attempts (rounds + 1) number upload = _ :=
        uploadLoop_returns attempt (by simp) rounds number
      rw [later] at ends
      exact ⟨_, ends, Ends.refused number sent (by omega) before attempt⟩
    | thrown what sent =>
      have stepped := storeUniqueFile_thrown recording attempt
      rw [attempt] at stepped
      have goesOn : uploadLoop attempts (rounds + 1) number upload = _ :=
        uploadLoop_throws attempt rounds number
      rw [goesOn, stepped]
      have throws := before.succ attempt
      by_cases last : number + 1 = maxTries
      · rw [if_pos last, last]
        refine ⟨_, rfl, Ends.rethrown what sent (last ▸ throws) ?_⟩
        rw [← last]
        exact attempt
      · rw [if_neg last]
        exact ih (by omega) (by omega) throws

/-- The attempt stores the file, and those before it have thrown without sending any of it. -/
def SendsAll (attempts : ℕ → Attempt) (recording : List UInt8) (number : ℕ) : Prop :=
  attempts number = .stored ∧ ∀ earlier < number, ∃ what sent,
    attempts earlier = .thrown what sent ∧ (sent = 0 ∨ recording = [])

/-- No attempt is refused or goes on behind one that has sent a part. -/
def Unharmed (attempts : ℕ → Attempt) (recording : List UInt8) : Prop :=
  ThrowsUpTo attempts maxTries ∨ ∃ number < maxTries, SendsAll attempts recording number

/-- The loop ends after at most three attempts. If it exits normally, the server has stored one file
with the contents of the recording, and otherwise the exception of the third attempt is thrown. -/
def Complete (attempts : ℕ → Attempt) (recording : List UInt8) : Prop :=
  ∃ exit upload, uploadRecording attempts maxTries recording = some (exit, upload) ∧
    upload.attempts ≤ maxTries ∧
    match exit with
    | .uploaded => upload.server = [recording]
    | .rethrown what => upload.attempts = maxTries ∧
        ∃ sent, attempts (maxTries - 1) = .thrown what sent

/-- What is left is an end of the recording. -/
theorem restBefore_suffix (number : ℕ) : restBefore attempts recording number <:+ recording := by
  induction number with
  | zero => exact List.suffix_refl recording
  | succ number ih =>
    rw [restBefore]
    cases attempts number with
    | stored => exact List.nil_suffix
    | refused sent => exact (List.drop_suffix sent _).trans ih
    | thrown what sent => exact (List.drop_suffix sent _).trans ih

/-- The whole recording is left after an attempt that throws just when it was left before and none
of it has been sent. -/
theorem restBefore_succ_eq_iff {number sent : ℕ} {what : UploadException}
    (throws : attempts number = .thrown what sent) :
    restBefore attempts recording (number + 1) = recording ↔
      restBefore attempts recording number = recording ∧ (sent = 0 ∨ recording = []) := by
  have suffix : restBefore attempts recording number <:+ recording := restBefore_suffix number
  have dropped : restBefore attempts recording (number + 1) =
      (restBefore attempts recording number).drop sent := by
    rw [restBefore, throws, Attempt.rest]
  rw [dropped]
  constructor
  · intro whole
    have lengths := congrArg List.length whole
    have shorter := suffix.length_le
    rw [List.length_drop] at lengths
    have same := suffix.eq_of_length (by omega)
    constructor
    · exact same
    · rw [← List.length_eq_zero_iff]
      omega
  · rintro ⟨same, nothing | empty⟩
    · rw [same, nothing, List.drop_zero]
    · rw [same, empty, List.drop_nil]

/-- The whole recording is left just when no attempt has sent any of it. -/
theorem restBefore_eq_iff {number : ℕ} (before : ThrowsUpTo attempts number) :
    restBefore attempts recording number = recording ↔
      ∀ earlier < number, ∃ what sent,
        attempts earlier = .thrown what sent ∧ (sent = 0 ∨ recording = []) := by
  induction number with
  | zero => simp [restBefore]
  | succ number ih =>
    obtain ⟨what, sent, throws⟩ := before number (by omega)
    rw [restBefore_succ_eq_iff throws, ih fun earlier below => before earlier (by omega)]
    constructor
    · rintro ⟨others, here⟩ earlier below
      by_cases last : earlier = number
      · rw [last]
        exact ⟨what, sent, throws, here⟩
      · exact others earlier (by omega)
    · intro all
      obtain ⟨_, _, again, here⟩ := all number (by omega)
      rw [throws] at again
      injection again with _ same
      rw [← same] at here
      exact ⟨fun earlier below => all earlier (by omega), here⟩

/-- An attempt that does not throw is the one that decides. -/
theorem unharmed_iff {number : ℕ} (few : number < maxTries) (before : ThrowsUpTo attempts number)
    (returns : ¬ (attempts number).Throws) :
    Unharmed attempts recording ↔ SendsAll attempts recording number := by
  constructor
  · rintro (all | ⟨other, _, sends⟩)
    · exact absurd (all number few) returns
    · by_cases same : other = number
      · rwa [← same]
      · by_cases below : other < number
        · obtain ⟨what, sent, throws⟩ := before other below
          rw [sends.1] at throws
          cases throws
        · obtain ⟨what, sent, throws, _⟩ := sends.2 number (by omega)
          exact absurd ⟨what, sent, throws⟩ returns
  · intro sends
    exact Or.inr ⟨number, few, sends⟩

/-- The upload is complete if and only if no attempt is refused or goes on behind one that has sent
a part. -/
theorem uploadRecording_complete_iff (attempts : ℕ → Attempt) (recording : List UInt8) :
    Complete attempts recording ↔ Unharmed attempts recording := by
  have ended : ∃ result, uploadLoop attempts maxTries 0 (uploadBefore attempts recording 0) =
      some result ∧ Ends attempts recording result :=
    uploadLoop_ends (Nat.zero_add maxTries) (by decide) fun _ below =>
      absurd below (Nat.not_lt_zero _)
  obtain ⟨result, runs, ends⟩ := ended
  have only : Complete attempts recording ↔ result.2.attempts ≤ maxTries ∧
      match result.1 with
      | .uploaded => result.2.server = [recording]
      | .rethrown what => result.2.attempts = maxTries ∧
          ∃ sent, attempts (maxTries - 1) = .thrown what sent := by
    constructor
    · rintro ⟨exit, upload, other, holds⟩
      have same : some result = some (exit, upload) := runs.symm.trans other
      rw [Option.some.inj same]
      exact holds
    · intro holds
      exact ⟨result.1, result.2, runs, holds⟩
  rw [only]
  cases ends with
  | stored number few before stores =>
    have returns : ¬ (attempts number).Throws := by
      rintro ⟨what, sent, throws⟩
      rw [stores] at throws
      cases throws
    rw [unharmed_iff few before returns, SendsAll, ← restBefore_eq_iff before]
    simp only [stores, true_and, List.cons.injEq, and_true]
    exact and_iff_right (by omega)
  | refused number sent few before refuses =>
    have returns : ¬ (attempts number).Throws := by
      rintro ⟨what, sent, throws⟩
      rw [refuses] at throws
      cases throws
    rw [unharmed_iff few before returns]
    apply iff_of_false
    · rintro ⟨_, stored⟩
      cases stored
    · rintro ⟨stored, _⟩
      rw [refuses] at stored
      cases stored
  | rethrown what sent before last =>
    exact iff_of_true ⟨Nat.le_refl _, rfl, sent, last⟩ (Or.inl before)

/-- After an attempt that breaks off in the middle, the server stores only the rest of the
recording. -/
theorem uploadRecording_incomplete :
    ¬ Complete (fun number => if number = 0 then .thrown .copyStream 1 else .stored) [17, 34] := by
  rintro ⟨exit, upload, runs, _, holds⟩
  have rest : some (UploadExit.uploaded, (⟨[], [[34]], 2⟩ : Upload)) = some (exit, upload) := runs
  injection rest with rest
  injection rest with uploaded same
  rw [← uploaded, ← same] at holds
  exact absurd holds (by decide)

end FcTpms.Job
