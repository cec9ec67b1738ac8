import FcTpms.Job.SdrFtpService

/-!
# The upload loop of `SdrFtpService.onHandleIntent`

The recording is sent from one `BufferedInputStream`, which all attempts share: an attempt sends
what the attempts before it have left of the stream.
-/

namespace FcTpms.Job

/-- The exceptions that the loop catches. -/
inductive UploadException where
  /-- `FTPConnectionClosedException`. -/
  | connectionClosed
  /-- `CopyStreamException`. -/
  | copyStream
  /-- Another `IOException`. -/
  | io
  deriving DecidableEq

/-- What becomes of one call of `storeUniqueFile`. -/
inductive Attempt where
  /-- It sends the rest of the stream, and the server stores it. -/
  | stored
  /-- It returns `false` after it has sent so many bytes. -/
  | refused (sent : ℕ)
  /-- It throws after it has sent so many bytes. -/
  | thrown (what : UploadException) (sent : ℕ)
  deriving DecidableEq

/-- The rest of `buffIn` after an attempt. -/
def Attempt.rest (attempt : Attempt) (buffIn : List UInt8) : List UInt8 :=
  match attempt with
  | .stored => []
  | .refused sent => buffIn.drop sent
  | .thrown _ sent => buffIn.drop sent

/-- The stream, the files that the server has stored, and the number of attempts. -/
structure Upload where
  buffIn : List UInt8
  server : List (List UInt8)
  attempts : ℕ
  deriving DecidableEq

/-- `ftpClient.storeUniqueFile(buffIn)`. -/
def Upload.storeUniqueFile (upload : Upload) (attempt : Attempt) : Upload where
  buffIn := attempt.rest upload.buffIn
  server := if attempt = .stored then upload.server ++ [upload.buffIn] else upload.server
  attempts := upload.attempts + 1

/-- How the loop is left. -/
inductive UploadExit where
  /-- `uploaded` is true. -/
  | uploaded
  /-- `throw e`. -/
  | rethrown (what : UploadException)
  deriving DecidableEq

/-- `while (uploaded == false)`, for a number of rounds. The result of `storeUniqueFile` is not
used, and the three handlers do the same with `count`. -/
def uploadLoop (attempts : ℕ → Attempt) : ℕ → ℕ → Upload → Option (UploadExit × Upload)
  | 0, _, _ => none
  | rounds + 1, count, upload =>
    let attempt := attempts upload.attempts
    let later := upload.storeUniqueFile attempt
    match attempt with
    | .thrown what _ =>
      if count + 1 = maxTries then some (.rethrown what, later)
      else uploadLoop attempts rounds (count + 1) later
    | .stored | .refused _ => some (.uploaded, later)

/-- The loop for a recording. -/
def uploadRecording (attempts : ℕ → Attempt) (rounds : ℕ) (recording : List UInt8) :
    Option (UploadExit × Upload) :=
  uploadLoop attempts rounds 0 ⟨recording, [], 0⟩

end FcTpms.Job
