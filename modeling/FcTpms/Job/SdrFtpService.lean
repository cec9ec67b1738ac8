import FcTpms.Machine.Interaction

/-!
# `SdrFtpService.onHandleIntent`

A job records, analyses or uploads the recording, and posts the sample that was found. Each of the
calls it makes may throw, and `abort_requested` may have any value whenever it is tested. The steps
of a job are these tests and calls, and its broadcasts. Status messages are left out.
-/

namespace FcTpms.Job

open Machine

/-- What a call throws. -/
inductive Thrown where
  /-- A `NumberFormatException`. -/
  | numberFormat
  /-- An `ArrayIndexOutOfBoundsException`. -/
  | arrayIndexOutOfBounds
  /-- Another `RuntimeException`, and whether its message is the number of a text, as it is for
  those that `UsbHelper` throws. -/
  | runtime (textNumber : Bool)
  /-- An `UnknownHostException`. -/
  | unknownHost
  /-- A `FileNotFoundException`. -/
  | fileNotFound
  /-- Another `IOException`, such as an `FTPConnectionClosedException` or a
  `CopyStreamException`. -/
  | io
  /-- What is not an `Exception`, such as an `UnsatisfiedLinkError`. -/
  | error
  deriving DecidableEq

namespace Thrown

/-- `instanceof RuntimeException`. -/
def isRuntimeException : Thrown → Bool
  | .numberFormat | .arrayIndexOutOfBounds | .runtime _ => true
  | _ => false

/-- `instanceof IOException`. -/
def isIOException : Thrown → Bool
  | .unknownHost | .fileNotFound | .io => true
  | _ => false

/-- `instanceof Exception`. -/
def isException : Thrown → Bool
  | .error => false
  | _ => true

end Thrown

/-- The calls that may throw. -/
inductive Call where
  /-- The parameters of the intent, with `Integer.parseInt`. -/
  | parseParameters
  /-- `UsbHelper.findDevice`. -/
  | findDevice
  /-- `UsbHelper.openDevice`. -/
  | openDevice
  /-- `RtlSdr.open`. -/
  | rtlSdrOpen
  /-- `activity.finishWithError`. -/
  | finishWithError
  /-- `analyzeFile`. -/
  | analyzeFile
  /-- `InetAddress.getByName`. -/
  | getByName
  /-- `ftpClient.connect`. -/
  | connect
  /-- `ftpClient.login`. -/
  | login
  /-- `ftpClient.changeWorkingDirectory` and `setFileType`. -/
  | changeWorkingDirectory
  /-- `new FileInputStream(fn)`. -/
  | openFile
  /-- `ftpClient.storeUniqueFile`. -/
  | storeUniqueFile
  /-- `buffIn.close`. -/
  | closeFile
  /-- `ftpClient.logout`. -/
  | logout
  /-- `ftpClient.disconnect`. -/
  | disconnect
  /-- `ftpClient.logout` after an abort was requested. -/
  | abortLogout
  /-- `ftpClient.disconnect` after an abort was requested. -/
  | abortDisconnect
  /-- `Integer.parseInt(resp.split(" ")[0])`. -/
  | parseCode
  /-- The part of `resp` with the three values. -/
  | relevantResponse
  /-- `getHexAddr`, `getTempC`, `getTempF`, `getPsi` and `getKpa` for the message. -/
  | messageValues
  /-- `Volley.newRequestQueue`. -/
  | newRequestQueue
  /-- `getFullUrl`. -/
  | getFullUrl
  /-- `queue.add`. -/
  | queueAdd
  deriving DecidableEq

/-- The text of an error, by the name of the resource. -/
inductive ErrorText where
  /-- The text whose number `UsbHelper` throws. -/
  | ofMessage
  /-- `exception_FAILED_TO_OPEN_DEVICE`. -/
  | failedToOpenDevice
  /-- `exception_NO_FTP_SERVER`. -/
  | noFtpServer
  /-- `exception_RTLSDR_FILE_NOT_SAVED`. -/
  | rtlsdrFileNotSaved
  /-- `exception_NO_NETWORK_ACCESS`. -/
  | noNetworkAccess
  deriving DecidableEq

/-- A step of a job. -/
inductive Step where
  /-- A test of `abort_requested`. -/
  | check (requested : Bool)
  /-- A call, and what it threw. -/
  | call (name : Call) (thrown : Option Thrown)
  /-- A broadcast of `EXTENDED_DATA_COMPLETEOK`. -/
  | completeOk
  /-- A broadcast of `EXTENDED_DATA_FAILURE`. -/
  | failure (text : ErrorText)
  deriving DecidableEq

/-- How a job, or a part of it, is left before its end. -/
inductive Exit where
  /-- `return`. -/
  | returned
  /-- By an exception. -/
  | thrown (what : Thrown)
  deriving DecidableEq

/-- The environment of a job: the user, the calls, and the data that decide its way. -/
structure Environment where
  /-- `activity.abort_requested` after these steps. -/
  requested : List Step → Bool
  /-- What a call throws after these steps. -/
  thrown : List Step → Call → Option Thrown
  /-- `testing`. -/
  testing : Bool
  /-- `procLocal`. -/
  procLocal : Bool
  /-- `connection != null`. -/
  connected : Bool
  /-- `resp_code == 226`. -/
  complete : Bool
  /-- `resp.length() > 14`. -/
  long : Bool

/-- A part of the job. -/
abbrev Part (α : Type) : Type := Machine.Job Environment Step Exit α

/-- A call. -/
def call (name : Call) : Part Unit := do
  let thrown ← Job.ask fun environment history => environment.thrown history name
  Job.emit (.call name thrown)
  match thrown with
  | none => pure ()
  | .some what => Job.exit (.thrown what)

/-- `abort_requested()`. -/
def abortRequested : Part Bool := do
  let requested ← Job.ask fun environment history => environment.requested history
  Job.emit (.check requested)
  pure requested

/-- `completeOk`. -/
def completeOk : Part Unit := Job.emit .completeOk

/-- `errorModalBox`. -/
def errorModalBox (text : ErrorText) : Part Unit := Job.emit (.failure text)

/-- `if (abort_requested()) { try { completeOk(); } catch (InterruptedException e) { } }`. -/
def checkAbort : Part Unit := do
  if ← abortRequested then completeOk

/-- `completeOk` while the FTP client is connected. -/
def completeOkConnected : Part Unit := do
  call .abortLogout
  call .abortDisconnect
  completeOk

/-- The same test while the FTP client is connected. -/
def checkAbortConnected : Part Unit := do
  if ← abortRequested then completeOkConnected

/-- A `try` with the handlers of its exceptions. -/
def catching {α : Type} (body : Part α) (handler : Thrown → Part α) : Part α :=
  Job.handle body fun
    | .thrown what => handler what
    | .returned => Job.exit .returned

/-- The body of the inner `try` of the capture. -/
def tryOpenUsb : Part Unit := do
  checkAbort
  call .findDevice
  call .openDevice
  checkAbort

/-- The inner `try` of the capture. A message that is not the number of a text throws in the
handler. -/
def openUsb : Part Unit :=
  catching tryOpenUsb fun what =>
    if what.isRuntimeException then
      if what = .runtime true then do
        errorModalBox .ofMessage
        Job.exit .returned
      else Job.exit (.thrown .numberFormat)
    else Job.exit (.thrown what)

/-- The capture, in its `try`. -/
def capture : Part Unit := do
  if ← Job.ask fun environment _ => environment.testing then
    checkAbort
    call .rtlSdrOpen
    checkAbort
  else
    openUsb
    if ← Job.ask fun environment _ => !environment.connected then
      errorModalBox .failedToOpenDevice
      Job.exit .returned
    checkAbort
    call .rtlSdrOpen
    checkAbort

/-- The capture, with its handler. -/
def captureOrFinish : Part Unit :=
  catching capture fun what =>
    if what.isException then do
      call .finishWithError
      Job.exit .returned
    else Job.exit (.thrown what)

/-- The loop around `storeUniqueFile`, with so many more tries after the first one. -/
def storeFile : ℕ → Part Unit
  | 0 => call .storeUniqueFile
  | tries + 1 =>
    catching (call .storeUniqueFile) fun what =>
      if what.isIOException then storeFile tries else Job.exit (.thrown what)

/-- `maxTries`. -/
def maxTries : ℕ := 3

/-- The upload, in its `try`. -/
def upload : Part Unit := do
  call .getByName
  checkAbort
  call .connect
  call .login
  checkAbortConnected
  call .changeWorkingDirectory
  call .openFile
  checkAbortConnected
  storeFile (maxTries - 1)
  checkAbortConnected
  call .closeFile
  call .logout
  call .disconnect
  checkAbort

/-- The texts of the handlers of the upload. -/
def uploadError : Thrown → ErrorText
  | .unknownHost => .noFtpServer
  | .fileNotFound => .rtlsdrFileNotSaved
  | _ => .noNetworkAccess

/-- The upload, with its handlers. -/
def uploadOrFail : Part Unit :=
  catching upload fun what =>
    if what.isIOException then do
      errorModalBox (uploadError what)
      Job.exit .returned
    else Job.exit (.thrown what)

/-- The values for the message, with `found`. -/
def showValues : Part Bool :=
  catching (do call .messageValues; pure true) fun what =>
    if what = .numberFormat || what = .arrayIndexOutOfBounds then pure false
    else Job.exit (.thrown what)

/-- The response, with `found`. -/
def readResponse : Part Bool := do
  call .parseCode
  if ← Job.ask fun environment _ => environment.complete then
    call .relevantResponse
    checkAbort
    if ← Job.ask fun environment _ => environment.long then showValues
    else pure false
  else pure false

/-- The post of a sample that was found. -/
def postSample : Part Unit := do
  call .newRequestQueue
  call .getFullUrl
  checkAbort
  call .queueAdd

/-- `onHandleIntent`, without its last statement. -/
def collectSample : Part Unit := do
  call .parseParameters
  checkAbort
  checkAbort
  captureOrFinish
  if ← Job.ask fun environment _ => environment.procLocal then call .analyzeFile
  else uploadOrFail
  if ← readResponse then postSample

/-- `onHandleIntent`. -/
def onHandleIntent : Part Unit := do
  collectSample
  completeOk

/-- The steps of a job. -/
def steps (environment : Environment) : List Step := (onHandleIntent environment []).2

end FcTpms.Job
