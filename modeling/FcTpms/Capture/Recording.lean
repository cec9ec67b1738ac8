import FcTpms.Capture.Tuner
import FcTpms.Machine.Feed

/-!
# The capture loop of `rtlsdr_main`

The loop reads blocks from the device and writes them to a file until the requested number of
bytes is there. `bytes_to_read` counts what is still to be written; at `0` the loop writes without
limit. With `autoreduce_gain` set, a block that ends a row of saturated samples makes the loop
lower the gain and start the file again from its beginning, without truncating it.
-/

namespace FcTpms.Capture

open Machine

/-- `MINIMAL_BUF_LENGTH`. -/
def minimalBufLength : ℕ := 512

/-- `MAXIMAL_BUF_LENGTH`. -/
def maximalBufLength : ℕ := 256 * 16384

/-- `DEFAULT_BUF_LENGTH`. -/
def defaultBufLength : ℕ := 16 * 16384

/-- `CONSEC_PEG_VALUES_ALLOWED`. -/
def consecPegValuesAllowed : ℕ := 6

/-- The block size the loop uses for the one that was asked for. -/
def acceptedBlockSize (outBlockSize : ℕ) : ℕ :=
  if outBlockSize < minimalBufLength ∨ maximalBufLength < outBlockSize then defaultBufLength
  else outBlockSize

/-- A block of the size that is used is neither too small nor too large. -/
theorem acceptedBlockSize_bounds (outBlockSize : ℕ) :
    minimalBufLength ≤ acceptedBlockSize outBlockSize ∧
      acceptedBlockSize outBlockSize ≤ maximalBufLength := by
  unfold acceptedBlockSize
  split
  · decide
  · omega

/-- The file under construction and the position in it. -/
structure OutputFile where
  /-- The bytes of the file. -/
  contents : List UInt8
  /-- The position of the next byte. -/
  position : ℕ
  /-- The position is inside the file or at its end. -/
  inside : position ≤ contents.length

namespace OutputFile

/-- The file after `fopen` with `"wb"`. -/
def empty : OutputFile := ⟨[], 0, Nat.le_refl 0⟩

/-- Write bytes at the position, over those that are there. -/
def write (file : OutputFile) (bytes : List UInt8) : OutputFile where
  contents := file.contents.take file.position ++ bytes ++
    file.contents.drop (file.position + bytes.length)
  position := file.position + bytes.length
  inside := by
    have inside := file.inside
    rw [List.length_append, List.length_append, List.length_take, Nat.min_eq_left inside]
    omega

/-- `rewind`. -/
def rewind (file : OutputFile) : OutputFile := ⟨file.contents, 0, Nat.zero_le _⟩

end OutputFile

/-- What the loop was started with. -/
structure Settings where
  /-- `out_block_size`, after the fallback. -/
  outBlockSize : ℕ
  /-- A block is not too small. -/
  minimal : minimalBufLength ≤ outBlockSize
  /-- A block is not too large. -/
  maximal : outBlockSize ≤ maximalBufLength
  /-- `orig_bytes_to_read`. -/
  origBytesToRead : ℕ
  /-- It is an `uint32_t`. -/
  representable : origBytesToRead < 2 ^ 32
  /-- `autoreduce_gain == 1`. -/
  autoreduceGain : Bool

/-- The settings from the command line. -/
def Settings.ofArguments (outBlockSize bytesToRead : ℕ) (representable : bytesToRead < 2 ^ 32)
    (autoreduceGain : Bool) : Settings where
  outBlockSize := acceptedBlockSize outBlockSize
  minimal := (acceptedBlockSize_bounds outBlockSize).1
  maximal := (acceptedBlockSize_bounds outBlockSize).2
  origBytesToRead := bytesToRead
  representable
  autoreduceGain

/-- What the world does in one round of the loop. -/
structure Transfer where
  /-- The answer of `rtlsdr_read_sync`. -/
  status : ℤ
  /-- The bytes read, `n_read` many. -/
  buffer : List UInt8
  /-- How many bytes the file takes. -/
  room : ℕ

/-- The variables of the loop at the start of a round, where `do_exit` is not set. -/
structure State where
  /-- `bytes_to_read`. -/
  bytesToRead : ℕ
  /-- `consec_peg_values`. -/
  consecPegValues : ℕ
  /-- The tuner. -/
  tuner : Tuner
  /-- The file. -/
  file : OutputFile

/-- Why the loop was left. -/
inductive Ending where
  /-- `do_exit` was set. -/
  | requested
  /-- `rtlsdr_read_sync` failed. -/
  | readFailed
  /-- "Short write". -/
  | shortWrite
  /-- "Short read". -/
  | shortRead
  deriving DecidableEq

/-- The counting loop over the first bytes of the samples of a block. -/
def countPegs : List UInt8 → ℕ → ℕ
  | first :: _ :: rest, consec =>
    if consec ≤ consecPegValuesAllowed then
      countPegs rest (if first = 0xFF ∨ first = 0x0 then consec + 1 else 0)
    else consec
  | _, consec => consec

section Loop

variable (formats : Formats) (settings : Settings)

/-- The saturation counter after a block has been looked at. -/
def pegsAfter (state : State) (transfer : Transfer) : ℕ :=
  if settings.autoreduceGain then countPegs transfer.buffer state.consecPegValues
  else state.consecPegValues

/-- The gain is to be lowered. -/
def Saturated (state : State) (transfer : Transfer) : Prop :=
  settings.autoreduceGain = true ∧
    consecPegValuesAllowed < pegsAfter settings state transfer

instance (state : State) (transfer : Transfer) : Decidable (Saturated settings state transfer) :=
  inferInstanceAs (Decidable (_ ∧ _))

/-- The tuner after the saturation test of a block. -/
def tunerAfter (state : State) (transfer : Transfer) : Tuner :=
  if Saturated settings state transfer then state.tuner.decreaseGain.1 else state.tuner

/-- The restart branch is taken: the block was read, is saturated, and `old_gain` is not what
`rtlsdr_decrease_gain` returns. -/
def Restarts (state : State) (transfer : Transfer) : Prop :=
  0 ≤ transfer.status ∧ Saturated settings state transfer ∧
    formats.oldGain state.tuner.gain ≠ formats.newGain state.tuner.decreaseGain.2

instance (state : State) (transfer : Transfer) :
    Decidable (Restarts formats settings state transfer) :=
  inferInstanceAs (Decidable (_ ∧ _ ∧ _))

/-- The restart branch. -/
def restarted (state : State) (transfer : Transfer) : State where
  bytesToRead := settings.origBytesToRead
  consecPegValues := 0
  tuner := tunerAfter settings state transfer
  file := state.file.rewind

/-- How many bytes of a block are written: `n_read` after the stop test. -/
def taken (state : State) (transfer : Transfer) : ℕ :=
  if 0 < state.bytesToRead ∧ state.bytesToRead < transfer.buffer.length then state.bytesToRead
  else transfer.buffer.length

/-- The end of the round of a block that is not restarted on: stop test, `fwrite` and the two
tests after it. -/
def recorded (state : State) (transfer : Transfer) : Status State (Ending × State) :=
  let nRead := taken state transfer
  let written := transfer.buffer.take (min nRead transfer.room)
  let later : State :=
    { bytesToRead := state.bytesToRead
      consecPegValues := pegsAfter settings state transfer
      tuner := tunerAfter settings state transfer
      file := state.file.write written }
  if transfer.room < nRead then
    .halted (.shortWrite, later)
  else if nRead < settings.outBlockSize then
    .halted (.shortRead, later)
  else
    let counted := { later with
      bytesToRead := if 0 < state.bytesToRead then state.bytesToRead - nRead else 0 }
    -- `do_exit` is set exactly when the stop test shortened the block.
    if nRead < transfer.buffer.length then .halted (.requested, counted) else .active counted

/-- One round of the loop and the test of `do_exit` after it. -/
def round (state : State) (transfer : Transfer) : Status State (Ending × State) :=
  if transfer.status < 0 then
    .halted (.readFailed, state)
  else if Restarts formats settings state transfer then
    .active (restarted settings state transfer)
  else
    recorded settings state transfer

/-- The variables before the loop. -/
def initial (tuner : Tuner) : State where
  bytesToRead := settings.origBytesToRead
  consecPegValues := 0
  tuner
  file := .empty

/-- The loop after some reads. -/
def captured (tuner : Tuner) (transfers : ℕ → Transfer) : ℕ → Status State (Ending × State) :=
  after (round formats settings) transfers (initial settings tuner)

/-- The restart branch is taken on this read. -/
def RestartsAt (tuner : Tuner) (transfers : ℕ → Transfer) (index : ℕ) : Prop :=
  match captured formats settings tuner transfers index with
  | .active state => Restarts formats settings state (transfers index)
  | .halted _ => False

end Loop

variable {formats : Formats} {settings : Settings} {tuner : Tuner} {transfers : ℕ → Transfer}

/-- The restart branch goes back to the start of the file. -/
theorem round_restarts {state : State} {transfer : Transfer}
    (restarts : Restarts formats settings state transfer) :
    round formats settings state transfer = .active (restarted settings state transfer) := by
  unfold round
  rw [if_neg (not_lt.mpr restarts.1), if_pos restarts]

/-- The loop after one more read. -/
theorem captured_succ {index : ℕ} {state : State}
    (active : captured formats settings tuner transfers index = .active state) :
    captured formats settings tuner transfers (index + 1) =
      round formats settings state (transfers index) :=
  after_succ_of_active active

/-- A restart in the state the loop is in. -/
theorem restartsAt_iff {index : ℕ} {state : State}
    (active : captured formats settings tuner transfers index = .active state) :
    RestartsAt formats settings tuner transfers index ↔
      Restarts formats settings state (transfers index) := by
  rw [RestartsAt, active]

/-- A loop that restarts is running. -/
theorem RestartsAt.active {index : ℕ}
    (restart : RestartsAt formats settings tuner transfers index) :
    ∃ state, captured formats settings tuner transfers index = .active state ∧
      Restarts formats settings state (transfers index) := by
  cases found : captured formats settings tuner transfers index with
  | active state => exact ⟨state, rfl, (restartsAt_iff found).mp restart⟩
  | halted result =>
    rw [RestartsAt, found] at restart
    exact restart.elim

instance : DecidablePred (RestartsAt formats settings tuner transfers) := fun index =>
  match found : captured formats settings tuner transfers index with
  | .active _ => decidable_of_iff _ (restartsAt_iff found).symm
  | .halted _ => isFalse fun restart => by
    obtain ⟨state, active, _⟩ := restart.active
    rw [found] at active
    cases active

end FcTpms.Capture
