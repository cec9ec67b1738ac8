import FcTpms.Verif.GainReduction

/-!
# The recorded file

From a device that delivers full blocks the capture loop writes whole blocks as long as more than
a block is missing, and cuts the block that completes the file. The cut only happens when fewer
bytes than a block are missing. When exactly one block is missing it is written whole, the count
of missing bytes becomes `0`, and the loop goes on without limit.
-/

namespace FcTpms.Capture

open Machine

/-- A read that fills the block, and a file that takes it. -/
structure FullRead (settings : Settings) (transfer : Transfer) : Prop where
  /-- The read succeeds. -/
  status : 0 ≤ transfer.status
  /-- The block is full. -/
  block : transfer.buffer.length = settings.outBlockSize
  /-- The file takes the block. -/
  room : settings.outBlockSize ≤ transfer.room

/-- The bytes of consecutive reads. -/
def blocks (transfers : ℕ → Transfer) (first : ℕ) : ℕ → List UInt8
  | 0 => []
  | count + 1 => blocks transfers first count ++ (transfers (first + count)).buffer

section Runs

variable (formats : Formats) (settings : Settings) (tuner : Tuner) (transfers : ℕ → Transfer)

/-- The reads from `first` on follow the last restart, or the start if there was none. -/
structure LastRestart (first : ℕ) : Prop where
  /-- The recording begins here. -/
  begun : first = 0 ∨ ∃ index, first = index + 1 ∧ RestartsAt formats settings tuner transfers index
  /-- It is not begun again. -/
  final : ∀ index, first ≤ index → ¬ RestartsAt formats settings tuner transfers index

/-- The loop ends some reads after `first`, and the file holds exactly the first `bytes` bytes
read from there on. -/
def Records (first bytes : ℕ) : Prop :=
  ∃ reads ending state,
    captured formats settings tuner transfers (first + reads) = .halted (ending, state) ∧
      bytes ≤ (blocks transfers first reads).length ∧
      state.file.contents = (blocks transfers first reads).take bytes

end Runs

variable {formats : Formats} {settings : Settings} {tuner : Tuner} {transfers : ℕ → Transfer}

namespace OutputFile

/-- Writing replaces what follows the position. -/
theorem take_write (file : OutputFile) (bytes : List UInt8) :
    (file.write bytes).contents.take (file.position + bytes.length) =
      file.contents.take file.position ++ bytes := by
  have front : (file.contents.take file.position ++ bytes).length =
      file.position + bytes.length := by
    rw [List.length_append, List.length_take, Nat.min_eq_left file.inside]
  rw [← front]
  exact List.take_left

/-- A file grows only when it is written past its end. -/
theorem length_write (file : OutputFile) (bytes : List UInt8) :
    (file.write bytes).contents.length =
      max file.contents.length (file.position + bytes.length) := by
  have inside := file.inside
  have shape : (file.write bytes).contents = file.contents.take file.position ++ bytes ++
      file.contents.drop (file.position + bytes.length) := rfl
  rw [shape, List.length_append, List.length_append, List.length_take, List.length_drop]
  omega

/-- Writing up to the end of the file or beyond. -/
theorem write_to_end (file : OutputFile) (bytes : List UInt8)
    (reaches : file.contents.length ≤ file.position + bytes.length) :
    (file.write bytes).contents = file.contents.take file.position ++ bytes := by
  have whole : (file.write bytes).contents.length = file.position + bytes.length := by
    rw [length_write, Nat.max_eq_right reaches]
  rw [← take_write, ← whole, List.take_length]

end OutputFile

/-- A block has bytes. -/
theorem Settings.block_pos (settings : Settings) : 0 < settings.outBlockSize := by
  have minimal := settings.minimal
  unfold minimalBufLength at minimal
  omega

/-- The bytes of full reads. -/
theorem blocks_length (full : ∀ index, FullRead settings (transfers index)) (first count : ℕ) :
    (blocks transfers first count).length = count * settings.outBlockSize := by
  induction count with
  | zero => rw [blocks, List.length_nil, Nat.zero_mul]
  | succ count ih => rw [blocks, List.length_append, ih, (full _).block, Nat.succ_mul]

/-! ## One round -/

/-- Unless the missing bytes are fewer than a block, a full read is written whole and the loop
goes on. -/
theorem round_whole {state : State} {transfer : Transfer} (full : FullRead settings transfer)
    (stays : ¬ Restarts formats settings state transfer)
    (enough : state.bytesToRead = 0 ∨ settings.outBlockSize ≤ state.bytesToRead) :
    round formats settings state transfer = .active
      { bytesToRead := state.bytesToRead - settings.outBlockSize
        consecPegValues := pegsAfter settings state transfer
        tuner := tunerAfter settings state transfer
        file := state.file.write transfer.buffer } := by
  have block := full.block
  have whole : taken state transfer = settings.outBlockSize := by
    unfold taken
    rw [block]
    exact if_neg (by omega)
  have written : transfer.buffer.take (min settings.outBlockSize transfer.room) =
      transfer.buffer := by
    rw [Nat.min_eq_left full.room, ← block, List.take_length]
  have counted : (if 0 < state.bytesToRead then state.bytesToRead - settings.outBlockSize else 0) =
      state.bytesToRead - settings.outBlockSize := by
    split <;> omega
  unfold round recorded
  rw [if_neg (not_lt.mpr full.status), if_neg stays]
  dsimp only
  rw [whole, if_neg (not_lt.mpr full.room), if_neg (lt_irrefl _), block, if_neg (lt_irrefl _),
    written, counted]

/-- When fewer bytes than a block are missing, they are written and the loop is left. -/
theorem round_cut {state : State} {transfer : Transfer} (full : FullRead settings transfer)
    (stays : ¬ Restarts formats settings state transfer) (missing : 0 < state.bytesToRead)
    (few : state.bytesToRead < settings.outBlockSize) :
    round formats settings state transfer = .halted (.shortRead,
      { bytesToRead := state.bytesToRead
        consecPegValues := pegsAfter settings state transfer
        tuner := tunerAfter settings state transfer
        file := state.file.write (transfer.buffer.take state.bytesToRead) }) := by
  have block := full.block
  have room := full.room
  have cut : taken state transfer = state.bytesToRead := by
    unfold taken
    rw [block]
    exact if_pos ⟨missing, few⟩
  unfold round recorded
  rw [if_neg (not_lt.mpr full.status), if_neg stays]
  dsimp only
  rw [cut, if_neg (by omega), if_pos few, Nat.min_eq_left (by omega)]

/-! ## Whole runs -/

/-- What is missing is a number of whole blocks. -/
theorem keeps_whole (whole : settings.outBlockSize ∣ settings.origBytesToRead) :
    Keeps (round formats settings) (FullRead settings)
      (fun state => settings.outBlockSize ∣ state.bytesToRead) := by
  intro state transfer next full divides stepped
  by_cases restarts : Restarts formats settings state transfer
  · rw [round_restarts restarts, Status.active.injEq] at stepped
    rw [← stepped]
    exact whole
  · have enough : state.bytesToRead = 0 ∨ settings.outBlockSize ≤ state.bytesToRead := by
      by_cases done : state.bytesToRead = 0
      · exact Or.inl done
      · exact Or.inr (Nat.le_of_dvd (Nat.pos_of_ne_zero done) divides)
    rw [round_whole full restarts enough, Status.active.injEq] at stepped
    rw [← stepped]
    exact Nat.dvd_sub divides (dvd_refl _)

/-- A loop that is to record a number of whole blocks never ends. -/
theorem captured_unlimited (full : ∀ index, FullRead settings (transfers index))
    (whole : settings.outBlockSize ∣ settings.origBytesToRead) (count : ℕ) :
    ∃ state, captured formats settings tuner transfers count = .active state := by
  induction count with
  | zero => exact ⟨_, rfl⟩
  | succ count ih =>
    obtain ⟨state, active⟩ := ih
    have divides := (keeps_whole whole).after full whole active
    rw [captured_succ active]
    by_cases restarts : Restarts formats settings state (transfers count)
    · exact ⟨_, round_restarts restarts⟩
    · refine ⟨_, round_whole (full count) restarts ?_⟩
      by_cases done : state.bytesToRead = 0
      · exact Or.inl done
      · exact Or.inr (Nat.le_of_dvd (Nat.pos_of_ne_zero done) divides)

/-- The count of missing bytes and the position add up to the request, there is something
missing, and nothing in the file lies beyond the request. -/
structure Unfinished (settings : Settings) (state : State) : Prop where
  /-- What is written and what is missing make up the request. -/
  total : state.file.position + state.bytesToRead = settings.origBytesToRead
  /-- What is written is a number of whole blocks. -/
  whole : settings.outBlockSize ∣ state.file.position
  /-- No byte lies beyond the request. -/
  short : state.file.contents.length ≤ settings.origBytesToRead

/-- Before the first read nothing is written. -/
theorem initial_unfinished : Unfinished settings (initial settings tuner) :=
  ⟨Nat.zero_add _, dvd_zero _, Nat.zero_le _⟩

/-- A restart gives back what was written. -/
theorem Unfinished.restarted {state : State} (unfinished : Unfinished settings state)
    (transfer : Transfer) : Unfinished settings (restarted settings state transfer) :=
  ⟨Nat.zero_add _, dvd_zero _, unfinished.short⟩

/-- While the request is no number of whole blocks, a block is missing or part of one. -/
theorem Unfinished.missing {state : State} (unfinished : Unfinished settings state)
    (uneven : ¬ settings.outBlockSize ∣ settings.origBytesToRead) :
    0 < state.bytesToRead ∧ state.bytesToRead ≠ settings.outBlockSize := by
  have total := unfinished.total
  constructor
  · by_contra none
    have reached : state.file.position = settings.origBytesToRead := by omega
    exact uneven (reached ▸ unfinished.whole)
  · intro one
    apply uneven
    rw [← total, one]
    exact dvd_add unfinished.whole (dvd_refl _)

/-- A block that is written whole. -/
theorem Unfinished.written {state : State} (unfinished : Unfinished settings state)
    {transfer : Transfer} (full : FullRead settings transfer)
    (enough : settings.outBlockSize ≤ state.bytesToRead) (pegs : ℕ) (tuned : Tuner) :
    Unfinished settings
      { bytesToRead := state.bytesToRead - settings.outBlockSize
        consecPegValues := pegs
        tuner := tuned
        file := state.file.write transfer.buffer } where
  total := by
    have total := unfinished.total
    have moved : (state.file.write transfer.buffer).position =
        state.file.position + settings.outBlockSize := by rw [← full.block]; rfl
    rw [moved]
    dsimp only
    omega
  whole := by
    have moved : (state.file.write transfer.buffer).position =
        state.file.position + settings.outBlockSize := by rw [← full.block]; rfl
    rw [moved]
    exact dvd_add unfinished.whole (dvd_refl _)
  short := by
    have total := unfinished.total
    have short := unfinished.short
    have block := full.block
    dsimp only
    rw [OutputFile.length_write]
    omega

/-- A request that is no number of whole blocks stays unfinished while the loop runs. -/
theorem keeps_unfinished (uneven : ¬ settings.outBlockSize ∣ settings.origBytesToRead) :
    Keeps (round formats settings) (FullRead settings) (Unfinished settings) := by
  intro state transfer next full unfinished stepped
  by_cases restarts : Restarts formats settings state transfer
  · rw [round_restarts restarts, Status.active.injEq] at stepped
    rw [← stepped]
    exact unfinished.restarted transfer
  · obtain ⟨missing, other⟩ := unfinished.missing uneven
    by_cases few : state.bytesToRead < settings.outBlockSize
    · rw [round_cut full restarts missing few] at stepped
      cases stepped
    · have enough : settings.outBlockSize ≤ state.bytesToRead := Nat.le_of_not_lt few
      rw [round_whole full restarts (Or.inr enough), Status.active.injEq] at stepped
      rw [← stepped]
      exact unfinished.written full enough _ _

/-- At the last restart the loop runs, with everything still to be read. -/
theorem LastRestart.begins {first : ℕ} (last : LastRestart formats settings tuner transfers first) :
    ∃ state, captured formats settings tuner transfers first = .active state ∧
      state.file.position = 0 := by
  rcases last.begun with rfl | ⟨index, rfl, restart⟩
  · exact ⟨_, rfl, rfl⟩
  · obtain ⟨state, active, restarts⟩ := restart.active
    refine ⟨restarted settings state (transfers index), ?_, rfl⟩
    rw [captured_succ active]
    exact round_restarts restarts

/-- Some reads after the last restart, as long as not all is written, the file begins with the
blocks read since. -/
theorem captured_filling (full : ∀ index, FullRead settings (transfers index))
    (uneven : ¬ settings.outBlockSize ∣ settings.origBytesToRead) {first : ℕ}
    (last : LastRestart formats settings tuner transfers first) (count : ℕ)
    (within : count * settings.outBlockSize ≤ settings.origBytesToRead) :
    ∃ state, captured formats settings tuner transfers (first + count) = .active state ∧
      state.file.position = count * settings.outBlockSize ∧
      state.file.contents.take state.file.position = blocks transfers first count := by
  induction count with
  | zero =>
    obtain ⟨state, active, position⟩ := last.begins
    refine ⟨state, active, by rw [position, Nat.zero_mul], ?_⟩
    rw [position, List.take_zero, blocks]
  | succ count ih =>
    rw [Nat.succ_mul] at within
    obtain ⟨state, active, position, front⟩ := ih (by omega)
    have unfinished := (keeps_unfinished uneven).after full initial_unfinished active
    have stays : ¬ Restarts formats settings state (transfers (first + count)) := fun restarts =>
      last.final (first + count) (Nat.le_add_right _ _) ((restartsAt_iff active).mpr restarts)
    have enough : settings.outBlockSize ≤ state.bytesToRead := by
      have total := unfinished.total
      omega
    have block := (full (first + count)).block
    have stepped := (captured_succ active).trans (round_whole (full _) stays (Or.inr enough))
    refine ⟨_, stepped, ?_, ?_⟩
    · change state.file.position + (transfers (first + count)).buffer.length = _
      rw [position, block, Nat.succ_mul]
    · have written := state.file.take_write (transfers (first + count)).buffer
      rw [front] at written
      exact written

/-- A request that is no number of whole blocks is recorded. -/
theorem captured_records (full : ∀ index, FullRead settings (transfers index))
    (uneven : ¬ settings.outBlockSize ∣ settings.origBytesToRead) {first : ℕ}
    (last : LastRestart formats settings tuner transfers first) :
    Records formats settings tuner transfers first settings.origBytesToRead := by
  obtain ⟨count, within, beyond⟩ : ∃ count, count * settings.outBlockSize ≤
      settings.origBytesToRead ∧ settings.origBytesToRead < settings.outBlockSize * (count + 1) :=
    ⟨settings.origBytesToRead / settings.outBlockSize, Nat.div_mul_le_self _ _,
      Nat.lt_mul_div_succ _ settings.block_pos⟩
  rw [Nat.mul_comm, Nat.succ_mul] at beyond
  obtain ⟨state, active, position, front⟩ := captured_filling full uneven last count within
  have unfinished := (keeps_unfinished uneven).after full initial_unfinished active
  have missing := (unfinished.missing uneven).1
  have total := unfinished.total
  have short := unfinished.short
  have few : state.bytesToRead < settings.outBlockSize := by omega
  have stays : ¬ Restarts formats settings state (transfers (first + count)) := fun restarts =>
    last.final _ (Nat.le_add_right _ _) ((restartsAt_iff active).mpr restarts)
  have stepped := (captured_succ active).trans (round_cut (full _) stays missing few)
  have block := (full (first + count)).block
  have cut : ((transfers (first + count)).buffer.take state.bytesToRead).length =
      state.bytesToRead := by
    rw [List.length_take, block]
    omega
  have before := blocks_length full first count
  refine ⟨count + 1, _, _, stepped, ?_, ?_⟩
  · rw [blocks_length full, Nat.succ_mul]
    omega
  · have completed := state.file.write_to_end
      ((transfers (first + count)).buffer.take state.bytesToRead) (by omega)
    have remaining : settings.origBytesToRead - count * settings.outBlockSize =
        state.bytesToRead := by omega
    dsimp only
    rw [completed, front, blocks, List.take_append,
      List.take_of_length_le (le_of_eq_of_le before within), before, remaining]

/-- The capture loop records the requested bytes exactly when they are no number of whole
blocks. -/
theorem captured_records_iff (full : ∀ index, FullRead settings (transfers index))
    {samples : ℕ} (requested : settings.origBytesToRead = 2 * samples) {first : ℕ}
    (last : LastRestart formats settings tuner transfers first) :
    Records formats settings tuner transfers first (2 * samples) ↔
      ¬ settings.outBlockSize ∣ 2 * samples := by
  rw [← requested]
  constructor
  · rintro ⟨reads, ending, state, halted, _, _⟩ whole
    obtain ⟨running, active⟩ : ∃ running,
        captured formats settings tuner transfers (first + reads) = .active running :=
      captured_unlimited full whole (first + reads)
    rw [active] at halted
    cases halted
  · exact fun uneven => captured_records full uneven last

/-! ## Quiet blocks -/

/-- The counter stays within its limit. -/
def Quiet (transfer : Transfer) : Prop :=
  ∀ consec ≤ consecPegValuesAllowed, countPegs transfer.buffer consec ≤ consecPegValuesAllowed

/-- A block is quiet if no byte of it is at a limit. -/
theorem quiet_of_unpegged {transfer : Transfer}
    (unpegged : ∀ sample ∈ transfer.buffer, ¬ (sample = 0xFF ∨ sample = 0x0)) :
    Quiet transfer := by
  intro consec
  generalize transfer.buffer = buffer at unpegged
  fun_induction countPegs buffer consec with
  | case1 first second rest consec few ih =>
    intro _
    rw [if_neg (unpegged first List.mem_cons_self)] at ih ⊢
    apply ih _ (Nat.zero_le _)
    intro sample member
    exact unpegged sample (List.mem_cons_of_mem _ (List.mem_cons_of_mem _ member))
  | case2 => exact id
  | case3 => exact id

theorem Quiet.pegsAfter_le {transfer : Transfer} (quiet : Quiet transfer) {state : State}
    (few : state.consecPegValues ≤ consecPegValuesAllowed) :
    pegsAfter settings state transfer ≤ consecPegValuesAllowed := by
  unfold pegsAfter
  split
  · exact quiet _ few
  · exact few

/-- Quiet blocks keep the counter within its limit. -/
theorem keeps_quiet : Keeps (round formats settings) Quiet
    fun state => state.consecPegValues ≤ consecPegValuesAllowed := by
  intro state transfer next quiet few stepped
  unfold round at stepped
  split at stepped
  · cases stepped
  · split at stepped
    · rw [Status.active.injEq] at stepped
      rw [← stepped]
      exact Nat.zero_le _
    · unfold recorded at stepped
      dsimp only at stepped
      split at stepped
      · cases stepped
      · split at stepped
        · cases stepped
        · split at stepped
          · cases stepped
          · rw [Status.active.injEq] at stepped
            rw [← stepped]
            exact quiet.pegsAfter_le few

/-- Quiet blocks are not restarted on. -/
theorem LastRestart.of_quiet {first : ℕ}
    (begun : first = 0 ∨ ∃ index, first = index + 1 ∧
      RestartsAt formats settings tuner transfers index)
    (quiet : ∀ index, Quiet (transfers (first + index))) :
    LastRestart formats settings tuner transfers first where
  begun := begun
  final := by
    intro index behind restart
    have started : ∃ state, captured formats settings tuner transfers first = .active state ∧
        state.consecPegValues = 0 := by
      rcases begun with start | ⟨before, next, restarted⟩
      · rw [start]
        exact ⟨_, rfl, rfl⟩
      · rcases restarted.active with ⟨state, active, restarts⟩
        rw [next, captured_succ active, round_restarts restarts]
        exact ⟨_, rfl, rfl⟩
    rcases started with ⟨start, active, none⟩
    rcases restart.active with ⟨state, running, _, saturated, _⟩
    obtain ⟨count, same⟩ : ∃ count, index = first + count := ⟨index - first, by omega⟩
    rw [same, captured, after_add active] at running
    have few : start.consecPegValues ≤ consecPegValuesAllowed := by
      rw [none]
      exact Nat.zero_le _
    have bounded := keeps_quiet.after quiet few running
    have enough := saturated.2
    rw [same] at enough
    exact Nat.not_lt.mpr ((quiet count).pegsAfter_le bounded) enough

/-! ## One second and eight seconds -/

/-- Without automatic gain reduction there is no restart. -/
theorem lastRestart_of_fixed (fixed : settings.autoreduceGain = false) :
    LastRestart formats settings tuner transfers 0 where
  begun := Or.inl rfl
  final := by
    intro index _ restart
    obtain ⟨state, _, _, saturated, _⟩ := restart.active
    have automatic := saturated.1
    rw [fixed] at automatic
    exact Bool.noConfusion automatic

/-- Blocks of the default size, with the gain left alone. -/
def fixedGain (bytes : ℕ) (representable : bytes < 2 ^ 32) : Settings :=
  .ofArguments defaultBufLength bytes representable false

/-- A block of unmodulated carrier. -/
def idleBlock : Transfer where
  status := 0
  buffer := List.replicate defaultBufLength 127
  room := defaultBufLength

/-- A tuner at a fixed gain. -/
def idleTuner : Tuner where
  table := ⟨[0, 9, 14], by decide, by decide, by decide⟩
  gain := 14
  modeStatus := 0
  gainStatus := fun _ => 0

/-- The block fills the buffer. -/
theorem idleBlock_full (bytes : ℕ) (representable : bytes < 2 ^ 32) :
    FullRead (fixedGain bytes representable) idleBlock :=
  ⟨le_refl _, List.length_replicate, le_refl _⟩

/-- The smallest blocks, the first of them saturated and the others not. -/
def saturatedOnce (index : ℕ) : Transfer where
  status := 0
  buffer := List.replicate minimalBufLength (if index = 0 then 0xFF else 127)
  room := minimalBufLength

/-- One second at 250 kHz is no number of the smallest blocks and is recorded, from the second block
on: the first one lowers the gain. -/
theorem captured_one_second :
    RestartsAt ⟨.exact, .exact⟩ (.ofArguments minimalBufLength (2 * 250000) (by decide) true) r82xx
        saturatedOnce 0 ∧
      Records ⟨.exact, .exact⟩ (.ofArguments minimalBufLength (2 * 250000) (by decide) true) r82xx
        saturatedOnce 1 (2 * 250000) := by
  have restart : RestartsAt ⟨.exact, .exact⟩
      (.ofArguments minimalBufLength (2 * 250000) (by decide) true) r82xx saturatedOnce 0 :=
    ⟨le_refl 0, by decide, by decide +kernel⟩
  have quiet : ∀ index, Quiet (saturatedOnce (1 + index)) := by
    intro index
    apply quiet_of_unpegged
    intro sample member
    rw [List.eq_of_mem_replicate member, if_neg (by omega)]
    decide
  have last := LastRestart.of_quiet (Or.inr ⟨0, rfl, restart⟩) quiet
  have full : ∀ index, FullRead (.ofArguments minimalBufLength (2 * 250000) (by decide) true)
      (saturatedOnce index) := fun _ => ⟨le_refl 0, List.length_replicate, le_refl _⟩
  exact ⟨restart, (captured_records_iff full rfl last).mpr (by decide)⟩

/-- Eight seconds at 2.048 MHz are 125 blocks, and the recording of them never ends. -/
theorem captured_eight_seconds :
    (∀ _ : ℕ, FullRead (fixedGain (2 * 16384000) (by decide)) idleBlock) ∧
      LastRestart ⟨.exact, .exact⟩ (fixedGain (2 * 16384000) (by decide)) idleTuner
        (fun _ => idleBlock) 0 ∧
      ¬ Records ⟨.exact, .exact⟩ (fixedGain (2 * 16384000) (by decide)) idleTuner
        (fun _ => idleBlock) 0 (2 * 16384000) := by
  refine ⟨fun _ => idleBlock_full _ _, lastRestart_of_fixed rfl, ?_⟩
  rintro ⟨reads, ending, state, halted, _, _⟩
  have whole : (fixedGain (2 * 16384000) (by decide)).outBlockSize ∣
      (fixedGain (2 * 16384000) (by decide)).origBytesToRead := by
    change defaultBufLength ∣ 2 * 16384000
    decide
  obtain ⟨running, active⟩ : ∃ running, captured ⟨.exact, .exact⟩
      (fixedGain (2 * 16384000) (by decide)) idleTuner (fun _ => idleBlock) (0 + reads) =
        .active running :=
    captured_unlimited (fun _ => idleBlock_full _ _) whole (0 + reads)
  rw [active] at halted
  cases halted

end FcTpms.Capture
