import FcTpms.Verif.Coherence
import FcTpms.Verif.Safety

/-!
# The sample reader as a tape

While the cache is coherent with the file, the reader is a head over the samples of the capture:
reading moves it on by one, wherever the sample comes from, and fetching a buffer reads the
samples behind a location. Cache and file only show in how far the capture has been recorded
(`Reader.recorded`).
-/

namespace FcTpms.Decoder

open Program Program.Prog

variable {F : Type} {host : Host F}

/-- The number of the last sample. -/
def Capture.last (capture : Capture F) : ℕ := capture.base + capture.samples.length

/-- At most `count` samples behind the sample with the given number. -/
def Capture.window (capture : Capture F) (number count : ℕ) : List (Cplx F) :=
  (capture.samples.drop (number - capture.base)).take count

/-- The number of the sample under the head. -/
def Reader.position (reader : Reader host) : ℕ := reader.cacheLocInFile + reader.cacheLoc.toNat

/-- What reading samples may cause besides assignments: accesses to the cache. -/
def Event.Quiet : Event host → Prop
  | .visit _ | .cacheIndex _ | .enterFetch .. => True
  | _ => False

theorem quiet_of_reading {reader : Reader host} {event : Event host}
    (reading : event.Reading reader) : event.Quiet := by
  cases event with
  | visit => exact True.intro
  | cacheIndex => exact True.intro
  | _ => exact reading.elim

section Head

variable [Arithmetic F] {capture : Capture F} {reader : Reader host}

/-- The reader works as a head over the capture. -/
structure OnTape (capture : Capture F) (reader : Reader host) : Prop where
  /-- It stores or replays samples of the capture. -/
  ready : Ready capture reader
  /-- Its cache is in use. -/
  active : Active reader
  /-- The location of every sample in the cache fits in an `unsigned long`. -/
  located : reader.cacheLocInFile + cacheSize < 2 ^ 64

omit [Arithmetic F] in
/-- The position of the head in the cache. -/
theorem position_eq (active : Active reader) :
    (reader.position : ℤ) = reader.cacheLocInFile + reader.cacheLoc := by
  have start := active.start
  unfold Reader.position
  omega

omit [Arithmetic F] in
/-- A sample with a number is one of the capture. -/
theorem sample_bounds {number : ℕ} {sample : Cplx F} (found : capture.sample number = some sample) :
    capture.base < number ∧ number ≤ capture.last := by
  unfold Capture.sample at found
  split at found
  · rename_i opened
    have inside := (List.getElem?_eq_some_iff.mp found).1
    unfold Capture.last
    omega
  · cases found

omit [Arithmetic F] in
/-- Every number up to the last one is that of a sample. -/
theorem exists_sample {number : ℕ} (opened : capture.base ≤ number) (more : number < capture.last) :
    ∃ sample, capture.sample (number + 1) = some sample := by
  unfold Capture.last at more
  rw [Capture.sample, if_pos (by omega), List.getElem?_eq_getElem (by omega)]
  exact ⟨_, rfl⟩

omit [Arithmetic F] in
/-- Windows are made of the samples with consecutive numbers. -/
theorem window_succ {number count : ℕ} {sample : Cplx F} (opened : capture.base ≤ number)
    (next : capture.sample (number + 1) = some sample) :
    capture.window number (count + 1) = sample :: capture.window (number + 1) count := by
  have place : number + 1 - capture.base - 1 = number - capture.base := by omega
  have behind : number + 1 - capture.base = number - capture.base + 1 := by omega
  rw [Capture.sample, if_pos (by omega), place] at next
  rcases List.getElem?_eq_some_iff.mp next with ⟨inside, found⟩
  rw [Capture.window, Capture.window, behind, List.drop_eq_getElem_cons inside, List.take_succ_cons,
    found]

omit [Arithmetic F] in
/-- Behind the last sample windows are empty. -/
theorem window_end {number count : ℕ} (ended : capture.last ≤ number) :
    capture.window number count = [] := by
  unfold Capture.last at ended
  rw [Capture.window, List.drop_of_length_le (by omega), List.take_nil]

omit [Arithmetic F] in
/-- While samples are stored the head is where the file was left. -/
theorem position_storing (active : Active reader) (storing : Storing capture reader) :
    reader.position = reader.totalSamplesIn := by
  have start := active.start
  have total := storing.cached.total
  unfold Reader.position
  omega

/-- The head is not before the start of the capture. -/
theorem OnTape.opened (tape : OnTape capture reader) : capture.base ≤ reader.position := by
  have placed := tape.ready.1.opened
  rcases tape.ready.2 with ⟨storing, _⟩ | replaying
  · rw [position_storing tape.active storing]
    exact placed
  · have total := replaying.coherent.total
    by_cases empty : reader.cacheCount = 0
    · unfold Reader.position
      omega
    · have start := replaying.start
      have first := (sample_bounds (replaying.coherent.samples 0 (by omega))).1
      unfold Reader.position
      omega

/-- What is left to read are the samples of the capture behind the head. -/
theorem OnTape.left (tape : OnTape capture reader) :
    reader.left = capture.last - reader.position := by
  have start := tape.active.start
  have opened := tape.ready.1.opened
  have rest := congrArg List.length tape.ready.1.rest
  rw [List.length_drop] at rest
  rcases tape.ready.2 with ⟨storing, _⟩ | replaying
  · rw [position_storing tape.active storing, Reader.left, storing.file, if_neg Bool.false_ne_true]
    unfold Capture.last
    omega
  · have total := replaying.coherent.total
    have inside := replaying.inside
    rw [Reader.left, if_pos replaying.cache]
    by_cases empty : reader.cacheCount = 0
    · unfold Capture.last Reader.position
      omega
    · have recorded := (sample_bounds
        (replaying.coherent.samples (reader.cacheCount - 1).toNat (by omega))).2
      unfold Capture.last at recorded ⊢
      unfold Reader.position
      omega

/-- What reading one sample does to the head. -/
structure Advanced (capture : Capture F) (reader later : Reader host) : Prop where
  /-- The reader still works as a head. -/
  tape : OnTape capture later
  /-- It moves on to the next sample. -/
  position : later.position = reader.position + 1
  /-- What was not recorded before now is. -/
  recorded : later.recorded = max reader.recorded (reader.cacheLoc + 1)
  /-- The place in the cache moves on. -/
  loc : later.cacheLoc = reader.cacheLoc + 1
  /-- The cache stays where it is in the file. -/
  place : later.cacheLocInFile = reader.cacheLocInFile

/-- Reading a sample returns the one behind the head and moves the head on. -/
theorem OnTape.next (tape : OnTape capture reader) (more : reader.position < capture.last)
    (room : reader.cacheLoc + 1 < cacheSize) :
    ∃ sample, reader.next.1 = some sample ∧
      capture.sample (reader.position + 1) = some sample ∧
      Advanced capture reader reader.next.2 := by
  have start := tape.active.start
  have left := tape.left
  rcases tape.active.next (by omega) room with ⟨⟨sample, read⟩, moved⟩
  have fetched := tape.ready.next
  have loc := moved.loc
  have place := moved.place
  have advanced : OnTape capture reader.next.2 :=
    ⟨fetched.ready, moved.active, by rw [place]; exact tape.located⟩
  have position : reader.next.2.position = reader.position + 1 := by
    unfold Reader.position
    omega
  by_cases replays : reader.Replays
  · have replaying : Replaying capture reader := by
      rcases tape.ready.2 with ⟨storing, _⟩ | replaying
      · exact absurd replays.1 (by rw [storing.file]; decide)
      · exact replaying
    have before := replays.2
    have cached := replaying.coherent.samples reader.cacheLoc.toNat (by omega)
    rw [Int.toNat_of_nonneg start] at cached
    refine ⟨sample, read, ?_, advanced, position, ?_, loc, place⟩
    · rw [← read, Reader.next, if_pos replays]
      exact cached
    · rw [Reader.next, if_pos replays, Reader.recorded, Reader.recorded, if_pos replays.1,
        if_pos (show reader.replayed.readFromCache = true from replays.1)]
      change reader.cacheCount = _
      omega
  · have behind : reader.position = reader.totalSamplesIn ∧ reader.recorded = reader.cacheLoc := by
      rcases tape.ready.2 with ⟨storing, _⟩ | replaying
      · rw [Reader.recorded, if_neg (by rw [storing.file]; decide)]
        exact ⟨position_storing tape.active storing, rfl⟩
      · have last : reader.cacheLoc = reader.cacheCount := by
          have inside := replaying.inside
          by_contra differ
          exact replays ⟨replaying.cache, by omega⟩
        have total := replaying.coherent.total
        rw [Reader.recorded, if_pos replaying.cache]
        unfold Reader.position
        omega
    cases holds : reader.upcoming with
    | nil =>
      have nothing := congrArg Prod.fst (show reader.next = reader.leftCache.nextOfFile from
        if_neg replays)
      rw [read, Reader.nextOfFile, upcoming_leftCache, holds] at nothing
      cases nothing
    | cons found rest =>
      have same := (moved_stored tape.active holds room replays).1
      have number := tape.ready.1.sample holds
      refine ⟨sample, read, ?_, advanced, position, ?_, loc, place⟩
      · rw [Reader.next, if_neg replays, same] at read
        rw [behind.1, number]
        exact read
      · have file : reader.next.2.readFromCache = false := by
          rw [Reader.next, if_neg replays, readFromCache_nextOfFile, readFromCache_leftCache]
        rw [Reader.recorded, file, if_neg Bool.false_ne_true, loc, behind.2]
        omega

/-- At the end of the capture the head stays. -/
theorem OnTape.nextAtEnd (tape : OnTape capture reader) (ended : capture.last ≤ reader.position) :
    reader.next = (none, reader.leftCache.ended) ∧ OnTape capture reader.leftCache.ended ∧
      reader.leftCache.ended.position = reader.position ∧
      reader.leftCache.ended.recorded = reader.recorded := by
  have left := tape.left
  rcases tape.active.nextAtEnd (by omega) with ⟨replays, next, active⟩
  have fetched := tape.ready.next
  have loc : reader.leftCache.ended.cacheLoc = reader.cacheLoc := cacheLoc_leftCache reader
  have place : reader.leftCache.ended.cacheLocInFile = reader.cacheLocInFile :=
    cacheLocInFile_leftCache reader
  have file : reader.leftCache.ended.readFromCache = false := readFromCache_leftCache reader
  rw [next] at fetched
  refine ⟨next, ⟨fetched.ready, active, by rw [place]; exact tape.located⟩, ?_, ?_⟩
  · unfold Reader.position
    rw [loc, place]
  · rw [Reader.recorded, file, if_neg Bool.false_ne_true, loc, Reader.recorded]
    split
    · rename_i cached
      have inside := tape.active.inside
      rw [Reader.recorded, if_pos cached] at inside
      by_contra differ
      exact replays ⟨cached, by omega⟩
    · rfl

/-- The current read location is the position of the head. -/
theorem OnTape.currentReadLoc (tape : OnTape capture reader) :
    reader.currentReadLoc = reader.position := by
  have start := tape.active.start
  by_cases cached : reader.readFromCache = true
  · have here := currentReadLoc_cached tape.active cached tape.located
    unfold Reader.position
    omega
  · have file := eq_false_of_ne_true cached
    rcases tape.ready.2 with ⟨storing, _⟩ | replaying
    · rw [currentReadLoc_file file, position_storing tape.active storing]
    · exact absurd replaying.cache cached

/-- The head has moved to the sample with the given number. -/
structure Reached (capture : Capture F) (reader later : Reader host) (number : ℕ) : Prop where
  /-- The reader still works as a head. -/
  tape : OnTape capture later
  /-- Its position. -/
  position : later.position = number
  /-- The samples it read are recorded. -/
  recorded : later.recorded = max reader.recorded (number - reader.cacheLocInFile)
  /-- The cache stays where it is in the file. -/
  place : later.cacheLocInFile = reader.cacheLocInFile

/-- The head is never behind what has been recorded. -/
theorem OnTape.recorded_ge (tape : OnTape capture reader) :
    (reader.position : ℤ) - reader.cacheLocInFile ≤ reader.recorded := by
  have here := position_eq tape.active
  have inside := tape.active.inside
  omega

/-- A head that stays has reached its own position. -/
theorem OnTape.reached (tape : OnTape capture reader) :
    Reached capture reader reader reader.position := by
  have behind := tape.recorded_ge
  exact ⟨tape, rfl, by omega, rfl⟩

omit [Arithmetic F] in
theorem Reached.trans [Arithmetic F] {later last : Reader host} {number further : ℕ}
    (first : Reached capture reader later number) (second : Reached capture later last further)
    (forward : number ≤ further) : Reached capture reader last further := by
  refine ⟨second.tape, second.position, ?_, second.place.trans first.place⟩
  rw [second.recorded, first.recorded, first.place]
  omega

/-- One sample further. -/
theorem Advanced.reached {later : Reader host} (active : Active reader)
    (advanced : Advanced capture reader later) :
    Reached capture reader later (reader.position + 1) := by
  have start := active.start
  refine ⟨advanced.tape, advanced.position, ?_, advanced.place⟩
  rw [advanced.recorded]
  unfold Reader.position
  omega

/-! ## Skipping and collecting -/

/-- Reading a sample changes the sample reader only, as long as the cache does not become full. -/
theorem afterNext_of_room (state : State host) (room : state.reader.cacheLoc + 1 < cacheSize) :
    state.afterNext = { state with reader := state.reader.next.2 } := by
  unfold State.afterNext Reader.next
  split
  · rfl
  · have loc := cacheLoc_leftCache state.reader
    rw [State.afterFile, if_neg]
    rintro ⟨_, _, full⟩
    change state.reader.leftCache.cacheLoc + 1 ≥ cacheSize at full
    omega

/-- So it does at the end of the file. -/
theorem afterNext_of_left (state : State host) (spent : state.reader.left = 0) :
    state.afterNext = { state with reader := state.reader.next.2 } := by
  have empty : state.reader.upcoming = [] := by
    rw [Reader.left] at spent
    exact List.eq_nil_of_length_eq_zero (by omega)
  unfold State.afterNext Reader.next
  split
  · rfl
  · rw [State.afterFile, if_neg]
    rintro ⟨some, _, _⟩
    exact some (by rw [upcoming_leftCache, empty])

/-- Skipping moves the head to the location, unless it is behind it already. -/
theorem skipTo_tape (location : ℕ) (state : State host) (tape : OnTape capture state.reader)
    (inside : location ≤ capture.last)
    (room : (location : ℤ) < state.reader.cacheLocInFile + cacheSize) :
    (skipTo location : Decode host Bool).Attains state fun arrived later trace =>
      arrived = true ∧ (∃ reader, later = { state with reader := reader } ∧
        Reached capture state.reader reader (max state.reader.position location)) ∧
        ∀ event ∈ trace, event.Quiet := by
  generalize steps : location - state.reader.position = count
  have here := tape.currentReadLoc
  induction count generalizing state with
  | zero =>
    have arrived : ¬ location > state.reader.currentReadLoc := by omega
    refine Attains.loop ?_
    simp only [attains_bind, attains_get, arrived, if_false, attains_pure, List.nil_append,
      List.not_mem_nil, false_implies, implies_true, and_true, true_and]
    refine ⟨state.reader, rfl, ?_⟩
    rw [Nat.max_eq_left (by omega)]
    exact tape.reached
  | succ count ih =>
    have ahead : location > state.reader.currentReadLoc := by omega
    have start := tape.active.start
    have more : state.reader.cacheLoc + 1 < cacheSize := by
      unfold Reader.position at steps
      omega
    rcases tape.next (by omega) more with ⟨sample, read, _, advanced⟩
    refine Attains.loop ?_
    simp only [attains_bind, attains_get, ahead, if_true, List.nil_append]
    refine (getNextSample_attains state).mono ?_
    rintro result later early ⟨rfl, rfl, reading⟩
    simp only [read, attains_pure, List.append_nil]
    rw [afterNext_of_room state more]
    have position := advanced.position
    have rest := ih { state with reader := state.reader.next.2 } advanced.tape
      (by rw [advanced.place]; exact room) (by change _ - state.reader.next.2.position = _; omega)
      advanced.tape.currentReadLoc
    refine rest.mono ?_
    rintro arrived stop late ⟨rfl, ⟨reader, rfl, reached⟩, quiet⟩
    refine ⟨rfl, ⟨reader, rfl, ?_⟩, ?_⟩
    · have far :
          max state.reader.next.2.position location = max state.reader.position location := by
        omega
      have whole := (advanced.reached tape.active).trans reached (by
        change _ ≤ max state.reader.next.2.position location
        omega)
      change Reached capture state.reader reader (max state.reader.next.2.position location)
        at whole
      rw [far] at whole
      exact whole
    · intro event member
      rcases List.mem_append.mp member with former | latter
      · exact quiet_of_reading (reading event former)
      · exact quiet event latter

omit [Arithmetic F] in
/-- The number of samples in a window. -/
theorem window_length (number count : ℕ) (opened : capture.base ≤ number) :
    (capture.window number count).length = min count (capture.last - number) := by
  unfold Capture.window Capture.last
  rw [List.length_take, List.length_drop]
  omega

/-- Collecting returns the window behind the head and moves the head to its end. -/
theorem collect_tape (count : ℕ) (state : State host) (tape : OnTape capture state.reader)
    (room : ((state.reader.position + min count (capture.last - state.reader.position) : ℕ) : ℤ) <
      state.reader.cacheLocInFile + cacheSize) :
    (collect count : Decode host (List (Cplx F))).Attains state fun samples later trace =>
      samples = capture.window state.reader.position count ∧
        (∃ reader, later = { state with reader := reader } ∧
          Reached capture state.reader reader
            (state.reader.position + min count (capture.last - state.reader.position))) ∧
        ∀ event ∈ trace, event.Quiet := by
  induction count generalizing state with
  | zero =>
    simp only [collect, attains_pure, List.not_mem_nil, false_implies, implies_true, and_true]
    refine ⟨by rw [Capture.window, List.take_zero], state.reader, rfl, ?_⟩
    rw [Nat.zero_min]
    exact tape.reached
  | succ count ih =>
    rw [collect, attains_bind]
    refine (getNextSample_attains state).mono ?_
    rintro result later early ⟨rfl, rfl, reading⟩
    have quiet : ∀ event ∈ early, event.Quiet :=
      fun event member => quiet_of_reading (reading event member)
    have start := tape.active.start
    by_cases more : state.reader.position < capture.last
    · have here := position_eq tape.active
      have space : state.reader.cacheLoc + 1 < cacheSize := by omega
      rcases tape.next more space with ⟨sample, read, number, advanced⟩
      have position := advanced.position
      have far :
          state.reader.position + 1 + min count (capture.last - (state.reader.position + 1)) =
          state.reader.position + min (count + 1) (capture.last - state.reader.position) := by omega
      have rest := ih { state with reader := state.reader.next.2 } advanced.tape (by
        change ((state.reader.next.2.position +
          min count (capture.last - state.reader.next.2.position) : ℕ) : ℤ) <
            state.reader.next.2.cacheLocInFile + cacheSize
        rw [advanced.place, position, far]
        exact room)
      rw [afterNext_of_room state space]
      simp only [read, attains_bind, attains_pure]
      refine rest.mono ?_
      rintro samples stop late ⟨rfl, ⟨reader, rfl, reached⟩, quietLate⟩
      refine ⟨?_, ⟨reader, rfl, ?_⟩, ?_⟩
      · rw [window_succ tape.opened number, ← position]
      · have whole := (advanced.reached tape.active).trans reached (by
          change _ ≤ state.reader.next.2.position + _
          omega)
        change Reached capture state.reader reader (state.reader.next.2.position +
          min count (capture.last - state.reader.next.2.position)) at whole
        rw [position, far] at whole
        exact whole
      · intro event member
        rw [List.append_nil] at member
        rcases List.mem_append.mp member with former | latter
        · exact quiet event former
        · exact quietLate event latter
    · have ended := tape.nextAtEnd (by omega)
      have same := afterNext_of_left state (by rw [tape.left]; omega)
      rw [ended.1] at same
      have none : min (count + 1) (capture.last - state.reader.position) = 0 := by omega
      rw [same, none, Nat.add_zero]
      simp only [ended.1, attains_pure, List.append_nil]
      refine ⟨(window_end (by omega)).symm, ⟨_, rfl, ended.2.1, ended.2.2.1, ?_,
        cacheLocInFile_leftCache _⟩, quiet⟩
      have behind := tape.recorded_ge
      rw [ended.2.2.2]
      omega

/-- The rest of a buffer that was not filled. -/
def unfilled (host : Host F) (allocation : ℕ) (numSamples obtained : ℕ) : List (Cplx F) :=
  (List.range' obtained (numSamples - obtained)).map (host.uninitialized allocation)

/-- Fetching a buffer behind a location that the head has not passed. -/
theorem getSomeSamples_tape (numSamples location : ℕ) (state : State host)
    (tape : OnTape capture state.reader) (ahead : state.reader.position ≤ location)
    (inside : location ≤ capture.last)
    (room : ((location + min numSamples (capture.last - location) : ℕ) : ℤ) <
      state.reader.cacheLocInFile + cacheSize) :
    (getSomeSamples numSamples location : Decode host (Option (Buffer F))).Attains state
      fun buffer later trace =>
        (∃ allocation, buffer = some
          { first := location + 1
            recorded := capture.window location numSamples
            tail := unfilled host allocation numSamples
              (capture.window location numSamples).length }) ∧
          (∃ reader, later = { state with reader := reader } ∧
            Reached capture state.reader reader
              (location + min numSamples (capture.last - location))) ∧
          ∀ event ∈ trace, event.Quiet := by
  rw [getSomeSamples]
  simp only [attains_bind, attains_get, attains_emit]
  refine (skipTo_tape location state tape inside (by omega)).mono ?_
  rintro arrived later early ⟨rfl, ⟨reader, rfl, reached⟩, quiet⟩
  rw [Nat.max_eq_right ahead] at reached
  have position := reached.position
  have allocated : OnTape capture { reader with allocations := reader.allocations + 1 } := by
    refine ⟨reached.tape.ready.allocate _, ?_, reached.tape.located⟩
    have active := reached.tape.active
    exact ⟨active.start, active.inside, active.room, active.storing⟩
  have collected := collect_tape numSamples
    { state with reader := { reader with allocations := reader.allocations + 1 } } allocated (by
      change ((reader.position + min numSamples (capture.last - reader.position) : ℕ) : ℤ) <
        reader.cacheLocInFile + cacheSize
      rw [position, reached.place]
      exact room)
  simp only [Bool.not_true, Bool.false_eq_true, if_false, attains_bind, attains_get,
    attains_assignReader, show ¬ (numSamples : ℤ) < 0 by omega, Int.toNat_natCast]
  refine collected.mono ?_
  rintro samples stop late ⟨collectedWindow, ⟨last, rfl, further⟩, quietLate⟩
  change samples = capture.window reader.position numSamples at collectedWindow
  change Reached capture { reader with allocations := reader.allocations + 1 } last
    (reader.position + min numSamples (capture.last - reader.position)) at further
  rw [position] at collectedWindow further
  rw [attains_pure, reached.tape.currentReadLoc, position, collectedWindow]
  refine ⟨⟨reader.allocations, rfl⟩, ⟨last, rfl, reached.trans ?_ (by omega)⟩, ?_⟩
  · exact ⟨further.tape, further.position, further.recorded, further.place⟩
  · simp only [List.forall_mem_append, List.forall_mem_cons, List.not_mem_nil, false_implies,
      implies_true, and_true, true_and]
    exact ⟨True.intro, quiet, True.intro, quietLate⟩

/-! ## Deciding a half-bit -/

omit [Arithmetic F] in
/-- The half-bits decided in a run: the first sample of each window, and how many of its elements
were obtained and used. -/
def halfBits (trace : List (Event host)) : List (ℕ × ℕ × ℕ) :=
  trace.filterMap fun
    | .halfBit first obtained used => some (first, obtained, used)
    | _ => none

omit [Arithmetic F] in
@[simp] theorem halfBits_append (early late : List (Event host)) :
    halfBits (early ++ late) = halfBits early ++ halfBits late := List.filterMap_append

omit [Arithmetic F] in
/-- Reading samples decides nothing. -/
theorem halfBits_of_quiet {trace : List (Event host)} (quiet : ∀ event ∈ trace, event.Quiet) :
    halfBits trace = [] := by
  rw [halfBits, List.filterMap_eq_nil_iff]
  intro event member
  have here := quiet event member
  cases event with
  | halfBit => exact here.elim
  | _ => rfl

/-- The elements of a buffer for a half-bit of `numSamples` behind `bitStart`. -/
def windowSamples (host : Host F) (capture : Capture F) (allocation bitStart numSamples : ℕ) :
    List (Cplx F) :=
  capture.window bitStart (withMargin numSamples).toNat ++
    unfilled host allocation (withMargin numSamples).toNat
      (capture.window bitStart (withMargin numSamples).toNat).length

/-- The number of the last sample obtained for a half-bit. -/
def Capture.windowEnd (capture : Capture F) (bitStart numSamples : ℕ) : ℕ :=
  bitStart + min (withMargin numSamples).toNat (capture.last - bitStart)

/-- What deciding a half-bit does to the state, given the transition it found. -/
structure Decided (capture : Capture F) (state later : State host) (bitStart numSamples : ℕ)
    (transitionPoint : ℤ) : Prop where
  /-- The prelude stays. -/
  prelude : later.prelude = state.prelude
  /-- The packet stays valid or invalid. -/
  valid : later.validPkt = state.validPkt
  /-- The collected half-bits stay. -/
  bits : later.packet.bits = state.packet.bits
  /-- The collected symbols stay. -/
  symbols : later.packet.symbols = state.packet.symbols
  /-- The half-bit before the current symbol stays. -/
  preceding : later.packet.precedingBit = state.packet.precedingBit
  /-- The end of the half-bit. -/
  ends : later.packet.actualBitEnd =
    bitEndAt bitStart (u32 ((bitStart : ℤ) + numSamples - 1)) transitionPoint
  /-- The reader works as a head. -/
  tape : OnTape capture later.reader
  /-- It replays the cache. -/
  replaying : Replaying capture later.reader
  /-- The cache reaches at least to the end of the window. -/
  count : later.reader.cacheCount = max state.reader.recorded
    (capture.windowEnd bitStart numSamples - state.reader.cacheLocInFile)
  /-- The place in the cache is computed from its end. -/
  loc : later.reader.cacheLoc = rewound later.reader.cacheCount bitStart numSamples
    later.packet.actualBitEnd
  /-- The cache stays where it is in the file. -/
  place : later.reader.cacheLocInFile = state.reader.cacheLocInFile

/-- Where a half-bit can be decided: the head has not passed it, the capture reaches it, enough of
its window is left, the cache has room for it, and its numbers do not wrap. -/
structure Fits (capture : Capture F) (reader : Reader host) (bitStart numSamples : ℕ) :
    Prop where
  /-- There are samples to decide on. -/
  some : 0 < numSamples
  /-- They are not too many. -/
  few : numSamples ≤ 2 ^ 16
  /-- The head has not passed the location. -/
  ahead : reader.position ≤ bitStart
  /-- The capture has not ended before the location. -/
  inside : bitStart ≤ capture.last
  /-- There is enough left to rewind the cache. -/
  enough : withMargin numSamples - threeQuarters (withMargin numSamples) <
    capture.windowEnd bitStart numSamples - reader.cacheLocInFile
  /-- There is room in the cache. -/
  room : (capture.windowEnd bitStart numSamples : ℤ) < reader.cacheLocInFile + cacheSize
  /-- Sample numbers do not wrap. -/
  counted : bitStart + withMargin numSamples < 2 ^ 32

/-- The samples to skip lead the head to the location. -/
theorem OnTape.skips {reader : Reader host} (tape : OnTape capture reader) (location : ℕ) :
    reader.skips location = location - reader.position := by
  rcases tape.ready.2 with ⟨storing, _⟩ | replaying
  · rw [skips_file storing.file, position_storing tape.active storing]
  · have here := position_eq tape.active
    have inside := replaying.inside
    have total := replaying.coherent.total
    have steps := skips_cached tape.active replaying.cache tape.located location
    split_ifs at steps <;> omega

/-- Where a half-bit fits there is enough to fetch for it. -/
theorem Fits.fetchable {reader : Reader host} {bitStart numSamples : ℕ}
    (fits : Fits capture reader bitStart numSamples) (tape : OnTape capture reader) :
    Fetchable (withMargin numSamples) bitStart reader := by
  have ahead := fits.ahead
  have inside := fits.inside
  have enough := fits.enough
  have room := fits.room
  have left := tape.left
  have skips := tape.skips bitStart
  have here := position_eq tape.active
  have reaches : reader.reaches (withMargin numSamples) bitStart =
      capture.windowEnd bitStart numSamples - reader.cacheLocInFile := by
    rw [Reader.reaches, Reader.obtains, Capture.windowEnd, skips, left]
    omega
  constructor
  · omega
  · rw [reaches]
    exact enough
  · rw [reaches]
    omega
  · exact fits.counted
  · exact tape.located

/-- Deciding a half-bit on the samples behind a location. -/
theorem getBit_tape (bitStart numSamples : ℕ) (state : State host)
    (tape : OnTape capture state.reader)
    (fits : Fits capture state.reader bitStart numSamples) :
    (getBit bitStart (u32 ((bitStart : ℤ) + numSamples - 1)) : Decode host ℤ).Attains state
      fun value later trace => ∃ allocation,
        value = bitValue (sumFromOne (convertSamplesToBinary state.prelude.highFreq
          state.prelude.lowFreq (windowSamples host capture allocation bitStart numSamples)
          (threeFifths numSamples))) ∧
        Decided capture state later bitStart numSamples
          (scanSamplesForEobTransition state.prelude.highFreq state.prelude.lowFreq
            (windowSamples host capture allocation bitStart numSamples) (withMargin numSamples)) ∧
        halfBits trace = [(bitStart + 1,
          (capture.window bitStart (withMargin numSamples).toNat).length,
          elementsUsed (withMargin numSamples)
            (scanSamplesForEobTransition state.prelude.highFreq state.prelude.lowFreq
              (windowSamples host capture allocation bitStart numSamples)
              (withMargin numSamples)))] := by
  have margin : ((withMargin numSamples).toNat : ℤ) = withMargin numSamples := by
    rw [withMargin_natCast]
    omega
  rw [getBit]
  dsimp only
  rw [int32_span fits.few, ← margin, attains_bind]
  refine (getSomeSamples_tape _ _ state tape fits.ahead fits.inside
    fits.room).mono ?_
  rintro buffer later early ⟨⟨allocation, rfl⟩, ⟨reader, rfl, reached⟩, quiet⟩
  have active := reached.tape.active
  have recordedInside := active.inside
  have recordedRoom := active.room
  have filled : Coherent capture reader ∧ reader.cacheCount = reader.recorded := by
    have here := position_eq active
    have position := reached.position
    have enough := fits.enough
    have quarters := threeQuarters_natCast (withMargin numSamples).toNat
    rw [margin] at quarters
    rcases reached.tape.ready.2 with ⟨storing, fill⟩ | replaying
    · have count : reader.cacheCount = reader.cacheLoc := by
        refine fill.resolve_right fun fresh => ?_
        have place := reached.place
        unfold Capture.windowEnd at enough
        omega
      refine ⟨?_, ?_⟩
      · rw [Coherent, count]
        exact storing.cached
      · rw [Reader.recorded, if_neg (by rw [storing.file]; decide), count]
    · exact ⟨replaying.coherent, by rw [Reader.recorded, if_pos replaying.cache]⟩
  have count : reader.cacheCount = max state.reader.recorded
      (capture.windowEnd bitStart numSamples - state.reader.cacheLocInFile) := by
    rw [filled.2, reached.recorded]
    rfl
  have bounded : Bounded reader := by
    rw [← filled.2] at recordedInside recordedRoom
    exact ⟨recordedInside, recordedRoom⟩
  have rewindable : Rewindable bitStart numSamples reader := by
    refine ⟨⟨active, bounded⟩, ?_, fits.counted⟩
    have here := position_eq active
    have position : reader.position = capture.windowEnd bitStart numSamples := reached.position
    have place := reached.place
    have enough := fits.enough
    omega
  have inside := scanSamples_bounds state.prelude.highFreq state.prelude.lowFreq
    (windowSamples host capture allocation bitStart numSamples) (withMargin numSamples)
  obtain ⟨length, ends, spans⟩ := bitEndAt_span bitStart fits.some inside
  have nonnegative := active.start.trans bounded.inside
  have start := rewindable.rewound_nonneg spans
  have behind := rewound_le bitStart nonnegative spans.short
  rw [← ends] at start behind
  have buffer : Buffer.samples
      { first := bitStart + 1
        recorded := capture.window bitStart (withMargin numSamples).toNat
        tail := unfilled host allocation (withMargin numSamples).toNat
          (capture.window bitStart (withMargin numSamples).toNat).length } =
      windowSamples host capture allocation bitStart numSamples := rfl
  simp only [attains_bind, attains_get, attains_emit, attains_assignPacket, turnToCache,
    rewindCache, margin, buffer]
  obtain ⟨transitionPoint, found⟩ : ∃ transitionPoint,
      scanSamplesForEobTransition state.prelude.highFreq state.prelude.lowFreq
        (windowSamples host capture allocation bitStart numSamples) (withMargin numSamples) =
          transitionPoint := ⟨_, rfl⟩
  rw [found] at start behind
  have final : Decided capture state
      { state with
        reader := { reader with
          readFromCache := true
          writeToCache := false
          cacheLoc := rewound reader.cacheCount bitStart numSamples
            (bitEndAt bitStart (u32 ((bitStart : ℤ) + numSamples - 1)) transitionPoint) }
        packet := { state.packet with
          actualBitEnd := bitEndAt bitStart (u32 ((bitStart : ℤ) + numSamples - 1)) transitionPoint
          bitConfidence := confidence (sumFromOne (convertSamplesToBinary state.prelude.highFreq
            state.prelude.lowFreq (windowSamples host capture allocation bitStart numSamples)
            (threeFifths numSamples))) (threeFifths numSamples) } }
      bitStart numSamples transitionPoint := by
    have placed := reached.tape.ready.1
    have replays : Replaying capture { reader with
        readFromCache := true
        writeToCache := false
        cacheLoc := rewound reader.cacheCount bitStart numSamples
          (bitEndAt bitStart (u32 ((bitStart : ℤ) + numSamples - 1)) transitionPoint) } :=
      ⟨rfl, nonnegative, behind, filled.1.samples, filled.1.total⟩
    have used : InUse { reader with
        readFromCache := true
        writeToCache := false
        cacheLoc := rewound reader.cacheCount bitStart numSamples
          (bitEndAt bitStart (u32 ((bitStart : ℤ) + numSamples - 1)) transitionPoint) } :=
      inUse_of_bounded start ⟨behind, bounded.room⟩ rfl
    exact ⟨rfl, rfl, rfl, rfl, rfl, rfl, ⟨⟨⟨placed.opened, placed.rest⟩, Or.inr replays⟩,
      used.toActive, reached.tape.located⟩, replays, count, rfl, reached.place⟩
  by_cases storing : reader.writeToCache = true
  · simp only [storing, if_true, attains_bind, attains_assignReader, attains_pure, Bool.not_true]
    refine ⟨allocation, rfl, ?_, ?_⟩
    · rw [found]
      exact final
    · simp only [found, halfBits_append, halfBits_of_quiet quiet]
      rfl
  · have cached : reader.readFromCache = true := by
      by_contra file
      exact storing (active.storing (eq_false_of_ne_true file))
    simp only [storing, cached, if_true, if_false, Bool.false_eq_true, attains_assignReader,
      attains_pure]
    refine ⟨allocation, rfl, ?_, ?_⟩
    · rw [found]
      exact final
    · simp only [found, halfBits_append, halfBits_of_quiet quiet]
      rfl

end Head

end FcTpms.Decoder
