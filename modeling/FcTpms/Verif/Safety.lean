import FcTpms.Decoder.Exact
import FcTpms.Verif.Modes
import FcTpms.Verif.Termination

/-!
# Indices and pointers

The index into the sample cache stays inside it and no null pointer is dereferenced, in every run
whose prelude starts and half-bits find enough samples. How far `get_some_samples` gets is known
before it runs: it skips `Reader.skips` samples and obtains `Reader.obtains` more. A file may end
anywhere, and the decoder does not check for this; the conditions say when it does no harm.
-/

namespace FcTpms.Decoder

open Program Program.Prog

variable {F : Type} {host : Host F}

/-! ## How far a fetch gets -/

/-- The number of samples that `get_some_samples` skips to reach a location: while the cache is
replayed those of the cache come first, and leaving it reads a sample of the file. -/
def Reader.skips (reader : Reader host) (location : ℕ) : ℕ :=
  if location ≤ reader.currentReadLoc then 0
  else if reader.readFromCache then
    if location ≤ reader.cacheLocInFile + reader.cacheCount then
      location - reader.currentReadLoc
    else (reader.cacheCount - reader.cacheLoc).toNat + max 1 (location - reader.totalSamplesIn)
  else location - reader.totalSamplesIn

section Fetching

variable [Arithmetic F]

/-- The number of samples that it obtains after skipping. -/
def Reader.obtains (reader : Reader host) (numSamples : ℤ) (location : ℕ) : ℕ :=
  min numSamples.toNat (reader.left - reader.skips location)

/-- The place in the cache that it reaches. -/
def Reader.reaches (reader : Reader host) (numSamples : ℤ) (location : ℕ) : ℤ :=
  reader.cacheLoc + reader.skips location + reader.obtains numSamples location

/-- There is enough to fetch: the location is reached, the cache has room for what is read, and
what it then holds is at least what a half-bit may be shorter than the window. No counter wraps. -/
structure Fetchable (numSamples : ℤ) (location : ℕ) (reader : Reader host) : Prop where
  /-- The file does not end before the location. -/
  reached : reader.skips location ≤ reader.left
  /-- The cache can be rewound to the end of a half-bit. -/
  rewindable : numSamples - threeQuarters numSamples < reader.reaches numSamples location
  /-- The cache does not become full. -/
  room : reader.reaches numSamples location < cacheSize
  /-- The window ends before sample number 2³². -/
  counted : location + numSamples < 2 ^ 32
  /-- The location of every sample in the cache fits in an `unsigned long`. -/
  located : reader.cacheLocInFile + cacheSize < 2 ^ 64

end Fetching

/-- The number of samples at the start of the cache that belong to the attempts at a prelude. -/
def Reader.recorded (reader : Reader host) : ℤ :=
  if reader.readFromCache then reader.cacheCount else reader.cacheLoc

/-- The cache is in use and its indices are inside. -/
structure Active (reader : Reader host) : Prop where
  /-- The place in the cache is not before its start -/
  start : 0 ≤ reader.cacheLoc
  /-- and not behind its last sample. -/
  inside : reader.cacheLoc ≤ reader.recorded
  /-- The cache is not full. -/
  room : reader.recorded < cacheSize
  /-- What is read from the file is stored. -/
  storing : reader.readFromCache = false → reader.writeToCache = true

/-- The number of samples in the cache is in bounds. -/
structure Bounded (reader : Reader host) : Prop where
  /-- The place in the cache is not behind its last sample. -/
  inside : reader.cacheLoc ≤ reader.cacheCount
  /-- The cache is not full. -/
  room : reader.cacheCount < cacheSize

/-- The cache can be turned to at any time. -/
structure InUse (reader : Reader host) : Prop extends Active reader where
  /-- What it holds then is in bounds. -/
  bounded : Bounded reader

/-- While the cache is replayed, bounds of its number of samples are all there is to know. -/
theorem inUse_of_bounded {reader : Reader host} (start : 0 ≤ reader.cacheLoc)
    (bounded : Bounded reader) (cached : reader.readFromCache = true) : InUse reader := by
  have recorded : reader.recorded = reader.cacheCount := if_pos cached
  refine ⟨⟨start, ?_, ?_, fun file => ?_⟩, bounded⟩
  · rw [recorded]
    exact bounded.inside
  · rw [recorded]
    exact bounded.room
  · rw [cached] at file
    cases file

/-- The cache is read in bounds and no null pointer is dereferenced. -/
def Event.Safe : Event host → Prop
  | .cacheIndex index => 0 ≤ index ∧ index < cacheSize
  | .nullDereference => False
  | _ => True

section Steps

variable [Arithmetic F] {reader : Reader host}

omit [Arithmetic F] in
/-- The current read location while no counter wraps. -/
theorem currentReadLoc_cached (active : Active reader) (cached : reader.readFromCache = true)
    (located : reader.cacheLocInFile + cacheSize < 2 ^ 64) :
    (reader.currentReadLoc : ℤ) = reader.cacheLocInFile + reader.cacheLoc := by
  have start := active.start
  have inside := active.inside
  have room := active.room
  rw [Reader.recorded, if_pos cached] at inside room
  rw [Reader.currentReadLoc, if_pos cached]
  exact u64_of_lt (by omega) (by omega)

omit [Arithmetic F] in
theorem currentReadLoc_file (file : reader.readFromCache = false) :
    reader.currentReadLoc = reader.totalSamplesIn := by
  rw [Reader.currentReadLoc, file]
  rfl

omit [Arithmetic F] in
/-- The samples to skip while the cache is replayed. -/
theorem skips_cached (active : Active reader) (cached : reader.readFromCache = true)
    (located : reader.cacheLocInFile + cacheSize < 2 ^ 64) (location : ℕ) :
    (reader.skips location : ℤ) =
      if (location : ℤ) ≤ reader.cacheLocInFile + reader.cacheLoc then 0
      else if (location : ℤ) ≤ reader.cacheLocInFile + reader.cacheCount then
        location - (reader.cacheLocInFile + reader.cacheLoc)
      else reader.cacheCount - reader.cacheLoc + max 1 (location - reader.totalSamplesIn : ℕ) := by
  have here := currentReadLoc_cached active cached located
  have inside := active.inside
  rw [Reader.recorded, if_pos cached] at inside
  have span : ((reader.cacheCount - reader.cacheLoc).toNat : ℤ) =
      reader.cacheCount - reader.cacheLoc := Int.toNat_of_nonneg (by omega)
  rw [Reader.skips, if_pos cached]
  by_cases behind : location ≤ reader.currentReadLoc
  · rw [if_pos behind, if_pos (by omega), Nat.cast_zero]
  · have ahead : ¬ (location : ℤ) ≤ reader.cacheLocInFile + reader.cacheLoc := by omega
    rw [if_neg behind, if_neg ahead]
    split
    · omega
    · rw [Nat.cast_add, span]

omit [Arithmetic F] in
/-- The samples to skip while the file is read. -/
theorem skips_file (file : reader.readFromCache = false) (location : ℕ) :
    reader.skips location = location - reader.totalSamplesIn := by
  rw [Reader.skips, currentReadLoc_file file, file, if_neg Bool.false_ne_true]
  split <;> omega

/-- What reading one sample does to a reader whose cache is in use. -/
structure Moved (reader later : Reader host) : Prop where
  /-- It is still in use. -/
  active : Active later
  /-- The number of samples in it is in bounds. -/
  bounded : Bounded later
  /-- The place in the cache moves on. -/
  loc : later.cacheLoc = reader.cacheLoc + 1
  /-- One sample less is left. -/
  left : later.left + 1 = reader.left
  /-- The cache stays where it is in the file. -/
  place : later.cacheLocInFile = reader.cacheLocInFile
  /-- A location ahead is one sample nearer. -/
  skips : ∀ location, reader.currentReadLoc < location →
    reader.cacheLocInFile + cacheSize < 2 ^ 64 →
    later.skips location + 1 = reader.skips location

/-- A sample of the cache is replayed. -/
theorem moved_replayed (active : Active reader) (replays : reader.Replays) :
    Moved reader reader.replayed := by
  have cached := replays.1
  have before := replays.2
  have start := active.start
  have room := active.room
  rw [Reader.recorded, if_pos cached] at room
  have count : reader.replayed.recorded = reader.cacheCount := if_pos cached
  have next : reader.replayed.cacheLoc = reader.cacheLoc + 1 := rfl
  have later : Active reader.replayed := by
    refine ⟨?_, ?_, ?_, active.storing⟩
    · rw [next]
      omega
    · rw [next, count]
      omega
    · rw [count]
      exact room
  refine ⟨later, ⟨by rw [next]; exact before, room⟩, rfl, ?_, rfl, fun location ahead located => ?_⟩
  · have same : reader.replayed.upcoming = reader.upcoming := rfl
    rw [Reader.left, Reader.left, same, if_pos cached,
      if_pos (show reader.replayed.readFromCache = true from cached)]
    simp only [Reader.replayed]
    omega
  · have here := currentReadLoc_cached active cached located
    have now := skips_cached active cached located location
    have later := skips_cached later cached located location
    have place : reader.replayed.cacheLocInFile = reader.cacheLocInFile := rfl
    have count : reader.replayed.cacheCount = reader.cacheCount := rfl
    have total : reader.replayed.totalSamplesIn = reader.totalSamplesIn := rfl
    rw [next, place, count, total] at later
    split_ifs at now later <;> omega

/-- A sample of the file is stored. -/
theorem moved_stored (active : Active reader) {sample : Cplx F} {rest : List (Cplx F)}
    (holds : reader.upcoming = sample :: rest) (room : reader.cacheLoc + 1 < cacheSize)
    (replays : ¬ reader.Replays) :
    reader.leftCache.nextOfFile.1 = some sample ∧
      Moved reader reader.leftCache.nextOfFile.2 := by
  have start := active.start
  have storing : reader.leftCache.writeToCache = true := by
    unfold Reader.leftCache
    split
    · rfl
    · rename_i file
      exact active.storing (eq_false_of_ne_true file)
  have loc := cacheLoc_leftCache reader
  have next : reader.leftCache.nextOfFile =
      (some sample, reader.leftCache.advanced.stored sample) := by
    rw [Reader.nextOfFile, upcoming_leftCache, holds]
    dsimp only
    rw [if_pos storing, if_neg (by rw [loc]; omega)]
  have file : (reader.leftCache.advanced.stored sample).readFromCache = false :=
    readFromCache_leftCache reader
  have behind : reader.readFromCache = true → reader.cacheLoc = reader.cacheCount := by
    intro cached
    have before := active.inside
    rw [Reader.recorded, if_pos cached] at before
    by_contra differ
    exact replays ⟨cached, by omega⟩
  have moved : (reader.leftCache.advanced.stored sample).cacheLoc = reader.cacheLoc + 1 := by
    change reader.leftCache.cacheLoc + 1 = _
    rw [loc]
  have recorded : (reader.leftCache.advanced.stored sample).recorded = reader.cacheLoc + 1 := by
    rw [Reader.recorded, file, if_neg Bool.false_ne_true, moved]
  have count : (reader.leftCache.advanced.stored sample).cacheCount = reader.cacheLoc + 1 := moved
  rw [next]
  dsimp only
  refine ⟨rfl, ⟨by omega, by omega, by omega, fun _ => storing⟩, ⟨by omega, by omega⟩, moved, ?_,
    cacheLocInFile_leftCache reader, ?_⟩
  · have more : (reader.leftCache.advanced.stored sample).upcoming = rest := by
      rw [upcoming_stored]
      exact upcoming_advanced (by rw [upcoming_leftCache, holds])
    rw [Reader.left, Reader.left, more, file, holds, List.length_cons]
    by_cases cached : reader.readFromCache = true
    · have last := behind cached
      simp only [cached, if_true, Bool.false_eq_true, if_false]
      omega
    · simp only [cached, Bool.false_eq_true, if_false]
  · intro location ahead located
    have counted : (reader.leftCache.advanced.stored sample).totalSamplesIn =
        reader.totalSamplesIn + 1 := by
      change reader.leftCache.totalSamplesIn + 1 = _
      rw [totalSamplesIn_leftCache]
    have next := skips_file file location
    rw [counted] at next
    by_cases cached : reader.readFromCache = true
    · have last := behind cached
      have here := currentReadLoc_cached active cached located
      have now := skips_cached active cached located location
      split_ifs at now <;> omega
    · have here := currentReadLoc_file (eq_false_of_ne_true cached)
      have now := skips_file (eq_false_of_ne_true cached) location
      omega

/-- A reader with something left and room in its cache reads a sample. -/
theorem Active.next (active : Active reader) (more : 0 < reader.left)
    (room : reader.cacheLoc + 1 < cacheSize) :
    (∃ sample, reader.next.1 = some sample) ∧ Moved reader reader.next.2 := by
  rw [Reader.next]
  by_cases replays : reader.Replays
  · rw [if_pos replays]
    exact ⟨⟨_, rfl⟩, moved_replayed active replays⟩
  · rw [if_neg replays]
    cases holds : reader.upcoming with
    | nil =>
      rw [Reader.left, holds, List.length_nil] at more
      split at more
      · rename_i cached
        exact absurd ⟨cached, by omega⟩ replays
      · omega
    | cons sample rest =>
      have moved := moved_stored active holds room replays
      exact ⟨⟨sample, moved.1⟩, moved.2⟩

/-- At the end of the file the reader leaves the cache and stays where it is. -/
theorem Active.nextAtEnd (active : Active reader) (spent : reader.left = 0) :
    ¬ reader.Replays ∧ reader.next = (none, reader.leftCache.ended) ∧
      Active reader.leftCache.ended := by
  have empty : reader.upcoming = [] := by
    rw [Reader.left] at spent
    exact List.eq_nil_of_length_eq_zero (by omega)
  have replays : ¬ reader.Replays := fun replays => by
    have before := replays.2
    rw [Reader.left, if_pos replays.1] at spent
    omega
  refine ⟨replays, ?_, ?_⟩
  · rw [Reader.next, if_neg replays, Reader.nextOfFile, upcoming_leftCache, empty]
  · have loc : reader.leftCache.ended.cacheLoc = reader.cacheLoc := cacheLoc_leftCache reader
    have file : reader.leftCache.ended.readFromCache = false := readFromCache_leftCache reader
    have recorded : reader.leftCache.ended.recorded = reader.cacheLoc := by
      rw [Reader.recorded, file, if_neg Bool.false_ne_true, loc]
    refine ⟨?_, ?_, ?_, fun _ => ?_⟩
    · rw [loc]
      exact active.start
    · rw [recorded, loc]
    · rw [recorded]
      exact lt_of_le_of_lt active.inside active.room
    · change reader.leftCache.writeToCache = true
      unfold Reader.leftCache
      split
      · rfl
      · rename_i reading
        exact active.storing (eq_false_of_ne_true reading)

omit [Arithmetic F] in
/-- Reading a sample while the cache is in use accesses it in bounds. -/
theorem Active.reading_safe (active : Active reader) {event : Event host}
    (reading : event.Reading reader) : event.Safe := by
  cases event with
  | cacheIndex index =>
    rw [Event.Safe, reading.1]
    exact ⟨active.start, lt_of_le_of_lt active.inside active.room⟩
  | visit => exact True.intro
  | _ => exact reading.elim

/-- Skipping reaches the location when enough is left. -/
theorem skipTo_attains (location : ℕ) (state : State host) (used : InUse state.reader)
    (reached : state.reader.skips location ≤ state.reader.left)
    (room : state.reader.cacheLoc + state.reader.skips location < cacheSize)
    (located : state.reader.cacheLocInFile + cacheSize < 2 ^ 64) :
    (skipTo location : Decode host Bool).Attains state fun arrived later trace =>
      arrived = true ∧ InUse later.reader ∧
        later.reader.cacheLoc = state.reader.cacheLoc + state.reader.skips location ∧
        later.reader.left + state.reader.skips location = state.reader.left ∧
        ∀ event ∈ trace, event.Safe := by
  generalize steps : state.reader.skips location = count at reached room
  induction count generalizing state with
  | zero =>
    have arrived : ¬ location > state.reader.currentReadLoc := by
      intro ahead
      rw [Reader.skips, if_neg (by omega)] at steps
      split_ifs at steps with cached inside
      · omega
      · omega
      · rw [currentReadLoc_file (eq_false_of_ne_true cached)] at ahead
        omega
    refine Attains.loop ?_
    simp only [attains_bind, attains_get, arrived, if_false, attains_pure, List.nil_append,
      List.not_mem_nil, false_implies, implies_true, and_true, true_and, Nat.cast_zero, add_zero]
    exact used
  | succ count ih =>
    have ahead : location > state.reader.currentReadLoc := by
      by_contra behind
      rw [Reader.skips, if_pos (by omega)] at steps
      omega
    have next := used.toActive.next (by omega) (by omega)
    rcases next with ⟨⟨sample, read⟩, moved⟩
    refine Attains.loop ?_
    simp only [attains_bind, attains_get, ahead, if_true, List.nil_append]
    refine (getNextSample_attains state).mono ?_
    rintro result later early ⟨rfl, rfl, reading⟩
    simp only [read, attains_pure, List.append_nil]
    have loc := moved.loc
    have left := moved.left
    have fewer := moved.skips location ahead located
    rw [← reader_afterNext] at loc left fewer
    have rest := ih state.afterNext (by rw [reader_afterNext]; exact ⟨moved.active, moved.bounded⟩)
      (by rw [reader_afterNext, moved.place]; exact located) (by omega) (by omega) (by omega)
    refine rest.mono ?_
    rintro arrived stop late ⟨rfl, usedStop, reachedLoc, remaining, safe⟩
    refine ⟨rfl, usedStop, by omega, by omega, ?_⟩
    intro event member
    rcases List.mem_append.mp member with former | latter
    · exact used.toActive.reading_safe (reading event former)
    · exact safe event latter

/-- Collecting obtains what is left, up to the number asked for. -/
theorem collect_attains (count : ℕ) (state : State host) (used : InUse state.reader)
    (room : state.reader.cacheLoc + (min count state.reader.left : ℕ) < cacheSize) :
    (collect count : Decode host (List (Cplx F))).Attains state fun samples later trace =>
      samples.length = min count state.reader.left ∧ InUse later.reader ∧
        later.reader.cacheLoc = state.reader.cacheLoc + (min count state.reader.left : ℕ) ∧
        ∀ event ∈ trace, event.Safe := by
  induction count generalizing state with
  | zero =>
    simp only [collect, attains_pure, Nat.zero_min, Nat.cast_zero, add_zero, List.length_nil,
      List.not_mem_nil, false_implies, implies_true, and_true, true_and]
    exact used
  | succ count ih =>
    rw [collect, attains_bind]
    refine (getNextSample_attains state).mono ?_
    rintro result later early ⟨rfl, rfl, reading⟩
    have safe : ∀ event ∈ early, event.Safe :=
      fun event member => used.toActive.reading_safe (reading event member)
    by_cases more : 0 < state.reader.left
    · rcases used.toActive.next more (by omega) with ⟨⟨sample, read⟩, moved⟩
      have loc := moved.loc
      have left := moved.left
      rw [← reader_afterNext] at loc left
      have rest := ih state.afterNext
        (by rw [reader_afterNext]; exact ⟨moved.active, moved.bounded⟩) (by omega)
      simp only [read, attains_bind, attains_pure]
      refine rest.mono ?_
      rintro samples stop late ⟨length, usedStop, reachedLoc, safeLate⟩
      refine ⟨by rw [List.length_cons]; omega, usedStop, by omega, ?_⟩
      intro event member
      rw [List.append_nil] at member
      rcases List.mem_append.mp member with former | latter
      · exact safe event former
      · exact safeLate event latter
    · have ended := used.toActive.nextAtEnd (by omega)
      have spent : min (count + 1) state.reader.left = 0 := by omega
      have loc : state.reader.leftCache.ended.cacheLoc = state.reader.cacheLoc :=
        cacheLoc_leftCache state.reader
      simp only [ended.2.1, attains_pure, spent, List.append_nil, List.length_nil, Nat.cast_zero,
        add_zero, true_and, reader_afterNext]
      refine ⟨⟨ended.2.2, ?_, ?_⟩, loc, safe⟩
      · rw [loc]
        exact le_of_le_of_eq used.bounded.inside (cacheCount_leftCache state.reader).symm
      · exact lt_of_eq_of_lt (cacheCount_leftCache state.reader) used.bounded.room

end Steps

/-! ## Runs -/

section Runs

variable [Arithmetic F]

/-- Preludes start before the end of the file and half-bits find enough samples. -/
def Event.Supplied : Event host → Prop
  | .enterPrelude state => state.reader.upcoming ≠ []
  | .enterFetch numSamples location state => Fetchable numSamples location state.reader
  | _ => True

/-- The cache has a bounded number of samples. -/
def Countable (reader : Reader host) : Prop :=
  0 ≤ reader.cacheCount ∧ reader.cacheCount < cacheSize

/-- What was fetched for a half-bit lets the cache be rewound to any end of it. -/
structure Rewindable (bitStart numSamples : ℕ) (reader : Reader host) : Prop
    extends InUse reader where
  /-- Where the half-bit ends at the earliest the cache has samples. -/
  enough : withMargin numSamples - threeQuarters (withMargin numSamples) < reader.cacheLoc
  /-- Sample numbers do not wrap. -/
  counted : bitStart + withMargin numSamples < 2 ^ 32

/-- What a supplied fetch does. -/
theorem getSomeSamples_safe (bitStart numSamples : ℕ) (some : 0 < numSamples) :
    Triple Event.Supplied Event.Safe (fun state : State host => InUse state.reader)
      (getSomeSamples (withMargin numSamples) bitStart) fun buffer state =>
        (buffer = none → Event.Safe (.nullDereference : Event host)) ∧
          (buffer ≠ none → Rewindable bitStart numSamples state.reader) := by
  refine Triple.get_bind fun start used => ?_
  refine Triple.through (fun _ state => state = start ∧
    Fetchable (withMargin numSamples) bitStart start.reader) ?_ fun _ => ?_
  · exact Triple.emit.weaken (fun state same supplied => ⟨True.intro, same, supplied⟩)
      fun _ _ both => both
  refine Triple.intro fun state both => Attains.triple ?_
  rcases both with ⟨rfl, fetchable⟩
  have positive : 0 < withMargin numSamples := by
    rw [withMargin_natCast]
    omega
  have enough := fetchable.rewindable
  have room := fetchable.room
  rw [Reader.reaches, Reader.obtains] at enough room
  rw [attains_bind]
  refine (skipTo_attains bitStart state used fetchable.reached (by omega)
    fetchable.located).mono ?_
  rintro arrived later early ⟨rfl, usedLater, loc, left, safe⟩
  have negative : ¬ withMargin numSamples < 0 := by omega
  simp only [Bool.not_true, Bool.false_eq_true, if_false, attains_bind, attains_get,
    attains_assignReader, negative]
  have remaining : later.reader.left = state.reader.left - state.reader.skips bitStart := by omega
  refine Attains.mono (collect_attains _ _ ⟨⟨usedLater.start, usedLater.inside,
    usedLater.room, usedLater.storing⟩, usedLater.bounded.inside, usedLater.bounded.room⟩ ?_) ?_
  · change later.reader.cacheLoc + (min _ later.reader.left : ℕ) < cacheSize
    rw [remaining]
    omega
  · rintro samples stop late ⟨length, usedStop, reachedLoc, safeLate⟩
    change stop.reader.cacheLoc =
      later.reader.cacheLoc + (min (withMargin numSamples).toNat later.reader.left : ℕ)
      at reachedLoc
    rw [remaining] at reachedLoc
    simp only [attains_pure]
    have rewindable : Rewindable bitStart numSamples stop.reader :=
      ⟨usedStop, by omega, fetchable.counted⟩
    refine ⟨?_, (fun impossible => by cases impossible), fun _ => rewindable⟩
    simp only [List.forall_mem_append, List.forall_mem_cons, List.not_mem_nil, false_implies,
      implies_true, and_true, true_and]
    exact ⟨safe, True.intro, safeLate⟩

omit [Arithmetic F] in
/-- Rewinding stays in the cache. -/
theorem Rewindable.rewound_nonneg {bitStart numSamples length : ℕ} {reader : Reader host}
    (rewindable : Rewindable bitStart numSamples reader)
    (spans : HalfBitLength numSamples length) :
    0 ≤ rewound reader.cacheCount bitStart numSamples (u32 ((bitStart : ℤ) + length)) := by
  have long := spans.long
  have short := spans.short
  have enough := rewindable.enough
  have counted := rewindable.counted
  have inside := rewindable.bounded.inside
  have margin := withMargin_natCast numSamples
  have ends : (u32 ((bitStart : ℤ) + length) : ℤ) = bitStart + length :=
    u32_of_lt (by omega) (by omega)
  rw [rewound, ends]
  exact tdiv_nonneg_of_neg_ten_lt (by omega)

omit [Arithmetic F] in
theorem safe_of_silent {event : Event host} (silent : event.Silent) : event.Safe := by
  cases event with
  | cacheIndex => exact silent.elim
  | nullDereference => exact silent.elim
  | _ => exact True.intro

variable (host) in
/-- An idle reader does not access the cache. -/
theorem getNextSample_uncached :
    Keeps Event.Supplied Event.Safe
      (fun state : State host => Countable state.reader ∧ state.reader.Idle) getNextSample := by
  refine Triple.intro fun start holds => Attains.triple ?_
  refine (getNextSample_attains start).mono ?_
  rintro result later trace ⟨_, rfl, reading⟩
  have idle := holds.2
  refine ⟨fun event member => ?_, ?_⟩
  · have here := reading event member
    cases event with
    | visit => exact True.intro
    | cacheIndex index =>
      rcases here.2 with replays | cached | storing
      · exact absurd replays.1 (by rw [idle.file]; decide)
      · exact absurd cached (by rw [idle.file]; decide)
      · exact absurd storing (by rw [idle.unstored]; decide)
    | _ => exact here.elim
  · rw [reader_afterNext, idle.next]
    refine ⟨?_, idle.idleNext⟩
    change Countable start.reader.idleNext
    unfold Reader.idleNext
    split
    · exact holds.1
    · exact holds.1

variable (host) in
/-- A supplied prelude is measured without dereferencing a null pointer. -/
theorem isValidPrelude_safe :
    Keeps Event.Supplied Event.Safe
      (fun state : State host => Countable state.reader ∧ state.reader.Idle) isValidPrelude := by
  have free : PreludeFree Event.Supplied Event.Safe
      fun state : State host => Countable state.reader ∧ state.reader.Idle :=
    ⟨getNextSample_uncached host, fun _ _ holds => holds, fun _ _ => True.intro⟩
  let also (state : State host) : Prop :=
    (Countable state.reader ∧ state.reader.Idle) ∧ state.reader.upcoming ≠ []
  have keeps (change : Prelude F → Prelude F) :
      Keeps Event.Supplied Event.Safe also (assignPrelude change) :=
    assign_keeps (fun _ holds => holds) fun _ _ => True.intro
  refine Triple.get_bind fun entered holds => ?_
  refine Triple.through (fun _ => also) ?_ fun _ => ?_
  · refine Triple.emit.weaken (fun state same supplied => ?_) fun _ _ both => both
    rw [same]
    exact ⟨True.intro, holds, supplied⟩
  refine Triple.bind (keeps _) fun _ => ?_
  refine Triple.get_keep fun _ _ => ?_
  refine Triple.bind (keeps _) fun _ => ?_
  refine Triple.intro fun start more => ?_
  have first : Triple Event.Supplied Event.Safe (fun state => state = start) getNextSample
      fun result state => result ≠ none ∧ Countable state.reader ∧ state.reader.Idle := by
    intro fuel state same assumed
    have kept := getNextSample_uncached host fuel state (by rw [same]; exact more.1) assumed
    refine ⟨kept.1, fun result returned => ⟨?_, kept.2 result returned⟩⟩
    have read := (getNextSample_attains state).ensures _ _ _ (Evaluates.of_run returned)
    rw [read.1, same, more.1.2.next]
    exact fun none => more.2 (List.head?_eq_none_iff.mp none)
  refine Triple.bind first fun result => ?_
  cases result with
  | none => exact Triple.intro fun state absurd => (absurd.1 rfl).elim
  | some x =>
    exact (free.measurePrelude_keeps _).weaken (fun _ both => both.2) fun _ _ holds => holds

variable (host) in
/-- The modes of a safe run. -/
theorem safeModes : Modes (Event.Supplied : Event host → Prop) Event.Safe
    (fun reader => Countable reader)
    (fun reader => Countable reader ∧ reader.Idle)
    (fun reader => InUse reader)
    (fun reader => InUse reader ∧ reader.readFromCache = true)
    (fun bitStart numSamples reader => Rewindable bitStart numSamples reader) where
  silent := fun event silent => safe_of_silent silent
  visitFile := fun _ _ => True.intro
  visitReady := fun _ _ => True.intro
  visitFetched := fun _ _ _ _ => True.intro
  idleFile := fun reader idle => idle.2.file
  replayingCache := fun reader replaying => replaying.2
  idleKnown := fun reader idle => idle.1
  replayingKnown := fun reader ⟨used, _⟩ =>
    ⟨used.start.trans used.bounded.inside, used.bounded.room⟩
  replayingReady := fun reader replaying => replaying.1
  clear := fun reader countable => ⟨countable, rfl, rfl⟩
  sample := getNextSample_uncached host
  valid := isValidPrelude_safe host
  start := by
    intro state estimate idle _ _
    have recorded : state.reader.fresh.recorded = 0 := if_neg (by
      rw [Reader.fresh, idle.2.file]
      exact Bool.false_ne_true)
    refine ⟨⟨le_refl _, ?_, ?_, fun _ => rfl⟩, idle.1.1, idle.1.2⟩
    · exact le_of_eq recorded.symm
    · rw [recorded]
      decide
  refuse := fun state _ idle _ _ => ⟨inUse_of_bounded (le_refl _) ⟨idle.1.1, idle.1.2⟩ rfl, rfl⟩
  unrecorded := fun reader ⟨used, cached⟩ =>
    ⟨inUse_of_bounded used.start ⟨used.bounded.inside, used.bounded.room⟩ cached, cached⟩
  restart := fun reader ⟨used, cached⟩ => ⟨inUse_of_bounded (le_refl _)
    ⟨used.start.trans used.bounded.inside, used.bounded.room⟩ cached, cached⟩
  fetch := fun bitStart numSamples some _ => getSomeSamples_safe bitStart numSamples some
  recorded := by
    intro bitStart numSamples reader rewindable unrecorded
    by_contra file
    rw [rewindable.storing (eq_false_of_ne_true file)] at unrecorded
    cases unrecorded
  turn := by
    intro bitStart numSamples reader writeToCache rewindable
    have used : InUse { reader with readFromCache := true, writeToCache := writeToCache } :=
      inUse_of_bounded rewindable.start ⟨rewindable.bounded.inside, rewindable.bounded.room⟩ rfl
    exact ⟨used, rewindable.enough, rewindable.counted⟩
  rewind := by
    intro bitStart numSamples length reader rewindable cached spans
    have nonnegative := rewindable.start.trans rewindable.bounded.inside
    exact ⟨inUse_of_bounded (rewindable.rewound_nonneg spans)
      ⟨rewound_le _ nonnegative spans.short, rewindable.bounded.room⟩ cached, cached⟩

/-- A process that analyses files from its start on accesses the sample cache in bounds only and
dereferences no null pointer, as long as its preludes and half-bits find enough samples. -/
theorem analyzeFiles_safe (files : List SourceFile) (fuel : ℕ)
    (supplied : ∀ event ∈ ((analyzeFiles files).run fuel (State.initial host)).trace,
      event.Supplied) :
    ∀ event ∈ ((analyzeFiles files).run fuel (State.initial host)).trace, event.Safe := by
  have each (files : List SourceFile) :
      Keeps Event.Supplied Event.Safe (fun state : State host => Countable state.reader)
        (analyzeFiles files) := by
    induction files with
    | nil => exact pure_keeps _
    | cons file rest ih =>
      refine Triple.bind ?_ fun result => Triple.bind ih fun _ => pure_keeps _
      cases contents : file.contents with
      | none =>
        rw [analyzeFile_missing contents]
        exact pure_keeps _
      | some bytes =>
        rw [analyzeFile_opened contents]
        refine Triple.bind (assign_keeps (fun _ holds => holds) fun _ _ => True.intro) fun _ => ?_
        exact Triple.bind (safeModes host).getPacket_keeps fun found => pure_keeps _
  have countable : Countable (State.initial host).reader :=
    ⟨le_refl _, show (0 : ℤ) < cacheSize by decide⟩
  exact (each files fuel (State.initial host) countable supplied).1

/-- `is_valid_prelude` dereferences its first sample also where the file has ended. -/
theorem isValidPrelude_atEnd {state : State host} (idle : state.reader.Idle)
    (ended : state.reader.upcoming = []) :
    (isValidPrelude : Decode host Bool).Observes state .nullDereference := by
  apply Observes.get_bind
  apply Attains.observes_bind
  rw [attains_emit]
  apply Attains.observes_bind
  rw [attains_assignPrelude]
  apply Observes.get_bind
  apply Attains.observes_bind
  rw [attains_assignPrelude]
  apply Attains.observes_bind
  apply (getNextSample_attains _).mono
  rintro result later trace ⟨rfl, rfl, _⟩
  have none : state.reader.next.1 = none := by rw [idle.next, ended]; rfl
  dsimp only
  rw [none]
  exact Observes.bind_left (Observes.emit _ _)

/-- `find_prelude_start` stops at a strong sample. -/
theorem findPreludeStart_triggers {state : State host} {sample : Cplx F} {rest : List (Cplx F)}
    (idle : state.reader.Idle) (more : state.reader.file.eof = false)
    (holds : state.reader.upcoming = sample :: rest)
    (strong : Arithmetic.lt (Arithmetic.literal (9 / 10)) sample.re = true) :
    (findPreludeStart : Decode host ℕ).Attains state fun result later _ =>
      result = state.reader.totalSamplesIn + 1 ∧
        later = { state with reader := state.reader.advanced } := by
  have advanced : state.reader.idleNext = state.reader.advanced := by
    rw [Reader.idleNext, if_neg (by rw [holds]; simp)]
  have open_ : state.reader.advanced.file.eof = false := more
  unfold findPreludeStart
  apply Attains.loop
  rw [attains_bind]
  apply (getNextSample_attains state).mono
  rintro result later trace ⟨rfl, rfl, _⟩
  rw [idle.next, idle.afterNext, holds, advanced, List.head?_cons]
  simp only [attains_bind, attains_get, open_, Bool.false_eq_true, if_false, strong, if_true,
    attains_pure]
  exact ⟨rfl, True.intro⟩

/-- A search that finds a strong sample at the end of the file dereferences a null pointer. -/
theorem getPacket_atEnd {state : State host} {sample : Cplx F}
    (holds : state.reader.upcoming = [sample]) (more : state.reader.file.eof = false)
    (strong : Arithmetic.lt (Arithmetic.literal (9 / 10)) sample.re = true) :
    (getPacket : Decode host _).Observes state .nullDereference := by
  unfold getPacket searchPrelude
  apply Observes.loop_here
  apply Attains.observes_bind
  rw [attains_assignReader]
  apply Attains.observes_bind
  rw [attains_assignReader]
  apply Attains.observes_bind
  have upcoming : Reader.upcoming { state.reader with
      readFromCache := false, writeToCache := false } = [sample] := holds
  refine Attains.mono (findPreludeStart_triggers ⟨rfl, rfl⟩ more upcoming strong) ?_
  rintro _ later trace ⟨rfl, rfl⟩
  apply Observes.get_bind
  have open_ : (Reader.advanced { state.reader with
      readFromCache := false, writeToCache := false }).file.eof = false := more
  dsimp only
  rw [if_neg (by rw [open_]; decide)]
  apply Observes.bind_left
  exact isValidPrelude_atEnd ⟨rfl, rfl⟩ (upcoming_advanced upcoming)

/-- A file that holds the strongest sample alone. -/
def strongFile : SourceFile := ⟨"/tmp/a".toList, some [255, 127], exampleName_fits⟩

/-- It makes a process dereference a null pointer. -/
theorem analyzeFiles_unsafe :
    ¬ ∀ (files : List SourceFile) (fuel : ℕ),
      ∀ event ∈ ((analyzeFiles files).run fuel (State.initial plainHost)).trace, event.Safe := by
  intro safe
  have strong : Arithmetic.lt (Arithmetic.literal (F := ℝ) (9 / 10))
      (toSample (F := ℝ) 255 127).re = true := by
    rw [lt_exact]
    show ((9 / 10 : ℚ) : ℝ) < (((255 : ℕ) : ℤ) - ((127 : ℚ) : ℝ)) / ((128 : ℚ) : ℝ)
    norm_num
  have seen : (analyzeFiles [strongFile]).Observes (State.initial plainHost) .nullDereference := by
    apply Observes.bind_left
    apply Attains.observes_bind
    rw [attains_assignReader]
    exact Observes.bind_left (getPacket_atEnd rfl rfl strong)
  obtain ⟨fuel, member⟩ := seen
  exact safe _ fuel _ member

end Runs

end FcTpms.Decoder
