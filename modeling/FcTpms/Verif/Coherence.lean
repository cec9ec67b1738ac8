import FcTpms.Verif.Modes
import FcTpms.Verif.Reading

/-!
# The cache and the file

While the cache is replayed, its samples are those of the file from the recorded place on, and the
next sample of the file is the one after the last of them. This holds in every run of `get_packet`
whose first attempts find either an empty cache or something to record: `cache_count` is not reset
when a prelude starts a new cache, and an attempt that is rejected at once records nothing.
-/

namespace FcTpms.Decoder

open Program Program.Prog

variable {F : Type} {host : Host F}

/-! ## Captures -/

/-- A capture file: the number of samples read before it was opened, and its samples as the filter
and the oscillator leave them. -/
structure Capture (F : Type) where
  /-- `total_samples_in` when the file was opened. -/
  base : ℕ
  /-- Its preprocessed samples. -/
  samples : List (Cplx F)

/-- The sample with the given number, counted as `total_samples_in` does. -/
def Capture.sample (capture : Capture F) (number : ℕ) : Option (Cplx F) :=
  if capture.base < number then capture.samples[number - capture.base - 1]? else none

/-- The capture that `get_packet` finds opened. -/
def Reader.capture [Arithmetic F] (reader : Reader host) : Capture F where
  base := reader.totalSamplesIn
  samples := reader.upcoming

/-- The reader is at the place in the capture that it counted. -/
structure Placed [Arithmetic F] (capture : Capture F) (reader : Reader host) : Prop where
  /-- The capture was opened before. -/
  opened : capture.base ≤ reader.totalSamplesIn
  /-- The rest of the capture comes next. -/
  rest : reader.upcoming = capture.samples.drop (reader.totalSamplesIn - capture.base)

/-- The first `count` samples of the cache are those of the capture up to the place in the file. -/
structure Cached (capture : Capture F) (count : ℤ) (reader : Reader host) : Prop where
  /-- Each sample is the one of its number. -/
  samples : ∀ j : ℕ, (j : ℤ) < count →
    capture.sample (reader.cacheLocInFile + j + 1) = some (reader.symbolCache j)
  /-- The file goes on with the sample after the last of them. -/
  total : (reader.totalSamplesIn : ℤ) = reader.cacheLocInFile + count

/-- All samples of the cache are those of the capture. -/
def Coherent (capture : Capture F) (reader : Reader host) : Prop :=
  Cached capture reader.cacheCount reader

/-- Samples of the file are stored after those already in the cache. -/
structure Storing (capture : Capture F) (reader : Reader host) : Prop where
  /-- Samples come from the file. -/
  file : reader.readFromCache = false
  /-- They are stored. -/
  storing : reader.writeToCache = true
  /-- The place in the cache is not before its start. -/
  start : 0 ≤ reader.cacheLoc
  /-- What was stored so far. -/
  cached : Cached capture reader.cacheLoc reader

/-- Samples of the cache are replayed. -/
structure Replaying (capture : Capture F) (reader : Reader host) : Prop where
  /-- Samples come from the cache. -/
  cache : reader.readFromCache = true
  /-- It does not have fewer than no samples. -/
  start : 0 ≤ reader.cacheCount
  /-- The place in the cache is not behind its end. -/
  inside : reader.cacheLoc ≤ reader.cacheCount
  /-- What is replayed. -/
  coherent : Coherent capture reader

section Steps

variable [Arithmetic F] {capture : Capture F} {reader : Reader host}

variable (reader) in
/-- A capture begins where it was opened. -/
theorem placed_capture : Placed reader.capture reader := by
  refine ⟨le_refl _, ?_⟩
  change reader.upcoming = reader.upcoming.drop (reader.totalSamplesIn - reader.totalSamplesIn)
  rw [Nat.sub_self, List.drop_zero]

/-- The next sample of the file has the next number. -/
theorem Placed.sample (placed : Placed capture reader) {sample : Cplx F} {rest : List (Cplx F)}
    (holds : reader.upcoming = sample :: rest) :
    capture.sample (reader.totalSamplesIn + 1) = some sample := by
  have opened := placed.opened
  rw [placed.rest] at holds
  have first := congrArg List.head? holds
  rw [List.head?_drop, List.head?_cons] at first
  have before : reader.totalSamplesIn + 1 - capture.base - 1 =
      reader.totalSamplesIn - capture.base := by omega
  rw [Capture.sample, if_pos (by omega), before]
  exact first

/-- Reading the file moves on to the next place. -/
theorem Placed.nextOfFile (placed : Placed capture reader) :
    Placed capture reader.nextOfFile.2 := by
  have opened := placed.opened
  have counted := totalSamplesIn_nextOfFile reader
  have rest := upcoming_nextOfFile reader
  cases holds : reader.upcoming with
  | nil =>
    rw [holds, List.tail_nil] at counted rest
    have same : reader.nextOfFile.2.totalSamplesIn = reader.totalSamplesIn := by simpa using counted
    refine ⟨by rw [same]; exact opened, ?_⟩
    rw [rest, same, ← placed.rest, holds]
  | cons sample more =>
    rw [holds, List.tail_cons, List.length_cons] at counted
    have same : reader.nextOfFile.2.totalSamplesIn = reader.totalSamplesIn + 1 := by omega
    refine ⟨by rw [same]; omega, ?_⟩
    have next : reader.totalSamplesIn + 1 - capture.base =
        reader.totalSamplesIn - capture.base + 1 := by omega
    rw [rest, same, placed.rest, List.tail_drop, next]

theorem Placed.leftCache (placed : Placed capture reader) : Placed capture reader.leftCache := by
  unfold Reader.leftCache
  split
  · exact ⟨placed.opened, placed.rest⟩
  · exact placed

/-- Reading a sample moves on in the capture or in the cache. -/
theorem Placed.next (placed : Placed capture reader) : Placed capture reader.next.2 := by
  unfold Reader.next
  split
  · exact ⟨placed.opened, placed.rest⟩
  · exact placed.leftCache.nextOfFile

/-- Storing the next sample of the file extends the cache. -/
theorem Storing.stored (storing : Storing capture reader) (placed : Placed capture reader)
    {sample : Cplx F} {rest : List (Cplx F)} (holds : reader.upcoming = sample :: rest) :
    Storing capture (reader.advanced.stored sample) := by
  have start := storing.start
  have place := storing.cached.total
  refine ⟨storing.file, storing.storing, ?_, ?_, ?_⟩
  · change 0 ≤ reader.cacheLoc + 1
    omega
  · intro j inside
    change (j : ℤ) < reader.cacheLoc + 1 at inside
    change capture.sample (reader.cacheLocInFile + j + 1) =
      some (Function.update reader.symbolCache reader.cacheLoc sample j)
    by_cases last : (j : ℤ) = reader.cacheLoc
    · have number : reader.cacheLocInFile + j + 1 = reader.totalSamplesIn + 1 := by omega
      rw [number, ← last, Function.update_self]
      exact placed.sample holds
    · rw [Function.update_of_ne last]
      exact storing.cached.samples j (by omega)
  · change ((reader.totalSamplesIn + 1 : ℕ) : ℤ) = reader.cacheLocInFile + (reader.cacheLoc + 1)
    omega

/-- The cache ends where samples are stored. -/
def Filled (capture : Capture F) (reader : Reader host) : Prop :=
  Storing capture reader ∧ reader.cacheCount = reader.cacheLoc

/-- Storing fills the cache unless the file has ended. -/
theorem Storing.nextOfFile (storing : Storing capture reader) (placed : Placed capture reader)
    (some : reader.cacheCount = reader.cacheLoc ∨ reader.upcoming ≠ []) :
    Filled capture reader.nextOfFile.2 := by
  unfold Reader.nextOfFile
  cases holds : reader.upcoming with
  | nil =>
    have filled : reader.cacheCount = reader.cacheLoc := some.resolve_right (fun more => more holds)
    have cached := storing.cached
    exact ⟨⟨storing.file, storing.storing, storing.start, cached.samples, cached.total⟩, filled⟩
  | cons sample rest =>
    dsimp only
    rw [if_pos storing.storing]
    exact ⟨storing.stored placed holds, rfl⟩

/-- The reader stores or replays samples. The cache ends where it stores, or it has stored nothing
yet and there is something to store. -/
def Ready (capture : Capture F) (reader : Reader host) : Prop :=
  Placed capture reader ∧
    ((Storing capture reader ∧ (reader.cacheCount = reader.cacheLoc ∨
      (reader.cacheLoc = 0 ∧ reader.upcoming ≠ []))) ∨ Replaying capture reader)

/-- The reader stores or replays samples, and the cache ends where it stores. -/
def Fetched (capture : Capture F) (reader : Reader host) : Prop :=
  Placed capture reader ∧ (Filled capture reader ∨ Replaying capture reader)

theorem Fetched.ready (fetched : Fetched capture reader) : Ready capture reader :=
  ⟨fetched.1, fetched.2.imp_left fun filled => ⟨filled.1, Or.inl filled.2⟩⟩

/-- Allocating a buffer leaves the cache alone. -/
theorem Ready.allocate (ready : Ready capture reader) (allocations : ℕ) :
    Ready capture { reader with allocations := allocations } := by
  refine ⟨⟨ready.1.opened, ready.1.rest⟩, ready.2.imp (fun storing => ?_) fun replaying => ?_⟩
  · exact ⟨⟨storing.1.file, storing.1.storing, storing.1.start, storing.1.cached.samples,
      storing.1.cached.total⟩, storing.2⟩
  · exact ⟨replaying.cache, replaying.start, replaying.inside, replaying.coherent.samples,
      replaying.coherent.total⟩

/-- Reading a sample of the cache, of the file behind it, or of the file. -/
theorem Ready.next (ready : Ready capture reader) : Fetched capture reader.next.2 := by
  refine ⟨ready.1.next, ?_⟩
  unfold Reader.next
  rcases ready with ⟨placed, storing | replaying⟩
  · have file : ¬ reader.Replays := fun replays => by
      rw [Reader.Replays, storing.1.file] at replays
      exact absurd replays.1 (by decide)
    rw [if_neg file, Reader.leftCache, if_neg (by rw [storing.1.file]; decide)]
    exact Or.inl (storing.1.nextOfFile placed (storing.2.imp_right fun fresh => fresh.2))
  · have inside := replaying.inside
    by_cases replays : reader.Replays
    · rw [if_pos replays]
      have before := replays.2
      refine Or.inr ⟨replaying.cache, replaying.start, ?_, replaying.coherent.samples,
        replaying.coherent.total⟩
      change reader.cacheLoc + 1 ≤ reader.cacheCount
      omega
    · have last : reader.cacheLoc = reader.cacheCount := by
        by_contra differ
        exact replays ⟨replaying.cache, by omega⟩
      have placedBehind := placed.leftCache
      rw [if_neg replays]
      rw [Reader.leftCache, if_pos replaying.cache] at placedBehind ⊢
      have coherent := replaying.coherent
      have storing : Storing capture
          { reader with readFromCache := false, writeToCache := true } := by
        refine ⟨rfl, rfl, ?_, ?_, ?_⟩
        · change 0 ≤ reader.cacheLoc
          rw [last]
          exact replaying.start
        · intro j before
          exact coherent.samples j (by rw [← last]; exact before)
        · change (reader.totalSamplesIn : ℤ) = reader.cacheLocInFile + reader.cacheLoc
          rw [last]
          exact coherent.total
      exact Or.inl (storing.nextOfFile placedBehind (Or.inl last.symm))

end Steps

/-! ## Runs -/

section Runs

variable [Arithmetic F]

/-- Whether an attempt that finds the file being read can start a cache: the cache is empty, or a
half-bit is decided and there is a sample to record for it. -/
def Startable (estimate : ℕ) (reader : Reader host) : Prop :=
  reader.readFromCache = false →
    reader.cacheCount = 0 ∨ (Admitted estimate ∧ reader.upcoming ≠ [])

/-- Every attempt can start the cache. -/
def Event.Startable : Event host → Prop
  | .enterAttempt estimate state => Decoder.Startable estimate state.reader
  | _ => True

/-- While the cache is replayed, it is coherent. -/
def Event.Coherent (capture : Capture F) : Event host → Prop
  | .visit state => state.reader.readFromCache = true → Decoder.Coherent capture state.reader
  | _ => True

variable {capture : Capture F}

omit [Arithmetic F] in
/-- Reading a sample is coherent in every mode. -/
theorem reading_coherent {reader : Reader host} {event : Event host}
    (reading : event.Reading reader)
    (coherent : reader.readFromCache = true → Coherent capture reader) :
    event.Coherent capture := by
  cases event with
  | visit state =>
    intro cached
    have here := reading cached
    have source := coherent here.1
    have same := here.2
    constructor
    · intro j before
      rw [same.place, same.samples]
      exact source.samples j (by rw [← same.count]; exact before)
    · rw [same.total, same.place, same.count]
      exact source.total
  | cacheIndex index => exact True.intro
  | _ => exact reading.elim

variable (host) in
/-- Reading a sample makes a ready reader one that has fetched. -/
theorem getNextSample_fetched {assume : Event host → Prop} :
    Triple assume (Event.Coherent capture) (fun state : State host => Ready capture state.reader)
      getNextSample fun _ state => Fetched capture state.reader := by
  refine Triple.intro fun start ready => Attains.triple ?_
  refine (getNextSample_attains start).mono ?_
  rintro result later trace ⟨_, rfl, reading⟩
  refine ⟨fun event member => reading_coherent (reading event member) fun cached => ?_, ?_⟩
  · rcases ready.2 with storing | replaying
    · rw [storing.1.file] at cached
      cases cached
    · exact replaying.coherent
  · rw [reader_afterNext]
    exact ready.next

variable (host) in
/-- An idle reader stays idle. -/
theorem getNextSample_idle {assume : Event host → Prop} :
    Keeps assume (Event.Coherent capture)
      (fun state : State host => Placed capture state.reader ∧ state.reader.Idle)
      getNextSample := by
  refine Triple.intro fun start holds => Attains.triple ?_
  refine (getNextSample_attains start).mono ?_
  rintro result later trace ⟨_, rfl, reading⟩
  refine ⟨fun event member => reading_coherent (reading event member) fun cached => ?_, ?_⟩
  · rw [holds.2.file] at cached
    cases cached
  · have next := congrArg Prod.snd holds.2.next
    rw [reader_afterNext]
    refine ⟨holds.1.next, ?_⟩
    rw [next]
    exact holds.2.idleNext

variable (host capture) in
/-- The modes of a coherent run. -/
theorem coherentModes : Modes (Event.Startable : Event host → Prop) (Event.Coherent capture)
    (fun reader => Placed capture reader)
    (fun reader => Placed capture reader ∧ reader.Idle)
    (fun reader => Ready capture reader)
    (fun reader => Placed capture reader ∧ Replaying capture reader)
    (fun _ _ reader => Fetched capture reader) where
  silent := by
    intro event silent
    cases event with
    | visit => exact silent.elim
    | _ => exact True.intro
  visitFile := by
    intro state file cached
    rw [file] at cached
    cases cached
  visitReady := by
    intro state ready cached
    rcases ready.2 with storing | replaying
    · rw [storing.1.file] at cached
      cases cached
    · exact replaying.coherent
  visitFetched := by
    intro bitStart numSamples state fetched cached
    rcases fetched.2 with filled | replaying
    · rw [filled.1.file] at cached
      cases cached
    · exact replaying.coherent
  idleFile := fun reader idle => idle.2.file
  replayingCache := fun reader replaying => replaying.2.cache
  idleKnown := fun reader idle => idle.1
  replayingKnown := fun reader replaying => replaying.1
  replayingReady := fun reader replaying => ⟨replaying.1, Or.inr replaying.2⟩
  clear := fun reader placed => ⟨⟨placed.opened, placed.rest⟩, rfl, rfl⟩
  sample := getNextSample_idle host
  valid := by
    have free : PreludeFree Event.Startable (Event.Coherent capture)
        fun state : State host => Placed capture state.reader ∧ state.reader.Idle := by
      refine ⟨getNextSample_idle host, fun _ _ holds => holds, fun state holds cached => ?_⟩
      rw [holds.2.file] at cached
      cases cached
    exact free.isValidPrelude_keeps (fun _ _ => True.intro) True.intro
  start := by
    intro state estimate idle startable admitted
    refine ⟨⟨idle.1.opened, idle.1.rest⟩, Or.inl ⟨⟨idle.2.file, rfl, le_refl _, ?_, ?_⟩, ?_⟩⟩
    · intro j before
      change (j : ℤ) < 0 at before
      omega
    · change (state.reader.totalSamplesIn : ℤ) = state.reader.totalSamplesIn + 0
      omega
    · exact (startable idle.2.file).imp_right fun both => ⟨rfl, both.2⟩
  refuse := by
    intro state estimate idle startable refused
    have empty : state.reader.cacheCount = 0 :=
      (startable idle.2.file).resolve_right fun both => refused both.1
    refine ⟨⟨idle.1.opened, idle.1.rest⟩, rfl, le_of_eq empty.symm, le_of_eq empty.symm, ?_, ?_⟩
    · intro j before
      change (j : ℤ) < state.reader.cacheCount at before
      omega
    · change (state.reader.totalSamplesIn : ℤ) =
        state.reader.totalSamplesIn + state.reader.cacheCount
      omega
  unrecorded := fun reader replaying => ⟨⟨replaying.1.opened, replaying.1.rest⟩,
    replaying.2.cache, replaying.2.start, replaying.2.inside, replaying.2.coherent.samples,
    replaying.2.coherent.total⟩
  restart := fun reader replaying => ⟨⟨replaying.1.opened, replaying.1.rest⟩,
    replaying.2.cache, replaying.2.start, replaying.2.start, replaying.2.coherent.samples,
    replaying.2.coherent.total⟩
  fetch := by
    intro bitStart numSamples some few
    have positive : 0 < withMargin numSamples := by
      rw [withMargin_natCast]
      omega
    refine (getSomeSamples_triple positive bitStart (getNextSample_fetched host)
      (fun _ fetched => fetched.ready) ?_ ?_ fun _ => True.intro).weaken (fun _ ready => ready)
        fun _ _ fetched => ⟨fun _ => True.intro, fetched⟩
    · exact fun _ allocations ready => ready.allocate allocations
    · intro state ready cached
      rcases ready.2 with storing | replaying
      · rw [storing.1.file] at cached
        cases cached
      · exact replaying.coherent
  recorded := by
    intro bitStart numSamples reader fetched unrecorded
    rcases fetched.2 with filled | replaying
    · rw [filled.1.storing] at unrecorded
      cases unrecorded
    · exact replaying.cache
  turn := by
    intro bitStart numSamples reader writeToCache fetched
    refine ⟨⟨fetched.1.opened, fetched.1.rest⟩, Or.inr ?_⟩
    rcases fetched.2 with ⟨storing, filled⟩ | replaying
    · have cached := storing.cached
      rw [← filled] at cached
      refine ⟨rfl, ?_, le_of_eq filled.symm, cached.samples, cached.total⟩
      change 0 ≤ reader.cacheCount
      rw [filled]
      exact storing.start
    · exact ⟨rfl, replaying.start, replaying.inside, replaying.coherent.samples,
        replaying.coherent.total⟩
  rewind := by
    intro bitStart numSamples length reader fetched cached spans
    refine ⟨⟨fetched.1.opened, fetched.1.rest⟩, ?_⟩
    rcases fetched.2 with filled | replaying
    · rw [filled.1.file] at cached
      cases cached
    · refine ⟨cached, replaying.start, ?_, replaying.coherent.samples, replaying.coherent.total⟩
      exact rewound_le _ replaying.start spans.short

/-- In every run of `get_packet` whose attempts can start the cache, the cache is coherent with the
file whenever it is replayed. -/
theorem getPacket_coherent (fuel : ℕ) (start : State host)
    (startable : ∀ estimate state,
      Event.enterAttempt estimate state ∈ (getPacket.run fuel start).trace →
        Startable estimate state.reader)
    (state : State host) (reached : Event.visit state ∈ (getPacket.run fuel start).trace)
    (replaying : state.reader.readFromCache = true) :
    Coherent start.reader.capture state.reader := by
  have assumed : ∀ event ∈ (getPacket.run fuel start).trace, event.Startable := by
    intro event member
    cases event with
    | enterAttempt estimate state => exact startable estimate state member
    | _ => exact True.intro
  have modes := coherentModes host start.reader.capture
  exact (modes.getPacket_keeps fuel start (placed_capture _) assumed).1 _ reached replaying

end Runs

end FcTpms.Decoder
