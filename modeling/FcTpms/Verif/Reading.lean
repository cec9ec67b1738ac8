import FcTpms.Decoder.Invariants
import FcTpms.Decoder.Steps

/-!
# Reading one sample as a function

`get_next_sample` runs straight through, so its effect is a function of the sample reader
(`Reader.next`). The samples still in the file are `Reader.upcoming`: the rest of the file, passed
through the filter and the oscillator.
-/

namespace FcTpms.Decoder

open Program Program.Prog

variable {F : Type} [Arithmetic F] {host : Host F}

/-- The filter and the oscillator that the next sample of the file passes through. -/
def Reader.device (reader : Reader host) : Dsp host := reader.dsp.getD (Dsp.initial host)

/-- Preprocess all samples of a file. -/
def Dsp.process (dsp : Dsp host) : List UInt8 → List (Cplx F)
  | first :: second :: rest =>
    (dsp.preprocess (toSample first second)).2 ::
      (dsp.preprocess (toSample first second)).1.process rest
  | _ => []

/-- The preprocessed samples that the file still holds. -/
def Reader.upcoming (reader : Reader host) : List (Cplx F) :=
  reader.device.process reader.file.rest

/-- The reader after it read a sample from the file. -/
def Reader.advanced (reader : Reader host) : Reader host :=
  { reader with
    file := { reader.file with rest := reader.file.rest.drop 2 }
    totalSamplesIn := reader.totalSamplesIn + 1
    dsp := some (reader.device.preprocess
      (toSample (reader.file.rest.getD 0 0) (reader.file.rest.getD 1 0))).1 }

/-- The reader after it met the end of the file. -/
def Reader.ended (reader : Reader host) : Reader host :=
  { reader with file := { rest := [], eof := true }, dsp := some reader.device }

/-- The reader after it stored a sample in the cache. -/
def Reader.stored (reader : Reader host) (sample : Cplx F) : Reader host :=
  { reader with
    symbolCache := Function.update reader.symbolCache reader.cacheLoc sample
    cacheLoc := reader.cacheLoc + 1
    cacheCount := reader.cacheLoc + 1 }

/-- The reader after it replayed a sample of the cache. -/
def Reader.replayed (reader : Reader host) : Reader host :=
  { reader with cacheLoc := reader.cacheLoc + 1, dsp := some reader.device }

/-- The reader after it came to the end of the cache. -/
def Reader.leftCache (reader : Reader host) : Reader host :=
  if reader.readFromCache then { reader with readFromCache := false, writeToCache := true }
  else reader

/-- Whether the next sample is a replayed one. -/
def Reader.Replays (reader : Reader host) : Prop :=
  reader.readFromCache = true ∧ reader.cacheLoc < reader.cacheCount

instance (reader : Reader host) : Decidable reader.Replays := inferInstanceAs (Decidable (_ ∧ _))

/-- The reader once the filter and the oscillator exist. -/
def Reader.created (reader : Reader host) : Reader host :=
  { reader with dsp := some reader.device }

/-- The part of `get_next_sample` that reads the file: the sample, or none, and the reader. -/
def Reader.nextOfFile (reader : Reader host) : Option (Cplx F) × Reader host :=
  match reader.upcoming with
  | [] => (none, reader.ended)
  | sample :: _ =>
    if reader.writeToCache then
      (if reader.cacheLoc + 1 ≥ cacheSize then none else some sample,
        reader.advanced.stored sample)
    else (some sample, reader.advanced)

/-- `get_next_sample`: the sample, or none, and the reader. -/
def Reader.next (reader : Reader host) : Option (Cplx F) × Reader host :=
  if reader.Replays then (some (reader.symbolCache reader.cacheLoc), reader.replayed)
  else reader.leftCache.nextOfFile

/-- The same cache, recorded from the same place. -/
structure Reader.SameCache (reader other : Reader host) : Prop where
  /-- As many samples are recorded. -/
  count : reader.cacheCount = other.cacheCount
  /-- They are the same. -/
  samples : reader.symbolCache = other.symbolCache
  /-- They have the same place in the file. -/
  place : reader.cacheLocInFile = other.cacheLocInFile
  /-- As many samples of the file have been read. -/
  total : reader.totalSamplesIn = other.totalSamplesIn

/-- The events of reading one sample: nothing but the cache location is assigned while the cache is
replayed, and only the cache location is accessed. -/
def Event.Reading (reader : Reader host) : Event host → Prop
  | .visit state => state.reader.readFromCache = true →
      reader.readFromCache = true ∧ state.reader.SameCache reader
  | .cacheIndex index => index = reader.cacheLoc ∧
      (reader.Replays ∨ reader.readFromCache = true ∨ reader.writeToCache = true)
  | _ => False

omit [Arithmetic F] in
/-- While the cache is not replayed every assignment is harmless. -/
theorem reading_visit {reader : Reader host} {state : State host}
    (file : state.reader.readFromCache = false) : (Event.visit state).Reading reader := by
  intro replays
  rw [file] at replays
  cases replays

omit [Arithmetic F] in
/-- What reading may cause in one reader it may cause in another with the same cache, unless that
one has just left its cache. -/
theorem reading_of_same {reader other : Reader host} {event : Event host}
    (reading : event.Reading other) (same : other.SameCache reader)
    (loc : other.cacheLoc = reader.cacheLoc)
    (replays : other.readFromCache = true → reader.readFromCache = true)
    (stores : other.writeToCache = true →
      reader.readFromCache = true ∨ reader.writeToCache = true) :
    event.Reading reader := by
  cases event with
  | visit state =>
    intro cached
    have here := reading cached
    refine ⟨replays here.1, ?_, ?_, ?_, ?_⟩
    · rw [here.2.count, same.count]
    · rw [here.2.samples, same.samples]
    · rw [here.2.place, same.place]
    · rw [here.2.total, same.total]
  | cacheIndex index =>
    refine ⟨reading.1.trans loc, Or.inr ?_⟩
    rcases reading.2 with replaying | cached | storing
    · exact Or.inl (replays replaying.1)
    · exact Or.inl (replays cached)
    · exact stores storing
  | _ => exact reading.elim

/-! ## The function computes `get_next_sample` -/

theorem upcoming_of_rest {reader : Reader host} {first second : UInt8} {rest : List UInt8}
    (read : reader.file.rest = first :: second :: rest) :
    reader.upcoming = (reader.device.preprocess (toSample first second)).2 ::
      (reader.device.preprocess (toSample first second)).1.process rest := by
  rw [Reader.upcoming, read, Dsp.process]

/-- Creating the filter and the oscillator changes nothing else. -/
theorem initializeOnce_attains (state : State host) :
    (initializeOnce : Decode host Unit).Attains state fun _ later trace =>
      later = { state with reader := { state.reader with dsp := some state.reader.device } } ∧
        ∀ event ∈ trace, event.Reading state.reader := by
  simp only [initializeOnce, attains_bind, attains_get, List.nil_append]
  cases found : state.reader.dsp with
  | none =>
    simp only [attains_assignReader, List.mem_singleton, forall_eq]
    refine ⟨?_, fun replays => ⟨replays, rfl, rfl, rfl, rfl⟩⟩
    simp only [Reader.device, found, Option.getD_none]
  | some dsp =>
    simp only [attains_pure, List.not_mem_nil, false_implies, implies_true, and_true]
    rcases state with ⟨reader, prelude, packet, valid⟩
    rcases reader
    simp_all [Reader.device]

omit [Arithmetic F] in
/-- Storing a sample. -/
theorem storeInCache_attains (sample : Cplx F) (state : State host)
    (file : state.reader.readFromCache = false) (caching : state.reader.writeToCache = true) :
    (storeInCache sample : Decode host (Option (Cplx F))).Attains state fun result later trace =>
      result = (if state.reader.cacheLoc + 1 ≥ cacheSize then none else some sample) ∧
        later = { state with
          reader := state.reader.stored sample
          validPkt := if state.reader.cacheLoc + 1 ≥ cacheSize then false else state.validPkt } ∧
        ∀ event ∈ trace, event.Reading state.reader := by
  simp only [storeInCache, attains_bind, attains_get, attains_emit, attains_assignReader]
  by_cases full : state.reader.cacheLoc + 1 ≥ cacheSize
  · simp only [full, if_true, attains_bind, attains_setValidPkt, attains_pure]
    simp [Event.Reading, Reader.stored, file, caching]
  · simp only [full, if_false, attains_pure]
    simp [Event.Reading, Reader.stored, file, caching]

/-- The state after `get_next_sample` read the file. -/
def State.afterFile (state : State host) : State host :=
  { state with
    reader := state.reader.nextOfFile.2
    validPkt := if state.reader.upcoming ≠ [] ∧ state.reader.writeToCache = true ∧
      state.reader.cacheLoc + 1 ≥ cacheSize then false else state.validPkt }

/-- Reading the file once the filter and the oscillator exist. -/
theorem readFromFile_attains (state : State host)
    (created : state.reader.dsp = some state.reader.device)
    (file : state.reader.readFromCache = false) :
    (readFromFile : Decode host (Option (Cplx F))).Attains state fun result later trace =>
      result = state.reader.nextOfFile.1 ∧ later = state.afterFile ∧
        ∀ event ∈ trace, event.Reading state.reader := by
  simp only [readFromFile, attains_bind, readTwoBytes, attains_get, List.nil_append]
  rcases bytes : state.reader.file.rest with _ | ⟨first, _ | ⟨second, rest⟩⟩
  · have empty : state.reader.upcoming = [] := by rw [Reader.upcoming, bytes, Dsp.process]; simp
    simp only [attains_bind, attains_assignReader, attains_pure]
    simp [Reader.nextOfFile, State.afterFile, empty, Reader.ended, created, reading_visit, file]
  · have empty : state.reader.upcoming = [] := by rw [Reader.upcoming, bytes, Dsp.process]; simp
    simp only [attains_bind, attains_assignReader, attains_pure]
    simp [Reader.nextOfFile, State.afterFile, empty, Reader.ended, created, reading_visit, file]
  · have more := upcoming_of_rest bytes
    simp only [attains_bind, attains_assignReader, attains_pure, attains_get, created]
    by_cases caching : state.reader.writeToCache = true
    · simp only [caching, if_true]
      refine (storeInCache_attains _ _ (by exact file) (by rfl)).mono ?_
      rintro result later trace ⟨rfl, rfl, reading⟩
      have same : ∀ event ∈ trace, event.Reading state.reader := by
        intro event member
        have here := reading event member
        cases event with
        | visit later => exact fun cached => absurd ((here cached).1.symm.trans file) (by decide)
        | cacheIndex index => exact ⟨here.1, Or.inr (Or.inr caching)⟩
        | _ => exact here.elim
      simpa [Reader.nextOfFile, State.afterFile, more, Reader.advanced, caching, bytes,
        reading_visit, file] using same
    · simp only [caching]
      simp [Reader.nextOfFile, State.afterFile, more, Reader.advanced, caching, bytes,
        reading_visit, file]

/-- Creating the filter and the oscillator early makes no difference. -/
theorem nextOfFile_created (reader : Reader host) :
    reader.created.nextOfFile = reader.nextOfFile := by
  have same : reader.created.upcoming = reader.upcoming := rfl
  unfold Reader.nextOfFile
  rw [same]
  rfl

/-- Reading the file after creating the filter and the oscillator. -/
theorem readFromFile_created (state : State host)
    (file : state.reader.readFromCache = false) :
    (readFromFile : Decode host (Option (Cplx F))).Attains
      { state with reader := state.reader.created } fun result later trace =>
        result = state.reader.nextOfFile.1 ∧ later = state.afterFile ∧
          ∀ event ∈ trace, event.Reading state.reader := by
  have same : State.afterFile { state with reader := state.reader.created } = state.afterFile := by
    have upcoming : state.reader.created.upcoming = state.reader.upcoming := rfl
    simp only [State.afterFile, nextOfFile_created, upcoming]
    rfl
  have attains := readFromFile_attains { state with reader := state.reader.created } rfl file
  rw [same] at attains
  rw [nextOfFile_created] at attains
  refine attains.mono ?_
  rintro result later trace ⟨read, ended, reading⟩
  exact ⟨read, ended, fun event member => reading_of_same (reading event member)
    ⟨rfl, rfl, rfl, rfl⟩ rfl id Or.inr⟩

/-- The state after `get_next_sample`. -/
def State.afterNext (state : State host) : State host :=
  if state.reader.Replays then { state with reader := state.reader.replayed }
  else { state with reader := state.reader.leftCache }.afterFile

omit [Arithmetic F] in
/-- After the end of the cache samples come from the file. -/
@[simp] theorem readFromCache_leftCache (reader : Reader host) :
    reader.leftCache.readFromCache = false := by
  unfold Reader.leftCache
  split
  · rfl
  · rename_i file
    exact eq_false_of_ne_true file

omit [Arithmetic F] in
@[simp] theorem cacheLoc_leftCache (reader : Reader host) :
    reader.leftCache.cacheLoc = reader.cacheLoc := by
  unfold Reader.leftCache
  split <;> rfl

omit [Arithmetic F] in
@[simp] theorem cacheCount_leftCache (reader : Reader host) :
    reader.leftCache.cacheCount = reader.cacheCount := by
  unfold Reader.leftCache
  split <;> rfl

omit [Arithmetic F] in
@[simp] theorem cacheLocInFile_leftCache (reader : Reader host) :
    reader.leftCache.cacheLocInFile = reader.cacheLocInFile := by
  unfold Reader.leftCache
  split <;> rfl

omit [Arithmetic F] in
@[simp] theorem totalSamplesIn_leftCache (reader : Reader host) :
    reader.leftCache.totalSamplesIn = reader.totalSamplesIn := by
  unfold Reader.leftCache
  split <;> rfl

/-- `get_next_sample` computes `Reader.next`. -/
theorem getNextSample_attains (state : State host) :
    (getNextSample : Decode host (Option (Cplx F))).Attains state fun result later trace =>
      result = state.reader.next.1 ∧ later = state.afterNext ∧
        ∀ event ∈ trace, event.Reading state.reader := by
  rw [getNextSample, attains_bind]
  refine (initializeOnce_attains state).mono ?_
  rintro _ _ early ⟨rfl, earlyReading⟩
  rw [attains_bind, attains_get]
  by_cases replays : state.reader.Replays
  · have before : ¬ state.reader.cacheLoc ≥ state.reader.cacheCount := by
      have inside := replays.2
      omega
    simp only [replays.1, if_true, before, if_false, attains_bind, attains_emit,
      attains_assignReader, attains_pure]
    have access : (Event.cacheIndex state.reader.cacheLoc).Reading state.reader :=
      ⟨rfl, Or.inl replays⟩
    have moved (later : State host) (same : later.reader.SameCache state.reader) :
        (Event.visit later).Reading state.reader := fun _ => ⟨replays.1, same⟩
    refine ⟨?_, ?_, ?_⟩
    · rw [Reader.next, if_pos replays]
    · rw [State.afterNext, if_pos replays]
      simp only [Reader.replayed, replays.1]
    · simp only [List.forall_mem_append, List.forall_mem_cons, List.not_mem_nil, false_implies,
        implies_true, and_true, true_and]
      exact ⟨earlyReading, access, moved _ ⟨rfl, rfl, rfl, rfl⟩⟩
  · have file := readFromFile_created { state with reader := state.reader.leftCache }
      (readFromCache_leftCache _)
    rw [Reader.next, if_neg replays, State.afterNext, if_neg replays]
    by_cases cached : state.reader.readFromCache = true
    · have behind : state.reader.cacheLoc ≥ state.reader.cacheCount := by
        by_contra before
        exact replays ⟨cached, by omega⟩
      simp only [cached, if_true, behind, attains_bind, attains_assignReader]
      rw [Reader.leftCache, if_pos cached] at file ⊢
      refine file.mono ?_
      rintro _ _ late ⟨rfl, rfl, lateReading⟩
      refine ⟨rfl, rfl, ?_⟩
      simp only [List.forall_mem_append, List.forall_mem_cons, List.not_mem_nil, false_implies,
        implies_true, and_true, true_and]
      exact ⟨earlyReading, reading_visit rfl, reading_visit rfl, fun event member =>
        reading_of_same (lateReading event member) ⟨rfl, rfl, rfl, rfl⟩ rfl (fun _ => cached)
          fun _ => Or.inl cached⟩
    · dsimp only
      rw [Reader.leftCache, if_neg cached] at file ⊢
      rw [if_neg cached]
      refine file.mono ?_
      rintro _ _ late ⟨rfl, rfl, lateReading⟩
      refine ⟨rfl, rfl, ?_⟩
      simp only [List.forall_mem_append, List.not_mem_nil, false_implies, implies_true, true_and]
      exact ⟨earlyReading, lateReading⟩

/-- The sample reader after `get_next_sample`. -/
theorem reader_afterNext (state : State host) : state.afterNext.reader = state.reader.next.2 := by
  unfold State.afterNext Reader.next
  split <;> rfl

/-! ## Reading the file alone -/

/-- The samples after the first one that the file holds. -/
theorem upcoming_advanced {reader : Reader host} {sample : Cplx F} {rest : List (Cplx F)}
    (holds : reader.upcoming = sample :: rest) : reader.advanced.upcoming = rest := by
  rcases bytes : reader.file.rest with _ | ⟨first, _ | ⟨second, more⟩⟩
  · simp [Reader.upcoming, bytes, Dsp.process] at holds
  · simp [Reader.upcoming, bytes, Dsp.process] at holds
  · rw [upcoming_of_rest bytes, List.cons.injEq] at holds
    rw [← holds.2]
    simp [Reader.upcoming, Reader.advanced, Reader.device, bytes]

@[simp] theorem upcoming_ended (reader : Reader host) : reader.ended.upcoming = [] := by
  simp [Reader.upcoming, Reader.ended, Dsp.process]

@[simp] theorem upcoming_stored (reader : Reader host) (sample : Cplx F) :
    (reader.stored sample).upcoming = reader.upcoming := rfl

@[simp] theorem upcoming_replayed (reader : Reader host) :
    reader.replayed.upcoming = reader.upcoming := rfl

@[simp] theorem upcoming_leftCache (reader : Reader host) :
    reader.leftCache.upcoming = reader.upcoming := by
  unfold Reader.leftCache
  split <;> rfl

/-- Reading the file drops its first sample. -/
@[simp] theorem upcoming_nextOfFile (reader : Reader host) :
    reader.nextOfFile.2.upcoming = reader.upcoming.tail := by
  unfold Reader.nextOfFile
  split
  · rename_i empty
    rw [upcoming_ended, empty, List.tail_nil]
  · rename_i sample rest holds
    rw [holds, List.tail_cons, ← upcoming_advanced holds]
    split <;> rfl

@[simp] theorem readFromCache_nextOfFile (reader : Reader host) :
    reader.nextOfFile.2.readFromCache = reader.readFromCache := by
  unfold Reader.nextOfFile
  split
  · rfl
  · split <;> rfl

/-- Every sample of the file is counted. -/
@[simp] theorem totalSamplesIn_nextOfFile (reader : Reader host) :
    reader.nextOfFile.2.totalSamplesIn + reader.upcoming.tail.length =
      reader.totalSamplesIn + reader.upcoming.length := by
  unfold Reader.nextOfFile
  split
  · rename_i empty
    rw [empty]
    rfl
  · rename_i sample rest holds
    rw [holds, List.tail_cons, List.length_cons]
    have counted : reader.advanced.totalSamplesIn = reader.totalSamplesIn + 1 := rfl
    split
    · change reader.advanced.totalSamplesIn + _ = _
      omega
    · change reader.advanced.totalSamplesIn + _ = _
      omega

/-- A sample read from the file is one that it holds. -/
theorem upcoming_of_nextOfFile {reader : Reader host} {sample : Cplx F}
    (read : reader.nextOfFile.1 = some sample) : reader.upcoming ≠ [] := by
  intro empty
  rw [Reader.nextOfFile, empty] at read
  cases read

/-- Neither replaying nor caching. -/
structure Reader.Idle (reader : Reader host) : Prop where
  /-- Samples come from the file. -/
  file : reader.readFromCache = false
  /-- They are not stored. -/
  unstored : reader.writeToCache = false

/-- The reader after an idle `get_next_sample`. -/
def Reader.idleNext (reader : Reader host) : Reader host :=
  if reader.upcoming = [] then reader.ended else reader.advanced

/-- An idle `get_next_sample` returns the next sample of the file. -/
theorem Reader.Idle.next {reader : Reader host} (idle : reader.Idle) :
    reader.next = (reader.upcoming.head?, reader.idleNext) := by
  have replays : ¬ reader.Replays := fun replays => by
    rw [Reader.Replays, idle.file] at replays
    exact absurd replays.1 (by decide)
  rw [Reader.next, if_neg replays, Reader.leftCache, if_neg (by rw [idle.file]; decide),
    Reader.nextOfFile, Reader.idleNext]
  cases reader.upcoming with
  | nil => rfl
  | cons sample rest =>
    dsimp only
    rw [if_neg (by rw [idle.unstored]; decide), if_neg (List.cons_ne_nil _ _)]
    rfl

/-- An idle `get_next_sample` changes the sample reader only. -/
theorem Reader.Idle.afterNext {state : State host} (idle : state.reader.Idle) :
    state.afterNext = { state with reader := state.reader.idleNext } := by
  have replays : ¬ state.reader.Replays := fun replays => by
    rw [Reader.Replays, idle.file] at replays
    exact absurd replays.1 (by decide)
  have next := congrArg Prod.snd idle.next
  rw [Reader.next, if_neg replays, Reader.leftCache, if_neg (by rw [idle.file]; decide)] at next
  rw [State.afterNext, if_neg replays, Reader.leftCache, if_neg (by rw [idle.file]; decide),
    State.afterFile, next, if_neg]
  rw [idle.unstored]
  exact fun both => absurd both.2.1 (by decide)

theorem Reader.Idle.idleNext {reader : Reader host} (idle : reader.Idle) :
    reader.idleNext.Idle := by
  unfold Reader.idleNext
  split
  · exact ⟨idle.file, idle.unstored⟩
  · exact ⟨idle.file, idle.unstored⟩

end FcTpms.Decoder
