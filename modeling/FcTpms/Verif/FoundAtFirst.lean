import FcTpms.Verif.LastEstimate
import FcTpms.Verif.StaleCache
import FcTpms.Verif.Transmissions

/-!
# Found at the first attempt

A file that carries an ideal signal with at least 40000 samples behind its sync bits is read without
trouble: its prelude is followed by samples, the first attempt finds the packet, and each half-bit
of it finds enough samples. So a process of such files meets the conditions under which the decoder
is safe, its cache is coherent with the file, and `get_success` tells the result.
-/

namespace FcTpms.Decoder

open Program Program.Prog Arithmetic

/-! ## Attempts -/

section Ends

variable {F : Type} {host : Host F} [Arithmetic F]

/-- The search for a prelude is supplied. -/
theorem supplied_of_searching {event : Event host} (searching : event.Searching) :
    event.Supplied := by
  cases event with
  | enterPrelude => exact searching
  | enterFetch => exact searching.elim
  | _ => exact True.intro

/-- Without a call of `try_to_get_packet_symbols` there is no cache to start. -/
theorem startable_of_calm {event : Event host} (calm : event.Calm) : event.Startable := by
  cases event with
  | enterAttempt => exact calm.elim
  | _ => exact True.intro

/-- An attempt that finds a packet visits the state that it leaves. -/
theorem attempt_visits (estimate : ℕ) (state : State host) :
    (attempt estimate : Decode host _).Ensures state fun result later trace =>
      result ≠ none → Event.visit later ∈ trace := by
  simp only [attempt, tryToGetPacketSymbols, ensures_bind, ensures_get, ensures_emit,
    ensures_setValidPkt]
  intro _ first early _
  split
  · simp
  · simp only [getPacketSymbols, ensures_bind]
    intro _ second copied _ _ third copied' _ symbol fourth middle _
    rw [ensures_get]
    split
    · simp
    · rw [ensures_bind]
      intro collected fifth late _
      cases collected with
      | none => simp
      | some packetSyms =>
        simp only [ensures_bind, ensures_setValidPkt, ensures_get]
        split
        · simp
        · simp only [ensures_pure, ensures_bind, ensures_get]
          split
          · simp only [ensures_pure, ensures_bind, ensures_get]
            split
            · simp
            · simp
          · simp

/-- A first attempt that finds a packet replays the cache. -/
theorem attempt_replays {estimate : ℕ} {state : State host} (idle : state.reader.Idle)
    (startable : Startable estimate state.reader) :
    (attempt estimate : Decode host _).Ensures state fun result later _ =>
      result ≠ none → later.reader.readFromCache = true := by
  intro result later trace evaluates found
  have modes := coherentModes host state.reader.capture
  obtain ⟨_, rest, opened, calm⟩ := attempt_opens estimate state result later trace evaluates
  have assumed : ∀ event ∈ trace, event.Startable := by
    rw [opened]
    intro event member
    rcases List.mem_cons.mp member with rfl | behind
    · exact startable
    · exact startable_of_calm (calm event behind)
  have placed := placed_capture state.reader
  have ended := ((modes.firstAttempt_triple estimate).of_assumed ⟨placed, idle⟩ evaluates assumed).2
  exact (ended.2 found).2.cache

end Ends

/-! ## Runs of the search -/

variable {host : Host ℝ}

/-- A run of the search that finds a packet at its first attempt, and enough samples for that. Its
symbols have at most twice `longest` and one sample. -/
structure FoundAtFirst (longest : ℕ) (later : State host) (trace : List (Event host)) : Prop where
  entered : ∃ state, Event.enterPrelude state ∈ trace
  fetched : fetches trace ≠ []
  supplied : ∀ event ∈ trace, event.Supplied
  startable : ∀ event ∈ trace, event.Startable
  tried : ∃ halfLength ≤ longest, tries trace = [(2 * halfLength + 1, 2 * halfLength + 1)]
  visited : Event.visit later ∈ trace
  replaying : later.reader.readFromCache = true
  stocked : 0 < later.reader.cacheCount

/-- A file that carries an ideal signal, with half-bits of at most `longest` samples and at least
40000 samples behind its sync bits, however the filter and the oscillator begin. -/
def Generous (host : Host ℝ) (longest : ℕ) (bytes : List UInt8) : Prop :=
  ∀ dsp : Dsp host, ∃ payload lead trigger rest freq halfLength lowStart syncStart,
    Carries dsp bytes payload lead trigger rest freq halfLength lowStart syncStart ∧
      halfLength ≤ longest ∧ syncStart + 2 * halfLength + 40000 ≤ rest.length

/-- Such a file is found at the first attempt. -/
theorem getPacket_generous {longest : ℕ} {bytes : List UInt8} {start : State host}
    (generous : Generous host longest bytes)
    (counted : start.reader.totalSamplesIn + bytes.length / 2 ≤ 2 ^ 32) :
    (getPacket : Decode host _).Attains (start.opened bytes) fun result later trace =>
      (∃ packetSyms, result = some packetSyms) ∧ FoundAtFirst longest later trace := by
  obtain ⟨payload, lead, trigger, rest, freq, halfLength, lowStart, syncStart, carries, short,
    behind⟩ := generous start.reader.device
  apply getPacket_measures carries counted
  intro measured early found left total
  obtain ⟨shortest, longest⟩ := carries.signal.length
  have possible : Admitted (2 * halfLength + 1) := by
    unfold Admitted minSamplesPerSymbol maxSamplesPerSymbol
    omega
  have first : FirstAttempt measured := ⟨found.idle, found.syncBitsEnd, by omega⟩
  have upcoming : measured.reader.upcoming ≠ [] := by
    rw [← List.length_pos_iff]
    omega
  have startable : Startable (2 * halfLength + 1) measured.reader := fun _ =>
    Or.inr ⟨possible, upcoming⟩
  have shows := (firstAttempt_shows measured _ first possible (by omega)).ensures
  have fetches := attempt_fetches possible measured
  have stocks := attempt_stocks first possible (by omega)
  have ends := (attempt_visits (2 * halfLength + 1) measured).and
    (attempt_replays found.idle startable)
  have all := (shows.and (fetches.and stocks)).and (ends.and (attempt_opens _ measured))
  apply (found.finds.and_ensures all).mono
  rintro result later late ⟨⟨some, _⟩, ⟨⟨_, locations, _, shown⟩, ⟨fetch, member, _⟩, stocked⟩,
    ⟨visited, replaying⟩, _, rest, rfl, calm⟩
  have found' : result ≠ none := by
    obtain ⟨packetSyms, rfl⟩ := some
    exact Option.some_ne_none _
  refine ⟨some, some, ?_⟩
  constructor
  case entered =>
    obtain ⟨state, seen⟩ := found.entered
    exact ⟨state, List.mem_append_left _ seen⟩
  case fetched =>
    rw [fetches_append]
    exact List.ne_nil_of_mem (List.mem_append_right _ member)
  case supplied =>
    intro event seen
    rcases List.mem_append.mp seen with before | after
    · exact supplied_of_searching (found.searching event before)
    · exact shown.supplied event after
  case startable =>
    intro event seen
    rcases List.mem_append.mp seen with before | after
    · exact startable_of_calm (calm_of_searching (found.searching event before))
    · rcases List.mem_cons.mp after with rfl | behind
      · exact startable
      · exact startable_of_calm (calm event behind)
  case tried =>
    apply Exists.intro halfLength
    have quiet := tries_of_calm fun event seen => calm_of_searching (found.searching event seen)
    rw [tries_append, quiet, tries_enterAttempt, tries_of_calm calm, found.samplesPerSym]
    exact ⟨short, rfl⟩
  case visited => exact List.mem_append_right _ (visited found')
  case replaying => exact replaying found'
  case stocked => exact stocked.some

/-- What is assigned before the search does not matter. -/
theorem FoundAtFirst.visit {longest : ℕ} {later : State host} {trace : List (Event host)}
    (found : FoundAtFirst longest later trace) (state : State host) :
    FoundAtFirst longest later (.visit state :: trace) := by
  obtain ⟨prelude, entered⟩ := found.entered
  constructor
  case entered => exact ⟨prelude, List.mem_cons_of_mem _ entered⟩
  case fetched => exact found.fetched
  case supplied => exact List.forall_mem_cons.mpr ⟨True.intro, found.supplied⟩
  case startable => exact List.forall_mem_cons.mpr ⟨True.intro, found.startable⟩
  case tried => exact found.tried
  case visited => exact List.mem_cons_of_mem _ found.visited
  case replaying => exact found.replaying
  case stocked => exact found.stocked

/-! ## Processes -/

/-- Every file of a process can be opened and has so many samples. -/
def AllGenerous (host : Host ℝ) (longest : ℕ) (files : List SourceFile) : Prop :=
  ∀ file ∈ files, ∃ bytes, file.contents = some bytes ∧ Generous host longest bytes

/-- Every analysis of such a process finds its packet at the first attempt. -/
theorem processes_found {longest : ℕ} {files : List SourceFile} {start : State host}
    (generous : AllGenerous host longest files) (room : Room files start) :
    ∃ analyses, Handles analyzeFile start analyses ∧ analyses.map Handled.input = files ∧
      ∀ analysis ∈ analyses, analysis.result = 1 ∧
        FoundAtFirst longest analysis.stop analysis.trace := by
  apply Handles.of_attains Room (fun _ result later trace =>
    result = 1 ∧ FoundAtFirst longest later trace) ?_ room
  intro file member rest state room
  obtain ⟨bytes, contents, generous⟩ := generous file member
  unfold Room at room
  rw [List.map_cons, List.sum_cons, contents, Option.getD_some] at room
  simp only [analyzeFile_opened contents, attains_bind, attains_assignReader]
  apply ((getPacket_generous generous (by omega)).and_ensures (getPacket_counts bytes state)).mono
  rintro result later trace ⟨⟨⟨packetSyms, rfl⟩, found⟩, count⟩
  rw [attains_pure, List.append_nil]
  refine ⟨⟨rfl, found.visit _⟩, ?_⟩
  unfold Room
  omega

/-- So its preludes and half-bits find enough samples, and the files are answered with 1. -/
theorem analyzeFiles_supplied {longest : ℕ} {files : List SourceFile} {start : State host}
    (generous : AllGenerous host longest files) (room : Room files start) :
    (analyzeFiles files).Attains start fun results _ trace =>
      results = files.map (fun _ => 1) ∧ (∀ event ∈ trace, event.Supplied) ∧
        (files ≠ [] → (∃ state, Event.enterPrelude state ∈ trace) ∧ fetches trace ≠ []) := by
  obtain ⟨analyses, handles, inputs, found⟩ := processes_found generous room
  obtain ⟨stop, evaluates⟩ := handles.each
  rw [inputs, ← analyzeFiles_eq] at evaluates
  refine evaluates.attains ⟨?_, ?_, ?_⟩
  · rw [← inputs, List.map_map]
    exact List.map_congr_left fun analysis member => (found analysis member).1
  · intro event seen
    obtain ⟨analysis, member, here⟩ := List.mem_flatMap.mp seen
    exact (found analysis member).2.supplied event here
  · intro some
    obtain ⟨analysis, member⟩ := List.exists_mem_of_ne_nil analyses (by
      rintro rfl
      exact some inputs.symm)
    have within := (found analysis member).2
    obtain ⟨prelude, entered⟩ := within.entered
    obtain ⟨fetch, fetched⟩ := List.exists_mem_of_ne_nil _ within.fetched
    obtain ⟨event, seen, named⟩ := List.mem_filterMap.mp fetched
    refine ⟨⟨prelude, List.mem_flatMap.mpr ⟨analysis, member, entered⟩⟩, ?_⟩
    exact List.ne_nil_of_mem (List.mem_filterMap.mpr
      ⟨event, List.mem_flatMap.mpr ⟨analysis, member, seen⟩, named⟩)

/-- A file of two tones is such a file, if it is long enough. -/
theorem generous_toneFile {payload : List Bool} (holds : Payload payload)
    {halfLength lowStart syncStart count : ℕ} (length : 153 ≤ halfLength ∧ halfLength ≤ 255)
    (high : 1024 ≤ lowStart ∧ lowStart ≤ 2049)
    (low : lowStart + 1024 ≤ syncStart ∧ syncStart ≤ lowStart + 2048)
    (more : syncStart + 2 * halfLength + 40000 ≤ count) :
    Generous plainHost halfLength
      (toneFile (idealTone payload halfLength lowStart syncStart) 0 count) := by
  intro dsp
  have whole : syncStart + 137 * halfLength - 1 + 1024 ≤ count := by omega
  have carries := carries_toneFile holds length high low whole dsp
  have samples := @toneSamples_length (idealTone payload halfLength lowStart syncStart) 0 count
  refine ⟨payload, [], turned 0, _, turnFreq, halfLength, lowStart, syncStart, carries,
    le_refl _, ?_⟩
  rw [samples]
  exact more

theorem packetFile_generous : Generous plainHost 200 packetFile :=
  generous_toneFile sentPayload_holds (by omega) (by omega) (by omega) (by omega)

theorem length_packetFile : packetFile.length / 2 = 43001 := by rw [packetFile, length_toneFile]

/-- A process that analyses it twice. -/
theorem packetSource_twice : AllGenerous plainHost 200 [packetSource, packetSource] ∧
    Room [packetSource, packetSource] (State.initial plainHost) := by
  have contents : packetSource.contents = some packetFile := rfl
  have none : (State.initial plainHost).reader.totalSamplesIn = 0 := rfl
  constructor
  · intro file member
    have same : file = packetSource := by simpa using member
    rw [same]
    exact ⟨packetFile, contents, packetFile_generous⟩
  · rw [Room, none, List.map_cons, List.map_cons, List.map_nil, contents, Option.getD_some,
      length_packetFile]
    norm_num

/-- The search ends on this file, and on one whose estimates are all refused. -/
theorem getPacket_halts_packet :
    (getPacket : Decode plainHost _).Halts ((State.initial plainHost).opened packetFile) ∧
      (getPacket : Decode plainHost _).Halts ((State.initial plainHost).opened longFile) := by
  have halts (bytes : List UInt8) (few : bytes.length / 2 < 2 ^ 31) :
      (getPacket : Decode plainHost _).Halts ((State.initial plainHost).opened bytes) :=
    (getPacket_halts _ few).1
  have long : longFile.length / 2 = 2649 := by rw [longFile, length_toneFile]
  constructor
  · apply halts
    rw [length_packetFile]
    norm_num
  · apply halts
    rw [long]
    norm_num

/-- The process that analyses the file twice is safe. -/
theorem analyzeFiles_safe_twice : ∃ trace,
    (∃ fuel, trace = ((analyzeFiles [packetSource, packetSource] : Decode plainHost _).run fuel
      (State.initial plainHost)).trace) ∧
    (∃ state, Event.enterPrelude state ∈ trace) ∧ fetches trace ≠ [] ∧
      ∀ event ∈ trace, event.Safe := by
  obtain ⟨generous, room⟩ := packetSource_twice
  obtain ⟨results, stop, trace, ⟨fuel, ran⟩, _, supplied, reached⟩ :=
    analyzeFiles_supplied generous room
  have entered := reached (List.cons_ne_nil _ _)
  have same : ((analyzeFiles [packetSource, packetSource] : Decode plainHost _).run fuel
      (State.initial plainHost)).trace = trace := by rw [ran]
  refine ⟨trace, ⟨fuel, same.symm⟩, entered.1, entered.2, ?_⟩
  rw [← same] at supplied ⊢
  exact analyzeFiles_safe _ fuel supplied

/-- In the second analysis the cache, which holds samples of the first one, is coherent with the
file when it is replayed. -/
theorem getPacket_coherent_second :
    ∃ (start : State plainHost) (fuel : ℕ) (state : State plainHost),
    (∃ packet trace, (getPacket : Decode plainHost _).Evaluates
      ((State.initial plainHost).opened packetFile) packet start trace) ∧
    0 < start.reader.cacheCount ∧
    Event.visit state ∈ (getPacket.run fuel (start.opened packetFile)).trace ∧
    state.reader.readFromCache = true ∧ 0 < state.reader.cacheCount ∧
      Coherent (start.opened packetFile).reader.capture state.reader := by
  have none : (State.initial plainHost).reader.totalSamplesIn = 0 := rfl
  have length := length_packetFile
  have generous := packetFile_generous
  obtain ⟨bytes, shown⟩ : ∃ bytes, bytes = packetFile := ⟨_, rfl⟩
  rw [← shown] at length generous ⊢
  obtain ⟨packet, start, first, evaluates, ⟨_, found⟩, counted⟩ :=
    (getPacket_generous generous (by omega)).and_ensures
      (getPacket_counts bytes (State.initial plainHost))
  obtain ⟨packet', state, second, ⟨fuel, ran⟩, _, again⟩ :=
    @getPacket_generous plainHost 200 bytes start generous (by omega)
  have same : (getPacket.run fuel (start.opened bytes)).trace = second := by rw [ran]
  have visited := again.visited
  rw [← same] at visited
  refine ⟨start, fuel, state, ⟨packet, first, evaluates⟩, found.stocked, visited, again.replaying,
    again.stocked, getPacket_coherent fuel _ ?_ state visited again.replaying⟩
  intro estimate entered member
  rw [same] at member
  exact again.startable _ member

end FcTpms.Decoder
