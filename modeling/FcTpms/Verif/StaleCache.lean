import FcTpms.Verif.GuardInterval
import FcTpms.Verif.IdealFile
import FcTpms.Verif.RefusedEstimates
import FcTpms.Verif.Wrapping

/-!
# A cache of an earlier packet

Once a first attempt has decided a half-bit the cache holds samples, and no attempt empties it
again. So after a packet was found, a prelude whose estimates are all refused finds the samples of
that packet in the cache, and they are replayed as if they came behind its own sync bits.
-/

namespace FcTpms.Decoder

open Program Program.Prog

/-! ## The cache does not become empty -/

section Stocked

variable {F : Type} {host : Host F}

/-- The cache holds samples, and what is stored comes behind its start. -/
structure Stocked (reader : Reader host) : Prop where
  some : 0 < reader.cacheCount
  start : reader.readFromCache = false → 0 ≤ reader.cacheLoc

variable [Arithmetic F]

/-- Reading a sample does not empty the cache. -/
theorem Stocked.next {reader : Reader host} (stocked : Stocked reader) : Stocked reader.next.2 := by
  have some := stocked.some
  unfold Reader.next
  by_cases replays : reader.Replays
  · rw [if_pos replays]
    constructor
    · exact some
    · intro file
      have cached : reader.readFromCache = true := replays.1
      rw [show reader.replayed.readFromCache = reader.readFromCache from rfl, cached] at file
      cases file
  · rw [if_neg replays]
    have left : 0 < reader.leftCache.cacheCount ∧ 0 ≤ reader.leftCache.cacheLoc := by
      by_cases cached : reader.readFromCache = true
      · have behind : ¬ reader.cacheLoc < reader.cacheCount :=
          fun before => replays ⟨cached, before⟩
        rw [Reader.leftCache, if_pos cached]
        constructor
        · exact some
        · dsimp only
          omega
      · rw [Reader.leftCache, if_neg cached]
        exact ⟨some, stocked.start (eq_false_of_ne_true cached)⟩
    unfold Reader.nextOfFile
    split
    · exact ⟨left.1, fun _ => left.2⟩
    · split
      · constructor
        · show 0 < reader.leftCache.cacheLoc + 1
          omega
        · intro _
          show 0 ≤ reader.leftCache.cacheLoc + 1
          omega
      · exact ⟨left.1, fun _ => left.2⟩

variable (host) in
/-- Deciding a half-bit does not empty the cache. -/
theorem getBit_stocked (bitStart bitEnd : ℕ) :
    Keeps (fun _ => True) (fun _ => True) (fun state : State host => Stocked state.reader)
      (getBit bitStart bitEnd : Decode host ℤ) := by
  have sample : Keeps (fun _ => True) (fun _ => True)
      (fun state : State host => Stocked state.reader) getNextSample := by
    apply Triple.intro fun start stocked => Attains.triple ?_
    apply (getNextSample_attains start).mono
    rintro result later trace ⟨_, rfl, _⟩
    rw [reader_afterNext]
    exact ⟨fun _ _ => True.intro, stocked.next⟩
  have assign {change : State host → State host}
      (kept : ∀ state, Stocked state.reader → Stocked (change state).reader) :
      Keeps (fun _ => True) (fun _ => True) (fun state : State host => Stocked state.reader)
        (Prog.update Event.visit change) :=
    assign_keeps kept fun _ _ => True.intro
  have same {reader later : Reader host} (stocked : Stocked reader)
      (count : later.cacheCount = reader.cacheCount) (loc : later.cacheLoc = reader.cacheLoc)
      (mode : later.readFromCache = false → reader.readFromCache = false) : Stocked later := by
    obtain ⟨some, start⟩ := stocked
    rw [← count] at some
    rw [← loc] at start
    exact ⟨some, fun file => start (mode file)⟩
  have fetch (numSamples : ℤ) (location : ℕ) : Keeps (fun _ => True) (fun _ => True)
      (fun state : State host => Stocked state.reader) (getSomeSamples numSamples location) := by
    apply Triple.get_keep fun _ _ => ?_
    apply Triple.bind (emit_keeps True.intro) fun _ => ?_
    apply Triple.bind (skipTo_keeps sample location) fun skipped => ?_
    split
    · exact pure_keeps _
    · apply Triple.get_keep fun _ _ => ?_
      refine Triple.bind (assign fun _ stocked => same stocked rfl rfl id) fun _ => ?_
      split
      · exact pure_keeps _
      · exact Triple.bind (collect_keeps sample _) fun _ => pure_keeps _
  apply Triple.bind (fetch _ _) fun buffer => ?_
  cases buffer with
  | none => exact nullDereference_triple True.intro
  | some buffer =>
    apply Triple.get_keep fun _ _ => ?_
    apply Triple.bind (emit_keeps True.intro) fun _ => ?_
    refine Triple.bind (assign fun _ stocked => stocked) fun _ => ?_
    have turn : Keeps (fun _ => True) (fun _ => True)
        (fun state : State host => Stocked state.reader) turnToCache := by
      apply Triple.get_keep fun _ _ => ?_
      split
      · refine Triple.bind (assign fun _ stocked => ⟨stocked.some, fun file => ?_⟩) fun _ => ?_
        · cases file
        · exact assign fun _ stocked => same stocked rfl rfl id
      · exact pure_keeps _
    have rewind (bitStart : ℕ) (numSamples : ℤ) : Keeps (fun _ => True) (fun _ => True)
        (fun state : State host => Stocked state.reader) (rewindCache bitStart numSamples) := by
      apply Triple.intro fun start stocked => Attains.triple ?_
      simp only [rewindCache, attains_bind, attains_get]
      by_cases cached : start.reader.readFromCache = true
      · rw [if_pos cached, attains_assignReader]
        refine ⟨fun _ _ => True.intro, stocked.some, fun file => ?_⟩
        rw [cached] at file
        cases file
      · rw [if_neg cached, attains_pure]
        exact ⟨fun _ _ => True.intro, stocked⟩
    apply Triple.bind turn fun _ => ?_
    apply Triple.bind (rewind _ _) fun _ => ?_
    refine Triple.bind (assign fun _ stocked => stocked) fun _ => ?_
    exact pure_keeps _

variable (host) in
/-- Nor does a symbol, -/
theorem getSymbol_stocked (symStart estSamplesPerSym : ℕ) :
    Keeps (fun _ => True) (fun _ => True) (fun state : State host => Stocked state.reader)
      (getSymbol symStart estSamplesPerSym : Decode host ℤ) := by
  have free : PacketFree (fun _ => True) (fun state : State host => Stocked state.reader) :=
    ⟨fun _ _ stocked => stocked, fun _ _ => True.intro, fun _ _ => True.intro⟩
  apply Triple.bind (getBit_stocked host _ _) fun _ => ?_
  apply Triple.get_keep fun _ _ => ?_
  apply Triple.bind (getBit_stocked host _ _) fun _ => ?_
  apply Triple.get_keep fun _ _ => ?_
  split
  · refine Triple.bind (assign_keeps (fun _ stocked => stocked) fun _ _ => True.intro) fun _ => ?_
    exact pure_keeps _
  · exact free.recordSymbol_keeps _ _

variable (host) in
/-- or the loop over the symbols. -/
theorem collectSymbols_stocked (estSamplesPerSym count : ℕ) (packetSyms : List ℤ) :
    Keeps (fun _ => True) (fun _ => True) (fun state : State host => Stocked state.reader)
      (collectSymbols estSamplesPerSym count packetSyms : Decode host _) := by
  induction count generalizing packetSyms with
  | zero => exact pure_keeps _
  | succ count ih =>
    apply Triple.get_keep fun _ _ => ?_
    apply Triple.bind (getSymbol_stocked host _ _) fun _ => ?_
    apply Triple.get_keep fun _ _ => ?_
    split
    · exact pure_keeps _
    · exact ih _

/-! ## First attempts -/

variable {capture : Capture F}

/-- The first half-bit of an attempt stores its window. -/
theorem getBit_stocks {number numSamples : ℕ} {state : State host}
    (begun : AtStart capture number state) (some : 10 ≤ numSamples) (few : numSamples ≤ 2 ^ 15)
    (full : number + 11 * numSamples / 10 ≤ capture.last)
    (counted : number + 11 * numSamples / 10 < 2 ^ 32) :
    (getBit number (u32 ((number : ℤ) + numSamples - 1)) : Decode host ℤ).Ensures state
      fun _ later _ => Stocked later.reader := by
  have place := begun.place
  have position := begun.position
  have fits : Fits capture state.reader number numSamples :=
    fits_full (by omega) (by omega) (by omega) (by omega) full (by omega) counted
  refine Ensures.mono (getBit_tape number numSamples state begun.tape fits).ensures ?_
  rintro value later trace ⟨_, _, decided, _⟩
  have count := decided.count
  have ended : (capture.windowEnd number numSamples : ℤ) = number + 11 * numSamples / 10 := by
    rw [Capture.windowEnd, withMargin_natCast, Int.toNat_natCast]
    omega
  rw [ended, place] at count
  constructor
  · omega
  · intro file
    rw [decided.replaying.cache] at file
    cases file

/-- So the symbols of a first attempt leave samples in the cache. -/
theorem getPacketSymbols_stocks {number estimate : ℕ} {state : State host}
    (begun : AtStart capture number state) (possible : Admitted estimate)
    (full : number + 1000 ≤ capture.last) (counted : number + 1000 < 2 ^ 32) :
    (getPacketSymbols number symbolsPerMsg estimate : Decode host _).Ensures state
      fun _ later _ => Stocked later.reader := by
  obtain ⟨shortest, longest⟩ := possible
  unfold minSamplesPerSymbol at shortest
  unfold maxSamplesPerSymbol at longest
  have free : PacketFree (fun _ => True) (fun state : State host => Stocked state.reader) :=
    ⟨fun _ _ stocked => stocked, fun _ _ => True.intro, fun _ _ => True.intro⟩
  have copied (array : CharArray) (text : String) (state : State host) :
      (strcpy array text : Decode host Unit).Ensures state fun _ later _ =>
        later.reader = state.reader :=
    Ensures.mono (Besides.strcpyFrom array 0 text.toList state).ensures
      fun _ _ _ besides => besides.1
  have second (state : State host) (begun : AtStart capture number state) :
      (getSecondSymbol number estimate : Decode host ℤ).Ensures state
        fun _ later _ => Stocked later.reader := by
    have half : number + 11 * (estimate / 2) / 10 ≤ capture.last := by omega
    have bit (packet : Packet F) := getBit_stocks (begun.beside (show
      ({ state with packet := packet } : State host).reader = state.reader from rfl))
      (show 10 ≤ estimate / 2 by omega) (by omega) half (by omega)
    simp only [getSecondSymbol, ensures_bind, ensures_assignPacket]
    refine Ensures.mono (bit _) fun value middle early stocked => ?_
    simp only [ensures_get]
    split
    · split
      · exact Ensures.mono ((free.recordSecondSymbol_keeps _ _).ensures stocked)
          fun _ _ _ ended => ended.2
      · simp only [ensures_bind, ensures_setValidPkt, ensures_pure]
        exact stocked
    · exact Ensures.mono ((free.recordSecondSymbol_keeps _ _).ensures stocked)
        fun _ _ _ ended => ended.2
  simp only [getPacketSymbols, ensures_bind]
  refine Ensures.mono (copied .bits "011" state) fun _ first early same => ?_
  refine Ensures.mono (copied .symbols "1" first) fun _ next early' same' => ?_
  refine Ensures.mono (second next (begun.beside (same'.trans same))) ?_
  intro symbol third middle stocked
  simp only [ensures_get]
  split
  · rw [ensures_pure]
    exact stocked
  · rw [ensures_bind]
    refine Ensures.mono ((collectSymbols_stocked host _ _ _).ensures stocked) ?_
    rintro result fourth late ⟨_, stocked'⟩
    cases result with
    | none =>
      rw [ensures_pure]
      exact stocked'
    | some packetSyms =>
      simp only [ensures_bind, ensures_setValidPkt, ensures_get]
      split
      · rw [ensures_pure]
        exact stocked'
      · rw [ensures_pure]
        exact stocked'

/-- A first attempt leaves samples in the cache. -/
theorem attempt_stocks {estimate : ℕ} {state : State host} (first : FirstAttempt state)
    (possible : Admitted estimate) (counted : state.reader.totalSamplesIn + 40000 ≤ 2 ^ 32) :
    (attempt estimate : Decode host _).Ensures state fun _ later _ => Stocked later.reader := by
  have left := first.left
  have last : state.reader.capture.last =
      state.reader.totalSamplesIn + state.reader.upcoming.length := rfl
  have ends : state.prelude.syncBitsEnd = state.reader.totalSamplesIn := by
    rw [first.ends]
    unfold u32
    omega
  have admitted : ¬ (estimate > maxSamplesPerSymbol ∨ estimate < minSamplesPerSymbol) := by
    have both := possible
    unfold Admitted at both
    omega
  simp only [attempt, tryToGetPacketSymbols, ensures_bind, ensures_get, ensures_emit, ends]
  refine Ensures.mono (startCache_atStart first estimate counted).ensures ?_
  rintro _ second early ⟨begun, _⟩
  rw [ensures_setValidPkt, if_neg admitted, ensures_bind]
  have started : AtStart state.reader.capture state.reader.totalSamplesIn
      { second with validPkt := true } := begun.beside rfl
  refine Ensures.mono (getPacketSymbols_stocks started possible (by omega) (by omega)) ?_
  intro result third late stocked
  cases result with
  | none => simpa using stocked
  | some packetSyms =>
    simp only [ensures_bind, ensures_get]
    split
    · simpa [‹third.validPkt = true›] using stocked
    · simpa using stocked

end Stocked

/-! ## Two files -/

/-- A file with a packet, and silence of one tone behind it. -/
def packetFile : List UInt8 := toneFile (idealTone sentPayload 200 1024 2048) 0 43000

/-- A fresh process finds the packet, and its samples stay in the cache. -/
theorem getPacket_found {bytes : List UInt8} (sent : bytes = packetFile) :
    (getPacket : Decode plainHost _).Attains ((State.initial plainHost).opened bytes)
      fun result later _ => (∃ packetSyms, result = some packetSyms) ∧
        0 < later.reader.cacheCount := by
  have carries := carries_toneFile sentPayload_holds (show 153 ≤ 200 ∧ 200 ≤ 255 by omega)
    (show 1024 ≤ 1024 ∧ 1024 ≤ 2049 by omega)
    (show 1024 + 1024 ≤ 2048 ∧ 2048 ≤ 1024 + 2048 by omega)
    (show 2048 + 137 * 200 - 1 + 1024 ≤ 43000 by omega) (State.initial plainHost).reader.device
  have length : bytes.length / 2 = 43001 := by rw [sent, packetFile, length_toneFile]
  have total : (State.initial plainHost).reader.totalSamplesIn = 0 := rfl
  have signal := @toneSamples_length (idealTone sentPayload 200 1024 2048) 0 43000
  rw [← packetFile, ← sent] at carries
  apply getPacket_measures carries (by omega)
  intro measured early found left number
  rw [signal] at left
  have first : FirstAttempt measured := ⟨found.idle, found.syncBitsEnd, by omega⟩
  have stocks := attempt_stocks first (show Admitted (2 * 200 + 1) by decide) (by omega)
  apply (found.finds.and_ensures stocks).mono
  rintro result later late ⟨⟨some, _⟩, stocked⟩
  exact ⟨some, some, stocked.some⟩

/-- The file, under a name. -/
def packetSource : SourceFile := ⟨"/tmp/a".toList, some packetFile, exampleName_fits⟩

/-- The cache is not coherent with the file behind such a prelude: it still holds the samples of the
packet before. -/
theorem stale_cache :
    ¬ ∀ (files : List SourceFile) (results : List ℤ) (start : State plainHost)
        (trace : List (Event plainHost)),
      (analyzeFiles files).Evaluates (State.initial plainHost) results start trace →
        ∀ (bytes : List UInt8) (fuel : ℕ) (state : State plainHost),
          Event.visit state ∈ (getPacket.run fuel (start.opened bytes)).trace →
            state.reader.readFromCache = true →
              Coherent (start.opened bytes).reader.capture state.reader := by
  intro always
  have contents : packetSource.contents = some packetFile := rfl
  have analyzed : (analyzeFiles [packetSource] : Decode plainHost _).Attains
      (State.initial plainHost) fun _ later _ => 0 < later.reader.cacheCount := by
    obtain ⟨_, later, trace, evaluates, ⟨packetSyms, rfl⟩, some⟩ := getPacket_found rfl
    simp only [analyzeFiles, analyzeFile_opened contents, attains_bind, attains_assignReader]
    refine ⟨_, later, trace, evaluates, ?_⟩
    simp only [attains_pure]
    exact some
  obtain ⟨results, start, trace, evaluates, some⟩ := analyzed
  obtain ⟨result, stop, trace', ⟨fuel, ran⟩, _, _, _, turned, seen, cached, count, place⟩ :=
    getPacket_refused (start.opened longFile) rfl
  have visited : Event.visit turned ∈ (getPacket.run fuel (start.opened longFile)).trace := by
    rw [ran]
    exact seen
  have coherent := always _ results start trace evaluates longFile fuel turned visited cached
  have total := coherent.total
  have kept (bytes : List UInt8) :
      (start.opened bytes).reader.cacheCount = start.reader.cacheCount := rfl
  rw [kept] at count
  omega

end FcTpms.Decoder
