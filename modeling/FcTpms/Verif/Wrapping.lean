import FcTpms.Verif.FirstAttempt
import FcTpms.Verif.GuardInterval
import FcTpms.Verif.RoundTrip
import FcTpms.Verif.ToneFile

/-!
# Sample numbers that wrap

Sample numbers are kept in `unsigned int`, the number of samples read is not. Where the first
half-bit of an attempt ends behind sample number 2³², its end is a small number, the cache is
rewound to far before its start, and the third symbol is decided on whatever lies there in memory.
So a packet that is sent there as an ideal signal does not come back.
-/

namespace FcTpms.Decoder

open Program Program.Prog Arithmetic

/-! ## Memory before the cache -/

section Memory

variable {F : Type} {host : Host F} [Arithmetic F]

omit [Arithmetic F] in
/-- Samples are stored behind the start of the cache, and what lies before it is untouched. -/
def Untouched (memory : ℤ → Cplx F) (reader : Reader host) : Prop :=
  0 ≤ reader.cacheLoc ∧ ∀ index < 0, reader.symbolCache index = memory index

/-- Reading a sample does not touch the memory before the cache. -/
theorem Untouched.next {memory : ℤ → Cplx F} {reader : Reader host}
    (untouched : Untouched memory reader) : Untouched memory reader.next.2 := by
  obtain ⟨start, same⟩ := untouched
  have loc := cacheLoc_leftCache reader
  have cache : reader.leftCache.symbolCache = reader.symbolCache := by
    unfold Reader.leftCache
    split <;> rfl
  unfold Reader.next
  split
  · exact ⟨Int.le_add_one start, same⟩
  · unfold Reader.nextOfFile
    split
    · show 0 ≤ reader.leftCache.cacheLoc ∧ ∀ index < 0, reader.leftCache.symbolCache index = _
      rw [loc, cache]
      exact ⟨start, same⟩
    · split
      · constructor
        · show 0 ≤ reader.leftCache.cacheLoc + 1
          omega
        · intro index before
          show Function.update reader.leftCache.symbolCache reader.leftCache.cacheLoc _ index = _
          rw [Function.update_of_ne (by omega), cache]
          exact same index before
      · show 0 ≤ reader.leftCache.cacheLoc ∧ ∀ index < 0, reader.leftCache.symbolCache index = _
        rw [loc, cache]
        exact ⟨start, same⟩

variable (host) in
/-- Fetching samples does not touch it either. -/
theorem getSomeSamples_untouched (memory : ℤ → Cplx F) (numSamples : ℤ) (location : ℕ) :
    Keeps (fun _ => True) (fun _ => True)
      (fun state : State host => Untouched memory state.reader)
      (getSomeSamples numSamples location) := by
  have sample : Keeps (fun _ => True) (fun _ => True)
      (fun state : State host => Untouched memory state.reader) getNextSample := by
    apply Triple.intro fun start untouched => Attains.triple ?_
    apply (getNextSample_attains start).mono
    rintro result later trace ⟨_, rfl, _⟩
    refine ⟨fun _ _ => True.intro, ?_⟩
    rw [reader_afterNext]
    exact untouched.next
  apply Triple.get_keep fun state _ => ?_
  apply Triple.bind (emit_keeps True.intro) fun _ => ?_
  apply Triple.bind (skipTo_keeps sample location) fun skipped => ?_
  split
  · exact pure_keeps _
  · apply Triple.get_keep fun later _ => ?_
    refine Triple.bind (assign_keeps (fun _ untouched => untouched) fun _ _ => True.intro)
      fun _ => ?_
    split
    · exact pure_keeps _
    · exact Triple.bind (collect_keeps sample _) fun _ => pure_keeps _

end Memory

/-! ## Astray -/

section Astray

variable {F : Type} {host : Host F} [Arithmetic F] {capture : Capture F} {memory : ℤ → Cplx F}

omit [Arithmetic F] in
/-- An attempt whose cache was rewound to far before its start, where the next sample to be read
would have the small number behind `actual_bit_end`. -/
structure Astray (memory : ℤ → Cplx F) (state : State host) : Prop where
  cached : state.reader.readFromCache = true
  here : (state.reader.cacheLocInFile : ℤ) + state.reader.cacheLoc = state.packet.actualBitEnd
  early : state.packet.actualBitEnd < 300
  before : state.reader.cacheLoc + 300 < 0
  count : 0 ≤ state.reader.cacheCount
  memory : ∀ index < 0, state.reader.symbolCache index = memory index

omit [Arithmetic F] in
/-- What is beside the reader does not bring an attempt back. -/
theorem Astray.beside {state later : State host} (astray : Astray memory state)
    (reader : later.reader = state.reader)
    (ends : later.packet.actualBitEnd = state.packet.actualBitEnd) : Astray memory later := by
  obtain ⟨cached, here, early, before, count, same⟩ := astray
  constructor
  · rw [reader]
    exact cached
  · rw [reader, ends]
    exact here
  · rw [ends]
    exact early
  · rw [reader]
    exact before
  · rw [reader]
    exact count
  · rw [reader]
    exact same

/-- The first half-bit of an attempt leads astray if it ends behind sample number 2³². -/
theorem getBit_wrapped {number : ℕ} {state : State host} (begun : AtStart capture number state)
    (untouched : Untouched memory state.reader) (below : number < 2 ^ 32)
    (wraps : 2 ^ 32 ≤ number + 164) (full : number + 220 ≤ capture.last) :
    (getBit number (u32 ((number : ℤ) + 200 - 1)) : Decode host ℤ).Attains state
      fun value later _ => (value = 0 ∨ value = 1) ∧ Astray memory later := by
  have margin : withMargin ((200 : ℕ) : ℤ) = ((220 : ℕ) : ℤ) := withMargin_natCast 200
  have span : int32 ((u32 ((number : ℤ) + 200 - 1) : ℤ) - number + 1) = ((200 : ℕ) : ℤ) :=
    int32_span (by decide)
  have window : number + min 220 (capture.last - number) = number + 220 := by omega
  have place := begun.place
  have position := begun.position
  rw [getBit]
  dsimp only
  rw [span, margin, attains_bind]
  apply ((getSomeSamples_tape 220 number state begun.tape (le_of_eq position) (by omega) (by
    rw [place]
    unfold cacheSize
    omega)).and_ensures
    ((getSomeSamples_untouched host memory 220 number).ensures untouched)).mono
  rintro result later early ⟨⟨⟨allocation, rfl⟩, ⟨reader, rfl, reached⟩, _⟩, _, kept⟩
  rw [window] at reached
  have active := reached.tape.active
  have here := position_eq active
  have moved := reached.position
  have same := reached.place
  have recorded := reached.recorded
  have nothing := begun.recorded
  have count : reader.cacheCount = 220 := by
    rcases reached.tape.ready.2 with ⟨storing, fill⟩ | replaying
    · rcases fill with full | fresh
      · omega
      · omega
    · rw [Reader.recorded, if_pos replaying.cache] at recorded
      omega
  -- Wherever the scan finds the end, its number wraps, and so the cache is rewound by 2³².
  have astray (transitionPoint : ℤ) (bounds : transitionPoint = -1 ∨
      165 ≤ transitionPoint ∧ transitionPoint < 220) :
      rewound reader.cacheCount number ((200 : ℕ) : ℤ)
          (bitEndAt number (u32 ((number : ℤ) + 200 - 1)) transitionPoint) =
        (bitEndAt number (u32 ((number : ℤ) + 200 - 1)) transitionPoint : ℤ) - number ∧
      bitEndAt number (u32 ((number : ℤ) + 200 - 1)) transitionPoint < 300 := by
    have small : bitEndAt number (u32 ((number : ℤ) + 200 - 1)) transitionPoint < 300 := by
      unfold bitEndAt u32
      split <;> omega
    refine ⟨?_, small⟩
    have tenfold : 10 * reader.cacheCount - (10 * (number : ℤ) + 11 * ((200 : ℕ) : ℤ) -
        10 * (bitEndAt number (u32 ((number : ℤ) + 200 - 1)) transitionPoint : ℤ)) =
        10 * ((bitEndAt number (u32 ((number : ℤ) + 200 - 1)) transitionPoint : ℤ) - number) := by
      omega
    rw [rewound, tenfold, Int.mul_tdiv_cancel_left _ (by decide)]
  have value (b : ℤ) : bitValue b = 0 ∨ bitValue b = 1 := by
    unfold bitValue
    split
    · exact Or.inr rfl
    · exact Or.inl rfl
  have quarters : threeQuarters ((220 : ℕ) : ℤ) = 165 := by decide
  have bounds := scanSamples_bounds state.prelude.highFreq state.prelude.lowFreq
    (Buffer.samples
      { first := number + 1
        recorded := capture.window number 220
        tail := unfilled host allocation 220 (capture.window number 220).length }) ((220 : ℕ) : ℤ)
  rw [quarters] at bounds
  obtain ⟨rewinds, small⟩ := astray _ (bounds.imp_right fun inside => ⟨inside.2.1, inside.2.2⟩)
  obtain ⟨transitionPoint, found⟩ : ∃ transitionPoint,
      scanSamplesForEobTransition state.prelude.highFreq state.prelude.lowFreq
        (Buffer.samples
          { first := number + 1
            recorded := capture.window number 220
            tail := unfilled host allocation 220 (capture.window number 220).length })
        ((220 : ℕ) : ℤ) = transitionPoint := ⟨_, rfl⟩
  rw [found] at rewinds small
  have final (packet : Packet F) (ends : packet.actualBitEnd =
      bitEndAt number (u32 ((number : ℤ) + 200 - 1)) transitionPoint) : Astray memory
        { state with
          reader := { reader with
            readFromCache := true
            writeToCache := false
            cacheLoc := rewound reader.cacheCount number ((200 : ℕ) : ℤ)
              (bitEndAt number (u32 ((number : ℤ) + 200 - 1)) transitionPoint) }
          packet := packet } := by
    refine ⟨rfl, ?_, ?_, ?_, ?_, kept.2⟩
    · dsimp only
      rw [rewinds, ends]
      omega
    · rw [ends]
      exact small
    · dsimp only
      rw [rewinds]
      omega
    · dsimp only
      omega
  simp only [attains_bind, attains_get, attains_emit, attains_assignPacket, turnToCache,
    rewindCache]
  by_cases storing : reader.writeToCache = true
  · simp only [storing, if_true, attains_bind, attains_assignReader, attains_pure, Bool.not_true,
      found]
    exact ⟨value _, final _ rfl⟩
  · have cached : reader.readFromCache = true := by
      by_contra file
      exact storing (active.storing (eq_false_of_ne_true file))
    simp only [storing, cached, if_true, if_false, Bool.false_eq_true, attains_assignReader,
      attains_pure, found]
    exact ⟨value _, final _ rfl⟩

/-- What is beside the reader does not start the attempt again. -/
theorem AtStart.beside {start : ℕ} {state later : State host}
    (begun : AtStart capture start state) (reader : later.reader = state.reader) :
    AtStart capture start later := by
  obtain ⟨tape, place, position, recorded⟩ := begun
  rw [← reader] at tape place position recorded
  exact ⟨tape, place, position, recorded⟩

variable (host) in
omit [Arithmetic F] in
/-- A recorded second symbol leaves its second half-bit for the next symbol. -/
theorem recordSecondSymbol_precedes (firstBit secondBit : ℤ) (state : State host) :
    (recordSecondSymbol firstBit secondBit : Decode host ℤ).Ensures state fun _ later _ =>
      later.packet.precedingBit = secondBit := by
  apply Attains.ensures
  simp only [recordSecondSymbol, attains_bind, attains_get, attains_storeChar,
    attains_assignPacket, attains_pure]

/-- The second symbol is `1` or invalid, and leads astray. -/
theorem getSecondSymbol_wrapped {number : ℕ} {state : State host}
    (begun : AtStart capture number state) (untouched : Untouched memory state.reader)
    (below : number < 2 ^ 32) (wraps : 2 ^ 32 ≤ number + 164)
    (full : number + 220 ≤ capture.last) :
    (getSecondSymbol number 401 : Decode host ℤ).Ensures state fun _ later _ =>
      later.validPkt = true → Astray memory later ∧ later.packet.precedingBit = 0 := by
  have half : 401 / 2 = 200 := rfl
  have recorded (bit : ℤ) (zero : bit = 0) (middle : State host)
      (astray : Astray memory middle) :
      (recordSecondSymbol 1 bit : Decode host ℤ).Ensures middle fun _ later _ =>
        later.validPkt = true → Astray memory later ∧ later.packet.precedingBit = 0 := by
    intro symbol later trace evaluates _
    obtain ⟨reader, _, ends, _⟩ :=
      (Besides.recordSecondSymbol host 1 bit middle).ensures _ _ _ evaluates
    have precedes := recordSecondSymbol_precedes host 1 bit middle _ _ _ evaluates
    exact ⟨astray.beside reader ends, precedes.trans zero⟩
  have decided (packet : Packet F) := @getBit_wrapped F host _ capture memory number
    { state with packet := packet } (begun.beside rfl) untouched below wraps full
  simp only [getSecondSymbol, ensures_bind, ensures_assignPacket, half, Nat.cast_ofNat]
  refine Ensures.mono (decided _).ensures ?_
  rintro value middle early ⟨binary, astray⟩
  simp only [ensures_get]
  split
  · rename_i one
    split
    · exact recorded (1 - value) (by omega) middle astray
    · simp only [ensures_bind, ensures_setValidPkt, ensures_pure]
      intro valid
      cases valid
  · exact recorded value (by omega) middle astray

/-- The symbols already collected stay at the start of what is returned. -/
theorem collectSymbols_begins (estSamplesPerSym count : ℕ) (packetSyms : List ℤ)
    (state : State host) :
    (collectSymbols estSamplesPerSym count packetSyms : Decode host _).Ensures state
      fun result _ _ => ∀ symbols, result = some symbols → packetSyms <+: symbols := by
  induction count generalizing packetSyms state with
  | zero =>
    rw [collectSymbols, ensures_pure]
    intro symbols returned
    rw [Option.some.inj returned]
  | succ count ih =>
    simp only [collectSymbols, ensures_bind, ensures_get]
    intro symbol later early _
    split
    · rw [ensures_pure]
      intro symbols returned
      cases returned
    · refine Ensures.mono (ih (packetSyms ++ [symbol]) later) ?_
      intro result final late longer symbols returned
      exact (List.prefix_append _ _).trans (longer symbols returned)

end Astray

/-! ## Silence in memory -/

section Silence

variable {host : Host ℝ}

/-- Silence. -/
noncomputable def silence : Cplx ℝ := ⟨0, 0⟩

/-- The phase does not step in silence. -/
theorem deltaPhi_silence : deltaPhi (cargf silence) (cargf silence) = 0 := by
  have argument : cargf silence = ((0 : ℤ) : ℝ) * (Real.pi / 2) := by
    rw [Int.cast_zero, zero_mul]
    exact Complex.arg_zero
  rw [argument, deltaPhi_quarters (by decide)]
  norm_num

/-- Silence is as far from the high frequency as from the low one and counts as high. -/
theorem classify_silence (highFreq lowFreq : ℝ) : classify highFreq lowFreq 0 = 1 := by
  rw [classify, if_pos]
  rw [le_exact, deviation_exact, deviation_exact, zero_div, zero_div]

/-- So silence is converted to high samples. -/
theorem convertFrom_silence (highFreq lowFreq : ℝ) (count : ℕ) :
    convertFrom highFreq lowFreq (cargf silence) (List.replicate count silence) =
      List.replicate count 1 := by
  induction count with
  | zero => rfl
  | succ count ih =>
    rw [List.replicate_succ, convertFrom, deltaPhi_silence, classify_silence, List.replicate_succ]
    exact congrArg _ ih

/-- The sum that `get_bit` takes of a silent buffer. -/
theorem sum_silence (highFreq lowFreq : ℝ) :
    sumFromOne (convertSamplesToBinary highFreq lowFreq (List.replicate 220 silence) 120) =
      119 := by
  have taken : (List.replicate 220 silence).take (120 : ℤ).toNat =
      silence :: List.replicate 119 silence := by
    rw [List.take_replicate]
    rfl
  rw [convertSamplesToBinary, taken]
  dsimp only
  rw [convertFrom_silence, sumFromOne, List.drop_one, List.tail_cons, List.sum_replicate]
  rfl

/-- The memory before the cache is silent. -/
noncomputable def silentMemory : ℤ → Cplx ℝ := fun _ => silence

/-- An attempt that is astray reads the memory before the cache. -/
theorem Astray.fetches {state : State host} (astray : Astray silentMemory state) :
    (getSomeSamples 220 (state.packet.actualBitEnd + 1) :
      Decode host (Option (Buffer ℝ))).Attains state fun result later _ =>
        ∃ buffer, result = some buffer ∧ later.prelude = state.prelude ∧
          buffer.samples = List.replicate 220 silence := by
  obtain ⟨cached, here, early, before, count, memory⟩ := astray
  have location : state.reader.currentReadLoc = state.packet.actualBitEnd := by
    rw [Reader.currentReadLoc, if_pos cached, here]
    unfold u64
    omega
  have ahead : state.packet.actualBitEnd + 1 > state.reader.currentReadLoc := by omega
  have replays : state.reader.Replays := ⟨cached, by omega⟩
  have next : state.afterNext = { state with reader := state.reader.replayed } := by
    rw [State.afterNext, if_pos replays]
  have arrived : ¬ state.packet.actualBitEnd + 1 > state.reader.replayed.currentReadLoc := by
    have moved : state.reader.replayed.currentReadLoc =
        u64 (state.reader.cacheLocInFile + (state.reader.cacheLoc + 1)) := by
      rw [Reader.currentReadLoc,
        if_pos (show state.reader.replayed.readFromCache = true from cached)]
      rfl
    rw [moved]
    unfold u64
    omega
  have skipped : (skipTo (state.packet.actualBitEnd + 1) : Decode host Bool).Attains state
      fun result later _ => result = true ∧
        later = { state with reader := state.reader.replayed } := by
    apply Attains.loop
    simp only [attains_bind, attains_get, ahead, if_true]
    apply (getNextSample_attains state).mono
    rintro result later trace ⟨rfl, rfl, _⟩
    rw [Reader.next, if_pos replays, next, attains_pure]
    apply Attains.loop
    simp only [attains_bind, attains_get, arrived, if_false, attains_pure]
    exact ⟨True.intro, True.intro⟩
  rw [getSomeSamples]
  simp only [attains_bind, attains_get, attains_emit]
  apply skipped.mono
  rintro result later _ ⟨rfl, rfl⟩
  simp only [Bool.not_true, Bool.false_eq_true, if_false, attains_bind, attains_get,
    attains_assignReader]
  rw [if_neg (by decide), attains_bind]
  have inside : state.reader.cacheLoc + 1 + ((220 : ℕ) : ℤ) ≤ state.reader.cacheCount := by omega
  apply (collect_cached 220 _ (by exact cached) (by exact inside)).mono
  rintro recorded final _ ⟨rfl, same⟩
  rw [attains_pure]
  refine ⟨_, rfl, same, ?_⟩
  have silent : (List.range 220).map (fun i : ℕ => state.reader.symbolCache
      (state.reader.cacheLoc + 1 + i)) = (List.range 220).map fun _ => silence := by
    apply List.map_congr_left
    intro i member
    rw [List.mem_range] at member
    exact memory _ (by omega)
  have whole : Int.toNat 220 - 220 = 0 := rfl
  rw [List.map_const', List.length_range] at silent
  simp only [Buffer.samples, List.length_map, List.length_range, whole, List.range'_zero,
    List.map_nil, List.append_nil]
  exact silent

/-- So its next half-bit is high, with confidence. -/
theorem Astray.getBit {state : State host} (astray : Astray silentMemory state) :
    (getBit (state.packet.actualBitEnd + 1)
        (u32 (((state.packet.actualBitEnd + 1 : ℕ) : ℤ) + 200 - 1)) : Decode host ℤ).Attains state
      fun value later _ => value = 1 ∧
        later.packet.bitConfidence = (confidence 119 120 : ℝ) := by
  have span : int32 ((u32 (((state.packet.actualBitEnd + 1 : ℕ) : ℤ) + 200 - 1) : ℤ) -
      (state.packet.actualBitEnd + 1 : ℕ) + 1) = ((200 : ℕ) : ℤ) := int32_span (by decide)
  have margin : withMargin ((200 : ℕ) : ℤ) = 220 := withMargin_natCast 200
  have fifths : threeFifths ((200 : ℕ) : ℤ) = 120 := threeFifths_natCast 200
  obtain ⟨result, filled, trace, fetched, buffer, rfl, _, samples⟩ := astray.fetches
  rw [← margin, ← span] at fetched
  have decided := (HalfBitRun.mk host state buffer filled trace fetched).decides
  rw [HalfBitRun.Decides, HalfBitRun.binary, span, fifths] at decided
  dsimp only at decided
  rw [samples, sum_silence] at decided
  exact decided

/-- A confident first half-bit is kept. -/
theorem settleHalfBits_confident {firstBit secondBit kept other : ℤ} {firstConf secondConf : ℝ}
    (confident : ¬ firstConf < 25 / 100)
    (settled : settleHalfBits firstBit secondBit firstConf secondConf = some (kept, other)) :
    kept = firstBit := by
  have quarter : literal (F := ℝ) (25 / 100) = 25 / 100 := by
    show ((25 / 100 : ℚ) : ℝ) = 25 / 100
    norm_num
  unfold settleHalfBits at settled
  rw [quarter] at settled
  simp only [lt_exact, eq_exact] at settled
  by_cases same : firstBit = secondBit
  · rw [if_pos same] at settled
    by_cases less : firstConf < secondConf
    · rw [if_pos less, if_neg confident] at settled
      cases settled
    · rw [if_neg less] at settled
      by_cases small : secondConf < 25 / 100
      · have differ : secondConf ≠ firstConf := fun equal => confident (equal ▸ small)
        rw [if_pos small, if_neg differ] at settled
        cases settled
        rfl
      · rw [if_neg small] at settled
        cases settled
  · rw [if_neg same] at settled
    cases settled
    rfl

variable (host) in
/-- A recorded symbol compares the half-bit before it with its own first one. -/
theorem recordSymbol_compares (firstBit secondBit : ℤ) (state : State host) :
    (recordSymbol firstBit secondBit : Decode host ℤ).Ensures state fun symbol _ _ =>
      symbol = symbolOf state.packet.precedingBit firstBit := by
  apply Attains.ensures
  simp only [recordSymbol, attains_bind, attains_get, attains_storeChar, attains_assignPacket,
    attains_pure, Packet.precedingBit_write]

/-- The third symbol is then not the one that follows two symbols `1`. -/
theorem Astray.getSymbol {state : State host} (astray : Astray silentMemory state)
    (preceding : state.packet.precedingBit = 0) :
    (getSymbol (state.packet.actualBitEnd + 1) 401 : Decode host ℤ).Ensures state
      fun symbol later _ => later.validPkt = true → symbol = 0 := by
  have half : 401 / 2 = 200 := rfl
  have free : BitFree (fun _ => True) Event.InBounds
      (fun state : State host => state.packet.precedingBit = 0) :=
    bitFree_of_arrays fun _ _ _ _ same kept => same.trans kept
  have confident : ¬ (confidence 119 120 : ℝ) < 25 / 100 := by
    show ¬ |((119 : ℤ) : ℝ) / ((120 : ℤ) : ℝ)| < 25 / 100
    norm_num [abs_of_pos]
  have kept (bitStart bitEnd : ℕ) (state : State host) (before : state.packet.precedingBit = 0) :
      (Decoder.getBit bitStart bitEnd : Decode host ℤ).Ensures state fun _ later _ =>
        later.packet.precedingBit = 0 :=
    Ensures.mono ((free.getBit_keeps bitStart bitEnd).ensures before)
      fun _ _ _ ended => ended.2.1
  rw [Decoder.getSymbol, ensures_bind, half]
  intro firstBit first early evaluates
  obtain ⟨rfl, sure⟩ := astray.getBit.ensures _ _ _ evaluates
  have before := kept _ _ state preceding _ _ _ evaluates
  simp only [ensures_bind, ensures_get]
  intro secondBit second middle evaluates'
  have still := kept _ _ first before _ _ _ evaluates'
  split
  · simp only [ensures_bind, ensures_setValidPkt, ensures_pure]
    intro valid
    cases valid
  · rename_i keptBit otherBit settled
    rw [sure] at settled
    have one := settleHalfBits_confident confident settled
    refine Ensures.mono (recordSymbol_compares host keptBit otherBit second) ?_
    rintro symbol final late rfl _
    rw [one, still]
    rfl

/-- Where the first half-bit of an attempt wraps, the third symbol of what is returned is `0`. -/
theorem getPacketSymbols_wrapped {capture : Capture ℝ} {number : ℕ} {state : State host}
    (begun : AtStart capture number state) (untouched : Untouched silentMemory state.reader)
    (below : number < 2 ^ 32) (wraps : 2 ^ 32 ≤ number + 164)
    (full : number + 220 ≤ capture.last) :
    (getPacketSymbols number symbolsPerMsg 401 : Decode host _).Ensures state fun result _ _ =>
      ∀ symbols, result = some symbols → symbols[2]? = some 0 := by
  have copied (array : CharArray) (text : String) (state : State host) :
      (strcpy array text : Decode host Unit).Ensures state fun _ later _ =>
        later.reader = state.reader :=
    Ensures.mono (Besides.strcpyFrom array 0 text.toList state).ensures
      fun _ _ _ besides => besides.1
  have count : symbolsPerMsg - 2 = 66 + 1 := rfl
  simp only [getPacketSymbols, ensures_bind]
  refine Ensures.mono (copied .bits "011" state) fun _ first early same => ?_
  refine Ensures.mono (copied .symbols "1" first) fun _ second early' same' => ?_
  have reader : second.reader = state.reader := same'.trans same
  have still : Untouched silentMemory second.reader := reader ▸ untouched
  refine Ensures.mono
    (getSecondSymbol_wrapped (begun.beside reader) still below wraps full) ?_
  intro symbol third middle led
  simp only [ensures_get]
  split
  · rw [ensures_pure]
    intro symbols returned
    cases returned
  · rename_i accepted
    have valid : third.validPkt = true := by simpa using accepted
    obtain ⟨astray, precedes⟩ := led valid
    have start : u32 ((third.packet.actualBitEnd : ℤ) + 1) = third.packet.actualBitEnd + 1 := by
      have early := astray.early
      unfold u32
      omega
    have collected : (collectSymbols 401 (66 + 1) [1, symbol] : Decode host _).Ensures third
        fun result _ _ => ∀ symbols, result = some symbols → symbols[2]? = some 0 := by
      rw [collectSymbols]
      simp only [ensures_bind, ensures_get, start]
      refine Ensures.mono (astray.getSymbol precedes) ?_
      intro next fourth late zero
      split
      · rw [ensures_pure]
        intro symbols returned
        cases returned
      · rename_i accepted'
        obtain rfl := zero (by simpa using accepted')
        refine Ensures.mono (collectSymbols_begins 401 66 _ fourth) ?_
        intro result final last longer symbols returned
        obtain ⟨rest, rfl⟩ := longer symbols returned
        rfl
    rw [ensures_bind, count]
    refine Ensures.mono collected ?_
    intro result fourth late zero
    cases result with
    | none =>
      rw [ensures_pure]
      intro symbols returned
      cases returned
    | some packetSyms =>
      simp only [ensures_bind, ensures_setValidPkt, ensures_get]
      split
      · rw [ensures_pure]
        intro symbols returned
        cases returned
      · rw [ensures_pure]
        exact zero

variable (host) in
/-- Starting the cache leaves the memory before it alone. -/
theorem startCache_untouched (memory : ℤ → Cplx ℝ) (state : State host)
    (same : state.reader.symbolCache = memory) :
    (startCache : Decode host Unit).Ensures state fun _ later _ =>
      Untouched memory later.reader := by
  simp only [startCache, ensures_bind, ensures_assignReader, ensures_get]
  split
  · rw [ensures_assignReader]
    exact ⟨le_refl _, fun index _ => congrFun same index⟩
  · rw [ensures_pure]
    exact ⟨le_refl _, fun index _ => congrFun same index⟩

/-- Nor does the first attempt there return such a packet. -/
theorem tryToGetPacketSymbols_wrapped {capture : Capture ℝ} {freq : Bool → ℝ} {number : ℕ}
    {state : State host} (listening : Listening capture state.reader number)
    (separates : Separates freq state.prelude.highFreq state.prelude.lowFreq)
    (silent : state.reader.symbolCache = silentMemory) (below : number < 2 ^ 32)
    (wraps : 2 ^ 32 ≤ number + 164) (full : number + 220 ≤ capture.last) :
    (tryToGetPacketSymbols number symbolsPerMsg 401 : Decode host _).Ensures state
      fun result _ _ => ∀ symbols, result = some symbols → symbols[2]? = some 0 := by
  have admitted : ¬ (401 > maxSamplesPerSymbol ∨ 401 < minSamplesPerSymbol) := by decide
  simp only [tryToGetPacketSymbols, ensures_bind, ensures_get, ensures_emit]
  intro _ second early evaluates
  have untouched := startCache_untouched host silentMemory state silent _ _ _ evaluates
  obtain ⟨reader, rfl, _, starting⟩ :=
    (startCache_attains listening separates (by omega) below).ensures _ _ _ evaluates
  have begun : AtStart capture number { state with reader := reader, validPkt := true } :=
    ⟨starting.tape, starting.place, starting.position, starting.recorded⟩
  rw [ensures_setValidPkt, if_neg admitted, ensures_bind]
  refine Ensures.mono (getPacketSymbols_wrapped begun untouched below wraps full) ?_
  intro result third late zero
  cases result with
  | none =>
    rw [ensures_pure]
    intro symbols returned
    cases returned
  | some packetSyms =>
    simp only [ensures_bind, ensures_get]
    split
    · rw [ensures_pure]
      exact zero
    · rw [ensures_pure]
      intro symbols returned
      cases returned

end Silence

/-! ## A packet at the end of the sample numbers -/

/-- A payload whose third symbol is `1`. -/
def sentPayload : List Bool :=
  List.replicate 3 true ++ List.replicate 33 false ++ true :: List.replicate 8 false ++
    List.replicate 7 true ++ List.replicate 16 false ++ [true]

theorem sentPayload_holds : Payload sentPayload := by
  constructor
  all_goals decide

/-- Its tones, behind so many samples. -/
def sentTone (total : ℕ) : ℕ → Bool :=
  idealTone sentPayload 200 (total + 1025) (total + 2049)

/-- The decoder after so many samples, with the ideal signal of the payload ahead. -/
noncomputable def sentStart (total : ℕ) : State plainHost :=
  let initial := State.initial plainHost
  { initial with
    reader := { initial.reader with
      file := { rest := toneFile (sentTone total) (total + 1) 30500, eof := false }
      totalSamplesIn := total
      readFromCache := false
      writeToCache := false } }

/-- The signal is found by its first sample. -/
theorem findPreludeStart_sent (total : ℕ) :
    (findPreludeStart : Decode plainHost ℕ).Attains (sentStart total) fun trigger later _ =>
      trigger = total + 1 ∧ later.reader.symbolCache = silentMemory ∧
        Listening (toneCapture (sentTone total) (total + 1) 30500) later.reader (total + 1) := by
  have idle : (sentStart total).reader.Idle := ⟨rfl, rfl⟩
  have ahead : (sentStart total).reader.upcoming =
      turned 0 :: toneSamples (sentTone total) (total + 1) 30500 := by
    rw [Reader.upcoming, ← process_toneFile (sentStart total).reader.device]
    unfold sentStart
    dsimp only
  apply (findPreludeStart_strong idle rfl ahead turned_strong).mono
  rintro trigger later trace ⟨rfl, rfl, listening⟩
  have zero : Arithmetic.ofInt (F := ℝ) 0 = 0 := Int.cast_zero
  have silent : (State.initial plainHost).reader.symbolCache = silentMemory := by
    funext index
    unfold State.initial
    dsimp only
    rw [zero]
    split
    · rfl
    · rfl
  exact ⟨rfl, silent, listening⟩

/-- It is an ideal signal. -/
theorem sent_ideal (total : ℕ) : IdealSignal (toneCapture (sentTone total) (total + 1) 30500)
    turnFreq sentPayload 200 (total + 1) (total + 1025) (total + 2049) := by
  have last := @last_toneCapture (sentTone total) (total + 1) 30500
  have high : turnFreq true = 2 * (Real.pi / 2) := by
    rw [turnFreq, toneTurns, if_pos rfl, Nat.cast_ofNat]
  have low : turnFreq false = Real.pi / 2 := by
    rw [turnFreq, toneTurns, if_neg Bool.false_ne_true, Nat.cast_one, one_mul, Nat.cast_ofNat]
  have positive := Real.pi_pos
  refine ⟨sentPayload_holds, by norm_num, ?_, ?_, ?_, ?_, ?_, ?_, ?_⟩
  · rw [high, low]
    linarith
  · rw [high, low]
    linarith
  · rw [high, low]
    intro same
    linarith
  · omega
  · omega
  · exact sounds_toneCapture (by omega) (by omega)
  · omega

/-- A reader that listens to a signal has it ahead. -/
theorem Listening.capture_eq {F : Type} [Arithmetic F] {host : Host F} {capture : Capture F}
    {reader : Reader host} (listening : Listening capture reader capture.base) :
    reader.capture = capture := by
  obtain ⟨_, placed, number, _⟩ := listening
  have rest := placed.rest
  rw [number, Nat.sub_self, List.drop_zero] at rest
  rw [Reader.capture, number, rest]

/-- The payload comes back at the start of the sample numbers. -/
theorem ideal_roundTrip_sent :
    (findPreludeStart : Decode plainHost ℕ).Attains (sentStart 0) fun _ state _ =>
      (isValidPrelude : Decode plainHost Bool).Attains state fun valid later _ =>
        valid = true ∧ later.prelude.samplesPerSym = 401 ∧
          (tryToGetPacketSymbols later.prelude.syncBitsEnd symbolsPerMsg
            later.prelude.samplesPerSym : Decode plainHost _).Attains later fun result _ _ =>
              result = some (sentPayload.map bitOf) := by
  obtain ⟨trigger, state, trace, evaluates, rfl, _, listening⟩ := findPreludeStart_sent 0
  have signal := sent_ideal 0
  rw [← listening.capture_eq] at signal
  exact ⟨_, state, trace, evaluates, ideal_roundTrip (sentStart 0) _ state trace evaluates
    listening.more turnFreq sentPayload 200 _ _ signal (by decide)⟩

/-- Where the first half-bit wraps it does not. -/
theorem ideal_roundTrip_wraps :
    ¬ ∀ (host : Host ℝ) (start : State host),
      (findPreludeStart : Decode host ℕ).Ensures
        { start with reader :=
          { start.reader with readFromCache := false, writeToCache := false } }
        fun trigger state _ => state.reader.file.eof = false →
          ∀ freq payload halfLength lowStart syncStart,
            IdealSignal state.reader.capture freq payload halfLength trigger lowStart syncStart →
            (isValidPrelude : Decode host Bool).Attains state fun valid later _ =>
              valid = true ∧ later.prelude.samplesPerSym = 2 * halfLength + 1 ∧
                (tryToGetPacketSymbols later.prelude.syncBitsEnd symbolsPerMsg
                  later.prelude.samplesPerSym : Decode host _).Attains later fun result _ _ =>
                    result = some (payload.map bitOf) := by
  intro always
  obtain ⟨total, place⟩ : ∃ total, total + 2449 = 2 ^ 32 - 100 := ⟨2 ^ 32 - 2549, by norm_num⟩
  obtain ⟨trigger, state, trace, evaluates, rfl, silent, listening⟩ := findPreludeStart_sent total
  have signal := sent_ideal total
  have apart := signal.apart
  have form := prelude_idealTone signal.holds signal.length signal.highPhase signal.lowPhase
  have sounds := signal.sounds
  have last := @last_toneCapture (sentTone total) (total + 1) 30500
  rw [← listening.capture_eq] at signal
  obtain ⟨valid, later, prelude, recognizes, _, symbol, attempted⟩ :=
    always plainHost (sentStart total) _ state trace evaluates listening.more turnFreq sentPayload
      200 _ _ signal
  obtain ⟨_, recognized⟩ := (isValidPrelude_tones apart form listening
    fun m lower upper => sounds m lower (by omega)).ensures _ _ _ recognizes
  obtain ⟨result, final, late, returns, rfl⟩ := attempted
  have number : u32 (total + 2049 + 2 * 200 : ℕ) = total + 2449 := by
    unfold u32
    omega
  rw [symbol, recognized.syncBitsEnd, number] at returns
  have zero := tryToGetPacketSymbols_wrapped recognized.heard recognized.separates
    (recognized.kept.samples.trans silent) (by omega) (by omega) (by omega) _ _ _ returns _ rfl
  have one : (sentPayload.map bitOf)[2]? = some 1 := rfl
  rw [one] at zero
  exact absurd (Option.some.inj zero) (by decide)

end FcTpms.Decoder
