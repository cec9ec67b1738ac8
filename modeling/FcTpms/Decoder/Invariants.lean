import FcTpms.Decoder.Analysis

/-!
# What the functions of the decoder leave alone

An invariant that reading one sample keeps, and that does not depend on the bookkeeping of the
cache, is kept by all functions that read samples (`SampleFree`), by deciding half-bits and
collecting symbols if it does not depend on the packet (`BitFree`, `SymbolFree`), and by measuring
a prelude if it does not depend on the measurements (`PreludeFree`). An invariant that does not
mention the sample reader at all (`ReaderFree`) is the simplest case.
-/

namespace FcTpms.Decoder

open Program Program.Prog

variable {F : Type} {host : Host F}

/-- The events that reading samples and deciding half-bits may cause. -/
def Event.Plain : Event host → Prop
  | .visit _ | .cacheIndex _ | .nullDereference | .enterFetch .. | .halfBit .. => True
  | .store .. | .enterPrelude _ | .enterAttempt .. => False

/-- An invariant that reading samples cannot break. -/
structure ReaderFree (guarantee : Event host → Prop) (invariant : State host → Prop) : Prop where
  /-- It does not mention the sample reader. -/
  reader : ∀ state reader, invariant state → invariant { state with reader := reader }
  /-- It survives lowering `valid_pkt`. -/
  invalid : ∀ state, invariant state → invariant { state with validPkt := false }
  /-- The guarantee holds of the events that reading may cause. -/
  plain : ∀ event : Event host, event.Plain → guarantee event

section Assignments

variable {assume guarantee : Event host → Prop} {invariant : State host → Prop}

/-- An assignment keeps an invariant that its new state satisfies. -/
theorem assign_keeps {change : State host → State host}
    (kept : ∀ state, invariant state → invariant (change state))
    (visit : ∀ state, invariant state → guarantee (.visit (change state))) :
    Keeps assume guarantee invariant (assign change) :=
  Triple.update.weaken (fun state holds _ => ⟨visit state holds, kept state holds⟩)
    fun _ _ holds => holds

/-- An observation that the guarantee covers keeps every invariant. -/
theorem emit_keeps {event : Event host} (holds : guarantee event) :
    Keeps assume guarantee invariant (Prog.emit event) :=
  Triple.emit.weaken (fun _ kept _ => ⟨holds, kept⟩) fun _ _ kept => kept

/-- Returning a value keeps every invariant. -/
theorem pure_keeps {α : Type} (value : α) :
    Keeps assume guarantee invariant (pure value : Decode host α) :=
  Triple.pure fun _ holds => holds

/-- A null pointer keeps every invariant, if the guarantee allows it. -/
theorem nullDereference_triple {α : Type} {post : α → State host → Prop}
    (holds : guarantee .nullDereference) :
    Triple assume guarantee invariant (nullDereference : Decode host α) post :=
  Triple.bind (emit_keeps holds) fun _ => Triple.crash

end Assignments

namespace ReaderFree

variable {assume guarantee : Event host → Prop} {invariant : State host → Prop}
  (free : ReaderFree guarantee invariant)

include free

theorem assignReader_keeps (change : Reader host → Reader host) :
    Keeps assume guarantee invariant (assignReader change) :=
  assign_keeps (fun state holds => free.reader state _ holds) fun _ _ => free.plain _ True.intro

theorem setInvalid_keeps :
    Keeps assume guarantee invariant (setValidPkt false : Decode host Unit) :=
  assign_keeps (fun state holds => free.invalid state holds) fun _ _ => free.plain _ True.intro

variable [Arithmetic F]

theorem initializeOnce_keeps :
    Keeps assume guarantee invariant (initializeOnce : Decode host Unit) :=
  Triple.get_keep fun state _ => by
    cases state.reader.dsp with
    | none => exact free.assignReader_keeps _
    | some _ => exact pure_keeps ()

omit [Arithmetic F] in
theorem readTwoBytes_keeps :
    Keeps assume guarantee invariant (readTwoBytes : Decode host (Option (UInt8 × UInt8))) := by
  refine Triple.get_keep fun state _ => ?_
  split
  · exact Triple.bind (free.assignReader_keeps _) fun _ => pure_keeps _
  · exact Triple.bind (free.assignReader_keeps _) fun _ => pure_keeps _

omit [Arithmetic F] in
theorem storeInCache_keeps (sample : Cplx F) :
    Keeps assume guarantee invariant (storeInCache sample : Decode host (Option (Cplx F))) := by
  refine Triple.get_keep fun state _ => ?_
  refine Triple.bind (emit_keeps (free.plain _ True.intro)) fun _ => ?_
  refine Triple.bind (free.assignReader_keeps _) fun _ => ?_
  refine Triple.bind (free.assignReader_keeps _) fun _ => ?_
  refine Triple.bind (free.assignReader_keeps _) fun _ => ?_
  refine Triple.get_keep fun later _ => ?_
  split
  · exact Triple.bind free.setInvalid_keeps fun _ => pure_keeps _
  · exact pure_keeps _

theorem readFromFile_keeps :
    Keeps assume guarantee invariant (readFromFile : Decode host (Option (Cplx F))) := by
  refine Triple.bind free.readTwoBytes_keeps fun bytes => ?_
  cases bytes with
  | none => exact pure_keeps _
  | some bytes =>
    refine Triple.bind (free.assignReader_keeps _) fun _ => ?_
    refine Triple.get_keep fun state _ => ?_
    cases state.reader.dsp with
    | none => exact nullDereference_triple (free.plain _ True.intro)
    | some dsp =>
      refine Triple.bind (free.assignReader_keeps _) fun _ => ?_
      refine Triple.get_keep fun later _ => ?_
      split
      · exact free.storeInCache_keeps _
      · exact pure_keeps _

theorem getNextSample_keeps :
    Keeps assume guarantee invariant (getNextSample : Decode host (Option (Cplx F))) := by
  refine Triple.bind free.initializeOnce_keeps fun _ => ?_
  refine Triple.get_keep fun state _ => ?_
  dsimp only
  split
  · split
    · refine Triple.bind (free.assignReader_keeps _) fun _ => ?_
      exact Triple.bind (free.assignReader_keeps _) fun _ => free.readFromFile_keeps
    · refine Triple.bind (emit_keeps (free.plain _ True.intro)) fun _ => ?_
      exact Triple.bind (free.assignReader_keeps _) fun _ => pure_keeps _
  · exact free.readFromFile_keeps

end ReaderFree

/-- An invariant that reading samples keeps: the next sample keeps it, and it does not depend on
the bookkeeping of the cache. -/
structure SampleFree [Arithmetic F] (assume guarantee : Event host → Prop)
    (invariant : State host → Prop) : Prop where
  /-- Reading a sample keeps it. -/
  sample : Keeps assume guarantee invariant (getNextSample : Decode host (Option (Cplx F)))
  /-- It depends on the file, the filter, the oscillator and the number of samples only. -/
  bookkeeping : ∀ state (reader : Reader host), reader.file = state.reader.file →
    reader.dsp = state.reader.dsp → reader.totalSamplesIn = state.reader.totalSamplesIn →
    invariant state → invariant { state with reader := reader }
  /-- It survives lowering `valid_pkt`. -/
  invalid : ∀ state, invariant state → invariant { state with validPkt := false }
  /-- The guarantee holds of the events that reading may cause. -/
  plain : ∀ event : Event host, event.Plain → guarantee event

/-- An invariant that does not mention the sample reader is kept by reading samples. -/
theorem ReaderFree.sampleFree [Arithmetic F] {assume guarantee : Event host → Prop}
    {invariant : State host → Prop} (free : ReaderFree guarantee invariant) :
    SampleFree assume guarantee invariant :=
  ⟨free.getNextSample_keeps, fun state reader _ _ _ holds => free.reader state reader holds,
    free.invalid, free.plain⟩

/-- Skipping to a location keeps what reading a sample keeps. -/
theorem skipTo_keeps [Arithmetic F] {assume guarantee : Event host → Prop}
    {invariant : State host → Prop}
    (sample : Keeps assume guarantee invariant (getNextSample : Decode host (Option (Cplx F))))
    (location : ℕ) : Keeps assume guarantee invariant (skipTo location : Decode host Bool) := by
  refine Triple.loop (fun _ => invariant) (fun _ => ?_) ()
  refine Triple.get_keep fun state _ => ?_
  split
  · refine Triple.bind sample fun sample => ?_
    cases sample with
    | none => exact Triple.pure fun _ holds => holds
    | some _ => exact Triple.pure fun _ holds => holds
  · exact Triple.pure fun _ holds => holds

/-- Collecting samples keeps what reading a sample keeps. -/
theorem collect_keeps [Arithmetic F] {assume guarantee : Event host → Prop}
    {invariant : State host → Prop}
    (sample : Keeps assume guarantee invariant (getNextSample : Decode host (Option (Cplx F))))
    (count : ℕ) :
    Keeps assume guarantee invariant (collect count : Decode host (List (Cplx F))) := by
  induction count with
  | zero => exact pure_keeps _
  | succ count ih =>
    refine Triple.bind sample fun sample => ?_
    cases sample with
    | none => exact pure_keeps _
    | some _ => exact Triple.bind ih fun _ => pure_keeps _

namespace SampleFree

variable [Arithmetic F] {assume guarantee : Event host → Prop} {invariant : State host → Prop}
  (free : SampleFree assume guarantee invariant)

include free

theorem assignReader_keeps (change : Reader host → Reader host)
    (file : ∀ reader, (change reader).file = reader.file)
    (dsp : ∀ reader, (change reader).dsp = reader.dsp)
    (total : ∀ reader, (change reader).totalSamplesIn = reader.totalSamplesIn) :
    Keeps assume guarantee invariant (assignReader change) :=
  assign_keeps (fun state holds => free.bookkeeping state _ (file _) (dsp _) (total _) holds)
    fun _ _ => free.plain _ True.intro

theorem setInvalid_keeps :
    Keeps assume guarantee invariant (setValidPkt false : Decode host Unit) :=
  assign_keeps (fun state holds => free.invalid state holds) fun _ _ => free.plain _ True.intro

theorem getSomeSamples_keeps (numSamples : ℤ) (location : ℕ) :
    Keeps assume guarantee invariant
      (getSomeSamples numSamples location : Decode host (Option (Buffer F))) := by
  refine Triple.get_keep fun state _ => ?_
  refine Triple.bind (emit_keeps (free.plain _ True.intro)) fun _ => ?_
  refine Triple.bind (skipTo_keeps free.sample location) fun skipped => ?_
  split
  · exact pure_keeps _
  · refine Triple.get_keep fun later _ => ?_
    refine Triple.bind
      (free.assignReader_keeps _ (fun _ => rfl) (fun _ => rfl) fun _ => rfl) fun _ => ?_
    split
    · exact pure_keeps _
    · exact Triple.bind (collect_keeps free.sample _) fun _ => pure_keeps _

theorem turnToCache_keeps : Keeps assume guarantee invariant (turnToCache : Decode host Unit) := by
  refine Triple.get_keep fun state _ => ?_
  split
  · exact Triple.bind
      (free.assignReader_keeps _ (fun _ => rfl) (fun _ => rfl) fun _ => rfl) fun _ =>
        free.assignReader_keeps _ (fun _ => rfl) (fun _ => rfl) fun _ => rfl
  · exact pure_keeps ()

theorem rewindCache_keeps (bitStart : ℕ) (numSamples : ℤ) :
    Keeps assume guarantee invariant (rewindCache bitStart numSamples : Decode host Unit) := by
  refine Triple.get_keep fun state _ => ?_
  split
  · exact free.assignReader_keeps _ (fun _ => rfl) (fun _ => rfl) fun _ => rfl
  · exact pure_keeps ()

theorem startCache_keeps : Keeps assume guarantee invariant (startCache : Decode host Unit) := by
  refine Triple.bind
    (free.assignReader_keeps _ (fun _ => rfl) (fun _ => rfl) fun _ => rfl) fun _ => ?_
  refine Triple.bind
    (free.assignReader_keeps _ (fun _ => rfl) (fun _ => rfl) fun _ => rfl) fun _ => ?_
  refine Triple.get_keep fun state _ => ?_
  split
  · exact free.assignReader_keeps _ (fun _ => rfl) (fun _ => rfl) fun _ => rfl
  · exact pure_keeps ()

end SampleFree

/-- An invariant that deciding a half-bit cannot break. -/
structure BitFree [Arithmetic F] (assume guarantee : Event host → Prop)
    (invariant : State host → Prop) : Prop extends SampleFree assume guarantee invariant where
  /-- It does not mention the end of a half-bit or its confidence. -/
  decided : ∀ state actualBitEnd bitConfidence, invariant state → invariant
    { state with packet := { state.packet with
        actualBitEnd := actualBitEnd, bitConfidence := bitConfidence } }

namespace BitFree

variable [Arithmetic F] {assume guarantee : Event host → Prop} {invariant : State host → Prop}
  (free : BitFree assume guarantee invariant)

include free

/-- Deciding a half-bit keeps the invariant and returns `0` or `1`. -/
theorem getBit_keeps (bitStart bitEnd : ℕ) :
    Triple assume guarantee invariant (getBit bitStart bitEnd : Decode host ℤ)
      fun bit state => invariant state ∧ (bit = 0 ∨ bit = 1) := by
  refine Triple.bind (free.getSomeSamples_keeps _ _) fun buffer => ?_
  cases buffer with
  | none => exact nullDereference_triple (free.plain _ True.intro)
  | some buffer =>
    refine Triple.get_keep fun state _ => ?_
    refine Triple.bind (emit_keeps (free.plain _ True.intro)) fun _ => ?_
    refine Triple.bind (assign_keeps
      (fun later kept => free.decided later _ later.packet.bitConfidence kept)
      fun _ _ => free.plain _ True.intro) fun _ => ?_
    refine Triple.bind free.turnToCache_keeps fun _ => ?_
    refine Triple.bind (free.rewindCache_keeps _ _) fun _ => ?_
    refine Triple.bind (assign_keeps
      (fun later kept => free.decided later later.packet.actualBitEnd _ kept)
      fun _ _ => free.plain _ True.intro) fun _ => ?_
    apply Triple.pure
    intro later kept
    refine ⟨kept, ?_⟩
    unfold bitValue
    split <;> simp

end BitFree

/-- An invariant that does not mention the packet. -/
structure PacketFree (guarantee : Event host → Prop) (invariant : State host → Prop) : Prop where
  /-- It does not mention the packet. -/
  packet : ∀ state packet, invariant state → invariant { state with packet := packet }
  /-- The guarantee holds of states satisfying it. -/
  visit : ∀ state, invariant state → guarantee (.visit state)
  /-- The guarantee holds of writes to character arrays. -/
  store : ∀ array index, guarantee (.store array index)

namespace PacketFree

variable {assume guarantee : Event host → Prop} {invariant : State host → Prop}
  (free : PacketFree guarantee invariant)

include free

theorem assignPacket_keeps (change : Packet F → Packet F) :
    Keeps assume guarantee invariant (assignPacket change) :=
  assign_keeps (fun state holds => free.packet state _ holds) fun state holds =>
    free.visit _ (free.packet state _ holds)

theorem storeChar_keeps (array : CharArray) (index : ℕ) (char : Char) :
    Keeps assume guarantee invariant (storeChar array index char : Decode host Unit) :=
  Triple.bind (emit_keeps (free.store _ _)) fun _ => free.assignPacket_keeps _

theorem strcpyFrom_keeps (array : CharArray) (index : ℕ) (text : List Char) :
    Keeps assume guarantee invariant (strcpyFrom array index text : Decode host Unit) := by
  induction text generalizing index with
  | nil => exact free.storeChar_keeps _ _ _
  | cons char rest ih => exact Triple.bind (free.storeChar_keeps _ _ _) fun _ => ih _

theorem recordSecondSymbol_keeps (firstBit secondBit : ℤ) :
    Keeps assume guarantee invariant (recordSecondSymbol firstBit secondBit : Decode host ℤ) := by
  refine Triple.bind (free.storeChar_keeps _ _ _) fun _ => ?_
  refine Triple.bind (free.storeChar_keeps _ _ _) fun _ => ?_
  refine Triple.get_keep fun _ _ => ?_
  refine Triple.bind (free.storeChar_keeps _ _ _) fun _ => ?_
  refine Triple.bind (free.storeChar_keeps _ _ _) fun _ => ?_
  exact Triple.bind (free.assignPacket_keeps _) fun _ => pure_keeps _

theorem recordSymbol_keeps (firstBit secondBit : ℤ) :
    Keeps assume guarantee invariant (recordSymbol firstBit secondBit : Decode host ℤ) := by
  refine Triple.get_keep fun _ _ => ?_
  refine Triple.bind (free.storeChar_keeps _ _ _) fun _ => ?_
  refine Triple.bind (free.storeChar_keeps _ _ _) fun _ => ?_
  refine Triple.bind (free.storeChar_keeps _ _ _) fun _ => ?_
  refine Triple.get_keep fun _ _ => ?_
  refine Triple.get_keep fun _ _ => ?_
  refine Triple.bind (free.storeChar_keeps _ _ _) fun _ => ?_
  refine Triple.bind (free.storeChar_keeps _ _ _) fun _ => ?_
  exact Triple.bind (free.assignPacket_keeps _) fun _ => pure_keeps _

end PacketFree

/-- An invariant that collecting symbols cannot break. -/
structure SymbolFree [Arithmetic F] (assume guarantee : Event host → Prop)
    (invariant : State host → Prop) : Prop extends SampleFree assume guarantee invariant where
  /-- It does not mention the packet. -/
  packet : ∀ state packet, invariant state → invariant { state with packet := packet }
  /-- The guarantee holds of writes to character arrays. -/
  store : ∀ array index, guarantee (.store array index)

namespace SymbolFree

variable [Arithmetic F] {assume guarantee : Event host → Prop} {invariant : State host → Prop}
  (free : SymbolFree assume guarantee invariant)

include free

theorem bitFree : BitFree assume guarantee invariant :=
  { free.toSampleFree with decided := fun state _ _ holds => free.packet state _ holds }

theorem packetFree : PacketFree guarantee invariant :=
  ⟨free.packet, fun _ _ => free.plain _ True.intro, free.store⟩

theorem getSecondSymbol_keeps (symStart estSamplesPerSym : ℕ) :
    Keeps assume guarantee invariant
      (getSecondSymbol symStart estSamplesPerSym : Decode host ℤ) := by
  refine Triple.bind (free.packetFree.assignPacket_keeps _) fun _ => ?_
  refine Triple.bind ((free.bitFree.getBit_keeps _ _).weaken (fun _ holds => holds)
    fun _ _ both => both.1) fun _ => ?_
  refine Triple.get_keep fun _ _ => ?_
  split
  · dsimp only
    split
    · exact free.packetFree.recordSecondSymbol_keeps _ _
    · exact Triple.bind free.setInvalid_keeps fun _ => pure_keeps _
  · exact free.packetFree.recordSecondSymbol_keeps _ _

theorem getSymbol_keeps (symStart estSamplesPerSym : ℕ) :
    Keeps assume guarantee invariant (getSymbol symStart estSamplesPerSym : Decode host ℤ) := by
  have bit (bitStart bitEnd : ℕ) :
      Keeps assume guarantee invariant (getBit bitStart bitEnd : Decode host ℤ) :=
    (free.bitFree.getBit_keeps bitStart bitEnd).weaken (fun _ holds => holds)
      fun _ _ both => both.1
  refine Triple.bind (bit _ _) fun _ => ?_
  refine Triple.get_keep fun _ _ => ?_
  refine Triple.bind (bit _ _) fun _ => ?_
  refine Triple.get_keep fun _ _ => ?_
  split
  · exact Triple.bind free.setInvalid_keeps fun _ => pure_keeps _
  · exact free.packetFree.recordSymbol_keeps _ _

theorem collectSymbols_keeps (estSamplesPerSym count : ℕ) (packetSyms : List ℤ) :
    Keeps assume guarantee invariant
      (collectSymbols estSamplesPerSym count packetSyms : Decode host (Option (List ℤ))) := by
  induction count generalizing packetSyms with
  | zero => exact pure_keeps _
  | succ count ih =>
    refine Triple.get_keep fun _ _ => ?_
    refine Triple.bind (free.getSymbol_keeps _ _) fun _ => ?_
    refine Triple.get_keep fun _ _ => ?_
    split
    · exact pure_keeps _
    · exact ih _

theorem getPacketSymbols_keeps
    (valid : ∀ state, invariant state → invariant { state with validPkt := true })
    (pktStart numSyms estSamplesPerSym : ℕ) :
    Keeps assume guarantee invariant
      (getPacketSymbols pktStart numSyms estSamplesPerSym : Decode host (Option (List ℤ))) := by
  refine Triple.bind (free.packetFree.strcpyFrom_keeps _ _ _) fun _ => ?_
  refine Triple.bind (free.packetFree.strcpyFrom_keeps _ _ _) fun _ => ?_
  refine Triple.bind (free.getSecondSymbol_keeps _ _) fun _ => ?_
  refine Triple.get_keep fun _ _ => ?_
  split
  · exact pure_keeps _
  · refine Triple.bind (free.collectSymbols_keeps _ _ _) fun result => ?_
    cases result with
    | none => exact pure_keeps _
    | some packetSyms =>
      refine Triple.through (fun _ => invariant) ?_ fun _ => ?_
      · refine assign_keeps (fun state holds => ?_) fun _ _ => free.plain _ True.intro
        cases validatePacket packetSyms
        · exact free.invalid state holds
        · exact valid state holds
      · refine Triple.get_keep fun _ _ => ?_
        split
        · exact pure_keeps _
        · exact pure_keeps _

end SymbolFree

/-- An invariant that measuring a prelude cannot break: reading a sample keeps it, and it does not
mention the measurements. -/
structure PreludeFree [Arithmetic F] (assume guarantee : Event host → Prop)
    (invariant : State host → Prop) : Prop where
  /-- Reading a sample keeps it. -/
  sample : Keeps assume guarantee invariant (getNextSample : Decode host (Option (Cplx F)))
  /-- It does not mention the measurements. -/
  prelude : ∀ state prelude, invariant state → invariant { state with prelude := prelude }
  /-- The guarantee holds of states satisfying it. -/
  visit : ∀ state, invariant state → guarantee (.visit state)

/-- What reading samples cannot break, measuring a prelude cannot break. -/
theorem ReaderFree.preludeFree [Arithmetic F] {assume guarantee : Event host → Prop}
    {invariant : State host → Prop} (free : ReaderFree guarantee invariant)
    (prelude : ∀ state prelude, invariant state → invariant { state with prelude := prelude }) :
    PreludeFree assume guarantee invariant :=
  ⟨free.getNextSample_keeps, prelude, fun _ _ => free.plain _ True.intro⟩

/-- Looking for a strong sample keeps what reading a sample keeps. -/
theorem findPreludeStart_keeps [Arithmetic F] {assume guarantee : Event host → Prop}
    {invariant : State host → Prop}
    (sample : Keeps assume guarantee invariant (getNextSample : Decode host (Option (Cplx F)))) :
    Keeps assume guarantee invariant (findPreludeStart : Decode host ℕ) := by
  refine Triple.loop (fun _ => invariant) (fun _ => ?_) ()
  refine Triple.bind sample fun read => ?_
  cases read with
  | none => exact Triple.pure fun _ holds => holds
  | some x =>
    refine Triple.get_keep fun state _ => ?_
    dsimp only
    split
    · exact Triple.pure fun _ holds => holds
    · split
      · exact Triple.pure fun _ holds => holds
      · exact Triple.pure fun _ holds => holds

/-- Skipping the sync bits keeps what reading a sample keeps. -/
theorem skipSyncBits_keeps [Arithmetic F] {assume guarantee : Event host → Prop}
    {invariant : State host → Prop}
    (sample : Keeps assume guarantee invariant (getNextSample : Decode host (Option (Cplx F))))
    (prevPhi : F) :
    Keeps assume guarantee invariant (skipSyncBits prevPhi : Decode host Bool) := by
  refine Triple.loop (fun _ => invariant) (fun prevPhi => ?_) _
  refine Triple.bind sample fun read => ?_
  cases read with
  | none => exact Triple.pure fun _ holds => holds
  | some x =>
    refine Triple.get_keep fun state _ => ?_
    split
    · exact Triple.pure fun _ holds => holds
    · dsimp only
      split
      · exact Triple.pure fun _ holds => holds
      · exact Triple.pure fun _ holds => holds

namespace PreludeFree

variable [Arithmetic F] {assume guarantee : Event host → Prop} {invariant : State host → Prop}
  (free : PreludeFree assume guarantee invariant)

include free

theorem assignPrelude_keeps (change : Prelude F → Prelude F) :
    Keeps assume guarantee invariant (assignPrelude change) :=
  assign_keeps (fun state holds => free.prelude state _ holds) fun state holds =>
    free.visit _ (free.prelude state _ holds)

theorem measurePhase_keeps (store : F → Prelude F → Prelude F) (phaseStart least most : ℕ)
    (inside : F → Prelude F → Bool) (prevPhi : F) :
    Keeps assume guarantee invariant
      (measurePhase store phaseStart least most inside prevPhi : Decode host (Option F)) := by
  refine Triple.loop (fun _ => invariant) (fun measured => ?_) _
  refine Triple.bind free.sample fun sample => ?_
  cases sample with
  | none => exact Triple.pure fun _ holds => holds
  | some x =>
    refine Triple.get_keep fun state _ => ?_
    split
    · exact Triple.pure fun _ holds => holds
    · refine Triple.bind (free.assignPrelude_keeps _) fun _ => ?_
      split
      · exact Triple.pure fun _ holds => holds
      · refine Triple.get_keep fun later _ => ?_
        split
        · exact Triple.pure fun _ holds => holds
        · exact Triple.pure fun _ holds => holds

theorem measurePrelude_keeps (prevPhi : F) :
    Keeps assume guarantee invariant (measurePrelude prevPhi : Decode host Bool) := by
  refine Triple.get_keep fun _ _ => ?_
  refine Triple.bind (free.measurePhase_keeps _ _ _ _ _ _) fun high => ?_
  cases high with
  | none => exact pure_keeps _
  | some phi =>
    refine Triple.bind (free.assignPrelude_keeps _) fun _ => ?_
    refine Triple.get_keep fun _ _ => ?_
    refine Triple.bind (free.assignPrelude_keeps _) fun _ => ?_
    refine Triple.get_keep fun _ _ => ?_
    refine Triple.bind (free.measurePhase_keeps _ _ _ _ _ _) fun low => ?_
    cases low with
    | none => exact pure_keeps _
    | some phi =>
      refine Triple.bind (free.assignPrelude_keeps _) fun _ => ?_
      refine Triple.get_keep fun _ _ => ?_
      split
      · exact pure_keeps _
      · refine Triple.bind (free.assignPrelude_keeps _) fun _ => ?_
        refine Triple.bind (skipSyncBits_keeps free.sample _) fun skipped => ?_
        split
        · exact pure_keeps _
        · refine Triple.get_keep fun _ _ => ?_
          refine Triple.bind (free.assignPrelude_keeps _) fun _ => ?_
          refine Triple.bind (free.assignPrelude_keeps _) fun _ => ?_
          refine Triple.get_keep fun _ _ => ?_
          split
          · exact pure_keeps _
          · exact pure_keeps _

theorem isValidPrelude_keeps (enter : ∀ state, invariant state → guarantee (.enterPrelude state))
    (null : guarantee .nullDereference) :
    Keeps assume guarantee invariant (isValidPrelude : Decode host Bool) := by
  refine Triple.get_bind fun state holds => ?_
  refine Triple.through (fun _ => invariant) ?_ fun _ => ?_
  · refine Triple.emit.weaken (fun later same => ?_) fun _ _ kept => kept
    rw [same]
    exact fun _ => ⟨enter state holds, holds⟩
  refine Triple.bind (free.assignPrelude_keeps _) fun _ => ?_
  refine Triple.get_keep fun _ _ => ?_
  refine Triple.bind (free.assignPrelude_keeps _) fun _ => ?_
  refine Triple.bind free.sample fun sample => ?_
  cases sample with
  | none => exact nullDereference_triple null
  | some x => exact free.measurePrelude_keeps _

end PreludeFree

/-! ## From one attempt to the whole analysis -/

/-- An invariant that attempts cannot break, and a condition that holds of every packet that
`get_packet_symbols` returns. -/
structure AttemptFree [Arithmetic F] (assume guarantee : Event host → Prop)
    (invariant : State host → Prop) (accepted : List ℤ → State host → Prop) : Prop
    extends SampleFree assume guarantee invariant where
  /-- It survives raising `valid_pkt`. -/
  valid : ∀ state, invariant state → invariant { state with validPkt := true }
  /-- The guarantee holds of the call. -/
  enter : ∀ estimate state, invariant state → guarantee (.enterAttempt estimate state)
  /-- Collecting symbols keeps it and returns accepted packets. -/
  collects : ∀ pktStart estSamplesPerSym, Triple assume guarantee invariant
    (getPacketSymbols pktStart symbolsPerMsg estSamplesPerSym) fun result state =>
      invariant state ∧ ∀ packetSyms, result = some packetSyms → accepted packetSyms state

namespace AttemptFree

variable [Arithmetic F] {assume guarantee : Event host → Prop} {invariant : State host → Prop}
  {accepted : List ℤ → State host → Prop}
  (free : AttemptFree assume guarantee invariant accepted)

include free

theorem tryToGetPacketSymbols_keeps (pktStart estSamplesPerSym : ℕ) :
    Triple assume guarantee invariant
      (tryToGetPacketSymbols pktStart symbolsPerMsg estSamplesPerSym) fun result state =>
        invariant state ∧ ∀ packetSyms, result = some packetSyms → accepted packetSyms state := by
  refine Triple.get_bind fun start holds => ?_
  refine Triple.through (fun _ => invariant) ?_ fun _ => ?_
  · refine Triple.emit.weaken (fun state same => ?_) fun _ _ kept => kept
    rw [same]
    exact fun _ => ⟨free.enter _ _ holds, holds⟩
  refine Triple.bind free.startCache_keeps fun _ => ?_
  refine Triple.bind (assign_keeps free.valid fun _ _ => free.plain _ True.intro) fun _ => ?_
  split
  · exact Triple.pure fun _ kept => ⟨kept, fun _ none => by cases none⟩
  · refine Triple.bind (free.collects _ _) fun result => ?_
    cases result with
    | none => exact Triple.pure fun _ both => ⟨both.1, fun _ none => by cases none⟩
    | some packetSyms =>
      refine Triple.get_keep fun state _ => ?_
      split
      · exact Triple.pure fun _ both => both
      · exact Triple.pure fun _ both => ⟨both.1, fun _ none => by cases none⟩

theorem attempt_keeps (estimate : ℕ) :
    Triple assume guarantee invariant (attempt estimate) fun result state =>
      invariant state ∧ ∀ packetSyms, result = some packetSyms → accepted packetSyms state := by
  refine Triple.get_keep fun start _ => ?_
  refine Triple.bind (free.tryToGetPacketSymbols_keeps _ _) fun result => ?_
  cases result with
  | none => exact Triple.pure fun _ both => ⟨both.1, fun _ none => by cases none⟩
  | some packetSyms =>
    refine Triple.get_keep fun state _ => ?_
    split
    · exact Triple.pure fun _ both => both
    · exact Triple.pure fun _ both => ⟨both.1, fun _ none => by cases none⟩

theorem retry_keeps (continues : ℕ → Bool) (next : ℕ → ℕ) (estimate : ℕ) :
    Triple assume guarantee invariant (retry continues next estimate) fun result state =>
      invariant state ∧ ∀ packetSyms, result = some packetSyms → accepted packetSyms state := by
  refine Triple.loop (fun _ => invariant) (fun estimate => ?_) estimate
  split
  · exact Triple.pure fun _ kept => ⟨kept, fun _ none => by cases none⟩
  · refine Triple.bind (free.attempt_keeps estimate) fun result => ?_
    cases result with
    | none => exact Triple.pure fun _ both => both.1
    | some packetSyms => exact Triple.pure fun _ both => both

theorem tryEstimates_keeps (origSamplesPerSym : ℕ) :
    Triple assume guarantee invariant (tryEstimates origSamplesPerSym) fun result state =>
      invariant state ∧ ∀ packetSyms, result = some packetSyms → accepted packetSyms state := by
  refine Triple.bind (free.attempt_keeps _) fun result => ?_
  cases result with
  | some packetSyms => exact Triple.pure fun _ both => both
  | none =>
    refine Triple.through (fun _ => invariant) ?_ fun _ => ?_
    · have replay := free.assignReader_keeps (fun reader => { reader with readFromCache := true })
        (fun _ => rfl) (fun _ => rfl) fun _ => rfl
      exact replay.weaken (fun _ both => both.1) fun _ _ kept => kept
    refine Triple.bind (free.retry_keeps _ _ _) fun result => ?_
    cases result with
    | some packetSyms => exact Triple.pure fun _ both => both
    | none => exact (free.retry_keeps _ _ _).weaken (fun _ both => both.1) fun _ _ both => both

theorem searchPrelude_keeps (measuring : PreludeFree assume guarantee invariant)
    (prelude : ∀ state, invariant state → guarantee (.enterPrelude state)) :
    Triple assume guarantee invariant (searchPrelude : Decode host _) fun answer state =>
      answer.elim (fun _ => invariant state) fun result =>
        invariant state ∧ ∀ packetSyms, result = some packetSyms → accepted packetSyms state := by
  refine Triple.bind (free.assignReader_keeps _ (fun _ => rfl) (fun _ => rfl) fun _ => rfl)
    fun _ => ?_
  refine Triple.bind (free.assignReader_keeps _ (fun _ => rfl) (fun _ => rfl) fun _ => rfl)
    fun _ => ?_
  refine Triple.bind (findPreludeStart_keeps free.sample) fun _ => ?_
  refine Triple.get_keep fun state _ => ?_
  split
  · exact Triple.pure fun _ kept => ⟨kept, fun _ none => by cases none⟩
  · refine Triple.bind (measuring.isValidPrelude_keeps prelude (free.plain _ True.intro))
      fun valid => ?_
    split
    · refine Triple.get_keep fun _ _ => ?_
      refine Triple.bind (free.tryEstimates_keeps _) fun result => ?_
      cases result with
      | none => exact Triple.pure fun _ both => both.1
      | some packetSyms => exact Triple.pure fun _ both => both
    · exact Triple.pure fun _ kept => kept

/-- What holds of every packet that `get_packet_symbols` returns holds of every packet that
`get_packet` returns: nothing is assigned in between. -/
theorem getPacket_keeps (measuring : PreludeFree assume guarantee invariant)
    (prelude : ∀ state, invariant state → guarantee (.enterPrelude state)) :
    Triple assume guarantee invariant (getPacket : Decode host _) fun result state =>
      invariant state ∧ ∀ packetSyms, result = some packetSyms → accepted packetSyms state := by
  refine Triple.loop (fun _ => invariant) (fun _ => ?_) ()
  refine (free.searchPrelude_keeps measuring prelude).weaken (fun _ kept => kept) ?_
  intro answer state holds
  cases answer with
  | inl _ => exact holds
  | inr result => exact holds

end AttemptFree

end FcTpms.Decoder
