import FcTpms.Decoder.Invariants
import FcTpms.Decoder.Steps
import FcTpms.Verif.PacketFormat

/-!
# Every accepted packet is well formed

Whatever the samples are, an attempt writes the two character arrays inside their bounds, and
the symbols it collects are the ones its half-bits encode. The invariant is `Collected`; reading
samples cannot break it, and each symbol extends it.
-/

namespace FcTpms.Decoder

open Program Program.Prog Text LineCode

variable {F : Type} {host : Host F}

/-- Writes to character arrays stay inside them. -/
def Event.InBounds : Event host → Prop
  | .store array index => index < array.size
  | _ => True

/-- Reading samples writes no character array. -/
theorem inBounds_of_plain (event : Event host) (plain : event.Plain) : event.InBounds := by
  cases event with
  | store => exact plain.elim
  | _ => exact True.intro

variable [Arithmetic F]

/-- A condition on the character arrays and `preceding_bit` alone is not touched by reading. -/
theorem bitFree_of_arrays {holds : Packet F → Prop}
    (arrays : ∀ packet packet' : Packet F, packet'.bits = packet.bits →
      packet'.symbols = packet.symbols → packet'.precedingBit = packet.precedingBit →
      holds packet → holds packet') :
    BitFree (fun _ => True) Event.InBounds (fun state : State host => holds state.packet) := by
  have free : ReaderFree Event.InBounds fun state : State host => holds state.packet :=
    { reader := fun _ _ kept => kept
      invalid := fun _ kept => kept
      plain := inBounds_of_plain }
  exact { free.sampleFree with
    decided := fun state _ _ kept => arrays state.packet _ rfl rfl rfl kept }

variable (host) in
/-- Deciding half-bits leaves the collected symbols alone. -/
theorem collected_bitFree (decoded : List Bool) :
    BitFree (fun _ => True) Event.InBounds
      (fun state : State host => Collected decoded state.packet) :=
  bitFree_of_arrays fun packet packet' bits symbols preceding kept =>
    ⟨by rw [← kept.bits, Packet.array, Packet.array, bits],
      by rw [← kept.symbols, Packet.array, Packet.array, symbols],
      by rw [preceding, kept.preceding]⟩

/-- The arrays hold the half-bits that `get_packet_symbols` presets. -/
structure Preset (packet : Packet F) : Prop where
  /-- `bits` holds the first three half-bits. -/
  bits : stringOf (packet.array .bits) = ['0', '1', '1']
  /-- `symbols` holds the first symbol. -/
  symbols : stringOf (packet.array .symbols) = ['1']
  /-- `preceding_bit` is the half-bit of the first symbol. -/
  preceding : packet.precedingBit = 1

/-- Deciding half-bits leaves the preset arrays alone. -/
theorem preset_bitFree :
    BitFree (fun _ => True) Event.InBounds (fun state : State host => Preset state.packet) :=
  bitFree_of_arrays fun packet packet' bits symbols preceding kept =>
    ⟨by rw [← kept.bits, Packet.array, Packet.array, bits],
      by rw [← kept.symbols, Packet.array, Packet.array, symbols],
      by rw [preceding, kept.preceding]⟩

/-! ## Recording -/

omit [Arithmetic F] in
/-- Recording a symbol stays inside the arrays and returns what its half-bits encode. -/
theorem recordSymbol_attains {decoded : List Bool} (start : State host)
    (collected : Collected decoded start.packet) (room : decoded.length < symbolsPerMsg)
    (kept : Bool) :
    (recordSymbol (bitOf kept) (bitOf !kept)).Attains start fun symbol later trace =>
      (∀ event ∈ trace, event.InBounds) ∧
        symbol = bitOf (lastHalf false decoded == kept) ∧
        later = { start with
          packet := start.packet.record (bitOf kept) (bitOf !kept)
            (bitOf (lastHalf false decoded == kept)) } := by
  have message : symbolsPerMsg = 69 := rfl
  have bitsRoom : strlen (start.packet.array .bits) + 2 < CharArray.bits.size := by
    rw [strlen, collected.bits, List.length_map, halfBits_length, CharArray.size]
    omega
  have symbolsRoom : strlen (start.packet.array .symbols) + 1 < CharArray.symbols.size := by
    rw [strlen, collected.symbols, List.length_map, CharArray.size]
    omega
  simp only [recordSymbol, attains_bind, attains_get, attains_storeChar, attains_assignPacket,
    attains_pure, Packet.precedingBit_write, Packet.array_write, collected.preceding,
    if_neg (show ¬ CharArray.symbols = .bits by decide), symbolOf_bitOf]
  constructor
  · simp only [List.forall_mem_append, List.forall_mem_cons, Event.InBounds, List.not_mem_nil,
      false_implies, implies_true, and_true, true_and]
    omega
  · exact ⟨True.intro, rfl⟩

omit [Arithmetic F] in
/-- Recording a symbol adds it to the collected ones. -/
theorem recordSymbol_triple {decoded : List Bool} (room : decoded.length < symbolsPerMsg)
    (kept : Bool) :
    Triple (fun _ => True) Event.InBounds
      (fun state : State host => Collected decoded state.packet)
      (recordSymbol (bitOf kept) (bitOf !kept)) fun symbol state =>
        ∃ bit, symbol = bitOf bit ∧ Collected (decoded ++ [bit]) state.packet := by
  refine Triple.intro fun start collected => Attains.triple ?_
  refine (recordSymbol_attains start collected room kept).mono ?_
  rintro symbol later trace ⟨safe, rfl, rfl⟩
  exact ⟨safe, _, rfl, collected.record room kept⟩

omit [Arithmetic F] in
variable (host) in
/-- Recording the second symbol completes the preset arrays to two collected symbols. -/
theorem recordSecondSymbol_triple :
    Triple (fun _ => True) Event.InBounds (fun state : State host => Preset state.packet)
      (recordSecondSymbol 1 0) fun symbol state =>
        symbol = bitOf true ∧ Collected [true, true] state.packet := by
  refine Triple.intro fun start preset => Attains.triple ?_
  simp only [recordSecondSymbol, attains_bind, attains_get, attains_storeChar,
    attains_assignPacket, attains_pure, Packet.precedingBit_write, preset.preceding]
  constructor
  · simp only [List.forall_mem_append, List.forall_mem_cons, Event.InBounds, List.not_mem_nil,
      false_implies, implies_true, and_true, true_and]
    decide
  · have bits := stringOf_append (start.packet.array .bits) ['0'] (by decide)
      (by rw [strlen, preset.bits, Packet.array_length]; decide)
    have symbols := stringOf_append (start.packet.array .symbols) ['1']
      (by decide) (by rw [strlen, preset.symbols, Packet.array_length]; decide)
    rw [strlen, preset.bits] at bits
    rw [strlen, preset.symbols] at symbols
    refine ⟨rfl, ?_, ?_, rfl⟩
    · change stringOf ((Packet.write _ _ _ _).array .bits) = _
      simp only [Packet.array_write, reduceCtorEq, if_false, if_true]
      exact bits
    · change stringOf ((Packet.write _ _ _ _).array .symbols) = _
      simp only [Packet.array_write, reduceCtorEq, if_false, if_true]
      exact symbols

omit [Arithmetic F] in
/-- `strcpy` into a large enough array leaves the text in it and the other array alone. -/
theorem strcpyFrom_attains (array : CharArray) (index : ℕ) (text : List Char)
    (state : State host) (room : index + text.length < array.size) :
    (strcpyFrom array index text).Attains state fun _ later trace =>
      (∀ event ∈ trace, event.InBounds) ∧
        later = { state with packet := state.packet.writeAll array index (text ++ ['\x00']) } := by
  induction text generalizing index state with
  | nil =>
    simp only [strcpyFrom, attains_storeChar, List.forall_mem_cons, Event.InBounds,
      List.not_mem_nil, false_implies, implies_true, and_true]
    exact ⟨room, rfl⟩
  | cons char rest ih =>
    rw [List.length_cons] at room
    simp only [strcpyFrom, attains_bind, attains_storeChar]
    refine (ih (index + 1) _ (by omega)).mono fun _ later trace ended => ⟨?_, ended.2⟩
    simp only [List.forall_mem_append, List.forall_mem_cons, Event.InBounds, List.not_mem_nil,
      false_implies, implies_true, and_true]
    exact ⟨by omega, ended.1⟩

omit [Arithmetic F] in
variable (host) in
/-- `strcpy` makes a short text the string of its array and leaves the other array alone. -/
theorem strcpy_triple {array other : CharArray} (differ : other ≠ array) (text : String)
    (kept : List Char) (clean : '\x00' ∉ text.toList) (room : text.toList.length < array.size) :
    Triple (fun _ => True) Event.InBounds
      (fun state : State host => stringOf (state.packet.array other) = kept)
      (strcpy array text) fun _ state => stringOf (state.packet.array array) = text.toList ∧
        stringOf (state.packet.array other) = kept := by
  refine Triple.intro fun start holds => Attains.triple ?_
  refine (strcpyFrom_attains array 0 text.toList start (by omega)).mono ?_
  rintro _ stop trace ⟨safe, rfl⟩
  refine ⟨safe, ?_, ?_⟩
  · rw [Packet.array_writeAll]
    exact stringOf_copy _ _ clean (by rw [Packet.array_length]; exact room)
  · rw [Packet.array_writeAll_of_ne _ differ]
    exact holds

/-! ## Collecting -/

/-- The second symbol completes the preset arrays, or the packet is invalid. -/
theorem getSecondSymbol_triple (symStart estSamplesPerSym : ℕ) :
    Triple (fun _ => True) Event.InBounds
      (fun state : State host => stringOf (state.packet.array .bits) = ['0', '1', '1'] ∧
        stringOf (state.packet.array .symbols) = ['1'])
      (getSecondSymbol symStart estSamplesPerSym) fun symbol state =>
        state.validPkt = true → symbol = bitOf true ∧ Collected [true, true] state.packet := by
  refine Triple.through (fun _ state => Preset state.packet) ?_ fun _ => ?_
  · exact Triple.update.weaken
      (fun state texts _ => ⟨True.intro, texts.1, texts.2, rfl⟩) fun _ _ preset => preset
  refine Triple.bind (preset_bitFree.getBit_keeps _ _) fun secondBit => ?_
  refine Triple.get_keep fun state decided => ?_
  have record := recordSecondSymbol_triple host
  split
  · rename_i one
    dsimp only
    split
    · rw [← one]
      exact record.weaken (fun _ both => both.1) fun _ _ collected _ => collected
    · refine Triple.through (fun _ later => later.validPkt = false) ?_ fun _ => ?_
      · exact Triple.update.weaken (fun _ _ _ => ⟨True.intro, rfl⟩) fun _ _ lowered => lowered
      · exact Triple.pure fun later lowered valid => absurd valid (by rw [lowered]; decide)
  · rename_i differ
    have zero : secondBit = 0 := by omega
    rw [zero]
    exact record.weaken (fun _ both => both.1) fun _ _ collected _ => collected

variable (host) in
/-- A symbol adds itself to the collected ones, or the packet is invalid. -/
theorem getSymbol_triple (symStart estSamplesPerSym : ℕ) {decoded : List Bool}
    (room : decoded.length < symbolsPerMsg) :
    Triple (fun _ => True) Event.InBounds
      (fun state : State host => Collected decoded state.packet)
      (getSymbol symStart estSamplesPerSym) fun symbol state =>
        state.validPkt = true →
          ∃ bit, symbol = bitOf bit ∧ Collected (decoded ++ [bit]) state.packet := by
  have free := collected_bitFree host decoded
  refine Triple.bind (free.getBit_keeps _ _) fun firstBit => ?_
  refine Triple.get_keep fun first firstDecided => ?_
  refine Triple.bind ((free.getBit_keeps _ _).weaken (fun _ both => both.1)
    fun _ _ kept => kept) fun secondBit => ?_
  refine Triple.get_keep fun second secondDecided => ?_
  rcases exists_bitOf firstDecided.2 with ⟨firstValue, rfl⟩
  rcases exists_bitOf secondDecided.2 with ⟨secondValue, rfl⟩
  split
  · refine Triple.through (fun _ later => later.validPkt = false) ?_ fun _ => ?_
    · exact Triple.update.weaken (fun _ _ _ => ⟨True.intro, rfl⟩) fun _ _ lowered => lowered
    · exact Triple.pure fun later lowered valid => absurd valid (by rw [lowered]; decide)
  · rename_i settled
    rcases settleHalfBits_differ _ _ _ _ settled with ⟨kept, rfl, rfl⟩
    exact (recordSymbol_triple room kept).weaken (fun _ both => both.1)
      fun _ _ collected _ => collected

/-- An array of symbols that has been collected completely so far. -/
def CollectedArray (packetSyms : List ℤ) (packet : Packet F) : Prop :=
  ∃ decoded : List Bool, packetSyms = decoded.map bitOf ∧ decoded.take 2 = [true, true] ∧
    Collected decoded packet

variable (host) in
/-- The loop over the symbols collects as many as it is asked for. -/
theorem collectSymbols_triple (estSamplesPerSym count : ℕ) (packetSyms : List ℤ)
    (complete : packetSyms.length + count = symbolsPerMsg) :
    Triple (fun _ => True) Event.InBounds
      (fun state : State host => CollectedArray packetSyms state.packet)
      (collectSymbols estSamplesPerSym count packetSyms) fun result state =>
        ∀ packetSyms, result = some packetSyms →
          packetSyms.length = symbolsPerMsg ∧ CollectedArray packetSyms state.packet := by
  induction count generalizing packetSyms with
  | zero =>
    refine Triple.pure fun state collected other same => ?_
    cases same
    exact ⟨complete, collected⟩
  | succ count ih =>
    refine Triple.intro fun start collected => ?_
    rcases collected with ⟨decoded, returned, fixed, collected⟩
    have length : packetSyms.length = decoded.length := by rw [returned, List.length_map]
    refine Triple.get_bind fun state same => ?_
    have next := getSymbol_triple host (u32 (state.packet.actualBitEnd + 1)) estSamplesPerSym
      (show decoded.length < symbolsPerMsg by omega)
    have here : ∀ later : State host, later = state → Collected decoded later.packet := by
      intro later unchanged
      rw [unchanged, same]
      exact collected
    refine (next.weaken here fun _ _ kept => kept).bind fun symbol => ?_
    refine Triple.get_bind fun later valid => ?_
    split
    · exact Triple.pure fun _ _ _ none => by cases none
    · rename_i kept
      rw [Bool.not_eq_true, Bool.not_eq_false'] at kept
      rcases valid kept with ⟨bit, rfl, extended⟩
      have more : (packetSyms ++ [bitOf bit]).length + count = symbolsPerMsg := by
        rw [List.length_append, List.length_singleton]
        omega
      refine (ih (packetSyms ++ [bitOf bit]) more).weaken (fun final unchanged => ?_)
        fun _ _ collected => collected
      rw [unchanged]
      refine ⟨decoded ++ [bit], by rw [returned, List.map_append, List.map_singleton], ?_, extended⟩
      have two : 2 ≤ decoded.length := by
        have taken := congrArg List.length fixed
        rw [List.length_take] at taken
        simp only [List.length_cons, List.length_nil] at taken
        omega
      rw [List.take_append_of_le_length two]
      exact fixed

/-- `get_packet_symbols` stays inside the arrays and returns well-formed packets only. -/
theorem getPacketSymbols_triple (pktStart estSamplesPerSym : ℕ) :
    Triple (fun _ => True) Event.InBounds (fun _ : State host => True)
      (getPacketSymbols pktStart symbolsPerMsg estSamplesPerSym) fun result state =>
        ∀ packetSyms, result = some packetSyms → WellFormed state.packet packetSyms := by
  refine Triple.intro fun start _ => ?_
  have bits := strcpy_triple host (show CharArray.symbols ≠ .bits by decide) "011"
    (stringOf (start.packet.array .symbols)) (by decide) (by decide)
  have symbols := strcpy_triple host (show CharArray.bits ≠ .symbols by decide) "1"
    "011".toList (by decide) (by decide)
  refine (bits.weaken (fun state same => by rw [same]) fun _ _ texts => texts).bind fun _ => ?_
  refine (symbols.weaken (fun state texts => texts.1) fun _ _ texts => texts).bind fun _ => ?_
  have preset : ∀ state : State host, stringOf (state.packet.array .symbols) = "1".toList ∧
      stringOf (state.packet.array .bits) = "011".toList →
      stringOf (state.packet.array .bits) = ['0', '1', '1'] ∧
        stringOf (state.packet.array .symbols) = ['1'] := fun _ texts => ⟨texts.2, texts.1⟩
  refine ((getSecondSymbol_triple pktStart estSamplesPerSym).weaken preset
    fun _ _ collected => collected).bind fun symbol => ?_
  refine Triple.get_bind fun second valid => ?_
  split
  · exact Triple.pure fun _ _ _ none => by cases none
  · rename_i kept
    rw [Bool.not_eq_true, Bool.not_eq_false'] at kept
    rcases valid kept with ⟨rfl, collected⟩
    have loop := collectSymbols_triple host estSamplesPerSym (symbolsPerMsg - 2)
      [1, bitOf true] (by decide)
    refine (loop.weaken (fun state same => ?_) fun _ _ ended => ended).bind fun result => ?_
    · rw [same]
      exact ⟨[true, true], rfl, rfl, collected⟩
    · cases result with
      | none => exact Triple.pure fun _ _ _ none => by cases none
      | some packetSyms =>
        refine Triple.through (fun _ state => state.validPkt = validatePacket packetSyms ∧
          packetSyms.length = symbolsPerMsg ∧ CollectedArray packetSyms state.packet) ?_ fun _ => ?_
        · exact Triple.update.weaken
            (fun state ended _ => ⟨True.intro, rfl, ended packetSyms rfl⟩)
            fun _ _ checked => checked
        · refine Triple.get_bind fun state checked => ?_
          split
          · exact Triple.pure fun _ _ _ none => by cases none
          · rename_i accepted
            rw [Bool.not_eq_true, Bool.not_eq_false', checked.1] at accepted
            refine Triple.pure fun later same other returned => ?_
            cases returned
            rw [same]
            rcases checked with ⟨_, complete, decoded, rfl, fixed, collected⟩
            rw [List.length_map] at complete
            exact collected.wellFormed complete fixed accepted

/-! ## The whole analysis -/

variable (host) in
/-- `get_packet` stays inside the arrays and returns well-formed packets only. -/
theorem getPacket_triple :
    Triple (fun _ => True) Event.InBounds (fun _ : State host => True) getPacket
      fun result state => ∀ packetSyms, result = some packetSyms →
        WellFormed state.packet packetSyms := by
  have free : ReaderFree Event.InBounds fun _ : State host => True :=
    ⟨fun _ _ _ => True.intro, fun _ _ => True.intro, inBounds_of_plain⟩
  have attempts : AttemptFree (fun _ => True) Event.InBounds (fun _ : State host => True)
      fun packetSyms state => WellFormed state.packet packetSyms :=
    { free.sampleFree with
      valid := fun _ _ => True.intro
      enter := fun _ _ _ => True.intro
      collects := fun pktStart estSamplesPerSym =>
        (getPacketSymbols_triple pktStart estSamplesPerSym).weaken (fun _ _ => True.intro)
          fun _ _ accepts => ⟨True.intro, accepts⟩ }
  have measuring : PreludeFree (fun _ => True) Event.InBounds fun _ : State host => True :=
    free.preludeFree fun _ _ _ => True.intro
  exact (attempts.getPacket_keeps measuring fun _ _ => True.intro).weaken (fun _ _ => True.intro)
    fun _ _ both => both.2

/-- `get_packet` never writes outside of `bits` and `symbols`, and every packet it returns is well
formed, for every file, from every state. -/
theorem getPacket_wellFormed (fuel : ℕ) (start : State host) :
    (∀ array index, Event.store array index ∈ (getPacket.run fuel start).trace →
        index < array.size) ∧
      ∀ packetSyms, (getPacket.run fuel start).outcome = .returned (some packetSyms) →
        WellFormed (getPacket.run fuel start).state.packet packetSyms := by
  have holds := getPacket_triple host fuel start True.intro fun _ _ => True.intro
  constructor
  · intro array index member
    exact holds.1 _ member
  · intro packetSyms returned
    exact holds.2 _ returned packetSyms rfl

end FcTpms.Decoder
