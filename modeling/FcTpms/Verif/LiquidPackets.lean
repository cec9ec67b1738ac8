import FcTpms.Legacy.Getters
import FcTpms.Verif.LegacyDecoders
import FcTpms.Verif.SensorMessages

/-!
# Transmissions to `liquid_analysis.c`

A transmission is a prelude of a high and a low period and half-bits of a packet. After a prelude
that `update_state` accepts the packet is published exactly when its half-bits are those of a
payload, up to the last symbol, which is not looked at; what is published is the payload.
-/

namespace FcTpms

open Decoder Legacy

namespace Legacy

/-! ## Half-bits of a packet -/

/-- The front of the half-bits of a packet. -/
theorem Begun.of_append {front back : List Bool} (begun : Begun (front ++ back)) : Begun front := by
  constructor
  case preamble =>
    apply List.IsPrefix.trans _ begun.preamble
    exact (List.prefix_append front back).take 3
  case paired =>
    intro index symbol inside
    have here := begun.paired index symbol (by rw [List.length_append]; omega)
    rw [List.getElem?_append_left (by omega), List.getElem?_append_left inside] at here
    exact here

/-- The half-bits of a packet, but for those of its last symbol, which are not looked at: the fixed
symbols are 1 at their places, and the first 136 half-bits are the code of the first 68 symbols. -/
def IsPacket (bits symbols : List Bool) : Prop :=
  symbols.length = symbolsPerMsg ∧ symbols[0]? = some true ∧ symbols[1]? = some true ∧
    symbols[68]? = some true ∧ bits.take 136 = (LineCode.halfBits false symbols).take 136

/-- A string of more than one symbol has two first symbols. -/
theorem exists_two {symbols : List Bool} {more : ℕ} (many : symbols.length = more + 2) :
    ∃ first second rest, symbols = first :: second :: rest := by
  rcases List.exists_of_length_succ symbols many with ⟨first, others, rfl⟩
  rcases List.exists_of_length_succ others (Nat.succ.inj many) with ⟨second, rest, rfl⟩
  exact ⟨first, second, rest, rfl⟩

/-- A complete string is the half-bits of a packet just when it is the code of its symbols. -/
theorem begun_iff_isPacket {bits : List Bool} (complete : bits.length = 2 * symbolsPerMsg) :
    Begun bits ↔ ∃ symbols, IsPacket bits symbols := by
  have length : bits.length = 138 := complete
  constructor
  · intro begun
    have front : (bits.take 136).length = 2 * 68 := by rw [List.length_take, length]; rfl
    have differ : ∀ index < 68, (bits.take 136)[2 * index]? ≠ (bits.take 136)[2 * index + 1]? := by
      intro index inside
      rw [List.getElem?_take_of_lt (by omega), List.getElem?_take_of_lt (by omega)]
      exact begun.paired index inside (by omega)
    rcases LineCode.exists_halfBits false front differ with ⟨symbols, many, code⟩
    have preamble : (LineCode.halfBits false symbols).take 3 = [false, true, true] := by
      rw [← code, List.take_take]
      apply List.IsPrefix.eq_of_length
      · exact begun.preamble
      · rw [List.length_take, length]
        rfl
    rcases exists_two many with ⟨first, second, rest, rfl⟩
    have ones : first = true ∧ second = true := by
      clear code many differ
      simp only [LineCode.halfBits, List.take_succ_cons, List.take_zero] at preamble
      cases first <;> cases second <;> revert preamble <;> decide
    rcases ones with ⟨rfl, rfl⟩
    apply Exists.intro (true :: true :: rest ++ [true])
    refine ⟨?_, rfl, rfl, ?_, ?_⟩
    · rw [List.length_append, many]
      rfl
    · rw [List.getElem?_append_right (by rw [many]), many]
      rfl
    · rw [code, LineCode.halfBits_append, List.take_left' (by rw [LineCode.halfBits_length, many])]
  · intro packet
    rcases packet with ⟨symbols, many, first, second, _, code⟩
    rcases exists_two many with ⟨one, other, rest, rfl⟩
    obtain rfl : one = true := Option.some.inj first
    obtain rfl : other = true := Option.some.inj second
    constructor
    case preamble =>
      have three := congrArg (List.take 3) code
      rw [List.take_take, List.take_take, Nat.min_eq_left (by decide)] at three
      rw [three]
      exact List.prefix_refl _
    case paired =>
      intro index symbol inside
      have symbol : index < 68 := symbol
      have here := LineCode.halfBits_differ false (true :: true :: rest) index
        (by rw [many]; exact Nat.lt_succ_of_lt symbol)
      have place (j : ℕ) (small : j < 136) :
          bits[j]? = (LineCode.halfBits false (true :: true :: rest))[j]? := by
        rw [← List.getElem?_take_of_lt small, code, List.getElem?_take_of_lt small]
      rw [place _ (by omega), place _ (by omega)]
      exact here

/-- What is published for the half-bits of a packet. -/
theorem IsPacket.published {bits symbols : List Bool} {decoded : List Char}
    (packet : IsPacket bits symbols) (published : Published bits decoded) :
    decoded = symbols.map digit := by
  rcases packet with ⟨many, first, _, last, code⟩
  have place (j : ℕ) (small : j < 136) : bits[j]? = (LineCode.halfBits false symbols)[j]? := by
    rw [← List.getElem?_take_of_lt small, code, List.getElem?_take_of_lt small]
  apply List.ext_getElem?
  intro index
  rw [List.getElem?_map]
  by_cases zero : index = 0
  · rw [zero, published.first, first]
    rfl
  by_cases middle : index < 68
  · obtain ⟨before, rfl⟩ : ∃ before, index = before + 1 := ⟨index - 1, by omega⟩
    have inside : before + 1 < symbols.length := by
      rw [many]
      exact Nat.lt_succ_of_lt middle
    have repeats := LineCode.symbol_iff_repeats false symbols before inside
    rw [published.decoded (before + 1) (by omega) middle, place _ (by omega), place _ (by omega),
      List.getElem?_eq_getElem inside, Option.map_some]
    have low : 2 * (before + 1) - 1 = 2 * before + 1 := by omega
    have high : 2 * (before + 1) = 2 * before + 2 := by omega
    rw [low, high, ← if_congr repeats rfl rfl]
    cases symbols[before + 1] <;> rfl
  by_cases final : index = 68
  · rw [final, last]
    exact published.last
  · rw [List.getElem?_eq_none (by rw [published.length]; unfold symbolsPerMsg; omega),
      List.getElem?_eq_none (by rw [many]; unfold symbolsPerMsg; omega)]
    rfl

theorem IsPacket.decoded {bits symbols : List Bool} (packet : IsPacket bits symbols)
    (complete : bits.length = 2 * symbolsPerMsg) : decodedSymbols bits = symbols.map digit :=
  packet.published (((begun_iff_isPacket complete).mpr ⟨symbols, packet⟩).paired.published complete)

/-- A packet has only one list of symbols. -/
theorem IsPacket.unique {bits symbols other : List Bool} (packet : IsPacket bits symbols)
    (packet' : IsPacket bits other) (complete : bits.length = 2 * symbolsPerMsg) :
    symbols = other := by
  have same : symbols.map digit = other.map digit := by
    rw [← packet.decoded complete, packet'.decoded complete]
  exact (List.map_injective_iff.mpr digit_injective) same

section Analysis

variable {σ ι : Type} (decoder : PacketDecoder σ ι) {state later : σ} {input : ι} {rest : List ι}

/-- A call that returns 0. -/
theorem PacketDecoder.analyze_goesOn
    (called : decoder.updateState state input = some (later, false)) :
    decoder.analyze state (input :: rest) = decoder.analyze later rest := by
  rw [PacketDecoder.analyze, called]

/-- A call that returns 1. -/
theorem PacketDecoder.analyze_stops
    (called : decoder.updateState state input = some (later, true)) :
    decoder.analyze state (input :: rest) = some (later, true) := by
  rw [PacketDecoder.analyze, called]

end Analysis

end Legacy

namespace Liquid

/-! ## One half-bit after another -/

/-- A half-bit fits just when the half-bits with it are still those of a packet. -/
theorem fitsPacket_iff_begun {basebitVals : List Bool} {b : Bool} (begun : Begun basebitVals)
    (long : 2 ≤ basebitVals.length) :
    fitsPacket basebitVals b = true ↔ Begun (basebitVals ++ [b]) := by
  constructor
  · exact begun_of_fits begun long
  intro further
  unfold fitsPacket
  by_cases third : basebitVals.length = 3
  · have differ := further.paired 1 (by decide)
      (by rw [List.length_append, third]; exact Nat.lt_succ_self 3)
    rw [begun.third third] at differ
    rw [if_pos third]
    cases b
    · rfl
    · exact absurd rfl differ
  rw [if_neg third]
  by_cases second : basebitVals.length = 2
  · have whole : (basebitVals ++ [b]).length = 3 := by rw [List.length_append, second]; rfl
    have same := further.third whole
    rw [begun.second second] at same
    rw [if_pos second]
    cases b
    · exact absurd same (by decide)
    · rfl
  rw [if_neg second]
  by_cases odd : basebitVals.length % 2 = 1
  · rw [if_pos odd, Bool.or_eq_true, decide_eq_true_eq]
    by_cases early : 136 < basebitVals.length
    · exact Or.inl early
    · apply Or.inr
      have differ := further.paired (basebitVals.length / 2) (by unfold symbolsPerMsg; omega)
        (by rw [List.length_append, List.length_singleton]; omega)
      have place : 2 * (basebitVals.length / 2) + 1 = basebitVals.length := by omega
      have before : 2 * (basebitVals.length / 2) = basebitVals.length - 1 := by omega
      rw [place, before, List.getElem?_append_left (by omega), List.getElem?_concat_length]
        at differ
      exact decide_eq_true differ
  · rw [if_neg odd]

/-- How many calls a packet still takes at least. -/
def callsLeft (state : State) : ℕ :=
  if state.basebitVals = [] then 137 else 138 - state.basebitVals.length

/-- One call is one half-bit nearer to a packet at most. -/
theorem Sound.callsLeft_step {state later : State} {input : Bool × ℕ} {found : Bool}
    (sound : Sound state) (called : updateState state input.1 input.2 = some (later, found)) :
    callsLeft state ≤ callsLeft later + 1 ∧ (found = true → callsLeft state ≤ 1) := by
  by_cases empty : state.basebitVals = []
  · rcases sound.waits empty input.1 input.2 with ⟨later', called', _, bits⟩
    cases called'.symm.trans called
    constructor
    · unfold callsLeft
      rw [if_pos empty]
      rcases bits with none | two
      · rw [if_pos none]
        omega
      · rw [two]
        decide
    · intro impossible
      cases impossible
  · have advances := sound.collects empty called
    unfold callsLeft
    rw [if_neg empty]
    constructor
    · split
      · omega
      · rename_i begun
        rcases advances.bits with none | one
        · exact absurd none begun
        · rw [one, List.length_append, List.length_singleton]
          omega
    · intro published
      have complete : later.basebitVals.length = 138 := (advances.published published).complete
      rcases advances.bits with none | one
      · rw [none] at complete
        cases complete
      · rw [one, List.length_append, List.length_singleton] at complete
        omega

/-- Too few calls find no packet. -/
theorem Sound.analyze_few {state : State} (sound : Sound state) {calls : List (Bool × ℕ)}
    (few : calls.length < callsLeft state) :
    ∃ later, liquidAnalysis.analyze state calls = some (later, false) := by
  induction calls generalizing state with
  | nil => exact ⟨state, rfl⟩
  | cons input rest ih =>
    have short : state.basebitVals.length < 2 * symbolsPerMsg := by
      by_cases empty : state.basebitVals = []
      · rw [empty]
        decide
      · unfold callsLeft at few
        rw [if_neg empty] at few
        unfold symbolsPerMsg
        omega
    rw [List.length_cons] at few
    rcases Liquid.collects.room state input sound short with ⟨later, found, called, _⟩
    have step := sound.callsLeft_step called
    cases found with
    | true =>
      have last := step.2 rfl
      omega
    | false =>
      have kept := Liquid.collects.step state input later false sound called
      rw [liquidAnalysis.analyze_goesOn called]
      exact ih kept (by omega)

/-- A complete packet is published. -/
theorem publish_withBits (state : State) {basebitVals : List Bool} (begun : Begun basebitVals)
    (complete : basebitVals.length = 2 * symbolsPerMsg) :
    publish (state.withBits basebitVals) = ({ state.withBits basebitVals with
      symbols := decodedSymbols basebitVals, validPkt := true }, true) := by
  rcases (begun_iff_isPacket complete).mp begun with ⟨symbols, packet⟩
  have decoded := packet.decoded complete
  have one (index : ℕ) (set : symbols[index]? = some true) :
      (decodedSymbols basebitVals)[index]? = some '1' := by
    rw [decoded, List.getElem?_map, set]
    rfl
  rcases packet with ⟨_, first, second, last, _⟩
  exact if_pos ⟨one 0 first, one 1 second, one 68 last⟩

/-- The half-bits of a packet, once the first two are there: the packet is published at its last
half-bit, or the decoder starts over. -/
theorem analyze_packet {state : State} (high : state.highFreqSet = true)
    (low : state.lowFreqSet = true) {basebitVals : List Bool} (begun : Begun basebitVals)
    (long : 2 ≤ basebitVals.length) {calls : List (Bool × ℕ)} (some : calls ≠ [])
    (complete : basebitVals.length + calls.length = 2 * symbolsPerMsg) :
    ∃ later found, liquidAnalysis.analyze (state.withBits basebitVals) calls =
        Option.some (later, found) ∧
      (found = true ↔ Begun (basebitVals ++ calls.map Prod.fst)) ∧
      (found = true → later.validPkt = true ∧
        later.symbols = decodedSymbols (basebitVals ++ calls.map Prod.fst)) := by
  induction calls generalizing basebitVals with
  | nil => exact absurd rfl some
  | cons input rest ih =>
    rw [List.length_cons] at complete
    have short : basebitVals.length < 2 * symbolsPerMsg := by omega
    have call := @updateState_packet (state.withBits basebitVals) input.2 input.1 high low rfl long
    have bits : (state.withBits basebitVals).basebitVals = basebitVals := rfl
    rw [bits, saveBit_of_short short, Option.map_some] at call
    have whole : basebitVals ++ (input :: rest).map Prod.fst =
        basebitVals ++ [input.1] ++ rest.map Prod.fst := by
      rw [List.map_cons, List.append_assoc, List.singleton_append]
    rw [whole]
    by_cases fits : fitsPacket basebitVals input.1 = true
    · have further := (fitsPacket_iff_begun begun long).mp fits
      have longer : (basebitVals ++ [input.1]).length = basebitVals.length + 1 := by
        rw [List.length_append, List.length_singleton]
      rw [if_pos fits] at call
      by_cases last : rest = []
      · rw [last, List.length_nil] at complete
        rw [if_pos (by omega)] at call
        have published := publish_withBits state further (by omega)
        refine ⟨_, true, liquidAnalysis.analyze_stops (call.trans (congrArg Option.some published)),
          ?_, fun _ => ?_⟩
        · rw [last, List.map_nil, List.append_nil]
          exact iff_of_true rfl further
        · rw [last, List.map_nil, List.append_nil]
          exact ⟨rfl, rfl⟩
      · have more : rest.length ≠ 0 := fun none => last (List.length_eq_zero_iff.mp none)
        rw [if_neg (by omega)] at call
        rw [liquidAnalysis.analyze_goesOn call]
        exact ih further (by omega) last (by omega)
    · rw [if_neg fits] at call
      have refused : ¬ Begun (basebitVals ++ [input.1] ++ rest.map Prod.fst) := fun packet =>
        fits ((fitsPacket_iff_begun begun long).mpr packet.of_append)
      have few : rest.length < callsLeft State.resetVars := by
        have left : callsLeft State.resetVars = 137 := rfl
        unfold symbolsPerMsg at complete
        omega
      rcases sound_resetVars.analyze_few few with ⟨later, analyzed⟩
      rw [liquidAnalysis.analyze_goesOn call]
      refine ⟨later, false, analyzed, iff_of_false (by decide) refused, fun impossible => ?_⟩
      cases impossible

/-! ## The prelude -/

/-- The high period is measured from a sample on; it has not begun if that is `UNK`. -/
structure SeeksHigh (start : ℕ) (state : State) : Prop where
  high : state.highFreqSet = false
  low : state.lowFreqSet = false
  empty : state.basebitVals = []
  highStart : state.preludeHfStart = start
  lowStart : state.preludeLfStart = unk

/-- The high period is long enough, and the low period is measured from a sample on. -/
structure SeeksLow (highStart lowStart : ℕ) (state : State) : Prop where
  high : state.highFreqSet = true
  low : state.lowFreqSet = false
  empty : state.basebitVals = []
  highStart : state.preludeHfStart = highStart
  lowStart : state.preludeLfStart = lowStart

/-- Both periods are long enough. -/
structure SeeksPacket (lowStart : ℕ) (state : State) : Prop where
  high : state.highFreqSet = true
  low : state.lowFreqSet = true
  empty : state.basebitVals = []
  current : state.currState = -3
  lowStart : state.preludeLfStart = lowStart

/-- What calls do to a decoder that is between two packets: they lead to a state of a kind. -/
def LeadsTo (state : State) (calls : List (Bool × ℕ)) (kind : State → Prop) : Prop :=
  ∃ later, kind later ∧
    ∀ rest, liquidAnalysis.analyze state (calls ++ rest) = liquidAnalysis.analyze later rest

theorem leadsTo_nil {state : State} {kind : State → Prop} (reached : kind state) :
    LeadsTo state [] kind := ⟨state, reached, fun _ => rfl⟩

theorem LeadsTo.append {state : State} {first second : List (Bool × ℕ)} {middle kind : State → Prop}
    (leads : LeadsTo state first middle)
    (goesOn : ∀ later, middle later → LeadsTo later second kind) :
    LeadsTo state (first ++ second) kind := by
  rcases leads with ⟨later, reached, analyzed⟩
  rcases goesOn later reached with ⟨final, reached', analyzed'⟩
  refine ⟨final, reached', fun rest => ?_⟩
  rw [List.append_assoc, analyzed, analyzed']

theorem LeadsTo.cons {state later : State} {input : Bool × ℕ} {rest : List (Bool × ℕ)}
    {kind : State → Prop} (called : updateState state input.1 input.2 = some (later, false))
    (leads : LeadsTo later rest kind) : LeadsTo state (input :: rest) kind := by
  rcases leads with ⟨final, reached, analyzed⟩
  refine ⟨final, reached, fun more => ?_⟩
  rw [List.cons_append, liquidAnalysis.analyze_goesOn called, analyzed]

/-- A period of the prelude as `update_state` wants it: the first sample of it that a call was made
at, and the others. -/
structure Period (start : ℕ) (numbers : List ℕ) : Prop where
  set : start ≠ unk
  ordered : numbers.Pairwise (· ≤ ·)
  long : ∃ number ∈ numbers, start + 512 ≤ number
  short : ∀ number ∈ numbers, number ≤ start + 716

theorem inWindow_iff (start sampleNum : ℕ) :
    inWindow start sampleNum = true ↔ start + 512 ≤ sampleNum ∧ sampleNum ≤ start + 716 := by
  rw [inWindow, Bool.and_eq_true, decide_eq_true_eq, decide_eq_true_eq]

/-- A period from a later sample on. -/
theorem Period.later {start number : ℕ} {rest : List ℕ} (period : Period start (number :: rest))
    (early : ¬ inWindow start number = true) : Period start rest := by
  have most := period.short number List.mem_cons_self
  rw [inWindow_iff] at early
  constructor
  case set => exact period.set
  case ordered => exact (List.pairwise_cons.mp period.ordered).2
  case short => exact fun later member => period.short later (List.mem_cons_of_mem number member)
  case long =>
    rcases period.long with ⟨later, member, least⟩
    rcases List.mem_cons.mp member with rfl | member
    · omega
    · exact ⟨later, member, least⟩

theorem startedAt_of_set {start : ℕ} (set : start ≠ unk) (sampleNum : ℕ) :
    startedAt start sampleNum = start := if_neg set

/-- More high bits in the window of the high period. -/
theorem SeeksLow.high_kept {highStart : ℕ} {state : State} (seeks : SeeksLow highStart unk state)
    {numbers : List ℕ} (inside : ∀ number ∈ numbers, inWindow highStart number = true) :
    LeadsTo state (numbers.map (true, ·)) (SeeksLow highStart unk) := by
  induction numbers generalizing state with
  | nil => exact leadsTo_nil seeks
  | cons number rest ih =>
    have call := @updateState_high_second state number seeks.high seeks.low
    rw [seeks.highStart, if_pos (inside number List.mem_cons_self)] at call
    apply LeadsTo.cons call
    apply ih
    · exact ⟨seeks.high, seeks.low, seeks.empty, rfl, seeks.lowStart⟩
    · exact fun later member => inside later (List.mem_cons_of_mem number member)

/-- The high bits of a period after the first one. -/
theorem SeeksHigh.measured {start : ℕ} {state : State} (seeks : SeeksHigh start state)
    {numbers : List ℕ} (period : Period start numbers) :
    LeadsTo state (numbers.map (true, ·)) (SeeksLow start unk) := by
  induction numbers generalizing state with
  | nil =>
    rcases period.long with ⟨_, member, _⟩
    cases member
  | cons number rest ih =>
    have call := @updateState_high_first state number seeks.high seeks.low seeks.empty
    rw [seeks.highStart, startedAt_of_set period.set] at call
    have ordered := List.pairwise_cons.mp period.ordered
    by_cases reached : inWindow start number = true
    · rw [reached] at call
      apply LeadsTo.cons call
      apply SeeksLow.high_kept
      · exact ⟨rfl, seeks.low, seeks.empty, rfl, seeks.lowStart⟩
      · intro later member
        have least := ordered.1 later member
        have most := period.short later (List.mem_cons_of_mem number member)
        rw [inWindow_iff] at reached ⊢
        omega
    · rw [Bool.eq_false_of_not_eq_true reached] at call
      apply LeadsTo.cons call
      apply ih
      · exact ⟨rfl, seeks.low, seeks.empty, rfl, seeks.lowStart⟩
      · exact period.later reached

/-- More low bits behind the low period. -/
theorem SeeksPacket.low_kept {start : ℕ} {state : State} (seeks : SeeksPacket start state)
    (numbers : List ℕ) : LeadsTo state (numbers.map (false, ·)) (SeeksPacket start) := by
  induction numbers with
  | nil => exact leadsTo_nil seeks
  | cons number rest ih =>
    exact LeadsTo.cons (updateState_low_third seeks.high seeks.low seeks.current) ih

/-- The low bits of a period after the first one. -/
theorem SeeksLow.measured {highStart start : ℕ} {state : State}
    (seeks : SeeksLow highStart start state)
    {numbers : List ℕ} (period : Period start numbers) :
    LeadsTo state (numbers.map (false, ·)) (SeeksPacket start) := by
  induction numbers generalizing state with
  | nil =>
    rcases period.long with ⟨_, member, _⟩
    cases member
  | cons number rest ih =>
    have call := @updateState_low_second state number seeks.high seeks.low seeks.empty
    rw [seeks.lowStart, startedAt_of_set period.set] at call
    by_cases reached : inWindow start number = true
    · rw [reached] at call
      apply LeadsTo.cons call
      apply SeeksPacket.low_kept
      exact ⟨seeks.high, rfl, seeks.empty, rfl, rfl⟩
    · rw [Bool.eq_false_of_not_eq_true reached] at call
      apply LeadsTo.cons call
      apply ih
      · exact ⟨seeks.high, rfl, seeks.empty, seeks.highStart, rfl⟩
      · exact period.later reached

/-! ## Transmissions -/

/-- The calls that `update_state` is given for a transmission: the two periods of the prelude, the
high half-bit that follows them, and the other half-bits. -/
structure Transmission where
  highStart : ℕ
  high : List ℕ
  lowStart : ℕ
  low : List ℕ
  packetStart : ℕ
  packet : List (Bool × ℕ)
  highPeriod : Period highStart high
  lowPeriod : Period lowStart low
  inTime : inWindow lowStart packetStart = true
  complete : packet.length = 136

namespace Transmission

variable (transmission : Transmission)

/-- The calls. -/
def calls : List (Bool × ℕ) :=
  ((true, transmission.highStart) :: transmission.high.map (true, ·)) ++
    (((false, transmission.lowStart) :: transmission.low.map (false, ·)) ++
      ((true, transmission.packetStart) :: transmission.packet))

/-- The half-bits. The first one, which is low, is part of the low period. -/
def bits : List Bool := false :: true :: transmission.packet.map Prod.fst

theorem length_bits : transmission.bits.length = 2 * symbolsPerMsg := by
  rw [bits, List.length_cons, List.length_cons, List.length_map, transmission.complete]
  rfl

/-- The prelude leads to the packet. -/
theorem prelude_heard {state : State} (seeks : SeeksHigh unk state) :
    ∃ later, SeeksPacket transmission.lowStart later ∧
      liquidAnalysis.analyze state transmission.calls =
        liquidAnalysis.analyze later ((true, transmission.packetStart) :: transmission.packet) := by
  have first :=
    @updateState_high_first state transmission.highStart seeks.high seeks.low seeks.empty
  have fresh (start : ℕ) : startedAt unk start = start := if_pos rfl
  have early (start : ℕ) : inWindow start start = false := by
    rw [← Bool.not_eq_true, inWindow_iff]
    omega
  rw [seeks.highStart, fresh, early] at first
  have high : LeadsTo state ((true, transmission.highStart) :: transmission.high.map (true, ·))
      (SeeksLow transmission.highStart unk) := by
    apply LeadsTo.cons first
    apply SeeksHigh.measured _ transmission.highPeriod
    exact ⟨rfl, seeks.low, seeks.empty, rfl, seeks.lowStart⟩
  have low (later : State) (reached : SeeksLow transmission.highStart unk later) :
      LeadsTo later ((false, transmission.lowStart) :: transmission.low.map (false, ·))
        (SeeksPacket transmission.lowStart) := by
    have second := @updateState_low_second later transmission.lowStart reached.high reached.low
      reached.empty
    rw [reached.lowStart, fresh, early] at second
    apply LeadsTo.cons second
    apply @SeeksLow.measured transmission.highStart _ _ _ _ transmission.lowPeriod
    exact ⟨reached.high, rfl, reached.empty, reached.highStart, rfl⟩
  rcases high.append low with ⟨later, reached, analyzed⟩
  refine ⟨later, reached, ?_⟩
  rw [calls, ← List.append_assoc]
  exact analyzed _

/-- A transmission is published just when its half-bits are those of a packet. -/
theorem analyze_calls {state : State} (seeks : SeeksHigh unk state) :
    ∃ later found, liquidAnalysis.analyze state transmission.calls = some (later, found) ∧
      (found = true ↔ ∃ symbols, IsPacket transmission.bits symbols) ∧
      ∀ symbols, IsPacket transmission.bits symbols →
        later.validPkt = true ∧ later.symbols = symbols.map digit := by
  rcases transmission.prelude_heard seeks with ⟨ready, reached, analyzed⟩
  have begins := @updateState_high_third ready transmission.packetStart reached.high reached.low
    reached.current reached.empty
  rw [if_pos (by rw [reached.lowStart]; exact transmission.inTime)] at begins
  have whole := transmission.length_bits
  have more : transmission.packet ≠ [] := by
    intro none
    have complete := transmission.complete
    rw [none] at complete
    cases complete
  have two : Begun [false, true] := begun_preamble ⟨[true], rfl⟩
  rcases analyze_packet reached.high reached.low two (Nat.le_refl 2) more
    (by rw [transmission.complete]; rfl) with ⟨later, found, collected, accepted, symbols⟩
  have first : liquidAnalysis.analyze ready ((true, transmission.packetStart) ::
      transmission.packet) =
        liquidAnalysis.analyze (ready.withBits [false, true]) transmission.packet :=
    liquidAnalysis.analyze_goesOn begins
  refine ⟨later, found, analyzed.trans (first.trans collected), ?_, ?_⟩
  · exact accepted.trans (begun_iff_isPacket whole)
  · intro sent packet
    have begun := (begun_iff_isPacket whole).mpr ⟨sent, packet⟩
    rcases symbols (accepted.mpr begun) with ⟨valid, decoded⟩
    exact ⟨valid, decoded.trans (packet.decoded whole)⟩

end Transmission

/-- After a prelude of the right lengths, whatever half-bits follow, they are published just when
they are those of a packet but for the last symbol, and then as its symbols, which no other packet
has. -/
theorem transmission_published {state : State} (seeks : SeeksHigh unk state)
    (transmission : Transmission) :
    ∃ later found, liquidAnalysis.analyze state transmission.calls = some (later, found) ∧
      (found = true ↔ ∃ symbols, IsPacket transmission.bits symbols) ∧
      (found = true → later.getSuccess = 1 ∧ ∃ symbols, IsPacket transmission.bits symbols ∧
        later.symbols = symbols.map digit ∧
        ∀ other, IsPacket transmission.bits other → other = symbols) := by
  rcases transmission.analyze_calls seeks with ⟨later, found, analyzed, accepted, published⟩
  refine ⟨later, found, analyzed, accepted, fun success => ?_⟩
  rcases accepted.mp success with ⟨symbols, packet⟩
  rcases published symbols packet with ⟨valid, decoded⟩
  refine ⟨if_pos valid, symbols, packet, decoded, ?_⟩
  intro other sent
  exact sent.unique packet transmission.length_bits

/-- The half-bits of a message are those of a packet. -/
theorem Transmission.isPacket {transmission : Transmission} {message : SensorMessage}
    (code : transmission.bits = LineCode.halfBits false message.payload) :
    IsPacket transmission.bits message.payload := by
  have fixed := message.payload_holds.fixed
  exact ⟨message.length_payload, fixed.1, fixed.2.1, fixed.2.2, by rw [code]⟩

/-- A transmission of a message: the getters return the message. -/
theorem message_published {state : State} (seeks : SeeksHigh unk state) (message : SensorMessage)
    (transmission : Transmission)
    (code : transmission.bits = LineCode.halfBits false message.payload) :
    ∃ later, liquidAnalysis.analyze state transmission.calls = some (later, true) ∧
      later.getSuccess = 1 ∧ later.getDecAddressVal = message.address.toNat ∧
      later.getTempC = message.celsius ∧ later.getPressureKpa = message.kilopascals := by
  have packet := Transmission.isPacket code
  rcases transmission.analyze_calls seeks with ⟨later, found, analyzed, accepted, published⟩
  have success : found = true := accepted.mpr ⟨message.payload, packet⟩
  rcases published message.payload packet with ⟨valid, decoded⟩
  have gets := message.getsMessage
  rw [← decoded] at gets
  rw [success] at analyzed
  exact ⟨later, analyzed, if_pos valid, gets.address, gets.temperature, gets.pressure⟩

/-- A message, sent with one call for each half-bit. -/
def clocked (message : SensorMessage) : Transmission where
  highStart := 1000
  high := [1512]
  lowStart := 1552
  low := [2064]
  packetStart := 2104
  packet := ((LineCode.halfBits false message.payload).drop 2).map fun bit => (bit, 2144)
  highPeriod := by
    constructor
    · decide
    · exact List.pairwise_singleton _ _
    · exact ⟨1512, List.mem_cons_self, by decide⟩
    · exact fun number member => by rw [List.mem_singleton.mp member]; decide
  lowPeriod := by
    constructor
    · decide
    · exact List.pairwise_singleton _ _
    · exact ⟨2064, List.mem_cons_self, by decide⟩
    · exact fun number member => by rw [List.mem_singleton.mp member]; decide
  inTime := by decide
  complete := by
    rw [List.length_map, List.length_drop, LineCode.halfBits_length, message.length_payload]

theorem bits_clocked (message : SensorMessage) :
    (clocked message).bits = LineCode.halfBits false message.payload := by
  rw [Transmission.bits, clocked, List.map_map]
  exact congrArg (false :: true :: ·) (List.map_id _)

/-- The process has just started, and the sensor with the address 1 reports 20 degrees. -/
theorem transmission_published_clocked :
    ∃ later symbols, liquidAnalysis.analyze State.initial
        (clocked ⟨1, 0, 128, 60, 0, by decide⟩).calls = some (later, true) ∧
      IsPacket (clocked ⟨1, 0, 128, 60, 0, by decide⟩).bits symbols ∧
      later.symbols = symbols.map digit := by
  have quiet : SeeksHigh unk State.initial := ⟨rfl, rfl, rfl, rfl, rfl⟩
  have packet := Transmission.isPacket (bits_clocked ⟨1, 0, 128, 60, 0, by decide⟩)
  rcases transmission_published quiet (clocked ⟨1, 0, 128, 60, 0, by decide⟩) with
    ⟨later, found, analyzed, accepted, published⟩
  have success : found = true := accepted.mpr ⟨_, packet⟩
  rcases published success with ⟨_, symbols, sent, decoded, _⟩
  rw [success] at analyzed
  exact ⟨later, symbols, analyzed, sent, decoded⟩

/-- It is read so. -/
theorem message_published_clocked :
    ∃ later, liquidAnalysis.analyze State.initial
        (clocked ⟨1, 0, 128, 60, 0, by decide⟩).calls = some (later, true) ∧
      later.getDecAddressVal = 1 ∧ later.getTempC = 20 := by
  have quiet : SeeksHigh unk State.initial := ⟨rfl, rfl, rfl, rfl, rfl⟩
  rcases message_published quiet ⟨1, 0, 128, 60, 0, by decide⟩ _ (bits_clocked _) with
    ⟨later, analyzed, _, address, temperature, _⟩
  exact ⟨later, analyzed, address, temperature⟩

end Liquid

end FcTpms
