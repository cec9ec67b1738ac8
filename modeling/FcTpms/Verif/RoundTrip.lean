import FcTpms.Verif.IdealPacket
import FcTpms.Verif.TonePrelude

/-!
# An ideal packet comes back

A payload is sent as a prelude of two tones and the half-bits of its symbols. The pressure is
followed by its complement, so that among so many symbols one begins with a transition, and the
drift stays in bounds (`Payload.drift_le`). The loop over the symbols returns the payload
(`collectSymbols_tones`), and so do the prelude and the first attempt together
(`ideal_roundTrip`).
-/

namespace FcTpms.Decoder

open Program Program.Prog Text LineCode

variable {tone : ℕ → Bool}

/-! ## Payloads -/

/-- The symbols of a packet as a sensor sends them. -/
structure Payload (payload : List Bool) : Prop where
  length : payload.length = 69
  fixed : payload[0]? = some true ∧ payload[1]? = some true ∧ payload[68]? = some true
  complement : ∀ i < 8, payload[36 + i]? = some true ↔ ¬ payload[44 + i]? = some true
  pressure : 40 ≤ symbolsValue (payload.map digit) 36 43

/-- What is known of the drift at a symbol: it grows by at most one for each symbol, and was small
at each symbol that begins with a transition. -/
structure DriftBound (payload : List Bool) (index drift : ℕ) : Prop where
  steps : drift + 1 ≤ index
  since : ∀ z, 2 ≤ z → z ≤ index → payload[z]? = some false → drift + z ≤ 14 + index

/-- Symbols that are not `1` make up the value zero. -/
theorem symbolsValue_zero {payload : List Bool} {first last : ℕ}
    (zero : ∀ j, first ≤ j → j ≤ last → payload[j]? ≠ some true) :
    symbolsValue (payload.map digit) first last = 0 := by
  have fold (positions : List ℕ) (none : ∀ j ∈ positions, payload[j]? ≠ some true) :
      positions.foldl (fun value j => value * 2 + if payload[j]? = some true then 1 else 0) 0 =
        0 := by
    induction positions with
    | nil => rfl
    | cons j rest ih =>
      rw [List.foldl_cons, if_neg (none j List.mem_cons_self)]
      exact ih fun j member => none j (List.mem_cons_of_mem _ member)
  rw [symbolsValue_digits]
  apply fold
  intro j member
  rw [List.mem_range'_1] at member
  exact zero j (by omega) (by omega)

/-- The pressure and its complement keep the drift small. -/
theorem Payload.drift_le {payload : List Bool} {index drift : ℕ} (holds : Payload payload)
    (bound : DriftBound payload index drift) (last : index ≤ 68) : drift ≤ 42 := by
  have length := holds.length
  have symbol (j : ℕ) (inside : j < 69) (zero : payload[j]? ≠ some true) :
      payload[j]? = some false := by
    rw [List.getElem?_eq_getElem (by omega)] at zero ⊢
    have low : payload[j] ≠ true := fun one => zero (congrArg some one)
    rw [Bool.eq_false_iff.mpr low]
  by_cases early : index ≤ 43
  · have steps := bound.steps
    omega
  · by_cases middle : index ≤ 51
    · by_cases one : payload[44]? = some true
      · have other := symbol 36 (by omega) fun also => (holds.complement 0 (by omega)).mp also one
        have since := bound.since 36 (by omega) (by omega) other
        omega
      · have since := bound.since 44 (by omega) (by omega) (symbol 44 (by omega) one)
        omega
    · have some : ∃ i < 8, payload[36 + i]? = some true := by
        by_contra none
        push Not at none
        have zero : symbolsValue (payload.map digit) 36 43 = 0 := by
          apply symbolsValue_zero
          intro j lower upper
          have here := none (j - 36) (by omega)
          rwa [Nat.add_sub_cancel' lower] at here
        have pressure := holds.pressure
        omega
      rcases some with ⟨i, inside, one⟩
      have other := symbol (44 + i) (by omega) ((holds.complement i inside).mp one)
      have since := bound.since (44 + i) (by omega) (by omega) other
      omega

/-- The loop of `validate_packet` reads a pressure that is followed by its complement. -/
theorem pressureFrom_of_complement {decoded : List Bool} {value count : ℕ} (within : count ≤ 8)
    (complement : ∀ i, 8 - count ≤ i → i < 8 →
      (decoded[36 + i]? = some true ↔ ¬ decoded[44 + i]? = some true)) :
    pressureFrom (decoded.map bitOf) value count =
      some (((List.range' (44 - count) count).foldl
        (fun value j => value * 2 + if decoded[j]? = some true then 1 else 0) value : ℕ) : ℚ) := by
  induction count generalizing value with
  | zero => rfl
  | succ count ih =>
    have here : 7 - count + 36 = 44 - (count + 1) := by omega
    have following : 44 - (count + 1) + 1 = 44 - count := by omega
    have differ : ¬ symbolAt (decoded.map bitOf) (36 + (7 - count)) =
        symbolAt (decoded.map bitOf) (44 + (7 - count)) := by
      have other := complement (7 - count) (by omega) (by omega)
      rw [symbolAt_bits, symbolAt_bits]
      by_cases one : decoded[36 + (7 - count)]? = some true
      · rw [if_pos one, if_neg (other.mp one)]
        decide
      · rw [if_neg one, if_pos (not_not.mp fun zero => one (other.mpr zero))]
        decide
    have carried : (value : ℚ) * 2 + (symbolAt (decoded.map bitOf) (7 - count + 36) : ℤ) =
        (value * 2 + if decoded[44 - (count + 1)]? = some true then 1 else 0 : ℕ) := by
      rw [symbolAt_bits, here]
      push_cast
      rfl
    rw [pressureFrom, if_neg differ, carried, ih (by omega) fun i least most =>
      complement i (by omega) most, List.range'_succ, List.foldl_cons, following]

/-- `validate_packet` accepts what a sensor sends. -/
theorem Payload.validates {payload : List Bool} (holds : Payload payload) :
    validatePacket (payload.map bitOf) = true := by
  have last : ¬ symbolAt (payload.map bitOf) 68 ≠ 1 := by
    rw [symbolAt_bits, if_pos holds.fixed.2.2]
    decide
  have read := @pressureFrom_of_complement payload 0 8 (le_refl 8)
    fun i _ most => holds.complement i most
  have pressure := holds.pressure
  rw [symbolsValue_digits] at pressure
  rw [Nat.cast_zero] at read
  rw [validatePacket, if_neg last, read]
  rw [Bool.not_eq_true', decide_eq_false_iff_not, not_lt]
  have enough : (40 : ℚ) ≤ ((List.range' (44 - 8) 8).foldl
      (fun value j => value * 2 + if payload[j]? = some true then 1 else 0) 0 : ℕ) := by
    exact_mod_cast pressure
  linarith

/-- The bound goes on to the next symbol. -/
theorem DriftBound.next {payload : List Bool} {halfLength index drift : ℕ} {symbol : Bool}
    (bound : DriftBound payload index drift) (shortest : 153 ≤ halfLength)
    (longest : halfLength ≤ 255) (small : drift ≤ 42)
    (found : payload[index + 1]? = some symbol) :
    DriftBound payload (index + 1) (nextDrift halfLength drift symbol) := by
  have steps := bound.steps
  cases symbol with
  | true =>
    have drifts : nextDrift halfLength drift true = drift + 1 := rfl
    rw [drifts]
    constructor
    · omega
    · intro z least inside zero
      by_cases last : z = index + 1
      · rw [last, found] at zero
        cases zero
      · have since := bound.since z least (by omega) zero
        omega
  | false =>
    have back := nextDrift_false shortest longest small
    constructor
    · omega
    · intro z least inside zero
      omega

/-! ## Packets -/

/-- The samples behind `origin` carry half-bits of so many samples each, from half-bit 1 on. -/
def Keyed (tone : ℕ → Bool) (halves : List Bool) (halfLength origin : ℕ) : Prop :=
  ∀ k value, 1 ≤ k → halves[k]? = some value →
    Steady tone value (origin + k * halfLength) (origin + (k + 1) * halfLength)

/-- The samples of a symbol that comes after some others. -/
theorem Keyed.symbol {decoded rest : List Bool} {symbol : Bool} {halfLength origin : ℕ}
    (keyed : Keyed tone (LineCode.halfBits false (decoded ++ symbol :: rest)) halfLength origin)
    (some : 1 ≤ decoded.length) :
    Steady tone (firstHalf (lastHalf false decoded) symbol)
        (origin + 2 * decoded.length * halfLength)
        (origin + 2 * decoded.length * halfLength + halfLength) ∧
      Steady tone (!firstHalf (lastHalf false decoded) symbol)
        (origin + 2 * decoded.length * halfLength + halfLength)
        (origin + 2 * decoded.length * halfLength + 2 * halfLength) := by
  have length := halfBits_length false decoded
  have halves :
      LineCode.halfBits false (decoded ++ symbol :: rest) = LineCode.halfBits false decoded ++
      LineCode.halfBits (lastHalf false decoded) (symbol :: rest) :=
    LineCode.halfBits_append _ _ _
  have first := keyed (2 * decoded.length) (firstHalf (lastHalf false decoded) symbol) (by omega)
    (by rw [halves, List.getElem?_append_right (by omega), length, Nat.sub_self]; rfl)
  have second := keyed (2 * decoded.length + 1) (!firstHalf (lastHalf false decoded) symbol)
    (by omega) (by
      rw [halves, List.getElem?_append_right (by omega), length, Nat.add_sub_cancel_left]
      rfl)
  have one : (2 * decoded.length + 1) * halfLength =
      2 * decoded.length * halfLength + halfLength := by ring
  have two : (2 * decoded.length + 1 + 1) * halfLength =
      2 * decoded.length * halfLength + 2 * halfLength := by ring
  rw [one] at first second
  rw [two] at second
  rw [Nat.add_assoc, Nat.add_assoc]
  exact ⟨first, second⟩

section Packets

variable {F : Type} [Arithmetic F] {host : Host F} {capture : Capture F} {freq : Bool → F}
  {payload : List Bool} {halfLength origin : ℕ}

omit [Arithmetic F] in
/-- Where the symbols from the third one on are. -/
theorem recorded_symbol {index : ℕ} (longest : halfLength ≤ 255)
    (full : origin + 139 * halfLength ≤ capture.last)
    (counted : origin + 139 * halfLength < 2 ^ 32) (least : 2 ≤ index) (most : index ≤ 68) :
    Recorded capture halfLength (origin + 3 * halfLength + 1) (origin + 2 * index * halfLength) ∧
      3 * halfLength + halfLength ≤ 2 * index * halfLength ∧
      2 * index * halfLength ≤ 136 * halfLength := by
  have lower : 4 * halfLength ≤ 2 * index * halfLength := Nat.mul_le_mul_right _ (by omega)
  have upper : 2 * index * halfLength ≤ 136 * halfLength := Nat.mul_le_mul_right _ (by omega)
  refine ⟨⟨?_, ?_, ?_, ?_⟩, ?_, upper⟩
  all_goals omega

variable (host) in
/-- The symbols from the third one on are decoded. -/
theorem collectSymbols_tones (holds : Payload payload) (shortest : 153 ≤ halfLength)
    (longest : halfLength ≤ 255)
    (keyed : Keyed tone (LineCode.halfBits false payload) halfLength origin)
    (sounds : Sounds capture freq tone (origin + 3 * halfLength + 1) (origin + 138 * halfLength))
    (full : origin + 139 * halfLength ≤ capture.last)
    (counted : origin + 139 * halfLength < 2 ^ 32) (rest : List Bool) :
    ∀ (symbol : Bool) (decoded : List Bool) (drift : ℕ) (state : State host),
      payload = decoded ++ symbol :: rest → 2 ≤ decoded.length →
      DriftBound payload decoded.length drift →
      OnTrack capture freq halfLength (origin + 3 * halfLength + 1)
        (origin + 2 * decoded.length * halfLength) drift decoded state →
      (collectSymbols (2 * halfLength + 1) (rest.length + 1) (decoded.map bitOf) :
        Decode host _).Attains state fun result later _ =>
          result = some (payload.map bitOf) ∧ later.validPkt = true ∧
            Collected payload later.packet := by
  induction rest with
  | nil =>
    intro symbol decoded drift state whole least bound track
    have length := holds.length
    have lengths := congrArg List.length whole
    simp only [List.length_append, List.length_cons, List.length_nil] at lengths
    have small := holds.drift_le bound (by omega)
    have recorded := recorded_symbol longest full counted least (by omega)
    have ends := track.ends
    have room : decoded.length < symbolsPerMsg := by
      unfold symbolsPerMsg
      omega
    have start : u32 ((state.packet.actualBitEnd : ℤ) + 1) =
        origin + 2 * decoded.length * halfLength + drift := by
      unfold u32
      omega
    rw [whole] at keyed
    have halves := keyed.symbol (by omega)
    simp only [collectSymbols, attains_bind, attains_get, start, List.length_nil]
    apply (getSymbol_last shortest longest small recorded.1 room
      (fun m lower upper => sounds m (by omega) (by omega)) halves.1 halves.2 track
      (by omega)).mono
    rintro result later trace ⟨rfl, valid, collected⟩
    simp only [valid, Bool.not_true, Bool.false_eq_true, if_false, attains_pure]
    rw [whole]
    refine ⟨?_, True.intro, collected⟩
    rw [List.map_append, List.map_singleton]
  | cons next rest ih =>
    intro symbol decoded drift state whole least bound track
    have length := holds.length
    have lengths := congrArg List.length whole
    simp only [List.length_append, List.length_cons] at lengths
    have small := holds.drift_le bound (by omega)
    have recorded := recorded_symbol longest full counted least (by omega)
    have ends := track.ends
    have room : decoded.length < symbolsPerMsg := by
      unfold symbolsPerMsg
      omega
    have start : u32 ((state.packet.actualBitEnd : ℤ) + 1) =
        origin + 2 * decoded.length * halfLength + drift := by
      unfold u32
      omega
    have further : payload = (decoded ++ [symbol]) ++ next :: rest := by
      rw [whole, List.append_assoc, List.singleton_append]
    have halves := (whole ▸ keyed : Keyed tone
      (LineCode.halfBits false (decoded ++ symbol :: next :: rest)) halfLength origin).symbol
        (by omega)
    have after := (further ▸ keyed : Keyed tone
      (LineCode.halfBits false ((decoded ++ [symbol]) ++ next :: rest)) halfLength origin).symbol
        (by simp)
    have place : origin + 2 * (decoded ++ [symbol]).length * halfLength =
        origin + 2 * decoded.length * halfLength + 2 * halfLength := by
      rw [List.length_append, List.length_singleton]
      ring
    have last : lastHalf false (decoded ++ [symbol]) =
        !firstHalf (lastHalf false decoded) symbol := by
      rw [lastHalf_append]
      rfl
    rw [place, last] at after
    have found : payload[decoded.length + 1]? = some next := by
      rw [further, List.getElem?_append_right (by simp)]
      simp
    have before : 2 * decoded.length * halfLength ≤ 134 * halfLength :=
      Nat.mul_le_mul_right _ (by omega)
    have later := ih next (decoded ++ [symbol]) (nextDrift halfLength drift next)
    rw [place] at later
    simp only [collectSymbols, attains_bind, attains_get, start, List.length_cons]
    apply (getSymbol_tones shortest longest small recorded.1 room
      (fun m lower upper => sounds m (by omega) (by omega)) halves.1 halves.2
      (after.1.mono (le_refl _) (by omega)) track (by omega)).mono
    rintro result middle trace ⟨rfl, onward⟩
    have valid := onward.valid
    simp only [valid, Bool.not_true, Bool.false_eq_true, if_false]
    have mapped : decoded.map bitOf ++ [bitOf symbol] = (decoded ++ [symbol]).map bitOf := by
      rw [List.map_append, List.map_singleton]
    rw [mapped]
    apply later middle further (by simp; omega) _ onward
    rw [List.length_append, List.length_singleton]
    exact bound.next shortest longest small found

/-- A packet that is written over does not change how an attempt starts. -/
theorem Starting.packet {start : ℕ} {state : State host}
    (starting : Starting capture freq start state) (packet : Packet F) :
    Starting capture freq start { state with packet := packet } := by
  obtain ⟨tape, place, separates, valid, position, recorded⟩ := starting
  exact ⟨tape, place, separates, valid, position, recorded⟩

omit [Arithmetic F] in
variable (host) in
/-- `strcpy` writes over the packet. -/
theorem strcpy_attains {array other : CharArray} (differ : other ≠ array) (text : String)
    (clean : '\x00' ∉ text.toList) (room : text.toList.length < array.size) (state : State host) :
    (strcpy array text).Attains state fun _ later _ => ∃ packet,
      later = { state with packet := packet } ∧
        stringOf (packet.array array) = text.toList ∧
        stringOf (packet.array other) = stringOf (state.packet.array other) := by
  apply (strcpyFrom_attains array 0 text.toList state (by omega)).mono
  rintro _ later trace ⟨_, rfl⟩
  refine ⟨_, rfl, ?_, ?_⟩
  · rw [Packet.array_writeAll]
    exact stringOf_copy _ _ clean (by rw [Packet.array_length]; exact room)
  · rw [Packet.array_writeAll_of_ne _ differ]

/-- `get_packet_symbols` returns the payload. -/
theorem getPacketSymbols_tones {state : State host} (holds : Payload payload)
    (shortest : 153 ≤ halfLength) (longest : halfLength ≤ 255)
    (keyed : Keyed tone (LineCode.halfBits false payload) halfLength origin)
    (sounds : Sounds capture freq tone (origin + 3 * halfLength + 1) (origin + 138 * halfLength))
    (full : origin + 139 * halfLength ≤ capture.last)
    (counted : origin + 139 * halfLength < 2 ^ 32)
    (starting : Starting capture freq (origin + 3 * halfLength + 1) state) :
    (getPacketSymbols (origin + 3 * halfLength + 1) symbolsPerMsg (2 * halfLength + 1) :
      Decode host _).Attains state fun result later _ =>
        result = some (payload.map bitOf) ∧ later.validPkt = true ∧
          Collected payload later.packet := by
  have length := holds.length
  obtain ⟨third, rest, whole⟩ : ∃ third rest, payload = [true, true] ++ third :: rest := by
    obtain ⟨first, second, _⟩ := holds.fixed
    match payload, length with
    | one :: two :: third :: rest, _ =>
      obtain rfl := Option.some.inj first
      obtain rfl := Option.some.inj second
      exact ⟨third, rest, rfl⟩
  have lengths := congrArg List.length whole
  simp only [List.length_append, List.length_cons, List.length_nil] at lengths
  have recorded : Recorded capture halfLength (origin + 3 * halfLength + 1)
      (origin + 3 * halfLength) := ⟨by omega, by omega, by omega, by omega⟩
  have fixed : [true, true].map bitOf = [1, bitOf true] := rfl
  have sync := keyed 3 false (by decide) (by rw [whole]; rfl)
  have onward := keyed 4 (firstHalf false third) (by decide) (by rw [whole]; rfl)
  have three : origin + (3 + 1) * halfLength = origin + 3 * halfLength + halfLength := by ring
  have four : origin + (4 + 1) * halfLength = origin + 3 * halfLength + 2 * halfLength := by ring
  have same : origin + 4 * halfLength = origin + 3 * halfLength + halfLength := by ring
  have place : origin + 2 * [true, true].length * halfLength =
      origin + 3 * halfLength + halfLength := same
  rw [three] at sync
  rw [four, same] at onward
  have drifts : DriftBound payload [true, true].length (firstDrift third) := by
    have found : payload[2]? = some third := by rw [whole]; rfl
    cases third with
    | true =>
      refine ⟨le_refl _, fun z least most zero => ?_⟩
      obtain rfl : z = 2 := le_antisymm most least
      rw [found] at zero
      cases zero
    | false =>
      refine ⟨by decide, fun z least most _ => ?_⟩
      have two : z ≤ 2 := most
      have none : firstDrift false = 0 := rfl
      rw [none]
      omega
  have later :=
    collectSymbols_tones host holds shortest longest keyed sounds full counted rest third
    [true, true] (firstDrift third)
  rw [place, fixed] at later
  simp only [getPacketSymbols, attains_bind]
  apply (strcpy_attains host (show CharArray.symbols ≠ .bits by decide) "011" (by decide)
    (by decide) state).mono
  rintro _ first early ⟨packet, rfl, bits, symbols⟩
  apply (strcpy_attains host (show CharArray.bits ≠ .symbols by decide) "1" (by decide)
    (by decide) _).mono
  rintro _ second early' ⟨packet', rfl, symbols', bits'⟩
  apply (getSecondSymbol_tones shortest longest recorded
    (fun m lower upper => sounds m lower (by omega)) sync onward
    ((starting.packet packet).packet packet') ⟨bits'.trans bits, symbols'⟩).mono
  rintro symbol middle trace ⟨rfl, track⟩
  have valid := track.valid
  have count : symbolsPerMsg - 2 = rest.length + 1 := by
    unfold symbolsPerMsg
    omega
  simp only [attains_get, valid, Bool.not_true, Bool.false_eq_true, if_false, count, attains_bind]
  apply (later middle whole (le_refl _) drifts track).mono
  rintro result final trace' ⟨rfl, valid', collected⟩
  have validated := holds.validates
  simp only [attains_bind, attains_setValidPkt, attains_get, validated, Bool.not_true,
    Bool.false_eq_true, if_false, attains_pure]
  exact ⟨True.intro, True.intro, collected⟩

/-- The first attempt at a prelude starts the cache at the sample read last. -/
theorem startCache_attains {number : ℕ} {state : State host}
    (listening : Listening capture state.reader number)
    (separates : Separates freq state.prelude.highFreq state.prelude.lowFreq)
    (more : number < capture.last) (counted : number < 2 ^ 32) :
    (startCache : Decode host Unit).Attains state fun _ later _ =>
      ∃ reader, later = { state with reader := reader } ∧ reader.writeToCache = true ∧
        Starting capture freq number { state with reader := reader, validPkt := true } := by
  obtain ⟨idle, placed, rfl, _⟩ := listening
  have file : state.reader.readFromCache = false := idle.file
  have opened := placed.opened
  have upcoming : state.reader.upcoming ≠ [] := by
    rw [placed.rest]
    intro empty
    have short := List.drop_eq_nil_iff.mp empty
    unfold Capture.last at more
    omega
  simp only [startCache, attains_bind, attains_assignReader, attains_get, file, Bool.not_false,
    if_true]
  have storing : Storing capture { state.reader with
      readFromCache := false, writeToCache := true, cacheLoc := 0,
      cacheLocInFile := state.reader.totalSamplesIn } := by
    refine ⟨rfl, rfl, le_refl _, fun j before => absurd before ?_, ?_⟩
    · dsimp only
      omega
    · dsimp only
      omega
  refine ⟨_, rfl, rfl, ⟨⟨⟨placed.opened, placed.rest⟩, Or.inl ⟨storing, Or.inr ⟨rfl, upcoming⟩⟩⟩,
    ⟨le_refl _, le_refl _, show (0 : ℤ) < cacheSize by decide, fun _ => rfl⟩, ?_⟩, rfl, separates,
    rfl, rfl, rfl⟩
  dsimp only [cacheSize]
  omega

/-- The first attempt at a prelude returns the payload. -/
theorem tryToGetPacketSymbols_tones {state : State host} (holds : Payload payload)
    (shortest : 153 ≤ halfLength) (longest : halfLength ≤ 255)
    (keyed : Keyed tone (LineCode.halfBits false payload) halfLength origin)
    (sounds : Sounds capture freq tone (origin + 3 * halfLength + 1) (origin + 138 * halfLength))
    (full : origin + 139 * halfLength ≤ capture.last)
    (counted : origin + 139 * halfLength < 2 ^ 32)
    (listening : Listening capture state.reader (origin + 3 * halfLength + 1))
    (separates : Separates freq state.prelude.highFreq state.prelude.lowFreq) :
    (tryToGetPacketSymbols (u32 (origin + 3 * halfLength + 1 : ℕ)) symbolsPerMsg
      (2 * halfLength + 1) : Decode host _).Attains state fun result later _ =>
        result = some (payload.map bitOf) ∧ later.validPkt = true ∧
          Collected payload later.packet := by
  have start : u32 (origin + 3 * halfLength + 1 : ℕ) = origin + 3 * halfLength + 1 := by
    unfold u32
    omega
  have admitted : ¬ (2 * halfLength + 1 > maxSamplesPerSymbol ∨
      2 * halfLength + 1 < minSamplesPerSymbol) := by
    unfold maxSamplesPerSymbol minSamplesPerSymbol
    omega
  rw [start]
  simp only [tryToGetPacketSymbols, attains_bind, attains_get, attains_emit]
  apply (startCache_attains listening separates (by omega) (by omega)).mono
  rintro _ later early ⟨reader, rfl, _, starting⟩
  simp only [attains_setValidPkt, if_neg admitted]
  rw [attains_bind]
  apply (getPacketSymbols_tones holds shortest longest keyed sounds full counted starting).mono
  rintro result final trace ⟨rfl, valid, collected⟩
  simp only [attains_bind, attains_get, valid, if_true, attains_pure]
  exact ⟨True.intro, True.intro, collected⟩

end Packets

/-! ## Ideal signals -/

/-- The tone of each sample of an ideal signal: a high phase, from sample `lowStart` on a low one,
and from sample `syncStart` on the half-bits of the payload from half-bit 1 on. -/
def idealTone (payload : List Bool) (halfLength lowStart syncStart number : ℕ) : Bool :=
  if number < lowStart then true
  else if number < syncStart then false
  else (LineCode.halfBits false payload).getD ((number - syncStart) / halfLength + 1) false

/-- A signal that carries a payload, as the decoder should read it: the prelude behind the sample
that triggered it, then half-bits of `halfLength` samples. Every phase step is one of two. -/
structure IdealSignal (capture : Capture ℝ) (freq : Bool → ℝ) (payload : List Bool)
    (halfLength trigger lowStart syncStart : ℕ) : Prop where
  /-- The payload is one that a sensor sends. -/
  holds : Payload payload
  /-- The length of a half-bit. -/
  length : 153 ≤ halfLength ∧ halfLength ≤ 255
  /-- The low step is at least a tenth of the high one, -/
  lower : 1 / 10 * freq true ≤ freq false
  /-- and at most 0.85 of it. -/
  upper : freq false ≤ 85 / 100 * freq true
  /-- The two steps can be told apart, so that one sample is the first of low frequency. -/
  differ : freq false ≠ freq true
  /-- The first sample of low frequency. -/
  highPhase : trigger + 1024 ≤ lowStart ∧ lowStart ≤ trigger + 2049
  /-- The first sample of high frequency behind it. -/
  lowPhase : lowStart + 1024 ≤ syncStart ∧ syncStart ≤ lowStart + 2048
  /-- The steps up to the end of the packet. -/
  sounds : Sounds capture freq (idealTone payload halfLength lowStart syncStart) (trigger + 1)
    (syncStart + 137 * halfLength - 1)
  /-- Behind the packet come at least 1024 more samples. -/
  more : syncStart + 137 * halfLength - 1 + 1024 ≤ capture.last

section Ideal

variable {payload : List Bool} {halfLength lowStart syncStart : ℕ}

/-- The half-bits of an ideal signal. -/
theorem keyed_idealTone {origin : ℕ} (order : lowStart ≤ syncStart)
    (place : syncStart = origin + halfLength + 1) :
    Keyed (idealTone payload halfLength lowStart syncStart) (LineCode.halfBits false payload)
      halfLength origin := by
  intro k value least found m above below
  have first : (k - 1) * halfLength + halfLength = k * halfLength := by
    rw [← Nat.succ_mul, Nat.succ_eq_add_one, Nat.sub_add_cancel least]
  have last : (k + 1) * halfLength = k * halfLength + halfLength := Nat.succ_mul k halfLength
  have index : (m - syncStart) / halfLength = k - 1 := by
    apply Nat.div_eq_of_lt_le
    · omega
    · rw [Nat.sub_add_cancel least]
      omega
  rw [idealTone, if_neg (by omega), if_neg (by omega), index, Nat.sub_add_cancel least,
    List.getD_eq_getElem?_getD, found]
  rfl

/-- The prelude of an ideal signal. -/
theorem prelude_idealTone {trigger : ℕ} (holds : Payload payload)
    (length : 153 ≤ halfLength ∧ halfLength ≤ 255)
    (low : trigger + 1024 ≤ lowStart ∧ lowStart ≤ trigger + 2049)
    (sync : lowStart + 1024 ≤ syncStart ∧ syncStart ≤ lowStart + 2048) :
    TonePrelude (idealTone payload halfLength lowStart syncStart) trigger lowStart syncStart
      (syncStart + 2 * halfLength) := by
  obtain ⟨origin, place⟩ : ∃ origin, syncStart = origin + halfLength + 1 :=
    ⟨syncStart - halfLength - 1, by omega⟩
  have keyed : Keyed (idealTone payload halfLength lowStart syncStart)
      (LineCode.halfBits false payload) halfLength origin := keyed_idealTone (by omega) place
  obtain ⟨third, rest, rfl⟩ : ∃ third rest, payload = [true, true] ++ third :: rest := by
    obtain ⟨first, second, _⟩ := holds.fixed
    have length := holds.length
    match payload, length with
    | one :: two :: third :: rest, _ =>
      obtain rfl := Option.some.inj first
      obtain rfl := Option.some.inj second
      exact ⟨third, rest, rfl⟩
  have one := keyed 1 true (le_refl _) rfl
  have two := keyed 2 true (by decide) rfl
  have three := keyed 3 false (by decide) rfl
  constructor
  · intro m above below
    rw [idealTone, if_pos (by omega)]
  · intro m above below
    rw [idealTone, if_neg (by omega), if_pos (by omega)]
  · have sync : Steady _ true (syncStart - 1) (syncStart + 2 * halfLength - 1) :=
      one.append two (by omega) (by omega)
    exact sync
  · exact three _ (by omega) (by omega)
  · exact low
  · exact sync
  · omega

variable {host : Host ℝ}

/-- The low tone and the high one of an ideal signal. -/
theorem IdealSignal.apart {capture : Capture ℝ} {freq : Bool → ℝ} {trigger : ℕ}
    (signal : IdealSignal capture freq payload halfLength trigger lowStart syncStart) :
    Apart freq := by
  have lower := signal.lower
  have upper := signal.upper
  have nonnegative : 0 ≤ freq true := by linarith
  have positive : 0 < freq true := by
    apply lt_of_le_of_ne nonnegative
    intro zero
    rw [← zero] at lower upper
    exact signal.differ (by linarith)
  exact ⟨positive, by linarith, by linarith⟩

/-- Where `find_prelude_start` stops before the end of the file, it has read the trigger sample
last, and nothing is stored. -/
theorem findPreludeStart_listens (state : State host) (idle : state.reader.Idle) :
    (findPreludeStart : Decode host ℕ).Ensures state fun trigger later _ =>
      later.reader.file.eof = false →
        trigger = later.reader.totalSamplesIn ∧
          Listening later.reader.capture later.reader later.reader.totalSamplesIn := by
  unfold findPreludeStart
  refine Ensures.loop (fun (_ : Unit) (state : State host) _ => state.reader.Idle) ?_ idle
  · intro _ state before idle
    rw [ensures_bind]
    refine Ensures.mono (getNextSample_attains state).ensures ?_
    rintro sample later early ⟨rfl, rfl, _⟩
    rw [idle.next, idle.afterNext]
    have onward := idle.idleNext
    cases holds : state.reader.upcoming with
    | nil =>
      have ended : state.reader.idleNext = state.reader.ended := by
        rw [Reader.idleNext, if_pos holds]
      simp only [List.head?_nil, ensures_pure, ended]
      intro more
      cases more
    | cons sample rest =>
      simp only [List.head?_cons, ensures_bind, ensures_get]
      split
      · rename_i eof
        rw [ensures_pure]
        exact fun more => absurd eof (by rw [more]; decide)
      · split
        · rw [ensures_pure]
          exact fun more => ⟨rfl, onward, placed_capture _, rfl, more⟩
        · rw [ensures_pure]
          exact onward

/-- A packet that is sent as an ideal signal comes back: where `find_prelude_start` found its
trigger sample, `is_valid_prelude` accepts the prelude and measures the symbols, and the first
attempt returns the payload, while sample numbers do not wrap. -/
theorem ideal_roundTrip (start : State host) :
    (findPreludeStart : Decode host ℕ).Ensures
      { start with reader :=
        { start.reader with readFromCache := false, writeToCache := false } }
      fun trigger state _ => state.reader.file.eof = false →
        ∀ freq payload halfLength lowStart syncStart,
          IdealSignal state.reader.capture freq payload halfLength trigger lowStart syncStart →
          syncStart + 138 * halfLength ≤ 2 ^ 32 →
          (isValidPrelude : Decode host Bool).Attains state fun valid later _ =>
            valid = true ∧ later.prelude.samplesPerSym = 2 * halfLength + 1 ∧
              (tryToGetPacketSymbols later.prelude.syncBitsEnd symbolsPerMsg
                later.prelude.samplesPerSym : Decode host _).Attains later fun result _ _ =>
                  result = some (payload.map bitOf) := by
  refine Ensures.mono (findPreludeStart_listens _ ?_) ?_
  · exact ⟨rfl, rfl⟩
  intro trigger state trace listens more freq payload halfLength lowStart syncStart signal counted
  obtain ⟨rfl, listening⟩ := listens more
  obtain ⟨shortest, longest⟩ := signal.length
  obtain ⟨lowEarliest, _⟩ := signal.highPhase
  obtain ⟨syncEarliest, _⟩ := signal.lowPhase
  obtain ⟨origin, rfl⟩ : ∃ origin, syncStart = origin + halfLength + 1 :=
    ⟨syncStart - halfLength - 1, by omega⟩
  have tail := signal.more
  have sounds := signal.sounds
  have packetEnd : origin + halfLength + 1 + 137 * halfLength - 1 = origin + 138 * halfLength := by
    omega
  rw [packetEnd] at sounds tail
  have keyed : Keyed (idealTone payload halfLength lowStart (origin + halfLength + 1))
      (LineCode.halfBits false payload) halfLength origin := keyed_idealTone (by omega) rfl
  have form := prelude_idealTone signal.holds signal.length signal.highPhase signal.lowPhase
  have syncEnd : origin + halfLength + 1 + 2 * halfLength = origin + 3 * halfLength + 1 := by ring
  rw [syncEnd] at form
  apply (isValidPrelude_tones signal.apart form listening
    fun m lower upper => sounds m lower (by omega)).mono
  rintro valid later trace ⟨rfl, recognized⟩
  have symbol : later.prelude.samplesPerSym = 2 * halfLength + 1 := by
    rw [recognized.samplesPerSym]
    omega
  refine ⟨rfl, symbol, ?_⟩
  rw [symbol, recognized.syncBitsEnd]
  apply (tryToGetPacketSymbols_tones signal.holds shortest longest keyed
    (fun m lower upper => sounds m (by omega) upper) (by omega) (by omega)
    recognized.heard recognized.separates).mono
  rintro result final trace ⟨rfl, _⟩
  rfl

end Ideal

end FcTpms.Decoder
