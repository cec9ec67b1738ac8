import FcTpms.Verif.Acceptance
import FcTpms.Verif.Tones

/-!
# Decoding an ideal packet

The windows of the decoder do not start exactly at half-bits. The invariant of an attempt at a
signal of two tones is how far the window of the next symbol starts behind the symbol
(`OnTrack.drift`). A symbol that begins with a transition realigns the decoder, up to the quarter
of the window in which transitions are looked for; one that does not lets it drift by one sample.
Over a packet the drift stays small enough for the majority of each window to be of the right tone.
-/

namespace FcTpms.Decoder

open Program Program.Prog Text LineCode

variable {F : Type} [Arithmetic F] {host : Host F} {capture : Capture F} {freq : Bool → F}
  {tone : ℕ → Bool}

/-! ## Half-bits of two tones -/

/-- Deciding a half-bit whose window was recorded and sounds like the given tones. -/
theorem getBit_tones (bitStart numSamples : ℕ) (state : State host)
    (tape : OnTape capture state.reader) (fits : Fits capture state.reader bitStart numSamples)
    (separates : Separates freq state.prelude.highFreq state.prelude.lowFreq)
    (least : 2 ≤ numSamples) (full : bitStart + 11 * numSamples / 10 ≤ capture.last)
    (sounds : Sounds capture freq tone (bitStart + 1) (bitStart + 11 * numSamples / 10)) :
    (getBit bitStart (u32 ((bitStart : ℤ) + numSamples - 1)) : Decode host ℤ).Attains state
      fun value later _ =>
        value = bitValue (surplus tone (bitStart + 1) (3 * numSamples / 5 - 1)) ∧
          Decided capture state later bitStart numSamples
            (transition tone bitStart (11 * numSamples / 10)) := by
  have opened : capture.base ≤ bitStart := tape.opened.trans fits.ahead
  refine (getBit_tape bitStart numSamples state tape fits).mono ?_
  rintro value later trace ⟨allocation, rfl, decided, _⟩
  have sum := sum_windowSamples separates host allocation opened
    (show 3 * numSamples / 5 - 1 + 1 ≤ 11 * numSamples / 10 by omega) (by omega)
    fun number lower upper => sounds number lower (by omega)
  have whole : 3 * numSamples / 5 - 1 + 1 = 3 * numSamples / 5 := by omega
  have found := scan_windowSamples separates host allocation opened least full sounds
  rw [whole] at sum
  rw [found] at decided
  rw [threeFifths_natCast, sum]
  exact ⟨rfl, decided⟩

/-- The sum of a window decides for the tone of its majority. -/
theorem bitValue_surplus {value : Bool} {number count : ℕ}
    (majority : 0 < surplus tone number count ↔ value = true) :
    bitValue (surplus tone number count) = bitOf value := by
  unfold bitValue bitOf
  cases value
  · rw [if_neg (fun positive => Bool.false_ne_true (majority.mp positive)),
      if_neg Bool.false_ne_true]
  · rw [if_pos (majority.mpr rfl), if_pos rfl]

omit [Arithmetic F] in
/-- Where a half-bit ends while sample numbers do not wrap. -/
theorem bitEndAt_eq {bitStart numSamples : ℕ} (some : 0 < numSamples)
    (counted : bitStart + numSamples < 2 ^ 32) :
    bitEndAt bitStart (u32 ((bitStart : ℤ) + numSamples - 1)) (-1) = bitStart + numSamples - 1 := by
  rw [bitEndAt, if_pos rfl]
  unfold u32
  omega

omit [Arithmetic F] in
/-- Where a half-bit with a transition ends while sample numbers do not wrap. -/
theorem bitEndAt_transition {bitStart bitEnd edge : ℕ} (some : 0 < edge)
    (counted : bitStart + edge < 2 ^ 32) : bitEndAt bitStart bitEnd edge = bitStart + edge - 1 := by
  rw [bitEndAt, if_neg (by omega)]
  unfold u32
  omega

/-- After a half-bit whose window is the last one recorded the head is at most at its end. -/
theorem Decided.position_le {state later : State host} {bitStart numSamples : ℕ}
    {transitionPoint : ℤ}
    (decided : Decided capture state later bitStart numSamples transitionPoint)
    (full : bitStart + 11 * numSamples / 10 ≤ capture.last)
    (front : state.reader.recorded ≤
      bitStart + 11 * numSamples / 10 - state.reader.cacheLocInFile)
    (ends : state.reader.cacheLocInFile ≤ later.packet.actualBitEnd) :
    later.reader.position ≤ later.packet.actualBitEnd ∧
      later.reader.recorded = bitStart + 11 * numSamples / 10 - state.reader.cacheLocInFile := by
  have here := position_eq decided.tape.active
  have count := decided.count
  have loc := decided.loc
  have place := decided.place
  have recorded : later.reader.recorded = later.reader.cacheCount :=
    if_pos decided.replaying.cache
  have limit : (capture.windowEnd bitStart numSamples : ℤ) = bitStart + 11 * numSamples / 10 := by
    rw [Capture.windowEnd, withMargin_natCast, Int.toNat_natCast]
    omega
  rw [limit] at count
  have behind : rewound later.reader.cacheCount bitStart numSamples later.packet.actualBitEnd ≤
      later.packet.actualBitEnd - state.reader.cacheLocInFile :=
    tdiv_le_of_nonneg (by omega) (by omega)
  constructor
  · omega
  · omega

omit [Arithmetic F] in
/-- Where a whole window was recorded. -/
theorem fits_full {reader : Reader host} {bitStart numSamples : ℕ} (some : 2 ≤ numSamples)
    (few : numSamples ≤ 2 ^ 16) (ahead : reader.position ≤ bitStart)
    (behind : reader.cacheLocInFile ≤ bitStart)
    (full : bitStart + 11 * numSamples / 10 ≤ capture.last)
    (room : bitStart + 11 * numSamples / 10 < reader.cacheLocInFile + 65535)
    (counted : bitStart + 11 * numSamples / 10 < 2 ^ 32) :
    Fits capture reader bitStart numSamples := by
  have margin := withMargin_natCast numSamples
  have quarters := threeQuarters_natCast (11 * numSamples / 10)
  have ends : capture.windowEnd bitStart numSamples = bitStart + 11 * numSamples / 10 := by
    rw [Capture.windowEnd, margin, Int.toNat_natCast]
    omega
  constructor
  · omega
  · exact few
  · exact ahead
  · omega
  · rw [ends, margin, quarters]
    omega
  · rw [ends]
    unfold cacheSize
    omega
  · rw [margin]
    omega

/-- A half-bit whose tone changes inside the window. -/
theorem getBit_edge (edge : ℕ) {bitStart numSamples : ℕ} {value : Bool} {state : State host}
    (tape : OnTape capture state.reader) (fits : Fits capture state.reader bitStart numSamples)
    (separates : Separates freq state.prelude.highFreq state.prelude.lowFreq)
    (full : bitStart + 11 * numSamples / 10 ≤ capture.last)
    (sounds : Sounds capture freq tone (bitStart + 1) (bitStart + 11 * numSamples / 10))
    (least : 4 ≤ numSamples) (inside : edge < 11 * numSamples / 10)
    (most : 3 * (11 * numSamples / 10) / 4 + 1 < 2 * edge)
    (steady : Steady tone value (bitStart + 1) (bitStart + edge))
    (changed : Steady tone (!value) (bitStart + edge)
      (bitStart + max edge (3 * (11 * numSamples / 10) / 4) + 1)) :
    (getBit bitStart (u32 ((bitStart : ℤ) + numSamples - 1)) : Decode host ℤ).Attains state
      fun result later _ => result = bitOf value ∧
        Decided capture state later bitStart numSamples
          (max edge (3 * (11 * numSamples / 10) / 4) : ℕ) := by
  have decides := surplus_majority (steady.mono (le_refl _)
    (show bitStart + 1 + (edge - 1) ≤ bitStart + edge by omega))
    (show 3 * numSamples / 5 - 1 < 2 * (edge - 1) by omega) (by omega)
  have found := transition_edge (by omega) steady changed most inside
  apply (getBit_tones bitStart numSamples state tape fits separates (by omega) full sounds).mono
  rintro result later trace ⟨rfl, decided⟩
  rw [found] at decided
  exact ⟨bitValue_surplus decides, decided⟩

/-- A half-bit whose tone goes on to the end of the window. -/
theorem getBit_steady {bitStart numSamples : ℕ} {value : Bool} {state : State host}
    (tape : OnTape capture state.reader) (fits : Fits capture state.reader bitStart numSamples)
    (separates : Separates freq state.prelude.highFreq state.prelude.lowFreq)
    (full : bitStart + 11 * numSamples / 10 ≤ capture.last)
    (sounds : Sounds capture freq tone (bitStart + 1) (bitStart + 11 * numSamples / 10))
    (least : 4 ≤ numSamples)
    (steady : Steady tone value (bitStart + 1) (bitStart + 11 * numSamples / 10)) :
    (getBit bitStart (u32 ((bitStart : ℤ) + numSamples - 1)) : Decode host ℤ).Attains state
      fun result later _ => result = bitOf value ∧
        Decided capture state later bitStart numSamples (-1) := by
  have decides := surplus_majority (steady.mono (le_refl _)
    (show bitStart + 1 + (3 * numSamples / 5 - 1) ≤ bitStart + 11 * numSamples / 10 by omega))
    (show 3 * numSamples / 5 - 1 < 2 * (3 * numSamples / 5 - 1) by omega) (by omega)
  have found := transition_steady (by omega) steady
  apply (getBit_tones bitStart numSamples state tape fits separates (by omega) full sounds).mono
  rintro result later trace ⟨rfl, decided⟩
  rw [found] at decided
  exact ⟨bitValue_surplus decides, decided⟩

/-! ## Drift -/

/-- How late the end of a first half-bit is found. -/
def delay (halfLength drift : ℕ) : ℕ :=
  max (halfLength - drift) (3 * (11 * halfLength / 10) / 4) - (halfLength - drift)

/-- The number of samples estimated for a second half-bit. -/
def secondSpan (halfLength drift : ℕ) : ℕ := halfLength + drift + 2 - delay halfLength drift

/-- The drift at the next symbol: it grows where the symbol begins without a transition. -/
def nextDrift (halfLength drift : ℕ) (symbol : Bool) : ℕ :=
  if symbol then drift + 1
  else max (halfLength + 1 - delay halfLength drift)
    (3 * (11 * secondSpan halfLength drift / 10) / 4) - (halfLength + 1 - delay halfLength drift)

/-- A transition takes the drift back. -/
theorem nextDrift_false {halfLength drift : ℕ} (shortest : 153 ≤ halfLength)
    (longest : halfLength ≤ 255) (small : drift ≤ 42) :
    nextDrift halfLength drift false ≤ drift ∧ nextDrift halfLength drift false ≤ 14 := by
  unfold nextDrift secondSpan delay
  rw [if_neg Bool.false_ne_true]
  omega

/-! ## Symbols of two tones -/

/-- An attempt at a signal of two tones that has read samples up to `limit`. -/
structure Tracking (capture : Capture F) (freq : Bool → F) (start limit : ℕ) (state : State host) :
    Prop where
  /-- The reader works as a head. -/
  tape : OnTape capture state.reader
  /-- The cache starts behind the sync bits. -/
  place : state.reader.cacheLocInFile = start
  /-- The measured frequencies tell the tones apart. -/
  separates : Separates freq state.prelude.highFreq state.prelude.lowFreq
  /-- The packet is valid so far. -/
  valid : state.validPkt = true
  /-- The head has not passed the end of the last half-bit. -/
  ahead : state.reader.position ≤ state.packet.actualBitEnd
  /-- The cache does not reach beyond the limit. -/
  recorded : state.reader.recorded ≤ limit - start

/-- A limit may be raised. -/
theorem Tracking.mono {start limit higher : ℕ} {state : State host}
    (track : Tracking capture freq start limit state) (above : limit ≤ higher) :
    Tracking capture freq start higher state := by
  have recorded := track.recorded
  exact { track with recorded := by omega }

/-- Deciding a half-bit goes on to the end of its window. -/
theorem Tracking.decided {start limit bitStart numSamples : ℕ} {state later : State host}
    {transitionPoint : ℤ} (track : Tracking capture freq start limit state)
    (decided : Decided capture state later bitStart numSamples transitionPoint)
    (full : bitStart + 11 * numSamples / 10 ≤ capture.last)
    (front : limit ≤ bitStart + 11 * numSamples / 10) (ends : start ≤ later.packet.actualBitEnd) :
    Tracking capture freq start (bitStart + 11 * numSamples / 10) later := by
  have place := track.place
  have recorded := track.recorded
  have head := decided.position_le full (by omega) (by omega)
  constructor
  · exact decided.tape
  · exact decided.place.trans place
  · rw [decided.prelude]
    exact track.separates
  · exact decided.valid.trans track.valid
  · exact head.1
  · rw [head.2, place]
    push_cast
    exact le_refl _

/-- An attempt at a signal of two tones before the symbol whose samples come behind `number`. -/
structure OnTrack (capture : Capture F) (freq : Bool → F) (halfLength start number drift : ℕ)
    (decoded : List Bool) (state : State host) : Prop extends
    Tracking capture freq start (number + drift + 11 * halfLength / 10) state where
  /-- The symbols before are recorded. -/
  collected : Collected decoded state.packet
  /-- The window starts so many samples behind the symbol. -/
  ends : state.packet.actualBitEnd + 1 = number + drift

/-- The samples of a symbol and of the half-bit behind it were recorded and have room. -/
structure Recorded (capture : Capture F) (halfLength start number : ℕ) : Prop where
  behind : start ≤ number + 1
  full : number + 3 * halfLength ≤ capture.last
  room : number + 3 * halfLength < start + 65535
  counted : number + 3 * halfLength < 2 ^ 32

section Symbols

variable {halfLength start number drift : ℕ} {decoded : List Bool} {state : State host}
  {value : Bool} (shortest : 153 ≤ halfLength) (longest : halfLength ≤ 255) (small : drift ≤ 42)
  (recorded : Recorded capture halfLength start number)
  (first : Steady tone value number (number + halfLength))
  (second : Steady tone (!value) (number + halfLength) (number + 2 * halfLength))

include shortest longest small recorded first second

/-- The first half-bit of a symbol. -/
theorem getBit_first (track : OnTrack capture freq halfLength start number drift decoded state)
    (behind : start ≤ number + drift)
    (sounds : Sounds capture freq tone number (number + 2 * halfLength)) :
    (getBit (number + drift) (u32 (((number + drift : ℕ) : ℤ) + halfLength - 1)) :
      Decode host ℤ).Attains state fun result later _ => result = bitOf value ∧
        later.packet.bits = state.packet.bits ∧ later.packet.symbols = state.packet.symbols ∧
        later.packet.precedingBit = state.packet.precedingBit ∧
        Tracking capture freq start (number + drift + 11 * halfLength / 10) later ∧
        later.packet.actualBitEnd + 1 = number + halfLength + delay halfLength drift := by
  have ends := track.ends
  have ahead := track.ahead
  have place := track.place
  obtain ⟨_, full, room, counted⟩ := recorded
  have fits : Fits capture state.reader (number + drift) halfLength :=
    fits_full (by omega) (by omega) (by omega) (by omega) (by omega) (by omega) (by omega)
  have found := getBit_edge (halfLength - drift) track.tape fits
    track.separates (by omega) (fun m lower upper => sounds m (by omega) (by omega)) (by omega)
    (by omega) (by omega) (first.mono (by omega) (by omega)) (second.mono (by omega) (by omega))
  apply found.mono
  rintro result later trace ⟨rfl, decided⟩
  have actual := decided.ends
  rw [bitEndAt_transition (by omega) (by omega)] at actual
  refine ⟨rfl, decided.bits, decided.symbols, decided.preceding, ?_, ?_⟩
  · exact track.toTracking.decided decided (by omega) (le_refl _) (by omega)
  · rw [actual]
    unfold delay
    omega

/-- The second half-bit of a symbol, up to the first half-bit of the next one. -/
theorem getBit_second {next : Bool}
    (track : Tracking capture freq start (number + drift + 11 * halfLength / 10) state)
    (ends : state.packet.actualBitEnd + 1 = number + halfLength + delay halfLength drift)
    (sounds : Sounds capture freq tone number (number + 3 * halfLength))
    (third : Steady tone (firstHalf (!value) next) (number + 2 * halfLength)
      (number + 3 * halfLength)) :
    (getBit state.packet.actualBitEnd (u32 (((number + drift : ℕ) : ℤ) +
        (2 * halfLength + 1 : ℕ) - 1)) : Decode host ℤ).Attains state fun result later _ =>
      result = bitOf !value ∧
        later.packet.bits = state.packet.bits ∧ later.packet.symbols = state.packet.symbols ∧
        later.packet.precedingBit = state.packet.precedingBit ∧
        later.packet.actualBitEnd + 1 = number + 2 * halfLength + nextDrift halfLength drift next ∧
        Tracking capture freq start
          (number + 2 * halfLength + nextDrift halfLength drift next + 11 * halfLength / 10)
          later := by
  obtain ⟨bitStart, bound⟩ : ∃ bitStart, bitStart = state.packet.actualBitEnd := ⟨_, rfl⟩
  obtain ⟨late, holds⟩ : ∃ late, late = delay halfLength drift := ⟨_, rfl⟩
  have ahead := track.ahead
  have place := track.place
  have latest : late ≤ drift ∧ late ≤ 42 := by
    unfold delay at holds
    omega
  have span : ((number + drift : ℕ) : ℤ) + (2 * halfLength + 1 : ℕ) - 1 =
      (bitStart : ℤ) + secondSpan halfLength drift - 1 := by
    unfold secondSpan
    omega
  have length : secondSpan halfLength drift = halfLength + drift + 2 - late := by
    rw [holds, secondSpan]
  obtain ⟨behind, full, room, counted⟩ := recorded
  rw [← bound] at ends ahead ⊢
  rw [← holds] at ends
  rw [span]
  have fits : Fits capture state.reader bitStart (secondSpan halfLength drift) :=
    fits_full (by omega) (by omega) (by omega) (by omega) (by omega) (by omega) (by omega)
  cases next with
  | true =>
    have same : firstHalf (!value) true = !value := by cases value <;> rfl
    rw [same] at third
    have found := getBit_steady track.tape fits track.separates (by omega)
      (fun m lower upper => sounds m (by omega) (by omega)) (by omega)
      (second.append third (by omega) (by omega))
    apply found.mono
    rintro result later trace ⟨rfl, decided⟩
    have actual := decided.ends
    rw [bitEndAt_eq (by omega) (by omega)] at actual
    have drifts : nextDrift halfLength drift true = drift + 1 := rfl
    rw [drifts]
    refine ⟨rfl, decided.bits, decided.symbols, decided.preceding, by omega, ?_⟩
    exact (track.decided decided (by omega) (by omega) (by omega)).mono (by omega)
  | false =>
    have other : firstHalf (!value) false = !!value := by cases value <;> rfl
    rw [other] at third
    have found := getBit_edge (halfLength + 1 - late) track.tape fits track.separates (by omega)
      (fun m lower upper => sounds m (by omega) (by omega)) (by omega) (by omega) (by omega)
      (second.mono (by omega) (by omega)) (third.mono (by omega) (by omega))
    apply found.mono
    rintro result later trace ⟨rfl, decided⟩
    have actual := decided.ends
    rw [bitEndAt_transition (by omega) (by omega)] at actual
    have drifts : nextDrift halfLength drift false = max (halfLength + 1 - late)
        (3 * (11 * secondSpan halfLength drift / 10) / 4) - (halfLength + 1 - late) := by
      rw [nextDrift, if_neg Bool.false_ne_true, ← holds]
    rw [drifts]
    refine ⟨rfl, decided.bits, decided.symbols, decided.preceding, by omega, ?_⟩
    exact (track.decided decided (by omega) (by omega) (by omega)).mono (by omega)

end Symbols

omit [Arithmetic F] in
/-- What is collected is in the arrays and in `preceding_bit`. -/
theorem Collected.of_arrays {decoded : List Bool} {packet later : Packet F}
    (collected : Collected decoded packet) (bits : later.bits = packet.bits)
    (symbols : later.symbols = packet.symbols)
    (preceding : later.precedingBit = packet.precedingBit) :
    Collected decoded later :=
  ⟨by rw [← collected.bits, Packet.array, Packet.array, bits],
    by rw [← collected.symbols, Packet.array, Packet.array, symbols],
    by rw [preceding, collected.preceding]⟩

/-- Half-bits that differ are kept. -/
theorem settleHalfBits_of_differ (value : Bool) (firstConf secondConf : F) :
    settleHalfBits (bitOf value) (bitOf !value) firstConf secondConf =
      some (bitOf value, bitOf !value) := by
  have differ : bitOf value ≠ bitOf !value := by cases value <;> decide
  rw [settleHalfBits, if_neg differ]

/-- Recording a symbol leaves the reader alone. -/
theorem Tracking.record {start limit : ℕ} {state : State host}
    (track : Tracking capture freq start limit state) (firstBit secondBit symbol : ℤ) :
    Tracking capture freq start limit
      { state with packet := state.packet.record firstBit secondBit symbol } := by
  constructor
  · exact track.tape
  · exact track.place
  · exact track.separates
  · exact track.valid
  · rw [Packet.actualBitEnd_record]
    exact track.ahead
  · exact track.recorded

/-- A symbol is decoded, and the attempt stays on track. -/
theorem getSymbol_tones {halfLength start number drift : ℕ} {decoded : List Bool}
    {state : State host} {symbol next : Bool} (shortest : 153 ≤ halfLength)
    (longest : halfLength ≤ 255) (small : drift ≤ 42)
    (recorded : Recorded capture halfLength start number) (room : decoded.length < symbolsPerMsg)
    (sounds : Sounds capture freq tone number (number + 3 * halfLength))
    (first : Steady tone (firstHalf (lastHalf false decoded) symbol) number (number + halfLength))
    (second : Steady tone (!firstHalf (lastHalf false decoded) symbol) (number + halfLength)
      (number + 2 * halfLength))
    (third : Steady tone (firstHalf (!firstHalf (lastHalf false decoded) symbol) next)
      (number + 2 * halfLength) (number + 3 * halfLength))
    (track : OnTrack capture freq halfLength start number drift decoded state)
    (behind : start ≤ number + drift) :
    (getSymbol (number + drift) (2 * halfLength + 1) : Decode host ℤ).Attains state
      fun result later _ => result = bitOf symbol ∧ OnTrack capture freq halfLength start
        (number + 2 * halfLength) (nextDrift halfLength drift next) (decoded ++ [symbol])
        later := by
  have half : (2 * halfLength + 1) / 2 = halfLength := by omega
  obtain ⟨value, holds⟩ : ∃ value, value = firstHalf (lastHalf false decoded) symbol := ⟨_, rfl⟩
  rw [← holds] at first second third
  simp only [getSymbol, half, attains_bind]
  apply (getBit_first shortest longest small recorded first second track behind
    fun m lower upper => sounds m lower (by omega)).mono
  rintro firstBit middle early ⟨rfl, bits, symbols, preceding, tracking, ends⟩
  rw [attains_get]
  apply (getBit_second shortest longest small recorded first second tracking ends sounds
    third).mono
  rintro secondBit later late ⟨rfl, bits', symbols', preceding', ends', tracking'⟩
  have collected := track.collected.of_arrays (bits'.trans bits) (symbols'.trans symbols)
    (preceding'.trans preceding)
  rw [attains_get, settleHalfBits_of_differ]
  apply (recordSymbol_attains later collected room value).mono
  rintro result final trace ⟨_, rfl, rfl⟩
  have read : (lastHalf false decoded == value) = symbol := by
    rw [holds]
    exact beq_firstHalf _ _
  have more := collected.record room value
  rw [read] at more ⊢
  refine ⟨rfl, ⟨tracking'.record _ _ _, more, ?_⟩⟩
  rw [Packet.actualBitEnd_record]
  exact ends'

/-! ## The second symbol -/

/-- An attempt before its first half-bit: the cache starts at the first sample behind the sync
bits, which was read last. -/
structure Starting (capture : Capture F) (freq : Bool → F) (start : ℕ) (state : State host) :
    Prop where
  tape : OnTape capture state.reader
  place : state.reader.cacheLocInFile = start
  separates : Separates freq state.prelude.highFreq state.prelude.lowFreq
  valid : state.validPkt = true
  position : state.reader.position = start
  recorded : state.reader.recorded = 0

/-- The drift at the third symbol. -/
def firstDrift (symbol : Bool) : ℕ := if symbol then 1 else 0

omit [Arithmetic F] in
/-- Recording the second symbol touches the packet only. -/
theorem recordSecondSymbol_attains (state : State host) (preset : Preset state.packet) :
    (recordSecondSymbol 1 0 : Decode host ℤ).Attains state fun result later _ =>
      result = bitOf true ∧ Collected [true, true] later.packet ∧
        later = { state with packet := later.packet } ∧
        later.packet.actualBitEnd = state.packet.actualBitEnd := by
  have fields : (recordSecondSymbol 1 0 : Decode host ℤ).Attains state fun _ later _ =>
      later = { state with packet := later.packet } ∧
        later.packet.actualBitEnd = state.packet.actualBitEnd := by
    simp only [recordSecondSymbol, attains_bind, attains_get, attains_storeChar,
      attains_assignPacket, attains_pure]
    exact ⟨True.intro, rfl⟩
  apply (fields.and_ensures ((recordSecondSymbol_triple host).ensures preset)).mono
  rintro result later trace ⟨⟨same, ends⟩, _, symbol, collected⟩
  exact ⟨symbol, collected, same, ends⟩

/-- Deciding the first half-bit goes on to the end of its window. -/
theorem Starting.decided {start numSamples : ℕ} {state later : State host} {transitionPoint : ℤ}
    (starting : Starting capture freq start state)
    (decided : Decided capture state later start numSamples transitionPoint)
    (full : start + 11 * numSamples / 10 ≤ capture.last)
    (ends : start ≤ later.packet.actualBitEnd) :
    Tracking capture freq start (start + 11 * numSamples / 10) later := by
  have place := starting.place
  have recorded := starting.recorded
  have head := decided.position_le full (by omega) (by omega)
  constructor
  · exact decided.tape
  · exact decided.place.trans place
  · rw [decided.prelude]
    exact starting.separates
  · exact decided.valid.trans starting.valid
  · exact head.1
  · rw [head.2, place]
    push_cast
    exact le_refl _

/-- The last half-bit of the sync bits. -/
theorem getBit_sync {halfLength number : ℕ} {state : State host} {next : Bool}
    (shortest : 153 ≤ halfLength) (longest : halfLength ≤ 255)
    (recorded : Recorded capture halfLength (number + 1) number)
    (sounds : Sounds capture freq tone (number + 1) (number + 2 * halfLength))
    (first : Steady tone false number (number + halfLength))
    (second : Steady tone (firstHalf false next) (number + halfLength) (number + 2 * halfLength))
    (starting : Starting capture freq (number + 1) state) :
    (getBit (number + 1) (u32 (((number + 1 : ℕ) : ℤ) + halfLength - 1)) :
      Decode host ℤ).Attains state fun result later _ => result = bitOf false ∧
        later.packet.bits = state.packet.bits ∧ later.packet.symbols = state.packet.symbols ∧
        later.packet.precedingBit = state.packet.precedingBit ∧
        Tracking capture freq (number + 1) (number + 1 + 11 * halfLength / 10) later ∧
        later.packet.actualBitEnd + 1 = number + halfLength + firstDrift next := by
  have position := starting.position
  have place := starting.place
  obtain ⟨_, full, room, counted⟩ := recorded
  have fits : Fits capture state.reader (number + 1) halfLength :=
    fits_full (by omega) (by omega) (by omega) (by omega) (by omega) (by omega) (by omega)
  have heard : Sounds capture freq tone (number + 1 + 1) (number + 1 + 11 * halfLength / 10) :=
    fun m lower upper => sounds m (by omega) (by omega)
  cases next with
  | true =>
    have found := getBit_steady starting.tape fits starting.separates (by omega) heard (by omega)
      (first.append second (by omega) (by omega))
    apply found.mono
    rintro result later trace ⟨rfl, decided⟩
    have actual := decided.ends
    have drifts : firstDrift true = 1 := rfl
    rw [bitEndAt_eq (by omega) (by omega)] at actual
    rw [drifts]
    refine ⟨rfl, decided.bits, decided.symbols, decided.preceding, ?_, by omega⟩
    exact starting.decided decided (by omega) (by omega)
  | false =>
    have found := getBit_edge (halfLength - 1) starting.tape fits starting.separates (by omega)
      heard (by omega) (by omega) (by omega) (first.mono (by omega) (by omega))
      (second.mono (by omega) (by omega))
    apply found.mono
    rintro result later trace ⟨rfl, decided⟩
    have actual := decided.ends
    have drifts : firstDrift false = 0 := rfl
    rw [bitEndAt_transition (by omega) (by omega)] at actual
    rw [drifts]
    refine ⟨rfl, decided.bits, decided.symbols, decided.preceding, ?_, by omega⟩
    exact starting.decided decided (by omega) (by omega)

/-- The second symbol is decoded, and the attempt is on track. -/
theorem getSecondSymbol_tones {halfLength number : ℕ} {state : State host} {next : Bool}
    (shortest : 153 ≤ halfLength) (longest : halfLength ≤ 255)
    (recorded : Recorded capture halfLength (number + 1) number)
    (sounds : Sounds capture freq tone (number + 1) (number + 2 * halfLength))
    (first : Steady tone false number (number + halfLength))
    (second : Steady tone (firstHalf false next) (number + halfLength) (number + 2 * halfLength))
    (starting : Starting capture freq (number + 1) state)
    (texts : stringOf (state.packet.array .bits) = ['0', '1', '1'] ∧
      stringOf (state.packet.array .symbols) = ['1']) :
    (getSecondSymbol (number + 1) (2 * halfLength + 1) : Decode host ℤ).Attains state
      fun result later _ => result = bitOf true ∧ OnTrack capture freq halfLength (number + 1)
        (number + halfLength) (firstDrift next) [true, true] later := by
  have half : (2 * halfLength + 1) / 2 = halfLength := by omega
  have zero : ¬ (1 : ℤ) = bitOf false := by decide
  have begun : Starting capture freq (number + 1)
      { state with packet := { state.packet with precedingBit := 1 } } :=
    ⟨starting.tape, starting.place, starting.separates, starting.valid, starting.position,
      starting.recorded⟩
  simp only [getSecondSymbol, half, attains_bind, attains_assignPacket]
  apply (getBit_sync shortest longest recorded sounds first second begun).mono
  rintro result middle early ⟨rfl, bits, symbols, preceding, track, ends⟩
  have preset : Preset middle.packet :=
    ⟨by rw [Packet.array, bits]; exact texts.1, by rw [Packet.array, symbols]; exact texts.2,
      preceding⟩
  rw [attains_get, if_neg zero]
  apply (recordSecondSymbol_attains middle preset).mono
  rintro result later trace ⟨rfl, collected, same, actual⟩
  have late : firstDrift next ≤ 1 := by cases next <;> decide
  have limit : Tracking capture freq (number + 1) (number + halfLength + firstDrift next +
      11 * halfLength / 10) later := by
    rw [same]
    exact { track.mono (show _ ≤ number + halfLength + firstDrift next + 11 * halfLength / 10 by
      omega) with ahead := actual ▸ track.ahead }
  refine ⟨rfl, ⟨limit, collected, ?_⟩⟩
  rw [actual]
  exact ends

/-! ## The last symbol -/

/-- The last half-bit of a packet, whatever comes behind it. -/
theorem getBit_last {halfLength start number drift : ℕ} {state : State host} {value : Bool}
    (shortest : 153 ≤ halfLength) (longest : halfLength ≤ 255) (small : drift ≤ 42)
    (recorded : Recorded capture halfLength start number)
    (second : Steady tone (!value) (number + halfLength) (number + 2 * halfLength))
    (track : Tracking capture freq start (number + drift + 11 * halfLength / 10) state)
    (ends : state.packet.actualBitEnd + 1 = number + halfLength + delay halfLength drift)
    (sounds : Sounds capture freq tone number (number + 2 * halfLength)) :
    (getBit state.packet.actualBitEnd (u32 (((number + drift : ℕ) : ℤ) +
        (2 * halfLength + 1 : ℕ) - 1)) : Decode host ℤ).Attains state fun result later _ =>
      result = bitOf !value ∧
        later.packet.bits = state.packet.bits ∧ later.packet.symbols = state.packet.symbols ∧
        later.packet.precedingBit = state.packet.precedingBit ∧ later.validPkt = true := by
  obtain ⟨bitStart, bound⟩ : ∃ bitStart, bitStart = state.packet.actualBitEnd := ⟨_, rfl⟩
  obtain ⟨late, holds⟩ : ∃ late, late = delay halfLength drift := ⟨_, rfl⟩
  have ahead := track.ahead
  have place := track.place
  have latest : late ≤ drift ∧ late ≤ 16 := by
    unfold delay at holds
    omega
  have span : ((number + drift : ℕ) : ℤ) + (2 * halfLength + 1 : ℕ) - 1 =
      (bitStart : ℤ) + secondSpan halfLength drift - 1 := by
    unfold secondSpan
    omega
  have length : secondSpan halfLength drift = halfLength + drift + 2 - late := by
    rw [holds, secondSpan]
  obtain ⟨behind, full, room, counted⟩ := recorded
  rw [← bound] at ends ahead ⊢
  rw [← holds] at ends
  rw [span]
  obtain ⟨numSamples, named⟩ : ∃ numSamples, numSamples = secondSpan halfLength drift := ⟨_, rfl⟩
  rw [← named] at length ⊢
  have fits : Fits capture state.reader bitStart numSamples :=
    fits_full (by omega) (by omega) (by omega) (by omega) (by omega) (by omega) (by omega)
  have decides := surplus_majority (second.mono (show _ ≤ bitStart + 1 by omega)
    (show bitStart + 1 + (halfLength - late) ≤ _ by omega))
    (show 3 * numSamples / 5 - 1 < 2 * (halfLength - late) by omega) (by omega)
  have opened : capture.base ≤ bitStart := track.tape.opened.trans fits.ahead
  apply (getBit_tape bitStart numSamples state track.tape fits).mono
  rintro result later trace ⟨allocation, rfl, decided, _⟩
  have sum := sum_windowSamples track.separates host allocation opened
    (show 3 * numSamples / 5 - 1 + 1 ≤ 11 * numSamples / 10 by omega) (by omega)
    fun m lower upper => sounds m (by omega) (by omega)
  have whole : 3 * numSamples / 5 - 1 + 1 = 3 * numSamples / 5 := by omega
  rw [whole] at sum
  rw [threeFifths_natCast, sum]
  exact ⟨bitValue_surplus decides, decided.bits, decided.symbols, decided.preceding,
    decided.valid.trans track.valid⟩

/-- The last symbol of a packet is decoded. -/
theorem getSymbol_last {halfLength start number drift : ℕ} {decoded : List Bool}
    {state : State host} {symbol : Bool} (shortest : 153 ≤ halfLength)
    (longest : halfLength ≤ 255) (small : drift ≤ 42)
    (recorded : Recorded capture halfLength start number) (room : decoded.length < symbolsPerMsg)
    (sounds : Sounds capture freq tone number (number + 2 * halfLength))
    (first : Steady tone (firstHalf (lastHalf false decoded) symbol) number (number + halfLength))
    (second : Steady tone (!firstHalf (lastHalf false decoded) symbol) (number + halfLength)
      (number + 2 * halfLength))
    (track : OnTrack capture freq halfLength start number drift decoded state)
    (behind : start ≤ number + drift) :
    (getSymbol (number + drift) (2 * halfLength + 1) : Decode host ℤ).Attains state
      fun result later _ => result = bitOf symbol ∧ later.validPkt = true ∧
        Collected (decoded ++ [symbol]) later.packet := by
  have half : (2 * halfLength + 1) / 2 = halfLength := by omega
  obtain ⟨value, holds⟩ : ∃ value, value = firstHalf (lastHalf false decoded) symbol := ⟨_, rfl⟩
  rw [← holds] at first second
  simp only [getSymbol, half, attains_bind]
  apply (getBit_first shortest longest small recorded first second track behind
    fun m lower upper => sounds m lower (by omega)).mono
  rintro firstBit middle early ⟨rfl, bits, symbols, preceding, tracking, ends⟩
  rw [attains_get]
  apply (getBit_last shortest longest small recorded second tracking ends sounds).mono
  rintro secondBit later late ⟨rfl, bits', symbols', preceding', valid⟩
  have collected := track.collected.of_arrays (bits'.trans bits) (symbols'.trans symbols)
    (preceding'.trans preceding)
  rw [attains_get, settleHalfBits_of_differ]
  apply (recordSymbol_attains later collected room value).mono
  rintro result final trace ⟨_, rfl, rfl⟩
  have read : (lastHalf false decoded == value) = symbol := by
    rw [holds]
    exact beq_firstHalf _ _
  have more := collected.record room value
  rw [read] at more ⊢
  exact ⟨rfl, valid, more⟩

end FcTpms.Decoder
