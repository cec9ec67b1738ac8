import Mathlib.Algebra.Ring.Int.Defs
import Mathlib.Algebra.Ring.Nat

/-!
# `state_machine.c`

The decoder that measures the distance between peaks of the I samples. A byte stream is handed to
`analyze_state_machine` in buffers, each with the number of the bytes before it; bytes with an even
number are I samples. Positions are `uint32_t` and wrap. A `long` has 64 bits.
-/

namespace FcTpms.StateMachine

/-- `BITS_PER_MSG`. -/
def bitsPerMsg : ℕ := 69

/-- `PEAK`, `UNK` and `NEG`, the values of `prev_event`. -/
inductive Event where
  | peak
  | unk
  | neg
deriving Repr, DecidableEq

/-- `NO_PKT`. -/
def noPkt : ℤ := -999

/-- `HF_PRELUDE`. -/
def hfPrelude : ℤ := -1

/-- `RTN_OK`. -/
def rtnOk : ℤ := 0

/-- `RTN_BUG`. -/
def rtnBug : ℤ := 999

/-- `PRELUDE_SIZE`. -/
def preludeSize : ℤ := 1000

/-- `LO_HFCYCLE_SAMPLES`, the integer part of 0.85 · 27. -/
def loHfcycleSamples : ℤ := 22

/-- The static variables of the file. -/
structure State where
  currentState : ℤ
  samplesInState : ℤ
  samplesInCycle : ℤ
  prevEvent : Event
  prevB : UInt8
  prevI : UInt8
  prevQ : UInt8
  prevPeak : UInt32
  preludeStartpoint : UInt32
  bitMidpoints : Vector UInt32 bitsPerMsg
  bitStartpoints : Vector UInt32 bitsPerMsg
  midpointsFound : ℤ
  startpointsFound : ℤ
  firstHalfVals : Vector Bool bitsPerMsg
  secondHalfVals : Vector Bool bitsPerMsg
  firstHalfValsFound : ℤ
  secondHalfValsFound : ℤ
  bitVals : Vector Bool bitsPerMsg
deriving DecidableEq

/-- The variables as the program starts with them. -/
def initial : State where
  currentState := noPkt
  samplesInState := 0
  samplesInCycle := 0
  prevEvent := .unk
  prevB := 0
  prevI := 0
  prevQ := 0
  prevPeak := 0
  preludeStartpoint := 0
  bitMidpoints := .replicate bitsPerMsg 0
  bitStartpoints := .replicate bitsPerMsg 0
  midpointsFound := 0
  startpointsFound := 0
  firstHalfVals := .replicate bitsPerMsg false
  secondHalfVals := .replicate bitsPerMsg false
  firstHalfValsFound := 0
  secondHalfValsFound := 0
  bitVals := .replicate bitsPerMsg false

/-- `reset_vars`. -/
def resetVars (s : State) : State :=
  { s with
    bitStartpoints := .replicate bitsPerMsg 0
    bitMidpoints := .replicate bitsPerMsg 0
    firstHalfVals := .replicate bitsPerMsg false
    secondHalfVals := .replicate bitsPerMsg false
    bitVals := .replicate bitsPerMsg false
    currentState := noPkt
    samplesInState := 0
    samplesInCycle := 0
    firstHalfValsFound := 0
    secondHalfValsFound := 0
    startpointsFound := 0
    midpointsFound := 0 }

/-- `CURR_SAMPLE`. -/
def currSample (i sampleOffset : UInt32) : UInt32 := sampleOffset + i

/-- A number converted to `int`. -/
def toInt (value : ℤ) : ℤ := value.bmod (2 ^ 32)

/-- `PRECEDING_HF_CYCLE(samples_in_cycle)`; its second test compares the number with itself. -/
def precedingHfCycle (s : State) : Bool :=
  loHfcycleSamples ≤ s.samplesInCycle && s.samplesInCycle ≤ s.samplesInCycle

/-- The entry of an array for a bit. -/
def atBit {α : Type} [Inhabited α] (values : Vector α bitsPerMsg) (bit : ℤ) : α :=
  values[bit.toNat]?.getD default

/-- An array with a new entry for a bit. -/
def setBit {α : Type} (values : Vector α bitsPerMsg) (bit : ℤ) (value : α) : Vector α bitsPerMsg :=
  values.setIfInBounds bit.toNat value

/-- `is_sample_peak`. -/
def isSamplePeak (b : UInt8) (s : State) : Bool × State :=
  if b = 0xFF then (decide (s.prevEvent = .neg), { s with prevEvent := .peak })
  else if b ≤ 0x7F then (false, { s with prevEvent := .neg })
  else (false, s)

/-- `analyze_within_no_pkt_state`. -/
def analyzeWithinNoPktState (i sampleOffset : UInt32) (s : State) : State :=
  if precedingHfCycle s then
    { s with
      currentState := hfPrelude
      preludeStartpoint := currSample i sampleOffset - .ofInt s.samplesInCycle
      samplesInState := s.samplesInCycle
      samplesInCycle := 1 }
  else { s with samplesInCycle := 1 }

/-- `analyze_within_prelude_state`. -/
def analyzeWithinPreludeState (i sampleOffset : UInt32) (s : State) : State :=
  if precedingHfCycle s then { s with samplesInCycle := 1 }
  else if s.samplesInState ≥ preludeSize then
    let sinceMidpoint : ℤ := (currSample i sampleOffset - s.prevPeak).toNat
    { s with
      currentState := 0
      firstHalfVals := setBit s.firstHalfVals 0 true
      firstHalfValsFound := s.firstHalfValsFound + 1
      bitMidpoints := setBit s.bitMidpoints 0 s.prevPeak
      midpointsFound := s.midpointsFound + 1
      samplesInState := sinceMidpoint
      samplesInCycle := toInt sinceMidpoint }
  else resetVars s

/-- `analyze_within_bit0_state`. -/
def analyzeWithinBit0State (i sampleOffset : UInt32) (s : State) : State :=
  if precedingHfCycle s then
    let midpoint0 := atBit s.bitMidpoints 0
    let midpoint1 := currSample i sampleOffset
    let startpoint1 := (midpoint0 + midpoint1) / 2
    let startpoint0 := 2 * midpoint0 - startpoint1
    { s with
      secondHalfVals := setBit s.secondHalfVals 0 false
      secondHalfValsFound := s.secondHalfValsFound + 1
      currentState := 1
      samplesInState := 0
      firstHalfVals := setBit s.firstHalfVals 1 false
      firstHalfValsFound := s.firstHalfValsFound + 1
      bitMidpoints := setBit s.bitMidpoints 1 midpoint1
      midpointsFound := s.midpointsFound + 1
      bitStartpoints := setBit (setBit s.bitStartpoints 1 startpoint1) 0 startpoint0
      startpointsFound := s.startpointsFound + 2 }
  else { s with samplesInCycle := 1, samplesInState := s.samplesInState + 1 }

/-- The first half of a bit, at a peak: its value and its midpoint are recorded once. -/
def recordFirstHalf (highFrequency : Bool) (s : State) : State :=
  if s.firstHalfValsFound < s.currentState + 1 then
    { s with
      firstHalfVals := setBit s.firstHalfVals s.currentState highFrequency
      firstHalfValsFound := s.firstHalfValsFound + 1
      bitMidpoints := setBit s.bitMidpoints s.currentState
        (2 * atBit s.bitStartpoints s.currentState - atBit s.bitMidpoints (s.currentState - 1))
      midpointsFound := s.midpointsFound + 1 }
  else s

/-- The second half of a bit, at a peak: its value is recorded once, unless both halves have the
same frequency. -/
def recordSecondHalf (highFrequency : Bool) (s : State) : State :=
  if s.secondHalfValsFound < s.currentState + 1 then
    if atBit s.firstHalfVals s.currentState = highFrequency then resetVars s
    else
      { s with
        secondHalfVals := setBit s.secondHalfVals s.currentState highFrequency
        secondHalfValsFound := s.secondHalfValsFound + 1 }
  else s

/-- `analyze_within_bit_i_state`. -/
def analyzeWithinBitIState (i sampleOffset : UInt32) (s : State) : State :=
  let midpoint := atBit s.bitMidpoints s.currentState
  if midpoint = 0 ∨ currSample i sampleOffset ≤ midpoint then
    recordFirstHalf (precedingHfCycle s) s
  else recordSecondHalf (precedingHfCycle s) s

/-- The test of `analyze_within_bit1_state` that bit 2 is overdue. Its `double` products and sums
are less than a tenth off, so that it decides as it would on exact numbers. -/
def overdue (curr midpoint startpoint : UInt32) : Bool :=
  10 * curr.toNat > 10 * midpoint.toNat + 12 * (midpoint - startpoint).toNat

/-- `analyze_within_bit1_state`. -/
def analyzeWithinBit1State (i sampleOffset : UInt32) (s : State) : State :=
  let curr := currSample i sampleOffset
  let midpoint1 := atBit s.bitMidpoints 1
  let startpoint1 := atBit s.bitStartpoints 1
  if precedingHfCycle s ∧ midpoint1 ≠ 0 ∧ startpoint1 ≠ 0 ∧ overdue curr midpoint1 startpoint1 then
    let startpoint2 := 2 * midpoint1 - startpoint1
    analyzeWithinBitIState i sampleOffset
      { s with
        currentState := 2
        bitStartpoints := setBit s.bitStartpoints 2 startpoint2
        startpointsFound := s.startpointsFound + 1
        samplesInState := (curr - startpoint2).toNat
        samplesInCycle := 1 }
  else if precedingHfCycle s then
    { s with
      secondHalfVals := setBit s.secondHalfVals 1 true
      secondHalfValsFound := s.secondHalfValsFound + 1
      samplesInState := s.samplesInState + 1
      samplesInCycle := 1 }
  else
    analyzeWithinBitIState i sampleOffset
      { s with
        currentState := 2
        samplesInState := s.samplesInCycle
        samplesInCycle := 1
        bitStartpoints := setBit s.bitStartpoints 2 (curr - .ofInt s.samplesInCycle)
        startpointsFound := s.startpointsFound + 1 }

/-- The handler for a peak in the current state, none in a state that the source calls a bug. -/
def analyzePeak (i sampleOffset : UInt32) (s : State) : Option State :=
  if s.currentState = noPkt then some (analyzeWithinNoPktState i sampleOffset s)
  else if s.currentState = hfPrelude then some (analyzeWithinPreludeState i sampleOffset s)
  else if s.currentState = 0 then some (analyzeWithinBit0State i sampleOffset s)
  else if s.currentState = 1 then some (analyzeWithinBit1State i sampleOffset s)
  else if s.currentState ≥ 2 ∧ s.currentState < bitsPerMsg then
    some (analyzeWithinBitIState i sampleOffset s)
  else none

/-- `if (samples_in_cycle > 500) reset_vars()`. -/
def resetIfLong (s : State) : State :=
  if s.samplesInCycle > 500 then resetVars s else s

/-- An I sample. Where `RTN_BUG` is returned, `error` has the variables as they stand. -/
def analyzeISample (i sampleOffset : UInt32) (b : UInt8) (s : State) : Except State State :=
  let (sampleIsPeak, s) := isSamplePeak b s
  let s := resetIfLong s
  if sampleIsPeak then
    match analyzePeak i sampleOffset s with
    | none => .error s
    | some s => .ok { s with prevPeak := currSample i sampleOffset, prevI := b }
  else
    .ok { s with
      samplesInCycle := s.samplesInCycle + 1
      samplesInState := s.samplesInState + 1
      prevI := b }

/-- One turn of the loop of `analyze_state_machine`. -/
def analyzeByte (i sampleOffset : UInt32) (b : UInt8) (s : State) : Except State State := do
  let byteOffset := sampleOffset % 2
  if i % 2 = byteOffset then
    let s ← analyzeISample i sampleOffset b s
    .ok { s with prevB := b }
  else .ok { s with prevQ := b, prevB := b }

/-- The loop of `analyze_state_machine` from a position in the buffer on. -/
def analyzeFrom (sampleOffset : UInt32) : UInt32 → List UInt8 → State → ℤ × State
  | _, [], s => (rtnOk, s)
  | i, b :: rest, s =>
    match analyzeByte i sampleOffset b s with
    | .ok s => analyzeFrom sampleOffset (i + 1) rest s
    | .error s => (rtnBug, s)

/-- `analyze_state_machine`: the code it returns and the variables after it. -/
def analyzeStateMachine (buf : List UInt8) (sampleOffset : UInt32) (s : State) : ℤ × State :=
  analyzeFrom sampleOffset 0 buf (if sampleOffset = 0 then resetVars s else s)

/-- Consecutive buffers with the running byte offset: the code of each call, and the variables
after the last one. -/
def analyzeBuffers : List (List UInt8) → UInt32 → State → List ℤ × State
  | [], _, s => ([], s)
  | buf :: rest, sampleOffset, s =>
    let (code, s) := analyzeStateMachine buf sampleOffset s
    let (codes, s) := analyzeBuffers rest (sampleOffset + .ofNat buf.length) s
    (code :: codes, s)

end FcTpms.StateMachine
