import FcTpms.Legacy.HalfBitString

/-!
# The decoder of `analyze_tpms.c`

`update_state` is called with one sample and the one before it. It measures the frequencies of
the high and the low period of the prelude, finds the bit length from the first low period of the
packet, and from then on takes one half-bit in the middle of each bit. Phases and frequencies are
floating-point numbers as in `Arithmetic`; the window of a bit is computed in floating point too
and converted to `unsigned int`. What only the log reads is left out.
-/

namespace FcTpms.AnalyzeTpms

open Decoder Legacy

/-- `UNK`. -/
def unk : ℕ := 0

/-- The arithmetic of the decoder. -/
class Windowing (F : Type) extends Arithmetic F where
  /-- Storing a `double` in an `unsigned int`. -/
  toUnsigned : F → ℕ

/-- The static variables of the decoder and of `update_state`. -/
structure State (F : Type) where
  /-- `curr_state`. -/
  currState : ℤ
  /-- `high_freq`. -/
  highFreq : F
  /-- `high_freq_set`. -/
  highFreqSet : Bool
  /-- `low_freq`. -/
  lowFreq : F
  /-- `low_freq_set`. -/
  lowFreqSet : Bool
  /-- `basebit_vals`. -/
  basebitVals : List Bool
  /-- `valid_pkt`. -/
  validPkt : Bool
  /-- `symbols`. -/
  symbols : List Char
  /-- `bit_boundary[0]`. -/
  bitBoundary0 : ℕ
  /-- `bit_boundary[1]`. -/
  bitBoundary1 : ℕ
  /-- `samples_per_bit`. -/
  samplesPerBit : ℕ
  /-- `first_bit_start`. -/
  firstBitStart : ℕ
  /-- `prelude_hf_start`. -/
  preludeHfStart : ℕ
  /-- `prelude_lf_start`. -/
  preludeLfStart : ℕ
  /-- `cum_phi`. -/
  cumPhi : F
  /-- `count`. -/
  count : ℤ
  /-- `b`, where `none` is `-1`. -/
  b : Option Bool
  /-- `good_window_start`. -/
  goodWindowStart : ℕ
  /-- `good_window_end`. -/
  goodWindowEnd : ℕ

/-- What a call of `update_state` comes to: the state and whether it returns 1. A call that
writes outside of `basebit_vals` comes to `none`. -/
abbrev Reply (F : Type) : Type := Option (State F × Bool)

section UpdateState

variable {F : Type} [Windowing F]

open Arithmetic Windowing

/-- The static variables when the process starts. -/
def State.initial : State F where
  currState := -99
  highFreq := ofInt 0
  highFreqSet := false
  lowFreq := ofInt 0
  lowFreqSet := false
  basebitVals := []
  validPkt := false
  symbols := noSymbols
  bitBoundary0 := 0
  bitBoundary1 := 0
  samplesPerBit := unk
  firstBitStart := unk
  preludeHfStart := unk
  preludeLfStart := unk
  cumPhi := ofInt 0
  count := 0
  b := none
  goodWindowStart := 0
  goodWindowEnd := 0

/-- `reset_vars`. -/
def resetVars (state : State F) : State F :=
  { state with
    validPkt := false
    currState := -99
    symbols := noSymbols
    highFreqSet := false
    lowFreqSet := false
    preludeLfStart := unk
    preludeHfStart := unk
    basebitVals := []
    bitBoundary0 := unk
    bitBoundary1 := unk
    samplesPerBit := unk
    firstBitStart := unk }

/-- `fmod(phi + M_PI * 0.5 - prev_phi, M_PI * 0.5)`. -/
def deltaPhi (x prevX : Cplx F) : F :=
  let quarter : F := mul pi (literal 0.5)
  fmod (sub (add (cargf x) quarter) (cargf prevX)) quarter

/-- `HIGHFREQ` and `LOWFREQ`: the step is within 5 % of the frequency. -/
def isNear (deltaPhi freq : F) : Bool := le (deviation deltaPhi freq) (literal 0.05)

/-- `sample_num >= start + seconds * SAMPLE_RATE`. -/
def reached (sampleNum start : ℕ) (seconds : ℚ) : Bool :=
  le (add (ofInt start) (mul (literal seconds) (literal 1024000))) (ofInt sampleNum : F)

/-- The state in the high period of the prelude. -/
def measureHigh (state : State F) (deltaPhi : F) (sampleNum : ℕ) : State F :=
  let state := { state with currState := -1 }
  let state :=
    if state.preludeHfStart = unk then
      { state with preludeHfStart := sampleNum, cumPhi := literal 0, count := 0 }
    else { state with cumPhi := add state.cumPhi deltaPhi, count := state.count + 1 }
  let state := { state with highFreq := toFloat (div state.cumPhi (ofInt state.count)) }
  if reached (F := F) sampleNum state.preludeHfStart 0.0006 && !isNear deltaPhi state.highFreq then
    { state with highFreqSet := true }
  else state

/-- The state in the low period of the prelude. -/
def measureLow (state : State F) (deltaPhi : F) (sampleNum : ℕ) : State F :=
  let state := { state with currState := -2 }
  let state :=
    if state.preludeLfStart = unk then
      { state with preludeLfStart := sampleNum, cumPhi := literal 0, count := 0 }
    else { state with cumPhi := add state.cumPhi deltaPhi, count := state.count + 1 }
  let state := { state with lowFreq := toFloat (div state.cumPhi (ofInt state.count)) }
  if reached (F := F) sampleNum state.preludeLfStart 0.0005 && isNear deltaPhi state.highFreq then
    { state with lowFreqSet := true, bitBoundary0 := sampleNum, currState := -3 }
  else state

/-- The first half-bits of the packet, found at the end of its first high period. -/
def beginPacket (state : State F) (sampleNum : ℕ) : State F :=
  let samplesPerBit := u32 (sampleNum - state.bitBoundary0) / 2
  { state with
    basebitVals := [false, true, true]
    bitBoundary1 := sampleNum
    samplesPerBit
    firstBitStart := u32 (sampleNum - 3 * samplesPerBit) }

/-- `first_bit_start + bits * (samples_per_bit-0.2) + margin`. -/
def windowAt (state : State F) (bits : ℕ) (margin : F → F) : ℕ :=
  toUnsigned (margin (add (ofInt state.firstBitStart)
    (mul (ofInt bits) (sub (ofInt state.samplesPerBit) (literal 0.2)))))

/-- `SAVE_BIT_ONLY`. -/
def saveBitOnly (state : State F) (b : Bool) : Option (State F) :=
  (saveBit state.basebitVals b).map fun basebitVals =>
    { state with
      basebitVals
      currState := basebitVals.length
      goodWindowStart := windowAt state basebitVals.length (add · (literal 30))
      goodWindowEnd := windowAt state (basebitVals.length + 1) (sub · (literal 30)) }

/-- The end of `update_state`. -/
def settle (state : State F) : State F :=
  if 0 < state.basebitVals.length then { state with currState := state.basebitVals.length }
  else state

/-- The pressure bits of a packet as a number. -/
def pressureBits (symbols : List Char) : ℕ :=
  (List.range 8).foldl (fun press k => 2 * press + if symbols[k + 36]? = .some '1' then 1 else 0) 0

/-- The pressure bits are followed by their complements, and the pressure is not negative:
`press * 2.5 - 100.0 >= 0.0`. -/
def PlausiblePressure (symbols : List Char) : Prop :=
  (∀ k < 8, symbols[36 + k]? ≠ symbols[44 + k]?) ∧ 200 ≤ 5 * pressureBits symbols

instance (symbols : List Char) : Decidable (PlausiblePressure symbols) :=
  inferInstanceAs (Decidable (_ ∧ _))

/-- What follows the last half-bit of a packet. -/
def publish (state : State F) : State F × Bool :=
  let symbols := decodedSymbols state.basebitVals
  let state := { state with symbols }
  if ¬ (symbols[0]? = .some '1' ∧ symbols[1]? = .some '1' ∧ symbols[68]? = .some '1') then
    (resetVars state, false)
  else if ¬ PlausiblePressure symbols then (resetVars state, false)
  else ({ state with validPkt := true }, true)

/-- The half-bits of the packet. -/
def collect (state : State F) (b : Bool) (sampleNum : ℕ) (bitInProcess : ℤ) : Reply F :=
  let state := { state with currState := bitInProcess }
  if state.basebitVals.length = 3 then
    if !b then (saveBitOnly state b).map (·, false) else .some (settle state, false)
  else if sampleNum < state.goodWindowEnd ∧ state.goodWindowStart < sampleNum then
    if bitInProcess.tmod 2 = 0 then (saveBitOnly state b).map (·, false)
    else if 136 < bitInProcess ∨ differsFromLast state.basebitVals bitInProcess.toNat b then
      (saveBitOnly state b).map fun saved =>
        if saved.basebitVals.length = 2 * symbolsPerMsg then publish saved
        else (settle saved, false)
    else .some (resetVars state, false)
  else .some (settle state, false)

/-- `b` after a sample; between the frequencies it keeps its value. -/
def bitAfter (state : State F) (deltaPhi : F) : Option Bool :=
  if isNear deltaPhi state.highFreq then some true
  else if isNear deltaPhi state.lowFreq then some false
  else state.b

/-- `update_state`. -/
def updateState (state : State F) (x prevX : Cplx F) (sampleNum : ℕ) : Reply F :=
  let bitInProcess : ℤ := if 0 < state.currState then state.basebitVals.length else -1
  let step := deltaPhi x prevX
  let weak := lt x.re (literal 0.9)
  if !state.highFreqSet && !state.lowFreqSet then
    if weak && state.currState != -1 then .some (state, false)
    else .some (measureHigh state step sampleNum, false)
  else if state.highFreqSet && !state.lowFreqSet then
    if weak && state.currState != -2 then .some (state, false)
    else .some (measureLow state step sampleNum, false)
  else if state.currState = -3 then
    if isNear step state.lowFreq then .some (settle (beginPacket state sampleNum), false)
    else .some (settle state, false)
  else
    let state := { state with b := bitAfter state step }
    match state.b with
    | .some bit =>
      if state.highFreqSet && state.lowFreqSet then collect state bit sampleNum bitInProcess
      else .some (settle state, false)
    | .none => .some (settle state, false)

/-- A sample of the packet. -/
theorem updateState_packet {state : State F} {x prevX : Cplx F} {sampleNum : ℕ}
    (high : state.highFreqSet = true) (low : state.lowFreqSet = true)
    (started : 0 < state.currState) :
    updateState state x prevX sampleNum =
      match bitAfter state (deltaPhi x prevX) with
      | .some bit => collect { state with b := bitAfter state (deltaPhi x prevX) } bit sampleNum
          state.basebitVals.length
      | .none => .some (settle { state with b := bitAfter state (deltaPhi x prevX) }, false) := by
  have elsewhere : state.currState ≠ -3 := by omega
  have both : (state.highFreqSet && state.lowFreqSet) = true := by rw [high, low]; rfl
  unfold updateState
  dsimp only
  rw [if_neg (show ¬ (!state.highFreqSet && !state.lowFreqSet) = true by rw [high, low]; decide),
    if_neg (show ¬ (state.highFreqSet && !state.lowFreqSet) = true by rw [high, low]; decide),
    if_neg elsewhere]
  cases bitAfter state (deltaPhi x prevX) with
  | none => rfl
  | some bit =>
    dsimp only
    rw [if_pos both, if_pos started]

end UpdateState

end FcTpms.AnalyzeTpms
