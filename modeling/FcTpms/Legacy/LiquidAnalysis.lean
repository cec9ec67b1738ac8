import FcTpms.Legacy.HalfBitString

/-!
# The decoder of `liquid_analysis.c`

`update_state` is called with one demodulated bit at a time. It waits for a long high and a long
low period, the prelude, and then collects half-bits until it has a packet or sees a half-bit
that does not fit, in which case it starts over. The lengths of the two periods are measured with
the sample numbers it is given. The locking of the phase is compiled out, and `pll_is_locked` is
always true.
-/

namespace FcTpms.Liquid

open Decoder Legacy

/-- `UNK`. -/
def unk : ℕ := 0

/-- The static variables of the decoder. -/
structure State where
  /-- `curr_state`. -/
  currState : ℤ
  /-- `high_freq_set`. -/
  highFreqSet : Bool
  /-- `low_freq_set`. -/
  lowFreqSet : Bool
  /-- `prelude_hf_start`. -/
  preludeHfStart : ℕ
  /-- `prelude_lf_start`. -/
  preludeLfStart : ℕ
  /-- `basebit_vals`. -/
  basebitVals : List Bool
  /-- `valid_pkt`. -/
  validPkt : Bool
  /-- `symbols`. -/
  symbols : List Char
  deriving DecidableEq

namespace State

/-- The static variables when the process starts. -/
def initial : State where
  currState := 0
  highFreqSet := false
  lowFreqSet := false
  preludeHfStart := unk
  preludeLfStart := unk
  basebitVals := []
  validPkt := false
  symbols := noSymbols

/-- `reset_vars`. -/
def resetVars : State where
  currState := -99
  highFreqSet := false
  lowFreqSet := false
  preludeHfStart := unk
  preludeLfStart := unk
  basebitVals := []
  validPkt := false
  symbols := noSymbols

end State

/-- The test for the length of a period of the prelude: at least `0.0005 * SAMPLE_RATE`, which is
512, and less than `0.0007 * SAMPLE_RATE`, which is 716.8. -/
def inWindow (start sampleNum : ℕ) : Bool :=
  decide (start + 512 ≤ sampleNum) && decide (sampleNum ≤ start + 716)

/-- The first part of `update_state`: the high period of the prelude. -/
def seekHigh (state : State) (b : Bool) (sampleNum : ℕ) : State :=
  if !state.highFreqSet && !state.lowFreqSet then
    if b then
      let start := if state.preludeHfStart = unk then sampleNum else state.preludeHfStart
      { state with
        currState := -1
        preludeHfStart := start
        highFreqSet := inWindow start sampleNum }
    else State.resetVars
  else state

/-- The second part: the low period of the prelude, with `true` where the call goes on. -/
def seekLow (state : State) (b : Bool) (sampleNum : ℕ) : State × Bool :=
  if state.highFreqSet && !state.lowFreqSet then
    if !b then
      let start := if state.preludeLfStart = unk then sampleNum else state.preludeLfStart
      let measured := inWindow start sampleNum
      ({ state with
        currState := if measured then -3 else -2
        preludeLfStart := start
        lowFreqSet := measured }, true)
    else if inWindow state.preludeHfStart sampleNum then
      ({ state with currState := -2 }, false)
    else (State.resetVars, true)
  else (state, true)

/-- What a call of `update_state` comes to: the state and whether it returns 1. A call that
writes outside of `basebit_vals` comes to `none`. -/
abbrev Reply : Type := Option (State × Bool)

/-- `SAVE_BIT_ONLY`. -/
def saveBitOnly (state : State) (b : Bool) : Option State :=
  (saveBit state.basebitVals b).map fun basebitVals =>
    { state with basebitVals, currState := basebitVals.length }

/-- The end of `update_state`. -/
def settle (state : State) : State :=
  if 0 < state.basebitVals.length then { state with currState := state.basebitVals.length }
  else state

/-- What follows the last half-bit of a packet. -/
def publish (state : State) : State × Bool :=
  let symbols := decodedSymbols state.basebitVals
  if symbols[0]? = .some '1' ∧ symbols[1]? = .some '1' ∧ symbols[68]? = .some '1' then
    ({ state with symbols, validPkt := true }, true)
  else (State.resetVars, false)

/-- The last part: the half-bits of the packet. -/
def collect (state : State) (b : Bool) (sampleNum bitInProcess : ℕ) : Reply :=
  if state.highFreqSet && state.lowFreqSet then
    let state := { state with currState := bitInProcess }
    if (bitInProcess = 0 ∧ state.preludeLfStart ≤ sampleNum) ∨ bitInProcess = 3 then
      if !b then (saveBitOnly state b).map (·, false) else .some (State.resetVars, false)
    else if bitInProcess = 1 ∨ bitInProcess = 2 then
      if b then (saveBitOnly state b).map (·, false) else .some (State.resetVars, false)
    else if bitInProcess % 2 = 1 then
      if 136 < bitInProcess ∨ differsFromLast state.basebitVals bitInProcess b then
        (saveBitOnly state b).map fun saved =>
          if saved.basebitVals.length = 2 * symbolsPerMsg then publish saved
          else (settle saved, false)
      else .some (State.resetVars, false)
    else (saveBitOnly state b).map (·, false)
  else .some (settle state, false)

/-- `update_state`. -/
def updateState (state : State) (b : Bool) (sampleNum : ℕ) : Reply :=
  let bitInProcess := state.basebitVals.length
  match seekLow (seekHigh state b sampleNum) b sampleNum with
  | (state, false) => .some (state, false)
  | (state, true) =>
    if state.currState = -3 then
      if !b then .some (state, false)
      else if inWindow state.preludeLfStart sampleNum then
        -- `strcat(basebit_vals, "0")`
        (saveBit state.basebitVals false).bind fun basebitVals =>
          collect { state with basebitVals } b sampleNum (bitInProcess + 1)
      else .some (State.resetVars, false)
    else collect state b sampleNum bitInProcess

/-! ## One call, by what the decoder is waiting for -/

section Calls

variable {state : State} {sampleNum : ℕ}

/-- The start of a period that is being measured. -/
def startedAt (start sampleNum : ℕ) : ℕ := if start = unk then sampleNum else start

/-- A low bit before the high period is over starts over. -/
theorem updateState_low_first (high : state.highFreqSet = false) (low : state.lowFreqSet = false) :
    updateState state false sampleNum = .some (State.resetVars, false) := by
  unfold updateState seekHigh
  rw [high, low]
  rfl

/-- A high bit before the high period is over. -/
theorem updateState_high_first (high : state.highFreqSet = false) (low : state.lowFreqSet = false)
    (empty : state.basebitVals = []) :
    updateState state true sampleNum = .some ({ state with
      currState := if inWindow (startedAt state.preludeHfStart sampleNum) sampleNum then -2 else -1
      preludeHfStart := startedAt state.preludeHfStart sampleNum
      highFreqSet := inWindow (startedAt state.preludeHfStart sampleNum) sampleNum }, false) := by
  unfold updateState seekHigh seekLow collect settle
  cases reached : inWindow (startedAt state.preludeHfStart sampleNum) sampleNum <;>
    simp_all [startedAt]

/-- A low bit in the low period. -/
theorem updateState_low_second (high : state.highFreqSet = true) (low : state.lowFreqSet = false)
    (empty : state.basebitVals = []) :
    updateState state false sampleNum = .some ({ state with
      currState := if inWindow (startedAt state.preludeLfStart sampleNum) sampleNum then -3 else -2
      preludeLfStart := startedAt state.preludeLfStart sampleNum
      lowFreqSet := inWindow (startedAt state.preludeLfStart sampleNum) sampleNum }, false) := by
  unfold updateState seekHigh seekLow collect settle
  cases reached : inWindow (startedAt state.preludeLfStart sampleNum) sampleNum <;>
    simp_all [startedAt]

/-- A high bit before the low period is over. -/
theorem updateState_high_second (high : state.highFreqSet = true) (low : state.lowFreqSet = false) :
    updateState state true sampleNum = .some
      (if inWindow state.preludeHfStart sampleNum then { state with currState := -2 }
        else State.resetVars, false) := by
  unfold updateState seekHigh seekLow collect settle
  cases reached : inWindow state.preludeHfStart sampleNum <;> simp_all [State.resetVars]

/-- A low bit after the low period is long enough. -/
theorem updateState_low_third (high : state.highFreqSet = true) (low : state.lowFreqSet = true)
    (ready : state.currState = -3) :
    updateState state false sampleNum = .some (state, false) := by
  unfold updateState seekHigh seekLow
  simp_all

/-- A high bit after the low period is long enough begins the packet. -/
theorem updateState_high_third (high : state.highFreqSet = true) (low : state.lowFreqSet = true)
    (ready : state.currState = -3) (empty : state.basebitVals = []) :
    updateState state true sampleNum = .some
      (if inWindow state.preludeLfStart sampleNum then
        { state with basebitVals := [false, true], currState := 2 }
      else State.resetVars, false) := by
  unfold updateState seekHigh seekLow collect saveBitOnly
  cases reached : inWindow state.preludeLfStart sampleNum <;>
    simp_all [saveBit, basebitSize, symbolsPerMsg]

/-- Whether a half-bit fits after the ones before it: the packet begins with `0110`, and the
half-bits of a symbol differ, except for the last symbol. -/
def fitsPacket (basebitVals : List Bool) (b : Bool) : Bool :=
  if basebitVals.length = 3 then !b
  else if basebitVals.length = 2 then b
  else if basebitVals.length % 2 = 1 then
    decide (136 < basebitVals.length) || differsFromLast basebitVals basebitVals.length b
  else true

/-- The state with these half-bits. -/
def State.withBits (state : State) (basebitVals : List Bool) : State :=
  { state with basebitVals, currState := basebitVals.length }

/-- Settling changes nothing in a packet. -/
theorem settle_withBits (state : State) {basebitVals : List Bool} (begun : basebitVals ≠ []) :
    settle (state.withBits basebitVals) = state.withBits basebitVals :=
  if_pos (List.length_pos_of_ne_nil begun)

/-- A saved half-bit that does not complete the packet. -/
theorem map_saveBit_of_incomplete {α : Type} {basebitVals : List Bool} {b : Bool}
    (incomplete : basebitVals.length + 1 ≠ 2 * symbolsPerMsg) (complete next : List Bool → α) :
    (saveBit basebitVals b).map (fun saved =>
      if saved.length = 2 * symbolsPerMsg then complete saved else next saved) =
      (saveBit basebitVals b).map next := by
  unfold saveBit
  split
  · rw [Option.map_some, Option.map_some, List.length_append, List.length_singleton,
      if_neg incomplete]
  · rfl

/-- A bit of the packet. The sample number plays no part any more. -/
theorem updateState_packet {b : Bool} (high : state.highFreqSet = true)
    (low : state.lowFreqSet = true) (current : state.currState = state.basebitVals.length)
    (begun : 2 ≤ state.basebitVals.length) :
    updateState state b sampleNum =
      if fitsPacket state.basebitVals b then
        (saveBit state.basebitVals b).map fun basebitVals =>
          if basebitVals.length = 2 * symbolsPerMsg then publish (state.withBits basebitVals)
          else (state.withBits basebitVals, false)
      else .some (State.resetVars, false) := by
  have elsewhere : state.currState ≠ -3 := by omega
  have whole : updateState state b sampleNum =
      collect state b sampleNum state.basebitVals.length := by
    unfold updateState seekHigh seekLow
    simp only [high, low, Bool.not_true, Bool.and_self, Bool.and_false, Bool.false_eq_true,
      if_false, elsewhere]
  rw [whole]
  unfold collect fitsPacket saveBitOnly
  rw [if_pos (show (state.highFreqSet && state.lowFreqSet) = true by rw [high, low]; rfl)]
  simp only [Option.map_map]
  by_cases third : state.basebitVals.length = 3
  · have odd : state.basebitVals.length + 1 ≠ 2 * symbolsPerMsg := by
      rw [third]
      decide
    rw [if_pos (Or.inr third), if_pos third, map_saveBit_of_incomplete odd]
    rfl
  rw [if_neg (by omega), if_neg third]
  by_cases second : state.basebitVals.length = 2
  · have odd : state.basebitVals.length + 1 ≠ 2 * symbolsPerMsg := by
      rw [second]
      decide
    rw [if_pos (Or.inr second), if_pos second, map_saveBit_of_incomplete odd]
    rfl
  rw [if_neg (by omega), if_neg second]
  by_cases half : state.basebitVals.length % 2 = 1
  · rw [if_pos half, if_pos half]
    simp only [Bool.or_eq_true, decide_eq_true_eq]
    split
    · refine Option.map_congr fun saved member => ?_
      have begun := (saveBit_eq_some.mp member).2
      have settled : settle (state.withBits saved) = state.withBits saved :=
        settle_withBits state (begun ▸ List.concat_ne_nil _ _)
      exact if_congr Iff.rfl rfl (congrArg (·, false) settled)
    · rfl
  · have odd : state.basebitVals.length + 1 ≠ 2 * symbolsPerMsg := by
      unfold symbolsPerMsg
      omega
    rw [if_neg half, if_neg half, map_saveBit_of_incomplete odd]
    rfl

end Calls

end FcTpms.Liquid
