import FcTpms.Legacy.LiquidAnalysis

/-!
# Sample numbers of the decoder of `liquid_analysis.c`

The decoder uses sample numbers only to measure how long ago a period of the prelude began. If
other numbers are passed, each call does the same as before as long as the new numbers keep the
distance to that beginning and do not turn it into 0, which stands for a period that has not begun.
-/

namespace FcTpms.Liquid

open Decoder Legacy

/-- The state that stands for another one under other sample numbers. -/
def State.renumber (number : ℕ → ℕ) (state : State) : State :=
  { state with
    preludeHfStart := number state.preludeHfStart
    preludeLfStart := number state.preludeLfStart }

/-- A call's reply under other sample numbers. -/
def renumberReply (number : ℕ → ℕ) : Reply → Reply :=
  Option.map fun reply => (reply.1.renumber number, reply.2)

/-- The sample with which the period began that a call of `update_state` measures. -/
def reference (state : State) (b : Bool) (sampleNum : ℕ) : Option ℕ :=
  if !state.highFreqSet && !state.lowFreqSet then
    if b then .some (startedAt state.preludeHfStart sampleNum) else none
  else if state.highFreqSet && !state.lowFreqSet then
    .some (if b then state.preludeHfStart else startedAt state.preludeLfStart sampleNum)
  else if state.currState = -3 ∨ state.basebitVals = [] then .some state.preludeLfStart
  else none

/-- Other numbers for the beginning of a period and for a later sample keep their distance. -/
def KeepsDistance (number : ℕ → ℕ) (start sampleNum : ℕ) : Prop :=
  (number start = unk → start = unk) ∧ number start + sampleNum = number sampleNum + start

section Renumber

variable {number : ℕ → ℕ} {start sampleNum : ℕ}

/-- The windows depend on distances only. -/
theorem KeepsDistance.inWindow (keeps : KeepsDistance number start sampleNum) :
    inWindow (number start) (number sampleNum) = Liquid.inWindow start sampleNum := by
  have distance := keeps.2
  unfold Liquid.inWindow
  rw [Bool.eq_iff_iff]
  simp only [Bool.and_eq_true, decide_eq_true_eq]
  omega

/-- The beginning of a period under other numbers. -/
theorem KeepsDistance.startedAt (unset : number unk = unk)
    (keeps : KeepsDistance number (startedAt start sampleNum) sampleNum) :
    startedAt (number start) (number sampleNum) = number (Liquid.startedAt start sampleNum) := by
  unfold Liquid.startedAt at keeps ⊢
  by_cases new : start = unk
  · rw [new, unset, if_pos rfl, if_pos rfl]
  · rw [if_neg new] at keeps ⊢
    exact if_neg fun lost => new (keeps.1 lost)

theorem resetVars_renumber (unset : number unk = unk) :
    State.resetVars.renumber number = State.resetVars := by
  unfold State.renumber State.resetVars
  rw [unset]

variable {state : State} {b : Bool}

/-- The high period of the prelude. -/
theorem seekHigh_renumber (unset : number unk = unk)
    (keeps : state.highFreqSet = false → state.lowFreqSet = false → b = true →
      KeepsDistance number (startedAt state.preludeHfStart sampleNum) sampleNum) :
    seekHigh (state.renumber number) b (number sampleNum) =
      (seekHigh state b sampleNum).renumber number := by
  obtain ⟨currState, high, low, hfStart, lfStart, basebitVals, validPkt, symbols⟩ := state
  unfold seekHigh
  cases high with
  | true => rfl
  | false =>
    cases low with
    | true => rfl
    | false =>
      cases b with
      | false => exact (resetVars_renumber unset).symm
      | true =>
        have measured := keeps rfl rfl rfl
        have began := measured.startedAt unset
        show State.mk (-1) (inWindow (startedAt (number hfStart) (number sampleNum))
          (number sampleNum)) false (startedAt (number hfStart) (number sampleNum)) _ _ _ _ = _
        rw [began, measured.inWindow]
        rfl

/-- The low period of the prelude. -/
theorem seekLow_renumber (unset : number unk = unk)
    (keeps : state.highFreqSet = true → state.lowFreqSet = false → KeepsDistance number
      (if b then state.preludeHfStart else startedAt state.preludeLfStart sampleNum) sampleNum) :
    seekLow (state.renumber number) b (number sampleNum) =
      ((seekLow state b sampleNum).1.renumber number, (seekLow state b sampleNum).2) := by
  obtain ⟨currState, high, low, hfStart, lfStart, basebitVals, validPkt, symbols⟩ := state
  unfold seekLow
  cases high with
  | false => rfl
  | true =>
    cases low with
    | true => rfl
    | false =>
      have measured := keeps rfl rfl
      cases b with
      | false =>
        have began := measured.startedAt unset
        have same : inWindow (number (startedAt lfStart sampleNum)) (number sampleNum) =
            inWindow (startedAt lfStart sampleNum) sampleNum := measured.inWindow
        show (State.mk (if inWindow (startedAt (number lfStart) (number sampleNum))
          (number sampleNum) then -3 else -2) true
          (inWindow (startedAt (number lfStart) (number sampleNum)) (number sampleNum)) _
          (startedAt (number lfStart) (number sampleNum)) _ _ _, true) = _
        rw [began, same]
        rfl
      | true =>
        have same : inWindow (number hfStart) (number sampleNum) = inWindow hfStart sampleNum :=
          measured.inWindow
        show (if inWindow (number hfStart) (number sampleNum) then _ else _) = _
        rw [same]
        cases inWindow hfStart sampleNum with
        | true => rfl
        | false => exact congrArg (·, true) (resetVars_renumber unset).symm

/-- `SAVE_BIT_ONLY` takes no sample number. -/
theorem saveBitOnly_renumber :
    saveBitOnly (state.renumber number) b = (saveBitOnly state b).map (·.renumber number) := by
  unfold saveBitOnly
  rw [Option.map_map]
  rfl

theorem settle_renumber : settle (state.renumber number) = (settle state).renumber number := by
  unfold settle
  rw [apply_ite (State.renumber number)]
  rfl

theorem publish_renumber (unset : number unk = unk) :
    publish (state.renumber number) =
      ((publish state).1.renumber number, (publish state).2) := by
  unfold publish
  dsimp only [State.renumber]
  split
  · rfl
  · exact congrArg (·, false) (resetVars_renumber unset).symm

/-- A half-bit that is saved without more. -/
theorem saved_renumber (number : ℕ → ℕ) (state : State) (b : Bool) :
    (saveBitOnly (state.renumber number) b).map (·, false) =
      renumberReply number ((saveBitOnly state b).map (·, false)) := by
  unfold renumberReply
  rw [saveBitOnly_renumber, Option.map_map, Option.map_map]
  rfl

theorem reset_renumber (unset : number unk = unk) :
    (.some (State.resetVars, false) : Reply) =
      renumberReply number (.some (State.resetVars, false)) := by
  unfold renumberReply
  rw [Option.map_some, resetVars_renumber unset]

/-- The half-bit that may complete the packet. -/
theorem completed_renumber (unset : number unk = unk) (state : State) (b : Bool) :
    ((saveBitOnly (state.renumber number) b).map fun saved =>
        if saved.basebitVals.length = 2 * symbolsPerMsg then publish saved
        else (settle saved, false)) =
      renumberReply number ((saveBitOnly state b).map fun saved =>
        if saved.basebitVals.length = 2 * symbolsPerMsg then publish saved
        else (settle saved, false)) := by
  unfold renumberReply
  rw [saveBitOnly_renumber, Option.map_map, Option.map_map]
  refine congrArg (Option.map · (saveBitOnly state b)) (funext fun saved => ?_)
  have size : (saved.renumber number).basebitVals = saved.basebitVals := rfl
  rw [Function.comp_apply, Function.comp_apply, size, publish_renumber unset, settle_renumber]
  split <;> rfl

/-- The half-bits of the packet. -/
theorem collect_renumber (unset : number unk = unk) (state : State) {bitInProcess : ℕ}
    (keeps : bitInProcess = 0 → state.highFreqSet = true → state.lowFreqSet = true →
      KeepsDistance number state.preludeLfStart sampleNum) :
    collect (state.renumber number) b (number sampleNum) bitInProcess =
      renumberReply number (collect state b sampleNum bitInProcess) := by
  unfold collect
  by_cases collecting : (state.highFreqSet && state.lowFreqSet) = true
  · obtain ⟨high, low⟩ := (Bool.and_eq_true _ _).mp collecting
    have order : bitInProcess = 0 ∧ (state.renumber number).preludeLfStart ≤ number sampleNum ∨
        bitInProcess = 3 ↔ bitInProcess = 0 ∧ state.preludeLfStart ≤ sampleNum ∨
        bitInProcess = 3 := by
      refine or_congr_left (and_congr_right fun first => ?_)
      have distance : number state.preludeLfStart + sampleNum = _ := (keeps first high low).2
      show number state.preludeLfStart ≤ number sampleNum ↔ _
      omega
    have both :
        ((state.renumber number).highFreqSet && (state.renumber number).lowFreqSet) = true :=
      collecting
    have half : (state.renumber number).basebitVals = state.basebitVals := rfl
    have saved := saved_renumber number { state with currState := bitInProcess } b
    have completed := completed_renumber unset { state with currState := bitInProcess } b
    have restart := reset_renumber unset
    rw [if_pos collecting, if_pos both]
    dsimp only
    by_cases lowBit : bitInProcess = 0 ∧ state.preludeLfStart ≤ sampleNum ∨ bitInProcess = 3
    · rw [if_pos lowBit, if_pos (order.mpr lowBit)]
      by_cases fits : (!b) = true
      · rw [if_pos fits, if_pos fits]
        exact saved
      · rw [if_neg fits, if_neg fits]
        exact restart
    rw [if_neg lowBit, if_neg (mt order.mp lowBit)]
    by_cases highBit : bitInProcess = 1 ∨ bitInProcess = 2
    · rw [if_pos highBit, if_pos highBit]
      by_cases fits : b = true
      · rw [if_pos fits, if_pos fits]
        exact saved
      · rw [if_neg fits, if_neg fits]
        exact restart
    rw [if_neg highBit, if_neg highBit]
    by_cases second : bitInProcess % 2 = 1
    · rw [if_pos second, if_pos second, half]
      by_cases fits : 136 < bitInProcess ∨ differsFromLast state.basebitVals bitInProcess b = true
      · rw [if_pos fits, if_pos fits]
        exact completed
      · rw [if_neg fits, if_neg fits]
        exact restart
    · rw [if_neg second, if_neg second]
      exact saved
  · have neither : ¬((state.renumber number).highFreqSet &&
        (state.renumber number).lowFreqSet) = true := collecting
    rw [if_neg collecting, if_neg neither, settle_renumber]
    rfl

/-- The low period is measured from the same sample when the high period ends in the same call. -/
theorem reference_seekHigh (high : (seekHigh state b sampleNum).highFreqSet = true)
    (low : (seekHigh state b sampleNum).lowFreqSet = false) :
    reference state b sampleNum = .some (if b then (seekHigh state b sampleNum).preludeHfStart
      else startedAt (seekHigh state b sampleNum).preludeLfStart sampleNum) := by
  obtain ⟨currState, highSet, lowSet, hfStart, lfStart, basebitVals, validPkt, symbols⟩ := state
  cases highSet with
  | true =>
    cases lowSet with
    | true => cases low
    | false => rfl
  | false =>
    cases lowSet with
    | true => cases low
    | false =>
      cases b with
      | true => rfl
      | false => cases high

/-- The part of a call that comes after the first two sees a high bit in the low period, or a
packet, only if the call began so. -/
theorem seekLow_seekHigh {later : State}
    (reached : seekLow (seekHigh state b sampleNum) b sampleNum = (later, true))
    (beyond : later.currState = -3 ∧ b = true ∨
      later.currState ≠ -3 ∧ later.highFreqSet = true ∧ later.lowFreqSet = true) :
    later = state ∧ state.lowFreqSet = true := by
  obtain ⟨currState, high, low, hfStart, lfStart, basebitVals, validPkt, symbols⟩ := state
  unfold seekLow seekHigh at reached
  cases low with
  | true => cases high <;> simp_all
  | false =>
    exfalso
    cases high <;> cases b <;> grind [State.resetVars]

/-- One call. -/
theorem updateState_renumber (unset : number unk = unk)
    (keeps : ∀ start, reference state b sampleNum = .some start →
      KeepsDistance number start sampleNum) :
    updateState (state.renumber number) b (number sampleNum) =
      renumberReply number (updateState state b sampleNum) := by
  have first : seekHigh (state.renumber number) b (number sampleNum) =
      (seekHigh state b sampleNum).renumber number := by
    refine seekHigh_renumber unset fun high low one => keeps _ ?_
    unfold reference
    rw [high, low, one]
    rfl
  have second : seekLow ((seekHigh state b sampleNum).renumber number) b (number sampleNum) =
      ((seekLow (seekHigh state b sampleNum) b sampleNum).1.renumber number,
        (seekLow (seekHigh state b sampleNum) b sampleNum).2) := by
    exact seekLow_renumber unset fun high low => keeps _ (reference_seekHigh high low)
  have third (later : State) (low : later = state ∧ state.lowFreqSet = true)
      (measured : state.currState = -3 ∨ state.basebitVals = []) :
      KeepsDistance number later.preludeLfStart sampleNum := by
    refine keeps _ ?_
    unfold reference
    rw [low.1, low.2, Bool.not_true, Bool.and_false, Bool.and_false, if_neg Bool.false_ne_true,
      if_neg Bool.false_ne_true, if_pos measured]
  unfold updateState
  rw [first, second]
  cases reached : seekLow (seekHigh state b sampleNum) b sampleNum with
  | mk later goesOn =>
    cases goesOn with
    | false => rfl
    | true =>
      dsimp only
      have current : (later.renumber number).currState = later.currState := rfl
      have size : (state.renumber number).basebitVals = state.basebitVals := rfl
      have start : (later.renumber number).preludeLfStart = number later.preludeLfStart := rfl
      rw [current, size, start]
      by_cases ready : later.currState = -3
      · rw [if_pos ready, if_pos ready]
        cases b with
        | false => rfl
        | true =>
          have began := seekLow_seekHigh reached (Or.inl ⟨ready, rfl⟩)
          have same := (third later began (Or.inl (began.1 ▸ ready))).inWindow
          simp only [Bool.not_true, Bool.false_eq_true, if_false, same]
          cases inWindow later.preludeLfStart sampleNum with
          | false => exact reset_renumber unset
          | true =>
            have held : (later.renumber number).basebitVals = later.basebitVals := rfl
            rw [if_pos rfl, if_pos rfl, held]
            cases saveBit later.basebitVals false with
            | none => rfl
            | some saved =>
              exact collect_renumber unset { later with basebitVals := saved }
                fun empty => absurd empty (Nat.succ_ne_zero _)
      · rw [if_neg ready, if_neg ready]
        refine collect_renumber unset later fun empty high low => ?_
        have began := seekLow_seekHigh reached (Or.inr ⟨ready, high, low⟩)
        exact third later began (Or.inr (List.eq_nil_of_length_eq_zero empty))

end Renumber

/-! ## Where the measured periods begin -/

/-- The beginnings of the periods, where they are set, lie between the first sample number of a
run and the last one. -/
structure Placed (first last : ℕ) (state : State) : Prop where
  /-- A high period that has begun did so in the run. -/
  high : state.preludeHfStart = unk ∨ first ≤ state.preludeHfStart
  /-- A low period that has begun did so in the run. -/
  low : state.preludeLfStart = unk ∨ first ≤ state.preludeLfStart
  /-- A high period that was long enough has begun. -/
  highBegan : state.highFreqSet = true → state.preludeHfStart ≠ unk
  /-- A low period that was long enough has begun. -/
  lowBegan : state.lowFreqSet = true → state.preludeLfStart ≠ unk
  /-- No high period begins in the future. -/
  highPast : state.preludeHfStart ≤ last
  /-- No low period begins in the future. -/
  lowPast : state.preludeLfStart ≤ last

section Placed

variable {first last sampleNum start : ℕ} {state later : State} {b : Bool}

theorem placed_resetVars : Placed first last State.resetVars :=
  ⟨Or.inl rfl, Or.inl rfl, fun set => (nomatch set), fun set => (nomatch set), Nat.zero_le _,
    Nat.zero_le _⟩

theorem placed_initial : Placed first last State.initial :=
  ⟨Or.inl rfl, Or.inl rfl, fun set => (nomatch set), fun set => (nomatch set), Nat.zero_le _,
    Nat.zero_le _⟩

/-- Later samples are as good. -/
theorem Placed.mono (placed : Placed first last state) (ordered : last ≤ sampleNum) :
    Placed first sampleNum state :=
  ⟨placed.high, placed.low, placed.highBegan, placed.lowBegan,
    Nat.le_trans placed.highPast ordered, Nat.le_trans placed.lowPast ordered⟩

/-- Other variables play no part. -/
theorem Placed.congr (placed : Placed first last state)
    (hfStart : later.preludeHfStart = state.preludeHfStart)
    (lfStart : later.preludeLfStart = state.preludeLfStart)
    (high : later.highFreqSet = state.highFreqSet) (low : later.lowFreqSet = state.lowFreqSet) :
    Placed first last later := by
  refine ⟨?_, ?_, ?_, ?_, ?_, ?_⟩
  · rw [hfStart]
    exact placed.high
  · rw [lfStart]
    exact placed.low
  · rw [hfStart, high]
    exact placed.highBegan
  · rw [lfStart, low]
    exact placed.lowBegan
  · rw [hfStart]
    exact placed.highPast
  · rw [lfStart]
    exact placed.lowPast

/-- A beginning that is set now, or was set before. -/
theorem startedAt_placed (begun : first ≤ sampleNum)
    (before : start = unk ∨ first ≤ start) (past : start ≤ sampleNum) :
    first ≤ startedAt start sampleNum ∧ startedAt start sampleNum ≤ sampleNum := by
  unfold startedAt unk at *
  split <;> omega

/-- What a call measures from. -/
theorem Placed.reference (placed : Placed first sampleNum state)
    (begun : first ≤ sampleNum) (measured : reference state b sampleNum = .some start) :
    first ≤ start ∧ start ≤ sampleNum := by
  have highStart := startedAt_placed begun placed.high placed.highPast
  have lowStart := startedAt_placed begun placed.low placed.lowPast
  unfold Liquid.reference at measured
  cases low : state.lowFreqSet with
  | true =>
    have began := placed.low.resolve_left (placed.lowBegan low)
    rw [low, Bool.not_true, Bool.and_false, Bool.and_false, if_neg Bool.false_ne_true,
      if_neg Bool.false_ne_true] at measured
    split at measured
    · rw [← Option.some.inj measured]
      exact ⟨began, placed.lowPast⟩
    · cases measured
  | false =>
    cases high : state.highFreqSet with
    | true =>
      have began := placed.high.resolve_left (placed.highBegan high)
      rw [low, high] at measured
      rw [← Option.some.inj measured]
      cases b with
      | true => exact ⟨began, placed.highPast⟩
      | false => exact lowStart
    | false =>
      rw [low, high] at measured
      cases b with
      | true =>
        rw [← Option.some.inj measured]
        exact highStart
      | false => cases measured

/-- The high period of the prelude. -/
theorem Placed.seekHigh (placed : Placed first sampleNum state) (positive : 0 < first)
    (begun : first ≤ sampleNum) : Placed first sampleNum (seekHigh state b sampleNum) := by
  have start := startedAt_placed begun placed.high placed.highPast
  unfold Liquid.seekHigh
  split
  · split
    · exact ⟨Or.inr start.1, placed.low, fun _ unset => absurd start.1 (by
        rw [show startedAt _ _ = 0 from unset]
        omega), placed.lowBegan, start.2, placed.lowPast⟩
    · exact placed_resetVars
  · exact placed

/-- The low period of the prelude. -/
theorem Placed.seekLow (placed : Placed first sampleNum state) (positive : 0 < first)
    (begun : first ≤ sampleNum) : Placed first sampleNum (seekLow state b sampleNum).1 := by
  have start := startedAt_placed begun placed.low placed.lowPast
  unfold Liquid.seekLow
  split
  · split
    · exact ⟨placed.high, Or.inr start.1, placed.highBegan, fun _ unset => absurd start.1 (by
        rw [show startedAt _ _ = 0 from unset]
        omega), placed.highPast, start.2⟩
    · split
      · exact placed.congr rfl rfl rfl rfl
      · exact placed_resetVars
  · exact placed

/-- A saved half-bit. -/
theorem Placed.saveBitOnly (placed : Placed first last state)
    (saved : saveBitOnly state b = .some later) : Placed first last later := by
  obtain ⟨basebitVals, -, rfl⟩ := Option.map_eq_some_iff.mp saved
  exact placed.congr rfl rfl rfl rfl

theorem Placed.settle (placed : Placed first last state) : Placed first last (settle state) := by
  unfold Liquid.settle
  split
  · exact placed.congr rfl rfl rfl rfl
  · exact placed

/-- The half-bit that may complete the packet. -/
theorem Placed.completed (placed : Placed first last state) {done : Bool}
    (reply : (if state.basebitVals.length = 2 * symbolsPerMsg then publish state
      else (Liquid.settle state, false)) = (later, done)) : Placed first last later := by
  unfold publish at reply
  dsimp only at reply
  split at reply
  · split at reply
    · cases reply
      exact placed.congr rfl rfl rfl rfl
    · cases reply
      exact placed_resetVars
  · cases reply
    exact placed.settle

/-- The half-bits of the packet. -/
theorem Placed.collect (placed : Placed first last state) {bitInProcess : ℕ} {done : Bool}
    (reply : collect state b sampleNum bitInProcess = .some (later, done)) :
    Placed first last later := by
  have current : Placed first last { state with currState := bitInProcess } :=
    placed.congr rfl rfl rfl rfl
  have only (reply : (Liquid.saveBitOnly { state with currState := bitInProcess } b).map
      (·, false) = .some (later, done)) : Placed first last later := by
    obtain ⟨saved, kept, same⟩ := Option.map_eq_some_iff.mp reply
    cases same
    exact current.saveBitOnly kept
  have restart (reply : (.some (State.resetVars, false) : Reply) = .some (later, done)) :
      Placed first last later := by
    cases reply
    exact placed_resetVars
  unfold Liquid.collect at reply
  dsimp only at reply
  split at reply
  · split at reply
    · split at reply
      · exact only reply
      · exact restart reply
    · split at reply
      · split at reply
        · exact only reply
        · exact restart reply
      · split at reply
        · split at reply
          · obtain ⟨saved, kept, same⟩ := Option.map_eq_some_iff.mp reply
            exact (current.saveBitOnly kept).completed same
          · exact restart reply
        · exact only reply
  · cases reply
    exact placed.settle

/-- One call. -/
theorem Placed.updateState (placed : Placed first last state) (positive : 0 < first)
    (begun : first ≤ sampleNum) (ordered : last ≤ sampleNum) {done : Bool}
    (reply : updateState state b sampleNum = .some (later, done)) :
    Placed first sampleNum later := by
  have soFar := ((placed.mono ordered).seekHigh (b := b) positive begun).seekLow (b := b)
    positive begun
  unfold Liquid.updateState at reply
  cases reached : Liquid.seekLow (Liquid.seekHigh state b sampleNum) b sampleNum with
  | mk between goesOn =>
    rw [reached] at reply soFar
    cases goesOn with
    | false =>
      cases reply
      exact soFar
    | true =>
      dsimp only at reply soFar
      split at reply
      · split at reply
        · cases reply
          exact soFar
        · split at reply
          · obtain ⟨saved, -, collected⟩ := Option.bind_eq_some_iff.mp reply
            have held : Placed first sampleNum { between with basebitVals := saved } :=
              soFar.congr rfl rfl rfl rfl
            exact held.collect collected
          · cases reply
            exact placed_resetVars
      · exact soFar.collect reply

end Placed

end FcTpms.Liquid
