import FcTpms.Legacy.Process

/-!
# What the older decoders publish

Both decoders keep one invariant: nothing is collected before both frequencies are set, and the
half-bits of every complete symbol but the last differ. From it follow what a published packet
looks like and when the half-bit string stays within its buffer.
-/

namespace FcTpms

open Decoder Legacy

namespace Legacy

/-- The half-bits of a packet that is being received: it begins with `011`, and the half-bits of
every symbol but the last differ. -/
structure Begun (basebitVals : List Bool) : Prop where
  /-- The first half-bits. -/
  preamble : basebitVals.take 3 <+: [false, true, true]
  /-- The half-bits of a symbol differ. -/
  paired : Paired basebitVals

/-- The first half-bits of a packet. -/
theorem begun_preamble {basebitVals : List Bool} (start : basebitVals <+: [false, true, true]) :
    Begun basebitVals := by
  obtain ⟨rest, whole⟩ := start
  have short : basebitVals.length ≤ 3 := by
    have total := congrArg List.length whole
    rw [List.length_append] at total
    change basebitVals.length + rest.length = 3 at total
    omega
  refine ⟨⟨rest, by rw [List.take_of_length_le short, whole]⟩, fun index _ inside => ?_⟩
  have first : index = 0 := by omega
  have zero := congrArg (·[0]?) whole
  have one := congrArg (·[1]?) whole
  rw [List.getElem?_append_left (by omega)] at zero one
  rw [first, zero, one]
  decide

/-- The half-bits of a packet with one more. -/
theorem Begun.append {basebitVals : List Bool} (begun : Begun basebitVals) {b : Bool}
    (long : 3 ≤ basebitVals.length) (fits : basebitVals.length % 2 = 1 →
      basebitVals.length > 136 ∨ differsFromLast basebitVals basebitVals.length b = true) :
    Begun (basebitVals ++ [b]) where
  preamble := by
    rw [List.take_append_of_le_length long]
    exact begun.preamble
  paired := by
    by_cases odd : basebitVals.length % 2 = 1
    · exact begun.paired.second b (fits odd)
    · exact begun.paired.first (by omega) b

/-- A half-bit string of length three. -/
theorem Begun.third {basebitVals : List Bool} (begun : Begun basebitVals)
    (length : basebitVals.length = 3) : basebitVals = [false, true, true] := by
  have start := begun.preamble
  rw [List.take_of_length_le (Nat.le_of_eq length)] at start
  exact start.eq_of_length length

/-- A half-bit string of length two. -/
theorem Begun.second {basebitVals : List Bool} (begun : Begun basebitVals)
    (length : basebitVals.length = 2) : basebitVals = [false, true] := by
  have start := begun.preamble
  rw [List.take_of_length_le (by omega)] at start
  exact List.prefix_iff_eq_take.mp start ▸ by rw [length]; rfl

/-- After `011` comes `0`. -/
theorem differsFromLast_third : differsFromLast [false, true, true] 3 false = true := by decide

end Legacy

/-! ## `liquid_analysis.c` -/

namespace Liquid

/-- The invariant of the decoder. -/
structure Sound (state : State) : Prop where
  /-- The low period comes after the high one. -/
  order : state.lowFreqSet = true → state.highFreqSet = true
  /-- After the low period the decoder waits for the packet. -/
  waiting : state.basebitVals = [] → state.lowFreqSet = true → state.currState = -3
  /-- Half-bits are collected after both periods, two at first, and counted by `curr_state`. -/
  collecting : state.basebitVals ≠ [] → state.lowFreqSet = true ∧ 2 ≤ state.basebitVals.length ∧
    state.currState = state.basebitVals.length
  /-- The half-bits are those of a packet. -/
  begun : Begun state.basebitVals

/-- A decoder that has no half-bits is sound if its flags and its state fit together. -/
theorem sound_of_empty {state : State} (empty : state.basebitVals = [])
    (order : state.lowFreqSet = true → state.highFreqSet = true)
    (waiting : state.lowFreqSet = true → state.currState = -3) : Sound state where
  order := order
  waiting _ := waiting
  collecting impossible := absurd empty impossible
  begun := empty ▸ begun_preamble List.nil_prefix

/-- A decoder that starts over. -/
theorem sound_resetVars : Sound State.resetVars :=
  sound_of_empty rfl id fun impossible => by cases impossible

/-- A decoder that collects. -/
theorem sound_of_collected {state : State} (high : state.highFreqSet = true)
    (low : state.lowFreqSet = true) (long : 2 ≤ state.basebitVals.length)
    (current : state.currState = state.basebitVals.length) (begun : Begun state.basebitVals) :
    Sound state where
  order _ := high
  waiting empty := by
    rw [empty] at long
    exact absurd long (by decide)
  collecting _ := ⟨low, long, current⟩
  begun := begun

/-- A half-bit that fits continues the packet. -/
theorem begun_of_fits {basebitVals : List Bool} {b : Bool} (begun : Begun basebitVals)
    (long : 2 ≤ basebitVals.length) (fits : fitsPacket basebitVals b = true) :
    Begun (basebitVals ++ [b]) := by
  unfold fitsPacket at fits
  by_cases third : basebitVals.length = 3
  · rw [if_pos third, Bool.not_eq_true'] at fits
    refine begun.append (by omega) fun _ => Or.inr ?_
    rw [third, begun.third third, fits]
    exact differsFromLast_third
  rw [if_neg third] at fits
  by_cases second : basebitVals.length = 2
  · rw [if_pos second] at fits
    rw [begun.second second, fits]
    exact begun_preamble (List.prefix_refl _)
  rw [if_neg second] at fits
  refine begun.append (by omega) fun odd => ?_
  rw [if_pos odd, Bool.or_eq_true, decide_eq_true_eq] at fits
  exact fits

/-- One call of a decoder that has no half-bits. -/
theorem Sound.waits {state : State} (sound : Sound state) (empty : state.basebitVals = [])
    (b : Bool) (sampleNum : ℕ) :
    ∃ later, updateState state b sampleNum = some (later, false) ∧ Sound later ∧
      (later.basebitVals = [] ∨ later.basebitVals = [false, true]) := by
  cases high : state.highFreqSet with
  | false =>
    have low : state.lowFreqSet = false := by
      rw [← Bool.not_eq_true]
      intro set
      rw [sound.order set] at high
      cases high
    cases b with
    | false => exact ⟨_, updateState_low_first high low, sound_resetVars, Or.inl rfl⟩
    | true =>
      have unset : ∀ {anything : Prop}, state.lowFreqSet = true → anything := by
        intro anything set
        rw [low] at set
        cases set
      exact ⟨_, updateState_high_first high low empty, sound_of_empty empty unset unset,
        Or.inl empty⟩
  | true =>
    cases low : state.lowFreqSet with
    | false =>
      cases b with
      | false =>
        refine ⟨_, updateState_low_second high low empty, sound_of_empty empty (fun _ => high)
          fun measured => ?_, Or.inl empty⟩
        exact if_pos measured
      | true =>
        refine ⟨_, updateState_high_second high low, ?_⟩
        split
        · refine ⟨sound_of_empty empty (fun _ => high) fun set => ?_, Or.inl empty⟩
          change state.lowFreqSet = true at set
          rw [low] at set
          cases set
        · exact ⟨sound_resetVars, Or.inl rfl⟩
    | true =>
      have ready := sound.waiting empty low
      cases b with
      | false => exact ⟨_, updateState_low_third high low ready, sound, Or.inl empty⟩
      | true =>
        refine ⟨_, updateState_high_third high low ready empty, ?_⟩
        split
        · have begun : Begun [false, true] := begun_preamble ⟨[true], rfl⟩
          exact ⟨sound_of_collected high low (Nat.le_refl 2) rfl begun, Or.inr rfl⟩
        · exact ⟨sound_resetVars, Or.inl rfl⟩

/-- A complete packet is published, or the decoder starts over. -/
theorem publish_cases (state : State) :
    publish state = (State.resetVars, false) ∨ publish state =
      ({ state with symbols := decodedSymbols state.basebitVals, validPkt := true }, true) := by
  unfold publish
  dsimp only
  split
  · exact Or.inr rfl
  · exact Or.inl rfl

/-- What one call makes of the half-bits of a packet. -/
structure Advances (state : State) (b : Bool) (later : State) (found : Bool) : Prop where
  /-- The invariant is kept. -/
  sound : Sound later
  /-- The decoder starts over or takes the half-bit. -/
  bits : later.basebitVals = [] ∨ later.basebitVals = state.basebitVals ++ [b]
  /-- A complete string is published or given up. -/
  complete : found = false → later.basebitVals.length ≠ 2 * symbolsPerMsg
  /-- What is published is a packet. -/
  published : found = true → Published later.basebitVals later.symbols

/-- One call of a decoder that starts over. -/
theorem advances_resetVars (state : State) (b : Bool) :
    Advances state b State.resetVars false where
  sound := sound_resetVars
  bits := Or.inl rfl
  complete _ := by decide
  published impossible := by cases impossible

/-- One call of a decoder that has collected half-bits. -/
theorem Sound.collects {state later : State} {found : Bool} (sound : Sound state)
    (started : state.basebitVals ≠ []) {b : Bool} {sampleNum : ℕ}
    (called : updateState state b sampleNum = some (later, found)) :
    Advances state b later found := by
  obtain ⟨low, long, current⟩ := sound.collecting started
  have high := sound.order low
  rw [updateState_packet high low current long] at called
  split at called
  · rename_i fits
    obtain ⟨saved, kept, reply⟩ := Option.map_eq_some_iff.mp called
    have begun := begun_of_fits sound.begun long fits
    rw [← (saveBit_eq_some.mp kept).2] at begun
    have longer : 2 ≤ saved.length := by
      rw [(saveBit_eq_some.mp kept).2, List.length_append]
      omega
    split at reply
    · rename_i complete
      rcases publish_cases (state.withBits saved) with reset | published
      · rw [reset, Prod.mk.injEq] at reply
        obtain ⟨rfl, rfl⟩ := reply
        exact advances_resetVars state b
      · rw [published, Prod.mk.injEq] at reply
        obtain ⟨rfl, rfl⟩ := reply
        exact
          { sound := sound_of_collected high low longer rfl begun
            bits := Or.inr (saveBit_eq_some.mp kept).2
            complete := fun impossible => by cases impossible
            published := fun _ => begun.paired.published complete }
    · rename_i incomplete
      rw [Prod.mk.injEq] at reply
      obtain ⟨rfl, rfl⟩ := reply
      exact
        { sound := sound_of_collected high low longer rfl begun
          bits := Or.inr (saveBit_eq_some.mp kept).2
          complete := fun _ => incomplete
          published := fun impossible => by cases impossible }
  · rw [Option.some.injEq, Prod.mk.injEq] at called
    obtain ⟨rfl, rfl⟩ := called
    exact advances_resetVars state b

/-- An incomplete packet has room for a half-bit. -/
theorem Sound.defined {state : State} (sound : Sound state) (started : state.basebitVals ≠ [])
    (short : state.basebitVals.length < 2 * symbolsPerMsg) (b : Bool) (sampleNum : ℕ) :
    ∃ later found, updateState state b sampleNum = some (later, found) := by
  obtain ⟨low, long, current⟩ := sound.collecting started
  rw [updateState_packet (sound.order low) low current long, saveBit_of_short short]
  split
  · exact ⟨_, _, rfl⟩
  · exact ⟨_, _, rfl⟩

/-- The decoder collects packets. -/
theorem collects : liquidAnalysis.Collects Sound where
  initial := sound_of_empty rfl id fun impossible => by cases impossible
  step := by
    intro state input later found sound called
    by_cases empty : state.basebitVals = []
    · obtain ⟨later', called', sound', _⟩ := sound.waits empty input.1 input.2
      cases called'.symm.trans called
      exact sound'
    · exact (sound.collects empty called).sound
  published := by
    intro state input later sound called
    by_cases empty : state.basebitVals = []
    · obtain ⟨later', called', _, _⟩ := sound.waits empty input.1 input.2
      cases called'.symm.trans called
    · exact (sound.collects empty called).published rfl
  room := by
    intro state input sound short
    by_cases empty : state.basebitVals = []
    · obtain ⟨later, called, _, bits⟩ := sound.waits empty input.1 input.2
      refine ⟨later, false, called, ?_⟩
      rcases bits with none | two
      · change later.basebitVals.length ≤ _ ∧ (_ → later.basebitVals.length < _)
        rw [none]
        decide
      · change later.basebitVals.length ≤ _ ∧ (_ → later.basebitVals.length < _)
        rw [two]
        decide
    · obtain ⟨later, found, called⟩ := sound.defined empty short input.1 input.2
      have advances := sound.collects empty called
      have within : later.basebitVals.length ≤ 2 * symbolsPerMsg := by
        rcases advances.bits with none | one
        · rw [none]
          decide
        · rw [one, List.length_append]
          exact short
      exact ⟨later, found, called, within, fun unfound =>
        Nat.lt_of_le_of_ne within (advances.complete unfound)⟩
  quiet := by
    intro state sound unset
    have low : state.lowFreqSet = false := by
      rw [← Bool.not_eq_true]
      intro set
      have high := sound.order set
      change state.highFreqSet = false at unset
      rw [unset] at high
      cases high
    refine ⟨?_, low⟩
    by_contra started
    have set := (sound.collecting started).1
    rw [low] at set
    cases set

end Liquid

/-! ## `analyze_tpms.c` -/

namespace AnalyzeTpms

variable {F : Type} [Windowing F]

/-- The invariant of the decoder. -/
structure Sound (state : State F) : Prop where
  /-- The low period comes after the high one. -/
  order : state.lowFreqSet = true → state.highFreqSet = true
  /-- After the low period the decoder waits for the packet. -/
  waiting : state.basebitVals = [] → state.lowFreqSet = true → state.currState = -3
  /-- Half-bits are collected after both periods, three at first, and counted by `curr_state`. -/
  collecting : state.basebitVals ≠ [] → state.lowFreqSet = true ∧ 3 ≤ state.basebitVals.length ∧
    state.currState = state.basebitVals.length
  /-- The half-bits are those of a packet. -/
  begun : Begun state.basebitVals

omit [Windowing F] in
/-- A decoder that has no half-bits is sound if its flags and its state fit together. -/
theorem sound_of_empty {state : State F} (empty : state.basebitVals = [])
    (order : state.lowFreqSet = true → state.highFreqSet = true)
    (waiting : state.lowFreqSet = true → state.currState = -3) : Sound state where
  order := order
  waiting _ := waiting
  collecting impossible := absurd empty impossible
  begun := empty ▸ begun_preamble List.nil_prefix

omit [Windowing F] in
/-- A decoder that starts over. -/
theorem sound_resetVars (state : State F) : Sound (resetVars state) :=
  sound_of_empty rfl id fun impossible => by cases impossible

omit [Windowing F] in
/-- A decoder that collects. -/
theorem sound_of_collected {state : State F} (high : state.highFreqSet = true)
    (low : state.lowFreqSet = true) (long : 3 ≤ state.basebitVals.length)
    (current : state.currState = state.basebitVals.length) (begun : Begun state.basebitVals) :
    Sound state where
  order _ := high
  waiting empty := by
    rw [empty] at long
    exact absurd long (by decide)
  collecting _ := ⟨low, long, current⟩
  begun := begun

/-- In the high period nothing is collected. -/
theorem measureHigh_keeps (state : State F) (deltaPhi : F) (sampleNum : ℕ) :
    (measureHigh state deltaPhi sampleNum).basebitVals = state.basebitVals ∧
      (measureHigh state deltaPhi sampleNum).lowFreqSet = state.lowFreqSet := by
  unfold measureHigh
  dsimp only
  repeat' split
  all_goals exact ⟨rfl, rfl⟩

/-- In the low period nothing is collected, and its end is `curr_state` -3. -/
theorem measureLow_keeps (state : State F) (deltaPhi : F) (sampleNum : ℕ) :
    (measureLow state deltaPhi sampleNum).basebitVals = state.basebitVals ∧
      (measureLow state deltaPhi sampleNum).highFreqSet = state.highFreqSet ∧
        (state.lowFreqSet = false → (measureLow state deltaPhi sampleNum).lowFreqSet = true →
          (measureLow state deltaPhi sampleNum).currState = -3) := by
  unfold measureLow
  dsimp only
  repeat' split
  all_goals first
    | exact ⟨rfl, rfl, fun _ _ => rfl⟩
    | exact ⟨rfl, rfl, fun unset set => absurd (unset.symm.trans set) Bool.false_ne_true⟩

/-- One call of a decoder that has no half-bits. -/
theorem Sound.waits {state : State F} (sound : Sound state) (empty : state.basebitVals = [])
    (x prevX : Cplx F) (sampleNum : ℕ) :
    ∃ later, updateState state x prevX sampleNum = some (later, false) ∧ Sound later ∧
      (later.basebitVals = [] ∨ later.basebitVals = [false, true, true]) := by
  unfold updateState
  cases low : state.lowFreqSet with
  | false =>
    cases high : state.highFreqSet with
    | false =>
      have kept := measureHigh_keeps state (deltaPhi x prevX) sampleNum
      have unset : ∀ {anything : Prop}, (measureHigh state (deltaPhi x prevX)
          sampleNum).lowFreqSet = true → anything := by
        intro anything set
        rw [kept.2, low] at set
        cases set
      dsimp only
      simp only [Bool.not_false, Bool.and_self, if_true]
      split
      · exact ⟨_, rfl, sound, Or.inl empty⟩
      · exact ⟨_, rfl, sound_of_empty (kept.1.trans empty) unset unset,
          Or.inl (kept.1.trans empty)⟩
    | true =>
      have kept := measureLow_keeps state (deltaPhi x prevX) sampleNum
      dsimp only
      simp only [Bool.not_false, Bool.not_true, Bool.and_self, Bool.and_false, Bool.false_and,
        Bool.false_eq_true, if_true, if_false]
      split
      · exact ⟨_, rfl, sound, Or.inl empty⟩
      · exact ⟨_, rfl, sound_of_empty (kept.1.trans empty) (fun _ => kept.2.1.trans high)
          (kept.2.2 low), Or.inl (kept.1.trans empty)⟩
  | true =>
    have high := sound.order low
    have ready := sound.waiting empty low
    dsimp only
    simp only [high, Bool.not_true, Bool.and_self, Bool.and_false, Bool.false_eq_true, if_false,
      ready, if_true]
    split
    · have started : (beginPacket state sampleNum).basebitVals = [false, true, true] := rfl
      have counted : settle (beginPacket state sampleNum) =
          { beginPacket state sampleNum with currState := 3 } := rfl
      refine ⟨_, rfl, ?_, Or.inr ?_⟩
      · rw [counted]
        exact sound_of_collected high low (Nat.le_refl 3) rfl (begun_preamble (List.prefix_refl _))
      · rw [counted]
        exact started
    · have same : settle state = state := if_neg (by rw [empty]; decide)
      rw [same]
      exact ⟨_, rfl, sound, Or.inl empty⟩

omit [Windowing F] in
/-- A complete packet is published, or the decoder starts over. -/
theorem publish_cases (state : State F) :
    (∃ before, publish state = (resetVars before, false)) ∨ publish state =
      ({ state with symbols := decodedSymbols state.basebitVals, validPkt := true }, true) := by
  unfold publish
  dsimp only
  split
  · exact Or.inl ⟨_, rfl⟩
  split
  · exact Or.inl ⟨_, rfl⟩
  · exact Or.inr rfl

/-- What one call makes of the half-bits of a packet. -/
structure Advances (basebitVals : List Bool) (later : State F) (found : Bool) : Prop where
  /-- The invariant is kept. -/
  sound : Sound later
  /-- The decoder starts over, waits or takes a half-bit. -/
  bits : later.basebitVals = [] ∨ later.basebitVals = basebitVals ∨
    ∃ b, later.basebitVals = basebitVals ++ [b]
  /-- A string that becomes complete is published or given up. -/
  complete : found = false → basebitVals.length ≠ 2 * symbolsPerMsg →
    later.basebitVals.length ≠ 2 * symbolsPerMsg
  /-- What is published is a packet. -/
  published : found = true → Published later.basebitVals later.symbols

omit [Windowing F] in
/-- One call of a decoder that starts over. -/
theorem advances_resetVars (basebitVals : List Bool) (before : State F) :
    Advances basebitVals (resetVars before) false where
  sound := sound_resetVars before
  bits := Or.inl rfl
  complete _ _ := by
    change ([] : List Bool).length ≠ 2 * symbolsPerMsg
    decide
  published impossible := by cases impossible

/-- A decoder that collects half-bits. -/
structure Collecting (state : State F) : Prop where
  /-- The high period is over. -/
  high : state.highFreqSet = true
  /-- The low period is over. -/
  low : state.lowFreqSet = true
  /-- Three half-bits are there at once. -/
  long : 3 ≤ state.basebitVals.length
  /-- The half-bits are those of a packet. -/
  begun : Begun state.basebitVals

omit [Windowing F] in
/-- One call of a decoder that waits for the middle of a bit. -/
theorem Collecting.settle {state : State F} (collecting : Collecting state) :
    Advances state.basebitVals (settle state) false := by
  have settled : AnalyzeTpms.settle state =
      { state with currState := state.basebitVals.length } :=
    if_pos (by have long := collecting.long; omega)
  rw [settled]
  exact
    { sound := sound_of_collected collecting.high collecting.low collecting.long rfl
        collecting.begun
      bits := Or.inr (Or.inl rfl)
      complete := fun _ incomplete => incomplete
      published := fun impossible => by cases impossible }

/-- A decoder that has taken a half-bit. -/
theorem Collecting.saved {state saved : State F} {b : Bool} (collecting : Collecting state)
    (begun : Begun (state.basebitVals ++ [b])) (kept : saveBitOnly state b = some saved) :
    saved.basebitVals = state.basebitVals ++ [b] ∧ Collecting saved ∧
      saved.currState = saved.basebitVals.length := by
  obtain ⟨basebitVals, stored, rfl⟩ := Option.map_eq_some_iff.mp kept
  obtain ⟨_, rfl⟩ := saveBit_eq_some.mp stored
  have longer : 3 ≤ (state.basebitVals ++ [b]).length := by
    have long := collecting.long
    rw [List.length_append]
    omega
  exact ⟨rfl, ⟨collecting.high, collecting.low, longer, begun⟩, rfl⟩

/-- One call of a decoder that takes a half-bit which does not complete the packet. -/
theorem Collecting.saveBit {state later : State F} {found b : Bool}
    (collecting : Collecting state) (begun : Begun (state.basebitVals ++ [b]))
    (incomplete : state.basebitVals.length + 1 ≠ 2 * symbolsPerMsg)
    (called : (saveBitOnly state b).map (·, false) = some (later, found)) :
    Advances state.basebitVals later found := by
  obtain ⟨saved, kept, reply⟩ := Option.map_eq_some_iff.mp called
  obtain ⟨bits, next, current⟩ := collecting.saved begun kept
  obtain ⟨rfl, rfl⟩ := Prod.mk.inj reply
  exact
    { sound := sound_of_collected next.high next.low next.long current next.begun
      bits := Or.inr (Or.inr ⟨b, bits⟩)
      complete := fun _ _ => by
        rw [bits, List.length_append]
        exact incomplete
      published := fun impossible => by cases impossible }

/-- One call of a decoder that takes a half-bit which may complete the packet. -/
theorem Collecting.saveLast {state later : State F} {found b : Bool}
    (collecting : Collecting state) (begun : Begun (state.basebitVals ++ [b]))
    (called : ((saveBitOnly state b).map fun saved =>
      if saved.basebitVals.length = 2 * symbolsPerMsg then publish saved
      else (AnalyzeTpms.settle saved, false)) = some (later, found)) :
    Advances state.basebitVals later found := by
  obtain ⟨saved, kept, reply⟩ := Option.map_eq_some_iff.mp called
  obtain ⟨bits, next, current⟩ := collecting.saved begun kept
  split at reply
  · rename_i complete
    rcases publish_cases saved with ⟨before, reset⟩ | published
    · obtain ⟨rfl, rfl⟩ := Prod.mk.inj (reset.symm.trans reply)
      exact advances_resetVars state.basebitVals before
    · obtain ⟨rfl, rfl⟩ := Prod.mk.inj (published.symm.trans reply)
      exact
        { sound := sound_of_collected next.high next.low next.long current next.begun
          bits := Or.inr (Or.inr ⟨b, bits⟩)
          complete := fun impossible => by cases impossible
          published := fun _ => next.begun.paired.published complete }
  · rename_i incomplete
    obtain ⟨rfl, rfl⟩ := Prod.mk.inj reply
    have settled := next.settle
    exact
      { sound := settled.sound
        bits := Or.inr (Or.inr ⟨b, by
          rw [← bits, AnalyzeTpms.settle]
          split <;> rfl⟩)
        complete := fun unfound _ => settled.complete unfound incomplete
        published := settled.published }

/-- One call of `collect`. -/
theorem Collecting.collect {state later : State F} {found b : Bool} {sampleNum : ℕ}
    (collecting : Collecting state) (current : state.currState = state.basebitVals.length)
    (called : collect state b sampleNum state.basebitVals.length = some (later, found)) :
    Advances state.basebitVals later found := by
  have long := collecting.long
  have same : { state with currState := (state.basebitVals.length : ℤ) } = state := by
    rw [← current]
  unfold AnalyzeTpms.collect at called
  simp only [same] at called
  split at called
  · rename_i third
    have incomplete : state.basebitVals.length + 1 ≠ 2 * symbolsPerMsg := by
      rw [third]
      decide
    split at called
    · rename_i low
      refine collecting.saveBit (collecting.begun.append long fun _ => Or.inr ?_) incomplete called
      rw [Bool.not_eq_true'] at low
      rw [third, collecting.begun.third third, low]
      exact differsFromLast_third
    · obtain ⟨rfl, rfl⟩ := Prod.mk.inj (Option.some.inj called)
      exact collecting.settle
  split at called
  · split at called
    · rename_i even
      rw [Int.tmod_eq_emod_of_nonneg (Int.natCast_nonneg _)] at even
      have half : state.basebitVals.length % 2 = 0 := by omega
      refine collecting.saveBit (collecting.begun.append long fun odd => ?_) ?_ called
      · omega
      · unfold symbolsPerMsg
        omega
    · split at called
      · rename_i fits
        refine collecting.saveLast (collecting.begun.append long fun _ => ?_) called
        rw [Int.toNat_natCast] at fits
        exact fits.imp (fun beyond => by omega) id
      · obtain ⟨rfl, rfl⟩ := Prod.mk.inj (Option.some.inj called)
        exact advances_resetVars _ _
  · obtain ⟨rfl, rfl⟩ := Prod.mk.inj (Option.some.inj called)
    exact collecting.settle

/-- One call of a decoder that has collected half-bits. -/
theorem Sound.collects {state later : State F} {found : Bool} (sound : Sound state)
    (started : state.basebitVals ≠ []) {x prevX : Cplx F} {sampleNum : ℕ}
    (called : updateState state x prevX sampleNum = some (later, found)) :
    Advances state.basebitVals later found := by
  obtain ⟨low, long, current⟩ := sound.collecting started
  have high := sound.order low
  rw [updateState_packet high low (by omega)] at called
  have collecting : Collecting { state with b := bitAfter state (deltaPhi x prevX) } :=
    ⟨high, low, long, sound.begun⟩
  split at called
  · exact collecting.collect current called
  · obtain ⟨rfl, rfl⟩ := Prod.mk.inj (Option.some.inj called)
    exact collecting.settle

/-- An incomplete packet has room for a half-bit. -/
theorem Sound.defined {state : State F} (sound : Sound state) (started : state.basebitVals ≠ [])
    (short : state.basebitVals.length < 2 * symbolsPerMsg) (x prevX : Cplx F) (sampleNum : ℕ) :
    ∃ later found, updateState state x prevX sampleNum = some (later, found) := by
  obtain ⟨low, long, current⟩ := sound.collecting started
  rw [updateState_packet (sound.order low) low (by omega)]
  split
  · unfold collect saveBitOnly
    dsimp only
    rw [saveBit_of_short short]
    repeat' split
    all_goals exact ⟨_, _, rfl⟩
  · exact ⟨_, _, rfl⟩

/-- The decoder collects packets. -/
theorem collects : (analyzeTpms F).Collects Sound where
  initial := sound_of_empty rfl id fun impossible => by cases impossible
  step := by
    intro state input later found sound called
    by_cases empty : state.basebitVals = []
    · obtain ⟨later', called', sound', _⟩ := sound.waits empty input.1 input.2.1 input.2.2
      cases called'.symm.trans called
      exact sound'
    · exact (sound.collects empty called).sound
  published := by
    intro state input later sound called
    by_cases empty : state.basebitVals = []
    · obtain ⟨later', called', _, _⟩ := sound.waits empty input.1 input.2.1 input.2.2
      cases called'.symm.trans called
    · exact (sound.collects empty called).published rfl
  room := by
    intro state input sound short
    by_cases empty : state.basebitVals = []
    · obtain ⟨later, called, _, bits⟩ := sound.waits empty input.1 input.2.1 input.2.2
      refine ⟨later, false, called, ?_⟩
      change later.basebitVals.length ≤ _ ∧ (_ → later.basebitVals.length < _)
      rcases bits with none | three
      · rw [none]
        decide
      · rw [three]
        decide
    · obtain ⟨later, found, called⟩ := sound.defined empty short input.1 input.2.1 input.2.2
      have advances := sound.collects empty called
      change state.basebitVals.length < _ at short
      have within : later.basebitVals.length ≤ 2 * symbolsPerMsg := by
        rcases advances.bits with none | same | ⟨b, one⟩
        · rw [none]
          decide
        · rw [same]
          exact Nat.le_of_lt short
        · rw [one, List.length_append]
          exact short
      exact ⟨later, found, called, within, fun unfound =>
        Nat.lt_of_le_of_ne within (advances.complete unfound (Nat.ne_of_lt short))⟩
  quiet := by
    intro state sound unset
    have low : state.lowFreqSet = false := by
      rw [← Bool.not_eq_true]
      intro set
      have high := sound.order set
      change state.highFreqSet = false at unset
      rw [unset] at high
      cases high
    refine ⟨?_, low⟩
    by_contra started
    have set := (sound.collecting started).1
    rw [low] at set
    cases set

end AnalyzeTpms

end FcTpms
