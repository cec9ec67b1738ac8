import FcTpms.Legacy.StateMachine

/-!
# Buffers of `state_machine.c`

What a byte does depends on its number in the stream only, not on the buffer that it comes in. The
decoder is always in a state that has a handler, so that no call drops the rest of its buffer.
-/

namespace FcTpms.StateMachine

/-- The states that the handlers lead to. -/
def InUse (state : ℤ) : Prop :=
  state = noPkt ∨ state = hfPrelude ∨ state = 0 ∨ state = 1 ∨ state = 2

theorem inUse_resetVars (s : State) : InUse (resetVars s).currentState := .inl rfl

theorem recordFirstHalf_currentState (highFrequency : Bool) (s : State) :
    (recordFirstHalf highFrequency s).currentState = s.currentState := by
  unfold recordFirstHalf
  split <;> rfl

theorem inUse_recordSecondHalf (highFrequency : Bool) {s : State} (inUse : InUse s.currentState) :
    InUse (recordSecondHalf highFrequency s).currentState := by
  unfold recordSecondHalf
  split
  · split
    · exact inUse_resetVars s
    · exact inUse
  · exact inUse

theorem inUse_analyzeWithinBitIState (i sampleOffset : UInt32) {s : State}
    (inUse : InUse s.currentState) :
    InUse (analyzeWithinBitIState i sampleOffset s).currentState := by
  unfold analyzeWithinBitIState
  dsimp only
  split
  · rw [recordFirstHalf_currentState]
    exact inUse
  · exact inUse_recordSecondHalf _ inUse

/-- A peak in a state in use has a handler, which leads to a state in use. -/
theorem inUse_analyzePeak (i sampleOffset : UInt32) {s : State} (inUse : InUse s.currentState) :
    ∃ next, analyzePeak i sampleOffset s = some next ∧ InUse next.currentState := by
  rcases inUse with noPacket | prelude | bit0 | bit1 | bit2
  · refine ⟨analyzeWithinNoPktState i sampleOffset s, by simp [analyzePeak, noPacket], ?_⟩
    unfold analyzeWithinNoPktState
    split
    · exact .inr (.inl rfl)
    · exact .inl noPacket
  · refine ⟨analyzeWithinPreludeState i sampleOffset s,
      by simp [analyzePeak, prelude, hfPrelude, noPkt], ?_⟩
    unfold analyzeWithinPreludeState
    split
    · exact .inr (.inl prelude)
    · split
      · exact .inr (.inr (.inl rfl))
      · exact inUse_resetVars s
  · refine ⟨analyzeWithinBit0State i sampleOffset s,
      by simp [analyzePeak, bit0, hfPrelude, noPkt], ?_⟩
    unfold analyzeWithinBit0State
    split
    · exact .inr (.inr (.inr (.inl rfl)))
    · exact .inr (.inr (.inl bit0))
  · refine ⟨analyzeWithinBit1State i sampleOffset s,
      by simp [analyzePeak, bit1, hfPrelude, noPkt], ?_⟩
    unfold analyzeWithinBit1State
    dsimp only
    split
    · exact inUse_analyzeWithinBitIState _ _ (.inr (.inr (.inr (.inr rfl))))
    · split
      · exact .inr (.inr (.inr (.inl bit1)))
      · exact inUse_analyzeWithinBitIState _ _ (.inr (.inr (.inr (.inr rfl))))
  · refine ⟨analyzeWithinBitIState i sampleOffset s,
      by simp [analyzePeak, bit2, hfPrelude, noPkt, bitsPerMsg], ?_⟩
    exact inUse_analyzeWithinBitIState _ _ (.inr (.inr (.inr (.inr bit2))))

/-- What an I sample does in a state in use. -/
theorem inUse_analyzeISample (i sampleOffset : UInt32) (b : UInt8) {s : State}
    (inUse : InUse s.currentState) :
    ∃ next, analyzeISample i sampleOffset b s = .ok next ∧ InUse next.currentState := by
  have kept : (isSamplePeak b s).2.currentState = s.currentState := by
    unfold isSamplePeak
    split
    · rfl
    · split <;> rfl
  have ready : InUse (resetIfLong (isSamplePeak b s).2).currentState := by
    unfold resetIfLong
    split
    · exact inUse_resetVars _
    · rw [kept]
      exact inUse
  unfold analyzeISample
  dsimp only
  split
  · obtain ⟨next, handled, still⟩ := inUse_analyzePeak i sampleOffset ready
    rw [handled]
    exact ⟨_, rfl, still⟩
  · exact ⟨_, rfl, ready⟩

/-- What a byte does in a state in use. -/
theorem inUse_analyzeByte (i sampleOffset : UInt32) (b : UInt8) {s : State}
    (inUse : InUse s.currentState) :
    ∃ next, analyzeByte i sampleOffset b s = .ok next ∧ InUse next.currentState := by
  unfold analyzeByte
  dsimp only
  split
  · obtain ⟨next, sampled, still⟩ := inUse_analyzeISample i sampleOffset b inUse
    rw [sampled]
    exact ⟨_, rfl, still⟩
  · exact ⟨_, rfl, inUse⟩

/-- The parity of a position selects the I samples. -/
theorem parity_iff (i sampleOffset : UInt32) :
    i % 2 = sampleOffset % 2 ↔ (sampleOffset + i) % 2 = 0 := by
  rw [← UInt32.toNat_inj, ← UInt32.toNat_inj]
  simp only [UInt32.toNat_mod, UInt32.toNat_add]
  have two : (2 : UInt32).toNat = 2 := rfl
  have zero : (0 : UInt32).toNat = 0 := rfl
  rw [two, zero]
  omega

/-- A byte does what it does at its position in the stream. -/
theorem analyzeByte_position (i sampleOffset : UInt32) (b : UInt8) (s : State) :
    analyzeByte i sampleOffset b s = analyzeByte (sampleOffset + i) 0 b s := by
  have position : currSample (sampleOffset + i) 0 = currSample i sampleOffset := by
    simp [currSample]
  have peak : ∀ s, analyzePeak (sampleOffset + i) 0 s = analyzePeak i sampleOffset s := by
    intro s
    simp only [analyzePeak, analyzeWithinNoPktState, analyzeWithinPreludeState,
      analyzeWithinBit0State, analyzeWithinBit1State, analyzeWithinBitIState, position]
  have sample : analyzeISample (sampleOffset + i) 0 b s = analyzeISample i sampleOffset b s := by
    simp only [analyzeISample, peak, position]
  have parity : (sampleOffset + i) % 2 = 0 % 2 ↔ i % 2 = sampleOffset % 2 :=
    (parity_iff i sampleOffset).symm
  simp only [analyzeByte, sample, parity]

/-- The rest of a buffer is analyzed at its position in the stream. -/
theorem analyzeFrom_position (buf : List UInt8) (i sampleOffset : UInt32) (s : State) :
    analyzeFrom sampleOffset i buf s = analyzeFrom 0 (sampleOffset + i) buf s := by
  induction buf generalizing i s with
  | nil => rfl
  | cons b rest hypothesis =>
    rw [analyzeFrom, analyzeFrom, analyzeByte_position]
    cases analyzeByte (sampleOffset + i) 0 b s with
    | error stopped => rfl
    | ok next =>
      dsimp only
      rw [hypothesis, UInt32.add_assoc]

/-- The rest of a buffer is read to its end. -/
theorem inUse_analyzeFrom (buf : List UInt8) (i sampleOffset : UInt32) {s : State}
    (inUse : InUse s.currentState) :
    ∃ next, analyzeFrom sampleOffset i buf s = (rtnOk, next) ∧ InUse next.currentState := by
  induction buf generalizing i s with
  | nil => exact ⟨s, rfl, inUse⟩
  | cons b rest hypothesis =>
    obtain ⟨next, read, still⟩ := inUse_analyzeByte i sampleOffset b inUse
    rw [analyzeFrom, read]
    exact hypothesis (i + 1) still

/-- Two parts of a buffer are read one after the other. -/
theorem analyzeFrom_append (buf rest : List UInt8) (i sampleOffset : UInt32) {s : State}
    (inUse : InUse s.currentState) :
    analyzeFrom sampleOffset i (buf ++ rest) s =
      analyzeFrom sampleOffset (i + .ofNat buf.length) rest
        (analyzeFrom sampleOffset i buf s).2 := by
  induction buf generalizing i s with
  | nil => simp [analyzeFrom]
  | cons b others hypothesis =>
    obtain ⟨next, read, still⟩ := inUse_analyzeByte i sampleOffset b inUse
    have advanced : i + 1 + UInt32.ofNat others.length = i + .ofNat (b :: others).length := by
      rw [List.length_cons, Nat.add_comm, UInt32.ofNat_add, UInt32.add_assoc]
      rfl
    rw [List.cons_append, analyzeFrom, analyzeFrom, read]
    dsimp only
    rw [hypothesis (i + 1) still, advanced]

/-- A call whose bytes are not the first of the stream resets nothing. -/
theorem analyzeStateMachine_later (buf : List UInt8) {sampleOffset : UInt32} (s : State)
    (later : sampleOffset ≠ 0) :
    analyzeStateMachine buf sampleOffset s = analyzeFrom 0 sampleOffset buf s := by
  rw [analyzeStateMachine, if_neg later, analyzeFrom_position, UInt32.add_zero]

/-- The buffers after the first one are read like one. -/
theorem analyzeBuffers_later (buffers : List (List UInt8)) {before : ℕ} {s : State}
    (inUse : InUse s.currentState) (later : 0 < before)
    (short : before + buffers.flatten.length < 2 ^ 32) :
    (∀ code ∈ (analyzeBuffers buffers (.ofNat before) s).1, code = rtnOk) ∧
      (analyzeBuffers buffers (.ofNat before) s).2 =
        (analyzeFrom 0 (.ofNat before) buffers.flatten s).2 := by
  induction buffers generalizing before s with
  | nil => exact ⟨by simp [analyzeBuffers], rfl⟩
  | cons buf rest hypothesis =>
    rw [List.flatten_cons, List.length_append] at short
    have offset : UInt32.ofNat before ≠ 0 := by
      intro zero
      have fits : before < UInt32.size := by
        simp only [UInt32.size]
        omega
      have value := congrArg UInt32.toNat zero
      have kept : (UInt32.ofNat before).toNat = before := UInt32.toNat_ofNat_of_lt fits
      have none_before : (0 : UInt32).toNat = 0 := rfl
      omega
    obtain ⟨next, read, still⟩ := inUse_analyzeFrom buf (.ofNat before) 0 inUse
    have ahead : 0 < before + buf.length := by omega
    obtain ⟨codes, reached⟩ := hypothesis still ahead (by omega)
    rw [UInt32.ofNat_add] at codes reached
    rw [analyzeBuffers, analyzeStateMachine_later buf s offset, read, List.flatten_cons,
      analyzeFrom_append buf rest.flatten (.ofNat before) 0 inUse, read]
    constructor
    · intro code listed
      rcases List.mem_cons.mp listed with same | others
      · exact same
      · exact codes code others
    · exact reached

/-- The variables of the program at some time: at its start, after a reset, after a byte. -/
inductive Reachable : State → Prop where
  | start : Reachable initial
  | reset {s : State} : Reachable s → Reachable (resetVars s)
  | byte {s next : State} (i sampleOffset : UInt32) (b : UInt8) : Reachable s →
    analyzeByte i sampleOffset b s = .ok next ∨ analyzeByte i sampleOffset b s = .error next →
    Reachable next

/-- Every reachable state is in use. -/
theorem Reachable.inUse {s : State} (reachable : Reachable s) : InUse s.currentState := by
  induction reachable with
  | start => exact .inl rfl
  | reset => exact inUse_resetVars _
  | byte i sampleOffset b _ stepped hypothesis =>
    obtain ⟨next, read, still⟩ := inUse_analyzeByte i sampleOffset b hypothesis
    rw [read] at stepped
    rcases stepped with same | stopped
    · rw [← Except.ok.inj same]
      exact still
    · cases stopped

/-- The states that a call leads to are reachable. -/
theorem Reachable.analyzeFrom {s : State} (reachable : Reachable s) (buf : List UInt8)
    (i sampleOffset : UInt32) : Reachable (analyzeFrom sampleOffset i buf s).2 := by
  induction buf generalizing i s with
  | nil => exact reachable
  | cons b rest hypothesis =>
    rw [StateMachine.analyzeFrom]
    cases read : analyzeByte i sampleOffset b s with
    | error stopped => exact .byte i sampleOffset b reachable (.inr read)
    | ok next => exact hypothesis (.byte i sampleOffset b reachable (.inl read)) (i + 1)

/-- Every call reads its whole buffer, the state after all buffers is the one after a single call,
and the decoder is never in a state of the bug branch. -/
theorem buffers_independent :
    (∀ (s : State) (buffers : List (List UInt8)), buffers ≠ [] → (∀ buf ∈ buffers, buf ≠ []) →
      buffers.flatten.length < 2 ^ 32 →
      (∀ code ∈ (analyzeBuffers buffers 0 s).1, code = rtnOk) ∧
        analyzeStateMachine buffers.flatten 0 s = (rtnOk, (analyzeBuffers buffers 0 s).2)) ∧
    (∀ s : State, Reachable s →
      s.currentState = noPkt ∨ s.currentState = hfPrelude ∨
        (0 ≤ s.currentState ∧ s.currentState ≤ 68)) := by
  constructor
  · intro s buffers nonempty each short
    cases buffers with
    | nil => exact absurd rfl nonempty
    | cons buf rest =>
      rw [List.flatten_cons, List.length_append] at short
      have first : 0 < buf.length := List.length_pos_iff.mpr (each buf List.mem_cons_self)
      have ready := inUse_resetVars s
      obtain ⟨next, read, still⟩ := inUse_analyzeFrom buf 0 0 ready
      obtain ⟨last, whole, _⟩ := inUse_analyzeFrom (buf ++ rest.flatten) 0 0 ready
      obtain ⟨codes, reached⟩ := analyzeBuffers_later rest still first short
      have parts := analyzeFrom_append buf rest.flatten 0 0 ready
      rw [whole, read, UInt32.zero_add] at parts
      simp only [analyzeBuffers, analyzeStateMachine, if_true, read, UInt32.zero_add,
        List.flatten_cons, whole]
      constructor
      · intro code listed
        rcases List.mem_cons.mp listed with same | others
        · exact same
        · exact codes code others
      · rw [reached, ← parts]
  · intro s reachable
    rcases reachable.inUse with noPacket | prelude | bit0 | bit1 | bit2
    · exact .inl noPacket
    · exact .inr (.inl prelude)
    · exact .inr (.inr (by omega))
    · exact .inr (.inr (by omega))
    · exact .inr (.inr (by omega))

/-- Two buffers of odd lengths. -/
theorem buffers_independent_odd :
    analyzeStateMachine [0x00, 0xFF, 0xFF, 0x10] 0 initial =
      (rtnOk, (analyzeBuffers [[0x00], [0xFF, 0xFF, 0x10]] 0 initial).2) :=
  (buffers_independent.1 initial [[0x00], [0xFF, 0xFF, 0x10]] (by simp) (by simp) (by simp)).2

end FcTpms.StateMachine
