import FcTpms.Decoder.Samples

/-!
# The prelude

`find_prelude_start` looks for a strong sample. `is_valid_prelude` measures a phase of high
frequency, a phase of low frequency and the length of the first high half-bits, the sync bits.
-/

namespace FcTpms.Decoder

open Program Arithmetic

variable {F : Type} [Arithmetic F] {host : Host F}

/-- `find_prelude_start`. -/
def findPreludeStart : Decode host ℕ :=
  Prog.loop (fun _ => do
    match ← getNextSample with
    | none => return .inr 0
    | some x =>
      let reader := (← Prog.get).reader
      if reader.file.eof then return .inr 0
      if lt (literal (9 / 10)) x.re then return .inr reader.totalSamplesIn
      return .inl ()) ()

/-- The running variables of a measured phase of the prelude. -/
structure Measurement (F : Type) where
  /-- `cum_phi`. -/
  cumPhi : F
  /-- `count`. -/
  count : ℕ
  /-- `prev_phi`. -/
  prevPhi : F

/-- A measured phase of the prelude: average the phase steps of the samples after sample
`phaseStart`, and end with the first of at least `least` samples whose step is not `inside` the
phase. The result is the phase of the last sample, or none when the file ends or more than `most`
samples were read. -/
def measurePhase (store : F → Prelude F → Prelude F) (phaseStart least most : ℕ)
    (inside : F → Prelude F → Bool) (prevPhi : F) : Decode host (Option F) :=
  Prog.loop (fun measured => do
    match ← getNextSample with
    | none => return .inr none
    | some x =>
      if (← Prog.get).reader.file.eof then return .inr none
      let phi := cargf x
      let step := deltaPhi phi measured.prevPhi
      let cumPhi := add measured.cumPhi step
      let count := measured.count + 1
      assignPrelude (store (div cumPhi (ofInt (count : ℕ))))
      if count > most then return .inr none
      let state ← Prog.get
      if state.reader.totalSamplesIn < u32 (phaseStart + least) ∨ inside step state.prelude then
        return .inl ⟨cumPhi, count, phi⟩
      return .inr (some phi)) (⟨literal 0, 0, prevPhi⟩ : Measurement F)

/-- The first loop of `is_valid_prelude`: the high-frequency phase. -/
def measureHighPhase (phaseStart : ℕ) (prevPhi : F) : Decode host (Option F) :=
  measurePhase (fun freq prelude => { prelude with highFreq := freq }) phaseStart
    minPreludeHfSamples maxPreludeHfSamples
    (fun step prelude => le (deviation step prelude.highFreq) (literal (5 / 100))) prevPhi

/-- The second loop of `is_valid_prelude`: the low-frequency phase. -/
def measureLowPhase (phaseStart : ℕ) (prevPhi : F) : Decode host (Option F) :=
  measurePhase (fun freq prelude => { prelude with lowFreq := freq }) phaseStart
    minPreludeLfSamples maxPreludeLfSamples
    (fun step prelude => lt (literal (10 / 100)) (deviation step prelude.highFreq)) prevPhi

/-- The third loop of `is_valid_prelude`: skip the sync bits; `false` when the file ends. -/
def skipSyncBits (prevPhi : F) : Decode host Bool :=
  Prog.loop (fun prevPhi => do
    match ← getNextSample with
    | none => return .inr false
    | some x =>
      let state ← Prog.get
      if state.reader.file.eof then return .inr false
      let phi := cargf x
      if le (deviation (deltaPhi phi prevPhi) state.prelude.highFreq) (literal (5 / 100)) then
        return .inl phi
      return .inr true) prevPhi

/-- `is_valid_prelude` after its first sample. -/
def measurePrelude (prevPhi : F) : Decode host Bool := do
  match ← measureHighPhase (← Prog.get).prelude.preludeHfStart prevPhi with
  | none => return false
  | some phi =>
    assignPrelude fun prelude => { prelude with highFreqKnown := true }
    let lfStart := (← Prog.get).reader.totalSamplesIn
    assignPrelude fun prelude => { prelude with preludeLfStart := u32 lfStart }
    match ← measureLowPhase (← Prog.get).prelude.preludeLfStart phi with
    | none => return false
    | some phi =>
      assignPrelude fun prelude => { prelude with lowFreqKnown := true }
      let state ← Prog.get
      if le state.prelude.highFreq state.prelude.lowFreq then return false
      assignPrelude fun prelude =>
        { prelude with syncBitsStart := u32 state.reader.totalSamplesIn }
      if !(← skipSyncBits phi) then return false
      let syncEnd := (← Prog.get).reader.totalSamplesIn
      assignPrelude fun prelude => { prelude with syncBitsEnd := u32 syncEnd }
      assignPrelude fun prelude => { prelude with
        samplesPerSym := u32 ((prelude.syncBitsEnd : ℤ) - prelude.syncBitsStart + 1) }
      if (← Prog.get).prelude.samplesPerSym < minSamplesPerSymbol then return false
      return true

/-- `is_valid_prelude`. -/
def isValidPrelude : Decode host Bool := do
  Prog.emit (.enterPrelude (← Prog.get))
  assignPrelude fun prelude => { prelude with highFreqKnown := false, lowFreqKnown := false }
  let hfStart := (← Prog.get).reader.totalSamplesIn
  assignPrelude fun prelude => { prelude with preludeHfStart := u32 hfStart }
  match ← getNextSample with
  -- The first sample is dereferenced without a test.
  | none => nullDereference
  | some x => measurePrelude (cargf x)

end FcTpms.Decoder
