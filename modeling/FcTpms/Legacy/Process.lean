import FcTpms.Legacy.AnalyzeTpms
import FcTpms.Legacy.LiquidAnalysis

/-!
# Captures in one process

Both older decoders are used in the same way. A process analyses one capture after another; a
capture ends with its last sample or with the call of `update_state` that returns 1. The static
variables of `update_state` live as long as the process, and neither `init_analysis` nor
`analyze_file` sets any of them: what one capture leaves is what the next one starts from.
-/

namespace FcTpms.Legacy

open Decoder

/-- A decoder with static variables `σ` that is called with inputs `ι`. -/
structure PacketDecoder (σ ι : Type) where
  /-- The static variables when the process starts. -/
  initial : σ
  /-- `update_state`: the variables after the call and whether it returns 1, or `none` if it
  writes outside of `basebit_vals`. -/
  updateState : σ → ι → Option (σ × Bool)
  /-- `basebit_vals`. -/
  basebitVals : σ → List Bool
  /-- `symbols`. -/
  symbols : σ → List Char
  /-- `high_freq_set`. -/
  highFreqSet : σ → Bool
  /-- `low_freq_set`. -/
  lowFreqSet : σ → Bool

/-- The decoder of `liquid_analysis.c`, called with a bit and a sample number. -/
def liquidAnalysis : PacketDecoder Liquid.State (Bool × ℕ) where
  initial := .initial
  updateState state input := Liquid.updateState state input.1 input.2
  basebitVals := Liquid.State.basebitVals
  symbols := Liquid.State.symbols
  highFreqSet := Liquid.State.highFreqSet
  lowFreqSet := Liquid.State.lowFreqSet

/-- The decoder of `analyze_tpms.c`, called with a sample, the one before and a sample number. -/
def analyzeTpms (F : Type) [AnalyzeTpms.Windowing F] :
    PacketDecoder (AnalyzeTpms.State F) (Cplx F × Cplx F × ℕ) where
  initial := .initial
  updateState state input := AnalyzeTpms.updateState state input.1 input.2.1 input.2.2
  basebitVals := AnalyzeTpms.State.basebitVals
  symbols := AnalyzeTpms.State.symbols
  highFreqSet := AnalyzeTpms.State.highFreqSet
  lowFreqSet := AnalyzeTpms.State.lowFreqSet

namespace PacketDecoder

variable {σ ι : Type} (decoder : PacketDecoder σ ι)

/-- Calls of `update_state` one after another, whatever they return. -/
def feed : σ → List ι → Option σ
  | state, [] => some state
  | state, input :: rest =>
    match decoder.updateState state input with
    | none => none
    | some (later, _) => feed later rest

/-- The analysis of a capture, with `true` if it found a packet. -/
def analyze : σ → List ι → Option (σ × Bool)
  | state, [] => some (state, false)
  | state, input :: rest =>
    match decoder.updateState state input with
    | none => none
    | some (later, true) => some (later, true)
    | some (later, false) => analyze later rest

/-- The static variables after the analysis of some captures. -/
def process : σ → List (List ι) → Option σ
  | state, [] => some state
  | state, capture :: rest =>
    match decoder.analyze state capture with
    | none => none
    | some (later, _) => process later rest

/-- The static variables with which the capture of this index is begun. -/
def before (captures : List (List ι)) (index : ℕ) : Option σ :=
  decoder.process decoder.initial (captures.take index)

/-- Every capture of a process starts from an empty half-bit string with neither frequency set,
and no call lets the string outgrow a packet or its buffer. -/
structure WithinBuffer (captures : List (List ι)) : Prop where
  /-- A capture starts anew. -/
  anew : ∀ index state, index < captures.length → decoder.before captures index = some state →
    decoder.basebitVals state = [] ∧ decoder.highFreqSet state = false ∧
      decoder.lowFreqSet state = false
  /-- The half-bit string stays within its buffer. -/
  inside : ∀ index state capture, captures[index]? = some capture →
    decoder.before captures index = some state → ∀ count, ∃ later found,
      decoder.analyze state (capture.take count) = some (later, found) ∧
        (decoder.basebitVals later).length ≤ 2 * symbolsPerMsg

/-- No capture is begun while `high_freq_set` still stands from the one before it. -/
def StartsQuiet (captures : List (List ι)) : Prop :=
  ∀ index state, index < captures.length → decoder.before captures index = some state →
    decoder.highFreqSet state = false

/-- What a decoder must keep for its half-bit string to be that of a packet. -/
structure Collects (sound : σ → Prop) : Prop where
  /-- The process starts so. -/
  initial : sound decoder.initial
  /-- A call keeps it so. -/
  step : ∀ state input later found, sound state →
    decoder.updateState state input = some (later, found) → sound later
  /-- What a call publishes is a packet. -/
  published : ∀ state input later, sound state →
    decoder.updateState state input = some (later, true) →
      Published (decoder.basebitVals later) (decoder.symbols later)
  /-- As long as the packet is not complete there is room for a half-bit. -/
  room : ∀ state input, sound state → (decoder.basebitVals state).length < 2 * symbolsPerMsg →
    ∃ later found, decoder.updateState state input = some (later, found) ∧
      (decoder.basebitVals later).length ≤ 2 * symbolsPerMsg ∧
        (found = false → (decoder.basebitVals later).length < 2 * symbolsPerMsg)
  /-- Nothing is collected before the high period of the prelude. -/
  quiet : ∀ state, sound state → decoder.highFreqSet state = false →
    decoder.basebitVals state = [] ∧ decoder.lowFreqSet state = false

variable {decoder} {sound : σ → Prop}

/-- The invariant holds after any calls. -/
theorem Collects.feed (collects : decoder.Collects sound) {state later : σ} {inputs : List ι}
    (begun : sound state) (fed : decoder.feed state inputs = some later) : sound later := by
  induction inputs generalizing state with
  | nil =>
    rw [PacketDecoder.feed, Option.some.injEq] at fed
    exact fed ▸ begun
  | cons input rest ih =>
    rw [PacketDecoder.feed] at fed
    cases called : decoder.updateState state input with
    | none =>
      rw [called] at fed
      cases fed
    | some reply =>
      rw [called] at fed
      exact ih (collects.step state input reply.1 reply.2 begun called) fed

/-- The invariant holds after the analysis of a capture. -/
theorem Collects.analyze (collects : decoder.Collects sound) {state later : σ} {capture : List ι}
    {found : Bool} (begun : sound state)
    (analyzed : decoder.analyze state capture = some (later, found)) : sound later := by
  induction capture generalizing state with
  | nil =>
    rw [PacketDecoder.analyze, Option.some.injEq, Prod.mk.injEq] at analyzed
    exact analyzed.1 ▸ begun
  | cons input rest ih =>
    rw [PacketDecoder.analyze] at analyzed
    cases called : decoder.updateState state input with
    | none =>
      rw [called] at analyzed
      cases analyzed
    | some reply =>
      obtain ⟨next, stops⟩ := reply
      have kept := collects.step state input next stops begun called
      rw [called] at analyzed
      cases stops with
      | true =>
        rw [Option.some.injEq, Prod.mk.injEq] at analyzed
        exact analyzed.1 ▸ kept
      | false => exact ih kept analyzed

/-- The invariant holds when a capture is begun. -/
theorem Collects.process (collects : decoder.Collects sound) {state later : σ}
    {captures : List (List ι)} (begun : sound state)
    (processed : decoder.process state captures = some later) : sound later := by
  induction captures generalizing state with
  | nil =>
    rw [PacketDecoder.process, Option.some.injEq] at processed
    exact processed ▸ begun
  | cons capture rest ih =>
    rw [PacketDecoder.process] at processed
    cases analyzed : decoder.analyze state capture with
    | none =>
      rw [analyzed] at processed
      cases processed
    | some reply =>
      rw [analyzed] at processed
      exact ih (collects.analyze begun analyzed) processed

/-- A capture that is begun with an incomplete string keeps it within a packet. -/
theorem Collects.inside (collects : decoder.Collects sound) {state : σ} (capture : List ι)
    (begun : sound state) (short : (decoder.basebitVals state).length < 2 * symbolsPerMsg) :
    ∃ later found, decoder.analyze state capture = some (later, found) ∧
      (decoder.basebitVals later).length ≤ 2 * symbolsPerMsg := by
  induction capture generalizing state with
  | nil => exact ⟨state, false, rfl, Nat.le_of_lt short⟩
  | cons input rest ih =>
    obtain ⟨later, found, called, within, goesOn⟩ := collects.room state input begun short
    rw [PacketDecoder.analyze, called]
    cases found with
    | true => exact ⟨later, true, rfl, within⟩
    | false => exact ih (collects.step state input later false begun called) (goesOn rfl)

/-- The half-bit string stays within its buffer exactly when no capture is begun while
`high_freq_set` still stands. -/
theorem Collects.withinBuffer_iff (collects : decoder.Collects sound) (captures : List (List ι)) :
    decoder.WithinBuffer captures ↔ decoder.StartsQuiet captures := by
  constructor
  · intro within index state inside begun
    exact (within.anew index state inside begun).2.1
  · intro quiet
    constructor
    · intro index state inside begun
      have kept := collects.process collects.initial begun
      have unset := quiet index state inside begun
      have empty := collects.quiet state kept unset
      exact ⟨empty.1, unset, empty.2⟩
    · intro index state capture here begun count
      have kept := collects.process collects.initial begun
      have inside : index < captures.length := (List.getElem?_eq_some_iff.mp here).1
      have empty := (collects.quiet state kept (quiet index state inside begun)).1
      refine collects.inside (capture.take count) kept ?_
      rw [empty]
      decide

end PacketDecoder

end FcTpms.Legacy
