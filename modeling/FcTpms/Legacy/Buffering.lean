import FcTpms.Legacy.LiquidAnalysis
import FcTpms.Machine.Feed
import Mathlib.Algebra.Ring.Nat

/-!
# Buffers of `liquid_analysis.c`

A stream of IQ bytes is handed to `analyze_input` in buffers, with the byte offset of each. Every
sample goes through a filter, a resampler, a frequency discriminator and a matched filter, which
are taken as one machine; every fortieth of the resulting samples is a bit for `update_state`. The
sample number that goes with the bit is the loop variable of `analyze_iq_pairs`.
-/

namespace FcTpms.Liquid

open Machine

/-- The filter, the resampler, the discriminator and the matched filter together, with the sign
test of their output. -/
structure FrontEnd (φ : Type) where
  /-- The objects that `init_analysis` creates. -/
  create : φ
  /-- One sample: the objects after it, and `bit_val` for each of the `num_resamp` results. -/
  execute : φ → UInt8 → UInt8 → φ × List Bool
  /-- The results fit in `buf_resamp` and `buf_demod`. -/
  fits : ∀ objects xi xq, (execute objects xi xq).2.length ≤ 16

/-- The static variables of the file. -/
structure Process (φ : Type) where
  /-- Those of the decoder. -/
  decoder : State
  /-- `total_samples_in`. A stream has fewer than 2³¹ samples. -/
  totalSamplesIn : ℕ
  /-- `total_samples_out`. -/
  totalSamplesOut : ℕ
  /-- The filter objects. -/
  objects : φ

/-- `p` of `analyze_iq_pairs`, the number of the first sample that is not skipped. -/
def startingSample : ℕ := 42

/-- `UINT_SAMPLES_PER_BIT`. -/
def samplesPerBit : ℕ := 40

/-- `total_samples_out++`. -/
def countOut (totalSamplesOut : ℕ) : ℕ := (totalSamplesOut + 1) % 2 ^ 32

/-- How an analysis goes on or ends: with the variables when `update_state` returned 1, or with
`none` when it wrote outside of `basebit_vals`. -/
abbrev Analysis (φ : Type) : Type := Status (Process φ) (Option (Process φ))

section Analyze

variable {φ : Type} (frontEnd : FrontEnd φ)

/-- The loop over the results of one sample. -/
def takeBits (b : ℕ) : Process φ → List Bool → Analysis φ
  | process, [] => .active process
  | process, bitVal :: rest =>
    let counted := countOut process.totalSamplesOut
    if process.totalSamplesOut % samplesPerBit = 0 then
      match updateState process.decoder bitVal b with
      | none => .halted none
      | some (decoder, true) => .halted (some { process with decoder })
      | some (decoder, false) =>
        takeBits b { process with decoder, totalSamplesOut := counted } rest
    else takeBits b { process with totalSamplesOut := counted } rest

/-- One round of the loop of `analyze_iq_pairs`. -/
def analyzeSample (process : Process φ) (b : ℕ) (xi xq : UInt8) : Analysis φ :=
  let process := { process with totalSamplesIn := process.totalSamplesIn + 1 }
  if process.totalSamplesIn < startingSample then .active process
  else
    let (objects, bits) := frontEnd.execute process.objects xi xq
    takeBits b { process with objects } bits

/-- `analyze_iq_pairs` from the sample `b` on. -/
def analyzeIqPairs : ℕ → Process φ → List UInt8 → Analysis φ
  | b, process, xi :: xq :: rest =>
    (analyzeSample frontEnd process b xi xq).andThen fun process =>
      analyzeIqPairs (b + 1) process rest
  | _, process, _ => .active process

/-- `init_analysis`. -/
def initAnalysis (process : Process φ) : Process φ :=
  { process with objects := frontEnd.create, totalSamplesIn := 0, totalSamplesOut := 0 }

/-- `analyze_input`. -/
def analyzeInput (process : Process φ) (buf : List UInt8) (sampleOffset : ℕ) : Analysis φ :=
  analyzeIqPairs frontEnd 0 (if sampleOffset = 0 then initAnalysis frontEnd process else process)
    buf

/-- The loop of `rtlsdr_main` that passes the buffers of a file to `analyze_input`. -/
def analyzeBuffers : ℕ → Process φ → List (List UInt8) → Analysis φ
  | _, process, [] => .active process
  | bytesRead, process, buf :: rest =>
    (analyzeInput frontEnd process buf bytesRead).andThen fun process =>
      analyzeBuffers ((bytesRead + buf.length) % 2 ^ 32) process rest

end Analyze

/-- What is seen of an analysis. -/
inductive Decoded where
  /-- A packet was found with this sample of the stream. -/
  | found (sample : ℕ) (symbols : List Char)
  /-- The half-bit string outgrew its buffer. -/
  | overflowed
  /-- The stream ended without a packet. -/
  | notFound
  deriving DecidableEq

/-- What is seen of an analysis. -/
def decoded {φ : Type} : Analysis φ → Decoded
  | .active _ => .notFound
  | .halted none => .overflowed
  | .halted (some process) => .found process.totalSamplesIn process.decoder.symbols

/-- The variables of a process that has not analysed anything. -/
def Process.initial {φ : Type} (frontEnd : FrontEnd φ) : Process φ :=
  ⟨.initial, 0, 0, frontEnd.create⟩

/-- The analysis of a stream that arrives in these buffers. -/
def decodeBuffers {φ : Type} (frontEnd : FrontEnd φ) (buffers : List (List UInt8)) : Decoded :=
  decoded (analyzeBuffers frontEnd 0 (.initial frontEnd) buffers)

/-- A stream cut into buffers of these numbers of samples and a last buffer with the rest. -/
def cutInto : List ℕ → List UInt8 → List (List UInt8)
  | [], bytes => [bytes]
  | samples :: rest, bytes => bytes.take (2 * samples) :: cutInto rest (bytes.drop (2 * samples))

end FcTpms.Liquid
