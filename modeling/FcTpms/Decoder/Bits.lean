import FcTpms.Decoder.Samples

/-!
# Half-bits

`get_bit` decides one half-bit: it collects the samples of the interval and a tenth more, looks
for the transition that ends the half-bit, rewinds the cache to it, and takes the majority of
the samples classified as high or low frequency.
-/

namespace FcTpms.Decoder

open Program Arithmetic

variable {F : Type} [Arithmetic F] {host : Host F}

/-- One phase step classified: `1` when it is nearer to the high frequency, else `-1`. -/
def classify (highFreq lowFreq step : F) : ℤ :=
  if le (deviation step highFreq) (deviation step lowFreq) then 1 else -1

/-- The loop of `convert_samples_to_binary` from its second round on. -/
def convertFrom (highFreq lowFreq prevPhi : F) : List (Cplx F) → List ℤ
  | [] => []
  | x :: rest =>
    let phi := cargf x
    classify highFreq lowFreq (deltaPhi phi prevPhi) :: convertFrom highFreq lowFreq phi rest

/-- `convert_samples_to_binary`: the first `num_samples` samples classified, the first one
as `0`. -/
def convertSamplesToBinary (highFreq lowFreq : F) (samples : List (Cplx F)) (numSamples : ℤ) :
    List ℤ :=
  match samples.take numSamples.toNat with
  | [] => []
  | x :: rest => 0 :: convertFrom highFreq lowFreq (cargf x) rest

/-- The sum that `get_bit` and `scan_samples_for_eob_transition` take of a converted buffer; both
start at index 1. -/
def sumFromOne (binary : List ℤ) : ℤ := (binary.drop 1).sum

/-- The second loop of `scan_samples_for_eob_transition`, from index `i` on. -/
def scanFrom (nonOrigFreq prevPhi : F) (i : ℤ) : List (Cplx F) → ℤ
  | [] => -1
  | x :: rest =>
    let phi := cargf x
    if lt (deviation (deltaPhi phi prevPhi) nonOrigFreq) (literal (5 / 100)) then i
    else scanFrom nonOrigFreq phi (i + 1) rest

/-- `scan_samples_for_eob_transition`: the index of the first sample, past three quarters of the
buffer, whose phase step is that of the other frequency, or `-1`. -/
def scanSamplesForEobTransition (highFreq lowFreq : F) (samples : List (Cplx F))
    (numSamples : ℤ) : ℤ :=
  let baselineLimit := threeQuarters numSamples
  let baselineFreq := sumFromOne (convertSamplesToBinary highFreq lowFreq samples baselineLimit)
  let origFreq := if 0 < baselineFreq then highFreq else lowFreq
  let nonOrigFreq := if eq origFreq highFreq then lowFreq else highFreq
  let start := max 1 baselineLimit
  match samples[(baselineLimit - 1).toNat]? with
  | none => -1
  | some last =>
    scanFrom nonOrigFreq (cargf last) start ((samples.take numSamples.toNat).drop start.toNat)

/-- The value of a half-bit with the sum `b` of its classified samples: `HIGHBIT` or `LOWBIT`. -/
def bitValue (b : ℤ) : ℤ := if 0 < b then 1 else 0

/-- `bit_confidence`: `fabs((double) b / (double) num_samples)`. -/
def confidence (b numSamples : ℤ) : F := toFloat (fabs (div (ofInt b) (ofInt numSamples)))

/-- Number of elements of a buffer of `numSamples` that `get_bit` examines: the scan for a
transition goes on to the transition, or to the end of the buffer when there is none. -/
def elementsUsed (numSamples transitionPoint : ℤ) : ℕ :=
  if transitionPoint = -1 then numSamples.toNat else (transitionPoint + 1).toNat

/-- `if (write_to_cache) { write_to_cache = !(read_from_cache = true); }`. -/
def turnToCache : Decode host Unit := do
  if (← Prog.get).reader.writeToCache then
    assignReader fun reader => { reader with readFromCache := true }
    assignReader fun reader => { reader with writeToCache := !reader.readFromCache }
  else pure ()

/-- `if (read_from_cache) { cache_loc = …; }`: rewind the cache to the end of the half-bit. -/
def rewindCache (bitStart : ℕ) (numSamples : ℤ) : Decode host Unit := do
  let state ← Prog.get
  if state.reader.readFromCache then
    assignReader fun reader => { reader with
      cacheLoc := rewound reader.cacheCount bitStart numSamples state.packet.actualBitEnd }
  else pure ()

/-- `(transition_point == -1) ? bit_end : (transition_point - 1 + bit_start)` as an
`unsigned int`. -/
def bitEndAt (bitStart bitEnd : ℕ) (transitionPoint : ℤ) : ℕ :=
  if transitionPoint = -1 then u32 bitEnd else u32 (transitionPoint - 1 + bitStart)

/-- `get_bit`. -/
def getBit (bitStart bitEnd : ℕ) : Decode host ℤ := do
  let numSamples := int32 (bitEnd - bitStart + 1)
  match ← getSomeSamples (withMargin numSamples) bitStart with
  -- `scan_samples_for_eob_transition` reads its argument.
  | none => nullDereference
  | some buffer =>
    let prelude := (← Prog.get).prelude
    let transitionPoint := scanSamplesForEobTransition prelude.highFreq prelude.lowFreq
      buffer.samples (withMargin numSamples)
    Prog.emit (.halfBit buffer.first buffer.recorded.length
      (elementsUsed (withMargin numSamples) transitionPoint))
    assignPacket fun packet => { packet with
      actualBitEnd := bitEndAt bitStart bitEnd transitionPoint }
    turnToCache
    rewindCache bitStart numSamples
    let samples := convertSamplesToBinary prelude.highFreq prelude.lowFreq buffer.samples
      (threeFifths numSamples)
    let b := sumFromOne samples
    assignPacket fun packet => { packet with
      bitConfidence := confidence b (threeFifths numSamples) }
    return bitValue b

end FcTpms.Decoder
