import FcTpms.Decoder.QuarterTurns
import FcTpms.Decoder.Steps
import FcTpms.Verif.Reading

/-!
# The first fifth of a half-bit

`get_bit` moves its `start_sample` over the first fifth of the half-bit and shortens the number of
samples to three fifths, but it converts the buffer from its first sample on: `start_sample` is only
logged. So the samples of the first fifth are part of the majority, and two buffers that differ
there give the same half-bit just when these samples are in balance.
-/

namespace FcTpms.Decoder

open Program Program.Prog Arithmetic

variable {F : Type} [Arithmetic F]

/-! ## Two buffers that agree behind a place -/

/-- The classified samples behind the first one of a buffer. -/
def convertBehind (highFreq lowFreq : F) : List (Cplx F) → List ℤ
  | [] => []
  | x :: rest => convertFrom highFreq lowFreq (cargf x) rest

/-- The classified samples behind a place are those of the buffer from that place on. -/
theorem convertFrom_drop (highFreq lowFreq prevPhi : F) (samples : List (Cplx F)) (place : ℕ) :
    (convertFrom highFreq lowFreq prevPhi samples).drop (place + 1) =
      convertBehind highFreq lowFreq (samples.drop place) := by
  induction place generalizing prevPhi samples with
  | zero =>
    cases samples with
    | nil => rfl
    | cons x rest => rfl
  | succ place ih =>
    cases samples with
    | nil => rfl
    | cons x rest =>
      rw [convertFrom, List.drop_succ_cons, List.drop_succ_cons]
      exact ih (cargf x) rest

/-- What `convert_samples_to_binary` gives behind a place depends on the samples from it on. -/
theorem convertSamplesToBinary_drop (highFreq lowFreq : F) (samples : List (Cplx F))
    (numSamples : ℤ) (place : ℕ) :
    (convertSamplesToBinary highFreq lowFreq samples numSamples).drop (place + 1) =
      convertBehind highFreq lowFreq ((samples.drop place).take (numSamples.toNat - place)) := by
  rw [convertSamplesToBinary, ← List.drop_take]
  cases samples.take numSamples.toNat with
  | nil =>
    rw [List.drop_nil, List.drop_nil]
    rfl
  | cons x rest =>
    cases place with
    | zero => rfl
    | succ place => exact convertFrom_drop highFreq lowFreq (cargf x) rest place

/-- Buffers with the same samples from a place on are converted to the same behind it. -/
theorem convertSamplesToBinary_agree (highFreq lowFreq : F) {samples others : List (Cplx F)}
    (numSamples : ℤ) {place : ℕ} (agree : ∀ i, place ≤ i → samples[i]? = others[i]?) :
    (convertSamplesToBinary highFreq lowFreq samples numSamples).drop (place + 1) =
      (convertSamplesToBinary highFreq lowFreq others numSamples).drop (place + 1) := by
  have same : samples.drop place = others.drop place := by
    apply List.ext_getElem?
    intro i
    rw [List.getElem?_drop, List.getElem?_drop]
    exact agree (place + i) (by omega)
  rw [convertSamplesToBinary_drop, convertSamplesToBinary_drop, same]

section Returns

variable {host : Host F} {state : State host} {goal : Unit → State host → List (Event host) → Prop}

omit [Arithmetic F] in
/-- The turn to the cache returns. -/
theorem turnToCache_attains (always : ∀ later trace, goal () later trace) :
    (turnToCache : Decode host Unit).Attains state goal := by
  simp only [turnToCache, attains_bind, attains_get]
  by_cases storing : state.reader.writeToCache = true
  · simp [storing, always]
  · simp [storing, always]

omit [Arithmetic F] in
/-- The rewinding of the cache returns. -/
theorem rewindCache_attains (bitStart : ℕ) (numSamples : ℤ)
    (always : ∀ later trace, goal () later trace) :
    (rewindCache bitStart numSamples : Decode host Unit).Attains state goal := by
  simp only [rewindCache, attains_bind, attains_get]
  by_cases cached : state.reader.readFromCache = true
  · simp [cached, always]
  · simp [cached, always]

end Returns

/-! ## Runs of `get_bit` -/

/-- A call of `get_bit` whose samples have been read. -/
structure HalfBitRun (F : Type) [Arithmetic F] (bitStart bitEnd : ℕ) where
  host : Host F
  start : State host
  buffer : Buffer F
  filled : State host
  trace : List (Event host)
  fetched : (getSomeSamples (withMargin (int32 (bitEnd - bitStart + 1))) bitStart :
    Decode host (Option (Buffer F))).Evaluates start (some buffer) filled trace

namespace HalfBitRun

variable {bitStart bitEnd : ℕ} (run : HalfBitRun F bitStart bitEnd)

/-- What `scan_samples_for_eob_transition` reports. -/
def transition : ℤ :=
  scanSamplesForEobTransition run.filled.prelude.highFreq run.filled.prelude.lowFreq
    run.buffer.samples (withMargin (int32 (bitEnd - bitStart + 1)))

/-- The offset of `start_sample`: `0.2 * (actual_bit_end - bit_start + 1)`. -/
def guard : ℕ := u64 (bitEndAt bitStart bitEnd run.transition - bitStart + 1) / 5

/-- The samples that `get_bit` takes the majority of, classified. -/
def binary : List ℤ :=
  convertSamplesToBinary run.filled.prelude.highFreq run.filled.prelude.lowFreq
    run.buffer.samples (threeFifths (int32 (bitEnd - bitStart + 1)))

/-- How many more of the classified samples up to `start_sample` are high than low. -/
def guardSurplus : ℤ := ((run.binary.drop 1).take run.guard).sum

/-- `get_bit` returns this value with this confidence. -/
def Decides (value : ℤ) (bitConfidence : F) : Prop :=
  (getBit bitStart bitEnd : Decode run.host ℤ).Attains run.start fun result later _ =>
    result = value ∧ later.packet.bitConfidence = bitConfidence

/-- The value and the confidence come from the sum of the classified samples. -/
theorem decides : run.Decides (bitValue (sumFromOne run.binary))
    (confidence (sumFromOne run.binary) (threeFifths (int32 (bitEnd - bitStart + 1)))) := by
  rw [Decides, getBit]
  dsimp only
  rw [attains_bind]
  apply run.fetched.attains
  simp only [attains_bind, attains_get, attains_emit, attains_assignPacket]
  apply turnToCache_attains
  intro turned early
  apply rewindCache_attains
  intro later trace
  rw [attains_pure]
  exact ⟨rfl, rfl⟩

/-- Below the sum, the samples up to `start_sample` and those behind it. -/
theorem sum_eq : sumFromOne run.binary =
    run.guardSurplus + (run.binary.drop (run.guard + 1)).sum := by
  rw [sumFromOne, guardSurplus, ← List.sum_append, Nat.add_comm, ← List.drop_drop,
    List.take_append_drop]

end HalfBitRun

/-! ## Two runs -/

/-- Two calls of `get_bit` on one interval, with the same frequencies, for which the scan reports
the same transition, and whose buffers agree from `start_sample` on. -/
structure Guarded (F : Type) [Arithmetic F] (bitStart bitEnd : ℕ) where
  first : HalfBitRun F bitStart bitEnd
  second : HalfBitRun F bitStart bitEnd
  sameHigh : first.filled.prelude.highFreq = second.filled.prelude.highFreq
  sameLow : first.filled.prelude.lowFreq = second.filled.prelude.lowFreq
  sameTransition : first.transition = second.transition
  agree : ∀ i, first.guard ≤ i → first.buffer.samples[i]? = second.buffer.samples[i]?

namespace Guarded

variable {bitStart bitEnd : ℕ} (pair : Guarded F bitStart bitEnd)

/-- Both calls return the same value with the same confidence. -/
def Agree : Prop :=
  ∃ value bitConfidence, pair.first.Decides value bitConfidence ∧
    pair.second.Decides value bitConfidence

/-- As many of the samples up to `start_sample` are high, and as many low, in both buffers. -/
def Balanced : Prop := pair.first.guardSurplus = pair.second.guardSurplus

/-- Both offsets of `start_sample` are the same. -/
theorem sameGuard : pair.first.guard = pair.second.guard := by
  rw [HalfBitRun.guard, HalfBitRun.guard, pair.sameTransition]

/-- Behind `start_sample` both buffers are converted to the same. -/
theorem sameBehind : pair.first.binary.drop (pair.first.guard + 1) =
    pair.second.binary.drop (pair.second.guard + 1) := by
  rw [← pair.sameGuard, HalfBitRun.binary, HalfBitRun.binary, ← pair.sameHigh, ← pair.sameLow]
  exact convertSamplesToBinary_agree _ _ _ pair.agree

/-- The sums are the same if and only if the samples up to `start_sample` are in balance. -/
theorem sums_eq_iff :
    sumFromOne pair.first.binary = sumFromOne pair.second.binary ↔ pair.Balanced := by
  rw [pair.first.sum_eq, pair.second.sum_eq, pair.sameBehind, Balanced, add_left_inj]

/-- Both calls agree if the results from their sums do. -/
theorem agree_iff : pair.Agree ↔
    bitValue (sumFromOne pair.first.binary) = bitValue (sumFromOne pair.second.binary) ∧
    (confidence (sumFromOne pair.first.binary) (threeFifths (int32 (bitEnd - bitStart + 1))) : F) =
      confidence (sumFromOne pair.second.binary) (threeFifths (int32 (bitEnd - bitStart + 1))) := by
  constructor
  · rintro ⟨value, bitConfidence, first, second⟩
    obtain ⟨_, _, _, firstRun, sameFirst, confFirst⟩ := first
    obtain ⟨_, _, _, secondRun, sameSecond, confSecond⟩ := second
    have firstIs := pair.first.decides.ensures _ _ _ firstRun
    have secondIs := pair.second.decides.ensures _ _ _ secondRun
    constructor
    · rw [← firstIs.1, ← secondIs.1, sameFirst, sameSecond]
    · rw [← firstIs.2, ← secondIs.2, confFirst, confSecond]
  · rintro ⟨values, confidences⟩
    refine ⟨_, _, pair.first.decides, ?_⟩
    rw [values, confidences]
    exact pair.second.decides

/-- In balance, both calls agree, whatever the arithmetic. -/
theorem agree_of_balanced (balanced : pair.Balanced) : pair.Agree := by
  rw [agree_iff, pair.sums_eq_iff.mpr balanced]
  exact ⟨rfl, rfl⟩

end Guarded

/-! ## Exact arithmetic -/

/-- A sum of a single sample is nothing. -/
theorem sumFromOne_of_few (highFreq lowFreq : F) (samples : List (Cplx F)) {numSamples : ℤ}
    (few : numSamples ≤ 1) :
    sumFromOne (convertSamplesToBinary highFreq lowFreq samples numSamples) = 0 := by
  have single : (samples.take (numSamples.toNat - 0)).length ≤ 1 := by
    rw [List.length_take]
    omega
  rw [sumFromOne, convertSamplesToBinary_drop highFreq lowFreq samples numSamples 0,
    List.drop_zero]
  cases taken : samples.take (numSamples.toNat - 0) with
  | nil => rfl
  | cons x rest =>
    rw [taken, List.length_cons] at single
    rw [List.eq_nil_of_length_eq_zero (show rest.length = 0 by omega)]
    rfl

/-- In exact arithmetic, value and confidence determine the sum. -/
theorem sum_of_results {sum other numSamples : ℤ} (several : 0 < numSamples)
    (values : bitValue sum = bitValue other)
    (confidences : (confidence sum numSamples : ℝ) = confidence other numSamples) :
    sum = other := by
  have positive : (0 : ℝ) < numSamples := by exact_mod_cast several
  have sizes : |(sum : ℝ) / numSamples| = |(other : ℝ) / numSamples| := confidences
  rw [abs_div, abs_div, div_left_inj' (abs_pos.mpr positive.ne').ne'] at sizes
  have absolute : |sum| = |other| := by exact_mod_cast sizes
  rw [bitValue, bitValue] at values
  rcases abs_eq_abs.mp absolute with same | opposite
  · exact same
  · split at values <;> split at values <;> omega

/-- In exact arithmetic both calls agree if and only if the samples up to `start_sample` are in
balance. -/
theorem Guarded.agree_iff_balanced {bitStart bitEnd : ℕ} (pair : Guarded ℝ bitStart bitEnd) :
    pair.Agree ↔ pair.Balanced := by
  constructor
  · intro agree
    obtain ⟨values, confidences⟩ := pair.agree_iff.mp agree
    rw [← pair.sums_eq_iff]
    by_cases several : 0 < threeFifths (int32 (bitEnd - bitStart + 1))
    · exact sum_of_results several values confidences
    · rw [HalfBitRun.binary, HalfBitRun.binary, sumFromOne_of_few _ _ _ (by omega),
        sumFromOne_of_few _ _ _ (by omega)]
  · exact pair.agree_of_balanced

/-- The first fifth of a half-bit has no influence just when it is in balance: then in every
arithmetic, and in exact arithmetic only then. -/
theorem guardInterval_iff (bitStart bitEnd : ℕ) :
    (∀ (F : Type) [Arithmetic F] (pair : Guarded F bitStart bitEnd),
      pair.Balanced → pair.Agree) ∧
    ∀ pair : Guarded ℝ bitStart bitEnd, pair.Agree ↔ pair.Balanced :=
  ⟨fun _ _ pair => pair.agree_of_balanced, fun pair => pair.agree_iff_balanced⟩

/-! ## A buffer that is not in balance -/

/-- Samples that are all in the cache are collected from it. -/
theorem collect_cached {host : Host F} (count : ℕ) (state : State host)
    (cached : state.reader.readFromCache = true)
    (inside : state.reader.cacheLoc + count ≤ state.reader.cacheCount) :
    (collect count : Decode host (List (Cplx F))).Attains state fun recorded later _ =>
      recorded = (List.range count).map
          (fun i : ℕ => state.reader.symbolCache (state.reader.cacheLoc + i)) ∧
        later.prelude = state.prelude := by
  induction count generalizing state with
  | zero =>
    rw [collect, attains_pure]
    exact ⟨rfl, rfl⟩
  | succ count ih =>
    have replays : state.reader.Replays := ⟨cached, by omega⟩
    rw [collect, attains_bind]
    apply (getNextSample_attains state).mono
    rintro result later early ⟨rfl, rfl, _⟩
    have next : state.afterNext = { state with reader := state.reader.replayed } := by
      rw [State.afterNext, if_pos replays]
    rw [next]
    simp only [Reader.next, if_pos replays, attains_bind]
    apply (ih { state with reader := state.reader.replayed } cached
      (by show state.reader.cacheLoc + 1 + count ≤ state.reader.cacheCount; omega)).mono
    rintro recorded later trace ⟨rfl, same⟩
    rw [attains_pure, List.range_succ_eq_map, List.map_cons, List.map_map]
    constructor
    · simp only [Reader.replayed, Nat.cast_zero, add_zero, List.cons.injEq, true_and]
      apply List.map_congr_left
      intro i _
      simp only [Function.comp_apply, Nat.cast_succ]
      congr 1
      omega
    · exact same

/-- A state with five samples in the cache: the first one so many quarter turns from the real axis,
then half a turn, a whole one, and three that repeat it. -/
noncomputable def fiveCached (turn : ℕ) : State plainHost :=
  let initial := State.initial plainHost
  { initial with
    reader := { initial.reader with
      readFromCache := true
      cacheCount := 5
      symbolCache := fun index =>
        if index = 0 then turned turn else if index = 1 then turned 2 else turned 4 }
    prelude := { initial.prelude with highFreq := Real.pi, lowFreq := Real.pi / 2 } }

/-- The buffer that `get_bit` is given for samples 0 to 4. -/
theorem fiveCached_fetched (turn : ℕ) :
    ∃ run : HalfBitRun ℝ 0 4, run.filled.prelude.highFreq = Real.pi ∧
      run.filled.prelude.lowFreq = Real.pi / 2 ∧
      run.buffer.samples = [turned turn, turned 2, turned 4, turned 4, turned 4] := by
  have fetched : (getSomeSamples 5 0 : Decode plainHost (Option (Buffer ℝ))).Attains
      (fiveCached turn) fun result later _ => ∃ buffer, result = some buffer ∧
        later.prelude = (fiveCached turn).prelude ∧
        buffer.samples = [turned turn, turned 2, turned 4, turned 4, turned 4] := by
    have there : ¬ 0 > (fiveCached turn).reader.currentReadLoc := by omega
    have skipped : (skipTo 0 : Decode plainHost Bool).Attains (fiveCached turn)
        fun result later _ => result = true ∧ later = fiveCached turn := by
      apply Attains.loop
      simp only [attains_bind, attains_get, there, if_false, attains_pure]
      exact ⟨True.intro, True.intro⟩
    rw [getSomeSamples]
    simp only [attains_bind, attains_get, attains_emit]
    apply skipped.mono
    rintro result later _ ⟨rfl, rfl⟩
    simp only [Bool.not_true, Bool.false_eq_true, if_false, attains_bind, attains_get,
      attains_assignReader]
    rw [if_neg (by decide), attains_bind]
    have inside : (0 : ℤ) + ((5 : ℕ) : ℤ) ≤ 5 := by omega
    apply (collect_cached _ _ rfl inside).mono
    rintro recorded later _ ⟨rfl, same⟩
    rw [attains_pure]
    exact ⟨_, rfl, same, rfl⟩
  obtain ⟨result, filled, trace, evaluates, buffer, rfl, same, samples⟩ := fetched
  exact ⟨⟨plainHost, fiveCached turn, buffer, filled, trace, evaluates⟩, by rw [same]; rfl,
    by rw [same]; rfl, samples⟩

/-- The classification of the steps between the samples. -/
theorem classify_exact : classify Real.pi (Real.pi / 2) Real.pi = 1 ∧
    classify Real.pi (Real.pi / 2) (Real.pi / 2) = -1 := by
  have positive := Real.pi_pos
  have same : Real.pi / Real.pi = 1 := div_self positive.ne'
  have double : Real.pi / (Real.pi / 2) = 2 := by
    field_simp
  have half : Real.pi / 2 / Real.pi = 1 / 2 := by
    field_simp
  have itself : Real.pi / 2 / (Real.pi / 2) = 1 := div_self (by positivity)
  constructor
  · rw [classify, if_pos]
    rw [le_exact, deviation_exact, deviation_exact, same, double]
    norm_num
  · rw [classify, if_neg]
    rw [le_exact, deviation_exact, deviation_exact, half, itself]
    norm_num

/-- A sample that is repeated has no frequency. -/
theorem still_exact (freq : ℝ) : lt (deviation 0 freq) (literal (5 / 100)) = false := by
  rw [Bool.eq_false_iff, ne_eq, lt_exact, deviation_exact, zero_div]
  show ¬ |(0 : ℝ) - 1| < ((5 / 100 : ℚ) : ℝ)
  norm_num

/-- No transition is found in five samples of which the last three are the same. -/
theorem scan_five {sample next last : Cplx ℝ}
    (still : deltaPhi (cargf last) (cargf last) = 0) :
    scanSamplesForEobTransition Real.pi (Real.pi / 2) [sample, next, last, last, last] 5 = -1 := by
  have nowhere (freq : ℝ) (i : ℤ) : scanFrom freq (cargf last) i [last, last] = -1 := by
    simp only [scanFrom, still, still_exact, Bool.false_eq_true, if_false]
  exact nowhere _ _

/-- `get_bit` does not return the same for all buffers that agree from `start_sample` on. -/
theorem guardInterval_influences :
    ¬ ∀ (bitStart bitEnd : ℕ) (pair : Guarded ℝ bitStart bitEnd), pair.Agree := by
  intro always
  obtain ⟨first, firstHigh, firstLow, firstSamples⟩ := fiveCached_fetched 0
  obtain ⟨second, secondHigh, secondLow, secondSamples⟩ := fiveCached_fetched 1
  have margin : withMargin (int32 ((4 : ℕ) - (0 : ℕ) + 1)) = 5 := by decide
  have fifths : threeFifths (int32 ((4 : ℕ) - (0 : ℕ) + 1)) = 3 := by decide
  have firstNone : first.transition = -1 := by
    rw [HalfBitRun.transition, firstHigh, firstLow, firstSamples, margin]
    exact scan_five (deltaPhi_still 4)
  have secondNone : second.transition = -1 := by
    rw [HalfBitRun.transition, secondHigh, secondLow, secondSamples, margin]
    exact scan_five (deltaPhi_still 4)
  have guards : first.guard = 1 := by
    rw [HalfBitRun.guard, firstNone]
    decide
  have secondGuard : second.guard = 1 := by
    rw [HalfBitRun.guard, secondNone]
    decide
  have balanced : first.guardSurplus = second.guardSurplus := by
    apply (Guarded.agree_iff_balanced
      { first, second
        sameHigh := by rw [firstHigh, secondHigh]
        sameLow := by rw [firstLow, secondLow]
        sameTransition := by rw [firstNone, secondNone]
        agree := by
          rw [guards, firstSamples, secondSamples]
          intro i behind
          cases i with
          | zero => omega
          | succ i => rfl }).mp
    exact always 0 4 _
  -- From the first to the second sample, the phase steps by half a turn or by a quarter.
  have steps (turn : ℕ) : ((((convertSamplesToBinary Real.pi (Real.pi / 2)
      [turned turn, turned 2, turned 4, turned 4, turned 4] 3).drop 1).take 1).sum : ℤ) =
      classify Real.pi (Real.pi / 2) (deltaPhi (cargf (turned 2)) (cargf (turned turn))) :=
    add_zero _
  rw [HalfBitRun.guardSurplus, HalfBitRun.guardSurplus, HalfBitRun.binary, HalfBitRun.binary,
    guards,
    secondGuard, firstHigh, firstLow, firstSamples, secondHigh, secondLow, secondSamples, fifths,
    steps 0, steps 1, deltaPhi_half 0, deltaPhi_quarter 1, classify_exact.1, classify_exact.2]
    at balanced
  cases balanced

end FcTpms.Decoder
