import FcTpms.Verif.Tape
import Mathlib.Tactic.Ring

/-!
# Signals of two tones

In a signal of two tones every phase step is one of two frequencies. If the measured frequencies
tell them apart, what `get_bit` sees of a window is the tone of each of its samples: the sum it
takes is the surplus of high samples (`surplus`), and the transition it looks for is the first
sample of the other tone in the last quarter (`transition`).
-/

namespace FcTpms.Decoder

open Program Program.Prog Arithmetic

variable {F : Type} [Arithmetic F] {host : Host F}

/-! ## Tones -/

/-- The phase step to the sample with the given number is the frequency of the given tone. -/
def HasTone (capture : Capture F) (freq : Bool → F) (number : ℕ) (tone : Bool) : Prop :=
  ∃ before sample, capture.sample number = some before ∧
    capture.sample (number + 1) = some sample ∧
      deltaPhi (cargf sample) (cargf before) = freq tone

/-- The samples behind `first` up to `last` have the given tones. -/
def Sounds (capture : Capture F) (freq : Bool → F) (tone : ℕ → Bool) (first last : ℕ) : Prop :=
  ∀ number, first ≤ number → number < last → HasTone capture freq number (tone (number + 1))

/-- The measured high frequency and low frequency tell the tones apart. -/
structure Separates (freq : Bool → F) (highFreq lowFreq : F) : Prop where
  /-- A high step is classified as high, a low one as low. -/
  classify : ∀ tone, classify highFreq lowFreq (freq tone) = if tone then 1 else -1
  /-- A high step is near the high frequency and a low step is not. -/
  high : ∀ tone, lt (deviation (freq tone) highFreq) (literal (5 / 100)) = tone
  /-- A low step is near the low frequency and a high step is not. -/
  low : ∀ tone, lt (deviation (freq tone) lowFreq) (literal (5 / 100)) = !tone
  /-- The frequencies differ. -/
  differ : eq lowFreq highFreq = false
  /-- Comparing finds the high frequency equal to itself. -/
  same : eq highFreq highFreq = true

/-- High samples count up, low samples count down. -/
def sign (tone : Bool) : ℤ := if tone then 1 else -1

/-- How many more of the `count` samples behind the given one are high than low. -/
def surplus (tone : ℕ → Bool) (number count : ℕ) : ℤ :=
  ((List.range' (number + 1) count).map fun number => sign (tone number)).sum

/-- The first of `count` samples from index `i` on, behind sample `number`, whose tone is not the
original one. -/
def scanTones (tone : ℕ → Bool) (original : Bool) (number : ℕ) (i : ℤ) : ℕ → ℤ
  | 0 => -1
  | count + 1 =>
    if tone (number + 1) = original then scanTones tone original (number + 1) (i + 1) count else i

/-- The transition in a window of `length` samples behind the location `bitStart`. -/
def transition (tone : ℕ → Bool) (bitStart length : ℕ) : ℤ :=
  let baselineLimit := 3 * length / 4
  scanTones tone (decide (0 < surplus tone (bitStart + 1) (baselineLimit - 1)))
    (bitStart + baselineLimit) baselineLimit (length - baselineLimit)

/-! ## Steady tones -/

/-- The samples behind `number` up to `last` all have the given tone. -/
def Steady (tone : ℕ → Bool) (value : Bool) (number last : ℕ) : Prop :=
  ∀ m, number < m → m ≤ last → tone m = value

theorem Steady.mono {tone : ℕ → Bool} {value : Bool} {number last number' last' : ℕ}
    (steady : Steady tone value number last) (lower : number ≤ number') (upper : last' ≤ last) :
    Steady tone value number' last' :=
  fun m above below => steady m (by omega) (by omega)

/-- Samples of one tone that go on with the same tone. -/
theorem Steady.append {tone : ℕ → Bool} {value : Bool} {number middle last number' last' : ℕ}
    (early : Steady tone value number middle) (late : Steady tone value middle last)
    (lower : number ≤ number') (upper : last' ≤ last) : Steady tone value number' last' := by
  intro m above below
  by_cases before : m ≤ middle
  · exact early m (by omega) before
  · exact late m (by omega) (by omega)

/-- Every sample counts for at most one. -/
theorem surplus_bounds (tone : ℕ → Bool) (number count : ℕ) :
    -(count : ℤ) ≤ surplus tone number count ∧ surplus tone number count ≤ count := by
  induction count generalizing number with
  | zero => exact ⟨le_refl _, le_refl _⟩
  | succ count ih =>
    have rest := ih (number + 1)
    have first : -1 ≤ sign (tone (number + 1)) ∧ sign (tone (number + 1)) ≤ 1 := by
      cases tone (number + 1) <;> decide
    unfold surplus at rest ⊢
    rw [List.range'_succ, List.map_cons, List.sum_cons]
    omega

/-- Samples count separately. -/
theorem surplus_add (tone : ℕ → Bool) (number count more : ℕ) :
    surplus tone number (count + more) =
      surplus tone number count + surplus tone (number + count) more := by
  have split : number + count + 1 = number + 1 + count := by omega
  unfold surplus
  rw [split, ← List.range'_append_1, List.map_append, List.sum_append]

/-- Samples of one tone all count for it. -/
theorem surplus_steady {tone : ℕ → Bool} {value : Bool} {number count : ℕ}
    (steady : Steady tone value number (number + count)) :
    surplus tone number count = count * sign value := by
  induction count generalizing number with
  | zero => rw [Nat.cast_zero, zero_mul]; rfl
  | succ count ih =>
    have rest := ih (steady.mono (Nat.le_succ number) (by omega))
    have first := steady (number + 1) (by omega) (by omega)
    have split := surplus_add tone number 1 count
    have one : surplus tone number 1 = sign value := by
      rw [surplus, List.range'_one, List.map_singleton, List.sum_singleton, first]
    rw [Nat.add_comm count 1, split, one, rest]
    push_cast
    ring

/-- The tone of more than half of the samples decides. -/
theorem surplus_majority {tone : ℕ → Bool} {value : Bool} {number count some : ℕ}
    (steady : Steady tone value number (number + some)) (most : count < 2 * some)
    (positive : 0 < count) :
    0 < surplus tone number count ↔ value = true := by
  have value_sign : sign value = if value then 1 else -1 := rfl
  by_cases few : count ≤ some
  · rw [surplus_steady (steady.mono (le_refl _) (by omega)), value_sign]
    cases value
    · simp only [Bool.false_eq_true, if_false, iff_false]
      omega
    · simp only [if_true, iff_true]
      omega
  · have split := surplus_add tone number some (count - some)
    have rest := surplus_bounds tone (number + some) (count - some)
    rw [Nat.add_sub_cancel' (by omega), surplus_steady steady, value_sign] at split
    rw [split]
    cases value
    · simp only [Bool.false_eq_true, if_false, iff_false]
      omega
    · simp only [if_true, iff_true]
      omega

/-- No transition is found in samples of the original tone. -/
theorem scanTones_steady {tone : ℕ → Bool} {original : Bool} {number count : ℕ} (i : ℤ)
    (steady : Steady tone original number (number + count)) :
    scanTones tone original number i count = -1 := by
  induction count generalizing number i with
  | zero => rfl
  | succ count ih =>
    rw [scanTones, if_pos (steady _ (by omega) (by omega))]
    exact ih _ (steady.mono (by omega) (by omega))

/-- The transition is found at the first sample of the other tone. -/
theorem scanTones_edge {tone : ℕ → Bool} {original : Bool} {number count same : ℕ} (i : ℤ)
    (steady : Steady tone original number (number + same)) (inside : same < count)
    (edge : tone (number + same + 1) = !original) :
    scanTones tone original number i count = i + same := by
  induction same generalizing number count i with
  | zero =>
    obtain ⟨count, rfl⟩ : ∃ rest, count = rest + 1 := ⟨count - 1, by omega⟩
    rw [Nat.add_zero] at edge
    rw [scanTones, edge, if_neg (by cases original <;> decide), Nat.cast_zero, add_zero]
  | succ same ih =>
    obtain ⟨count, rfl⟩ : ∃ rest, count = rest + 1 := ⟨count - 1, by omega⟩
    have step : number + 1 + same + 1 = number + (same + 1) + 1 := by omega
    rw [scanTones, if_pos (steady _ (by omega) (by omega)),
      ih (i + 1) (steady.mono (by omega) (by omega)) (by omega) (by rw [step]; exact edge)]
    push_cast
    ring

/-- A window that is of one tone for more than half of its first three quarters, and to its end, has
no transition. -/
theorem transition_steady {tone : ℕ → Bool} {value : Bool} {bitStart length : ℕ}
    (some : 3 ≤ length) (steady : Steady tone value (bitStart + 1) (bitStart + length)) :
    transition tone bitStart length = -1 := by
  have majority := surplus_majority (steady.mono (le_refl _)
    (show bitStart + 1 + (3 * length / 4 - 1) ≤ bitStart + length by omega))
    (show 3 * length / 4 - 1 < 2 * (3 * length / 4 - 1) by omega) (by omega)
  have original : decide (0 < surplus tone (bitStart + 1) (3 * length / 4 - 1)) = value := by
    rw [Bool.eq_iff_iff, decide_eq_true_iff]
    exact majority
  rw [transition, original]
  exact scanTones_steady _ (steady.mono (by omega) (by omega))

/-- A window whose tone changes at index `edge`, behind the middle of its first three quarters, has
its transition there or at the start of its last quarter. -/
theorem transition_edge {tone : ℕ → Bool} {value : Bool} {bitStart length edge : ℕ}
    (some : 3 ≤ length) (steady : Steady tone value (bitStart + 1) (bitStart + edge))
    (changed : Steady tone (!value) (bitStart + edge) (bitStart + max edge (3 * length / 4) + 1))
    (majority : 3 * length / 4 + 1 < 2 * edge) (inside : edge < length) :
    transition tone bitStart length = max edge (3 * length / 4) := by
  have more := surplus_majority (steady.mono (le_refl _)
    (show bitStart + 1 + (edge - 1) ≤ bitStart + edge by omega))
    (show 3 * length / 4 - 1 < 2 * (edge - 1) by omega) (by omega)
  have original : decide (0 < surplus tone (bitStart + 1) (3 * length / 4 - 1)) = value := by
    rw [Bool.eq_iff_iff, decide_eq_true_iff]
    exact more
  rw [transition, original]
  by_cases late : 3 * length / 4 ≤ edge
  · have found := scanTones_edge (3 * length / 4 : ℕ)
      (steady.mono (show bitStart + 1 ≤ bitStart + 3 * length / 4 by omega) (by omega) :
        Steady tone value _ (bitStart + 3 * length / 4 + (edge - 3 * length / 4)))
      (show edge - 3 * length / 4 < length - 3 * length / 4 by omega)
      (changed _ (by omega) (by omega))
    rw [found]
    omega
  · have found := scanTones_edge (3 * length / 4 : ℕ)
      (fun m above below => absurd above (by omega) : Steady tone value _
        (bitStart + 3 * length / 4 + 0)) (show 0 < length - 3 * length / 4 by omega)
      (changed _ (by omega) (by omega))
    rw [found]
    omega

section Windows

variable {capture : Capture F} {freq : Bool → F} {tone : ℕ → Bool} {highFreq lowFreq : F}

/-- Steps of a window are classified by their tones. -/
theorem convertFrom_window (separates : Separates freq highFreq lowFreq) {before : Cplx F}
    {number count : ℕ} (opened : capture.base ≤ number)
    (start : capture.sample number = some before ∨ count = 0)
    (sounds : Sounds capture freq tone number (number + count)) :
    convertFrom highFreq lowFreq (cargf before) (capture.window number count) =
      (List.range' (number + 1) count).map fun number => sign (tone number) := by
  induction count generalizing number before with
  | zero => rw [Capture.window, List.take_zero, convertFrom, List.range'_zero, List.map_nil]
  | succ count ih =>
    rcases sounds number (le_refl _) (by omega) with ⟨first, sample, found, next, step⟩
    have same : before = first := by
      rw [found] at start
      simpa [eq_comm] using start
    have rest := ih (show capture.base ≤ number + 1 by omega) (Or.inl next)
      fun further lower upper => sounds further (by omega) (by omega)
    rw [window_succ opened next, convertFrom, List.range'_succ, List.map_cons, rest, same, step,
      separates.classify]
    rfl

omit [Arithmetic F] in
/-- The start of a buffer whose samples were obtained is a window itself. -/
theorem take_windowSamples (host : Host F) (allocation : ℕ) {bitStart numSamples count : ℕ}
    (opened : capture.base ≤ bitStart) (short : count ≤ 11 * numSamples / 10)
    (inside : bitStart + count ≤ capture.last) :
    (windowSamples host capture allocation bitStart numSamples).take count =
      capture.window bitStart count := by
  have length := window_length bitStart (11 * numSamples / 10) opened
  rw [windowSamples, withMargin_natCast, Int.toNat_natCast,
    List.take_append_of_le_length (by omega),
    Capture.window, List.take_take, Nat.min_eq_left short]
  rfl

/-- The sum that `get_bit` takes of obtained samples. -/
theorem sum_windowSamples (separates : Separates freq highFreq lowFreq)
    (host : Host F) (allocation : ℕ) {bitStart numSamples count : ℕ}
    (opened : capture.base ≤ bitStart) (short : count + 1 ≤ 11 * numSamples / 10)
    (inside : bitStart + (count + 1) ≤ capture.last)
    (sounds : Sounds capture freq tone (bitStart + 1) (bitStart + 1 + count)) :
    sumFromOne (convertSamplesToBinary highFreq lowFreq
      (windowSamples host capture allocation bitStart numSamples) (count + 1 : ℕ)) =
        surplus tone (bitStart + 1) count := by
  rcases exists_sample opened (by omega) with ⟨first, found⟩
  rw [convertSamplesToBinary, Int.toNat_natCast,
    take_windowSamples host allocation opened short inside,
    window_succ opened found]
  dsimp only
  rw [convertFrom_window separates (by omega) (Or.inl found) sounds, sumFromOne, List.drop_one,
    List.tail_cons]
  rfl

/-- The scan for a transition goes by the tones. -/
theorem scanFrom_window (separates : Separates freq highFreq lowFreq) (original : Bool)
    {before : Cplx F} {number count : ℕ} (i : ℤ) (opened : capture.base ≤ number)
    (start : capture.sample number = some before)
    (sounds : Sounds capture freq tone number (number + count)) :
    scanFrom (if original then lowFreq else highFreq) (cargf before) i
      (capture.window number count) = scanTones tone original number i count := by
  induction count generalizing number before i with
  | zero => rw [Capture.window, List.take_zero, scanFrom, scanTones]
  | succ count ih =>
    rcases sounds number (le_refl _) (by omega) with ⟨first, sample, found, next, step⟩
    have same : before = first := Option.some_injective _ (start.symm.trans found)
    have rest := ih (i + 1) (show capture.base ≤ number + 1 by omega) next
      fun further lower upper => sounds further (by omega) (by omega)
    rw [window_succ opened next, scanFrom, rest, same, step, scanTones]
    cases original with
    | true =>
      rw [if_pos rfl, separates.low]
      cases tone (number + 1) <;> simp
    | false =>
      rw [if_neg Bool.false_ne_true, separates.high]
      cases tone (number + 1) <;> simp

omit [Arithmetic F] in
/-- The elements of a window are the samples with consecutive numbers. -/
theorem getElem?_window {number count i : ℕ} (opened : capture.base ≤ number) (short : i < count) :
    (capture.window number count)[i]? = capture.sample (number + i + 1) := by
  have place : number + i + 1 - capture.base - 1 = number - capture.base + i := by omega
  rw [Capture.window, List.getElem?_take_of_lt short, List.getElem?_drop, Capture.sample,
    if_pos (by omega), place]

omit [Arithmetic F] in
/-- The end of a window is a window. -/
theorem drop_window {number count limit : ℕ} (opened : capture.base ≤ number) :
    (capture.window number count).drop limit =
      capture.window (number + limit) (count - limit) := by
  have place : number + limit - capture.base = number - capture.base + limit := by omega
  rw [Capture.window, Capture.window, List.drop_take, List.drop_drop, place]

/-- `scan_samples_for_eob_transition` finds the transition of the tones. -/
theorem scan_windowSamples (separates : Separates freq highFreq lowFreq)
    (host : Host F) (allocation : ℕ) {bitStart numSamples : ℕ}
    (opened : capture.base ≤ bitStart) (some : 2 ≤ numSamples)
    (inside : bitStart + 11 * numSamples / 10 ≤ capture.last)
    (sounds : Sounds capture freq tone (bitStart + 1) (bitStart + 11 * numSamples / 10)) :
    scanSamplesForEobTransition highFreq lowFreq
      (windowSamples host capture allocation bitStart numSamples) (withMargin numSamples) =
        transition tone bitStart (11 * numSamples / 10) := by
  obtain ⟨window, length⟩ : ∃ window, window = 11 * numSamples / 10 := ⟨_, rfl⟩
  obtain ⟨limit, baseline⟩ : ∃ limit, limit + 1 = 3 * window / 4 := ⟨3 * window / 4 - 1, by omega⟩
  rw [← length] at inside sounds
  have sum := sum_windowSamples separates host allocation opened
    (show limit + 1 ≤ 11 * numSamples / 10 by omega) (by omega)
    fun number lower upper => sounds number lower (by omega)
  rcases exists_sample (show capture.base ≤ bitStart + limit by omega) (by omega) with
    ⟨last, found⟩
  have whole := take_windowSamples host allocation opened
    (show window ≤ 11 * numSamples / 10 by omega) inside
  have element :
      (windowSamples host capture allocation bitStart numSamples)[limit]? = .some last := by
    rw [← found, ← getElem?_window opened (show limit < window by omega), ← whole,
      List.getElem?_take_of_lt (by omega)]
  have heard : Sounds capture freq tone (bitStart + limit + 1)
      (bitStart + limit + 1 + (window - (limit + 1))) :=
    fun number lower upper => sounds number (by omega) (by omega)
  have rest := scanFrom_window separates (decide (0 < surplus tone (bitStart + 1) limit))
    (limit + 1 : ℕ) (show capture.base ≤ bitStart + limit + 1 by omega) found heard
  have start : (max 1 ((limit + 1 : ℕ) : ℤ)) = (limit + 1 : ℕ) := by omega
  have back : (((limit + 1 : ℕ) : ℤ) - 1).toNat = limit := by omega
  rw [withMargin_natCast, ← length, scanSamplesForEobTransition, threeQuarters_natCast, ← baseline]
  rw [sum, back, element, start, Int.toNat_natCast, Int.toNat_natCast, whole, drop_window opened]
  rw [transition, ← baseline]
  dsimp only
  rw [Nat.add_sub_cancel, ← add_assoc, ← rest]
  by_cases positive : 0 < surplus tone (bitStart + 1) limit
  · simp only [positive, if_true, separates.same, decide_true]
  · simp only [positive, if_false, separates.differ, decide_false, Bool.false_eq_true]

end Windows

end FcTpms.Decoder
