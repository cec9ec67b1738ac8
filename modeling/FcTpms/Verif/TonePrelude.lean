import FcTpms.Decoder.Exact
import FcTpms.Decoder.Prelude
import FcTpms.Verif.Tones
import Mathlib.Tactic.FieldSimp

/-!
# The prelude of an ideal signal

Over exact arithmetic the average of equal phase steps is the step. Each measured phase ends with
the first step of the other tone, which still enters the average; after a thousand steps that moves
it so little that the measured frequencies tell the tones apart (`Measured.separates`).
-/

namespace FcTpms.Decoder

open Program Program.Prog Arithmetic

/-! ## Listening to a capture -/

section Listening

variable {F : Type} [Arithmetic F] {host : Host F} {capture : Capture F}

/-- The sample with the given number was read last, and samples are not stored. -/
structure Listening (capture : Capture F) (reader : Reader host) (number : ℕ) : Prop where
  idle : reader.Idle
  placed : Placed capture reader
  number : reader.totalSamplesIn = number
  more : reader.file.eof = false

omit [Arithmetic F] in
/-- The cache of a reader is that of another. -/
structure Reader.KeepsCache (reader later : Reader host) : Prop where
  loc : later.cacheLoc = reader.cacheLoc
  count : later.cacheCount = reader.cacheCount
  samples : later.symbolCache = reader.symbolCache
  place : later.cacheLocInFile = reader.cacheLocInFile

omit [Arithmetic F] in
theorem Reader.KeepsCache.refl (reader : Reader host) : reader.KeepsCache reader :=
  ⟨rfl, rfl, rfl, rfl⟩

omit [Arithmetic F] in
theorem Reader.KeepsCache.trans {first second third : Reader host} (early : first.KeepsCache second)
    (late : second.KeepsCache third) : first.KeepsCache third :=
  ⟨late.loc.trans early.loc, late.count.trans early.count, late.samples.trans early.samples,
    late.place.trans early.place⟩

/-- What is still to be read begins with the next sample. -/
theorem Placed.upcoming_cons {reader : Reader host} (placed : Placed capture reader)
    {sample : Cplx F} (found : capture.sample (reader.totalSamplesIn + 1) = some sample) :
    ∃ rest, reader.upcoming = sample :: rest := by
  have opened := placed.opened
  have place : reader.totalSamplesIn + 1 - capture.base - 1 =
      reader.totalSamplesIn - capture.base := by omega
  rw [Capture.sample, if_pos (by omega), place] at found
  obtain ⟨inside, same⟩ := List.getElem?_eq_some_iff.mp found
  rw [placed.rest, List.drop_eq_getElem_cons inside, same]
  exact ⟨_, rfl⟩

/-- Listening to one more sample. -/
theorem Listening.next {state : State host} {number : ℕ} {sample : Cplx F}
    (listening : Listening capture state.reader number)
    (found : capture.sample (number + 1) = some sample) :
    (getNextSample : Decode host (Option (Cplx F))).Attains state fun result later _ =>
      result = some sample ∧ ∃ reader, later = { state with reader := reader } ∧
        Listening capture reader (number + 1) ∧ state.reader.KeepsCache reader := by
  obtain ⟨idle, placed, rfl, more⟩ := listening
  obtain ⟨rest, holds⟩ := placed.upcoming_cons found
  have advanced : state.reader.idleNext = state.reader.advanced := by
    rw [Reader.idleNext, if_neg (by rw [holds]; simp)]
  refine (getNextSample_attains state).mono ?_
  rintro result later trace ⟨rfl, rfl, _⟩
  constructor
  · rw [idle.next, holds]
    rfl
  · refine ⟨state.reader.advanced, ?_, ?_, ⟨rfl, rfl, rfl, rfl⟩⟩
    · rw [idle.afterNext, advanced]
    · constructor
      · rw [← advanced]
        exact idle.idleNext
      · have moved := placed.next
        have same := congrArg Prod.snd idle.next
        rw [same, advanced] at moved
        exact moved
      · rfl
      · exact more

end Listening

/-! ## Measuring a frequency -/

section Measuring

variable {host : Host ℝ} {capture : Capture ℝ} {freq : Bool → ℝ} {tone : ℕ → Bool}

/-- The average of a phase: so many steps of one frequency and a last one of another. -/
noncomputable def average (steps : ℕ) (freq last : ℝ) : ℝ := (steps * freq + last) / (steps + 1)

/-- How a phase of one tone is measured: with so many steps of a frequency and a last one of
another, from the sample with the given number on. -/
structure Measures (store : ℝ → Prelude ℝ → Prelude ℝ) (inside : ℝ → Prelude ℝ → Bool)
    (least : ℕ) (freq last : ℝ) (steps number : ℕ) (prelude : Prelude ℝ) : Prop where
  /-- Only the last average is stored. -/
  overwrites : ∀ early late prelude, store late (store early prelude) = store late prelude
  /-- The steps of the tone are inside the phase. -/
  stays : inside freq (store freq prelude) = true
  /-- The last step is not. -/
  leaves : inside last (store (average steps freq last) prelude) = false
  /-- The phase is long enough by then. -/
  enough : least ≤ number + steps + 1

/-- The running average of equal steps. -/
theorem average_same (steps : ℕ) (freq : ℝ) :
    div (add ((steps : ℝ) * freq) freq) (ofInt ((steps + 1 : ℕ) : ℤ)) = freq := by
  show ((steps : ℝ) * freq + freq) / (((steps + 1 : ℕ) : ℤ) : ℝ) = freq
  have positive : (steps : ℝ) + 1 ≠ 0 := by positivity
  push_cast
  field_simp

/-- The running average at the last step. -/
theorem average_last (steps : ℕ) (freq last : ℝ) :
    div (add ((steps : ℝ) * freq) last) (ofInt ((steps + 1 : ℕ) : ℤ)) =
      average steps freq last := by
  show ((steps : ℝ) * freq + last) / (((steps + 1 : ℕ) : ℤ) : ℝ) = average steps freq last
  push_cast
  rfl

/-- One round of a measured phase. -/
noncomputable def measureRound (host : Host ℝ) (store : ℝ → Prelude ℝ → Prelude ℝ)
    (phaseStart least most : ℕ) (inside : ℝ → Prelude ℝ → Bool) (measured : Measurement ℝ) :
    Decode host (Measurement ℝ ⊕ Option ℝ) := do
  match ← getNextSample with
  | none => return .inr none
  | some x =>
    if (← Prog.get).reader.file.eof then return .inr none
    let phi := cargf x
    let step := deltaPhi phi measured.prevPhi
    let cumPhi := add measured.cumPhi step
    let count := measured.count + 1
    assignPrelude (store (div cumPhi (ofInt (count : ℕ))))
    if count > most then return .inr none
    let state ← Prog.get
    if state.reader.totalSamplesIn < u32 (phaseStart + least) ∨ inside step state.prelude then
      return .inl ⟨cumPhi, count, phi⟩
    return .inr (some phi)

/-- A measured phase is a loop over these rounds. -/
theorem measurePhase_eq (store : ℝ → Prelude ℝ → Prelude ℝ) (phaseStart least most : ℕ)
    (inside : ℝ → Prelude ℝ → Bool) (prevPhi : ℝ) :
    (measurePhase store phaseStart least most inside prevPhi : Decode host (Option ℝ)) =
      Prog.loop (measureRound host store phaseStart least most inside)
        ⟨((0 : ℕ) : ℝ) * 0, 0, prevPhi⟩ := by
  have zero : literal (F := ℝ) 0 = ((0 : ℕ) : ℝ) * 0 := by
    show ((0 : ℚ) : ℝ) = ((0 : ℕ) : ℝ) * 0
    simp
  rw [measurePhase, zero]
  congr 1
  funext measured
  unfold measureRound
  congr 1
  funext sample
  cases sample with
  | none => rfl
  | some sample => rfl

/-- One round: a sample is read and its step enters the average. -/
theorem measureRound_tone {store : ℝ → Prelude ℝ → Prelude ℝ} {inside : ℝ → Prelude ℝ → Bool}
    {phaseStart least most done number : ℕ} {cumPhi step : ℝ} {state : State host}
    {before sample : Cplx ℝ} (listening : Listening capture state.reader number)
    (next : capture.sample (number + 1) = some sample)
    (stepped : deltaPhi (cargf sample) (cargf before) = step) (few : done + 1 ≤ most) :
    (measureRound host store phaseStart least most inside ⟨cumPhi, done, cargf before⟩).Attains
      state fun answer later _ => ∃ reader prelude,
        prelude = store (div (add cumPhi step) (ofInt ((done + 1 : ℕ) : ℤ))) state.prelude ∧
        later = { state with reader := reader, prelude := prelude } ∧
        Listening capture reader (number + 1) ∧ state.reader.KeepsCache reader ∧
        answer = if number + 1 < u32 (phaseStart + least) ∨ inside step prelude = true then
            .inl ⟨add cumPhi step, done + 1, cargf sample⟩
          else .inr (some (cargf sample)) := by
  have short : ¬ done + 1 > most := by omega
  rw [measureRound, attains_bind]
  refine (listening.next next).mono ?_
  rintro result later early ⟨rfl, reader, rfl, heard, kept⟩
  have more : reader.file.eof = false := heard.more
  have counted : reader.totalSamplesIn = number + 1 := heard.number
  simp only [attains_bind, attains_get, more, Bool.false_eq_true, if_false, attains_assignPrelude,
    short, stepped, counted]
  split
  · rename_i going
    rw [attains_pure]
    exact ⟨reader, _, rfl, rfl, heard, kept, (if_pos going).symm⟩
  · rename_i stopped
    rw [attains_pure]
    exact ⟨reader, _, rfl, rfl, heard, kept, (if_neg stopped).symm⟩

/-- A phase of one tone is measured up to the first sample of the other tone. -/
theorem measurePhase_tones {store : ℝ → Prelude ℝ → Prelude ℝ}
    {inside : ℝ → Prelude ℝ → Bool} {phaseStart least most steps number : ℕ} {value : Bool}
    {state : State host} {before : Cplx ℝ}
    (measures : Measures store inside (u32 (phaseStart + least)) (freq value) (freq (!value)) steps
      number state.prelude)
    (listening : Listening capture state.reader number)
    (found : capture.sample number = some before) (few : steps + 1 ≤ most)
    (sounds : Sounds capture freq tone number (number + steps + 1))
    (steady : Steady tone value number (number + steps))
    (changed : tone (number + steps + 1) = !value) :
    (measurePhase store phaseStart least most inside (cargf before) :
      Decode host (Option ℝ)).Attains state fun result later _ =>
        ∃ last reader, capture.sample (number + steps + 1) = some last ∧
          result = some (cargf last) ∧
          later = { state with
            reader := reader
            prelude := store (average steps (freq value) (freq (!value))) state.prelude } ∧
          Listening capture reader (number + steps + 1) ∧ state.reader.KeepsCache reader := by
  -- The induction is on the steps still to come; `done` of them are in the running average.
  have rounds : ∀ rest done (reader : Reader host) (prelude : Prelude ℝ) (before : Cplx ℝ),
      done + rest = steps → (∀ value, store value prelude = store value state.prelude) →
      Listening capture reader (number + done) → capture.sample (number + done) = some before →
      state.reader.KeepsCache reader →
      (Prog.loop (measureRound host store phaseStart least most inside)
        ⟨(done : ℝ) * freq value, done, cargf before⟩).Attains
          { state with reader := reader, prelude := prelude } fun result later _ =>
            ∃ last reader, capture.sample (number + steps + 1) = some last ∧
              result = some (cargf last) ∧
              later = { state with
                reader := reader
                prelude := store (average steps (freq value) (freq (!value))) state.prelude } ∧
              Listening capture reader (number + steps + 1) ∧ state.reader.KeepsCache reader := by
    intro rest
    induction rest with
    | zero =>
      intro done reader prelude before all same heard here kept
      obtain rfl : done = steps := by omega
      obtain ⟨first, last, present, next, step⟩ := sounds (number + done) (by omega) (by omega)
      rw [here] at present
      obtain rfl := Option.some.inj present
      rw [changed] at step
      refine Attains.loop ((measureRound_tone heard next step few).mono ?_)
      rintro answer later trace ⟨after, measured, rfl, rfl, listened, keeps, rfl⟩
      rw [average_last, same, if_neg]
      · exact ⟨last, after, next, rfl, rfl, listened, kept.trans keeps⟩
      · have enough := measures.enough
        have leaves := measures.leaves
        rw [leaves]
        simp only [Bool.false_eq_true, or_false]
        omega
    | succ rest ih =>
      intro done reader prelude before all same heard here kept
      obtain ⟨first, sample, present, next, step⟩ := sounds (number + done) (by omega) (by omega)
      rw [here] at present
      obtain rfl := Option.some.inj present
      rw [steady (number + done + 1) (by omega) (by omega)] at step
      refine Attains.loop ((measureRound_tone heard next step (by omega)).mono ?_)
      rintro answer later trace ⟨after, measured, rfl, rfl, listened, keeps, rfl⟩
      have stays := measures.stays
      have later := ih (done + 1) after (store (freq value) prelude) sample (by omega)
        (fun value => by rw [measures.overwrites, same]) listened next (kept.trans keeps)
      rw [average_same, same, if_pos (Or.inr stays)]
      rw [same] at later
      have sum :
          add ((done : ℝ) * freq value) (freq value) = ((done + 1 : ℕ) : ℝ) * freq value := by
        show (done : ℝ) * freq value + freq value = ((done + 1 : ℕ) : ℝ) * freq value
        push_cast
        ring
      rw [sum]
      exact later
  have start := rounds steps 0 state.reader state.prelude before (Nat.zero_add steps)
    (fun _ => rfl) listening found (Reader.KeepsCache.refl state.reader)
  have zero : ((0 : ℕ) : ℝ) * freq value = ((0 : ℕ) : ℝ) * 0 := by simp
  rw [zero] at start
  rw [measurePhase_eq]
  exact start

end Measuring

/-! ## Measured frequencies -/

section Measured

variable {freq : Bool → ℝ} {highFreq lowFreq : ℝ} {steps : ℕ}

/-- The low tone is between a tenth and 0.85 of the high one. -/
structure Apart (freq : Bool → ℝ) : Prop where
  positive : 0 < freq true
  lower : freq true ≤ 10 * freq false
  upper : 20 * freq false ≤ 17 * freq true

/-- The high frequency as measured, close below the high tone. -/
structure NearHigh (freq : Bool → ℝ) (highFreq : ℝ) : Prop where
  below : highFreq ≤ freq true
  near : 1023 * (freq true - highFreq) ≤ freq true - freq false

/-- The low frequency as measured, close above the low tone. -/
structure NearLow (freq : Bool → ℝ) (lowFreq : ℝ) : Prop where
  above : freq false ≤ lowFreq
  near : 1023 * (lowFreq - freq false) ≤ freq true - freq false

/-- The relative distance that still counts as near. -/
theorem margin_exact : literal (F := ℝ) (5 / 100) = 5 / 100 := by
  show ((5 / 100 : ℚ) : ℝ) = 5 / 100
  norm_num

/-- How far an average is from the frequency of its steps. -/
theorem average_sub (steps : ℕ) (freq last : ℝ) :
    ((steps : ℝ) + 1) * (average steps freq last - freq) = last - freq := by
  have positive : (steps : ℝ) + 1 ≠ 0 := by positivity
  rw [average]
  field_simp
  ring

/-- The average of the high phase. -/
theorem nearHigh_average (apart : Apart freq) (long : 1022 ≤ steps) :
    NearHigh freq (average steps (freq true) (freq false)) := by
  have lower := apart.lower
  have upper := apart.upper
  have positive := apart.positive
  have long : (1022 : ℝ) ≤ steps := by exact_mod_cast long
  have off := average_sub steps (freq true) (freq false)
  have below : average steps (freq true) (freq false) ≤ freq true := by
    by_contra above
    have product : 0 ≤ ((steps : ℝ) + 1) * (average steps (freq true) (freq false) - freq true) :=
      mul_nonneg (by linarith) (by linarith)
    linarith
  constructor
  · exact below
  · have scaled : 1023 * (freq true - average steps (freq true) (freq false)) ≤
        ((steps : ℝ) + 1) * (freq true - average steps (freq true) (freq false)) :=
      mul_le_mul_of_nonneg_right (by linarith) (by linarith)
    linarith

/-- The average of the low phase. -/
theorem nearLow_average (apart : Apart freq) (long : 1022 ≤ steps) :
    NearLow freq (average steps (freq false) (freq true)) := by
  have lower := apart.lower
  have upper := apart.upper
  have positive := apart.positive
  have long : (1022 : ℝ) ≤ steps := by exact_mod_cast long
  have off := average_sub steps (freq false) (freq true)
  have above : freq false ≤ average steps (freq false) (freq true) := by
    by_contra below
    have product : 0 ≤ ((steps : ℝ) + 1) * (freq false - average steps (freq false) (freq true)) :=
      mul_nonneg (by linarith) (by linarith)
    linarith
  constructor
  · exact above
  · have scaled : 1023 * (average steps (freq false) (freq true) - freq false) ≤
        ((steps : ℝ) + 1) * (average steps (freq false) (freq true) - freq false) :=
      mul_le_mul_of_nonneg_right (by linarith) (by linarith)
    linarith

variable (apart : Apart freq) (nearHigh : NearHigh freq highFreq)

include apart nearHigh

/-- The high frequency is positive. -/
theorem NearHigh.positive : 0 < highFreq := by
  linarith [apart.positive, apart.lower, apart.upper, nearHigh.near]

/-- The high tone is nearer to the high frequency than any part above a thousandth. -/
theorem deviation_high_le {bound : ℝ} (bounded : 1 / 1000 ≤ bound) :
    deviation (freq true) highFreq < bound := by
  have positive := nearHigh.positive apart
  have above := apart.positive
  have low := apart.lower
  have near := nearHigh.near
  have below := nearHigh.below
  have scaled : highFreq * (1 / 1000) ≤ highFreq * bound :=
    mul_le_mul_of_nonneg_left bounded positive.le
  rw [deviation_lt positive, abs_lt]
  constructor
  · linarith
  · linarith

/-- The low tone is farther from the high frequency than a tenth. -/
theorem deviation_low_gt {bound : ℝ} (bounded : bound ≤ 1 / 10) :
    bound < deviation (freq false) highFreq := by
  have positive := nearHigh.positive apart
  have above := apart.positive
  have upper := apart.upper
  have low := apart.lower
  have near := nearHigh.near
  have below := nearHigh.below
  have scaled : highFreq * bound ≤ highFreq * (1 / 10) :=
    mul_le_mul_of_nonneg_left bounded positive.le
  rw [← not_le, deviation_le positive, abs_le]
  rintro ⟨_, _⟩
  linarith

variable (nearLow : NearLow freq lowFreq)

include nearLow

/-- The high frequency is above the low one. -/
theorem NearHigh.above : lowFreq < highFreq := by
  linarith [apart.positive, apart.lower, apart.upper, nearHigh.near, nearLow.near]

/-- Frequencies that were measured in a prelude of both tones tell the tones apart. -/
theorem separates_measured : Separates freq highFreq lowFreq := by
  have high := nearHigh.positive apart
  have order := nearHigh.above apart nearLow
  have positive := apart.positive
  have lower := apart.lower
  have upper := apart.upper
  have below := nearHigh.below
  have above := nearLow.above
  have near := nearLow.near
  have low : 0 < lowFreq := by linarith
  constructor
  · intro tone
    unfold classify
    cases tone with
    | true =>
      have ratio : freq true / highFreq ≤ freq true / lowFreq :=
        div_le_div_of_nonneg_left positive.le low order.le
      have one : 1 ≤ freq true / highFreq := (one_le_div high).mpr below
      have nearer : le (deviation (freq true) highFreq) (deviation (freq true) lowFreq) = true := by
        rw [le_exact, deviation_exact, deviation_exact, abs_of_nonneg (by linarith),
          abs_of_nonneg (by linarith)]
        linarith
      rw [if_pos nearer, if_pos rfl]
    | false =>
      have ratio : freq false / highFreq < freq false / lowFreq :=
        div_lt_div_of_pos_left (by linarith) low order
      have one : freq false / lowFreq ≤ 1 := (div_le_one low).mpr above
      have farther : ¬ le (deviation (freq false) highFreq) (deviation (freq false) lowFreq) =
          true := by
        rw [le_exact, deviation_exact, deviation_exact, abs_of_nonpos (by linarith),
          abs_of_nonpos (by linarith)]
        linarith
      rw [if_neg farther, if_neg Bool.false_ne_true]
  · intro tone
    rw [margin_exact, Bool.eq_iff_iff, lt_exact]
    cases tone with
    | true => exact iff_of_true (deviation_high_le apart nearHigh (by norm_num)) rfl
    | false =>
      have far := deviation_low_gt apart nearHigh (show (5 / 100 : ℝ) ≤ 1 / 10 by norm_num)
      exact iff_of_false (by linarith) Bool.false_ne_true
  · intro tone
    rw [margin_exact, Bool.eq_iff_iff, lt_exact, deviation_lt low, abs_lt]
    cases tone with
    | true =>
      apply iff_of_false
      · rintro ⟨_, close⟩
        linarith
      · decide
    | false =>
      apply iff_of_true
      · constructor
        · linarith
        · linarith
      · rfl
  · rw [Bool.eq_false_iff, ne_eq, eq_exact]
    exact order.ne
  · rw [eq_exact]

end Measured

/-! ## The prelude -/

section Prelude

variable {host : Host ℝ} {capture : Capture ℝ} {freq : Bool → ℝ} {tone : ℕ → Bool}

/-- The high phase is measured as long as its steps are near their average. -/
theorem measures_high {prelude : Prelude ℝ} {least steps number : ℕ} (apart : Apart freq)
    (long : 1022 ≤ steps) (enough : least ≤ number + steps + 1) :
    Measures (fun freq prelude => { prelude with highFreq := freq })
      (fun step prelude => le (deviation step prelude.highFreq) (literal (5 / 100))) least
      (freq true) (freq !true) steps number prelude := by
  have near := nearHigh_average apart long
  have far := deviation_low_gt apart near (show (5 / 100 : ℝ) ≤ 1 / 10 by norm_num)
  have itself : NearHigh freq (freq true) :=
    ⟨le_refl _, by linarith [apart.positive, apart.upper]⟩
  have close := deviation_high_le apart itself (show (1 / 1000 : ℝ) ≤ 5 / 100 by norm_num)
  constructor
  · exact fun _ _ _ => rfl
  · rw [le_exact, margin_exact]
    exact close.le
  · rw [Bool.eq_false_iff, ne_eq, le_exact, margin_exact, Bool.not_true]
    exact not_le.mpr far
  · exact enough

/-- The low phase is measured as long as its steps are far from the high frequency. -/
theorem measures_low {prelude : Prelude ℝ} {least steps number : ℕ} (apart : Apart freq)
    (nearHigh : NearHigh freq prelude.highFreq) (enough : least ≤ number + steps + 1) :
    Measures (fun freq prelude => { prelude with lowFreq := freq })
      (fun step prelude => lt (literal (10 / 100)) (deviation step prelude.highFreq)) least
      (freq false) (freq !false) steps number prelude := by
  have tenth : literal (F := ℝ) (10 / 100) = 1 / 10 := by
    show ((10 / 100 : ℚ) : ℝ) = 1 / 10
    norm_num
  have far := deviation_low_gt apart nearHigh (le_refl _)
  have close := deviation_high_le apart nearHigh (show (1 / 1000 : ℝ) ≤ 1 / 10 by norm_num)
  constructor
  · exact fun _ _ _ => rfl
  · rw [lt_exact, tenth]
    exact far
  · rw [Bool.eq_false_iff, ne_eq, lt_exact, tenth, Bool.not_false]
    exact not_lt.mpr close.le
  · exact enough

/-- The sync bits are skipped up to the first low sample behind them. -/
theorem skipSyncBits_tones {rest number : ℕ} {state : State host} {before : Cplx ℝ}
    (apart : Apart freq) (nearHigh : NearHigh freq state.prelude.highFreq)
    (listening : Listening capture state.reader number)
    (found : capture.sample number = some before)
    (sounds : Sounds capture freq tone number (number + rest + 1))
    (steady : Steady tone true number (number + rest))
    (changed : tone (number + rest + 1) = false) :
    (skipSyncBits (cargf before) : Decode host Bool).Attains state fun result later _ =>
      ∃ reader, result = true ∧ later = { state with reader := reader } ∧
        Listening capture reader (number + rest + 1) ∧ state.reader.KeepsCache reader := by
  have high : le (deviation (freq true) state.prelude.highFreq) (literal (5 / 100)) = true := by
    rw [le_exact, margin_exact]
    exact (deviation_high_le apart nearHigh (by norm_num)).le
  have low : le (deviation (freq false) state.prelude.highFreq) (literal (5 / 100)) = false := by
    have far := deviation_low_gt apart nearHigh (show (5 / 100 : ℝ) ≤ 1 / 10 by norm_num)
    rw [Bool.eq_false_iff, ne_eq, le_exact, margin_exact]
    linarith
  induction rest generalizing number state before with
  | zero =>
    obtain ⟨first, last, present, next, step⟩ := sounds number (le_refl _) (by omega)
    rw [found] at present
    obtain rfl := Option.some.inj present
    rw [changed] at step
    unfold skipSyncBits
    apply Attains.loop
    rw [attains_bind]
    refine (listening.next next).mono ?_
    rintro result later early ⟨rfl, reader, rfl, heard, kept⟩
    have more : reader.file.eof = false := heard.more
    simp only [attains_bind, attains_get, more, Bool.false_eq_true, if_false, step, low,
      attains_pure]
    exact ⟨reader, True.intro, rfl, heard, kept⟩
  | succ rest ih =>
    obtain ⟨first, sample, present, next, step⟩ := sounds number (le_refl _) (by omega)
    rw [found] at present
    obtain rfl := Option.some.inj present
    rw [steady (number + 1) (by omega) (by omega)] at step
    have place : number + 1 + rest + 1 = number + (rest + 1) + 1 := by omega
    unfold skipSyncBits
    apply Attains.loop
    rw [attains_bind]
    refine (listening.next next).mono ?_
    rintro result later early ⟨rfl, reader, rfl, heard, kept⟩
    have more : reader.file.eof = false := heard.more
    simp only [attains_bind, attains_get, more, Bool.false_eq_true, if_false, step, high,
      if_true, attains_pure]
    have later := @ih (number + 1) { state with reader := reader } _
      nearHigh heard next (fun m lower upper => sounds m (by omega) (by omega))
      (steady.mono (by omega) (by omega)) (by rw [place]; exact changed) high low
    refine later.mono ?_
    rintro result later trace ⟨after, rfl, rfl, listened, keeps⟩
    rw [place] at listened
    exact ⟨after, rfl, rfl, listened, kept.trans keeps⟩

/-- What a state knows when the prelude was recognized: sync bits from sample `syncStart` up to the
first low sample `syncEnd` behind them. -/
structure Recognized (capture : Capture ℝ) (freq : Bool → ℝ) (state later : State host)
    (syncStart syncEnd : ℕ) : Prop where
  heard : Listening capture later.reader syncEnd
  kept : state.reader.KeepsCache later.reader
  separates : Separates freq later.prelude.highFreq later.prelude.lowFreq
  samplesPerSym : later.prelude.samplesPerSym = syncEnd - syncStart + 1
  syncBitsEnd : later.prelude.syncBitsEnd = u32 syncEnd
  packet : later.packet = state.packet
  validPkt : later.validPkt = state.validPkt

/-- A prelude of two tones: a high phase behind the trigger sample, a low phase from sample
`lowStart` on, sync bits from sample `syncStart` on, and the first low sample `syncEnd` behind
them. -/
structure TonePrelude (tone : ℕ → Bool) (trigger lowStart syncStart syncEnd : ℕ) : Prop where
  high : Steady tone true (trigger + 1) (lowStart - 1)
  low : Steady tone false (lowStart - 1) (syncStart - 1)
  sync : Steady tone true (syncStart - 1) (syncEnd - 1)
  last : tone syncEnd = false
  highLength : trigger + 1024 ≤ lowStart ∧ lowStart ≤ trigger + 2049
  lowLength : lowStart + 1024 ≤ syncStart ∧ syncStart ≤ lowStart + 2048
  syncLength : syncStart + 306 ≤ syncEnd ∧ syncEnd < syncStart + 2 ^ 31

/-- A phase of the prelude is long enough, also where sample numbers wrap. -/
theorem u32_add_le {start number least last : ℕ} (same : start = number)
    (long : number + least ≤ last) : u32 ((u32 start : ℕ) + (least : ℕ)) ≤ last := by
  unfold u32
  omega

/-- `is_valid_prelude` accepts a prelude of two tones and measures it. -/
theorem isValidPrelude_tones {trigger lowStart syncStart syncEnd : ℕ} {state : State host}
    (apart : Apart freq) (form : TonePrelude tone trigger lowStart syncStart syncEnd)
    (listening : Listening capture state.reader trigger)
    (sounds : Sounds capture freq tone (trigger + 1) syncEnd) :
    (isValidPrelude : Decode host Bool).Attains state fun result later _ =>
      result = true ∧ Recognized capture freq state later syncStart syncEnd := by
  obtain ⟨lowEarliest, lowLatest⟩ := form.highLength
  obtain ⟨syncEarliest, syncLatest⟩ := form.lowLength
  obtain ⟨endEarliest, endLatest⟩ := form.syncLength
  obtain ⟨highSteps, rfl⟩ : ∃ steps, lowStart = trigger + 1 + steps + 1 :=
    ⟨lowStart - trigger - 2, by omega⟩
  obtain ⟨lowSteps, rfl⟩ : ∃ steps, syncStart = trigger + 1 + highSteps + 1 + steps + 1 :=
    ⟨syncStart - (trigger + 1 + highSteps + 1) - 1, by omega⟩
  obtain ⟨syncSteps, rfl⟩ : ∃ steps,
      syncEnd = trigger + 1 + highSteps + 1 + lowSteps + 1 + steps + 1 :=
    ⟨syncEnd - (trigger + 1 + highSteps + 1 + lowSteps + 1) - 1, by omega⟩
  obtain ⟨before, -, first, -, -⟩ := sounds (trigger + 1) (le_refl _) (by omega)
  simp only [isValidPrelude, attains_bind, attains_emit, attains_get, attains_assignPrelude]
  refine Attains.mono (Listening.next ?_ first) ?_
  · exact listening
  rintro result later early ⟨rfl, reader, rfl, heard, kept⟩
  simp only [measurePrelude, attains_bind, attains_get]
  have nearHigh := nearHigh_average apart (show 1022 ≤ highSteps by omega)
  have nearLow := nearLow_average apart (show 1022 ≤ lowSteps by omega)
  apply Attains.mono (measurePhase_tones (measures_high apart (show 1022 ≤ highSteps by omega)
    (u32_add_le listening.number lowEarliest)) heard first (show highSteps + 1 ≤ 2048 by omega)
    (fun m lower upper => sounds m lower (by omega)) (form.high.mono (by omega) (by omega))
    (form.low _ (by omega) (by omega)))
  · rintro result later early ⟨edge, after, present, rfl, rfl, listened, keeps⟩
    simp only [attains_bind, attains_get, attains_assignPrelude]
    have counted := listened.number
    apply Attains.mono (measurePhase_tones (measures_low apart nearHigh ?_) listened present
      (show lowSteps + 1 ≤ 2048 by omega) (fun m lower upper => sounds m (by omega) (by omega))
      (form.low.mono (by omega) (by omega)) (form.sync _ (by omega) (by omega)))
    · rintro result later early ⟨rise, reached, rising, rfl, rfl, risen, keeping⟩
      have order := nearHigh.above apart nearLow
      have above : ¬ le (average highSteps (freq true) (freq false))
          (average lowSteps (freq false) (freq true)) = true := by
        rw [le_exact]
        exact not_le.mpr order
      have risenAt := risen.number
      dsimp only at above ⊢
      simp only [attains_bind, attains_get, attains_assignPrelude]
      rw [Bool.not_true, Bool.not_false, if_neg above]
      simp only [attains_bind, attains_assignPrelude]
      apply Attains.mono (skipSyncBits_tones apart ?_ ?_ rising
        (fun m lower upper => sounds m (by omega) (by omega))
        (form.sync.mono (by omega) (by omega)) form.last)
      · rintro result later early ⟨last, rfl, rfl, ended, skipped⟩
        have endedAt := ended.number
        have symbol : u32 ((u32 last.totalSamplesIn : ℤ) - u32 reached.totalSamplesIn + 1) =
            trigger + 1 + highSteps + 1 + lowSteps + 1 + syncSteps + 1 -
              (trigger + 1 + highSteps + 1 + lowSteps + 1) + 1 := by
          rw [endedAt, risenAt]
          unfold u32
          omega
        have long : ¬ u32 ((u32 last.totalSamplesIn : ℤ) - u32 reached.totalSamplesIn + 1) <
            minSamplesPerSymbol := by
          rw [symbol]
          unfold minSamplesPerSymbol
          omega
        rw [Bool.not_true, if_neg Bool.false_ne_true]
        simp only [attains_bind, attains_get, attains_assignPrelude, if_neg long, attains_pure]
        refine ⟨True.intro, ended, ?_, ?_, symbol, ?_, rfl, rfl⟩
        · exact kept.trans (keeps.trans (keeping.trans skipped))
        · exact separates_measured apart nearHigh nearLow
        · exact congrArg u32 (congrArg Nat.cast endedAt)
      · exact nearHigh
      · exact risen
    · exact u32_add_le counted syncEarliest

end Prelude

end FcTpms.Decoder
