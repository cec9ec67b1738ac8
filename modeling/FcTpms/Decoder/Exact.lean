import FcTpms.Decoder.Samples
import Mathlib.Analysis.SpecialFunctions.Complex.Arg

/-!
# Exact arithmetic

Real numbers as the arithmetic of the decoder, and a host that passes every sample on as it is.
-/

namespace FcTpms.Decoder

open Classical in
/-- The operations on real numbers, without rounding. -/
noncomputable instance exactArithmetic : Arithmetic ℝ where
  ofInt value := value
  literal value := value
  add := (· + ·)
  sub := (· - ·)
  mul := (· * ·)
  div := (· / ·)
  fabs value := |value|
  fmod dividend divisor :=
    dividend - divisor * (if 0 ≤ dividend / divisor then ⌊dividend / divisor⌋
      else ⌈dividend / divisor⌉ : ℤ)
  pi := Real.pi
  cargf sample := Complex.arg ⟨sample.re, sample.im⟩
  toFloat value := value
  lt left right := decide (left < right)
  le left right := decide (left ≤ right)
  eq left right := decide (left = right)

/-- Neither the filter nor the oscillator changes a sample, and memory is zero. -/
noncomputable def plainHost : Host ℝ where
  Filter := Unit
  Nco := Unit
  iirfiltCreateLowpass _ _ := ()
  iirfiltExecute filter sample := (filter, sample)
  ncoCreate := ()
  ncoSetFrequency nco _ := nco
  ncoMixDown nco sample := (nco, sample)
  ncoStep nco := nco
  uninitialized _ _ := ⟨0, 0⟩
  aroundCache _ := ⟨0, 0⟩

section Operations

variable {left right : ℝ}

open Arithmetic

theorem lt_exact : lt left right = true ↔ left < right := decide_eq_true_iff

theorem le_exact : le left right = true ↔ left ≤ right := decide_eq_true_iff

theorem eq_exact : eq left right = true ↔ left = right := decide_eq_true_iff

/-- The relative distance from a frequency. -/
theorem deviation_exact (step freq : ℝ) : deviation step freq = |step / freq - 1| := by
  show |step / freq - ((1 : ℚ) : ℝ)| = |step / freq - 1|
  rw [Rat.cast_one]

/-- A step is nearer to a frequency than a part of it. -/
theorem deviation_lt {step freq bound : ℝ} (positive : 0 < freq) :
    deviation step freq < bound ↔ |step - freq| < bound * freq := by
  have scaled : step / freq - 1 = (step - freq) / freq := by
    rw [sub_div, div_self positive.ne']
  rw [deviation_exact, scaled, abs_div, abs_of_pos positive, div_lt_iff₀ positive]

/-- A step is not farther from a frequency than a part of it. -/
theorem deviation_le {step freq bound : ℝ} (positive : 0 < freq) :
    deviation step freq ≤ bound ↔ |step - freq| ≤ bound * freq := by
  have scaled : step / freq - 1 = (step - freq) / freq := by
    rw [sub_div, div_self positive.ne']
  rw [deviation_exact, scaled, abs_div, abs_of_pos positive, div_le_iff₀ positive]

end Operations

end FcTpms.Decoder
