import Mathlib.Algebra.Ring.Int.Defs
import Mathlib.Algebra.Ring.Nat
import Mathlib.Data.Rat.Init

/-!
# Arithmetic of the decoder

The decoder computes with samples, phases and frequencies in floating point and with sample
numbers in machine integers. The floating-point operations are a parameter (`Arithmetic`): a
result proved for every instance holds of the rounded operations of the machine and of exact
ones alike. Sample numbers are natural numbers reduced modulo 2³² where the source stores them
in `unsigned int`. The products of an `int` with `1.1`, `0.75`, `0.6` and `0.5` that the source
truncates to an `int` again are computed exactly and truncated; the rounding of a double is too
small to move one of these products across an integer.

In `rewound` it is not always too small: where `num_samples` is a multiple of 10 and `bit_start` is
small (some hundreds at most), the sum in doubles can come to a little less than the integer that it
is here, and the source then stores one less. Nor does `rewound` overflow as the conversion to an
`int` does. Both are outside of the model.
-/

namespace FcTpms.Decoder

/-- `float complex`. -/
structure Cplx (F : Type) where
  /-- `crealf`. -/
  re : F
  /-- `cimagf`. -/
  im : F

/-- The floating-point operations of the decoder. Nothing is assumed of them: an instance may
round, overflow or produce values that are not numbers. -/
class Arithmetic (F : Type) where
  /-- Conversion from an integer. -/
  ofInt : ℤ → F
  /-- A decimal literal. -/
  literal : ℚ → F
  /-- Sum. -/
  add : F → F → F
  /-- Difference. -/
  sub : F → F → F
  /-- Product. -/
  mul : F → F → F
  /-- Quotient. -/
  div : F → F → F
  /-- `fabs`. -/
  fabs : F → F
  /-- `fmod`. -/
  fmod : F → F → F
  /-- `M_PI`. -/
  pi : F
  /-- `cargf`. -/
  cargf : Cplx F → F
  /-- Storing a `double` in a `float`. -/
  toFloat : F → F
  /-- `<`. -/
  lt : F → F → Bool
  /-- `<=`. -/
  le : F → F → Bool
  /-- `==`. -/
  eq : F → F → Bool

section Phases

variable {F : Type} [Arithmetic F]

open Arithmetic

/-- `2.0 * M_PI`. -/
def twoPi : F := mul (literal 2) pi

/-- `DELTA_PHI_DEFN`: `fmod(fabs(2.0 * M_PI + phi - prev_phi), 2.0 * M_PI)`. -/
def deltaPhi (phi prevPhi : F) : F := fmod (fabs (sub (add twoPi phi) prevPhi)) twoPi

/-- `fabs((delta_phi / freq) - 1.0)`, the relative distance of a phase step from a frequency. -/
def deviation (deltaPhi freq : F) : F := fabs (sub (div deltaPhi freq) (literal 1))

end Phases

/-! ## Constants -/

/-- `SYMBOLS_PER_MSG`. -/
def symbolsPerMsg : ℕ := 69

/-- `CACHE_SIZE`. -/
def cacheSize : ℤ := 65535

/-- `MIN_PRELUDE_HF_SAMPLES`. -/
def minPreludeHfSamples : ℕ := 1024

/-- `MAX_PRELUDE_HF_SAMPLES`. -/
def maxPreludeHfSamples : ℕ := 2048

/-- `MIN_PRELUDE_LF_SAMPLES`. -/
def minPreludeLfSamples : ℕ := 1024

/-- `MAX_PRELUDE_LF_SAMPLES`. -/
def maxPreludeLfSamples : ℕ := 2048

/-- `MIN_SAMPLES_PER_SYMBOL`. -/
def minSamplesPerSymbol : ℕ := 307

/-- `MAX_SAMPLES_PER_SYMBOL`. -/
def maxSamplesPerSymbol : ℕ := 512

/-! ## Machine integers -/

/-- Storing an integer in an `unsigned int`. -/
def u32 (value : ℤ) : ℕ := (value % 2 ^ 32).toNat

/-- Storing an integer in an `unsigned long`. -/
def u64 (value : ℤ) : ℕ := (value % 2 ^ 64).toNat

/-- Storing an integer in an `int`. -/
def int32 (value : ℤ) : ℤ := value.bmod (2 ^ 32)

/-- `num_samples * 1.1` as an `int`. -/
def withMargin (numSamples : ℤ) : ℤ := (11 * numSamples).tdiv 10

/-- `0.75 * num_samples` as an `int`. -/
def threeQuarters (numSamples : ℤ) : ℤ := (3 * numSamples).tdiv 4

/-- `num_samples * 0.6` as an `int`. -/
def threeFifths (numSamples : ℤ) : ℤ := (3 * numSamples).tdiv 5

/-- `cache_count - (bit_start + num_samples * 1.1 - actual_bit_end)`, computed exactly and
truncated to an integer of any size. -/
def rewound (cacheCount : ℤ) (bitStart : ℕ) (numSamples : ℤ) (actualBitEnd : ℕ) : ℤ :=
  (10 * cacheCount - (10 * bitStart + 11 * numSamples - 10 * actualBitEnd)).tdiv 10

/-- A window is a tenth longer than the half-bit. -/
theorem withMargin_natCast (numSamples : ℕ) : withMargin numSamples = (11 * numSamples / 10 : ℕ) :=
  Int.tdiv_eq_ediv_of_nonneg (by omega)

/-- Three quarters of a natural number. -/
theorem threeQuarters_natCast (numSamples : ℕ) :
    threeQuarters numSamples = (3 * numSamples / 4 : ℕ) :=
  Int.tdiv_eq_ediv_of_nonneg (by omega)

/-- Three fifths of a natural number. -/
theorem threeFifths_natCast (numSamples : ℕ) :
    threeFifths numSamples = (3 * numSamples / 5 : ℕ) :=
  Int.tdiv_eq_ediv_of_nonneg (by omega)

/-- A stored `unsigned int` fits. -/
theorem u32_lt (value : ℤ) : u32 value < 2 ^ 32 := by
  have bound := Int.emod_lt_of_pos value (show (0 : ℤ) < 2 ^ 32 by decide)
  have nonnegative := Int.emod_nonneg value (show (2 : ℤ) ^ 32 ≠ 0 by decide)
  unfold u32
  omega

/-- A value in range is stored as it is. -/
theorem u32_of_lt {value : ℤ} (nonnegative : 0 ≤ value) (bound : value < 2 ^ 32) :
    (u32 value : ℤ) = value := by
  unfold u32
  omega

/-- A value in range is stored as it is. -/
theorem u64_of_lt {value : ℤ} (nonnegative : 0 ≤ value) (bound : value < 2 ^ 64) :
    (u64 value : ℤ) = value := by
  unfold u64
  omega

end FcTpms.Decoder
