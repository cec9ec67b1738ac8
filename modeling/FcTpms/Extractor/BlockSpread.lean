import FcTpms.Extractor.Fft
import FcTpms.Extractor.Segmentation

/-!
# The power ratio of a block

`find_pkt_in_binfile` weights the samples of a block with a Hann window, transforms them and divides
the largest magnitude of the transform by the mean one.
-/

namespace FcTpms.Extractor

variable {F : Type} [Spectral F]

open Decoder.Arithmetic Spectral

/-- `expo`. -/
def expo : ℕ := 8

/-- `returned_f[k] * 0.5 * (1.0 - cos(2.0*PI*j/(double)(block_size - 1)))`. -/
def weighted (returnedF : ℕ → ℚ) (j k : ℕ) : F :=
  mul (mul (literal (returnedF k)) (literal (1 / 2)))
    (sub (literal 1) (cos (div (mul (mul (literal 2) pi) (ofInt j)) (ofInt (blockSize - 1 : ℕ)))))

/-- `cplx_f` before the transform. -/
def windowed (returnedF : ℕ → ℚ) (j : ℕ) : Cmplx F :=
  ⟨weighted returnedF j (j * 2), weighted returnedF j (j * 2 + 1)⟩

/-- `block_abs[j]`. -/
def blockAbs (cplxF : ℕ → Cmplx F) (j : ℕ) : F :=
  sqrt (add (mul (cplxF j).real (cplxF j).real) (mul (cplxF j).imag (cplxF j).imag))

/-- `block_max` and `block_sum`. -/
def blockMaxAndSum (cplxF : ℕ → Cmplx F) : F × F :=
  (List.range blockSize).foldl (fun (blockMax, blockSum) j =>
    (if lt blockMax (blockAbs cplxF j) then blockAbs cplxF j else blockMax,
      add blockSum (blockAbs cplxF j))) (literal (-1), literal 0)

/-- `block_spread`, none where it is not a number. The transform is none if it does not end. -/
def blockSpread (returnedF : ℕ → ℚ) : Option (Option F) := do
  let cplxF ← fft 1 expo (windowed returnedF)
  let (blockMax, blockSum) := blockMaxAndSum cplxF
  let blockAvg := div blockSum (ofInt blockSize)
  return if eq blockAvg (literal 0) then none else some (div blockMax blockAvg)

end FcTpms.Extractor
