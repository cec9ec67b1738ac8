import FcTpms.Decoder.Arithmetic
import FcTpms.Fourier.BitReversal

/-!
# The Fourier transform of the extractor

`fft` transforms a buffer of 2^m points in place: it exchanges the points at reversed indices, makes
the butterflies stage by stage, with the root of each stage from that of the stage before by
half-angle formulas, and scales the forward transform.
-/

namespace FcTpms.Extractor

open FcTpms.Fourier

/-- The operations of `double` that the transform and its callers use. -/
class Spectral (F : Type) extends Decoder.Arithmetic F where
  /-- The sign changed. -/
  neg : F → F
  /-- `sqrt`. -/
  sqrt : F → F
  /-- `cos`. -/
  cos : F → F

/-- `struct cmplx`. -/
structure Cmplx (F : Type) where
  real : F
  imag : F

/-- The indices of `for (i = start; i < stop; i += step)`. -/
def strided (start stop step : ℕ) : List ℕ :=
  (List.range ((stop - start + step - 1) / step)).map fun t => start + t * step

section Loops

variable {F : Type} [Spectral F]

open Decoder.Arithmetic Spectral

/-- The bit reversal; none if the loop inside would not end, which it does once `k` is 0. -/
def bitReversal (m : ℕ) (buffer : ℕ → Cmplx F) : Option (ℕ → Cmplx F) := do
  let i2 := 2 ^ m / 2
  let (_, buffer) ← (List.range (2 ^ m - 1)).foldlM (fun (j, buffer) i => do
    let buffer := if i < j then exchange buffer i j else buffer
    let j ← reverseCarry m i2 j
    return (j, buffer)) (0, buffer)
  return buffer

/-- The innermost loop body: the points `i` and `i1`. -/
def combine (u1 u2 : F) (i i1 : ℕ) (buffer : ℕ → Cmplx F) : ℕ → Cmplx F :=
  let t1 := sub (mul u1 (buffer i1).real) (mul u2 (buffer i1).imag)
  let t2 := add (mul u1 (buffer i1).imag) (mul u2 (buffer i1).real)
  let buffer' := Function.update buffer i1
    ⟨sub (buffer i).real t1, sub (buffer i).imag t2⟩
  Function.update buffer' i ⟨add (buffer' i).real t1, add (buffer' i).imag t2⟩

/-- The loops over `j` and `i` of one stage. -/
def stage (n l1 : ℕ) (c1 c2 : F) (buffer : ℕ → Cmplx F) : ℕ → Cmplx F :=
  let (_, _, buffer) := (List.range l1).foldl (fun (u1, u2, buffer) j =>
    let buffer := (strided j n (2 * l1)).foldl (fun buffer i =>
      combine u1 u2 i (i + l1) buffer) buffer
    (sub (mul u1 c1) (mul u2 c2), add (mul u1 c2) (mul u2 c1), buffer))
    (literal 1, literal 0, buffer)
  buffer

/-- The loop over `l`, for so many stages. -/
def stages (dir : ℤ) (n : ℕ) : ℕ → ℕ → F → F → (ℕ → Cmplx F) → ℕ → Cmplx F
  | 0, _, _, _, buffer => buffer
  | left + 1, l1, c1, c2, buffer =>
    let buffer := stage n l1 c1 c2 buffer
    let c2 := sqrt (div (sub (literal 1) c1) (literal 2))
    let c2 := if dir = 1 then neg c2 else c2
    let c1 := sqrt (div (add (literal 1) c1) (literal 2))
    stages dir n left (2 * l1) c1 c2 buffer

/-- The scaling of the forward transform. -/
def scale (n : ℕ) (buffer : ℕ → Cmplx F) : ℕ → Cmplx F :=
  (List.range n).foldl (fun buffer i => Function.update buffer i
    ⟨div (buffer i).real (ofInt n), div (buffer i).imag (ofInt n)⟩) buffer

/-- `fft`. -/
def fft (dir : ℤ) (m : ℕ) (buffer : ℕ → Cmplx F) : Option (ℕ → Cmplx F) := do
  let buffer ← bitReversal m buffer
  let buffer := stages dir (2 ^ m) m 1 (literal (-1)) (literal 0) buffer
  if dir = 1 then return scale (2 ^ m) buffer
  return buffer

end Loops

end FcTpms.Extractor
