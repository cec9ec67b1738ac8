import FcTpms.Decoder.Exact
import FcTpms.Extractor.Fft
import FcTpms.Fourier.Butterflies
import Mathlib.Analysis.SpecialFunctions.Trigonometric.Basic
import Mathlib.RingTheory.RootsOfUnity.Complex

/-!
# The transform is the discrete Fourier transform

In exact arithmetic every loop of `fft` ends, the buffer holds the discrete Fourier transform of
what it held before, nothing outside of the 2^m points is changed, and the reverse transform undoes
the forward one.
-/

namespace FcTpms.Extractor

open FcTpms.Fourier Finset Decoder.Arithmetic Spectral

/-- The operations on real numbers. -/
noncomputable instance exactSpectral : Spectral ℝ where
  toArithmetic := Decoder.exactArithmetic
  neg value := -value
  sqrt := Real.sqrt
  cos := Real.cos

/-- A point as a complex number. -/
def Cmplx.toComplex (point : Cmplx ℝ) : ℂ := ⟨point.real, point.imag⟩

theorem Cmplx.toComplex_injective : Function.Injective Cmplx.toComplex := by
  intro point other same
  rcases point with ⟨real, imag⟩
  rcases other with ⟨real', imag'⟩
  have parts := Complex.ext_iff.mp same
  simp only [Cmplx.toComplex] at parts
  rw [parts.1, parts.2]

/-- A buffer of points as complex numbers. -/
def complex (buffer : ℕ → Cmplx ℝ) (p : ℕ) : ℂ := (buffer p).toComplex

/-! ## The bit reversal -/

/-- After so many rounds the points have been exchanged up to the index. -/
theorem bitReversal_rounds {F : Type} (m : ℕ) (x : ℕ → Cmplx F) {i : ℕ} (most : i ≤ 2 ^ m - 1) :
    ∃ buffer, (List.range i).foldlM (fun (state : ℕ × (ℕ → Cmplx F)) i => do
        let buffer := if i < state.1 then exchange state.2 i state.1 else state.2
        let j ← reverseCarry m (2 ^ m / 2) state.1
        return (j, buffer)) (0, x) = some (reversed m i, buffer) ∧
      ExchangedTo (reversed m) x buffer (2 ^ m) i ∧ ∀ p, 2 ^ m ≤ p → buffer p = x p := by
  induction i with
  | zero =>
    have zero : reversed m 0 = 0 := by
      induction m with
      | zero => rfl
      | succ m ih => exact (reversed_even m 0).trans (ih (Nat.zero_le _))
    rw [zero]
    exact ⟨x, rfl, exchangedTo_start x, fun _ _ => rfl⟩
  | succ i ih =>
    rcases ih (by omega) with ⟨buffer, rounds, exchanged, frame⟩
    have closed : ∀ p < 2 ^ m, reversed m p < 2 ^ m := fun p _ => reversed_lt m p
    have next := exchanged.next closed (fun p small => reversed_reversed m small) (by omega)
    have carry := reverseCarry_reversed (le_refl m) (show i + 1 < 2 ^ m by omega)
    apply Exists.intro (if i < reversed m i then exchange buffer i (reversed m i) else buffer)
    refine ⟨?_, next, ?_⟩
    · rw [List.range_succ, List.foldlM_append, rounds]
      simp only [Option.bind_eq_bind, Option.bind_some, List.foldlM_cons, List.foldlM_nil, carry,
        Option.pure_def]
    · intro p beyond
      have mirror := reversed_lt m i
      split
      · rw [exchange, Function.update_of_ne (by omega), Function.update_of_ne (by omega),
          frame p beyond]
      · exact frame p beyond

/-- The bit reversal ends, and every point is the one at the reversed index. -/
theorem bitReversal_eq {F : Type} [Spectral F] (m : ℕ) (x : ℕ → Cmplx F) :
    ∃ buffer, bitReversal m x = some buffer ∧ (∀ p < 2 ^ m, buffer p = x (reversed m p)) ∧
      ∀ p, 2 ^ m ≤ p → buffer p = x p := by
  rcases bitReversal_rounds m x (le_refl _) with ⟨buffer, rounds, exchanged, frame⟩
  apply Exists.intro buffer
  refine ⟨?_, fun p small => exchanged.all (fun p _ => reversed_lt m p) small, frame⟩
  simp only [Option.bind_eq_bind, Option.pure_def] at rounds
  simp only [bitReversal, Option.bind_eq_bind, Option.pure_def, rounds, Option.bind_some]

/-! ## The stages -/

/-- The innermost loop body is a butterfly. -/
theorem complex_combine (u1 u2 : ℝ) {i i1 : ℕ} (differ : i ≠ i1) (buffer : ℕ → Cmplx ℝ) :
    complex (combine u1 u2 i i1 buffer) = butterfly ⟨u1, u2⟩ i i1 (complex buffer) := by
  have turned : (⟨u1, u2⟩ : ℂ) * (buffer i1).toComplex =
      ⟨u1 * (buffer i1).real - u2 * (buffer i1).imag,
        u1 * (buffer i1).imag + u2 * (buffer i1).real⟩ := rfl
  have kept : Function.update buffer i1
      ⟨sub (buffer i).real (sub (mul u1 (buffer i1).real) (mul u2 (buffer i1).imag)),
        sub (buffer i).imag (add (mul u1 (buffer i1).imag) (mul u2 (buffer i1).real))⟩ i =
      buffer i := Function.update_of_ne differ _ _
  funext p
  by_cases first : p = i
  · rw [first, complex, combine, Function.update_self, butterfly, Function.update_self, complex,
      complex, turned, kept]
    rfl
  · by_cases second : p = i1
    · rw [second, complex, combine, Function.update_of_ne differ.symm, Function.update_self,
        butterfly, Function.update_of_ne differ.symm, Function.update_self, complex, complex,
        turned]
      rfl
    · rw [complex, combine, Function.update_of_ne first, Function.update_of_ne second, butterfly,
        Function.update_of_ne first, Function.update_of_ne second, complex]

/-- The indices of the inner loop. -/
theorem strided_blocks {j l1 : ℕ} (short : j < l1) (blocks : ℕ) :
    strided j (blocks * (2 * l1)) (2 * l1) =
      (List.range blocks).map fun t => j + t * (2 * l1) := by
  have count : (blocks * (2 * l1) - j + 2 * l1 - 1) / (2 * l1) = blocks := by
    cases blocks with
    | zero =>
      rw [Nat.zero_mul, Nat.zero_sub, Nat.zero_add]
      exact Nat.div_eq_of_lt (by omega)
    | succ blocks =>
      have next : (blocks + 1) * (2 * l1) = blocks * (2 * l1) + 2 * l1 := Nat.succ_mul _ _
      have beyond : (blocks + 1 + 1) * (2 * l1) = (blocks + 1) * (2 * l1) + 2 * l1 :=
        Nat.succ_mul _ _
      apply Nat.div_eq_of_lt_le
      · omega
      · omega
  rw [strided, count]

/-- The inner loop is a column of butterflies. -/
theorem complex_column (u1 u2 : ℝ) {j l1 : ℕ} (short : j < l1) (blocks : ℕ)
    (buffer : ℕ → Cmplx ℝ) :
    complex ((strided j (blocks * (2 * l1)) (2 * l1)).foldl (fun buffer i =>
      combine u1 u2 i (i + l1) buffer) buffer) = column ⟨u1, u2⟩ l1 j blocks (complex buffer) := by
  rw [strided_blocks short, column, List.foldl_map]
  induction blocks with
  | zero => rfl
  | succ blocks ih =>
    rw [List.range_succ, List.foldl_append, List.foldl_append, ← ih]
    exact complex_combine _ _ (by omega) _

/-- After so many columns of a stage: the power of the root, and the butterflies that were made. -/
def Staged (root : ℂ) (l1 blocks : ℕ) (start : ℕ → Cmplx ℝ) (count : ℕ)
    (state : ℝ × ℝ × (ℕ → Cmplx ℝ)) : Prop :=
  (⟨state.1, state.2.1⟩ : ℂ) = root ^ count ∧
    complex state.2.2 = columns root l1 blocks count (complex start)

/-- A stage makes the butterflies of all columns, each with its power of the root. -/
theorem complex_stage (blocks l1 : ℕ) (c1 c2 : ℝ) (buffer : ℕ → Cmplx ℝ) :
    complex (stage (blocks * (2 * l1)) l1 c1 c2 buffer) =
      columns ⟨c1, c2⟩ l1 blocks l1 (complex buffer) := by
  have rounds (count : ℕ) (most : count ≤ l1) : Staged ⟨c1, c2⟩ l1 blocks buffer count
      ((List.range count).foldl (fun (state : ℝ × ℝ × (ℕ → Cmplx ℝ)) j =>
        (sub (mul state.1 c1) (mul state.2.1 c2), add (mul state.1 c2) (mul state.2.1 c1),
          (strided j (blocks * (2 * l1)) (2 * l1)).foldl (fun buffer i =>
            combine state.1 state.2.1 i (i + l1) buffer) state.2.2))
        (literal 1, literal 0, buffer)) := by
    induction count with
    | zero =>
      constructor
      · rw [pow_zero]
        apply Complex.ext
        · exact Rat.cast_one
        · exact Rat.cast_zero
      · rfl
    | succ count ih =>
      have before := ih (by omega)
      rw [List.range_succ, List.foldl_append, List.foldl_cons, List.foldl_nil]
      generalize (List.range count).foldl _ _ = state at before ⊢
      rcases state with ⟨u1, u2, later⟩
      rcases before with ⟨power, same⟩
      constructor
      · rw [pow_succ, ← power]
        rfl
      · have all : columns (⟨c1, c2⟩ : ℂ) l1 blocks (count + 1) (complex buffer) =
            column ((⟨c1, c2⟩ : ℂ) ^ count) l1 count blocks
              (columns (⟨c1, c2⟩ : ℂ) l1 blocks count (complex buffer)) := by
          rw [columns, List.range_succ, List.foldl_append]
          rfl
        rw [all, ← same, ← power]
        exact complex_column u1 u2 (by omega) blocks later
  exact (rounds l1 (le_refl _)).2

/-- The sign of the exponent. -/
noncomputable def sign (dir : ℤ) : ℝ := if dir = 1 then -1 else 1

/-- The root of unity with which so many points are transformed. -/
noncomputable def turn (dir : ℤ) (points : ℕ) : ℂ :=
  ⟨Real.cos ((2 : ℕ) * Real.pi / points), sign dir * Real.sin ((2 : ℕ) * Real.pi / points)⟩

theorem turn_eq_exp (dir : ℤ) (points : ℕ) :
    turn dir points = Complex.exp ((sign dir * (2 * Real.pi / points) : ℝ) * Complex.I) := by
  have even : Real.cos (sign dir * (2 * Real.pi / points)) = Real.cos (2 * Real.pi / points) := by
    unfold sign
    split
    · rw [neg_one_mul, Real.cos_neg]
    · rw [one_mul]
  have odd : Real.sin (sign dir * (2 * Real.pi / points)) =
      sign dir * Real.sin (2 * Real.pi / points) := by
    unfold sign
    split
    · rw [neg_one_mul, Real.sin_neg, neg_one_mul]
    · rw [one_mul, one_mul]
  apply Complex.ext
  · rw [Complex.exp_ofReal_mul_I_re, even, turn, Nat.cast_ofNat]
  · rw [Complex.exp_ofReal_mul_I_im, odd, turn, Nat.cast_ofNat]

/-- Powers of the roots. -/
theorem turn_pow (dir : ℤ) (points k : ℕ) :
    turn dir points ^ k =
      Complex.exp ((sign dir * (2 * Real.pi * k / points) : ℝ) * Complex.I) := by
  rw [turn_eq_exp, ← Complex.exp_nat_mul]
  congr 1
  push_cast
  ring

/-- The root for twice as many points is a square root. -/
theorem turn_double (dir : ℤ) {points : ℕ} (some : 0 < points) :
    turn dir (2 * points) ^ 2 = turn dir points := by
  have nonzero : (points : ℝ) ≠ 0 := Nat.cast_ne_zero.mpr some.ne'
  rw [turn_pow, turn_eq_exp]
  congr 3
  push_cast
  field_simp

/-- Half a turn. -/
theorem turn_half (dir : ℤ) {points : ℕ} (some : 0 < points) :
    turn dir (2 * points) ^ points = -1 := by
  have nonzero : (points : ℝ) ≠ 0 := Nat.cast_ne_zero.mpr some.ne'
  have half : sign dir * (2 * Real.pi * points / (2 * points : ℕ)) = sign dir * Real.pi := by
    congr 1
    push_cast
    field_simp
  rw [turn_pow, half, sign]
  split
  · rw [neg_one_mul, Complex.ofReal_neg, neg_mul, Complex.exp_neg, Complex.exp_pi_mul_I, inv_neg,
      inv_one]
  · rw [one_mul, Complex.exp_pi_mul_I]

/-- The half-angle formulas give the root of the next stage. -/
theorem turn_next (dir : ℤ) {l1 : ℕ} (some : 0 < l1) :
    Real.sqrt ((1 + (turn dir (2 * l1)).re) / 2) = (turn dir (2 * (2 * l1))).re ∧
      sign dir * Real.sqrt ((1 - (turn dir (2 * l1)).re) / 2) = (turn dir (2 * (2 * l1))).im := by
  have positive := Real.pi_pos
  have least : (1 : ℝ) ≤ l1 := by exact_mod_cast some
  have angle : 2 * Real.pi / ((2 * (2 * l1) : ℕ) : ℝ) = 2 * Real.pi / ((2 * l1 : ℕ) : ℝ) / 2 := by
    push_cast
    field_simp
  have above : 0 ≤ 2 * Real.pi / ((2 * l1 : ℕ) : ℝ) := by positivity
  have below : 2 * Real.pi / ((2 * l1 : ℕ) : ℝ) ≤ Real.pi := by
    rw [div_le_iff₀ (by positivity)]
    push_cast
    nlinarith
  constructor
  · show Real.sqrt ((1 + Real.cos (2 * Real.pi / ((2 * l1 : ℕ) : ℝ))) / 2) =
      Real.cos (2 * Real.pi / ((2 * (2 * l1) : ℕ) : ℝ))
    rw [angle, Real.cos_half (by linarith) below]
  · show sign dir * Real.sqrt ((1 - Real.cos (2 * Real.pi / ((2 * l1 : ℕ) : ℝ))) / 2) =
      sign dir * Real.sin (2 * Real.pi / ((2 * (2 * l1) : ℕ) : ℝ))
    rw [angle, Real.sin_half_eq_sqrt above (by linarith)]

/-- The loop over the stages makes one transform of those of the blocks, and changes nothing
outside of them. -/
theorem stages_holds (dir : ℤ) {x : ℕ → ℂ} {left l1 : ℕ} (some : 0 < l1) {buffer : ℕ → Cmplx ℝ}
    (holds : HoldsTransforms x (complex buffer) left l1 (turn dir l1)) :
    HoldsTransforms x (complex (stages dir (2 ^ left * l1) left l1 (turn dir (2 * l1)).re
        (turn dir (2 * l1)).im buffer)) 0 (2 ^ left * l1) (turn dir (2 ^ left * l1)) ∧
      ∀ p, 2 ^ left * l1 ≤ p → stages dir (2 ^ left * l1) left l1 (turn dir (2 * l1)).re
        (turn dir (2 * l1)).im buffer p = buffer p := by
  induction left generalizing l1 buffer with
  | zero =>
    rw [pow_zero, Nat.one_mul]
    exact ⟨holds, fun _ _ => rfl⟩
  | succ left ih =>
    have points : 2 ^ (left + 1) * l1 = 2 ^ left * (2 * l1) := by
      rw [pow_succ, Nat.mul_assoc]
    have next := turn_next dir some
    have c1 : sqrt (div (add (literal 1) (turn dir (2 * l1)).re) (literal 2) : ℝ) =
        (turn dir (2 * (2 * l1))).re := by
      rw [← next.1]
      show Real.sqrt ((((1 : ℚ) : ℝ) + (turn dir (2 * l1)).re) / ((2 : ℚ) : ℝ)) = _
      rw [Rat.cast_one, Rat.cast_ofNat]
    have c2 : (if dir = 1 then
        neg (sqrt (div (sub (literal 1) (turn dir (2 * l1)).re) (literal 2) : ℝ))
        else sqrt (div (sub (literal 1) (turn dir (2 * l1)).re) (literal 2) : ℝ)) =
        (turn dir (2 * (2 * l1))).im := by
      have root : sqrt (div (sub (literal 1) (turn dir (2 * l1)).re) (literal 2) : ℝ) =
          Real.sqrt ((1 - (turn dir (2 * l1)).re) / 2) := by
        show Real.sqrt ((((1 : ℚ) : ℝ) - (turn dir (2 * l1)).re) / ((2 : ℚ) : ℝ)) = _
        rw [Rat.cast_one, Rat.cast_ofNat]
      rw [← next.2, root, sign]
      split
      · exact (neg_one_mul _).symm
      · exact (one_mul _).symm
    have staged : complex (stage (2 ^ left * (2 * l1)) l1 (turn dir (2 * l1)).re
        (turn dir (2 * l1)).im buffer) =
          columns (turn dir (2 * l1)) l1 (2 ^ left) l1 (complex buffer) :=
      complex_stage _ _ _ _ _
    have combined : HoldsTransforms x (complex (stage (2 ^ left * (2 * l1)) l1
        (turn dir (2 * l1)).re (turn dir (2 * l1)).im buffer)) left (2 * l1)
          (turn dir (2 * l1)) := by
      rw [staged]
      rw [← turn_double dir some] at holds
      exact holds.stage (turn_half dir some)
    have rest := ih (by omega) combined
    rw [points]
    unfold stages
    simp only
    rw [c1, c2]
    refine ⟨rest.1, fun p beyond => ?_⟩
    rw [rest.2 p beyond]
    apply Cmplx.toComplex_injective
    have kept := congrFun staged p
    rw [columns_apply _ (le_refl _), if_neg (by omega)] at kept
    exact kept

/-! ## The whole transform -/

/-- The scaling divides the points, and nothing else. -/
theorem complex_scale (n : ℕ) (buffer : ℕ → Cmplx ℝ) (p : ℕ) :
    complex (scale n buffer) p =
      if p < n then (n : ℂ)⁻¹ * complex buffer p else complex buffer p := by
  have divided (point : Cmplx ℝ) : (⟨div point.real (ofInt n), div point.imag (ofInt n)⟩ :
      Cmplx ℝ).toComplex = (n : ℂ)⁻¹ * point.toComplex := by
    show (⟨point.real / ((n : ℤ) : ℝ), point.imag / ((n : ℤ) : ℝ)⟩ : ℂ) = _
    have scalar : (n : ℂ)⁻¹ = (((n : ℝ)⁻¹ : ℝ) : ℂ) := by
      push_cast
      rfl
    rw [scalar]
    apply Complex.ext
    · rw [Complex.re_ofReal_mul, Int.cast_natCast, Cmplx.toComplex]
      exact div_eq_inv_mul _ _
    · rw [Complex.im_ofReal_mul, Int.cast_natCast, Cmplx.toComplex]
      exact div_eq_inv_mul _ _
  have rounds (count : ℕ) : complex ((List.range count).foldl (fun buffer i =>
      Function.update buffer i (⟨div (buffer i).real (ofInt n), div (buffer i).imag (ofInt n)⟩ :
        Cmplx ℝ)) buffer) p =
      if p < count then (n : ℂ)⁻¹ * complex buffer p else complex buffer p := by
    induction count with
    | zero => rw [if_neg (by omega)]; rfl
    | succ count ih =>
      rw [List.range_succ, List.foldl_append, List.foldl_cons, List.foldl_nil]
      by_cases here : p = count
      · rw [if_neg (by omega)] at ih
        rw [here] at ih ⊢
        rw [if_pos (by omega), complex, Function.update_self, divided]
        exact congrArg _ ih
      · rw [complex, Function.update_of_ne here]
        by_cases done : p < count
        · rw [if_pos done] at ih
          rw [if_pos (by omega)]
          exact ih
        · rw [if_neg done] at ih
          rw [if_neg (by omega)]
          exact ih
  exact rounds n

/-- The factor of the transform in one direction. -/
noncomputable def weight (dir : ℤ) (m : ℕ) : ℂ := if dir = 1 then ((2 ^ m : ℕ) : ℂ)⁻¹ else 1

/-- The points of a buffer are the transform of those of another one, and the rest is the same. -/
structure IsTransform (dir : ℤ) (m : ℕ) (buffer result : ℕ → Cmplx ℝ) : Prop where
  points : ∀ k < 2 ^ m, complex result k =
    weight dir m * transform (complex buffer) 0 1 (2 ^ m) (turn dir (2 ^ m)) k
  frame : ∀ k, 2 ^ m ≤ k → result k = buffer k

/-- `fft` ends, and it transforms the buffer. -/
theorem fft_isTransform (dir : ℤ) (m : ℕ) (buffer : ℕ → Cmplx ℝ) :
    ∃ result, fft dir m buffer = some result ∧ IsTransform dir m buffer result := by
  rcases bitReversal_eq m buffer with ⟨mirrored, reversal, exchanged, frame⟩
  have start : HoldsTransforms (complex buffer) (complex mirrored) m 1 (turn dir 1) := by
    apply holdsTransforms_start
    intro p small
    rw [complex, exchanged p small, complex]
  have stages := stages_holds dir Nat.one_pos start
  have angle : 2 * Real.pi / ((2 * 1 : ℕ) : ℝ) = Real.pi := by
    push_cast
    ring
  have c1 : (literal (-1) : ℝ) = (turn dir (2 * 1)).re := by
    show (((-1 : ℚ)) : ℝ) = Real.cos (2 * Real.pi / ((2 * 1 : ℕ) : ℝ))
    rw [angle, Real.cos_pi, Rat.cast_neg, Rat.cast_one]
  have c2 : (literal 0 : ℝ) = (turn dir (2 * 1)).im := by
    show ((0 : ℚ) : ℝ) = sign dir * Real.sin (2 * Real.pi / ((2 * 1 : ℕ) : ℝ))
    rw [angle, Real.sin_pi, mul_zero, Rat.cast_zero]
  rw [Nat.mul_one, ← c1, ← c2] at stages
  obtain ⟨combined, same⟩ : ∃ combined, combined =
      Extractor.stages dir (2 ^ m) m 1 (literal (-1)) (literal 0) mirrored := ⟨_, rfl⟩
  rw [← same] at stages
  have run : fft dir m buffer =
      some (if dir = 1 then scale (2 ^ m) combined else combined) := by
    simp only [fft, reversal, Option.bind_eq_bind, Option.bind_some, Option.pure_def, ← same]
    split
    · rfl
    · rfl
  apply Exists.intro (if dir = 1 then scale (2 ^ m) combined else combined)
  apply And.intro run
  constructor
  · intro k small
    have whole := stages.1 0 Nat.one_pos k small
    rw [Nat.zero_mul, Nat.add_zero, reversed, pow_zero] at whole
    rw [← whole, weight]
    by_cases forward : dir = 1
    · have scaled := complex_scale (2 ^ m) combined k
      rw [if_pos small] at scaled
      rw [if_pos forward, if_pos forward]
      exact scaled
    · rw [if_neg forward, if_neg forward, one_mul]
  · intro k beyond
    have kept : combined k = buffer k := (stages.2 k beyond).trans (frame k beyond)
    by_cases forward : dir = 1
    · have scaled := complex_scale (2 ^ m) combined k
      rw [if_neg (by omega)] at scaled
      rw [if_pos forward]
      exact (Cmplx.toComplex_injective scaled).trans kept
    · rw [if_neg forward]
      exact kept

/-- `fft` ends, for every number of points: the forward transform has the negative exponent and is
scaled, the reverse one is not, and nothing behind the points is changed. -/
theorem fft_transforms (dir : ℤ) (m : ℕ) (buffer : ℕ → Cmplx ℝ) :
    ∃ result, fft dir m buffer = some result ∧
      (∀ k < 2 ^ m, (result k).toComplex = (if dir = 1 then ((2 ^ m : ℕ) : ℂ)⁻¹ else 1) *
        ∑ t ∈ range (2 ^ m), (buffer t).toComplex *
          Complex.exp ((sign dir * (2 * Real.pi * (t * k : ℕ) / (2 ^ m : ℕ)) : ℝ) * Complex.I)) ∧
      ∀ k, 2 ^ m ≤ k → result k = buffer k := by
  rcases fft_isTransform dir m buffer with ⟨result, run, transforms⟩
  refine ⟨result, run, fun k small => ?_, transforms.frame⟩
  have point := transforms.points k small
  rw [complex, weight, transform] at point
  rw [point]
  congr 1
  apply sum_congr rfl
  intro t _
  rw [Nat.zero_add, Nat.mul_one, turn_pow, complex]

/-! ## Both directions -/

/-- The roots of the two directions are inverse. -/
theorem turn_opposite (points : ℕ) : turn (-1) points = (turn 1 points)⁻¹ := by
  have forward : sign 1 = -1 := if_pos rfl
  have backward : sign (-1) = 1 := if_neg (by decide)
  rw [turn_eq_exp, turn_eq_exp, ← Complex.exp_neg, forward, backward]
  congr 1
  push_cast
  ring

theorem turn_primitive {points : ℕ} (some : points ≠ 0) :
    IsPrimitiveRoot (turn (-1) points) points ∧ IsPrimitiveRoot (turn 1 points) points := by
  have backward : sign (-1) = 1 := if_neg (by decide)
  have root : IsPrimitiveRoot (turn (-1) points) points := by
    have standard := Complex.isPrimitiveRoot_exp points some
    have same : turn (-1) points = Complex.exp (2 * Real.pi * Complex.I / points) := by
      rw [turn_eq_exp, backward]
      congr 1
      push_cast
      ring
    rw [same]
    exact standard
  have inverse := turn_opposite points
  refine ⟨root, ?_⟩
  rw [inverse] at root
  exact IsPrimitiveRoot.inv_iff.mp root

/-- A transform in the other direction gives the points back. -/
theorem IsTransform.undone {dir other : ℤ} {m : ℕ} {buffer result final : ℕ → Cmplx ℝ}
    (transforms : IsTransform dir m buffer result) (back : IsTransform other m result final)
    (primitive : IsPrimitiveRoot (turn dir (2 ^ m)) (2 ^ m))
    (inverse : turn other (2 ^ m) = (turn dir (2 ^ m))⁻¹)
    (scaled : weight other m * (weight dir m * ((2 ^ m : ℕ) : ℂ)) = 1) : final = buffer := by
  funext s
  by_cases small : s < 2 ^ m
  · apply Cmplx.toComplex_injective
    have values : Fourier.transform (complex result) 0 1 (2 ^ m) (turn other (2 ^ m)) s =
        weight dir m * Fourier.transform (fun k => Fourier.transform (complex buffer) 0 1 (2 ^ m)
          (turn dir (2 ^ m)) k) 0 1 (2 ^ m) (turn other (2 ^ m)) s := by
      rw [Fourier.transform, Fourier.transform, mul_sum]
      apply sum_congr rfl
      intro k member
      rw [Nat.zero_add, Nat.mul_one, transforms.points k (mem_range.mp member), mul_assoc]
    have whole := back.points s small
    rw [values, inverse, transform_inverse primitive _ small] at whole
    calc (final s).toComplex
        = weight other m * (weight dir m * (((2 ^ m : ℕ) : ℂ) * complex buffer s)) := whole
      _ = weight other m * (weight dir m * ((2 ^ m : ℕ) : ℂ)) * complex buffer s := by ring
      _ = (buffer s).toComplex := by rw [scaled, one_mul, complex]
  · rw [back.frame s (by omega), transforms.frame s (by omega)]

/-- The reverse transform undoes the forward one, and the forward one undoes the reverse one. -/
theorem fft_roundTrip (m : ℕ) (buffer : ℕ → Cmplx ℝ) :
    (fft 1 m buffer).bind (fft (-1) m) = some buffer ∧
      (fft (-1) m buffer).bind (fft 1 m) = some buffer := by
  have points : (2 ^ m : ℕ) ≠ 0 := by positivity
  have nonzero : ((2 ^ m : ℕ) : ℂ) ≠ 0 := Nat.cast_ne_zero.mpr points
  have roots := turn_primitive points
  have forward : weight 1 m = ((2 ^ m : ℕ) : ℂ)⁻¹ := if_pos rfl
  have backward : weight (-1) m = 1 := if_neg (by decide)
  constructor
  · rcases fft_isTransform 1 m buffer with ⟨result, run, transforms⟩
    rcases fft_isTransform (-1) m result with ⟨final, again, back⟩
    rw [run, Option.bind_some, again]
    apply congrArg some
    apply transforms.undone back roots.2 (turn_opposite _)
    rw [forward, backward, one_mul, inv_mul_cancel₀ nonzero]
  · rcases fft_isTransform (-1) m buffer with ⟨result, run, transforms⟩
    rcases fft_isTransform 1 m result with ⟨final, again, back⟩
    rw [run, Option.bind_some, again]
    apply congrArg some
    apply transforms.undone back roots.1
    · rw [turn_opposite, inv_inv]
    · rw [forward, backward, one_mul, inv_mul_cancel₀ nonzero]

end FcTpms.Extractor
