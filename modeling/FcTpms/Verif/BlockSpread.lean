import FcTpms.Extractor.BlockSpread
import FcTpms.Verif.Fft
import Mathlib.Algebra.Order.Chebyshev

/-!
# Bounds of the power ratio

The ratio of a block lies between 1 and the number of its samples. It is not a number for the blocks
whose samples between the first one and the last one are zero, it does not depend on the gain, and
a constant signal is significant.
-/

namespace FcTpms.Extractor

open FcTpms.Fourier Finset Decoder.Arithmetic Spectral

/-! ## Magnitudes -/

/-- The magnitude of a point. -/
theorem blockAbs_eq (cplxF : ℕ → Cmplx ℝ) (j : ℕ) : blockAbs cplxF j = ‖complex cplxF j‖ := by
  have sum := Complex.sq_norm (complex cplxF j)
  rw [Complex.normSq_apply] at sum
  show Real.sqrt ((cplxF j).real * (cplxF j).real + (cplxF j).imag * (cplxF j).imag) = _
  rw [← Real.sqrt_sq (norm_nonneg (complex cplxF j)), sum]
  rfl

/-- The largest magnitude and the sum of all. -/
structure MaxAndSum (magnitude : ℕ → ℝ) (count : ℕ) (both : ℝ × ℝ) : Prop where
  attained : ∃ j < count, both.1 = magnitude j
  most : ∀ j < count, magnitude j ≤ both.1
  sum : both.2 = ∑ j ∈ range count, magnitude j

/-- What the loop over the magnitudes computes. -/
theorem blockMaxAndSum_eq (cplxF : ℕ → Cmplx ℝ) :
    MaxAndSum (fun j => ‖complex cplxF j‖) blockSize (blockMaxAndSum cplxF) := by
  have rounds (count : ℕ) : MaxAndSum (fun j => ‖complex cplxF j‖) (count + 1)
      ((List.range (count + 1)).foldl (fun (both : ℝ × ℝ) j =>
        (if lt both.1 (blockAbs cplxF j) then blockAbs cplxF j else both.1,
          add both.2 (blockAbs cplxF j))) (literal (-1), literal 0)) := by
    induction count with
    | zero =>
      have positive : lt (literal (-1) : ℝ) (blockAbs cplxF 0) = true := by
        rw [Decoder.lt_exact, blockAbs_eq]
        have nonneg := norm_nonneg (complex cplxF 0)
        show ((-1 : ℚ) : ℝ) < _
        push_cast
        linarith
      rw [List.range_one, List.foldl_cons, List.foldl_nil, if_pos positive, blockAbs_eq]
      constructor
      · exact ⟨0, Nat.one_pos, rfl⟩
      · intro j small
        rw [Nat.lt_one_iff.mp small]
      · rw [sum_range_one]
        show ((0 : ℚ) : ℝ) + _ = _
        rw [Rat.cast_zero, zero_add]
    | succ count ih =>
      rw [List.range_succ, List.foldl_append, List.foldl_cons, List.foldl_nil]
      generalize (List.range (count + 1)).foldl _ _ = both at ih ⊢
      rcases both with ⟨blockMax, blockSum⟩
      rcases ih with ⟨⟨place, inside, attained⟩, most, sum⟩
      dsimp only at attained most sum ⊢
      rw [blockAbs_eq]
      constructor
      · dsimp only
        by_cases larger : lt blockMax ‖complex cplxF (count + 1)‖ = true
        · rw [if_pos larger]
          exact ⟨count + 1, by omega, rfl⟩
        · rw [if_neg larger]
          exact ⟨place, by omega, attained⟩
      · intro j small
        dsimp only
        by_cases larger : lt blockMax ‖complex cplxF (count + 1)‖ = true
        · have above := Decoder.lt_exact.mp larger
          rw [if_pos larger]
          by_cases last : j = count + 1
          · rw [last]
          · exact (most j (by omega)).trans above.le
        · rw [if_neg larger]
          rw [Decoder.lt_exact, not_lt] at larger
          by_cases last : j = count + 1
          · rw [last]
            exact larger
          · exact most j (by omega)
      · rw [sum_range_succ, ← sum]
        rfl
  exact rounds 255

/-! ## The window -/

/-- The coefficient of the window. -/
noncomputable def hann (j : ℕ) : ℝ :=
  ((1 / 2 : ℚ) : ℝ) * (1 - Real.cos ((2 : ℕ) * Real.pi * j / (255 : ℕ)))

theorem weighted_eq (returnedF : ℕ → ℚ) (j k : ℕ) :
    weighted returnedF j k = (returnedF k : ℝ) * hann j := by
  show (returnedF k : ℝ) * ((1 / 2 : ℚ) : ℝ) * (((1 : ℚ) : ℝ) -
    Real.cos (((2 : ℚ) : ℝ) * Real.pi * ((j : ℤ) : ℝ) / (((256 - 1 : ℕ) : ℤ) : ℝ))) = _
  rw [hann]
  push_cast
  ring

/-- The window leaves every sample but the first one and the last one. -/
theorem hann_ne_zero {j : ℕ} (first : 0 < j) (last : j < 255) : hann j ≠ 0 := by
  have positive := Real.pi_pos
  intro zero
  have one : Real.cos (2 * Real.pi * j / 255) = 1 := by
    unfold hann at zero
    push_cast at zero
    linarith
  rcases (Real.cos_eq_one_iff _).mp one with ⟨turns, whole⟩
  have angle : (turns : ℝ) * 255 = j := by
    have scaled : (turns : ℝ) * (2 * Real.pi) * 255 = 2 * Real.pi * j := by
      rw [whole]
      ring
    have pulled : 2 * Real.pi * ((turns : ℝ) * 255) = 2 * Real.pi * j := by linarith
    exact mul_left_cancel₀ (by positivity) pulled
  have turned : turns * 255 = (j : ℤ) := by exact_mod_cast angle
  omega

theorem hann_edges : hann 0 = 0 ∧ hann 255 = 0 := by
  constructor
  · rw [hann, Nat.cast_zero, mul_zero, zero_div, Real.cos_zero, sub_self, mul_zero]
  · have turn : ((2 : ℕ) : ℝ) * Real.pi * ((255 : ℕ) : ℝ) / ((255 : ℕ) : ℝ) = 2 * Real.pi := by
      push_cast
      ring
    rw [hann, turn, Real.cos_two_pi, sub_self, mul_zero]

/-- No sample between the first one and the last one of a block. -/
def Silent (returnedF : ℕ → ℚ) : Prop :=
  ∀ j, 0 < j → j < 255 → returnedF (j * 2) = 0 ∧ returnedF (j * 2 + 1) = 0

/-- Of silent blocks nothing is left to transform. -/
theorem windowed_eq_zero_iff (returnedF : ℕ → ℚ) :
    (∀ j < 256, complex (windowed returnedF) j = 0) ↔ Silent returnedF := by
  have parts (j : ℕ) : complex (windowed returnedF) j = 0 ↔
      (returnedF (j * 2) : ℝ) * hann j = 0 ∧ (returnedF (j * 2 + 1) : ℝ) * hann j = 0 := by
    rw [complex, windowed, Cmplx.toComplex, weighted_eq, weighted_eq, Complex.ext_iff]
    rfl
  constructor
  · intro nothing j first last
    have some := hann_ne_zero first last
    rcases (parts j).mp (nothing j (by omega)) with ⟨real, imag⟩
    constructor
    · exact_mod_cast (mul_eq_zero.mp real).resolve_right some
    · exact_mod_cast (mul_eq_zero.mp imag).resolve_right some
  · intro silent j inside
    rw [parts]
    by_cases first : 0 < j
    · by_cases last : j < 255
      · rcases silent j first last with ⟨real, imag⟩
        rw [real, imag, Rat.cast_zero, zero_mul]
        exact ⟨rfl, rfl⟩
      · have edge : j = 255 := by omega
        rw [edge, hann_edges.2, mul_zero, mul_zero]
        exact ⟨rfl, rfl⟩
    · have edge : j = 0 := by omega
      rw [edge, hann_edges.1, mul_zero, mul_zero]
      exact ⟨rfl, rfl⟩

/-! ## The ratio -/

/-- A transform is zero if and only if what was transformed is. -/
theorem IsTransform.eq_zero_iff {m : ℕ} {buffer result : ℕ → Cmplx ℝ}
    (transforms : IsTransform 1 m buffer result) :
    (∀ k < 2 ^ m, complex result k = 0) ↔ ∀ j < 2 ^ m, complex buffer j = 0 := by
  have vanishes {x : ℕ → ℂ} (nothing : ∀ t < 2 ^ m, x t = 0) (root : ℂ) (k : ℕ) :
      transform x 0 1 (2 ^ m) root k = 0 := by
    apply sum_eq_zero
    intro t member
    rw [Nat.zero_add, Nat.mul_one, nothing t (mem_range.mp member), zero_mul]
  constructor
  · intro nothing j small
    have points : ((2 ^ m : ℕ) : ℂ) ≠ 0 := Nat.cast_ne_zero.mpr (by positivity)
    rcases fft_isTransform (-1) m result with ⟨final, _, back⟩
    have same : final = buffer := by
      apply transforms.undone back (turn_primitive (by positivity)).2 (turn_opposite _)
      rw [weight, if_neg (by decide), weight, if_pos rfl, one_mul, inv_mul_cancel₀ points]
    rw [← same, back.points j small, vanishes nothing, mul_zero]
  · intro nothing k small
    rw [transforms.points k small, vanishes nothing, mul_zero]

/-- What the transform of a block and its magnitudes come to. -/
theorem blockSpread_eq (returnedF : ℕ → ℚ) : ∃ cplxF both,
    IsTransform 1 expo (windowed returnedF) cplxF ∧
      MaxAndSum (fun j => ‖complex cplxF j‖) blockSize both ∧
      blockSpread returnedF =
        some (if both.2 / 256 = 0 then none else some (both.1 / (both.2 / 256))) := by
  rcases fft_isTransform 1 expo (windowed returnedF) with ⟨cplxF, run, transforms⟩
  refine ⟨cplxF, blockMaxAndSum cplxF, transforms, blockMaxAndSum_eq cplxF, ?_⟩
  have average : (div (blockMaxAndSum cplxF).2 (ofInt blockSize) : ℝ) =
      (blockMaxAndSum cplxF).2 / 256 := by
    show (blockMaxAndSum cplxF).2 / (((256 : ℕ) : ℤ) : ℝ) = _
    push_cast
    rfl
  have zero : eq ((blockMaxAndSum cplxF).2 / 256 : ℝ) (literal 0) = true ↔
      (blockMaxAndSum cplxF).2 / 256 = 0 := by
    rw [Decoder.eq_exact]
    show _ = ((0 : ℚ) : ℝ) ↔ _
    rw [Rat.cast_zero]
  simp only [blockSpread, run, Option.bind_eq_bind, Option.bind_some, Option.pure_def, average,
    zero]
  rfl

/-- The sum of magnitudes is zero if and only if all of them are. -/
theorem MaxAndSum.sum_eq_zero_iff {x : ℕ → ℂ} {count : ℕ} {both : ℝ × ℝ}
    (computed : MaxAndSum (fun j => ‖x j‖) count both) :
    both.2 = 0 ↔ ∀ j < count, x j = 0 := by
  rw [computed.sum, Finset.sum_eq_zero_iff_of_nonneg fun j _ => norm_nonneg (x j)]
  constructor
  · intro zeros j small
    exact norm_eq_zero.mp (zeros j (mem_range.mpr small))
  · intro zeros j member
    rw [zeros j (mem_range.mp member), norm_zero]

/-- The largest magnitude is part of the sum. -/
theorem MaxAndSum.le_sum {x : ℕ → ℂ} {count : ℕ} {both : ℝ × ℝ}
    (computed : MaxAndSum (fun j => ‖x j‖) count both) : both.1 ≤ both.2 := by
  rcases computed.attained with ⟨place, inside, attained⟩
  rw [attained, computed.sum]
  exact single_le_sum (fun j _ => norm_nonneg (x j)) (mem_range.mpr inside)

/-- The ratio of every block is computed; it is not a number for silent blocks only, and otherwise
it is at least 1 and at most the number of samples. -/
theorem exists_blockSpread (returnedF : ℕ → ℚ) :
    ∃ spread : Option ℝ, blockSpread returnedF = some spread ∧
      (spread = none ↔ Silent returnedF) ∧
      ∀ value, spread = some value → 1 ≤ value ∧ value ≤ 256 := by
  rcases blockSpread_eq returnedF with ⟨cplxF, ⟨blockMax, blockSum⟩, transforms, computed, ratio⟩
  have silent : blockSum = 0 ↔ Silent returnedF := by
    rw [← windowed_eq_zero_iff]
    exact computed.sum_eq_zero_iff.trans transforms.eq_zero_iff
  have quarter : blockSum / 256 = 0 ↔ blockSum = 0 := by
    rw [div_eq_zero_iff]
    constructor
    · intro cases
      rcases cases with zero | absurd
      · exact zero
      · norm_num at absurd
    · exact Or.inl
  dsimp only at ratio
  refine ⟨_, ratio, ?_, ?_⟩
  · rw [← silent, ← quarter]
    by_cases zero : blockSum / 256 = 0
    · rw [if_pos zero]
      exact ⟨fun _ => zero, fun _ => rfl⟩
    · rw [if_neg zero]
      constructor
      · intro none
        cases none
      · exact fun same => absurd same zero
  · intro value holds
    by_cases zero : blockSum / 256 = 0
    · rw [if_pos zero] at holds
      cases holds
    · rw [if_neg zero] at holds
      have named : blockMax / (blockSum / 256) = value := Option.some.inj holds
      have part : blockMax ≤ blockSum := computed.le_sum
      rcases computed with ⟨_, most, sum⟩
      dsimp only at most sum
      have total : blockSum ≤ 256 * blockMax := by
        rw [sum]
        calc ∑ j ∈ range blockSize, ‖complex cplxF j‖
            ≤ ∑ _j ∈ range blockSize, blockMax :=
              sum_le_sum fun j member => most j (mem_range.mp member)
          _ = 256 * blockMax := by
              rw [sum_const, card_range, nsmul_eq_mul]
              rfl
      have nonneg : 0 ≤ blockSum := by
        rw [sum]
        exact sum_nonneg fun j _ => norm_nonneg (complex cplxF j)
      have positive : 0 < blockSum / 256 := lt_of_le_of_ne (by linarith) (Ne.symm zero)
      rw [← named]
      constructor
      · rw [le_div_iff₀ positive]
        linarith
      · rw [div_le_iff₀ positive]
        linarith

/-! ## Constant signals -/

/-- The magnitudes of a transform are bounded by the energy of the block. -/
theorem IsTransform.sum_norm_sq_le {m : ℕ} {buffer result : ℕ → Cmplx ℝ}
    (transforms : IsTransform 1 m buffer result) :
    (∑ k ∈ range (2 ^ m), ‖complex result k‖) ^ 2 ≤
      ∑ t ∈ range (2 ^ m), ‖complex buffer t‖ ^ 2 := by
  have points : (2 ^ m : ℕ) ≠ 0 := by positivity
  have positive : (0 : ℝ) < (2 ^ m : ℕ) := by positivity
  have conjugate : star (turn 1 (2 ^ m)) = (turn 1 (2 ^ m))⁻¹ := by
    rw [← turn_opposite]
    apply Complex.ext
    · rfl
    · have signs : sign (-1) = -sign 1 := by
        unfold sign
        norm_num
      show -(sign 1 * Real.sin _) = sign (-1) * Real.sin _
      rw [signs, neg_mul]
  have square (z : ℂ) : z * star z = ((‖z‖ ^ 2 : ℝ) : ℂ) := by
    rw [← Complex.normSq_eq_norm_sq]
    exact Complex.mul_conj z
  have energy := transform_energy (turn_primitive points).2 conjugate (complex buffer)
  simp only [square] at energy
  rw [← Complex.ofReal_sum, ← Complex.ofReal_sum, ← Complex.ofReal_natCast, ← Complex.ofReal_mul,
    Complex.ofReal_inj] at energy
  have scaled : ∀ k ∈ range (2 ^ m), ‖complex result k‖ ^ 2 = ((2 ^ m : ℕ) : ℝ)⁻¹ ^ 2 *
      ‖transform (complex buffer) 0 1 (2 ^ m) (turn 1 (2 ^ m)) k‖ ^ 2 := by
    intro k member
    rw [transforms.points k (mem_range.mp member), weight, if_pos rfl, norm_mul, mul_pow, norm_inv,
      Complex.norm_natCast]
  calc (∑ k ∈ range (2 ^ m), ‖complex result k‖) ^ 2
      ≤ (2 ^ m : ℕ) * ∑ k ∈ range (2 ^ m), ‖complex result k‖ ^ 2 := by
        have bound := @sq_sum_le_card_mul_sum_sq ℕ ℝ _ _ _ _ (range (2 ^ m))
          fun k => ‖complex result k‖
        rw [card_range] at bound
        exact bound
    _ = ∑ t ∈ range (2 ^ m), ‖complex buffer t‖ ^ 2 := by
        rw [sum_congr rfl scaled, ← mul_sum, energy]
        field_simp

/-- The first point of the transform is the mean of the block. -/
theorem IsTransform.first_point {m : ℕ} {buffer result : ℕ → Cmplx ℝ}
    (transforms : IsTransform 1 m buffer result) :
    complex result 0 = ((2 ^ m : ℕ) : ℂ)⁻¹ * ∑ t ∈ range (2 ^ m), complex buffer t := by
  rw [transforms.points 0 (by positivity), weight, if_pos rfl, transform]
  congr 1
  apply sum_congr rfl
  intro t _
  rw [Nat.zero_add, Nat.mul_one, Nat.mul_zero, pow_zero, mul_one]

theorem hann_bounds (j : ℕ) : 0 ≤ hann j ∧ hann j ≤ 1 := by
  have most := Real.cos_le_one ((2 : ℕ) * Real.pi * j / (255 : ℕ))
  have least := Real.neg_one_le_cos ((2 : ℕ) * Real.pi * j / (255 : ℕ))
  unfold hann
  push_cast at most least ⊢
  constructor
  · linarith
  · linarith

theorem sum_hann : ∑ j ∈ range 256, hann j = 255 / 2 := by
  have root := Complex.isPrimitiveRoot_exp 255 (by decide)
  have powers := root.geom_sum_eq_zero (by decide)
  have angle (j : ℕ) : (Complex.exp (2 * Real.pi * Complex.I / (255 : ℕ)) ^ j).re =
      Real.cos ((2 : ℕ) * Real.pi * j / (255 : ℕ)) := by
    rw [← Complex.exp_nat_mul, ← Complex.exp_ofReal_mul_I_re]
    congr 2
    push_cast
    ring
  have cosines : ∑ j ∈ range 255, Real.cos ((2 : ℕ) * Real.pi * j / (255 : ℕ)) = 0 := by
    simp only [← angle]
    rw [← Complex.re_sum, powers, Complex.zero_re]
  have edge : hann 255 = 0 := hann_edges.2
  rw [sum_range_succ, edge, add_zero]
  unfold hann
  rw [← mul_sum, sum_sub_distrib, cosines, sum_const, card_range]
  norm_num

/-- The weighted points of a constant signal. -/
theorem windowed_constant {returnedF : ℕ → ℚ} {real imag : ℚ}
    (constant : ∀ j < 256, returnedF (j * 2) = real ∧ returnedF (j * 2 + 1) = imag) :
    ∀ j < 256, complex (windowed returnedF) j = (⟨real, imag⟩ : ℂ) * (hann j : ℂ) := by
  intro j inside
  rcases constant j inside with ⟨first, second⟩
  rw [complex, windowed, Cmplx.toComplex, weighted_eq, weighted_eq, first, second]
  apply Complex.ext
  · rw [Complex.re_mul_ofReal]
  · rw [Complex.im_mul_ofReal]

/-- The ratio of a constant signal reaches the threshold of significance. -/
theorem blockSpread_constant {returnedF : ℕ → ℚ} {real imag : ℚ} (loud : real ≠ 0 ∨ imag ≠ 0)
    (constant : ∀ j < 256, returnedF (j * 2) = real ∧ returnedF (j * 2 + 1) = imag) :
    ∃ value : ℝ, blockSpread returnedF = some (some value) ∧ 8 ≤ value := by
  rcases blockSpread_eq returnedF with ⟨cplxF, ⟨blockMax, blockSum⟩, transforms, computed, ratio⟩
  have sum : blockSum = ∑ j ∈ range 256, ‖complex cplxF j‖ := computed.sum
  have points := windowed_constant constant
  obtain ⟨level, named⟩ : ∃ level, level = ‖(⟨real, imag⟩ : ℂ)‖ := ⟨_, rfl⟩
  have positive : 0 < level := by
    rw [named, norm_pos_iff]
    intro zero
    have first : (real : ℝ) = 0 := congrArg Complex.re zero
    have second : (imag : ℝ) = 0 := congrArg Complex.im zero
    rcases loud with some | some
    · exact some (by exact_mod_cast first)
    · exact some (by exact_mod_cast second)
  have energy : blockSum ^ 2 ≤ level ^ 2 * (255 / 2) := by
    have bound := transforms.sum_norm_sq_le
    have magnitudes : ∀ j ∈ range 256,
        ‖complex (windowed returnedF) j‖ ^ 2 ≤ level ^ 2 * hann j := by
      intro j member
      have window := hann_bounds j
      rw [points j (mem_range.mp member), norm_mul, ← named, Complex.norm_real, Real.norm_eq_abs,
        mul_pow, sq_abs]
      exact mul_le_mul_of_nonneg_left (by nlinarith only [window]) (sq_nonneg level)
    calc blockSum ^ 2
        ≤ ∑ j ∈ range 256, ‖complex (windowed returnedF) j‖ ^ 2 := by
          rw [sum]
          exact bound
      _ ≤ ∑ j ∈ range 256, level ^ 2 * hann j := sum_le_sum magnitudes
      _ = level ^ 2 * (255 / 2) := by rw [← mul_sum, sum_hann]
  have peak : level * (255 / 2) / 256 ≤ blockMax := by
    have first := computed.most 0 (by decide)
    have total : ∑ j ∈ range (2 ^ expo), complex (windowed returnedF) j =
        (⟨real, imag⟩ : ℂ) * ((255 / 2 : ℝ) : ℂ) := by
      rw [← sum_hann, Complex.ofReal_sum, mul_sum]
      exact sum_congr rfl fun j member => points j (mem_range.mp member)
    have mean : ‖complex cplxF 0‖ = level * (255 / 2) / 256 := by
      rw [transforms.first_point, total, norm_mul, norm_mul, ← named, norm_inv,
        Complex.norm_natCast, Complex.norm_real, Real.norm_of_nonneg (by norm_num)]
      have size : ((2 ^ expo : ℕ) : ℝ) = 256 := by norm_num [expo]
      rw [size]
      ring
    rw [← mean]
    exact first
  have some : 0 < blockSum := by
    have part : blockMax ≤ blockSum := computed.le_sum
    linarith
  have low : blockSum ≤ 12 * level := by
    rw [← sq_le_sq₀ some.le (by positivity), mul_pow]
    linarith [sq_nonneg level]
  have average : 0 < blockSum / 256 := by positivity
  have value : blockSpread returnedF = Option.some (Option.some (blockMax / (blockSum / 256))) := by
    rw [ratio, if_neg average.ne']
  apply Exists.intro _
  apply And.intro value
  rw [le_div_iff₀ average]
  linarith

/-! ## Gain -/

/-- The largest magnitude and the sum grow with all magnitudes. -/
theorem MaxAndSum.scaled {magnitude other : ℕ → ℝ} {count : ℕ} {both both' : ℝ × ℝ} {factor : ℝ}
    (computed : MaxAndSum magnitude count both) (computed' : MaxAndSum other count both')
    (positive : 0 < factor) (scaled : ∀ j < count, other j = factor * magnitude j) :
    both'.1 = factor * both.1 ∧ both'.2 = factor * both.2 := by
  constructor
  · rcases computed.attained with ⟨place, inside, attained⟩
    rcases computed'.attained with ⟨place', inside', attained'⟩
    apply le_antisymm
    · rw [attained', scaled place' inside']
      exact mul_le_mul_of_nonneg_left (computed.most place' inside') positive.le
    · rw [attained, ← scaled place inside]
      exact computed'.most place inside
  · rw [computed.sum, computed'.sum, mul_sum]
    exact sum_congr rfl fun j member => scaled j (mem_range.mp member)

/-- The ratio does not depend on the gain. -/
theorem blockSpread_gain (returnedF : ℕ → ℚ) {gain : ℚ} (some : gain ≠ 0) :
    (blockSpread fun k => gain * returnedF k : Option (Option ℝ)) = blockSpread returnedF := by
  rcases blockSpread_eq returnedF with ⟨cplxF, both, transforms, computed, ratio⟩
  rcases blockSpread_eq (fun k => gain * returnedF k) with
    ⟨cplxF', both', transforms', computed', ratio'⟩
  have louder (j : ℕ) : complex (windowed fun k => gain * returnedF k) j =
      (gain : ℂ) * complex (windowed returnedF) j := by
    have scalar : (gain : ℂ) = ((gain : ℝ) : ℂ) := (Complex.ofReal_ratCast gain).symm
    rw [scalar, complex, complex, windowed, windowed, Cmplx.toComplex, Cmplx.toComplex]
    apply Complex.ext
    · rw [Complex.re_ofReal_mul]
      dsimp only
      rw [weighted_eq, weighted_eq, Rat.cast_mul, mul_assoc]
    · rw [Complex.im_ofReal_mul]
      dsimp only
      rw [weighted_eq, weighted_eq, Rat.cast_mul, mul_assoc]
  have magnitudes : ∀ j < blockSize, ‖complex cplxF' j‖ = |(gain : ℝ)| * ‖complex cplxF j‖ := by
    intro j inside
    have small : j < 2 ^ expo := by
      unfold blockSize at inside
      norm_num [expo]
      exact inside
    have turned : complex cplxF' j = (gain : ℂ) * complex cplxF j := by
      rw [transforms'.points j small, transforms.points j small, transform_mul louder,
        mul_left_comm]
    have scalar : ‖(gain : ℂ)‖ = |(gain : ℝ)| := by
      rw [← Complex.ofReal_ratCast, Complex.norm_real, Real.norm_eq_abs]
    rw [turned, norm_mul, scalar]
  have positive : 0 < |(gain : ℝ)| := abs_pos.mpr (by exact_mod_cast some)
  rcases computed.scaled computed' positive magnitudes with ⟨largest, sum⟩
  have part : |(gain : ℝ)| * both.2 / 256 = |(gain : ℝ)| * (both.2 / 256) := by ring
  rw [ratio, ratio', largest, sum, part, mul_div_mul_left _ _ positive.ne']
  by_cases zero : both.2 / 256 = 0
  · rw [if_pos zero, zero, mul_zero, if_pos rfl]
  · rw [if_neg zero, if_neg (mul_ne_zero positive.ne' zero)]

/-- Samples that are twice as loud. -/
theorem blockSpread_gain_double :
    (2 : ℚ) ≠ 0 ∧ (blockSpread fun k => 2 * iqToCplx (UInt8.ofNat k) : Option (Option ℝ)) =
      blockSpread fun k => iqToCplx (UInt8.ofNat k) :=
  ⟨two_ne_zero, blockSpread_gain _ two_ne_zero⟩

end FcTpms.Extractor
