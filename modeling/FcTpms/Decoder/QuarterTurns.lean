import FcTpms.Decoder.Exact

/-!
# Samples a quarter turn apart

The samples of four byte pairs lie on the axes of the complex plane. From one of them to the next
the phase steps by a quarter turn, over the next one by half a turn.
-/

namespace FcTpms.Decoder

open Arithmetic

/-- The two bytes of a sample so many quarter turns from the positive real axis. -/
def turnBytes (turn : ℕ) : UInt8 × UInt8 :=
  match turn % 4 with
  | 0 => (255, 127)
  | 1 => (127, 255)
  | 2 => (0, 127)
  | _ => (127, 0)

/-- The quarter turns of the argument of a sample, which is above minus a half turn. -/
def quarters (turn : ℕ) : ℤ :=
  match turn % 4 with
  | 0 => 0
  | 1 => 1
  | 2 => 2
  | _ => -1

/-- The sample of two bytes a number of quarter turns from the positive real axis. -/
noncomputable def turned (turn : ℕ) : Cplx ℝ := toSample (turnBytes turn).1 (turnBytes turn).2

/-- The part of a sample that a byte gives. -/
theorem toSample_exact (first second : UInt8) :
    toSample first second =
      (⟨((first.toNat : ℝ) - 127) / 128, ((second.toNat : ℝ) - 127) / 128⟩ : Cplx ℝ) := by
  show (⟨(((first.toNat : ℤ) : ℝ) - ((127 : ℚ) : ℝ)) / ((128 : ℚ) : ℝ),
    (((second.toNat : ℤ) : ℝ) - ((127 : ℚ) : ℝ)) / ((128 : ℚ) : ℝ)⟩ : Cplx ℝ) = _
  norm_num

/-- The argument of a sample on an axis. -/
theorem cargf_turned (turn : ℕ) : cargf (turned turn) = quarters turn * (Real.pi / 2) := by
  have argument (re im : ℝ) : cargf (⟨re, im⟩ : Cplx ℝ) = Complex.arg ⟨re, im⟩ := rfl
  have most : ((255 : UInt8).toNat : ℝ) = 255 := Nat.cast_ofNat
  have middle : ((127 : UInt8).toNat : ℝ) = 127 := Nat.cast_ofNat
  have least : ((0 : UInt8).toNat : ℝ) = 0 := Nat.cast_zero
  rw [turned, toSample_exact, argument, turnBytes, quarters]
  split
  · rw [Int.cast_zero, zero_mul, Complex.arg_eq_zero_iff]
    constructor
    · norm_num [most]
    · norm_num [middle]
  · rw [Int.cast_one, one_mul, Complex.arg_eq_pi_div_two_iff]
    constructor
    · norm_num [middle]
    · norm_num [most]
  · rw [Int.cast_ofNat, mul_div_cancel₀ _ two_ne_zero, Complex.arg_eq_pi_iff]
    constructor
    · norm_num [least]
    · norm_num [middle]
  · rw [Int.cast_neg, Int.cast_one, neg_one_mul, Complex.arg_eq_neg_pi_div_two_iff]
    constructor
    · norm_num [middle]
    · norm_num [least]

/-- The phase step between arguments that are quarter turns. -/
theorem deltaPhi_quarters {now before : ℤ} (near : 0 ≤ 4 + now - before) :
    deltaPhi (now * (Real.pi / 2)) (before * (Real.pi / 2)) =
      (((4 + now - before) % 4 : ℤ) : ℝ) * (Real.pi / 2) := by
  have positive := Real.pi_pos
  have above : (0 : ℝ) ≤ ((4 + now - before : ℤ) : ℝ) := by exact_mod_cast near
  have turn : ((2 : ℚ) : ℝ) * Real.pi + now * (Real.pi / 2) - before * (Real.pi / 2) =
      ((4 + now - before : ℤ) : ℝ) * (Real.pi / 2) := by
    push_cast
    ring
  have whole : ((2 : ℚ) : ℝ) * Real.pi = 4 * (Real.pi / 2) := by
    push_cast
    ring
  have floored : ⌊((4 + now - before : ℤ) : ℝ) * (Real.pi / 2) / (4 * (Real.pi / 2))⌋ =
      (4 + now - before) / 4 := by
    have divided := Int.floor_div_natCast ((4 + now - before : ℤ) : ℝ) 4
    rw [Int.floor_intCast] at divided
    rw [mul_div_mul_right _ _ (by positivity)]
    exact_mod_cast divided
  show |((2 : ℚ) : ℝ) * Real.pi + now * (Real.pi / 2) - before * (Real.pi / 2)| -
    ((2 : ℚ) : ℝ) * Real.pi * ((if 0 ≤ |((2 : ℚ) : ℝ) * Real.pi + now * (Real.pi / 2) -
      before * (Real.pi / 2)| / (((2 : ℚ) : ℝ) * Real.pi) then
        ⌊|((2 : ℚ) : ℝ) * Real.pi + now * (Real.pi / 2) - before * (Real.pi / 2)| /
          (((2 : ℚ) : ℝ) * Real.pi)⌋
      else ⌈|((2 : ℚ) : ℝ) * Real.pi + now * (Real.pi / 2) - before * (Real.pi / 2)| /
          (((2 : ℚ) : ℝ) * Real.pi)⌉ : ℤ) : ℝ) = _
  rw [turn, whole, abs_of_nonneg (by positivity), if_pos (by positivity), floored]
  have division := Int.emod_add_mul_ediv (4 + now - before) 4
  have parts : (((4 + now - before) % 4 : ℤ) : ℝ) + 4 * (((4 + now - before) / 4 : ℤ) : ℝ) =
      ((4 + now - before : ℤ) : ℝ) := by exact_mod_cast division
  rw [← parts]
  ring

/-- The quarter turns are those of the turn, up to whole turns. -/
theorem quarters_mod (turn : ℕ) : -1 ≤ quarters turn ∧ quarters turn ≤ 2 ∧
    (quarters turn - turn) % 4 = 0 := by
  have four : turn % 4 = 0 ∨ turn % 4 = 1 ∨ turn % 4 = 2 ∨ turn % 4 = 3 := by omega
  rcases four with place | place | place | place <;> simp only [quarters, place] <;> omega

/-- A sample further on by a number of quarter turns steps by as many. -/
theorem deltaPhi_turned (turn step : ℕ) :
    deltaPhi (cargf (turned (turn + step))) (cargf (turned turn)) =
      ((step % 4 : ℕ) : ℝ) * (Real.pi / 2) := by
  obtain ⟨aboveNow, _, now⟩ := quarters_mod (turn + step)
  obtain ⟨_, belowBefore, before⟩ := quarters_mod turn
  rw [cargf_turned, cargf_turned, deltaPhi_quarters (by omega)]
  have steps : (4 + quarters (turn + step) - quarters turn) % 4 = ((step % 4 : ℕ) : ℤ) := by
    push_cast at now ⊢
    omega
  rw [steps, Int.cast_natCast]

/-- Two quarter turns are half a turn. -/
theorem deltaPhi_half (turn : ℕ) :
    deltaPhi (cargf (turned (turn + 2))) (cargf (turned turn)) = Real.pi := by
  rw [deltaPhi_turned]
  push_cast
  ring

/-- One quarter turn. -/
theorem deltaPhi_quarter (turn : ℕ) :
    deltaPhi (cargf (turned (turn + 1))) (cargf (turned turn)) = Real.pi / 2 := by
  rw [deltaPhi_turned]
  push_cast
  ring

/-- A repeated sample does not step. -/
theorem deltaPhi_still (turn : ℕ) : deltaPhi (cargf (turned turn)) (cargf (turned turn)) = 0 := by
  have still := deltaPhi_turned turn 0
  rw [Nat.add_zero, Nat.zero_mod, Nat.cast_zero, zero_mul] at still
  exact still

end FcTpms.Decoder
