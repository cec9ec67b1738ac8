import Mathlib.Algebra.Order.Field.Rat
import Mathlib.Algebra.Order.Field.Power
import Mathlib.Order.Monotone.Defs
import Mathlib.Order.Interval.Set.Defs
import Mathlib.Tactic.Linarith
import Mathlib.Tactic.NormNum

/-!
# Rounding to a binary format

A binary floating-point format rounds every number of moderate size to one of its own. Rounding
keeps the order, commutes with the sign and leaves powers of two alone; nothing else is used of
it. Two numbers with powers of two between them are therefore still apart after rounding, even
if the smaller one was rounded before (`Rounding.separates`).
-/

namespace FcTpms.Number

/-- Rounding to a format, on the numbers up to 2¹²⁷. -/
structure Rounding where
  /-- The nearest number of the format. -/
  round : ℚ → ℚ
  /-- The order is kept. -/
  monotone : MonotoneOn round (Set.Icc (-2 ^ 127) (2 ^ 127))
  /-- The sign is kept. -/
  odd : ∀ value, round (-value) = -round value
  /-- Powers of two belong to the format. -/
  two_pow : ∀ exponent : ℤ, -126 ≤ exponent → exponent ≤ 127 →
    round (2 ^ exponent) = 2 ^ exponent

namespace Rounding

/-- Exact numbers. -/
def exact : Rounding where
  round := id
  monotone := fun _ _ _ _ ordered => ordered
  odd := fun _ => rfl
  two_pow := fun _ _ _ => rfl

variable (format : Rounding)

/-- Zero belongs to every format. -/
@[simp] theorem round_zero : format.round 0 = 0 := by
  have symmetric := format.odd 0
  rw [neg_zero] at symmetric
  linarith

/-- A number of at most a power of two is rounded to at most that power. -/
theorem round_le_two_pow {value : ℚ} {exponent : ℤ} (low : -126 ≤ exponent)
    (high : exponent ≤ 127) (nonnegative : 0 ≤ value) (bound : value ≤ 2 ^ exponent) :
    format.round value ≤ 2 ^ exponent := by
  have top : (2 : ℚ) ^ exponent ≤ 2 ^ 127 := by
    exact_mod_cast zpow_le_zpow_right₀ (by norm_num : (1 : ℚ) ≤ 2) high
  have ordered := format.monotone (a := value) (b := 2 ^ exponent)
    ⟨by linarith [show (0 : ℚ) ≤ 2 ^ 127 by positivity], by linarith⟩
    ⟨by linarith [show (0 : ℚ) ≤ 2 ^ 127 by positivity], top⟩ bound
  rwa [format.two_pow exponent low high] at ordered

/-- A number of at least a power of two is rounded to at least that power. -/
theorem two_pow_le_round {value : ℚ} {exponent : ℤ} (low : -126 ≤ exponent)
    (high : exponent ≤ 127) (bound : 2 ^ exponent ≤ value) (size : value ≤ 2 ^ 127) :
    2 ^ exponent ≤ format.round value := by
  have positive : (0 : ℚ) < 2 ^ exponent := by positivity
  have ordered := format.monotone (a := 2 ^ exponent) (b := value)
    ⟨by linarith [show (0 : ℚ) ≤ 2 ^ 127 by positivity], by linarith⟩
    ⟨by linarith [show (0 : ℚ) ≤ 2 ^ 127 by positivity], size⟩ bound
  rwa [format.two_pow exponent low high] at ordered

/-- A positive number stays nonnegative. -/
theorem round_nonneg {value : ℚ} (nonnegative : 0 ≤ value) (size : value ≤ 2 ^ 127) :
    0 ≤ format.round value := by
  have ordered := format.monotone (a := 0) (b := value)
    ⟨by linarith [show (0 : ℚ) ≤ 2 ^ 127 by positivity], by positivity⟩
    ⟨by linarith [show (0 : ℚ) ≤ 2 ^ 127 by positivity], size⟩ nonnegative
  rwa [round_zero] at ordered

/-- A power of two between two numbers keeps them apart, even if the smaller one is rounded
twice. -/
theorem separates (inner outer : Rounding) {small large : ℚ} {exponent : ℤ}
    (low : -126 ≤ exponent) (high : exponent < 127) (nonnegative : 0 ≤ small)
    (below : small ≤ 2 ^ exponent) (above : 2 ^ (exponent + 1) ≤ large)
    (size : large ≤ 2 ^ 127) :
    outer.round (inner.round small) < outer.round large := by
  have between : (2 : ℚ) ^ exponent < 2 ^ (exponent + 1) :=
    zpow_lt_zpow_right₀ (by norm_num) (by omega)
  have once : inner.round small ≤ 2 ^ exponent :=
    inner.round_le_two_pow low (by omega) nonnegative below
  have kept : 0 ≤ inner.round small := inner.round_nonneg nonnegative (by linarith)
  calc
    outer.round (inner.round small) ≤ 2 ^ exponent :=
      outer.round_le_two_pow low (by omega) kept once
    _ < 2 ^ (exponent + 1) := between
    _ ≤ outer.round large := outer.two_pow_le_round (by omega) (by omega) above size

end Rounding

end FcTpms.Number
