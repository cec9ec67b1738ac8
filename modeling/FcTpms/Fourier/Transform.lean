import Mathlib.Algebra.BigOperators.Intervals
import Mathlib.Algebra.Star.BigOperators
import Mathlib.RingTheory.RootsOfUnity.PrimitiveRoots

/-!
# Discrete Fourier transforms

The transform of values that stand at a distance from one another. A transform of twice as many
values is made of two with twice the distance, a transform with the inverse root undoes one, and
the energy of the values is kept.
-/

namespace FcTpms.Fourier

open Finset

section Halves

variable {R : Type*} [CommRing R]

/-- Sum of the values at `start`, `start + stride` and so on, each with its power of a root. -/
def transform (x : ℕ → R) (start stride count : ℕ) (root : R) (k : ℕ) : R :=
  ∑ t ∈ range count, x (start + t * stride) * root ^ (t * k)

theorem transform_one (x : ℕ → R) (start stride : ℕ) (root : R) (k : ℕ) :
    transform x start stride 1 root k = x start := by
  simp [transform]

/-- A transform is linear. -/
theorem transform_mul {x y : ℕ → R} {factor : R} (scaled : ∀ p, y p = factor * x p)
    (start stride count : ℕ) (root : R) (k : ℕ) :
    transform y start stride count root k = factor * transform x start stride count root k := by
  rw [transform, transform, mul_sum]
  apply sum_congr rfl
  intro t _
  rw [scaled, mul_assoc]

/-- A sum over twice as many places, even ones and odd ones. -/
theorem sum_range_double (f : ℕ → R) (count : ℕ) :
    ∑ t ∈ range (2 * count), f t =
      ∑ t ∈ range count, f (2 * t) + ∑ t ∈ range count, f (2 * t + 1) := by
  induction count with
  | zero => simp
  | succ count ih =>
    have double : 2 * (count + 1) = 2 * count + 1 + 1 := by ring
    rw [double, sum_range_succ, sum_range_succ, ih, sum_range_succ, sum_range_succ]
    ring

/-- The even places and the odd places of a transform are transforms. -/
theorem transform_double (x : ℕ → R) (start stride count : ℕ) (root : R) (k : ℕ) :
    transform x start stride (2 * count) root k =
      transform x start (2 * stride) count (root ^ 2) k +
        root ^ k * transform x (start + stride) (2 * stride) count (root ^ 2) k := by
  have even (t : ℕ) : x (start + 2 * t * stride) * root ^ (2 * t * k) =
      x (start + t * (2 * stride)) * (root ^ 2) ^ (t * k) := by
    have place : start + 2 * t * stride = start + t * (2 * stride) := by ring
    have power : 2 * t * k = 2 * (t * k) := by ring
    rw [place, power, pow_mul]
  have odd (t : ℕ) : x (start + (2 * t + 1) * stride) * root ^ ((2 * t + 1) * k) =
      root ^ k * (x (start + stride + t * (2 * stride)) * (root ^ 2) ^ (t * k)) := by
    have place : start + (2 * t + 1) * stride = start + stride + t * (2 * stride) := by ring
    have power : (2 * t + 1) * k = 2 * (t * k) + k := by ring
    rw [place, power, pow_add, pow_mul]
    ring
  rw [transform, sum_range_double]
  simp only [even, odd]
  rw [← mul_sum]
  rfl

/-- A transform is periodic. -/
theorem transform_periodic (x : ℕ → R) (start stride : ℕ) {count : ℕ} {root : R}
    (whole : root ^ count = 1) (k : ℕ) :
    transform x start stride count root (k + count) = transform x start stride count root k := by
  apply sum_congr rfl
  intro t _
  have power : t * (k + count) = t * k + count * t := by ring
  rw [power, pow_add, pow_mul root count t, whole, one_pow, mul_one]

/-- The second half of a transform differs from the first one in a sign. -/
theorem transform_double_add (x : ℕ → R) (start stride : ℕ) {count : ℕ} {root : R}
    (half : root ^ count = -1) (k : ℕ) :
    transform x start stride (2 * count) root (k + count) =
      transform x start (2 * stride) count (root ^ 2) k -
        root ^ k * transform x (start + stride) (2 * stride) count (root ^ 2) k := by
  have whole : (root ^ 2) ^ count = 1 := by
    rw [← pow_mul, mul_comm, pow_mul, half, neg_one_sq]
  rw [transform_double, transform_periodic _ _ _ whole, transform_periodic _ _ _ whole, pow_add,
    half]
  ring

end Halves

section Inverse

variable {K : Type*} [Field K] {count : ℕ} {root : K}

/-- Powers of a primitive root cancel, unless all of them are one. -/
theorem sum_powers (primitive : IsPrimitiveRoot root count) {s t : ℕ} (first : s < count)
    (second : t < count) :
    ∑ k ∈ range count, root ^ (t * k) * root⁻¹ ^ (k * s) = if t = s then (count : K) else 0 := by
  have positive : 0 < count := by omega
  have some : root ≠ 0 := primitive.ne_zero positive.ne'
  have quotient (k : ℕ) : root ^ (t * k) * root⁻¹ ^ (k * s) = (root ^ t * (root ^ s)⁻¹) ^ k := by
    rw [mul_pow, inv_pow, inv_pow, ← pow_mul, ← pow_mul, mul_comm s k]
  simp only [quotient]
  by_cases same : t = s
  · rw [if_pos same, same]
    simp [mul_inv_cancel₀ (pow_ne_zero s some)]
  · rw [if_neg same]
    have other : root ^ t * (root ^ s)⁻¹ ≠ 1 := by
      intro one
      rw [mul_inv_eq_one₀ (pow_ne_zero s some)] at one
      exact same (primitive.pow_inj second first one)
    have whole : (root ^ t * (root ^ s)⁻¹) ^ count = 1 := by
      rw [mul_pow, inv_pow, ← pow_mul, ← pow_mul, mul_comm t, mul_comm s, pow_mul, pow_mul,
        primitive.pow_eq_one, one_pow, one_pow, inv_one, mul_one]
    have sum := geom_sum_mul (root ^ t * (root ^ s)⁻¹) count
    rw [whole, sub_self] at sum
    rcases mul_eq_zero.mp sum with zero | one
    · exact zero
    · exact absurd (sub_eq_zero.mp one) other

/-- The transform with the inverse root undoes the transform, up to the number of values. -/
theorem transform_inverse (primitive : IsPrimitiveRoot root count) (x : ℕ → K) {s : ℕ}
    (inside : s < count) :
    transform (fun k => transform x 0 1 count root k) 0 1 count root⁻¹ s = count * x s := by
  simp only [transform, Nat.zero_add, Nat.mul_one]
  calc ∑ k ∈ range count, (∑ t ∈ range count, x t * root ^ (t * k)) * root⁻¹ ^ (k * s)
      = ∑ k ∈ range count, ∑ t ∈ range count, x t * (root ^ (t * k) * root⁻¹ ^ (k * s)) := by
        apply sum_congr rfl
        intro k _
        rw [sum_mul]
        apply sum_congr rfl
        intro t _
        rw [mul_assoc]
    _ = ∑ t ∈ range count, x t * ∑ k ∈ range count, root ^ (t * k) * root⁻¹ ^ (k * s) := by
        rw [sum_comm]
        apply sum_congr rfl
        intro t _
        rw [mul_sum]
    _ = ∑ t ∈ range count, if t = s then count * x s else 0 := by
        apply sum_congr rfl
        intro t member
        rw [sum_powers primitive inside (mem_range.mp member)]
        split
        · rename_i same
          rw [same, mul_comm]
        · rw [mul_zero]
    _ = count * x s := by
        rw [sum_ite_eq', if_pos (mem_range.mpr inside)]

end Inverse

section Energy

variable {K : Type*} [Field K] [StarRing K] {count : ℕ} {root : K}

/-- A transform with a root on the unit circle has the energy of its values, up to their number. -/
theorem transform_energy (primitive : IsPrimitiveRoot root count) (unit : star root = root⁻¹)
    (x : ℕ → K) :
    ∑ k ∈ range count, transform x 0 1 count root k * star (transform x 0 1 count root k) =
      count * ∑ t ∈ range count, x t * star (x t) := by
  have conjugate (k : ℕ) : star (transform x 0 1 count root k) =
      ∑ t ∈ range count, root⁻¹ ^ (k * t) * star (x t) := by
    rw [transform, star_sum]
    apply sum_congr rfl
    intro t _
    rw [Nat.zero_add, Nat.mul_one, star_mul, star_pow, unit, Nat.mul_comm]
  have back {t : ℕ} (inside : t < count) :
      ∑ k ∈ range count, transform x 0 1 count root k * root⁻¹ ^ (k * t) = count * x t := by
    rw [← transform_inverse primitive x inside]
    apply sum_congr rfl
    intro k _
    rw [Nat.zero_add, Nat.mul_one]
  calc ∑ k ∈ range count, transform x 0 1 count root k * star (transform x 0 1 count root k)
      = ∑ k ∈ range count, ∑ t ∈ range count,
          transform x 0 1 count root k * root⁻¹ ^ (k * t) * star (x t) := by
        apply sum_congr rfl
        intro k _
        rw [conjugate, mul_sum]
        apply sum_congr rfl
        intro t _
        rw [mul_assoc]
    _ = ∑ t ∈ range count, count * x t * star (x t) := by
        rw [sum_comm]
        apply sum_congr rfl
        intro t member
        rw [← sum_mul, back (mem_range.mp member)]
    _ = count * ∑ t ∈ range count, x t * star (x t) := by
        rw [mul_sum]
        apply sum_congr rfl
        intro t _
        rw [mul_assoc]

end Energy
end FcTpms.Fourier
