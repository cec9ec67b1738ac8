import Mathlib.Logic.Function.Basic
import Mathlib.Algebra.Order.Ring.Nat
import Mathlib.Tactic.Ring

/-!
# Reversed indices

The index with its bits in reverse order, how a counter steps from one reversed index to the next,
and the exchange of every element with the one at the reversed index.
-/

namespace FcTpms.Fourier

/-! ## Reversed indices -/

/-- The last bits of an index in reverse order. -/
def reversed : ℕ → ℕ → ℕ
  | 0, _ => 0
  | bits + 1, i => i % 2 * 2 ^ bits + reversed bits (i / 2)

theorem reversed_lt (bits i : ℕ) : reversed bits i < 2 ^ bits := by
  induction bits generalizing i with
  | zero => exact Nat.one_pos
  | succ bits ih =>
    have rest := ih (i / 2)
    rw [reversed, pow_succ]
    rcases Nat.mod_two_eq_zero_or_one i with even | odd
    · rw [even]
      omega
    · rw [odd]
      omega

theorem reversed_even (bits q : ℕ) : reversed (bits + 1) (2 * q) = reversed bits q := by
  have even : 2 * q % 2 = 0 := by omega
  have half : 2 * q / 2 = q := by omega
  rw [reversed, even, half, Nat.zero_mul, Nat.zero_add]

theorem reversed_odd (bits q : ℕ) :
    reversed (bits + 1) (2 * q + 1) = 2 ^ bits + reversed bits q := by
  have odd : (2 * q + 1) % 2 = 1 := by omega
  have half : (2 * q + 1) / 2 = q := by omega
  rw [reversed, odd, half, Nat.one_mul]

/-- The first bit becomes the last one. -/
theorem reversed_add (bits : ℕ) {i : ℕ} (small : i < 2 ^ bits) {bit : ℕ} (one : bit < 2) :
    reversed (bits + 1) (bit * 2 ^ bits + i) = 2 * reversed bits i + bit := by
  induction bits generalizing i with
  | zero =>
    have none : i = 0 := by omega
    rw [none, reversed, reversed, reversed, pow_zero]
    omega
  | succ bits ih =>
    rw [pow_succ] at small
    have power : 2 ^ (bits + 1) = 2 * 2 ^ bits := by rw [pow_succ, Nat.mul_comm]
    have parity : (bit * 2 ^ (bits + 1) + i) % 2 = i % 2 := by
      rw [power, Nat.mul_left_comm, Nat.mul_add_mod]
    have half : (bit * 2 ^ (bits + 1) + i) / 2 = bit * 2 ^ bits + i / 2 := by
      rw [power, Nat.mul_left_comm, Nat.mul_add_div Nat.two_pos]
    have rest := ih (show i / 2 < 2 ^ bits by omega)
    rw [reversed, parity, half, rest, reversed, power]
    ring

/-- Reversing twice changes nothing. -/
theorem reversed_reversed (bits : ℕ) {i : ℕ} (small : i < 2 ^ bits) :
    reversed bits (reversed bits i) = i := by
  induction bits generalizing i with
  | zero =>
    rw [pow_zero] at small
    rw [reversed]
    omega
  | succ bits ih =>
    rw [pow_succ] at small
    have parts : reversed (bits + 1) i = i % 2 * 2 ^ bits + reversed bits (i / 2) := rfl
    rw [parts, reversed_add bits (reversed_lt bits (i / 2)) (Nat.mod_lt i Nat.two_pos),
      ih (by omega)]
    omega

/-! ## A reversed counter -/

/-- `while (k <= j) { j -= k; k >>= 1; } j += k;`, if the loop ends within so many rounds. -/
def reverseCarry : ℕ → ℕ → ℕ → Option ℕ
  | 0, _, _ => none
  | rounds + 1, k, j => if k ≤ j then reverseCarry rounds (k / 2) (j - k) else some (j + k)

/-- The loop ends, and it steps to the next reversed index, except behind the last index. -/
theorem reverseCarry_reversed {bits rounds i : ℕ} (enough : bits ≤ rounds)
    (more : i + 1 < 2 ^ bits) :
    reverseCarry rounds (2 ^ bits / 2) (reversed bits i) = some (reversed bits (i + 1)) := by
  induction bits generalizing rounds i with
  | zero =>
    rw [pow_zero] at more
    omega
  | succ bits ih =>
    have half : 2 ^ (bits + 1) / 2 = 2 ^ bits := by
      rw [pow_succ, Nat.mul_div_cancel _ Nat.two_pos]
    rw [pow_succ] at more
    cases rounds with
    | zero => omega
    | succ rounds =>
      obtain ⟨q, even | odd⟩ : ∃ q, i = 2 * q ∨ i = 2 * q + 1 := ⟨i / 2, by omega⟩
      · have below : ¬ 2 ^ bits ≤ reversed bits q := Nat.not_le.mpr (reversed_lt bits q)
        rw [even, half, reversed_even, reversed_odd, reverseCarry, if_neg below, Nat.add_comm]
      · have next : i + 1 = 2 * (q + 1) := by omega
        have above : 2 ^ bits ≤ 2 ^ bits + reversed bits q := Nat.le_add_right _ _
        rw [next, odd, half, reversed_odd, reversed_even, reverseCarry, if_pos above,
          Nat.add_sub_cancel_left]
        exact ih (by omega) (by omega)

/-! ## Exchanging elements -/

section Exchange

variable {α : Type*} {n : ℕ} {mirror : ℕ → ℕ}

/-- Exchange two elements. -/
def exchange (buffer : ℕ → α) (i j : ℕ) : ℕ → α :=
  Function.update (Function.update buffer i (buffer j)) j (buffer i)

/-- The elements up to an index, and those at their mirrored places, have been exchanged. -/
def ExchangedTo (mirror : ℕ → ℕ) (x buffer : ℕ → α) (n i : ℕ) : Prop :=
  ∀ p < n, buffer p = if p < i ∨ mirror p < i then x (mirror p) else x p

/-- Each element is exchanged at the lower of its two places. -/
theorem ExchangedTo.next {x buffer : ℕ → α} {i : ℕ} (exchanged : ExchangedTo mirror x buffer n i)
    (closed : ∀ p < n, mirror p < n) (twice : ∀ p < n, mirror (mirror p) = p) (inside : i < n) :
    ExchangedTo mirror x (if i < mirror i then exchange buffer i (mirror i) else buffer) n
      (i + 1) := by
  intro p small
  have image := closed p small
  have back := twice p small
  have here := exchanged p small
  have place := exchanged i inside
  have other := exchanged (mirror i) (closed i inside)
  rw [twice i inside] at other
  by_cases fresh : i < mirror i
  · rw [if_pos fresh]
    rw [if_neg (by omega)] at place other
    by_cases second : p = mirror i
    · rw [second, exchange, Function.update_self, place, twice i inside, if_pos (by omega)]
    · by_cases first : p = i
      · rw [first, exchange, Function.update_of_ne (by omega), Function.update_self, other,
          if_pos (by omega)]
      · rw [exchange, Function.update_of_ne second, Function.update_of_ne first, here]
        have elsewhere : mirror p ≠ i := by
          intro same
          rw [same] at back
          exact second back.symm
        by_cases before : p < i ∨ mirror p < i
        · rw [if_pos before, if_pos (by omega)]
        · rw [if_neg before, if_neg (by omega)]
  · rw [if_neg fresh, here]
    by_cases before : p < i ∨ mirror p < i
    · rw [if_pos before, if_pos (by omega)]
    · rw [if_neg before]
      by_cases now : p < i + 1 ∨ mirror p < i + 1
      · rw [if_pos now]
        have fixed : mirror p = p := by
          rcases Nat.lt_or_ge p (i + 1) with low | high
          · have same : p = i := by omega
            rw [same] at before ⊢
            omega
          · have same : mirror p = i := by omega
            rw [same] at back
            omega
        rw [fixed]
      · rw [if_neg now]

theorem exchangedTo_start (x : ℕ → α) : ExchangedTo mirror x x n 0 := by
  intro p _
  rw [if_neg (by omega)]

/-- When all indices but the last one are done, everything is exchanged. -/
theorem ExchangedTo.all {x buffer : ℕ → α} (exchanged : ExchangedTo mirror x buffer n (n - 1))
    (closed : ∀ p < n, mirror p < n) {p : ℕ} (small : p < n) : buffer p = x (mirror p) := by
  have image := closed p small
  rw [exchanged p small]
  by_cases before : p < n - 1 ∨ mirror p < n - 1
  · rw [if_pos before]
  · have last : mirror p = p := by omega
    rw [if_neg before, last]

end Exchange

end FcTpms.Fourier
