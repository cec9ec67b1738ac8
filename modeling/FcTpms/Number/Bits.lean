import Mathlib.Tactic.Ring

/-!
# Numbers as bits

Numbers of a fixed width as lists of bits, the most significant one first.
-/

namespace FcTpms.Number

/-- The number that bits write. -/
def ofBits (bits : List Bool) : ℕ :=
  bits.foldl (fun value bit => value * 2 + if bit then 1 else 0) 0

/-- The lowest bits of a number. -/
def toBits : ℕ → ℕ → List Bool
  | 0, _ => []
  | width + 1, value => value.testBit width :: toBits width value

@[simp] theorem length_toBits (width value : ℕ) : (toBits width value).length = width := by
  induction width with
  | zero => rfl
  | succ width ih => rw [toBits, List.length_cons, ih]

/-- Bits are read behind a number. -/
theorem foldl_bits (bits : List Bool) (value : ℕ) :
    bits.foldl (fun value bit => value * 2 + if bit then 1 else 0) value =
      value * 2 ^ bits.length + ofBits bits := by
  induction bits generalizing value with
  | nil => simp [ofBits]
  | cons bit bits ih =>
    have first : ofBits (bit :: bits) = (if bit then 1 else 0) * 2 ^ bits.length + ofBits bits := by
      rw [ofBits, List.foldl_cons, ih, Nat.zero_mul, Nat.zero_add]
    rw [List.foldl_cons, ih, first, List.length_cons, pow_succ]
    ring

theorem ofBits_cons (bit : Bool) (bits : List Bool) :
    ofBits (bit :: bits) = (if bit then 1 else 0) * 2 ^ bits.length + ofBits bits := by
  rw [ofBits, List.foldl_cons, foldl_bits, Nat.zero_mul, Nat.zero_add]

theorem ofBits_lt (bits : List Bool) : ofBits bits < 2 ^ bits.length := by
  induction bits with
  | nil => exact Nat.one_pos
  | cons bit bits ih =>
    rw [ofBits_cons, List.length_cons, pow_succ]
    split
    · omega
    · omega

/-- A number that is written in bits is read again. -/
theorem ofBits_toBits (width value : ℕ) : ofBits (toBits width value) = value % 2 ^ width := by
  induction width with
  | zero => rw [pow_zero, Nat.mod_one]; rfl
  | succ width ih =>
    rw [toBits, ofBits_cons, length_toBits, ih, Nat.mod_pow_succ, Nat.testBit_eq_decide_div_mod_eq]
    have parity := Nat.mod_two_eq_zero_or_one (value / 2 ^ width)
    rcases parity with even | odd
    · rw [even]
      simp
    · rw [odd]
      simp [Nat.add_comm]

/-- Higher bits do not count. -/
theorem toBits_mod (width value : ℕ) : toBits width (value % 2 ^ width) = toBits width value := by
  have more (few : ℕ) (inside : few ≤ width) :
      toBits few (value % 2 ^ width) = toBits few value := by
    induction few with
    | zero => rfl
    | succ few ih =>
      have below : few < width := inside
      rw [toBits, toBits, ih (Nat.le_of_lt below), Nat.testBit_mod_two_pow]
      simp [below]
  exact more width (le_refl width)

/-- Bits that are read are written again. -/
theorem toBits_ofBits (bits : List Bool) : toBits bits.length (ofBits bits) = bits := by
  induction bits with
  | nil => rfl
  | cons bit bits ih =>
    have small := ofBits_lt bits
    have high : (ofBits (bit :: bits)).testBit bits.length = bit := by
      rw [Nat.testBit_eq_decide_div_mod_eq, ofBits_cons, Nat.add_comm,
        Nat.add_mul_div_right _ _ (Nat.two_pow_pos _), Nat.div_eq_of_lt small, Nat.zero_add]
      cases bit <;> rfl
    have low : toBits bits.length (ofBits (bit :: bits)) = bits := by
      rw [← toBits_mod, ofBits_cons, Nat.mul_add_mod_self_right, Nat.mod_eq_of_lt small, ih]
    rw [List.length_cons, toBits, high, low]

/-- A bit of a number. -/
theorem getElem?_toBits {width i : ℕ} (value : ℕ) (inside : i < width) :
    (toBits width value)[i]? = some (value.testBit (width - 1 - i)) := by
  induction width generalizing i with
  | zero => omega
  | succ width ih =>
    cases i with
    | zero => rfl
    | succ i =>
      have place : width + 1 - 1 - (i + 1) = width - 1 - i := by omega
      rw [toBits, List.getElem?_cons_succ, ih (by omega), place]

end FcTpms.Number
