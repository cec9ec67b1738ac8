import FcTpms.Fourier.BitReversal
import FcTpms.Fourier.Transform

/-!
# Butterflies

One stage of a radix-two transform combines the transforms of neighbouring blocks into one. It is
made in place, pair by pair, in any order that does not come back to a pair; here all blocks are
visited for one power of the root after the other.
-/

namespace FcTpms.Fourier

variable {R : Type*} [CommRing R]

/-- Two elements become their sum and their difference, the second one turned. -/
def butterfly (turn : R) (i j : ℕ) (buffer : ℕ → R) : ℕ → R :=
  Function.update (Function.update buffer j (buffer i - turn * buffer j)) i
    (buffer i + turn * buffer j)

/-- The butterflies of one column, in so many blocks of twice the length. -/
def column (turn : R) (length j blocks : ℕ) (buffer : ℕ → R) : ℕ → R :=
  (List.range blocks).foldl (fun buffer block =>
    butterfly turn (j + block * (2 * length)) (j + block * (2 * length) + length) buffer) buffer

/-- The first columns of a stage. -/
def columns (root : R) (length blocks count : ℕ) (buffer : ℕ → R) : ℕ → R :=
  (List.range count).foldl (fun buffer j => column (root ^ j) length j blocks buffer) buffer

/-- What a stage makes of an element. -/
def combined (root : R) (length : ℕ) (buffer : ℕ → R) (p : ℕ) : R :=
  if p % (2 * length) < length then buffer p + root ^ (p % length) * buffer (p + length)
  else buffer (p - length) - root ^ (p % length) * buffer p

/-! ## Places -/

/-- The two places of a column in a block. -/
theorem place_cases {length j p block : ℕ} (short : j < length) :
    (p % length = j ∧ p < (block + 1) * (2 * length)) ↔
      (p % length = j ∧ p < block * (2 * length)) ∨
        p = j + block * (2 * length) ∨ p = j + block * (2 * length) + length := by
  have blocks : (block + 1) * (2 * length) = block * (2 * length) + 2 * length := by ring
  have whole : block * (2 * length) = length * (2 * block) := by ring
  have first : (j + block * (2 * length)) % length = j := by
    rw [whole, Nat.add_mul_mod_self_left, Nat.mod_eq_of_lt short]
  have second : (j + block * (2 * length) + length) % length = j := by
    rw [Nat.add_mod_right, first]
  constructor
  · intro both
    rcases both with ⟨column, below⟩
    by_cases before : p < block * (2 * length)
    · exact Or.inl ⟨column, before⟩
    · apply Or.inr
      obtain ⟨r, rfl⟩ : ∃ r, p = block * (2 * length) + r := ⟨p - block * (2 * length), by omega⟩
      rw [whole, Nat.mul_add_mod] at column
      by_cases low : r < length
      · rw [Nat.mod_eq_of_lt low] at column
        omega
      · obtain ⟨s, rfl⟩ : ∃ s, r = length + s := ⟨r - length, by omega⟩
        rw [Nat.add_mod_left, Nat.mod_eq_of_lt (by omega)] at column
        omega
  · intro cases
    rcases cases with before | rfl | rfl
    · exact ⟨before.1, by omega⟩
    · exact ⟨first, by omega⟩
    · exact ⟨second, by omega⟩

/-- What becomes of the first place. -/
theorem combined_first (root : R) (buffer : ℕ → R) {length j : ℕ} (block : ℕ)
    (short : j < length) : combined root length buffer (j + block * (2 * length)) =
      buffer (j + block * (2 * length)) +
        root ^ j * buffer (j + block * (2 * length) + length) := by
  have whole : block * (2 * length) = length * (2 * block) := by ring
  have place : (j + block * (2 * length)) % (2 * length) = j := by
    rw [Nat.add_mul_mod_self_right, Nat.mod_eq_of_lt (by omega)]
  have column : (j + block * (2 * length)) % length = j := by
    rw [whole, Nat.add_mul_mod_self_left, Nat.mod_eq_of_lt short]
  rw [combined, place, if_pos short, column]

/-- What becomes of the second place. -/
theorem combined_second (root : R) (buffer : ℕ → R) {length j : ℕ} (block : ℕ)
    (short : j < length) : combined root length buffer (j + block * (2 * length) + length) =
      buffer (j + block * (2 * length)) -
        root ^ j * buffer (j + block * (2 * length) + length) := by
  have whole : block * (2 * length) = length * (2 * block) := by ring
  have place : (j + block * (2 * length) + length) % (2 * length) = j + length := by
    rw [Nat.add_right_comm, Nat.add_mul_mod_self_right, Nat.mod_eq_of_lt (by omega)]
  have column : (j + block * (2 * length) + length) % length = j := by
    rw [Nat.add_mod_right, whole, Nat.add_mul_mod_self_left, Nat.mod_eq_of_lt short]
  rw [combined, place, if_neg (by omega), column, Nat.add_sub_cancel]

/-! ## Loops -/

/-- A column changes its places in the blocks, and nothing else. -/
theorem column_apply (root : R) {length j : ℕ} (short : j < length) (blocks : ℕ) (buffer : ℕ → R)
    (p : ℕ) : column (root ^ j) length j blocks buffer p =
      if p % length = j ∧ p < blocks * (2 * length) then combined root length buffer p
      else buffer p := by
  induction blocks generalizing p with
  | zero =>
    rw [Nat.zero_mul, if_neg (by omega)]
    rfl
  | succ blocks ih =>
    have before : column (root ^ j) length j (blocks + 1) buffer =
        butterfly (root ^ j) (j + blocks * (2 * length)) (j + blocks * (2 * length) + length)
          (column (root ^ j) length j blocks buffer) := by
      rw [column, List.range_succ, List.foldl_append]
      rfl
    have first := ih (j + blocks * (2 * length))
    have second := ih (j + blocks * (2 * length) + length)
    rw [if_neg (by omega)] at first second
    simp only [place_cases short]
    rw [before, butterfly, first, second]
    by_cases here : p = j + blocks * (2 * length)
    · rw [here, Function.update_self, if_pos (Or.inr (Or.inl rfl)), combined_first _ _ _ short]
    · rw [Function.update_of_ne here]
      by_cases there : p = j + blocks * (2 * length) + length
      · rw [there, Function.update_self, if_pos (Or.inr (Or.inr rfl)),
          combined_second _ _ _ short]
      · rw [Function.update_of_ne there, ih]
        by_cases done : p % length = j ∧ p < blocks * (2 * length)
        · rw [if_pos done, if_pos (Or.inl done)]
        · rw [if_neg done, if_neg (by tauto)]

/-- A combined element depends on its own column. -/
theorem combined_congr (root : R) {length : ℕ} {buffer other : ℕ → R} {p : ℕ}
    (same : ∀ q, q % length = p % length → buffer q = other q) :
    combined root length buffer p = combined root length other p := by
  have above : (p + length) % length = p % length := Nat.add_mod_right _ _
  unfold combined
  by_cases low : p % (2 * length) < length
  · rw [if_pos low, if_pos low, same p rfl, same _ above]
  · have enough : length ≤ p := by
      have most := Nat.mod_le p (2 * length)
      omega
    have below : (p - length) % length = p % length := by
      rw [← Nat.mod_eq_sub_mod enough]
    rw [if_neg low, if_neg low, same p rfl, same _ below]

/-- The first columns change their places in the blocks, and nothing else. -/
theorem columns_apply (root : R) {length count : ℕ} (most : count ≤ length) (blocks : ℕ)
    (buffer : ℕ → R) (p : ℕ) : columns root length blocks count buffer p =
      if p % length < count ∧ p < blocks * (2 * length) then combined root length buffer p
      else buffer p := by
  induction count generalizing p with
  | zero =>
    rw [if_neg (by omega)]
    rfl
  | succ count ih =>
    have before : columns root length blocks (count + 1) buffer =
        column (root ^ count) length count blocks (columns root length blocks count buffer) := by
      rw [columns, List.range_succ, List.foldl_append]
      rfl
    rw [before, column_apply root (by omega)]
    by_cases here : p % length = count ∧ p < blocks * (2 * length)
    · rw [if_pos here, if_pos ⟨by omega, here.2⟩]
      apply combined_congr root
      intro q same
      rw [ih (by omega), if_neg (by omega)]
    · rw [if_neg here, ih (by omega)]
      by_cases done : p % length < count ∧ p < blocks * (2 * length)
      · rw [if_pos done, if_pos ⟨by omega, done.2⟩]
      · rw [if_neg done, if_neg (by omega)]

/-! ## Transforms -/

/-- The blocks of a buffer are transforms of the values at reversed places. -/
def HoldsTransforms (x buffer : ℕ → R) (rest length : ℕ) (root : R) : Prop :=
  ∀ block < 2 ^ rest, ∀ k < length,
    buffer (k + block * length) = transform x (reversed rest block) (2 ^ rest) length root k

/-- At first the blocks are single values. -/
theorem holdsTransforms_start {x buffer : ℕ → R} {bits : ℕ}
    (mirrored : ∀ p < 2 ^ bits, buffer p = x (reversed bits p)) (root : R) :
    HoldsTransforms x buffer bits 1 root := by
  intro block inside k one
  have place : k + block * 1 = block := by omega
  rw [place, transform_one, mirrored block inside]

/-- A stage makes one block out of two. -/
theorem HoldsTransforms.stage {x buffer : ℕ → R} {rest length : ℕ} {root : R}
    (holds : HoldsTransforms x buffer (rest + 1) length (root ^ 2)) (half : root ^ length = -1) :
    HoldsTransforms x (columns root length (2 ^ rest) length buffer) rest (2 * length) root := by
  intro block inside k below
  have power : 2 ^ (rest + 1) = 2 * 2 ^ rest := by rw [pow_succ, Nat.mul_comm]
  have place (j : ℕ) : j + 2 * block * length = j + block * (2 * length) := by ring
  have other (j : ℕ) : j + (2 * block + 1) * length = j + block * (2 * length) + length := by ring
  have within : block * (2 * length) + 2 * length ≤ 2 ^ rest * (2 * length) := by
    have next := Nat.mul_le_mul_right (2 * length) (Nat.succ_le_of_lt inside)
    rw [Nat.succ_mul] at next
    exact next
  have column : (k + block * (2 * length)) % length < length := Nat.mod_lt _ (by omega)
  rw [columns_apply root (le_refl _), if_pos ⟨column, by omega⟩]
  have blocks (j : ℕ) (short : j < length) :
      buffer (j + block * (2 * length)) =
          transform x (reversed rest block) (2 * 2 ^ rest) length (root ^ 2) j ∧
        buffer (j + block * (2 * length) + length) =
          transform x (reversed rest block + 2 ^ rest) (2 * 2 ^ rest) length (root ^ 2) j := by
    have first := holds (2 * block) (by omega) j short
    have second := holds (2 * block + 1) (by omega) j short
    rw [place, reversed_even, power] at first
    rw [other, reversed_odd, power, Nat.add_comm (2 ^ rest)] at second
    exact ⟨first, second⟩
  by_cases low : k < length
  · have parts := blocks k low
    rw [combined_first _ _ _ low, parts.1, parts.2, transform_double]
  · obtain ⟨j, rfl⟩ : ∃ j, k = j + length := ⟨k - length, by omega⟩
    have parts := blocks j (by omega)
    have order : j + length + block * (2 * length) = j + block * (2 * length) + length := by ring
    rw [order, combined_second _ _ _ (by omega), parts.1, parts.2, transform_double_add _ _ _ half]

end FcTpms.Fourier
