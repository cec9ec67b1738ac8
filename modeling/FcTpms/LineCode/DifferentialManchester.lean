import Mathlib.Data.List.Basic

/-!
# Differential Manchester code

A symbol is sent as two unequal half-bits. The first one repeats the half-bit before it when the
symbol is `1` and differs from it when the symbol is `0`; the code therefore has a transition in
the middle of every symbol, and one at its start exactly when the symbol is `0`.
-/

namespace FcTpms.LineCode

/-- The first half-bit of a symbol after the half-bit `preceding`. -/
def firstHalf (preceding symbol : Bool) : Bool := symbol == preceding

/-- The half-bits of a list of symbols after the half-bit `preceding`. -/
def halfBits : Bool → List Bool → List Bool
  | _, [] => []
  | preceding, symbol :: rest =>
    firstHalf preceding symbol :: (!firstHalf preceding symbol) ::
      halfBits (!firstHalf preceding symbol) rest

/-- The last half-bit of a list of symbols after the half-bit `preceding`. -/
def lastHalf : Bool → List Bool → Bool
  | preceding, [] => preceding
  | preceding, symbol :: rest => lastHalf (!firstHalf preceding symbol) rest

/-- The first half-bit of a symbol repeats the one before it exactly when the symbol is `1`. -/
theorem firstHalf_eq_preceding (preceding symbol : Bool) :
    firstHalf preceding symbol = preceding ↔ symbol = true := by
  cases preceding <;> cases symbol <;> decide

/-- A first half-bit determines its symbol. -/
theorem beq_firstHalf (preceding symbol : Bool) :
    (preceding == firstHalf preceding symbol) = symbol := by
  cases preceding <;> cases symbol <;> rfl

/-- Any half-bit is the first one of some symbol. -/
theorem firstHalf_beq (preceding first : Bool) :
    firstHalf preceding (preceding == first) = first := by
  cases preceding <;> cases first <;> rfl

@[simp] theorem halfBits_length (preceding : Bool) (symbols : List Bool) :
    (halfBits preceding symbols).length = 2 * symbols.length := by
  induction symbols generalizing preceding with
  | nil => rfl
  | cons symbol rest ih =>
    simp only [halfBits, List.length_cons, ih]
    omega

/-- Half-bits of consecutive symbols follow each other. -/
theorem halfBits_append (preceding : Bool) (symbols more : List Bool) :
    halfBits preceding (symbols ++ more) =
      halfBits preceding symbols ++ halfBits (lastHalf preceding symbols) more := by
  induction symbols generalizing preceding with
  | nil => rfl
  | cons symbol rest ih => simp only [List.cons_append, halfBits, lastHalf, ih]

/-- The last half-bit of consecutive symbols. -/
theorem lastHalf_append (preceding : Bool) (symbols more : List Bool) :
    lastHalf preceding (symbols ++ more) = lastHalf (lastHalf preceding symbols) more := by
  induction symbols generalizing preceding with
  | nil => rfl
  | cons symbol rest ih => simp only [List.cons_append, lastHalf, ih]

/-- The two half-bits of one symbol, read off the code of the whole list. -/
theorem halfBits_at (preceding : Bool) (symbols : List Bool) (index : ℕ)
    (inside : index < symbols.length) :
    (halfBits preceding symbols)[2 * index]? =
        some (firstHalf (lastHalf preceding (symbols.take index)) symbols[index]) ∧
      (halfBits preceding symbols)[2 * index + 1]? =
        some (!firstHalf (lastHalf preceding (symbols.take index)) symbols[index]) := by
  induction symbols generalizing preceding index with
  | nil => exact absurd inside (Nat.not_lt_zero index)
  | cons symbol rest ih =>
    cases index with
    | zero => exact ⟨rfl, rfl⟩
    | succ index =>
      have later := ih (!firstHalf preceding symbol) index (Nat.lt_of_succ_lt_succ inside)
      have even : 2 * (index + 1) = 2 * index + 2 := by omega
      rw [even]
      simpa only [halfBits, List.getElem?_cons_succ, List.take_succ_cons, lastHalf,
        List.getElem_cons_succ] using later

/-- The two half-bits of a symbol differ. -/
theorem halfBits_differ (preceding : Bool) (symbols : List Bool) (index : ℕ)
    (inside : index < symbols.length) :
    (halfBits preceding symbols)[2 * index]? ≠ (halfBits preceding symbols)[2 * index + 1]? := by
  have here := halfBits_at preceding symbols index inside
  rw [here.1, here.2]
  cases firstHalf (lastHalf preceding (symbols.take index)) symbols[index] <;> decide

/-- The half-bit before a symbol is the last one of the symbols before it. -/
theorem halfBits_before (preceding : Bool) (symbols : List Bool) (index : ℕ)
    (inside : index < symbols.length) :
    (halfBits preceding symbols)[2 * index + 1]? =
      some (lastHalf preceding (symbols.take (index + 1))) := by
  have here := (halfBits_at preceding symbols index inside).2
  rw [here, List.take_succ_eq_append_getElem inside, lastHalf_append]
  rfl

/-- A symbol after the first is `1` exactly when its first half-bit repeats the one before. -/
theorem symbol_iff_repeats (preceding : Bool) (symbols : List Bool) (index : ℕ)
    (inside : index + 1 < symbols.length) :
    symbols[index + 1] = true ↔
      (halfBits preceding symbols)[2 * index + 1]? =
        (halfBits preceding symbols)[2 * index + 2]? := by
  have before := halfBits_before preceding symbols index (by omega)
  have here := (halfBits_at preceding symbols (index + 1) inside).1
  have even : 2 * (index + 1) = 2 * index + 2 := by omega
  rw [even] at here
  rw [before, here, Option.some.injEq, eq_comm (a := lastHalf _ _)]
  exact (firstHalf_eq_preceding _ _).symm

/-- Half-bits in pairs that differ are the code of some symbols. -/
theorem exists_halfBits (preceding : Bool) {count : ℕ} {bits : List Bool}
    (length : bits.length = 2 * count)
    (differ : ∀ index < count, bits[2 * index]? ≠ bits[2 * index + 1]?) :
    ∃ symbols, symbols.length = count ∧ bits = halfBits preceding symbols := by
  induction count generalizing preceding bits with
  | zero => exact ⟨[], rfl, List.length_eq_zero_iff.mp length⟩
  | succ count ih =>
    match bits, length, differ with
    | first :: second :: rest, length, differ =>
      have other : second = !first := by
        have here := differ 0 (Nat.succ_pos count)
        exact Bool.eq_not.mpr fun same => here (congrArg some same.symm)
      have shorter : rest.length = 2 * count := by
        simp only [List.length_cons] at length
        omega
      have later : ∀ index < count, rest[2 * index]? ≠ rest[2 * index + 1]? := by
        intro index inside
        have here := differ (index + 1) (Nat.succ_lt_succ inside)
        have even : 2 * (index + 1) = 2 * index + 2 := by omega
        rw [even] at here
        simpa only [List.getElem?_cons_succ] using here
      rcases ih (!first) shorter later with ⟨symbols, many, code⟩
      apply Exists.intro ((preceding == first) :: symbols)
      constructor
      · rw [List.length_cons, many]
      · rw [halfBits, firstHalf_beq, other, code]

end FcTpms.LineCode
