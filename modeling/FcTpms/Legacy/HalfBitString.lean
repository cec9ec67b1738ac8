import FcTpms.Decoder.Arithmetic
import FcTpms.LineCode.DifferentialManchester
import Mathlib.Data.List.Basic

/-!
# The half-bit string of the older decoders

`analyze_tpms.c` and `liquid_analysis.c` collect the half-bits of a packet in `basebit_vals`, a
string in a buffer of 140 bytes, and decode it to symbols when it has 138. Both write the code
for this out; it is the same.
-/

namespace FcTpms.Legacy

open Decoder

/-- The size of `basebit_vals`: `SYMBOLS_PER_MSG * 2 + 2`. -/
def basebitSize : ℕ := symbolsPerMsg * 2 + 2

/-- `SAVE_BIT_ONLY` on the string: one more half-bit and the terminating NUL, if they fit. -/
def saveBit (basebitVals : List Bool) (bit : Bool) : Option (List Bool) :=
  if basebitVals.length + 2 ≤ basebitSize then .some (basebitVals ++ [bit]) else .none

/-- The symbols decoded from the half-bits. The first and the last one are not decoded. -/
def decodedSymbols (basebitVals : List Bool) : List Char :=
  '1' :: (List.range (symbolsPerMsg - 2)).map (fun index =>
    if basebitVals[2 * (index + 1)]? = basebitVals[2 * (index + 1) - 1]? then '1' else '0') ++ ['1']

/-- `symbols` after `reset_vars`. -/
def noSymbols : List Char := List.replicate symbolsPerMsg '\x00'

/-- `b != basebit_vals[bit_in_process - 1] - '0'`. -/
def differsFromLast (basebitVals : List Bool) (bitInProcess : ℕ) (bit : Bool) : Bool :=
  decide (basebitVals[bitInProcess - 1]? ≠ .some bit)

/-- The two half-bits of every complete symbol but the last one differ. -/
def Paired (basebitVals : List Bool) : Prop :=
  ∀ index, index < symbolsPerMsg - 1 → 2 * index + 1 < basebitVals.length →
    basebitVals[2 * index]? ≠ basebitVals[2 * index + 1]?

/-- A first half-bit may be anything. -/
theorem Paired.first {basebitVals : List Bool} (paired : Paired basebitVals)
    (even : basebitVals.length % 2 = 0) (bit : Bool) : Paired (basebitVals ++ [bit]) := by
  intro index symbol inside
  rw [List.length_append, List.length_singleton] at inside
  rw [List.getElem?_append_left (by omega), List.getElem?_append_left (by omega)]
  exact paired index symbol (by omega)

/-- A second half-bit differs from the first one, unless the symbol is the last one. -/
theorem Paired.second {basebitVals : List Bool} (paired : Paired basebitVals) (bit : Bool)
    (checked : basebitVals.length > 136 ∨
      differsFromLast basebitVals basebitVals.length bit = true) :
    Paired (basebitVals ++ [bit]) := by
  intro index symbol inside
  rw [List.length_append, List.length_singleton] at inside
  unfold symbolsPerMsg at symbol
  by_cases last : 2 * index + 1 < basebitVals.length
  · rw [List.getElem?_append_left (by omega), List.getElem?_append_left (by omega)]
    exact paired index symbol last
  · have place : 2 * index + 1 = basebitVals.length := by omega
    have before : 2 * index = basebitVals.length - 1 := by omega
    rcases checked with beyond | differs
    · omega
    · rw [place, before, List.getElem?_append_left (by omega), List.getElem?_concat_length]
      exact of_decide_eq_true differs

/-- The string of a saved half-bit. -/
theorem saveBit_eq_some {basebitVals later : List Bool} {bit : Bool} :
    saveBit basebitVals bit = .some later ↔
      basebitVals.length + 2 ≤ basebitSize ∧ later = basebitVals ++ [bit] := by
  unfold saveBit
  split
  · rename_i fits
    rw [Option.some.injEq, eq_comm]
    exact ⟨fun same => ⟨fits, same⟩, And.right⟩
  · rename_i full
    constructor
    · intro impossible
      cases impossible
    · exact fun both => absurd both.1 full

/-- As long as a half-bit is missing there is room for it. -/
theorem saveBit_of_short {basebitVals : List Bool} (short : basebitVals.length < 2 * symbolsPerMsg)
    (bit : Bool) : saveBit basebitVals bit = .some (basebitVals ++ [bit]) := by
  refine if_pos ?_
  unfold basebitSize symbolsPerMsg at *
  omega

/-- What a published packet looks like. -/
structure Published (basebitVals : List Bool) (symbols : List Char) : Prop where
  /-- All half-bits are there. -/
  complete : basebitVals.length = 2 * symbolsPerMsg
  /-- The half-bits of all symbols but the last one differ. -/
  paired : ∀ index, index < symbolsPerMsg - 1 →
    basebitVals[2 * index]? ≠ basebitVals[2 * index + 1]?
  /-- There are 69 symbols. -/
  length : symbols.length = symbolsPerMsg
  /-- The first symbol is `1`. -/
  first : symbols[0]? = .some '1'
  /-- The symbols between are decoded. -/
  decoded : ∀ index, 1 ≤ index → index < symbolsPerMsg - 1 →
    symbols[index]? = .some
      (if basebitVals[2 * index - 1]? = basebitVals[2 * index]? then '1' else '0')
  /-- The last symbol is `1`, whatever its half-bits are. -/
  last : symbols[symbolsPerMsg - 1]? = .some '1'

/-- There are 69 symbols. -/
theorem decodedSymbols_length (basebitVals : List Bool) :
    (decodedSymbols basebitVals).length = symbolsPerMsg := by
  unfold decodedSymbols symbolsPerMsg
  rw [List.length_append, List.length_cons, List.length_map, List.length_range,
    List.length_singleton]

/-- The decoded symbols of a complete string. -/
theorem Paired.published {basebitVals : List Bool} (paired : Paired basebitVals)
    (complete : basebitVals.length = 2 * symbolsPerMsg) :
    Published basebitVals (decodedSymbols basebitVals) where
  complete := complete
  paired index symbol := paired index symbol (by unfold symbolsPerMsg at *; omega)
  length := decodedSymbols_length basebitVals
  first := rfl
  decoded := by
    intro index positive symbol
    obtain ⟨index, rfl⟩ : ∃ before, index = before + 1 := ⟨index - 1, by omega⟩
    unfold decodedSymbols
    have inside : index < symbolsPerMsg - 2 := by omega
    rw [List.cons_append, List.getElem?_cons_succ, List.getElem?_append_left (by
        rw [List.length_map, List.length_range]; exact inside),
      List.getElem?_map, List.getElem?_range inside, Option.map_some]
    exact congrArg _ (if_congr eq_comm rfl rfl)
  last := by
    unfold decodedSymbols
    rw [List.cons_append, show symbolsPerMsg - 1 = symbolsPerMsg - 2 + 1 from rfl,
      List.getElem?_cons_succ, List.getElem?_append_right (by
        simp only [List.length_map, List.length_range, Nat.le_refl]),
      List.length_map, List.length_range, Nat.sub_self]
    rfl

end FcTpms.Legacy
