import Mathlib.Algebra.Order.Ring.Rat
import Mathlib.Tactic.Linarith
import Mathlib.Tactic.NormNum
import FcTpms.Decoder.Analysis
import FcTpms.LineCode.DifferentialManchester

/-!
# What a collected packet looks like

`Collected` relates the character arrays and `preceding_bit` to the symbols collected so far:
the arrays hold their differential Manchester code and the symbols themselves. `WellFormed` is
what a receiver of an accepted packet may rely on, in terms of characters and values only.
-/

namespace FcTpms.Decoder

open Text LineCode

variable {F : Type}

/-- A bit as an `int`. -/
def bitOf (bit : Bool) : ℤ := if bit then 1 else 0

/-- A bit as a character. -/
def digit (bit : Bool) : Char := if bit then '1' else '0'

@[simp] theorem bitChar_bitOf (bit : Bool) : bitChar (bitOf bit) = digit bit := by
  cases bit <;> rfl

theorem digit_injective : Function.Injective digit := by
  intro bit other same
  cases bit <;> cases other <;> first | rfl | exact absurd same (by decide)

theorem bitOf_injective : Function.Injective bitOf := by
  intro bit other same
  cases bit <;> cases other <;> first | rfl | exact absurd same (by decide)

theorem digit_ne_nul (bit : Bool) : digit bit ≠ '\x00' := by
  cases bit <;> decide

/-- No text of digits contains a NUL. -/
theorem nul_notMem_digits (bits : List Bool) : '\x00' ∉ bits.map digit := by
  rw [List.mem_map]
  rintro ⟨bit, _, same⟩
  exact digit_ne_nul bit same

/-- A value that is `0` or `1` is a bit. -/
theorem exists_bitOf {value : ℤ} (bit : value = 0 ∨ value = 1) : ∃ b, value = bitOf b := by
  rcases bit with zero | one
  · exact ⟨false, zero⟩
  · exact ⟨true, one⟩

@[simp] theorem one_sub_bitOf (bit : Bool) : 1 - bitOf bit = bitOf !bit := by
  cases bit <;> rfl

@[simp] theorem symbolOf_bitOf (preceding first : Bool) :
    symbolOf (bitOf preceding) (bitOf first) = bitOf (preceding == first) := by
  cases preceding <;> cases first <;> rfl

/-- Whatever the confidences are, `get_symbol` goes on with two unequal half-bits or none. -/
theorem settleHalfBits_differ [Arithmetic F] (first second : Bool) (firstConf secondConf : F)
    {firstBit secondBit : ℤ} (settled : settleHalfBits (bitOf first) (bitOf second) firstConf
      secondConf = some (firstBit, secondBit)) :
    ∃ kept, firstBit = bitOf kept ∧ secondBit = bitOf !kept := by
  unfold settleHalfBits at settled
  dsimp only at settled
  split at settled
  · rename_i same
    obtain rfl := bitOf_injective same
    generalize (if Arithmetic.lt firstConf secondConf then firstConf else secondConf) = minConf
      at settled
    split at settled
    · split at settled
      · simp only [one_sub_bitOf, Option.some.injEq, Prod.mk.injEq] at settled
        exact ⟨!first, settled.1.symm, by rw [← settled.2, Bool.not_not]⟩
      · simp only [one_sub_bitOf, Option.some.injEq, Prod.mk.injEq] at settled
        exact ⟨first, settled.1.symm, settled.2.symm⟩
    · cases settled
  · rename_i differ
    simp only [Option.some.injEq, Prod.mk.injEq] at settled
    have other : second = !first := by
      cases first <;> cases second <;> first | rfl | exact absurd rfl differ
    exact ⟨first, settled.1.symm, by rw [← settled.2, other]⟩

/-! ## Writing the arrays -/

/-- Characters written to one array, one after the other from an index on. -/
def Packet.writeAll (packet : Packet F) (array : CharArray) : ℕ → List Char → Packet F
  | _, [] => packet
  | index, char :: rest => (packet.write array index char).writeAll array (index + 1) rest

@[simp] theorem Packet.array_length (packet : Packet F) (array : CharArray) :
    (packet.array array).length = array.size := by
  cases array <;> exact Vector.length_toList

@[simp] theorem Packet.array_write (packet : Packet F) (array other : CharArray) (index : ℕ)
    (char : Char) : (packet.write array index char).array other =
      if other = array then (packet.array array).set index char else packet.array other := by
  cases array <;> cases other <;> simp [Packet.write, Packet.array]

@[simp] theorem Packet.precedingBit_write (packet : Packet F) (array : CharArray) (index : ℕ)
    (char : Char) : (packet.write array index char).precedingBit = packet.precedingBit := by
  cases array <;> rfl

@[simp] theorem Packet.precedingBit_writeAll (packet : Packet F) (array : CharArray) (index : ℕ)
    (text : List Char) : (packet.writeAll array index text).precedingBit = packet.precedingBit := by
  induction text generalizing packet index with
  | nil => rfl
  | cons char rest ih => rw [Packet.writeAll, ih, Packet.precedingBit_write]

@[simp] theorem Packet.actualBitEnd_writeAll (packet : Packet F) (array : CharArray) (index : ℕ)
    (text : List Char) : (packet.writeAll array index text).actualBitEnd = packet.actualBitEnd := by
  induction text generalizing packet index with
  | nil => rfl
  | cons char rest ih =>
    rw [Packet.writeAll, ih]
    cases array <;> rfl

/-- Writing characters overwrites the array written to. -/
@[simp] theorem Packet.array_writeAll (packet : Packet F) (array : CharArray) (index : ℕ)
    (text : List Char) :
    (packet.writeAll array index text).array array =
      overwrite (packet.array array) index text := by
  induction text generalizing packet index with
  | nil => rfl
  | cons char rest ih => rw [Packet.writeAll, ih, Packet.array_write, if_pos rfl, overwrite]

/-- Writing one array leaves the other alone. -/
theorem Packet.array_writeAll_of_ne (packet : Packet F) {array other : CharArray}
    (differ : other ≠ array) (index : ℕ) (text : List Char) :
    (packet.writeAll array index text).array other = packet.array other := by
  induction text generalizing packet index with
  | nil => rfl
  | cons char rest ih => rw [Packet.writeAll, ih, Packet.array_write, if_neg differ]

/-! ## Symbols collected so far -/

/-- The packet holds these symbols and their half-bits, and `preceding_bit` is the last one. -/
structure Collected (decoded : List Bool) (packet : Packet F) : Prop where
  /-- `bits` holds the half-bits. -/
  bits : stringOf (packet.array .bits) = (halfBits false decoded).map digit
  /-- `symbols` holds the symbols. -/
  symbols : stringOf (packet.array .symbols) = decoded.map digit
  /-- `preceding_bit` is the last half-bit. -/
  preceding : packet.precedingBit = bitOf (lastHalf false decoded)

/-- The packet after `get_symbol` recorded two half-bits and a symbol. -/
def Packet.record (packet : Packet F) (firstBit secondBit symbol : ℤ) : Packet F :=
  { (packet.writeAll .bits (strlen (packet.array .bits))
        [bitChar firstBit, bitChar secondBit, '\x00']).writeAll .symbols
      (strlen (packet.array .symbols)) [bitChar symbol, '\x00'] with
    precedingBit := secondBit }

@[simp] theorem Packet.actualBitEnd_record (packet : Packet F) (firstBit secondBit symbol : ℤ) :
    (packet.record firstBit secondBit symbol).actualBitEnd = packet.actualBitEnd := by
  unfold Packet.record
  rw [Packet.actualBitEnd_writeAll, Packet.actualBitEnd_writeAll]

/-- Recording two unequal half-bits adds the symbol that they encode. -/
theorem Collected.record {decoded : List Bool} {packet : Packet F}
    (collected : Collected decoded packet) (room : decoded.length < symbolsPerMsg) (first : Bool) :
    Collected (decoded ++ [lastHalf false decoded == first])
      (packet.record (bitOf first) (bitOf !first)
        (bitOf (lastHalf false decoded == first))) := by
  have bitsLength : strlen (packet.array .bits) = 2 * decoded.length := by
    rw [strlen, collected.bits, List.length_map, halfBits_length]
  have symbolsLength : strlen (packet.array .symbols) = decoded.length := by
    rw [strlen, collected.symbols, List.length_map]
  have sizes : CharArray.bits.size = 141 ∧ CharArray.symbols.size = 70 := by decide
  have message : symbolsPerMsg = 69 := rfl
  have digits : ∀ bits : List Bool, '\x00' ∉ bits.map digit := nul_notMem_digits
  refine ⟨?_, ?_, ?_⟩
  · have written := stringOf_append (packet.array .bits) _ (digits [first, !first]) (by
      rw [bitsLength, Packet.array_length, sizes.1, List.length_map]
      simp only [List.length_cons, List.length_nil]
      omega)
    change stringOf ((Packet.writeAll _ _ _ _).array .bits) = _
    rw [Packet.array_writeAll_of_ne _ (by decide), Packet.array_writeAll, bitChar_bitOf,
      bitChar_bitOf]
    rw [collected.bits] at written
    rw [halfBits_append, List.map_append]
    simpa only [halfBits, firstHalf_beq, List.map_cons, List.map_nil, List.cons_append,
      List.nil_append] using written
  · have written := stringOf_append (packet.array .symbols) _
      (digits [lastHalf false decoded == first]) (by
      rw [symbolsLength, Packet.array_length, sizes.2, List.length_map, List.length_singleton]
      omega)
    change stringOf ((Packet.writeAll _ _ _ _).array .symbols) = _
    rw [Packet.array_writeAll, Packet.array_writeAll_of_ne _ (by decide), bitChar_bitOf]
    rw [collected.symbols] at written
    rw [List.map_append]
    simpa only [List.map_cons, List.map_nil, List.cons_append, List.nil_append] using written
  · change bitOf (!first) = _
    rw [lastHalf_append, lastHalf, lastHalf, firstHalf_beq]

/-! ## Values of a packet -/

/-- A number read bit by bit. -/
theorem foldl_bits_lt (bit : ℕ → Bool) (positions : List ℕ) (value : ℕ) (width : ℕ)
    (small : value < 2 ^ width) :
    positions.foldl (fun value j => value * 2 + if bit j then 1 else 0) value <
      2 ^ (width + positions.length) := by
  induction positions generalizing value width with
  | nil => exact small
  | cons j rest ih =>
    have next : value * 2 + (if bit j then 1 else 0) < 2 ^ (width + 1) := by
      have digitBound : (if bit j then 1 else 0) ≤ 1 := by split <;> decide
      rw [pow_succ]
      omega
    have whole := ih _ _ next
    rw [List.foldl_cons, List.length_cons]
    rwa [Nat.add_assoc, Nat.add_comm 1] at whole

/-- A value of so many symbols is that many bits wide. -/
theorem symbolsValue_lt (symbols : List Char) (first last : ℕ) :
    symbolsValue symbols first last < 2 ^ (last + 1 - first) := by
  have bound := foldl_bits_lt (fun j => decide (symbols[j]? = some '1'))
    (List.range' first (last + 1 - first)) 0 0 (by decide)
  simp only [decide_eq_true_eq, List.length_range', Nat.zero_add] at bound
  exact bound

/-- A symbol that the decoder returns, as a bit. -/
theorem symbolAt_bits (decoded : List Bool) (index : ℕ) :
    symbolAt (decoded.map bitOf) index = if decoded[index]? = some true then 1 else 0 := by
  rw [symbolAt, List.getD_eq_getElem?_getD, List.getElem?_map]
  rcases decoded[index]? with _ | bit
  · rfl
  · cases bit <;> rfl

/-- A symbol that the decoder stores, as a bit. -/
theorem getElem?_digits (decoded : List Bool) (index : ℕ) :
    (decoded.map digit)[index]? = some '1' ↔ decoded[index]? = some true := by
  rw [List.getElem?_map]
  rcases decoded[index]? with _ | bit
  · simp
  · cases bit <;> decide

/-- The value of stored symbols, as bits. -/
theorem symbolsValue_digits (decoded : List Bool) (first last : ℕ) :
    symbolsValue (decoded.map digit) first last =
      (List.range' first (last + 1 - first)).foldl
        (fun value j => value * 2 + if decoded[j]? = some true then 1 else 0) 0 := by
  simp only [symbolsValue, getElem?_digits]

/-- What the loop of `validate_packet` checked and computed when it ends. -/
theorem pressureFrom_eq_some {decoded : List Bool} {value : ℕ} {press : ℚ} {count : ℕ}
    (within : count ≤ 8) (ended : pressureFrom (decoded.map bitOf) value count = some press) :
    (∀ i, 8 - count ≤ i → i < 8 →
        (decoded[36 + i]? = some true ↔ ¬ decoded[44 + i]? = some true)) ∧
      press = ((List.range' (44 - count) count).foldl
        (fun value j => value * 2 + if decoded[j]? = some true then 1 else 0) value : ℕ) := by
  induction count generalizing value with
  | zero =>
    refine ⟨fun i least most => absurd most (by omega), ?_⟩
    exact (Option.some.inj ended).symm
  | succ count ih =>
    rw [pressureFrom] at ended
    split at ended
    · cases ended
    · rename_i differ
      have here : 7 - count + 36 = 44 - (count + 1) := by omega
      have following : 44 - (count + 1) + 1 = 44 - count := by omega
      have carried : (value : ℚ) * 2 + (symbolAt (decoded.map bitOf) (7 - count + 36) : ℤ) =
          (value * 2 + if decoded[44 - (count + 1)]? = some true then 1 else 0 : ℕ) := by
        rw [symbolAt_bits, here]
        push_cast
        rfl
      rw [carried] at ended
      have rest := ih (by omega) ended
      constructor
      · intro i least most
        by_cases first : i = 7 - count
        · rw [symbolAt_bits, symbolAt_bits] at differ
          rw [first]
          by_cases one : decoded[36 + (7 - count)]? = some true
          · by_cases other : decoded[44 + (7 - count)]? = some true
            · exact absurd rfl (by rwa [if_pos one, if_pos other] at differ)
            · exact iff_of_true one other
          · by_cases other : decoded[44 + (7 - count)]? = some true
            · exact iff_of_false one (not_not_intro other)
            · exact absurd rfl (by rwa [if_neg one, if_neg other] at differ)
        · exact rest.1 i (by omega) most
      · rw [rest.2, List.range'_succ, List.foldl_cons, following]

/-- What `validate_packet` accepts: the last symbol is `1`, the pressure symbols are the
complement of the eight after them, and the pressure is at least 0 kPa. -/
theorem validatePacket_accepts {decoded : List Bool}
    (accepted : validatePacket (decoded.map bitOf) = true) :
    decoded[68]? = some true ∧
      (∀ i < 8, decoded[36 + i]? = some true ↔ ¬ decoded[44 + i]? = some true) ∧
      40 ≤ symbolsValue (decoded.map digit) 36 43 := by
  unfold validatePacket at accepted
  split at accepted
  · cases accepted
  · rename_i last
    have lastSymbol : decoded[68]? = some true := by
      rw [symbolAt_bits] at last
      by_contra missing
      exact last (by rw [if_neg missing]; decide)
    split at accepted
    · cases accepted
    · rename_i press read
      have loop := pressureFrom_eq_some (le_refl 8) (Nat.cast_zero (R := ℚ) ▸ read)
      refine ⟨lastSymbol, fun i most => loop.1 i (by omega) most, ?_⟩
      have value : press = (symbolsValue (decoded.map digit) 36 43 : ℚ) := by
        rw [loop.2, symbolsValue_digits]
      rw [value, Bool.not_eq_true', decide_eq_false_iff_not, not_lt] at accepted
      have enough : (40 : ℚ) ≤ symbolsValue (decoded.map digit) 36 43 := by linarith
      exact_mod_cast enough

/-! ## Accepted packets -/

/-- An accepted packet, as its receiver sees it: the strings `bits` and `symbols`, the returned
array, and the values that the getters read. -/
structure WellFormed (packet : Packet F) (packetSyms : List ℤ) : Prop where
  /-- `bits` has 138 characters. -/
  bitsLength : (stringOf (packet.array .bits)).length = 138
  /-- They are digits. -/
  bitsDigits : ∀ char ∈ stringOf (packet.array .bits), char = '0' ∨ char = '1'
  /-- They begin with the sync bits. -/
  bitsSync : (stringOf (packet.array .bits)).take 3 = ['0', '1', '1']
  /-- The two half-bits of a symbol differ. -/
  halvesDiffer : ∀ k ≤ 68, (stringOf (packet.array .bits))[2 * k]? ≠
    (stringOf (packet.array .bits))[2 * k + 1]?
  /-- `symbols` has 69 characters. -/
  symbolsLength : (stringOf (packet.array .symbols)).length = 69
  /-- The returned array holds bits. -/
  returnedBits : ∀ symbol ∈ packetSyms, symbol = 0 ∨ symbol = 1
  /-- `symbols` and the returned array agree. -/
  symbolsReturned : stringOf (packet.array .symbols) = packetSyms.map bitChar
  /-- The first two symbols and the last one are `1`. -/
  symbolsFixed : ∀ k, k = 0 ∨ k = 1 ∨ k = 68 → (stringOf (packet.array .symbols))[k]? = some '1'
  /-- A later symbol is `1` exactly when its first half-bit repeats the one before it. -/
  symbolsRepeat : ∀ k, 1 ≤ k → k ≤ 68 →
    ((stringOf (packet.array .symbols))[k]? = some '1' ↔
      (stringOf (packet.array .bits))[2 * k - 1]? = (stringOf (packet.array .bits))[2 * k]?)
  /-- The pressure is followed by its complement. -/
  complement : ∀ k, 36 ≤ k → k ≤ 43 → (stringOf (packet.array .symbols))[k]? ≠
    (stringOf (packet.array .symbols))[k + 8]?
  /-- The address has 28 bits. -/
  address : getDecAddressVal (packet.array .symbols) < 2 ^ 28
  /-- The temperature is in range. -/
  temperature : -40 ≤ getTempC (packet.array .symbols) ∧ getTempC (packet.array .symbols) ≤ 215
  /-- The pressure is in range. -/
  pressure : 0 ≤ getPressureKpa (packet.array .symbols) ∧
    getPressureKpa (packet.array .symbols) ≤ 5375 / 10

/-- The getters read the string that `symbols` holds. -/
theorem symbolsValue_stringOf (array : List Char) (first last : ℕ)
    (inside : last < (stringOf array).length) :
    symbolsValue array first last = symbolsValue (stringOf array) first last := by
  unfold symbolsValue
  apply List.foldl_ext
  intro value j member
  rw [List.mem_range'_1] at member
  have begins : (stringOf array)[j]? = array[j]? := by
    rw [← take_strlen]
    exact List.getElem?_take_of_lt (by rw [strlen]; omega)
  rw [begins]

/-- A collected message that `validate_packet` accepts is well formed. -/
theorem Collected.wellFormed {decoded : List Bool} {packet : Packet F}
    (collected : Collected decoded packet) (complete : decoded.length = symbolsPerMsg)
    (start : decoded.take 2 = [true, true])
    (accepted : validatePacket (decoded.map bitOf) = true) :
    WellFormed packet (decoded.map bitOf) := by
  have length : decoded.length = 69 := complete
  have checked := validatePacket_accepts accepted
  have symbolsLength : (stringOf (packet.array .symbols)).length = 69 := by
    rw [collected.symbols, List.length_map, length]
  have fixed : decoded[0]? = some true ∧ decoded[1]? = some true := by
    have first := List.getElem?_take_of_lt (l := decoded) (show 0 < 2 by decide)
    have second := List.getElem?_take_of_lt (l := decoded) (show 1 < 2 by decide)
    rw [start] at first second
    exact ⟨first.symm, second.symm⟩
  have pressure := symbolsValue_lt (packet.array .symbols) 36 43
  have least : 40 ≤ symbolsValue (packet.array .symbols) 36 43 := by
    rw [symbolsValue_stringOf _ _ _ (by rw [symbolsLength]; decide), collected.symbols]
    exact checked.2.2
  constructor
  case bitsLength => rw [collected.bits, List.length_map, halfBits_length, length]
  case bitsDigits =>
    intro char member
    rw [collected.bits, List.mem_map] at member
    rcases member with ⟨bit, _, rfl⟩
    cases bit
    · exact Or.inl rfl
    · exact Or.inr rfl
  case bitsSync =>
    have two : decoded = [true, true] ++ decoded.drop 2 := by
      rw [← start, List.take_append_drop]
    rw [collected.bits, two, halfBits_append, List.map_append]
    rfl
  case halvesDiffer =>
    intro k inside
    rw [collected.bits, List.getElem?_map, List.getElem?_map]
    exact fun same => halfBits_differ false decoded k (by omega)
      (Option.map_injective digit_injective same)
  case symbolsLength => exact symbolsLength
  case returnedBits =>
    intro symbol member
    rw [List.mem_map] at member
    rcases member with ⟨bit, _, rfl⟩
    cases bit
    · exact Or.inl rfl
    · exact Or.inr rfl
  case symbolsReturned =>
    rw [collected.symbols, List.map_map]
    exact List.map_congr_left fun bit _ => (bitChar_bitOf bit).symm
  case symbolsFixed =>
    intro k which
    rw [collected.symbols, getElem?_digits]
    rcases which with rfl | rfl | rfl
    · exact fixed.1
    · exact fixed.2
    · exact checked.1
  case symbolsRepeat =>
    intro k least most
    have inside : k - 1 + 1 < decoded.length := by omega
    have repeats := symbol_iff_repeats false decoded (k - 1) inside
    have same : k - 1 + 1 = k := by omega
    have odd : 2 * (k - 1) + 1 = 2 * k - 1 := by omega
    have even : 2 * (k - 1) + 2 = 2 * k := by omega
    rw [odd, even] at repeats
    rw [collected.symbols, getElem?_digits, collected.bits, List.getElem?_map, List.getElem?_map,
      (Option.map_injective digit_injective).eq_iff, ← repeats]
    rw [List.getElem?_eq_getElem (by omega), Option.some.injEq]
    simp only [same]
  case complement =>
    intro k least most
    have differ := checked.2.1 (k - 36) (by omega)
    have first : 36 + (k - 36) = k := by omega
    have second : 44 + (k - 36) = k + 8 := by omega
    rw [first, second] at differ
    rw [collected.symbols, List.getElem?_map, List.getElem?_map]
    intro same
    rw [Option.map_injective digit_injective same] at differ
    exact (iff_not_self differ).elim
  case address => exact symbolsValue_lt _ 2 29
  case temperature =>
    have bound := symbolsValue_lt (packet.array .symbols) 52 59
    unfold getTempC
    omega
  case pressure =>
    have atLeast : (40 : ℚ) ≤ symbolsValue (packet.array .symbols) 36 43 := by exact_mod_cast least
    have atMost : (symbolsValue (packet.array .symbols) 36 43 : ℚ) ≤ 255 := by
      exact_mod_cast Nat.le_of_lt_succ pressure
    unfold getPressureKpa
    constructor
    · linarith
    · linarith

end FcTpms.Decoder
