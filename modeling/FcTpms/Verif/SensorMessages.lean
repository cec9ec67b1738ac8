import FcTpms.Decoder.SensorMessage
import FcTpms.Verif.RoundTrip
import FcTpms.Verif.Success

/-!
# Packets are sensor messages

Every message can be sent as a payload, and every payload is that of exactly one message. So what
`get_packet` returns is the payload of exactly one message, and the getters read that message.
-/

namespace FcTpms.Decoder

open Program Program.Prog Number Text

/-! ## Parts of a packet -/

/-- So many symbols behind a place. -/
def part (decoded : List Bool) (first width : ℕ) : List Bool := (decoded.drop first).take width

theorem length_part {decoded : List Bool} (first width : ℕ)
    (inside : first + width ≤ decoded.length) : (part decoded first width).length = width := by
  rw [part, List.length_take, List.length_drop]
  omega

theorem getElem?_part (decoded : List Bool) {first width i : ℕ} (inside : i < width) :
    (part decoded first width)[i]? = decoded[first + i]? := by
  rw [part, List.getElem?_take_of_lt inside, List.getElem?_drop]

/-- The parts of a list follow one another. -/
theorem part_append_drop (decoded : List Bool) (first width : ℕ) :
    part decoded first width ++ decoded.drop (first + width) = decoded.drop first := by
  rw [part, ← List.drop_drop, List.take_append_drop]

/-- A value of symbols is the number that a part of them writes. -/
theorem symbolsValue_part {decoded : List Bool} (first width : ℕ)
    (inside : first + width + 1 ≤ decoded.length) :
    symbolsValue (decoded.map digit) first (first + width) =
      ofBits (part decoded first (width + 1)) := by
  have positions : part decoded first (width + 1) =
      (List.range' first (width + 1)).map fun j => decide (decoded[j]? = some true) := by
    apply List.ext_getElem?
    intro i
    by_cases small : i < width + 1
    · rw [getElem?_part _ small, List.getElem?_map, List.getElem?_range' small, Option.map_some,
        Nat.one_mul, List.getElem?_eq_getElem (by omega)]
      cases decoded[first + i] <;> rfl
    · have length := length_part first (width + 1) inside
      rw [List.getElem?_eq_none (by omega),
        List.getElem?_eq_none (by rw [List.length_map, List.length_range']; omega)]
  have count : first + width + 1 - first = width + 1 := by omega
  rw [symbolsValue_digits, positions, ofBits, List.foldl_map, count]
  simp only [decide_eq_true_eq]

/-- Parts behind the front of a list. -/
theorem part_append {front : List Bool} (back : List Bool) {first : ℕ} (width : ℕ)
    (past : front.length ≤ first) :
    part (front ++ back) first width = part back (first - front.length) width := by
  rw [part, part, List.drop_append, List.drop_of_length_le past, List.nil_append]

theorem part_toBits (width value : ℕ) (back : List Bool) :
    part (toBits width value ++ back) 0 width = toBits width value := by
  rw [part, List.drop_zero, List.take_left' (length_toBits width value)]

/-! ## From a message to its payload -/

namespace SensorMessage

variable (message : SensorMessage)

theorem length_payload : message.payload.length = 69 := by
  simp [payload]

/-- The parts of a payload. -/
theorem part_payload :
    part message.payload 2 28 = toBits 28 message.address.toNat ∧
      part message.payload 30 6 = toBits 6 message.flags.toNat ∧
      part message.payload 36 8 = toBits 8 message.pressure.toNat ∧
      part message.payload 44 8 = toBits 8 (~~~message.pressure).toNat ∧
      part message.payload 52 8 = toBits 8 message.temperature.toNat ∧
      part message.payload 60 8 = toBits 8 message.trailer.toNat ∧
      part message.payload 68 1 = [true] := by
  have front : [true, true].length = 2 := rfl
  have last : part [true] 0 1 = [true] := rfl
  simp only [payload, part_append, part_toBits, length_toBits, front, last, Nat.reduceSub,
    Nat.reduceLeDiff, and_self]

/-- A sensor may send it. -/
theorem payload_holds : Payload message.payload := by
  have length := message.length_payload
  obtain ⟨_, _, pressure, complement, _, _, last⟩ := message.part_payload
  constructor
  case length => exact length
  case fixed =>
    have final := @getElem?_part message.payload 68 1 0 (by decide)
    rw [last] at final
    exact ⟨rfl, rfl, final.symm⟩
  case complement =>
    intro i inside
    rw [← getElem?_part message.payload inside, ← getElem?_part message.payload inside, pressure,
      complement, getElem?_toBits _ inside, getElem?_toBits _ inside, ← BitVec.getLsbD,
      ← BitVec.getLsbD, BitVec.getLsbD_not]
    have low : 8 - 1 - i < 8 := by omega
    simp [low]
  case pressure =>
    have value := @symbolsValue_part message.payload 36 7
      (by rw [length]; decide)
    rw [value, pressure, ofBits_toBits, Nat.mod_eq_of_lt message.pressure.isLt]
    exact message.measurable

/-- The getters read a message from its payload. -/
theorem getsMessage : GetsMessage (message.payload.map digit) message := by
  have length := message.length_payload
  obtain ⟨address, _, pressure, _, temperature, _, _⟩ := message.part_payload
  constructor
  · have value := @symbolsValue_part message.payload 2 27
      (by rw [length]; decide)
    rw [getDecAddressVal, value, address, ofBits_toBits, Nat.mod_eq_of_lt message.address.isLt]
  · have value := @symbolsValue_part message.payload 52 7
      (by rw [length]; decide)
    rw [getTempC, value, temperature, ofBits_toBits, Nat.mod_eq_of_lt message.temperature.isLt]
    rfl
  · have value := @symbolsValue_part message.payload 36 7
      (by rw [length]; decide)
    rw [getPressureKpa, value, pressure, ofBits_toBits, Nat.mod_eq_of_lt message.pressure.isLt]
    rfl

/-- Different messages have different payloads. -/
theorem payload_injective : Function.Injective payload := by
  intro message other same
  have all := message.part_payload
  rw [same] at all
  obtain ⟨address, flags, pressure, _, temperature, trailer, _⟩ := all
  obtain ⟨address', flags', pressure', _, temperature', trailer', _⟩ := other.part_payload
  have field {width : ℕ} {value value' : BitVec width} {decoded : List Bool}
      (here : decoded = toBits width value.toNat) (there : decoded = toBits width value'.toNat) :
      value = value' := by
    apply BitVec.eq_of_toNat_eq
    have numbers := congrArg ofBits (here.symm.trans there)
    rwa [ofBits_toBits, ofBits_toBits, Nat.mod_eq_of_lt value.isLt,
      Nat.mod_eq_of_lt value'.isLt] at numbers
  cases message
  cases other
  rw [mk.injEq]
  exact ⟨field address address', field flags flags', field pressure pressure',
    field temperature temperature', field trailer trailer'⟩

end SensorMessage

/-! ## From a payload to its message -/

/-- The message of a payload. -/
def messageOf {payload : List Bool} (holds : Payload payload) : SensorMessage where
  address := BitVec.ofNat 28 (ofBits (part payload 2 28))
  flags := BitVec.ofNat 6 (ofBits (part payload 30 6))
  pressure := BitVec.ofNat 8 (ofBits (part payload 36 8))
  temperature := BitVec.ofNat 8 (ofBits (part payload 52 8))
  trailer := BitVec.ofNat 8 (ofBits (part payload 60 8))
  measurable := by
    have length := holds.length
    have inside : 36 + 7 + 1 ≤ payload.length := by omega
    have small := ofBits_lt (part payload 36 8)
    have pressure := holds.pressure
    rw [length_part _ _ (by omega)] at small
    rw [symbolsValue_part _ _ inside] at pressure
    rw [BitVec.toNat_ofNat, Nat.mod_eq_of_lt small]
    exact pressure

/-- A part of a payload is written as a field of its message. -/
theorem toBits_part {decoded : List Bool} {first width : ℕ}
    (inside : first + width ≤ decoded.length) :
    toBits width (BitVec.ofNat width (ofBits (part decoded first width))).toNat =
      part decoded first width := by
  have length := length_part _ _ inside
  have back := toBits_ofBits (part decoded first width)
  rw [length] at back
  rw [BitVec.toNat_ofNat, toBits_mod, back]

/-- Every payload is that of its message. -/
theorem payload_messageOf {payload : List Bool} (holds : Payload payload) :
    (messageOf holds).payload = payload := by
  have length := holds.length
  have complement : toBits 8 (~~~(messageOf holds).pressure).toNat = part payload 44 8 := by
    apply List.ext_getElem?
    intro i
    by_cases inside : i < 8
    · have pressure : toBits 8 (messageOf holds).pressure.toNat = part payload 36 8 :=
        toBits_part (by omega)
      have bit := getElem?_toBits (messageOf holds).pressure.toNat inside
      rw [pressure, getElem?_part _ inside, ← BitVec.getLsbD] at bit
      have other := holds.complement i inside
      have low : 8 - 1 - i < 8 := by omega
      rw [getElem?_toBits _ inside, getElem?_part _ inside, ← BitVec.getLsbD, BitVec.getLsbD_not,
        decide_eq_true low, Bool.true_and]
      rw [bit, List.getElem?_eq_getElem (by omega)] at other
      rw [List.getElem?_eq_getElem (by omega)]
      generalize (messageOf holds).pressure.getLsbD (8 - 1 - i) = sent at other ⊢
      generalize payload[44 + i] = again at other ⊢
      cases sent <;> cases again <;> simp at other ⊢
    · have parts := @length_part payload 44 8 (by omega)
      rw [List.getElem?_eq_none (by rw [length_toBits]; omega), List.getElem?_eq_none (by omega)]
  have front : part payload 0 2 = [true, true] := by
    apply List.ext_getElem?
    intro i
    match i with
    | 0 => exact (getElem?_part payload (by decide)).trans holds.fixed.1
    | 1 => exact (getElem?_part payload (by decide)).trans holds.fixed.2.1
    | i + 2 =>
      have parts := @length_part payload 0 2 (by omega)
      rw [List.getElem?_eq_none (by omega)]
      rfl
  have last : payload.drop 68 = [true] := by
    have one : part payload 68 1 = [true] := by
      apply List.ext_getElem?
      intro i
      match i with
      | 0 => exact (getElem?_part payload (by decide)).trans holds.fixed.2.2
      | i + 1 =>
        have parts := @length_part payload 68 1 (by omega)
        rw [List.getElem?_eq_none (by omega)]
        rfl
    rw [← part_append_drop payload 68 1, one, List.drop_of_length_le (by omega), List.append_nil]
  calc (messageOf holds).payload
      = part payload 0 2 ++ (part payload 2 28 ++ (part payload 30 6 ++ (part payload 36 8 ++
          (part payload 44 8 ++ (part payload 52 8 ++ (part payload 60 8 ++
            payload.drop 68)))))) := by
        rw [front, last, ← complement, ← toBits_part (show 2 + 28 ≤ payload.length by omega),
          ← toBits_part (show 30 + 6 ≤ payload.length by omega),
          ← toBits_part (show 36 + 8 ≤ payload.length by omega),
          ← toBits_part (show 52 + 8 ≤ payload.length by omega),
          ← toBits_part (show 60 + 8 ≤ payload.length by omega)]
        rfl
    _ = payload := by
        rw [part_append_drop payload 60, part_append_drop payload 52, part_append_drop payload 44,
          part_append_drop payload 36, part_append_drop payload 30, part_append_drop payload 2,
          part_append_drop payload 0, List.drop_zero]

/-- A payload is that of exactly one message. -/
theorem existsUnique_message {payload : List Bool} :
    Payload payload ↔ ∃! message : SensorMessage, message.payload = payload := by
  constructor
  · intro holds
    apply ExistsUnique.intro (messageOf holds) (payload_messageOf holds)
    intro other same
    exact SensorMessage.payload_injective (same.trans (payload_messageOf holds).symm)
  · intro sent
    rcases sent with ⟨message, same, _⟩
    rw [← same]
    exact message.payload_holds

/-! ## From an accepted packet to its message -/

/-- The state holds a message: `symbols` is its payload, and the getters read it. -/
structure Holds {F : Type} (packet : Packet F) (message : SensorMessage) : Prop where
  symbols : stringOf (packet.array .symbols) = message.payload.map digit
  getters : GetsMessage (packet.array .symbols) message

/-- The getters read the message of which `symbols` is the payload. -/
theorem holds_of_symbols {F : Type} {packet : Packet F} {message : SensorMessage}
    (symbols : stringOf (packet.array .symbols) = message.payload.map digit) :
    Holds packet message := by
  have length : (stringOf (packet.array .symbols)).length = 69 := by
    rw [symbols, List.length_map, message.length_payload]
  have value (first last : ℕ) (inside : last < 69) :
      symbolsValue (packet.array .symbols) first last =
        symbolsValue (message.payload.map digit) first last := by
    rw [symbolsValue_stringOf _ _ _ (by rw [length]; exact inside), symbols]
  have read := message.getsMessage
  apply Holds.mk symbols
  constructor
  · rw [getDecAddressVal, value 2 29 (by decide)]
    exact read.address
  · rw [getTempC, value 52 59 (by decide)]
    exact read.temperature
  · rw [getPressureKpa, value 36 43 (by decide)]
    exact read.pressure

/-- An accepted packet holds exactly one message. -/
theorem WellFormed.message {F : Type} {packet : Packet F} {packetSyms : List ℤ}
    (wellFormed : WellFormed packet packetSyms) :
    ∃! message : SensorMessage, Holds packet message := by
  obtain ⟨decoded, decodes⟩ : ∃ decoded : List Bool,
      stringOf (packet.array .symbols) = decoded.map digit := by
    apply Exists.intro (packetSyms.map fun symbol => decide (symbol = 1))
    rw [wellFormed.symbolsReturned, List.map_map]
    apply List.map_congr_left
    intro symbol member
    rcases wellFormed.returnedBits symbol member with rfl | rfl
    · rfl
    · rfl
  have length : decoded.length = 69 := by
    have long := wellFormed.symbolsLength
    rwa [decodes, List.length_map] at long
  have one (k : ℕ) (which : k = 0 ∨ k = 1 ∨ k = 68) : decoded[k]? = some true := by
    have fixed := wellFormed.symbolsFixed k which
    rwa [decodes, getElem?_digits] at fixed
  have payload : Payload decoded := by
    constructor
    case length => exact length
    case fixed => exact ⟨one 0 (by omega), one 1 (by omega), one 68 (by omega)⟩
    case complement =>
      intro i inside
      have differ := wellFormed.complement (36 + i) (by omega) (by omega)
      have place : 36 + i + 8 = 44 + i := by omega
      rw [decodes, place, List.getElem?_map, List.getElem?_map,
        List.getElem?_eq_getElem (by omega), List.getElem?_eq_getElem (by omega)] at differ
      rw [List.getElem?_eq_getElem (by omega), List.getElem?_eq_getElem (by omega)]
      generalize decoded[36 + i] = sent at differ ⊢
      generalize decoded[44 + i] = again at differ ⊢
      cases sent <;> cases again <;> simp at differ ⊢
    case pressure =>
      have least := wellFormed.pressure.1
      rw [getPressureKpa, symbolsValue_stringOf _ _ _ (by rw [wellFormed.symbolsLength]; decide),
        decodes] at least
      have enough : (40 : ℚ) ≤ symbolsValue (decoded.map digit) 36 43 := by linarith
      exact_mod_cast enough
  rcases existsUnique_message.mp payload with ⟨message, same, only⟩
  apply ExistsUnique.intro message
  · apply holds_of_symbols
    rw [decodes, same]
  · intro other held
    apply only
    have symbols := held.symbols
    rw [decodes] at symbols
    exact (List.map_injective_iff.mpr digit_injective symbols).symm

/-- Whatever is in a file, and whatever was analysed before: when `analyze_file` returns 1, the
getters read the one message that the packet holds. -/
theorem analyzeFile_message {F : Type} [Arithmetic F] {host : Host F}
    (file : SourceFile) (start : State host) :
    (analyzeFile file).Ensures start fun result later _ =>
      result = 1 → ∃! message : SensorMessage, Holds later.packet message := by
  cases contents : file.contents with
  | none =>
    rw [analyzeFile_missing contents, ensures_pure]
    intro one
    cases one
  | some bytes =>
    simp only [analyzeFile_opened contents, ensures_bind, ensures_assignReader, ensures_pure]
    intro found later trace evaluates
    have accepts := (getPacket_triple host).ensures True.intro found later trace evaluates
    cases found with
    | none =>
      intro one
      cases one
    | some packetSyms => exact fun _ => (accepts.2 packetSyms rfl).message

end FcTpms.Decoder
