import FcTpms.Decoder.Bits
import FcTpms.Text.CString

/-!
# Symbols

`get_packet_symbols` collects the 69 symbols of a packet in three places: the string of half-bits
`bits`, the string `symbols` and the array it returns. A symbol is `1` when its first half-bit
repeats the half-bit before it.
-/

namespace FcTpms.Decoder

open Program Arithmetic Text

variable {F : Type} [Arithmetic F] {host : Host F}

/-- The contents of a character array. -/
def Packet.array (packet : Packet F) : CharArray → List Char
  | .bits => packet.bits.toList
  | .symbols => packet.symbols.toList

/-- Write one character of a character array. -/
def Packet.write (packet : Packet F) (array : CharArray) (index : ℕ) (char : Char) : Packet F :=
  match array with
  | .bits => { packet with bits := packet.bits.setIfInBounds index char }
  | .symbols => { packet with symbols := packet.symbols.setIfInBounds index char }

/-- `array[index] = char`. -/
def storeChar (array : CharArray) (index : ℕ) (char : Char) : Decode host Unit := do
  Prog.emit (.store array index)
  assignPacket fun packet => packet.write array index char

/-- `strcpy` of a string into a character array, from `index` on. -/
def strcpyFrom (array : CharArray) (index : ℕ) : List Char → Decode host Unit
  | [] => storeChar array index '\x00'
  | char :: rest => do
    storeChar array index char
    strcpyFrom array (index + 1) rest

/-- `strcpy`. -/
def strcpy (array : CharArray) (text : String) : Decode host Unit :=
  strcpyFrom array 0 text.toList

/-- `(value == 0) ? '0' : '1'`. -/
def bitChar (value : ℤ) : Char := if value = 0 then '0' else '1'

/-- `(preceding_bit == first_bit) ? 1 : 0`. -/
def symbolOf (precedingBit firstBit : ℤ) : ℤ := if precedingBit = firstBit then 1 else 0

/-- The part of `get_second_symbol` that records its half-bit and its symbol. -/
def recordSecondSymbol (firstBit secondBit : ℤ) : Decode host ℤ := do
  storeChar .bits 3 (bitChar secondBit)
  storeChar .bits 4 '\x00'
  let symbol := symbolOf (← Prog.get).packet.precedingBit firstBit
  storeChar .symbols 1 (bitChar symbol)
  storeChar .symbols 2 '\x00'
  assignPacket fun packet => { packet with precedingBit := secondBit }
  return symbol

/-- `get_second_symbol`. -/
def getSecondSymbol (symStart estSamplesPerSym : ℕ) : Decode host ℤ := do
  assignPacket fun packet => { packet with precedingBit := 1 }
  let samplesPerBit := estSamplesPerSym / 2
  let firstBit : ℤ := 1
  let secondBit ← getBit symStart (u32 (symStart + samplesPerBit - 1))
  let secondBitConf := (← Prog.get).packet.bitConfidence
  if firstBit = secondBit then
    if lt secondBitConf (literal (25 / 100)) then recordSecondSymbol firstBit (1 - secondBit)
    else
      setValidPkt false
      return 0
  else recordSecondSymbol firstBit secondBit

/-- The half-bits that `get_symbol` keeps of two decided ones: equal half-bits are a violation
of the code, and the less confident one is flipped when its confidence is below `0.25`. -/
def settleHalfBits (firstBit secondBit : ℤ) (firstBitConf secondBitConf : F) : Option (ℤ × ℤ) :=
  if firstBit = secondBit then
    let minConf := if lt firstBitConf secondBitConf then firstBitConf else secondBitConf
    if lt minConf (literal (25 / 100)) then
      if eq minConf firstBitConf then some (1 - firstBit, secondBit)
      else some (firstBit, 1 - secondBit)
    else none
  else some (firstBit, secondBit)

/-- The part of `get_symbol` that records its half-bits and its symbol. -/
def recordSymbol (firstBit secondBit : ℤ) : Decode host ℤ := do
  let bitsCollected := strlen ((← Prog.get).packet.array .bits)
  storeChar .bits bitsCollected (bitChar firstBit)
  storeChar .bits (bitsCollected + 1) (bitChar secondBit)
  storeChar .bits (bitsCollected + 2) '\x00'
  let symbol := symbolOf (← Prog.get).packet.precedingBit firstBit
  let symbolsCollected := strlen ((← Prog.get).packet.array .symbols)
  storeChar .symbols symbolsCollected (bitChar symbol)
  storeChar .symbols (symbolsCollected + 1) '\x00'
  assignPacket fun packet => { packet with precedingBit := secondBit }
  return symbol

/-- `get_symbol`. -/
def getSymbol (symStart estSamplesPerSym : ℕ) : Decode host ℤ := do
  let samplesPerBit := estSamplesPerSym / 2
  let firstBit ← getBit symStart (u32 (symStart + samplesPerBit - 1))
  let first ← Prog.get
  let secondBit ← getBit first.packet.actualBitEnd (u32 (symStart + estSamplesPerSym - 1))
  let second ← Prog.get
  match settleHalfBits firstBit secondBit first.packet.bitConfidence
      second.packet.bitConfidence with
  | none =>
    setValidPkt false
    return 0
  | some (firstBit, secondBit) => recordSymbol firstBit secondBit

/-- `packet_syms[index]`. -/
def symbolAt (packetSyms : List ℤ) (index : ℕ) : ℤ := packetSyms.getD index 0

/-- The loop of `validate_packet` over the eight pressure symbols from `i` on: `none` when a
pressure symbol equals its complement, else the value read so far carried to the end. -/
def pressureFrom (packetSyms : List ℤ) (press : ℚ) : ℕ → Option ℚ
  | 0 => some press
  | count + 1 =>
    let i := 7 - count
    if symbolAt packetSyms (36 + i) = symbolAt packetSyms (44 + i) then none
    else pressureFrom packetSyms (press * 2 + symbolAt packetSyms (i + 36)) count

/-- `validate_packet`. -/
def validatePacket (packetSyms : List ℤ) : Bool :=
  if symbolAt packetSyms 68 ≠ 1 then false
  else
    match pressureFrom packetSyms 0 8 with
    | none => false
    | some press => !decide (press * (25 / 10) - 100 < 0)

/-- The loop of `get_packet_symbols` over the symbols from `i` on; `none` as soon as the packet
is invalid. -/
def collectSymbols (estSamplesPerSym : ℕ) :
    ℕ → List ℤ → Decode host (Option (List ℤ))
  | 0, packetSyms => return some packetSyms
  | count + 1, packetSyms => do
    let symStart := u32 ((← Prog.get).packet.actualBitEnd + 1)
    let symbol ← getSymbol symStart estSamplesPerSym
    if !(← Prog.get).validPkt then return none
    collectSymbols estSamplesPerSym count (packetSyms ++ [symbol])

/-- `get_packet_symbols`; a null pointer is `none`. -/
def getPacketSymbols (pktStart numSyms estSamplesPerSym : ℕ) :
    Decode host (Option (List ℤ)) := do
  strcpy .bits "011"
  strcpy .symbols "1"
  let symbol ← getSecondSymbol pktStart estSamplesPerSym
  if !(← Prog.get).validPkt then return none
  match ← collectSymbols estSamplesPerSym (numSyms - 2) [1, symbol] with
  | none => return none
  | some packetSyms =>
    setValidPkt (validatePacket packetSyms)
    if !(← Prog.get).validPkt then return none
    return some packetSyms

end FcTpms.Decoder
