import FcTpms.Decoder.Analysis
import FcTpms.Number.Bits

/-!
# What a sensor sends

The content of a packet as the decoder understands it. The pressure is sent twice, the second time
as its complement. The flags and the trailer are not read.
-/

namespace FcTpms.Decoder

open Number

/-- The content of a packet. -/
structure SensorMessage where
  address : BitVec 28
  flags : BitVec 6
  pressure : BitVec 8
  temperature : BitVec 8
  trailer : BitVec 8
  /-- No pressure is below 0 kPa. -/
  measurable : 40 ≤ pressure.toNat
  deriving DecidableEq

namespace SensorMessage

variable (message : SensorMessage)

/-- The symbols of a packet. -/
def payload : List Bool :=
  [true, true] ++ (toBits 28 message.address.toNat ++ (toBits 6 message.flags.toNat ++
    (toBits 8 message.pressure.toNat ++ (toBits 8 (~~~message.pressure).toNat ++
      (toBits 8 message.temperature.toNat ++ (toBits 8 message.trailer.toNat ++ [true]))))))

/-- The temperature in degrees. -/
def celsius : ℤ := (message.temperature.toNat : ℤ) - 40

/-- The pressure. -/
def kilopascals : ℚ := message.pressure.toNat * (25 / 10) - 100

end SensorMessage

/-- What the getters return for the symbols of a packet. -/
structure GetsMessage (symbols : List Char) (message : SensorMessage) : Prop where
  address : getDecAddressVal symbols = message.address.toNat
  temperature : getTempC symbols = message.celsius
  pressure : getPressureKpa symbols = message.kilopascals

end FcTpms.Decoder
