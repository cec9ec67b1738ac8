import FcTpms.Decoder.Analysis
import FcTpms.Legacy.LiquidAnalysis

/-!
# What `liquid_analysis.c` returns of a packet

The getters read `symbols` as those of `analyze_tpms2.c` do.
-/

namespace FcTpms.Liquid.State

variable (state : State)

/-- `get_success`. -/
def getSuccess : ℤ := if state.validPkt then 1 else 0

/-- `get_dec_address_val`. -/
def getDecAddressVal : ℕ := Decoder.getDecAddressVal state.symbols

/-- `get_temp_c`. -/
def getTempC : ℤ := Decoder.getTempC state.symbols

/-- `get_pressure_kpa`. -/
def getPressureKpa : ℚ := Decoder.getPressureKpa state.symbols

end FcTpms.Liquid.State
