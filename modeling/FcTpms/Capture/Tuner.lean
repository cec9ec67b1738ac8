import FcTpms.Number.Rounding
import Mathlib.Data.List.Chain

/-!
# The tuner and its gain

Gains are integers in tenths of a dB. A tuner offers a table of gains in increasing order and
remembers the one it was last set to; `rtlsdr_decrease_gain` looks the remembered gain up and
sets the entry before it.
-/

namespace FcTpms.Capture

open Number

/-- The gains of a tuner, in tenths of a dB. -/
structure GainTable where
  /-- `rtlsdr_get_tuner_gains`. -/
  gains : List ℤ
  /-- There is a gain. -/
  nonempty : gains ≠ []
  /-- The gains increase. -/
  increasing : gains.Pairwise (· < ·)
  /-- The gains are of type `int`. -/
  representable : ∀ gain ∈ gains, -2 ^ 31 ≤ gain ∧ gain < 2 ^ 31

namespace GainTable

/-- The lowest gain. -/
def lowest (table : GainTable) : ℤ := table.gains.head table.nonempty

end GainTable

/-- The tuner as the library drives it. -/
structure Tuner where
  /-- The gains on offer. -/
  table : GainTable
  /-- `dev->gain`, the answer of `rtlsdr_get_tuner_gain`. -/
  gain : ℤ
  /-- What `rtlsdr_set_tuner_gain_mode(dev, 1)` returns. -/
  modeStatus : ℤ
  /-- What the hardware returns when it is set to a gain. -/
  gainStatus : ℤ → ℤ

namespace Tuner

/-- `rtlsdr_set_tuner_gain`: a gain that the hardware refuses is remembered as `0`. -/
def setTunerGain (tuner : Tuner) (gain : ℤ) : Tuner :=
  { tuner with gain := if tuner.gainStatus gain = 0 then gain else 0 }

/-- The search of `rtlsdr_decrease_gain`: the entry before the first one, other than the very
first, that is the current gain. -/
def entryBefore (currGain : ℤ) : List ℤ → Option ℤ
  | previous :: gain :: rest =>
    if gain = currGain then Option.some previous else entryBefore currGain (gain :: rest)
  | _ => Option.none

/-- `rtlsdr_decrease_gain`, with the gain or the error code it returns. -/
def decreaseGain (tuner : Tuner) : Tuner × ℤ :=
  if tuner.modeStatus < 0 then
    (tuner, tuner.modeStatus)
  else
    match entryBefore tuner.gain tuner.table.gains with
    | .some lower => (tuner.setTunerGain lower, lower)
    | .none => (tuner, tuner.table.lowest)

/-- The hardware does what it is told. -/
structure Responds (tuner : Tuner) : Prop where
  /-- Manual gain can be switched on. -/
  mode : 0 ≤ tuner.modeStatus
  /-- Every gain can be set. -/
  gain : ∀ gain, tuner.gainStatus gain = 0

end Tuner

/-- The formats of `float` and `double`. -/
structure Formats where
  /-- `float`. -/
  single : Rounding
  /-- `double`. -/
  double : Rounding

/-- `old_gain`: the gain in dB, `rtlsdr_get_tuner_gain(dev)/10.0` stored in a `float`. -/
def Formats.oldGain (formats : Formats) (gain : ℤ) : ℚ :=
  formats.single.round (formats.double.round (gain / 10))

/-- The value of `rtlsdr_decrease_gain`, converted to a `float`. -/
def Formats.newGain (formats : Formats) (gain : ℤ) : ℚ := formats.single.round gain

end FcTpms.Capture
