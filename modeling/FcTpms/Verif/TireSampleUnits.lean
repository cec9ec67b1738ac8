import FcTpms.Website.TireSampleParams
import Mathlib.Tactic.Linarith
import Mathlib.Tactic.NormNum
import Mathlib.Tactic.Positivity
import Mathlib.Tactic.FieldSimp

/-!
# Units of the samples

`kpa` multiplies by the factor that was already multiplied with when the sample was submitted, so
that only zero comes back. The column of the temperature holds whole degrees Celsius.
-/

namespace FcTpms.Website

/-- A submitted number: a text that Ruby reads as this number, and `to_i` as this integer, or a
number of a JSON body. -/
inductive Submitted where
  | numeral (value : ℚ) (toI : ℤ)
  | number (value : ℚ)

namespace Submitted

/-- The number. -/
def value : Submitted → ℚ
  | .numeral value _ => value
  | .number value => value

/-- The parameter that it is submitted as. -/
def param : Submitted → Param
  | .numeral value toI => .text ⟨some value, value, value, toI, false⟩
  | .number value => .number value

end Submitted

/-- A pressure in one unit; `value` is an older name of `psi`. -/
inductive Pressure where
  | psi (given : Submitted)
  | value (given : Submitted)
  | kpa (given : Submitted)

/-- A temperature in one unit. -/
inductive Temperature where
  | tempc (given : Submitted)
  | tempf (given : Submitted)

/-- The parameters for a pressure and a temperature. -/
def fieldsOf (pressure : Pressure) (temperature : Temperature) : TireSampleFields where
  psi := match pressure with | .psi given => some given.param | _ => none
  value := match pressure with | .value given => some given.param | _ => none
  kpa := match pressure with | .kpa given => some given.param | _ => none
  tempc := match temperature with | .tempc given => some given.param | _ => none
  tempf := match temperature with | .tempf given => some given.param | _ => none

/-- The stored pressure comes back in its unit. -/
def Pressure.ReadsBack (stored : TireSample) : Pressure → Prop
  | .psi given => stored.psi = given.value
  | .value given => stored.psi = given.value
  | .kpa given => stored.kpa = given.value

/-- The stored temperature comes back in its unit. -/
def Temperature.ReadsBack (stored : TireSample) : Temperature → Prop
  | .tempc given => stored.tempc.map (fun tempc => (tempc : ℚ)) = some given.value
  | .tempf given => stored.tempf = some given.value

/-- A pressure in psi with at most six decimals, or no pressure at all in kPa. -/
def Pressure.Kept : Pressure → Prop
  | .psi given => ∃ millionths : ℤ, given.value = millionths / 1000000
  | .value given => ∃ millionths : ℤ, given.value = millionths / 1000000
  | .kpa given => given.value = 0

/-- Whole degrees Celsius; where they are given in Fahrenheit, as a text. -/
def Temperature.Kept : Temperature → Prop
  | .tempc (.numeral value toI) => (toI : ℚ) = value
  | .tempc (.number value) => ∃ degrees : ℤ, value = degrees
  | .tempf (.numeral value _) => ∃ degrees : ℤ, value = degrees * (18 / 10) + 32
  | .tempf (.number _) => False

/-- A number is its integer part if it is an integer. -/
theorem truncate_eq_iff (value : ℚ) :
    (truncate value : ℚ) = value ↔ ∃ whole : ℤ, value = whole := by
  constructor
  · intro same
    exact ⟨truncate value, same.symm⟩
  · rintro ⟨whole, rfl⟩
    simp [truncate]

/-- A decimal of the column is a number if that has six decimals at most. -/
theorem millionths_eq_iff (value : ℚ) :
    (round (value * 1000000) : ℚ) / 1000000 = value ↔
      ∃ millionths : ℤ, value = millionths / 1000000 := by
  constructor
  · intro same
    exact ⟨round (value * 1000000), same.symm⟩
  · rintro ⟨millionths, rfl⟩
    rw [div_mul_cancel₀ _ (by norm_num), round_intCast]

/-- Twice the factor brings back nothing but zero. -/
theorem kpa_eq_iff (value : ℚ) :
    (round (value * psiPerKpa * 1000000) : ℚ) / 1000000 * psiPerKpa = value ↔ value = 0 := by
  constructor
  · intro same
    have near := abs_le.mp (abs_sub_round (value * psiPerKpa * 1000000))
    generalize round (value * psiPerKpa * 1000000) = stored at same near
    unfold psiPerKpa at same near
    -- the square of the factor is about 0.021
    have below : (stored : ℚ) < 1 := by linarith
    have above : (-1 : ℚ) < stored := by linarith
    have below_one : stored < 1 := by exact_mod_cast below
    have above_one : -1 < stored := by exact_mod_cast above
    have zero : stored = 0 := by omega
    rw [zero] at same
    simpa using same.symm
  · intro zero
    rw [zero]
    simp

/-- Only whole degrees Celsius bring back the degrees Fahrenheit. -/
theorem tempf_eq_iff (value : ℚ) :
    (truncate ((value - 32) * 5 / 9) : ℚ) * (18 / 10) + 32 = value ↔
      ∃ degrees : ℤ, value = degrees * (18 / 10) + 32 := by
  constructor
  · intro same
    exact ⟨truncate ((value - 32) * 5 / 9), same.symm⟩
  · rintro ⟨degrees, rfl⟩
    have celsius : ((degrees : ℚ) * (18 / 10) + 32 - 32) * 5 / 9 = degrees := by ring
    have whole := (truncate_eq_iff (degrees : ℚ)).mpr ⟨degrees, rfl⟩
    rw [celsius, whole]

/-- The row that is stored has the pressure and the temperature of the permitted parameters. -/
theorem create_eq_some {row stored : TireSample} {accepted : Bool}
    {permitted : Option Param × Option Param}
    (created : TireSample.create row accepted permitted = some stored) :
    ∃ psi, permitted.1 = some psi ∧
      stored = { row with psi := decimalColumn psi, tempc := permitted.2.bind integerColumn } := by
  unfold TireSample.create at created
  cases given : permitted.1 with
  | none =>
    rw [given] at created
    cases created
  | some psi =>
    rw [given] at created
    cases value : psi.numerical with
    | none =>
      simp [value] at created
    | some number =>
      simp only [Option.bind_eq_bind, Option.bind_some, value] at created
      split at created
      · exact ⟨psi, rfl, (Option.some.inj created).symm⟩
      · cases created

/-- The column of the pressure for a submitted number. -/
theorem decimalColumn_param (given : Submitted) :
    decimalColumn given.param = round (given.value * 1000000) / 1000000 := by
  cases given <;> rfl

/-- A stored pressure comes back exactly if it is kept. -/
theorem pressure_readsBack {row stored : TireSample} {accepted : Bool} {pressure : Pressure}
    {temperature : Temperature}
    (created : TireSample.create row accepted
      (TireSamplesController.tireSampleParams (fieldsOf pressure temperature)) = some stored) :
    pressure.ReadsBack stored ↔ pressure.Kept := by
  obtain ⟨psi, permitted, rfl⟩ := create_eq_some created
  cases pressure with
  | psi given =>
    have same : given.param = psi := by
      simpa [TireSamplesController.tireSampleParams, tireSampleParams, fieldsOf] using permitted
    rw [← same, Pressure.ReadsBack, Pressure.Kept, ← millionths_eq_iff, decimalColumn_param]
  | value given =>
    have same : given.param = psi := by
      simpa [TireSamplesController.tireSampleParams, tireSampleParams, fieldsOf] using permitted
    rw [← same, Pressure.ReadsBack, Pressure.Kept, ← millionths_eq_iff, decimalColumn_param]
  | kpa given =>
    cases given with
    | numeral value toI =>
      have same : Param.number (value * psiPerKpa) = psi := by
        simpa [TireSamplesController.tireSampleParams, tireSampleParams, fieldsOf, assignUnless,
          Submitted.param, Param.numeric, Param.toF] using permitted
      rw [← same]
      exact kpa_eq_iff value
    | number value =>
      simp [TireSamplesController.tireSampleParams, tireSampleParams, fieldsOf, assignUnless,
        Submitted.param, Param.numeric] at permitted

/-- A stored temperature comes back exactly if it is kept. -/
theorem temperature_readsBack {row stored : TireSample} {accepted : Bool} {pressure : Pressure}
    {temperature : Temperature}
    (created : TireSample.create row accepted
      (TireSamplesController.tireSampleParams (fieldsOf pressure temperature)) = some stored) :
    temperature.ReadsBack stored ↔ temperature.Kept := by
  obtain ⟨psi, _, rfl⟩ := create_eq_some created
  cases temperature with
  | tempc given =>
    cases given with
    | numeral value toI =>
      simp [TireSamplesController.tireSampleParams, tireSampleParams, fieldsOf,
        Submitted.param, Submitted.value, integerColumn, Temperature.ReadsBack, Temperature.Kept]
    | number value =>
      simp [TireSamplesController.tireSampleParams, tireSampleParams, fieldsOf,
        Submitted.param, Submitted.value, integerColumn, Temperature.ReadsBack, Temperature.Kept,
        truncate_eq_iff]
  | tempf given =>
    cases given with
    | numeral value toI =>
      simp [TireSamplesController.tireSampleParams, tireSampleParams, fieldsOf, assignUnless,
        Submitted.param, Submitted.value, Param.numeric, Param.toF, integerColumn,
        Temperature.ReadsBack, Temperature.Kept, TireSample.tempf, tempf_eq_iff]
    | number value =>
      simp [TireSamplesController.tireSampleParams, tireSampleParams, fieldsOf, assignUnless,
        Submitted.param, Param.numeric, Temperature.ReadsBack, Temperature.Kept, TireSample.tempf]

/-- A sample that is stored comes back in the units it was submitted in, both controllers store
the same row, and `psi` and `tempc` take precedence over `kpa` and `tempf`, exactly if the pressure
is in psi with at most six decimals, or zero, and the temperature is in whole degrees Celsius. -/
theorem units_inverse_iff {row stored : TireSample} {accepted : Bool} {pressure : Pressure}
    {temperature : Temperature}
    (created : TireSample.create row accepted
      (TireSamplesController.tireSampleParams (fieldsOf pressure temperature)) = some stored) :
    (pressure.ReadsBack stored ∧ temperature.ReadsBack stored ∧
      TireSample.create row accepted (Api.V1.TireSamplesController.tireSampleParams
        (fieldsOf pressure temperature)) = some stored ∧
      (∀ (fields : TireSampleFields) (psi : Param),
        (TireSamplesController.tireSampleParams { fields with psi := some psi }).1 = some psi) ∧
      ∀ (fields : TireSampleFields) (tempc : Param),
        (TireSamplesController.tireSampleParams { fields with tempc := some tempc }).2 =
          some tempc) ↔
    pressure.Kept ∧ temperature.Kept := by
  have psi_first : ∀ (fields : TireSampleFields) (psi : Param),
      (TireSamplesController.tireSampleParams { fields with psi := some psi }).1 = some psi := by
    intro fields psi
    simp only [TireSamplesController.tireSampleParams, tireSampleParams, Option.some_or]
    cases fields.kpa with
    | none => rfl
    | some kpa =>
      dsimp only
      unfold assignUnless
      split <;> rfl
  have tempc_first : ∀ (fields : TireSampleFields) (tempc : Param),
      (TireSamplesController.tireSampleParams { fields with tempc := some tempc }).2 =
        some tempc := by
    intro fields tempc
    simp only [TireSamplesController.tireSampleParams, tireSampleParams]
    cases fields.tempf with
    | none => rfl
    | some tempf =>
      dsimp only
      unfold assignUnless
      split <;> rfl
  rw [← pressure_readsBack created, ← temperature_readsBack created]
  constructor
  · rintro ⟨pressureBack, temperatureBack, _⟩
    exact ⟨pressureBack, temperatureBack⟩
  · rintro ⟨pressureBack, temperatureBack⟩
    exact ⟨pressureBack, temperatureBack, created, psi_first, tempc_first⟩

/-- The other columns of a sample. -/
def blankSample : TireSample := ⟨1, 1, 1, 0, none, 0, true⟩

/-- 32 psi at 25 degrees Celsius come back. -/
theorem units_inverse_psi : ∃ stored, TireSample.create blankSample true
    (TireSamplesController.tireSampleParams
      (fieldsOf (.psi (.numeral 32 32)) (.tempc (.numeral 25 25)))) = some stored ∧
    (Pressure.psi (.numeral 32 32)).ReadsBack stored := by
  have created : TireSample.create blankSample true (TireSamplesController.tireSampleParams
      (fieldsOf (.psi (.numeral 32 32)) (.tempc (.numeral 25 25)))) =
        some { blankSample with psi := round ((32 : ℚ) * 1000000) / 1000000, tempc := some 25 } :=
      rfl
  have kept : (Pressure.psi (.numeral 32 32)).Kept ∧ (Temperature.tempc (.numeral 25 25)).Kept :=
    ⟨⟨32000000, by norm_num [Submitted.value]⟩, by norm_num [Temperature.Kept]⟩
  exact ⟨_, created, ((units_inverse_iff created).mpr kept).1⟩

/-- 220 kPa do not come back. -/
theorem units_inverse_kpa : ∃ stored, TireSample.create blankSample true
    (TireSamplesController.tireSampleParams
      (fieldsOf (.kpa (.numeral 220 220)) (.tempc (.numeral 25 25)))) = some stored ∧
    ¬ (Pressure.kpa (.numeral 220 220)).ReadsBack stored := by
  have low : (0 : ℚ) ≤ 220 * psiPerKpa := by norm_num [psiPerKpa]
  have high : (220 : ℚ) * psiPerKpa < 9500 := by norm_num [psiPerKpa]
  refine ⟨{ blankSample with
    psi := round ((220 : ℚ) * psiPerKpa * 1000000) / 1000000, tempc := some 25 }, ?_, ?_⟩
  · simp [TireSample.create, TireSamplesController.tireSampleParams, tireSampleParams, fieldsOf,
      assignUnless, Submitted.param, Param.numeric, Param.toF, Param.numerical, decimalColumn,
      integerColumn, low, high]
  intro same
  have zero := (kpa_eq_iff 220).mp same
  norm_num at zero

end FcTpms.Website
