import FcTpms.Website.Database
import Mathlib.Data.Rat.Floor
import Mathlib.Algebra.Order.Round

/-!
# Samples as they are submitted

The parameters of a tire sample on their way into the table, in the two controllers that create
samples, and the units in which `TireSample` gives them back. Numbers are exact.
-/

namespace FcTpms.Website

/-- A text parameter, by what Ruby reads in it: `Kernel.Float`, which raises where there is more
than a number, `to_f`, `to_d` and `to_i`, which read a number at its beginning, and `blank?`. -/
structure ParamText where
  float : Option ℚ
  toF : ℚ
  toD : ℚ
  toI : ℤ
  blank : Bool

/-- A parameter: a text, or a number in the JSON body of a request. -/
inductive Param where
  | text (content : ParamText)
  | number (value : ℚ)

/-- `numeric?`, which only texts have; `none` is a `NoMethodError`. -/
def Param.numeric : Param → Option Bool
  | .text content => some content.float.isSome
  | .number _ => none

/-- `to_f`. -/
def Param.toF : Param → ℚ
  | .text content => content.toF
  | .number value => value

/-- The parameters under `tire_sample` that have to do with pressure and temperature. -/
structure TireSampleFields where
  psi : Option Param
  value : Option Param
  kpa : Option Param
  tempc : Option Param
  tempf : Option Param

/-- The factor between kPa and psi. -/
def psiPerKpa : ℚ := 145037738 / 1000000000

/-- `||=`, if the condition holds; where it raises, `rescue` leaves the parameter as it is. -/
def assignUnless (present : Option Param) (condition : Option Bool) (value : Param) :
    Option Param :=
  match condition with
  | some true => present.or (some value)
  | _ => present

/-- `tire_sample_params`, the text of which both controllers have: what is permitted of pressure and
temperature, `psi` and `tempc`. -/
def tireSampleParams (fields : TireSampleFields) : Option Param × Option Param :=
  let psi := fields.psi.or fields.value
  let tempc :=
    match fields.tempf with
    | none => fields.tempc
    | some tempf => assignUnless fields.tempc tempf.numeric (.number ((tempf.toF - 32) * 5 / 9))
  let psi :=
    match fields.kpa with
    | none => psi
    | some kpa => assignUnless psi kpa.numeric (.number (kpa.toF * psiPerKpa))
  (psi, tempc)

/-- `tire_sample_params` of the controller of the web pages. -/
def TireSamplesController.tireSampleParams (fields : TireSampleFields) :
    Option Param × Option Param := Website.tireSampleParams fields

/-- `tire_sample_params` of the controller of the API. -/
def Api.V1.TireSamplesController.tireSampleParams (fields : TireSampleFields) :
    Option Param × Option Param := Website.tireSampleParams fields

/-- What the numericality of `psi` is validated on, none if it is not a number. -/
def Param.numerical : Param → Option ℚ
  | .text content => content.float
  | .number value => some value

/-- A value in the column `psi`, a decimal with a scale of six; it is not negative. -/
def decimalColumn : Param → ℚ
  | .text content => round (content.toD * 1000000) / 1000000
  | .number value => round (value * 1000000) / 1000000

/-- A number without its fraction. -/
def truncate (value : ℚ) : ℤ := value.num.tdiv value.den

/-- A value in the column `tempc`, an integer. -/
def integerColumn : Param → Option ℤ
  | .text content => if content.blank then none else some content.toI
  | .number value => some (truncate value)

/-- `TireSample.create`: the row as it is stored, none if it is not. `row` has the other columns as
they are assigned, `accepted` says whether they pass the validations and the row is stored. -/
def TireSample.create (row : TireSample) (accepted : Bool)
    (permitted : Option Param × Option Param) :
    Option TireSample := do
  let psi ← permitted.1
  let value ← psi.numerical
  if accepted ∧ 0 ≤ value ∧ value < 9500 then
    some { row with psi := decimalColumn psi, tempc := permitted.2.bind integerColumn }
  else none

/-- `tempf`. -/
def TireSample.tempf (sample : TireSample) : Option ℚ :=
  sample.tempc.map fun tempc => tempc * (18 / 10) + 32

/-- `kpa`. -/
def TireSample.kpa (sample : TireSample) : ℚ := sample.psi * psiPerKpa

end FcTpms.Website
