import FcTpms.Relational.Table
import Mathlib.Data.Rat.Init

/-!
# The records of the website

The tables that the reports and the listing of samples read, and the scopes of their models. A
record is never deleted: `destroy` clears `active`. Times are seconds, in UTC.
-/

namespace FcTpms.Website

open Relational

/-- `companies`. -/
structure Company where
  id : ℕ
  deriving DecidableEq

/-- `receivers`. -/
structure Receiver where
  id : ℕ
  deriving DecidableEq

/-- `sensors`. -/
structure Sensor where
  id : ℕ
  sensorType : String
  serial : String
  deriving DecidableEq

/-- `tire_types`. -/
structure TireType where
  id : ℕ
  name : String
  deriving DecidableEq

/-- The subclasses of `TireLocation`. -/
inductive LocationType where
  | truck
  | trailer
  | storage
  deriving DecidableEq

/-- `tire_locations`. `location_name` is assigned before validation. -/
structure TireLocation where
  id : ℕ
  type : LocationType
  companyId : ℕ
  locationName : String
  active : Bool
  deriving DecidableEq

/-- `tires`. The controller sets `sensor_id` to `nil` for a serial that it does not find, and the
other ids are validated to be there. -/
structure Tire where
  id : ℕ
  sensorId : Option ℕ
  tireTypeId : ℕ
  usingCompanyId : ℕ
  owningCompanyId : ℕ
  tireLocationId : ℕ
  active : Bool
  deriving DecidableEq

/-- `tire_samples`. `sample_time` is validated to be there. -/
structure TireSample where
  id : ℕ
  sensorId : ℕ
  receiverId : ℕ
  psi : ℚ
  tempc : Option ℤ
  sampleTime : ℤ
  active : Bool
  deriving DecidableEq

/-- The tables, and what `version_at` gives for the id of a tire and a time: the value of `active`
of the tire as it was, or `none` where it was not there. -/
structure Database where
  companies : Table Company.id
  receivers : Table Receiver.id
  sensors : Table Sensor.id
  tireTypes : Table TireType.id
  tireLocations : Table TireLocation.id
  tires : Table Tire.id
  tireSamples : Table TireSample.id
  versionAt : ℕ → ℤ → Option Bool

namespace Database

variable (db : Database)

/-- `tire.sensor`. -/
def sensorOf (tire : Tire) : Option Sensor := tire.sensorId.bind db.sensors.find

/-- The `ON` condition of `TireSample.all_samples`. -/
def sampleJoin (sample : TireSample) : Tire × Sensor × Receiver → Bool
  | (tire, sensor, receiver) =>
    receiver.id = sample.receiverId ∧ sensor.id = sample.sensorId ∧
      tire.sensorId = some sample.sensorId

/-- `TireSample.all_samples`. -/
def allSamples : List (TireSample × Option (Tire × Sensor × Receiver)) :=
  leftJoin (db.tireSamples.rows.filter TireSample.active)
    (db.tires.rows ×ˢ db.sensors.rows ×ˢ db.receivers.rows) sampleJoin

/-- `TireSample.company`: `NULL` is no company. -/
def sampleCompany (companyId : ℕ) (row : TireSample × Option (Tire × Sensor × Receiver)) : Bool :=
  row.2.any fun joined => joined.1.usingCompanyId = companyId

/-- `TireSample.all_samples`, of a company if there is one. -/
def samples (companyId : Option ℕ) : List (TireSample × Option (Tire × Sensor × Receiver)) :=
  match companyId with
  | none => db.allSamples
  | some companyId => db.allSamples.filter (sampleCompany companyId)

end Database

/-- `date(sample_time)`, and `sample_time.to_date`: days are counted like the seconds. -/
def TireSample.date (sample : TireSample) : ℤ := sample.sampleTime / 86400

/-- `dt.at_midday`. -/
def atMidday (dt : ℤ) : ℤ := dt * 86400 + 43200

/-- `(start_service..end_service).to_a`. -/
def days (startService endService : ℤ) : List ℤ :=
  (List.range (endService + 1 - startService).toNat).map fun place : ℕ => startService + place

/-- What the days of a range are. -/
theorem mem_days {startService endService day : ℤ} :
    day ∈ days startService endService ↔ startService ≤ day ∧ day ≤ endService := by
  rw [days, List.mem_map]
  constructor
  · intro listed
    obtain ⟨place, inside, same⟩ := listed
    rw [List.mem_range] at inside
    omega
  · intro between
    apply Exists.intro (day - startService).toNat
    rw [List.mem_range]
    omega

/-- The days of a range are in ascending order. -/
theorem days_ascending (startService endService : ℤ) :
    (days startService endService).Pairwise (· < ·) := by
  rw [days, List.pairwise_map]
  exact List.pairwise_lt_range.imp fun {a b} before => by omega

end FcTpms.Website
