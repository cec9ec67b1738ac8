import FcTpms.Search.Newest
import FcTpms.Website.Database

/-!
# `Api::V1::TireSamplesController#index`

The listing is collected in memory, through the trucks of the company, their tires and the sensors
of these, and sorted by a sort that leaves samples of the same time in any order.
-/

namespace FcTpms.Website

open Relational FcTpms.Search

/-- `valid_roles`. -/
inductive Role where
  | basicUser
  | companyAdmin
  | globalAdmin
  deriving DecidableEq

/-- `current_user`. -/
structure User where
  role : Role
  companyId : Option ℕ
  deriving DecidableEq

/-- `NoMethodError`, for a method of `nil`. -/
inductive NilError where
  | noMethodError
  deriving DecidableEq

/-- What `TireSampleSerializer` writes. -/
structure SerializedSample where
  sampleTime : ℤ
  psi : ℚ
  tireId : ℕ
  sensorId : ℕ
  receiverId : ℕ
  deriving DecidableEq

namespace Database

variable (db : Database)

/-- `Truck.all_trucks`. -/
def allTrucks : List TireLocation :=
  (leftJoin (db.tireLocations.rows.filter fun location =>
      location.type = .truck ∧ location.active)
    db.companies.rows fun location company => company.id = location.companyId).map Prod.fst

/-- `truck.tires`. -/
def tiresAt (truck : TireLocation) : List Tire :=
  db.tires.rows.filter fun tire => tire.tireLocationId = truck.id

/-- `sensor.tire_samples`. -/
def samplesOfSensor (sensor : Sensor) : List TireSample :=
  db.tireSamples.rows.filter fun sample => sample.sensorId = sensor.id

/-- `sensor.tire`. -/
def tireOfSensor (sensor : Sensor) : Option Tire :=
  db.tires.rows.find? fun tire => tire.sensorId = some sensor.id

end Database

namespace TireSamplesController

/-- `Settings.max_tire_samples`. -/
def maxTireSamples : ℕ := 50

variable (db : Database) (currentUser : User)

/-- `trucks`: a company that is `nil` has none. -/
def trucks : List TireLocation :=
  if currentUser.role = .globalAdmin then db.allTrucks
  else db.allTrucks.filter fun truck => currentUser.companyId = some truck.companyId

/-- `tires`. -/
def tires : List Tire := (trucks db currentUser).flatMap db.tiresAt

/-- `t.sensor.tire_samples`. -/
def samplesOfTire (tire : Tire) : Except NilError (List TireSample) :=
  match db.sensorOf tire with
  | none => .error .noMethodError
  | some sensor => .ok (db.samplesOfSensor sensor)

/-- The samples that are rendered. -/
def tireSamples (newestFirst : NewestFirst TireSample.sampleTime) :
    Except NilError (List TireSample) := do
  let tireSamples := (← (tires db currentUser).mapM (samplesOfTire db)).flatten
  return (newestFirst.sort tireSamples).take maxTireSamples

/-- The attributes of a sample. -/
def serialize (sample : TireSample) : Except NilError SerializedSample :=
  match (db.sensors.find sample.sensorId).bind db.tireOfSensor with
  | none => .error .noMethodError
  | some tire => .ok ⟨sample.sampleTime, sample.psi, tire.id, sample.sensorId, sample.receiverId⟩

/-- `index`. -/
def index (newestFirst : NewestFirst TireSample.sampleTime) :
    Except NilError (List SerializedSample) := do
  (← tireSamples db currentUser newestFirst).mapM (serialize db)

end TireSamplesController

end FcTpms.Website
