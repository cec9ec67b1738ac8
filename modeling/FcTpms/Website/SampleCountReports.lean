import FcTpms.Website.Database

/-!
# The reports that count samples

`TireSampleCountReport` counts the samples of each day in the database and fills in the days
without any. `PerTireSampleCountReport` counts them in memory and divides by the number of tires.
-/

namespace FcTpms.Website

open Relational

/-! ## Text -/

/-- `to_s` of a date and of a float. -/
structure ToS where
  date : ℤ → String
  float : ℚ → String

/-- A record of the charts. -/
def recordText (cells : List String) : String := "\x7b " ++ ", ".intercalate cells ++ " \x7d"

/-- The records of a chart. -/
def chartText (records : List String) : String := "[" ++ ",\n".intercalate records ++ "]"

/-! ## Samples per day -/

namespace TireSampleCountReport

/-- A count: an integer of the database, or the `0.0` of a day that it has no row for. -/
inductive Count where
  | integer (count : ℕ)
  | zero
  deriving DecidableEq

/-- The number that is meant. -/
def Count.number : Count → ℕ
  | .integer count => count
  | .zero => 0

/-- The rows of the database. -/
def samples (db : Database) (companyId : Option ℕ) (startService endService : ℤ) :
    List (ℤ × Count) :=
  let rows := (db.samples companyId).filter fun row =>
    row.1.date ≤ endService ∧ startService ≤ row.1.date
  (groupBy (fun row => row.1.date) rows).map fun group => (group.1, .integer group.2.length)

/-- The rows of the report: `sample_rows` when they are sorted. -/
def sampleRows (db : Database) (companyId : Option ℕ) (startService endService : ℤ) :
    List (ℤ × Count) :=
  let sampleRows := samples db companyId startService endService
  let sampleRowDates := (days startService endService).filter fun day =>
    day ∉ sampleRows.map Prod.fst
  (sampleRows ++ sampleRowDates.map fun dt => (dt, Count.zero)).mergeSort fun x y => x.1 ≤ y.1

/-- The text of a row. -/
def rowText (toS : ToS) (row : ℤ × Count) : String :=
  recordText ["\"sample_time\" : \"" ++ toS.date row.1 ++ "\"",
    "\"tire_sample_count_report\" : " ++ match row.2 with
      | .integer count => toString count
      | .zero => toS.float 0]

/-- `serial_data`. -/
def serialData (toS : ToS) (db : Database) (companyId : Option ℕ) (startService endService : ℤ) :
    String :=
  chartText ((sampleRows db companyId startService endService).map (rowText toS))

end TireSampleCountReport

/-! ## Samples per tire -/

namespace PerTireSampleCountReport

/-- `@num_tires`. -/
def numTires (db : Database) (startService endService : ℤ) : List ℕ :=
  (days startService endService).map fun dt =>
    db.tires.rows.countP fun tire => db.versionAt tire.id (atMidday dt) = some true

/-- `@num_samples`. -/
def numSamples (db : Database) (companyId : Option ℕ) (startService endService : ℤ) : List ℕ :=
  (days startService endService).map fun dt =>
    (db.samples companyId).countP fun row => row.1.date = dt

/-- `ratio`, before it is rounded to a float. -/
def ratio (tires samples : ℕ) : ℚ := if tires = 0 then 0 else samples / tires

/-- The values of the days. -/
def values (db : Database) (companyId : Option ℕ) (startService endService : ℤ) : List ℚ :=
  List.zipWith ratio (numTires db startService endService)
    (numSamples db companyId startService endService)

/-- `serial_data`. -/
def serialData (toS : ToS) (db : Database) (companyId : Option ℕ) (startService endService : ℤ) :
    String :=
  chartText (List.zipWith
    (fun dt value => recordText ["\"per_tire_sample_count_report\" : " ++ toS.float value,
      "\"sample_time\" : \"" ++ toS.date dt ++ "\""])
    (days startService endService) (values db companyId startService endService))

end PerTireSampleCountReport

end FcTpms.Website
