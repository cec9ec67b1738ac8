import FcTpms.Website.SampleCountReports

/-!
# The pie reports

Both reports group the rows of `Tire.all_tires` by a column of the tire and label each group with a
column of the joined tables. MySQL takes the label from any row of the group.
-/

namespace FcTpms.Website

open Relational

/-- A row of the joined tables: `sensors`, `tire_types`, `using_company`, `owning_company` and
`tire_locations`. -/
abbrev TireParts := Sensor × TireType × Company × Company × TireLocation

namespace Database

variable (db : Database)

/-- The rows of the joined tables. -/
def tireParts : List TireParts :=
  db.sensors.rows ×ˢ db.tireTypes.rows ×ˢ db.companies.rows ×ˢ db.companies.rows ×ˢ
    db.tireLocations.rows

/-- The parts of a row are rows of the tables. -/
theorem mem_tireParts {sensor : Sensor} {tireType : TireType} {usingCompany owningCompany : Company}
    {tireLocation : TireLocation} :
    (sensor, tireType, usingCompany, owningCompany, tireLocation) ∈ db.tireParts ↔
      sensor ∈ db.sensors.rows ∧ tireType ∈ db.tireTypes.rows ∧
        usingCompany ∈ db.companies.rows ∧ owningCompany ∈ db.companies.rows ∧
        tireLocation ∈ db.tireLocations.rows :=
  List.pair_mem_product.trans <| and_congr_right' <|
    List.pair_mem_product.trans <| and_congr_right' <|
      List.pair_mem_product.trans <| and_congr_right' List.pair_mem_product

/-- The `on` condition of `Tire.all_tires`. -/
def tireJoin (tire : Tire) : TireParts → Bool
  | (sensor, tireType, usingCompany, owningCompany, tireLocation) =>
    tire.sensorId = some sensor.id ∧ tire.tireTypeId = tireType.id ∧
      usingCompany.id = tire.usingCompanyId ∧ owningCompany.id = tire.owningCompanyId ∧
      tire.tireLocationId = tireLocation.id

/-- `Tire.all_tires`. -/
def allTires : List (Tire × Option TireParts) :=
  leftJoin (db.tires.rows.filter Tire.active) db.tireParts tireJoin

/-- `Tire.company`. -/
def tireCompany (companyId : ℕ) (tire : Tire) : Bool :=
  tire.usingCompanyId = companyId ∨ tire.owningCompanyId = companyId

/-- `Tire.all_tires`, of a company if there is one. -/
def tiresOf (companyId : Option ℕ) : List (Tire × Option TireParts) :=
  match companyId with
  | none => db.allTires
  | some companyId => db.allTires.filter fun row => tireCompany companyId row.1

end Database

/-- How the server chooses the value of a column for a group: one of the values in the group. -/
structure Choice where
  pick : ℕ → List (Option String) → Option String
  mem : ∀ group values, values ≠ [] → pick group values ∈ values

/-- What the two reports differ in: the column that they group by, the one that they label with,
and the records that the groups stand for, with their names. -/
structure PieReport where
  classname : String
  group : Tire → ℕ
  category : TireParts → String
  records : Database → List (ℕ × String)
  /-- The ids of the records are different. -/
  unique : ∀ db, ((records db).map Prod.fst).Nodup
  /-- The joined record is the one of the group. -/
  joined : ∀ db tire parts, parts ∈ db.tireParts → Database.tireJoin tire parts = true →
    (group tire, category parts) ∈ records db

/-- `PerStoragePieReport`. -/
def perStoragePieReport : PieReport where
  classname := "per_storage_pie_report"
  group := Tire.tireLocationId
  category := fun (_, _, _, _, tireLocation) => tireLocation.locationName
  records db := db.tireLocations.rows.map fun tireLocation =>
    (tireLocation.id, tireLocation.locationName)
  unique db := by
    rw [List.map_map]
    exact db.tireLocations.unique
  joined db tire parts member matching := by
    rcases parts with ⟨sensor, tireType, usingCompany, owningCompany, tireLocation⟩
    have inside := (Database.mem_tireParts db).mp member
    simp only [Database.tireJoin, decide_eq_true_eq] at matching
    rw [List.mem_map]
    exact ⟨tireLocation, inside.2.2.2.2, by rw [matching.2.2.2.2]⟩

/-- `PerTiretypePieReport`. -/
def perTiretypePieReport : PieReport where
  classname := "per_tiretype_pie_report"
  group := Tire.tireTypeId
  category := fun (_, tireType, _, _, _) => tireType.name
  records db := db.tireTypes.rows.map fun tireType => (tireType.id, tireType.name)
  unique db := by
    rw [List.map_map]
    exact db.tireTypes.unique
  joined db tire parts member matching := by
    rcases parts with ⟨sensor, tireType, usingCompany, owningCompany, tireLocation⟩
    have inside := (Database.mem_tireParts db).mp member
    simp only [Database.tireJoin, decide_eq_true_eq] at matching
    rw [List.mem_map]
    exact ⟨tireType, inside.2.1, by rw [matching.2.1]⟩

namespace PieReport

variable (report : PieReport) (choice : Choice) (db : Database) (companyId : Option ℕ)

/-- The rows of `rpt_data`: the category and the number of tires of each group. -/
def rptData : List (Option String × ℕ) :=
  (groupBy (fun row => report.group row.1) (db.tiresOf companyId)).map fun group =>
    (choice.pick group.1 (group.2.map fun row => row.2.map report.category), group.2.length)

/-- The entries of the chart: `NULL` is printed as nothing. -/
def entries : List (String × ℕ) :=
  (report.rptData choice db companyId).map fun row => (row.1.getD "", row.2)

/-- `pie_chart_data`. -/
def pieChartData : String :=
  chartText ((report.entries choice db companyId).map fun entry =>
    recordText ["\"category\" : \"" ++ entry.1 ++ "\"",
      "\"" ++ report.classname ++ "\" : " ++ toString entry.2])

end PieReport

end FcTpms.Website
