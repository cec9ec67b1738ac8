import FcTpms.Website.PieReports

/-!
# What the pie reports are of

The entries of a report are right if and only if the record that each tire is counted for is there,
and the tire has a row of the join to label it with, which one missing record takes away. The other
direction chooses the row without a label in each group that has one.
-/

namespace FcTpms.Website

open Relational

namespace Database

variable (db : Database) (companyId : Option ℕ)

/-- The active tires that the company uses or owns, or all of them. -/
def companyTires : List Tire := db.tires.rows.filter fun tire =>
  tire.active && companyId.all fun companyId => tireCompany companyId tire

/-- The records that a tire is joined with are all there. -/
def HasParts (tire : Tire) : Prop := ∃ parts ∈ db.tireParts, tireJoin tire parts = true

/-- A tire is joined with one row at most. -/
theorem filter_tireJoin_length (tire : Tire) :
    (db.tireParts.filter (tireJoin tire)).length ≤ 1 := by
  have different : db.tireParts.Nodup := by
    have companies := db.companies.unique.of_map _
    have sensors := db.sensors.unique.of_map _
    have tireTypes := db.tireTypes.unique.of_map _
    have tireLocations := db.tireLocations.unique.of_map _
    exact sensors.product (tireTypes.product (companies.product (companies.product tireLocations)))
  have same : ∀ parts ∈ db.tireParts.filter (tireJoin tire),
      ∀ others ∈ db.tireParts.filter (tireJoin tire), parts = others := by
    intro parts member others among
    rcases parts with ⟨sensor, tireType, usingCompany, owningCompany, tireLocation⟩
    rcases others with ⟨otherSensor, otherType, otherUsing, otherOwning, otherLocation⟩
    rw [List.mem_filter, mem_tireParts] at member among
    simp only [tireJoin, decide_eq_true_eq] at member among
    have sensors := db.sensors.eq_of_key member.1.1 among.1.1
      (Option.some.inj (member.2.1.symm.trans among.2.1))
    have types := db.tireTypes.eq_of_key member.1.2.1 among.1.2.1
      (member.2.2.1.symm.trans among.2.2.1)
    have usings := db.companies.eq_of_key member.1.2.2.1 among.1.2.2.1
      (member.2.2.2.1.trans among.2.2.2.1.symm)
    have ownings := db.companies.eq_of_key member.1.2.2.2.1 among.1.2.2.2.1
      (member.2.2.2.2.1.trans among.2.2.2.2.1.symm)
    have locations := db.tireLocations.eq_of_key member.1.2.2.2.2 among.1.2.2.2.2
      (member.2.2.2.2.2.symm.trans among.2.2.2.2.2)
    rw [sensors, types, usings, ownings, locations]
  cases found : db.tireParts.filter (tireJoin tire) with
  | nil => simp
  | cons first rest =>
    cases rest with
    | nil => simp
    | cons second rest =>
      have twice : (first :: second :: rest).Nodup := found ▸ different.filter _
      rw [found] at same
      have equal := same first (by simp) second (by simp)
      simp [equal] at twice

/-- The rows of the query are the active tires, each with its row of the joined tables. -/
theorem tiresOf_eq : db.tiresOf companyId = (db.companyTires companyId).map fun tire =>
    (tire, db.tireParts.find? (tireJoin tire)) := by
  have joined : db.allTires = (db.tires.rows.filter Tire.active).map fun tire =>
      (tire, db.tireParts.find? (tireJoin tire)) :=
    leftJoin_of_single fun tire _ => db.filter_tireJoin_length tire
  cases companyId with
  | none =>
    rw [tiresOf, joined, companyTires]
    simp
  | some companyId =>
    rw [tiresOf, joined, companyTires, List.filter_map, List.filter_filter]
    congr 1
    apply List.filter_congr
    intro tire _
    rw [Bool.and_comm]
    rfl

end Database

namespace PieReport

open Database

variable (report : PieReport) (db : Database) (companyId : Option ℕ)

/-! ## Entries -/

/-- The active tires of the company in a group. -/
def tiresIn (group : ℕ) : List Tire :=
  (db.companyTires companyId).filter fun tire => decide (report.group tire = group)

/-- The groups that have a tire. -/
def groups : List ℕ := ((db.companyTires companyId).map report.group).dedup

/-- The values of the category in a group. -/
def categories (group : ℕ) : List (Option String) :=
  (report.tiresIn db companyId group).map fun tire =>
    (db.tireParts.find? (tireJoin tire)).map report.category

/-- Each group has an entry with the number of its tires. -/
theorem entries_eq (choice : Choice) : report.entries choice db companyId =
    (report.groups db companyId).map fun group =>
      ((choice.pick group (report.categories db companyId group)).getD "",
        (report.tiresIn db companyId group).length) := by
  rw [entries, rptData, groupBy, tiresOf_eq, List.map_map, List.map_map, groups, List.map_map]
  apply List.map_congr_left
  intro group _
  simp only [Function.comp_def, categories, tiresIn, List.filter_map, List.map_map,
    List.length_map]

/-- The entries count every tire once. -/
theorem sum_entries (choice : Choice) :
    ((report.entries choice db companyId).map Prod.snd).sum =
      (db.companyTires companyId).length := by
  have total := sum_groupBy (fun row : Tire × Option TireParts => report.group row.1)
    (db.tiresOf companyId)
  rw [tiresOf_eq, List.length_map] at total
  rw [entries, rptData, tiresOf_eq, List.map_map, List.map_map, ← total]
  rfl

/-- A group has a tire. -/
theorem mem_groups {group : ℕ} : group ∈ report.groups db companyId ↔
    ∃ tire ∈ db.companyTires companyId, report.group tire = group := by
  rw [groups, List.mem_dedup, List.mem_map]

/-- A group has a tire, in numbers. -/
theorem tiresIn_pos {group : ℕ} : 0 < (report.tiresIn db companyId group).length ↔
    group ∈ report.groups db companyId := by
  rw [mem_groups, List.length_pos_iff_exists_mem]
  simp [tiresIn]

/-! ## What is to be listed -/

/-- An entry for each record that has a tire, with its name and the number of its tires. -/
def listed : List (String × ℕ) :=
  ((report.records db).filter fun record =>
    decide (0 < (report.tiresIn db companyId record.1).length)).map fun record =>
      (record.2, (report.tiresIn db companyId record.1).length)

/-- The records that have a tire, as a list of groups. -/
def listedGroups : List ℕ :=
  ((report.records db).filter fun record =>
    decide (0 < (report.tiresIn db companyId record.1).length)).map Prod.fst

/-- No record is listed twice. -/
theorem listedGroups_nodup : (report.listedGroups db companyId).Nodup :=
  (report.unique db).sublist (List.filter_sublist.map _)

/-- A listed group is a group with a record. -/
theorem mem_listedGroups {group : ℕ} : group ∈ report.listedGroups db companyId ↔
    group ∈ report.groups db companyId ∧ ∃ name, (group, name) ∈ report.records db := by
  rw [listedGroups, List.mem_map]
  constructor
  · intro there
    obtain ⟨record, kept, same⟩ := there
    rw [List.mem_filter, decide_eq_true_iff, tiresIn_pos] at kept
    rw [← same]
    exact ⟨kept.2, record.2, kept.1⟩
  · intro both
    obtain ⟨has, name, member⟩ := both
    apply Exists.intro (group, name)
    rw [List.mem_filter, decide_eq_true_iff, tiresIn_pos]
    exact ⟨⟨member, has⟩, rfl⟩

/-- The name of the record of a group. -/
def nameOf (group : ℕ) : String :=
  (((report.records db).find? fun record => decide (record.1 = group)).map Prod.snd).getD ""

/-- A record has its name. -/
theorem nameOf_eq {group : ℕ} {name : String} (member : (group, name) ∈ report.records db) :
    report.nameOf db group = name := by
  let records : Table (Prod.fst : ℕ × String → ℕ) := ⟨report.records db, report.unique db⟩
  have found : records.find group = some (group, name) :=
    records.find_eq_some.mpr ⟨member, rfl⟩
  show ((records.find group).map Prod.snd).getD "" = name
  rw [found]
  rfl

/-- What is to be listed, group by group. -/
theorem listed_eq : report.listed db companyId = (report.listedGroups db companyId).map fun group =>
    (report.nameOf db group, (report.tiresIn db companyId group).length) := by
  rw [listed, listedGroups, List.map_map]
  apply List.map_congr_left
  intro record kept
  have member : (record.1, record.2) ∈ report.records db := (List.mem_filter.mp kept).1
  simp only [Function.comp_def, report.nameOf_eq db member]

/-! ## Labels -/

/-- The label of a tire that is joined with its record is the name of the record. -/
theorem category_eq {tire : Tire} {name : String} (hasParts : db.HasParts tire)
    (member : (report.group tire, name) ∈ report.records db) :
    (db.tireParts.find? (tireJoin tire)).map report.category = some name := by
  have there : (db.tireParts.find? (tireJoin tire)).isSome := by
    rw [List.find?_isSome]
    exact hasParts
  obtain ⟨parts, found⟩ := Option.isSome_iff_exists.mp there
  have labelled := report.joined db tire parts (List.mem_of_find?_eq_some found)
    (by simpa using List.find?_some found)
  rw [found, Option.map_some, ← report.nameOf_eq db labelled, report.nameOf_eq db member]

/-- A tire that lacks a record is joined with none. -/
theorem category_eq_none {tire : Tire} (lacks : ¬db.HasParts tire) :
    (db.tireParts.find? (tireJoin tire)).map report.category = none := by
  rw [Option.map_eq_none_iff, List.find?_eq_none]
  intro parts member matching
  exact lacks ⟨parts, member, matching⟩

/-! ## Partitions -/

/-- There is an entry for each record with a tire of the company, and the tires add up. -/
def Partitions (choice : Choice) : Prop :=
  (report.entries choice db companyId).Perm (report.listed db companyId) ∧
    ((report.entries choice db companyId).map Prod.snd).sum = (db.companyTires companyId).length

/-- Each tire of the company has the record that it is counted for, and all records that it is
joined with, unless the name that would be its label is empty. -/
def Labelled : Prop :=
  ∀ tire ∈ db.companyTires companyId, ∃ name, (report.group tire, name) ∈ report.records db ∧
    (db.HasParts tire ∨ name = "")

variable {report db companyId}

/-- The groups are the records to be listed. -/
theorem Partitions.groups_perm {choice : Choice}
    (partitions : report.Partitions db companyId choice) :
    (report.groups db companyId).Perm (report.listedGroups db companyId) := by
  have sizes := partitions.1.length_eq
  rw [entries_eq, listed_eq, List.length_map, List.length_map] at sizes
  have among : report.listedGroups db companyId ⊆ report.groups db companyId :=
    fun group member => ((report.mem_listedGroups db companyId).mp member).1
  have subperm := List.subperm_of_subset (report.listedGroups_nodup db companyId) among
  exact (subperm.perm_of_length_le sizes.le).symm

/-- With all labels, the groups are the records to be listed. -/
theorem Labelled.groups_perm (labelled : report.Labelled db companyId) :
    (report.groups db companyId).Perm (report.listedGroups db companyId) := by
  have once : (report.groups db companyId).Nodup := List.nodup_dedup _
  rw [List.perm_ext_iff_of_nodup once (report.listedGroups_nodup db companyId)]
  intro group
  rw [mem_listedGroups]
  constructor
  · intro has
    obtain ⟨tire, member, same⟩ := (report.mem_groups db companyId).mp has
    obtain ⟨name, named, -⟩ := labelled tire member
    exact ⟨has, name, same ▸ named⟩
  · intro both
    exact both.1

/-- The label of a group is the name of its record, whichever row is chosen, if all of its tires
have their records or the name is empty. -/
theorem pick_eq (choice : Choice) {group : ℕ} {name : String}
    (has : group ∈ report.groups db companyId) (record : (group, name) ∈ report.records db)
    (labelled : ∀ tire ∈ report.tiresIn db companyId group, db.HasParts tire ∨ name = "") :
    (choice.pick group (report.categories db companyId group)).getD "" = name := by
  have filled : report.categories db companyId group ≠ [] := by
    rw [← List.length_pos_iff, categories, List.length_map, tiresIn_pos]
    exact has
  have picked : ∃ tire ∈ report.tiresIn db companyId group,
      (db.tireParts.find? (tireJoin tire)).map report.category =
        choice.pick group (report.categories db companyId group) :=
    List.mem_map.mp (choice.mem group _ filled)
  obtain ⟨tire, member, chosen⟩ := picked
  have kept := (List.mem_filter.mp member).2
  rw [decide_eq_true_iff] at kept
  rw [← chosen]
  by_cases hasParts : db.HasParts tire
  · rw [report.category_eq db hasParts (kept ▸ record), Option.getD_some]
  · rw [report.category_eq_none db hasParts, Option.getD_none]
    exact ((labelled tire member).resolve_left hasParts).symm

/-- With all labels, the entries have the names of the records. -/
theorem Labelled.entries_named (labelled : report.Labelled db companyId) (choice : Choice) :
    report.entries choice db companyId = (report.groups db companyId).map fun group =>
      (report.nameOf db group, (report.tiresIn db companyId group).length) := by
  rw [entries_eq]
  apply List.map_congr_left
  intro group has
  obtain ⟨-, name, record⟩ := (report.mem_listedGroups db companyId).mp
    (labelled.groups_perm.mem_iff.mp has)
  rw [pick_eq choice has record, report.nameOf_eq db record]
  intro tire member
  rw [tiresIn, List.mem_filter, decide_eq_true_iff] at member
  obtain ⟨other, named, complete⟩ := labelled tire member.1
  rw [← report.nameOf_eq db record, ← member.2, report.nameOf_eq db named]
  exact complete

/-- With all labels, the chart does not depend on the rows that the server chooses. -/
theorem Labelled.pieChartData_eq (labelled : report.Labelled db companyId) (choice other : Choice) :
    report.pieChartData choice db companyId = report.pieChartData other db companyId := by
  rw [pieChartData, pieChartData, labelled.entries_named choice, labelled.entries_named other]

/-- With all labels, the report partitions the tires. -/
theorem Labelled.partitions (labelled : report.Labelled db companyId) (choice : Choice) :
    report.Partitions db companyId choice := by
  constructor
  · rw [labelled.entries_named choice, listed_eq]
    exact labelled.groups_perm.map _
  · exact report.sum_entries db companyId choice

/-- A server that chooses `NULL` where it can. -/
def nullFirst : Choice where
  pick _ values := if none ∈ values then none else values.headD none
  mem _ values filled := by
    split
    · assumption
    · cases values with
      | nil => exact absurd rfl filled
      | cons first rest => exact List.mem_cons_self

/-- If that server partitions the tires, each has its label. -/
theorem Partitions.labelled (partitions : report.Partitions db companyId nullFirst) :
    report.Labelled db companyId := by
  let label := fun group => (nullFirst.pick group (report.categories db companyId group)).getD ""
  have perm := partitions.1
  rw [entries_eq, listed_eq] at perm
  -- As many groups have no label as have no name, and those without a name have no label.
  have unnamed := (partitions.groups_perm.symm.map fun group => (report.nameOf db group,
    (report.tiresIn db companyId group).length))
  have same := (perm.trans unnamed).countP_eq fun entry => decide (entry.1 = "")
  rw [List.countP_map, List.countP_map] at same
  have implied : ∀ group ∈ report.groups db companyId,
      decide (report.nameOf db group = "") = true → decide (label group = "") = true := by
    intro group has nameless
    obtain ⟨-, name, record⟩ := (report.mem_listedGroups db companyId).mp
      (partitions.groups_perm.mem_iff.mp has)
    rw [decide_eq_true_iff, report.nameOf_eq db record] at nameless
    have blank := pick_eq nullFirst has record fun _ _ => Or.inr nameless
    rw [decide_eq_true_iff, ← nameless]
    exact blank
  have named := of_countP_eq implied same.symm
  intro tire member
  have has := (report.mem_groups db companyId).mpr ⟨tire, member, rfl⟩
  obtain ⟨-, name, record⟩ := (report.mem_listedGroups db companyId).mp
    (partitions.groups_perm.mem_iff.mp has)
  refine ⟨name, record, ?_⟩
  by_cases hasParts : db.HasParts tire
  · exact Or.inl hasParts
  · right
    have null : none ∈ report.categories db companyId (report.group tire) := by
      rw [categories, List.mem_map]
      apply Exists.intro tire
      rw [tiresIn, List.mem_filter, decide_eq_true_iff, category_eq_none _ _ hasParts]
      exact ⟨⟨member, rfl⟩, rfl⟩
    have blank : label (report.group tire) = "" := by
      show (if none ∈ report.categories db companyId (report.group tire) then none
        else (report.categories db companyId (report.group tire)).headD none).getD "" = ""
      rw [if_pos null]
      rfl
    have nameless := of_decide_eq_true (named _ has (decide_eq_true blank))
    rw [← nameless, report.nameOf_eq db record]

end PieReport

/-- Both pie reports partition the tires of a company, whichever rows the server chooses, if and
only if each of its tires has its label in both. -/
theorem pieReports_partition_iff (db : Database) (companyId : Option ℕ) :
    (∀ report ∈ [perStoragePieReport, perTiretypePieReport], ∀ choice : Choice,
      report.Partitions db companyId choice) ↔
    ∀ report ∈ [perStoragePieReport, perTiretypePieReport], report.Labelled db companyId := by
  constructor
  · intro partitions report member
    exact (partitions report member PieReport.nullFirst).labelled
  · intro labelled report member choice
    exact (labelled report member).partitions choice

/-- A truck with one tire, whose sensor is not there. -/
def withoutSensor : Database where
  companies := .single ⟨1⟩
  receivers := .empty
  sensors := .empty
  tireTypes := .single ⟨1, "Drive"⟩
  tireLocations := .single ⟨1, .truck, 1, "Truck 7 (Newco)", true⟩
  tires := .single ⟨1, some 9, 1, 1, 1, 1, true⟩
  tireSamples := .empty
  versionAt _ _ := some true

/-- The entries of the tire have no label. -/
theorem pieReports_unlabelled : ¬∀ (db : Database) (companyId : Option ℕ),
    ∀ report ∈ [perStoragePieReport, perTiretypePieReport], ∀ choice : Choice,
      report.Partitions db companyId choice := by
  intro partitions
  have listed := (partitions withoutSensor (some 1) perStoragePieReport List.mem_cons_self
    PieReport.nullFirst).1
  exact absurd listed (by decide)

end FcTpms.Website
