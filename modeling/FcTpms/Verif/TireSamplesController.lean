import FcTpms.Website.TireSamplesController

/-!
# The listing of a user's samples

The listing goes through all tires that are at active trucks of the company, active or not, with
all of their samples. It is right if and only if each of these tires has its sensor, and each of the
samples that should not be there is behind as many newer ones as are listed.
-/

namespace FcTpms.Website

open Relational FcTpms.Search

/-! ## Calls that may raise -/

section Raises

variable {ε α β : Type} {f : α → Except ε β}

/-- If no call raises, there are all results. -/
theorem mapM_eq_ok {g : α → β} {rows : List α} (returns : ∀ row ∈ rows, f row = .ok (g row)) :
    rows.mapM f = .ok (rows.map g) := by
  induction rows with
  | nil => rfl
  | cons row rest ih =>
    rw [List.mapM_cons, returns row List.mem_cons_self,
      ih fun row member => returns row (List.mem_cons_of_mem _ member)]
    rfl

/-- If no call raises, there are results. -/
theorem exists_mapM_eq_ok {rows : List α} (returns : ∀ row ∈ rows, ∃ result, f row = .ok result) :
    ∃ results, rows.mapM f = .ok results := by
  induction rows with
  | nil => exact ⟨[], rfl⟩
  | cons row rest ih =>
    obtain ⟨result, here⟩ := returns row List.mem_cons_self
    obtain ⟨results, later⟩ := ih fun row member => returns row (List.mem_cons_of_mem _ member)
    apply Exists.intro (result :: results)
    rw [List.mapM_cons, here, later]
    rfl

/-- With all results, no call has raised. -/
theorem of_mapM_eq_ok {rows : List α} {results : List β} (returned : rows.mapM f = .ok results) :
    ∀ row ∈ rows, ∃ result, f row = .ok result := by
  induction rows generalizing results with
  | nil =>
    intro row member
    cases member
  | cons first rest ih =>
    rw [List.mapM_cons] at returned
    cases here : f first with
    | error raised =>
      rw [here] at returned
      cases returned
    | ok result =>
      cases later : rest.mapM f with
      | error raised =>
        rw [here, later] at returned
        cases returned
      | ok others =>
        intro row member
        rcases List.mem_cons.mp member with same | member
        · exact ⟨result, same ▸ here⟩
        · exact ih later row member

end Raises

namespace TireSamplesController

variable (db : Database) (currentUser : User)

/-! ## The user's tires and samples -/

/-- The tire is at an active truck of the user's company. -/
def OnTruck (tire : Tire) : Prop :=
  ∃ truck ∈ db.tireLocations.rows, truck.type = .truck ∧ truck.active = true ∧
    currentUser.companyId = some truck.companyId ∧ tire.tireLocationId = truck.id

instance (tire : Tire) : Decidable (OnTruck db currentUser tire) :=
  inferInstanceAs (Decidable (∃ truck ∈ db.tireLocations.rows, _))

/-- The sample is active, of a sensor mounted on an active tire at an active truck of the user's
company. -/
def Own (sample : TireSample) : Prop :=
  sample.active = true ∧ (db.sensors.find sample.sensorId).isSome = true ∧
    ∃ tire ∈ db.tires.rows, tire.active = true ∧ tire.sensorId = some sample.sensorId ∧
      OnTruck db currentUser tire

instance (sample : TireSample) : Decidable (Own db currentUser sample) :=
  inferInstanceAs (Decidable (_ ∧ _ ∧ ∃ tire ∈ db.tires.rows, _))

/-- The tires at active trucks of the company, active or not, each with every sample of its
sensor. -/
def entries : List (Tire × TireSample) :=
  (db.tires.rows ×ˢ db.tireSamples.rows).filter fun entry =>
    OnTruck db currentUser entry.1 ∧ entry.1.sensorId = some entry.2.sensorId

/-- The number of entries that are newer than a sample. -/
def newer (sample : TireSample) : ℕ :=
  (entries db currentUser).countP fun entry => sample.sampleTime < entry.2.sampleTime

variable {db currentUser}

/-- Each truck is listed once. -/
theorem allTrucks_eq : db.allTrucks = db.tireLocations.rows.filter fun location =>
    location.type = .truck ∧ location.active := by
  have single : ∀ location : TireLocation, (db.companies.rows.filter fun company =>
      decide (company.id = location.companyId)).length ≤ 1 := by
    intro location
    rw [db.companies.filter_key]
    exact Option.length_toList_le
  rw [Database.allTrucks, leftJoin_of_single fun location _ => single location, List.map_map]
  exact List.map_id _

/-- The trucks of the user. -/
theorem mem_trucks (ordinary : currentUser.role ≠ .globalAdmin) {truck : TireLocation} :
    truck ∈ trucks db currentUser ↔ truck ∈ db.tireLocations.rows ∧ truck.type = .truck ∧
      truck.active = true ∧ currentUser.companyId = some truck.companyId := by
  rw [trucks, if_neg ordinary, allTrucks_eq, List.mem_filter, List.mem_filter]
  simp [and_assoc]

/-- The tires of the user are those at the trucks. -/
theorem tires_perm (ordinary : currentUser.role ≠ .globalAdmin) :
    (tires db currentUser).Perm (db.tires.rows.filter fun tire => OnTruck db currentUser tire) := by
  have rows : db.tires.rows.Nodup := db.tires.unique.of_map _
  have listed : (tires db currentUser).Nodup := by
    have different : (trucks db currentUser).Pairwise fun truck other => truck.id ≠ other.id := by
      rw [trucks, if_neg ordinary, allTrucks_eq]
      exact ((List.pairwise_map.mp db.tireLocations.unique).filter _).filter _
    rw [tires, List.nodup_flatMap]
    constructor
    · intro truck _
      exact rows.filter _
    · apply different.imp
      intro truck other ids tire here there
      rw [Database.tiresAt, List.mem_filter, decide_eq_true_iff] at here there
      exact ids (here.2.symm.trans there.2)
  rw [List.perm_ext_iff_of_nodup listed (rows.filter _)]
  intro tire
  rw [tires, List.mem_flatMap, List.mem_filter, decide_eq_true_iff]
  constructor
  · intro there
    obtain ⟨truck, isTruck, at_truck⟩ := there
    rw [Database.tiresAt, List.mem_filter, decide_eq_true_iff] at at_truck
    rw [mem_trucks ordinary] at isTruck
    exact ⟨at_truck.1, truck, isTruck.1, isTruck.2.1, isTruck.2.2.1, isTruck.2.2.2, at_truck.2⟩
  · intro there
    obtain ⟨member, truck, located, isTruck, active, company, at_truck⟩ := there
    apply Exists.intro truck
    rw [mem_trucks ordinary, Database.tiresAt, List.mem_filter, decide_eq_true_iff]
    exact ⟨⟨located, isTruck, active, company⟩, member, at_truck⟩

/-! ## What is listed -/

variable (db currentUser) in
/-- The samples of all tires. -/
def fleet : List TireSample :=
  (tires db currentUser).flatMap fun tire =>
    db.tireSamples.rows.filter fun sample => decide (tire.sensorId = some sample.sensorId)

/-- The samples of all tires are those of the entries. -/
theorem fleet_perm (ordinary : currentUser.role ≠ .globalAdmin) :
    (fleet db currentUser).Perm ((entries db currentUser).map Prod.snd) := by
  have split : (fun entry : Tire × TireSample => decide (OnTruck db currentUser entry.1 ∧
      entry.1.sensorId = some entry.2.sensorId)) = fun entry =>
      decide (OnTruck db currentUser entry.1) &&
        decide (entry.1.sensorId = some entry.2.sensorId) := by
    funext entry
    exact Bool.decide_and _ _
  have listed := map_filter_product db.tires.rows db.tireSamples.rows
    (fun tire => decide (OnTruck db currentUser tire))
    (fun tire sample => decide (tire.sensorId = some sample.sensorId))
  rw [← split] at listed
  rw [entries, listed, fleet]
  exact (tires_perm ordinary).flatMap_right _

/-- The samples of a tire that has its sensor. -/
theorem samplesOfTire_eq {tire : Tire} (mounted : (db.sensorOf tire).isSome = true) :
    samplesOfTire db tire = .ok (db.tireSamples.rows.filter fun sample =>
      decide (tire.sensorId = some sample.sensorId)) := by
  obtain ⟨sensor, found⟩ := Option.isSome_iff_exists.mp mounted
  obtain ⟨id, carried, there⟩ := Option.bind_eq_some_iff.mp found
  have same := (db.sensors.find_eq_some.mp there).2
  rw [samplesOfTire, found]
  show Except.ok (db.samplesOfSensor sensor) = _
  rw [Database.samplesOfSensor, carried, same]
  congr 1
  apply List.filter_congr
  intro sample _
  rw [Bool.eq_iff_iff]
  simp [eq_comm]

/-- A tire without its sensor raises. -/
theorem samplesOfTire_error {tire : Tire} (bare : (db.sensorOf tire).isSome = false) :
    samplesOfTire db tire = .error .noMethodError := by
  rw [Option.isSome_eq_false_iff, Option.isNone_iff_eq_none] at bare
  rw [samplesOfTire, bare]

/-- Where all tires have their sensors, the newest of their samples are rendered. -/
theorem tireSamples_eq (mounted : ∀ tire ∈ tires db currentUser, (db.sensorOf tire).isSome = true)
    (newestFirst : NewestFirst TireSample.sampleTime) :
    tireSamples db currentUser newestFirst =
      .ok ((newestFirst.sort (fleet db currentUser)).take maxTireSamples) := by
  rw [tireSamples, mapM_eq_ok fun tire member => samplesOfTire_eq (mounted tire member)]
  show Except.ok ((newestFirst.sort (List.flatten _)).take maxTireSamples) = _
  rw [fleet, List.flatMap_def]

/-- A sample of a tire with its sensor is serialized. -/
theorem serialize_eq_ok {sample : TireSample} {tire : Tire} (member : tire ∈ db.tires.rows)
    (mounted : (db.sensorOf tire).isSome = true) (carried : tire.sensorId = some sample.sensorId) :
    ∃ entry, serialize db sample = .ok entry := by
  rw [Database.sensorOf, carried, Option.bind_some] at mounted
  obtain ⟨sensor, found⟩ := Option.isSome_iff_exists.mp mounted
  have same := (db.sensors.find_eq_some.mp found).2
  have there : (db.tireOfSensor sensor).isSome = true := by
    rw [Database.tireOfSensor, List.find?_isSome]
    exact ⟨tire, member, decide_eq_true (by rw [carried, same])⟩
  obtain ⟨other, carrier⟩ := Option.isSome_iff_exists.mp there
  rw [serialize, found, Option.bind_some, carrier]
  exact ⟨_, rfl⟩

variable (db currentUser)

/-- The listing is rendered, has only the user's samples, the newest first, and leaves none of them
out unless it is full of samples that are as new. -/
def Lists (newestFirst : NewestFirst TireSample.sampleTime) : Prop :=
  ∃ samples serialized, tireSamples db currentUser newestFirst = .ok samples ∧
    index db currentUser newestFirst = .ok serialized ∧
    (∀ sample ∈ samples, Own db currentUser sample) ∧
    (samples.Pairwise fun sample other => other.sampleTime ≤ sample.sampleTime) ∧
    samples.length ≤ maxTireSamples ∧
    ∀ sample ∈ db.tireSamples.rows, Own db currentUser sample → sample ∉ samples →
      samples.length = maxTireSamples ∧ ∀ other ∈ samples, sample.sampleTime ≤ other.sampleTime

/-- Each tire at an active truck has its sensor, and each of its samples that should not be listed
is behind as many newer ones as are listed. -/
def Clean : Prop :=
  (∀ tire ∈ db.tires.rows, OnTruck db currentUser tire → (db.sensorOf tire).isSome = true) ∧
    ∀ entry ∈ entries db currentUser, ¬Own db currentUser entry.2 →
      maxTireSamples ≤ newer db currentUser entry.2

variable {db currentUser}

/-- The samples that are newer are counted among the samples of all tires. -/
theorem newer_eq (ordinary : currentUser.role ≠ .globalAdmin) (sample : TireSample) :
    newer db currentUser sample = (fleet db currentUser).countP fun other =>
      decide (sample.sampleTime < other.sampleTime) := by
  rw [(fleet_perm ordinary).countP_eq, List.countP_map]
  rfl

/-- The samples of all tires are those of the entries. -/
theorem mem_fleet (ordinary : currentUser.role ≠ .globalAdmin) {sample : TireSample} :
    sample ∈ fleet db currentUser ↔ ∃ tire ∈ db.tires.rows, OnTruck db currentUser tire ∧
      tire.sensorId = some sample.sensorId ∧ sample ∈ db.tireSamples.rows := by
  rw [(fleet_perm ordinary).mem_iff, List.mem_map]
  constructor
  · intro there
    obtain ⟨entry, kept, same⟩ := there
    rw [entries, List.mem_filter, decide_eq_true_iff] at kept
    have parts := List.mem_product.mp kept.1
    rw [← same]
    exact ⟨entry.1, parts.1, kept.2.1, kept.2.2, parts.2⟩
  · intro there
    obtain ⟨tire, member, onTruck, carried, stored⟩ := there
    apply Exists.intro (tire, sample)
    rw [entries, List.mem_filter, decide_eq_true_iff]
    exact ⟨⟨List.mem_product.mpr ⟨member, stored⟩, onTruck, carried⟩, rfl⟩

/-- A clean database has the listing. -/
theorem Clean.lists (ordinary : currentUser.role ≠ .globalAdmin) (clean : Clean db currentUser)
    (newestFirst : NewestFirst TireSample.sampleTime) : Lists db currentUser newestFirst := by
  have mounted : ∀ tire ∈ tires db currentUser, (db.sensorOf tire).isSome = true := by
    intro tire member
    rw [(tires_perm ordinary).mem_iff, List.mem_filter, decide_eq_true_iff] at member
    exact clean.1 tire member.1 member.2
  have rendered := tireSamples_eq mounted newestFirst
  let samples := (newestFirst.sort (fleet db currentUser)).take maxTireSamples
  have among : ∀ sample ∈ samples, sample ∈ fleet db currentUser := fun sample listed =>
    (newestFirst.perm _).mem_iff.mp (List.mem_of_mem_take listed)
  have serialized : ∃ results, samples.mapM (serialize db) = .ok results := by
    apply exists_mapM_eq_ok
    intro sample listed
    obtain ⟨tire, member, onTruck, carried, -⟩ := (mem_fleet ordinary).mp (among sample listed)
    exact serialize_eq_ok member (clean.1 tire member onTruck) carried
  obtain ⟨results, written⟩ := serialized
  refine ⟨samples, results, rendered, ?_, ?_, ?_, ?_, ?_⟩
  · rw [index, rendered]
    exact written
  · intro sample listed
    by_contra foreign
    obtain ⟨tire, member, onTruck, carried, stored⟩ := (mem_fleet ordinary).mp (among sample listed)
    have entry : (tire, sample) ∈ entries db currentUser := by
      rw [entries, List.mem_filter, decide_eq_true_iff]
      exact ⟨List.mem_product.mpr ⟨member, stored⟩, onTruck, carried⟩
    have behind := clean.2 _ entry foreign
    rw [newer_eq ordinary] at behind
    exact newestFirst.not_mem_take behind listed
  · exact (newestFirst.ordered _).sublist (List.take_sublist _ _)
  · exact List.length_take_le _ _
  · intro sample stored own omitted
    obtain ⟨-, -, tire, member, -, carried, onTruck⟩ := own
    have there := (mem_fleet ordinary).mpr ⟨tire, member, onTruck, carried, stored⟩
    exact newestFirst.of_not_mem_take there omitted

/-- A database that has the listing, whatever the sort, is clean. -/
theorem Clean.of_lists (ordinary : currentUser.role ≠ .globalAdmin)
    (lists : ∀ newestFirst, Lists db currentUser newestFirst) : Clean db currentUser := by
  have mounted : ∀ tire ∈ tires db currentUser, (db.sensorOf tire).isSome = true := by
    intro tire member
    obtain ⟨samples, _, rendered, _⟩ := lists (.preferring _ ⟨0, 0, 0, 0, none, 0, true⟩)
    cases collected : (tires db currentUser).mapM (samplesOfTire db) with
    | error raised =>
      rw [tireSamples, collected] at rendered
      cases rendered
    | ok results =>
      obtain ⟨result, returned⟩ := of_mapM_eq_ok collected tire member
      by_contra bare
      rw [samplesOfTire_error (Bool.eq_false_iff.mpr bare)] at returned
      cases returned
  constructor
  · intro tire member onTruck
    apply mounted tire
    rw [(tires_perm ordinary).mem_iff, List.mem_filter, decide_eq_true_iff]
    exact ⟨member, onTruck⟩
  · intro entry kept foreign
    by_contra few
    rw [newer_eq ordinary] at few
    rw [entries, List.mem_filter, decide_eq_true_iff] at kept
    have parts := List.mem_product.mp kept.1
    have there := (mem_fleet ordinary).mpr ⟨entry.1, parts.1, kept.2.1, kept.2.2, parts.2⟩
    have listed := NewestFirst.mem_take_preferring TireSample.sampleTime entry.2 there
      (Nat.lt_of_not_le few)
    obtain ⟨samples, _, rendered, _, owned, _⟩ := lists (.preferring _ entry.2)
    rw [tireSamples_eq mounted] at rendered
    rw [← Except.ok.inj rendered] at owned
    exact foreign (owned _ listed)

/-- The listing of an ordinary user is right, whatever the sort, if and only if the database is
clean. -/
theorem lists_iff (db : Database) (currentUser : User)
    (ordinary : currentUser.role ≠ .globalAdmin) :
    (∀ newestFirst, Lists db currentUser newestFirst) ↔ Clean db currentUser := by
  constructor
  · exact Clean.of_lists ordinary
  · exact Clean.lists ordinary

/-- The samples of four sensors in turn, two of the same time each; the first one is deactivated. -/
def sampleInTurn (id : ℕ) : TireSample :=
  ⟨id, id % 4 + 1, 1, 32, none, id / 2, decide (id ≠ 0)⟩

/-- A truck with two tires and one with one tire, a truck of another company, a company without a
truck, and a sensor and twenty samples for each tire. -/
def threeTrucks : Database where
  companies := ⟨[⟨1⟩, ⟨2⟩, ⟨3⟩], by decide⟩
  receivers := .single ⟨1⟩
  sensors := ⟨[⟨1, "TRW", "A1"⟩, ⟨2, "TRW", "A2"⟩, ⟨3, "TRW", "A3"⟩, ⟨4, "TRW", "A4"⟩], by decide⟩
  tireTypes := .single ⟨1, "Drive"⟩
  tireLocations := ⟨[⟨1, .truck, 1, "Truck 7 (Newco)", true⟩,
    ⟨2, .truck, 1, "Truck 8 (Newco)", true⟩, ⟨3, .truck, 2, "Truck 1", true⟩], by decide⟩
  tires := ⟨[⟨1, some 1, 1, 1, 1, 1, true⟩, ⟨2, some 2, 1, 1, 1, 1, true⟩,
    ⟨3, some 3, 1, 1, 1, 2, true⟩, ⟨4, some 4, 1, 2, 2, 3, true⟩], by decide⟩
  tireSamples := ⟨(List.range 80).map sampleInTurn, by
    rw [List.map_map]
    exact List.nodup_range.map fun _ _ same => same⟩
  versionAt _ _ := some true

/-- The active samples are listed: the deactivated one is behind more than fifty newer ones. -/
theorem lists_active :
    Lists threeTrucks ⟨.basicUser, some 1⟩ (.preferring _ (sampleInTurn 0)) :=
  (lists_iff threeTrucks ⟨.basicUser, some 1⟩ (by decide)).mpr
    ⟨by decide, by decide +kernel⟩ _

/-- A truck with one tire and its sensor, and a deactivated sample. -/
def oneTruck : Database where
  companies := .single ⟨1⟩
  receivers := .single ⟨1⟩
  sensors := .single ⟨1, "TRW", "A1"⟩
  tireTypes := .single ⟨1, "Drive"⟩
  tireLocations := .single ⟨1, .truck, 1, "Truck 7 (Newco)", true⟩
  tires := .single ⟨1, some 1, 1, 1, 1, 1, true⟩
  tireSamples := .single ⟨1, 1, 1, 32, none, 0, false⟩
  versionAt _ _ := some true

/-- The deactivated sample of one truck is listed, too. -/
theorem lists_deactivated : ¬∀ (db : Database) (currentUser : User),
    currentUser.role ≠ .globalAdmin → ∀ newestFirst, Lists db currentUser newestFirst := by
  intro lists
  have clean := Clean.of_lists (by decide)
    (lists oneTruck ⟨.basicUser, some 1⟩ (by decide))
  exact absurd clean.2 (by decide)

end TireSamplesController

end FcTpms.Website
