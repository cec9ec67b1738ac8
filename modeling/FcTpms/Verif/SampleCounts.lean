import FcTpms.Website.SampleCountReports

/-!
# How often a sample is counted

Both reports count the rows of one left join. A sample has a row for each tire that its sensor has
been mounted on (`Database.fits`), so its count is exact on days where the rows beyond the first
make up for the rows that are missing, and where no record is missing only if no sensor has been
mounted on two tires.
-/

namespace FcTpms.Website

open Relational

namespace Database

variable (db : Database) (companyId : Option ℕ)

/-! ## What is to be counted -/

/-- The tire is used by the company, if there is one. -/
def usedBy (tire : Tire) : Bool := companyId.all fun companyId => tire.usingCompanyId = companyId

/-- The tire has the sensor of the sample and is used by the company. -/
def carries (sample : TireSample) (tire : Tire) : Bool :=
  tire.sensorId = some sample.sensorId ∧ usedBy companyId tire

/-- The sample is of a sensor mounted on a tire used by the company, if there is one. -/
def counts (sample : TireSample) : Bool :=
  companyId.isNone ∨
    (db.sensors.find sample.sensorId).isSome ∧ ∃ tire ∈ db.tires.rows, carries companyId sample tire

/-- The active samples of a day. -/
def samplesOf (day : ℤ) : List TireSample :=
  db.tireSamples.rows.filter fun sample => sample.active ∧ sample.date = day

/-- The number of distinct active samples of a day, of the company if there is one. -/
def distinctSamples (day : ℤ) : ℕ := (db.samplesOf day).countP (db.counts companyId)

/-! ## What is counted -/

/-- The records of the sensor and the receiver are there. -/
def complete (sample : TireSample) : Bool :=
  (db.sensors.find sample.sensorId).isSome ∧ (db.receivers.find sample.receiverId).isSome

/-- The number of tires that the sensor of a sample has been mounted on. -/
def fits (sample : TireSample) : ℕ :=
  if db.complete sample then db.tires.rows.countP (carries companyId sample) else 0

/-- The rows of a sample. -/
def rowsOf (sample : TireSample) : ℕ :=
  if companyId.isNone then max 1 (db.fits companyId sample) else db.fits companyId sample

/-- The sample is to be counted for a company, and the record of its receiver is not there. -/
def missed (sample : TireSample) : Bool :=
  companyId.isSome ∧ db.counts companyId sample ∧ (db.receivers.find sample.receiverId).isNone

/-- The rows of a day beyond the first of each sample. -/
def surplus (day : ℤ) : ℕ :=
  ((db.samplesOf day).map fun sample => db.fits companyId sample - 1).sum

/-- The samples of a day that have no row. -/
def missing (day : ℤ) : ℕ := (db.samplesOf day).countP (db.missed companyId)

/-- A sample has rows only for tires that make it one to be counted. -/
theorem counts_of_fits {sample : TireSample} (fit : 0 < db.fits companyId sample) :
    db.counts companyId sample = true := by
  rw [fits] at fit
  split at fit
  · next complete =>
    have both := of_decide_eq_true complete
    have mounted := List.countP_pos_iff.mp fit
    exact decide_eq_true (Or.inr ⟨both.1, mounted⟩)
  · omega

/-- A sample to be counted, with all records there, has rows. -/
theorem fits_of_counts {sample : TireSample} {company : ℕ}
    (counted : db.counts (some company) sample = true) :
    db.fits (some company) sample = 0 ↔ (db.receivers.find sample.receiverId).isNone := by
  have mounted : (db.sensors.find sample.sensorId).isSome ∧
      ∃ tire ∈ db.tires.rows, carries (some company) sample tire = true := by
    simpa [counts] using counted
  have some_tire := List.countP_pos_iff.mpr mounted.2
  cases receiver : db.receivers.find sample.receiverId with
  | none => simp [fits, complete, receiver]
  | some found =>
    simp only [fits, complete, receiver, mounted.1, Option.isSome_some, and_self, decide_true,
      if_true, Option.isNone_some, Bool.false_eq_true, iff_false]
    omega

/-- The rows of a sample are one if it is to be counted, and the surplus, without the one that may
be missing. -/
theorem rowsOf_eq (sample : TireSample) :
    db.rowsOf companyId sample + (if db.missed companyId sample then 1 else 0) =
      (if db.counts companyId sample then 1 else 0) + (db.fits companyId sample - 1) := by
  cases companyId with
  | none =>
    have counted : db.counts none sample = true := by simp [counts]
    have kept : db.missed none sample = false := by simp [missed]
    rw [counted, kept, rowsOf]
    simp only [Option.isNone_none, if_true, Bool.false_eq_true, if_false]
    omega
  | some company =>
    have rows : db.rowsOf (some company) sample = db.fits (some company) sample := by simp [rowsOf]
    rw [rows]
    cases counted : db.counts (some company) sample with
    | false =>
      have none_fits : ¬0 < db.fits (some company) sample := fun fit => by
        rw [db.counts_of_fits (some company) fit] at counted
        cases counted
      have kept : db.missed (some company) sample = false := by simp [missed, counted]
      rw [kept]
      simp only [Bool.false_eq_true, if_false]
      omega
    | true =>
      have received := db.fits_of_counts counted
      have absent : db.missed (some company) sample =
          (db.receivers.find sample.receiverId).isNone := by
        rw [missed, counted]
        simp only [Option.isSome_some, true_and, Bool.decide_eq_true]
      rw [absent]
      by_cases gone : (db.receivers.find sample.receiverId).isNone = true
      · have none_fits := received.mpr gone
        rw [gone, none_fits]
        simp
      · have some_fits : db.fits (some company) sample ≠ 0 := fun fit => gone (received.mp fit)
        rw [if_neg gone]
        simp only [if_true]
        omega

/-! ## Rows -/

/-- What the join finds for a sample. -/
theorem filter_sampleJoin (sample : TireSample) :
    (db.tires.rows ×ˢ db.sensors.rows ×ˢ db.receivers.rows).filter (sampleJoin sample) =
      (db.tires.rows.filter (carries none sample)) ×ˢ
        (db.sensors.find sample.sensorId).toList ×ˢ
          (db.receivers.find sample.receiverId).toList := by
  have parts : sampleJoin sample = fun joined : Tire × Sensor × Receiver =>
      carries none sample joined.1 && (decide (joined.2.1.id = sample.sensorId) &&
        decide (joined.2.2.id = sample.receiverId)) := by
    funext joined
    rw [Bool.eq_iff_iff]
    simp [sampleJoin, carries, usedBy, and_comm, and_left_comm, and_assoc]
  have pairs := filter_product db.sensors.rows db.receivers.rows
    (fun sensor => decide (sensor.id = sample.sensorId))
    (fun receiver => decide (receiver.id = sample.receiverId))
  have triples := filter_product db.tires.rows (db.sensors.rows ×ˢ db.receivers.rows)
    (carries none sample)
    (fun pair => decide (pair.1.id = sample.sensorId) && decide (pair.2.id = sample.receiverId))
  rw [parts, triples, pairs, db.sensors.filter_key, db.receivers.filter_key]

/-- The rows of the join for a sample are those of its tires. -/
theorem countP_sampleJoin (sample : TireSample) (p : Tire → Bool) :
    ((db.tires.rows ×ˢ db.sensors.rows ×ˢ db.receivers.rows).filter (sampleJoin sample)).countP
        (fun joined => p joined.1) =
      if db.complete sample then (db.tires.rows.filter (carries none sample)).countP p else 0 := by
  rw [db.filter_sampleJoin, countP_product, List.length_product, complete]
  cases db.sensors.find sample.sensorId with
  | none => simp
  | some sensor =>
    cases db.receivers.find sample.receiverId with
    | none => simp
    | some receiver => simp

/-- The rows of the join for a sample, of the company if there is one. -/
theorem countP_partners (sample : TireSample) :
    (partners (db.tires.rows ×ˢ db.sensors.rows ×ˢ db.receivers.rows) sampleJoin sample).countP
        (fun joined => companyId.all fun company => sampleCompany company (sample, joined)) =
      db.rowsOf companyId sample := by
  cases companyId with
  | none =>
    have fits : db.fits none sample = ((db.tires.rows ×ˢ db.sensors.rows ×ˢ
        db.receivers.rows).filter (sampleJoin sample)).length := by
      have every := db.countP_sampleJoin sample fun _ => true
      rw [List.countP_true, List.countP_true] at every
      rw [every, Database.fits, List.countP_eq_length_filter]
    simp only [Option.all_none, List.countP_true, partners_length, rowsOf, Option.isNone_none,
      if_true, fits]
  | some company =>
    have noNull : (fun joined => (some company).all fun company =>
        sampleCompany company (sample, joined)) none = false := rfl
    have joins := db.countP_sampleJoin sample (usedBy (some company))
    have both : (db.tires.rows.filter (carries none sample)).countP (usedBy (some company)) =
        db.tires.rows.countP (carries (some company) sample) := by
      rw [List.countP_filter]
      apply List.countP_congr
      intro tire _
      simp [carries, usedBy, and_comm]
    rw [both] at joins
    rw [partners_countP noNull, rowsOf, Database.fits, ← joins]
    rfl

/-- The rows of a day are those of its samples. -/
theorem countP_samples (day : ℤ) :
    (db.samples companyId).countP (fun row => decide (row.1.date = day)) =
      ((db.samplesOf day).map (db.rowsOf companyId)).sum := by
  have restricted : db.samples companyId = db.allSamples.filter fun row =>
      companyId.all fun company => sampleCompany company row := by
    cases companyId with
    | none => exact (List.filter_eq_self.mpr fun _ _ => rfl).symm
    | some company => rfl
  have twice : db.samplesOf day = (db.tireSamples.rows.filter TireSample.active).filter
      fun sample => decide (sample.date = day) := by
    rw [List.filter_filter, samplesOf]
    exact List.filter_congr fun sample _ => by rw [Bool.eq_iff_iff]; simp [and_comm]
  rw [restricted, List.countP_filter, allSamples, countP_leftJoin, twice,
    sum_map_filter (fun sample : TireSample => decide (sample.date = day))]
  congr 1
  apply List.map_congr_left
  intro sample _
  by_cases here : sample.date = day
  · simp only [here, decide_true, Bool.true_and, if_true]
    exact db.countP_partners companyId sample
  · simp [here]

/-- The rows of a day are its distinct samples and the surplus, without those that are missing. -/
theorem countP_samples_eq (day : ℤ) :
    (db.samples companyId).countP (fun row => decide (row.1.date = day)) +
        db.missing companyId day =
      db.distinctSamples companyId day + db.surplus companyId day := by
  rw [countP_samples, missing, distinctSamples, surplus, countP_eq_sum, countP_eq_sum,
    ← List.sum_map_add, ← List.sum_map_add]
  congr 1
  apply List.map_congr_left
  intro sample _
  exact db.rowsOf_eq companyId sample

/-- The rows of a day are as many as its distinct samples just when the surplus makes up for the
samples that are missing. -/
theorem countP_samples_eq_iff (day : ℤ) :
    (db.samples companyId).countP (fun row => decide (row.1.date = day)) =
        db.distinctSamples companyId day ↔
      db.surplus companyId day = db.missing companyId day := by
  have sums := db.countP_samples_eq companyId day
  omega

end Database

/-! ## Samples per day -/

namespace TireSampleCountReport

variable (db : Database) (companyId : Option ℕ) (startService endService : ℤ)

/-- The days that the database has rows for. -/
theorem samples_days : (samples db companyId startService endService).map Prod.fst =
    (((db.samples companyId).filter fun row => decide (row.1.date ≤ endService ∧
      startService ≤ row.1.date)).map fun row => row.1.date).dedup := by
  rw [samples, List.map_map, ← groupBy_values]
  rfl

/-- A day that the database has rows for is in the range. -/
theorem mem_samples_days {day : ℤ} :
    day ∈ (samples db companyId startService endService).map Prod.fst ↔
      day ∈ days startService endService ∧ ∃ row ∈ db.samples companyId, row.1.date = day := by
  rw [samples_days, List.mem_dedup, mem_days, List.mem_map]
  constructor
  · intro listed
    obtain ⟨row, kept, same⟩ := listed
    rw [List.mem_filter] at kept
    have between := of_decide_eq_true kept.2
    rw [same] at between
    exact ⟨⟨between.2, between.1⟩, row, kept.1, same⟩
  · intro both
    obtain ⟨between, row, member, same⟩ := both
    apply Exists.intro row
    rw [List.mem_filter, same]
    exact ⟨⟨member, decide_eq_true ⟨between.2, between.1⟩⟩, rfl⟩

/-- The database counts the rows of a day. -/
theorem samples_count {row : ℤ × Count}
    (listed : row ∈ samples db companyId startService endService) :
    row.2 = .integer ((db.samples companyId).countP fun joined =>
      decide (joined.1.date = row.1)) := by
  have among : row.1 ∈ (samples db companyId startService endService).map Prod.fst :=
    List.mem_map_of_mem listed
  have between := mem_days.mp ((mem_samples_days ..).mp among).1
  obtain ⟨group, member, same⟩ := List.mem_map.mp listed
  have contents := ((mem_groupBy ..).mp member).2
  rw [← same] at between ⊢
  show Count.integer group.2.length = _
  rw [contents, ← List.countP_eq_length_filter, List.countP_filter]
  apply congrArg Count.integer
  apply List.countP_congr
  intro joined _
  simp only [Bool.and_eq_true, decide_eq_true_iff]
  constructor
  · intro both
    exact both.1
  · intro date
    rw [date]
    exact ⟨rfl, between.2, between.1⟩

/-- The days of the rows, sorted, are those of the range. -/
theorem sampleRows_days :
    (sampleRows db companyId startService endService).map Prod.fst =
      days startService endService := by
  apply map_mergeSort (days_ascending startService endService)
  rw [List.map_append, List.map_map]
  let counted := (samples db companyId startService endService).map Prod.fst
  have filled : ((days startService endService).filter fun day => decide (day ∉ counted)).map
      (Prod.fst ∘ fun dt => (dt, Count.zero)) =
      (days startService endService).filter fun day => decide (day ∉ counted) := List.map_id _
  have different : (days startService endService).Nodup :=
    (days_ascending startService endService).imp ne_of_lt
  have once : counted.Nodup := by
    show ((samples db companyId startService endService).map Prod.fst).Nodup
    rw [samples_days]
    exact List.nodup_dedup _
  rw [filled, List.perm_ext_iff_of_nodup _ different]
  · intro day
    have inRange : day ∈ counted → day ∈ days startService endService :=
      fun listed => ((mem_samples_days ..).mp listed).1
    rw [List.mem_append, List.mem_filter, decide_eq_true_iff]
    tauto
  · rw [List.nodup_append]
    refine ⟨once, different.filter _, ?_⟩
    intro day listed other kept same
    rw [List.mem_filter, decide_eq_true_iff, ← same] at kept
    exact kept.2 listed

/-- A count as it comes into the report: no row of the database has the count zero. -/
def Count.shown (count : ℕ) : Count := if count = 0 then .zero else .integer count

theorem Count.number_shown (count : ℕ) : (shown count).number = count := by
  unfold shown
  split
  · rename_i none
    rw [none]
    rfl
  · rfl

/-- The report has a row for each day, in order, with the number of the rows of that day. -/
theorem sampleRows_shown : sampleRows db companyId startService endService =
    (days startService endService).map fun day =>
      (day, .shown ((db.samples companyId).countP fun joined => decide (joined.1.date = day))) := by
  rw [← sampleRows_days db companyId, List.map_map]
  conv_lhs => rw [← List.map_id (sampleRows db companyId startService endService)]
  apply List.map_congr_left
  intro row listed
  have among : row ∈ samples db companyId startService endService ++
      ((days startService endService).filter fun day =>
        decide (day ∉ (samples db companyId startService endService).map Prod.fst)).map
          fun dt => (dt, Count.zero) := (List.mergeSort_perm ..).mem_iff.mp listed
  rcases List.mem_append.mp among with counted | filled
  · have count := samples_count db companyId startService endService counted
    have some :
        (db.samples companyId).countP (fun joined => decide (joined.1.date = row.1)) ≠ 0 := by
      obtain ⟨-, joined, member, date⟩ := (mem_samples_days ..).mp (List.mem_map_of_mem counted)
      exact (List.countP_pos_iff.mpr ⟨joined, member, decide_eq_true date⟩).ne'
    show (row.1, row.2) = (row.1, _)
    rw [count, Count.shown, if_neg some]
  · obtain ⟨day, kept, same⟩ := List.mem_map.mp filled
    rw [List.mem_filter, decide_eq_true_iff, mem_samples_days] at kept
    have nothing :
        (db.samples companyId).countP (fun joined => decide (joined.1.date = day)) = 0 := by
      rw [List.countP_eq_zero]
      intro joined member date
      exact kept.2 ⟨kept.1, joined, member, of_decide_eq_true date⟩
    rw [← same]
    show (day, Count.zero) = (day, Count.shown _)
    rw [nothing, Count.shown, if_pos rfl]

end TireSampleCountReport

/-! ## Exact counts -/

section Exact

variable (db : Database) (companyId : Option ℕ) (startService endService : ℤ)

/-- Both reports have the number of the distinct samples of each day. -/
def CountsExact : Prop :=
  ((TireSampleCountReport.sampleRows db companyId startService endService).map
      fun row => (row.1, row.2.number)) =
    ((days startService endService).map fun day => (day, db.distinctSamples companyId day)) ∧
  PerTireSampleCountReport.numSamples db companyId startService endService =
    (days startService endService).map (db.distinctSamples companyId)

/-- The counts are exact if and only if on each day the rows beyond the first of each sample are as
many as the samples that have none. -/
theorem countsExact_iff : CountsExact db companyId startService endService ↔
    ∀ day ∈ days startService endService, db.surplus companyId day = db.missing companyId day := by
  rw [CountsExact, TireSampleCountReport.sampleRows_shown, List.map_map,
    PerTireSampleCountReport.numSamples, List.map_inj_left, List.map_inj_left]
  simp only [Function.comp_apply, TireSampleCountReport.Count.number_shown]
  constructor
  · intro exact day inRange
    exact (db.countP_samples_eq_iff companyId day).mp (exact.2 day inRange)
  · intro balanced
    have counts : ∀ day ∈ days startService endService,
        (db.samples companyId).countP (fun row => decide (row.1.date = day)) =
          db.distinctSamples companyId day :=
      fun day inRange => (db.countP_samples_eq_iff companyId day).mpr (balanced day inRange)
    constructor
    · intro day inRange
      rw [counts day inRange]
    · exact counts

/-- What the charts show if the counts are exact: for each day of the range its distinct samples,
`0.0` if there are none, and the samples for each tire in service. -/
theorem CountsExact.serialData {db : Database} {companyId : Option ℕ} {startService endService : ℤ}
    (exact : CountsExact db companyId startService endService) (toS : ToS) :
    TireSampleCountReport.serialData toS db companyId startService endService =
        chartText ((days startService endService).map fun day =>
          recordText ["\"sample_time\" : \"" ++ toS.date day ++ "\"",
            "\"tire_sample_count_report\" : " ++ if db.distinctSamples companyId day = 0
              then toS.float 0 else toString (db.distinctSamples companyId day)]) ∧
      PerTireSampleCountReport.serialData toS db companyId startService endService =
        chartText ((days startService endService).map fun day =>
          recordText ["\"per_tire_sample_count_report\" : " ++
              toS.float (PerTireSampleCountReport.ratio
                (db.tires.rows.countP fun tire =>
                  db.versionAt tire.id (atMidday day) = some true)
                (db.distinctSamples companyId day)),
            "\"sample_time\" : \"" ++ toS.date day ++ "\""]) := by
  have counts : ∀ day ∈ days startService endService, (db.samples companyId).countP
      (fun row => decide (row.1.date = day)) = db.distinctSamples companyId day :=
    List.map_inj_left.mp exact.2
  constructor
  · rw [TireSampleCountReport.serialData, TireSampleCountReport.sampleRows_shown, List.map_map]
    congr 1
    apply List.map_congr_left
    intro day inRange
    rw [Function.comp_apply, counts day inRange, TireSampleCountReport.rowText,
      TireSampleCountReport.Count.shown]
    split
    · rfl
    · rfl
  · rw [PerTireSampleCountReport.serialData, PerTireSampleCountReport.values, exact.2,
      PerTireSampleCountReport.numTires, List.zipWith_map, List.zipWith_self,
      List.zipWith_map_right, List.zipWith_self]

/-- Where no record is missing, the surplus is balanced if and only if no sample is of a sensor that
has been mounted on two tires. -/
theorem surplus_eq_missing_iff (whole : ∀ sample ∈ db.tireSamples.rows, db.complete sample = true)
    (day : ℤ) : db.surplus companyId day = db.missing companyId day ↔
      ∀ sample ∈ db.samplesOf day, db.fits companyId sample ≤ 1 := by
  have kept : db.missing companyId day = 0 := by
    rw [Database.missing, List.countP_eq_zero]
    intro sample member missed
    have received := (of_decide_eq_true (whole sample (List.mem_of_mem_filter member))).2
    have gone := (of_decide_eq_true missed).2.2
    rw [Option.isNone_iff_eq_none] at gone
    rw [gone] at received
    cases received
  rw [kept, Database.surplus, List.sum_eq_zero_iff_forall_eq_nat]
  simp only [List.mem_map, forall_exists_index, and_imp, forall_apply_eq_imp_iff₂,
    Nat.sub_eq_zero_iff_le]

end Exact

/-- A sensor has been moved from a tire to another one of the same company. -/
def movedSensor : Database where
  companies := .single ⟨1⟩
  receivers := .single ⟨1⟩
  sensors := .single ⟨1, "TRW", "A1"⟩
  tireTypes := .single ⟨1, "Drive"⟩
  tireLocations := .single ⟨1, .truck, 1, "Truck 7 (Newco)", true⟩
  tires := ⟨[⟨1, some 1, 1, 1, 1, 1, false⟩, ⟨2, some 1, 1, 1, 1, 1, true⟩], by decide⟩
  tireSamples := .single ⟨1, 1, 1, 32, none, 0, true⟩
  versionAt _ _ := some true

/-- A single sample of the sensor is counted twice. -/
theorem countsExact_moved : ¬∀ (db : Database) (companyId : Option ℕ) (startService endService : ℤ),
    CountsExact db companyId startService endService := by
  intro exact
  have counts := (exact movedSensor (some 1) 0 0).2
  exact absurd counts (by decide)

end FcTpms.Website
