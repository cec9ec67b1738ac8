import FcTpms.Verif.SampleCounts
import Mathlib.Algebra.Order.Field.Basic
import Mathlib.Algebra.Order.Ring.Rat
import Mathlib.Tactic.FieldSimp
import Mathlib.Tactic.Ring

/-!
# Samples per tire

The report divides the samples of a company by the tires of all companies. The quotient is still
right where the samples that are counted too often and the tires of the others are in proportion;
and the records of other companies change it unless there is nothing to divide.
-/

namespace FcTpms.Website

open Relational Database PerTireSampleCountReport

/-! ## Quotients -/

/-- Division by zero gives zero, too. -/
theorem ratio_eq (tires samples : ℕ) : ratio tires samples = samples * (tires : ℚ)⁻¹ := by
  rw [ratio]
  split
  · next nothing => simp [nothing]
  · exact div_eq_mul_inv _ _

/-- Two quotients, the second one of a part of the divisor. -/
theorem ratio_add_eq_iff (own others rows samples : ℕ) :
    ratio (own + others) rows = ratio own samples ↔
      if own = 0 then others = 0 ∨ rows = 0 else rows * own = samples * (own + others) := by
  by_cases nothing : own = 0
  · rw [if_pos nothing, nothing, Nat.zero_add, ratio_eq, ratio_eq]
    simp [or_comm]
  · rw [if_neg nothing, ratio, ratio, if_neg (by omega), if_neg nothing]
    have positive : (own : ℚ) ≠ 0 := by exact_mod_cast nothing
    have sum : ((own + others : ℕ) : ℚ) ≠ 0 := by
      exact_mod_cast (show own + others ≠ 0 by omega)
    rw [div_eq_div_iff sum positive]
    exact_mod_cast Iff.rfl

/-- The same number of samples, with two divisors. -/
theorem ratio_eq_ratio_iff (tires others rows : ℕ) :
    ratio tires rows = ratio others rows ↔ rows = 0 ∨ tires = others := by
  rw [ratio_eq, ratio_eq, mul_eq_mul_left_iff, inv_inj, Nat.cast_inj, Nat.cast_eq_zero, or_comm]

section Values

variable (db : Database) (company : ℕ) (startService endService : ℤ)

/-! ## The values of the report -/

/-- The number of tires used by the company that were active at midday of a day. -/
def ownTires (day : ℤ) : ℕ := db.tires.rows.countP fun tire =>
  tire.usingCompanyId = company ∧ db.versionAt tire.id (atMidday day) = some true

/-- The number of tires used by other companies that were active at midday of a day. -/
def otherTires (day : ℤ) : ℕ := db.tires.rows.countP fun tire =>
  tire.usingCompanyId ≠ company ∧ db.versionAt tire.id (atMidday day) = some true

/-- The rows of the samples of a day. -/
def rowsOn (day : ℤ) : ℕ := ((db.samplesOf day).map (db.fits (some company))).sum

/-- The tires of all companies. -/
theorem countP_versions (day : ℤ) :
    db.tires.rows.countP (fun tire => decide (db.versionAt tire.id (atMidday day) = some true)) =
      ownTires db company day + otherTires db company day := by
  rw [ownTires, otherTires, countP_eq_sum, countP_eq_sum, countP_eq_sum, ← List.sum_map_add]
  congr 1
  apply List.map_congr_left
  intro tire _
  by_cases used : tire.usingCompanyId = company
  · simp [used]
  · simp [used]

/-- The rows of the join for a day. -/
theorem countP_samples_company (day : ℤ) :
    (db.samples (some company)).countP (fun row => decide (row.1.date = day)) =
      rowsOn db company day := by
  rw [db.countP_samples (some company)]
  rfl

/-- The report divides the rows by the tires of all companies. -/
theorem values_eq : values db (some company) startService endService =
    (days startService endService).map fun day =>
      ratio (ownTires db company day + otherTires db company day) (rowsOn db company day) := by
  rw [values, numTires, numSamples, List.zipWith_map, List.zipWith_self]
  apply List.map_congr_left
  intro day _
  rw [countP_versions db company, countP_samples_company]

/-! ## One population -/

/-- The samples of a day that are counted once too often and the tires of other companies are in
proportion. -/
def InProportion (day : ℤ) : Prop :=
  if ownTires db company day = 0 then
    otherTires db company day = 0 ∨ rowsOn db company day = 0
  else
    db.surplus (some company) day * ownTires db company day =
      db.missing (some company) day * ownTires db company day +
        db.distinctSamples (some company) day * otherTires db company day

/-- Each value is the number of distinct samples of the company for each of its tires. -/
def ValuesExact : Prop :=
  values db (some company) startService endService =
    (days startService endService).map fun day =>
      ratio (ownTires db company day) (db.distinctSamples (some company) day)

/-- The values are exact if and only if surplus and others are in proportion on each day. -/
theorem valuesExact_iff : ValuesExact db company startService endService ↔
    ∀ day ∈ days startService endService, InProportion db company day := by
  rw [ValuesExact, values_eq, List.map_inj_left]
  apply forall₂_congr
  intro day _
  rw [ratio_add_eq_iff, InProportion]
  have rows := db.countP_samples_eq (some company) day
  rw [countP_samples_company] at rows
  by_cases nothing : ownTires db company day = 0
  · rw [if_pos nothing, if_pos nothing]
  · rw [if_neg nothing, if_neg nothing]
    have products := congrArg (· * ownTires db company day) rows
    simp only [add_mul] at products
    rw [mul_add]
    omega

end Values

/-! ## Records of other companies -/

/-- Two databases have the same records of a company: the tires that it uses, with their versions,
and the samples of the sensors mounted on them. -/
structure AgreeFor (company : ℕ) (db other : Database) : Prop where
  tires : db.tires.rows.filter (usedBy (some company)) =
    other.tires.rows.filter (usedBy (some company))
  versions : ∀ tire ∈ db.tires.rows, tire.usingCompanyId = company → ∀ time,
    db.versionAt tire.id time = other.versionAt tire.id time
  samples : db.tireSamples.rows.filter (db.counts (some company)) =
    other.tireSamples.rows.filter (other.counts (some company))
  complete : ∀ sample ∈ db.tireSamples.rows, db.counts (some company) sample = true →
    db.complete sample = other.complete sample

namespace AgreeFor

variable {company : ℕ} {db other : Database} (agree : AgreeFor company db other)

/-- The tires used by the company that were active are among those that it uses. -/
theorem ownTires_eq_filter (db : Database) (company : ℕ) (day : ℤ) :
    ownTires db company day = (db.tires.rows.filter (usedBy (some company))).countP fun tire =>
      decide (db.versionAt tire.id (atMidday day) = some true) := by
  rw [ownTires, List.countP_filter]
  apply List.countP_congr
  intro tire _
  simp [usedBy, and_comm]

include agree in
/-- The company has the same active tires. -/
theorem ownTires_eq (day : ℤ) : ownTires db company day = ownTires other company day := by
  rw [ownTires_eq_filter, ownTires_eq_filter, ← agree.tires]
  apply List.countP_congr
  intro tire member
  rw [List.mem_filter] at member
  have used : tire.usingCompanyId = company := by simpa [usedBy] using member.2
  rw [agree.versions tire member.1 used]

/-- The tires with the sensor of a sample are among those that the company uses. -/
theorem fits_eq_filter (db : Database) (company : ℕ) (sample : TireSample) :
    db.fits (some company) sample = if db.complete sample then
      (db.tires.rows.filter (usedBy (some company))).countP (carries none sample) else 0 := by
  rw [fits, List.countP_filter]
  congr 1
  apply List.countP_congr
  intro tire _
  simp [carries, usedBy]

/-- The rows of a day are those of the samples that are to be counted. -/
theorem rowsOn_eq_filter (db : Database) (company : ℕ) (day : ℤ) :
    rowsOn db company day =
      (((db.tireSamples.rows.filter (db.counts (some company))).filter fun sample =>
        decide (sample.active = true ∧ sample.date = day)).map (db.fits (some company))).sum := by
  rw [List.filter_filter, sum_map_filter, rowsOn, samplesOf, sum_map_filter]
  congr 1
  apply List.map_congr_left
  intro sample _
  cases counted : db.counts (some company) sample with
  | true => rw [Bool.and_true]
  | false =>
    have none_fits : db.fits (some company) sample = 0 := by
      by_contra fit
      rw [db.counts_of_fits (some company) (by omega)] at counted
      cases counted
    simp [none_fits]

include agree in
/-- The samples of the company have the same rows. -/
theorem rowsOn_eq (day : ℤ) : rowsOn db company day = rowsOn other company day := by
  rw [rowsOn_eq_filter, rowsOn_eq_filter, ← agree.samples]
  congr 1
  apply List.map_congr_left
  intro sample member
  have counted := List.mem_filter.mp (List.mem_of_mem_filter member)
  rw [fits_eq_filter, fits_eq_filter, agree.complete sample counted.1 counted.2, agree.tires]

include agree in
/-- The records of other companies do not change the values if and only if on each day there are no
rows to divide or as many active tires of other companies. -/
theorem values_eq_iff (startService endService : ℤ) :
    values db (some company) startService endService =
        values other (some company) startService endService ↔
      ∀ day ∈ days startService endService, rowsOn db company day = 0 ∨
        otherTires db company day = otherTires other company day := by
  rw [values_eq, values_eq, List.map_inj_left]
  apply forall₂_congr
  intro day _
  rw [← agree.rowsOn_eq, ← agree.ownTires_eq, ratio_eq_ratio_iff, Nat.add_left_cancel_iff]

end AgreeFor

/-- The values are those of the company alone if and only if surplus and others are in proportion;
and they are the same whatever the records of other companies are if and only if there are no rows
to divide, or as many active tires of others. -/
theorem values_onePopulation_iff (db : Database) (company : ℕ) (startService endService : ℤ) :
    (ValuesExact db company startService endService ↔
      ∀ day ∈ days startService endService, InProportion db company day) ∧
    ∀ other, AgreeFor company db other →
      (values db (some company) startService endService =
          values other (some company) startService endService ↔
        ∀ day ∈ days startService endService, rowsOn db company day = 0 ∨
          otherTires db company day = otherTires other company day) :=
  ⟨valuesExact_iff db company startService endService,
    fun _ agree => agree.values_eq_iff startService endService⟩

/-- Two companies with one tire each, and a sample of the first one. -/
def twoCompanies : Database where
  companies := ⟨[⟨1⟩, ⟨2⟩], by decide⟩
  receivers := .single ⟨1⟩
  sensors := ⟨[⟨1, "TRW", "A1"⟩, ⟨2, "TRW", "A2"⟩], by decide⟩
  tireTypes := .single ⟨1, "Drive"⟩
  tireLocations := ⟨[⟨1, .truck, 1, "Truck 7 (Newco)", true⟩,
    ⟨2, .truck, 2, "Truck 8 (Other)", true⟩], by decide⟩
  tires := ⟨[⟨1, some 1, 1, 1, 1, 1, true⟩, ⟨2, some 2, 1, 2, 2, 2, true⟩], by decide⟩
  tireSamples := .single ⟨1, 1, 1, 32, none, 0, true⟩
  versionAt _ _ := some true

/-- Before the tire of the second company was added. -/
def oneCompany : Database :=
  { twoCompanies with tires := .single ⟨1, some 1, 1, 1, 1, 1, true⟩ }

/-- The first company has the same records in both. -/
theorem agreeFor_oneCompany : AgreeFor 1 twoCompanies oneCompany where
  tires := by decide
  versions _ _ _ _ := rfl
  samples := by decide
  complete := by decide

/-- The tire of the second company makes the value of the first one a half, instead of one. -/
theorem values_twoCompanies :
    (¬∀ (db : Database) (company : ℕ) (startService endService : ℤ),
      ValuesExact db company startService endService) ∧
    ¬∀ (db other : Database) (company : ℕ) (startService endService : ℤ),
      AgreeFor company db other → values db (some company) startService endService =
        values other (some company) startService endService := by
  constructor
  · intro exact
    have proportion := (valuesExact_iff ..).mp (exact twoCompanies 1 0 0) 0 (by decide)
    revert proportion
    unfold InProportion
    decide
  · intro same
    have rows := (agreeFor_oneCompany.values_eq_iff 0 0).mp
      (same twoCompanies oneCompany 1 0 0 agreeFor_oneCompany) 0 (by decide)
    revert rows
    decide

end FcTpms.Website
