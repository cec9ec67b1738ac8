import FcTpms.Capture.Recording
import Mathlib.Order.Interval.Finset.Nat
import Mathlib.Data.Nat.Count
import Mathlib.Data.Nat.Log
import Mathlib.Tactic.Positivity

/-!
# Automatic gain reduction

The loop decides on a restart by comparing a gain in dB with a gain in tenths of a dB. Above the
lowest gain this does not matter for progress, since `rtlsdr_decrease_gain` has lowered the gain
by then. At the lowest gain nothing is lowered, and the two numbers agree only if both are `0`;
otherwise every saturated block restarts the recording.
-/

namespace FcTpms.Capture

open Machine Number

/-! ## Comparing gains -/

/-- A positive gain in dB is less than the same gain in tenths. -/
theorem Formats.oldGain_lt_newGain (formats : Formats) {gain : ℕ} (positive : 0 < gain)
    (bound : gain ≤ 2 ^ 31) : formats.oldGain gain < formats.newGain gain := by
  have lower : 2 ^ Nat.log 2 gain ≤ gain := Nat.pow_log_le_self 2 (by omega)
  have upper : gain < 2 ^ (Nat.log 2 gain + 1) := Nat.lt_pow_succ_log_self (by decide) gain
  have small : Nat.log 2 gain ≤ 31 := by
    calc
      Nat.log 2 gain ≤ Nat.log 2 (2 ^ 31) := Nat.log_mono_right bound
      _ = 31 := Nat.log_pow (by decide) 31
  have lower' : (2 : ℚ) ^ ((Nat.log 2 gain : ℤ) - 1 + 1) ≤ gain := by
    rw [sub_add_cancel, zpow_natCast]
    exact_mod_cast lower
  have upper' : (gain : ℚ) / 10 ≤ 2 ^ ((Nat.log 2 gain : ℤ) - 1) := by
    have double : (gain : ℚ) < 2 ^ Nat.log 2 gain * 2 := by
      rw [← pow_succ]
      exact_mod_cast upper
    have half : (2 : ℚ) ^ ((Nat.log 2 gain : ℤ) - 1) = 2 ^ Nat.log 2 gain / 2 := by
      rw [zpow_sub₀ (by norm_num), zpow_natCast, zpow_one]
    rw [half]
    linarith
  have size : (gain : ℚ) ≤ 2 ^ 127 := by
    calc
      (gain : ℚ) ≤ 2 ^ 31 := by exact_mod_cast bound
      _ ≤ 2 ^ 127 := by norm_num
  have apart := Rounding.separates formats.double formats.single (by omega) (by omega)
    (by positivity) upper' lower' size
  unfold oldGain newGain
  rw [Int.cast_natCast]
  exact apart

/-- `old_gain` equals the same gain in tenths exactly when the gain is zero. -/
theorem Formats.oldGain_eq_newGain (formats : Formats) {gain : ℤ} (lower : -2 ^ 31 ≤ gain)
    (upper : gain < 2 ^ 31) : formats.oldGain gain = formats.newGain gain ↔ gain = 0 := by
  constructor
  · intro same
    by_contra nonzero
    rcases Int.eq_nat_or_neg gain with ⟨size, rfl | rfl⟩
    · exact (formats.oldGain_lt_newGain (by omega) (by omega)).ne same
    · have apart : formats.oldGain size < formats.newGain size :=
        formats.oldGain_lt_newGain (by omega) (by omega)
      unfold oldGain newGain at same apart
      rw [Int.cast_neg, neg_div, formats.double.odd, formats.single.odd, formats.single.odd,
        neg_inj] at same
      exact apart.ne same
  · rintro rfl
    unfold oldGain newGain
    rw [Int.cast_zero, zero_div, Rounding.round_zero]

/-! ## Lowering the gain -/

namespace Tuner

/-- The lowest gain has no entry before it. -/
theorem entryBefore_lowest {currGain : ℤ} {gains : List ℤ}
    (absent : ∀ gain ∈ gains.tail, gain ≠ currGain) :
    entryBefore currGain gains = Option.none := by
  induction gains with
  | nil => rfl
  | cons previous rest ih =>
    cases rest with
    | nil => rfl
    | cons gain rest =>
      have other : gain ≠ currGain := absent gain List.mem_cons_self
      rw [entryBefore, if_neg other]
      exact ih fun later member => absent later (List.mem_cons_of_mem _ member)

/-- In an increasing table the entry before a gain is the one before its place. -/
theorem entryBefore_above {currGain : ℤ} {gains : List ℤ} {place : ℕ}
    (increasing : gains.Pairwise (· < ·)) (here : gains[place + 1]? = Option.some currGain) :
    entryBefore currGain gains = gains[place]? := by
  induction gains generalizing place with
  | nil => cases here
  | cons previous rest ih =>
    rw [List.getElem?_cons_succ] at here
    cases rest with
    | nil => cases here
    | cons gain rest =>
      rw [entryBefore]
      cases place with
      | zero =>
        rw [List.getElem?_cons_zero, Option.some.injEq] at here
        rw [if_pos here, List.getElem?_cons_zero]
      | succ place =>
        have later := List.mem_of_getElem? here
        have ordered := List.pairwise_cons.mp increasing
        have above : gain < currGain := by
          rw [List.getElem?_cons_succ] at here
          exact (List.pairwise_cons.mp ordered.2).1 _ (List.mem_of_getElem? here)
        rw [if_neg above.ne, List.getElem?_cons_succ]
        exact ih ordered.2 here

end Tuner

/-- The tuner of a run: the table and the hardware stay, the gain is the entry at a place. -/
structure TunedTo (start tuner : Tuner) (place : ℕ) : Prop where
  /-- The table is never changed. -/
  table : tuner.table = start.table
  /-- The hardware keeps responding. -/
  responds : tuner.Responds
  /-- The gain is an entry of the table. -/
  entry : tuner.table.gains[place]? = Option.some tuner.gain

namespace TunedTo

variable {start tuner : Tuner} {place : ℕ}

/-- The entry at the first place is the lowest gain. -/
theorem lowest (tuned : TunedTo start tuner 0) : tuner.gain = start.table.lowest := by
  have entry := tuned.entry
  rw [tuned.table] at entry
  unfold GainTable.lowest
  rw [← List.head?_eq_getElem?, List.head?_eq_some_head start.table.nonempty,
    Option.some.injEq] at entry
  exact entry.symm

/-- The lowest gain is not lowered. -/
theorem decreaseGain_lowest (tuned : TunedTo start tuner 0) :
    tuner.decreaseGain = (tuner, tuner.gain) := by
  have increasing := tuner.table.increasing
  have entry := tuned.entry
  have none : Tuner.entryBefore tuner.gain tuner.table.gains = Option.none := by
    apply Tuner.entryBefore_lowest
    cases found : tuner.table.gains with
    | nil => exact absurd found tuner.table.nonempty
    | cons first rest =>
      rw [found, List.getElem?_cons_zero, Option.some.injEq] at entry
      rw [found] at increasing
      intro gain member
      exact (entry ▸ (List.pairwise_cons.mp increasing).1 gain member).ne'
  have lowest : tuner.table.lowest = tuner.gain := by rw [tuned.lowest, tuned.table]
  unfold Tuner.decreaseGain
  rw [if_neg (not_lt.mpr tuned.responds.mode), none]
  dsimp only
  rw [lowest]

/-- Every other gain is set to the entry before it. -/
theorem decreaseGain_above (tuned : TunedTo start tuner (place + 1)) :
    TunedTo start tuner.decreaseGain.1 place ∧ tuner.decreaseGain.1.gain < tuner.gain := by
  have increasing := tuner.table.increasing
  have before := Tuner.entryBefore_above increasing tuned.entry
  obtain ⟨inside, entry⟩ := List.getElem?_eq_some_iff.mp tuned.entry
  have lower : tuner.table.gains[place]? = Option.some tuner.table.gains[place] :=
    List.getElem?_eq_getElem (by omega)
  have decreased : tuner.decreaseGain =
      ({ tuner with gain := tuner.table.gains[place] }, tuner.table.gains[place]) := by
    unfold Tuner.decreaseGain Tuner.setTunerGain
    rw [if_neg (not_lt.mpr tuned.responds.mode), before, lower]
    dsimp only
    rw [if_pos (tuned.responds.gain _)]
  rw [decreased]
  refine ⟨⟨tuned.table, ⟨tuned.responds.mode, tuned.responds.gain⟩, lower⟩, ?_⟩
  dsimp only
  calc
    tuner.table.gains[place] < tuner.table.gains[place + 1] :=
      List.pairwise_iff_getElem.mp increasing place (place + 1) (by omega) inside (by omega)
    _ = tuner.gain := entry

/-- The saturation test leaves the gain at its place or one place lower. -/
theorem tunerAfter (settings : Settings) {state : State} (transfer : Transfer)
    (tuned : TunedTo start state.tuner place) :
    ∃ lower ≤ place, TunedTo start (tunerAfter settings state transfer) lower := by
  unfold Capture.tunerAfter
  split
  · cases place with
    | zero =>
      rw [tuned.decreaseGain_lowest]
      exact ⟨0, le_refl 0, tuned⟩
    | succ place => exact ⟨place, Nat.le_succ place, tuned.decreaseGain_above.1⟩
  · exact ⟨place, le_refl place, tuned⟩

end TunedTo

/-! ## Progress -/

section Runs

variable (formats : Formats) (settings : Settings) (tuner : Tuner) (transfers : ℕ → Transfer)

/-- Every restart lowers the gain; there are at most `bound` of them, and none after the last. -/
structure Progress (bound : ℕ) : Prop where
  /-- A restart strictly lowers the gain. -/
  lowers : ∀ index state next,
    captured formats settings tuner transfers index = .active state →
      RestartsAt formats settings tuner transfers index →
        captured formats settings tuner transfers (index + 1) = .active next →
          next.tuner.gain < state.tuner.gain
  /-- Restarts are few. -/
  bounded : ∀ count, Nat.count (RestartsAt formats settings tuner transfers) count ≤ bound
  /-- Eventually the recording goes on without a restart. -/
  settles : ∃ last, ∀ index, last ≤ index → ¬ RestartsAt formats settings tuner transfers index

/-- Some block ends a row of saturated samples while the gain is the lowest one. -/
def PegsAtLowest : Prop :=
  ∃ index state, captured formats settings tuner transfers index = .active state ∧
    0 ≤ (transfers index).status ∧ Saturated settings state (transfers index) ∧
      state.tuner.gain = tuner.table.lowest

end Runs

variable {formats : Formats} {settings : Settings} {tuner : Tuner} {transfers : ℕ → Transfer}

/-- The tuner after a round that goes on. -/
theorem tuner_of_round {state next : State} {transfer : Transfer}
    (goesOn : round formats settings state transfer = .active next) :
    next.tuner = tunerAfter settings state transfer := by
  unfold round recorded at goesOn
  dsimp only at goesOn
  repeat' split at goesOn
  all_goals cases goesOn
  all_goals rfl

/-- The gain is an entry of the table throughout the run. -/
theorem captured_tuned {start index : ℕ} {state : State} (tuned : TunedTo tuner tuner start)
    (active : captured formats settings tuner transfers index = .active state) :
    ∃ place, TunedTo tuner state.tuner place := by
  have keeps : Keeps (round formats settings) (fun _ => True)
      (fun state => ∃ place, TunedTo tuner state.tuner place) := by
    rintro before transfer next _ ⟨place, here⟩ goesOn
    obtain ⟨lower, _, tuned'⟩ := here.tunerAfter settings transfer
    rw [← tuner_of_round goesOn] at tuned'
    exact ⟨lower, tuned'⟩
  exact keeps.after (fun _ => trivial) ⟨start, tuned⟩ active

/-- The gain in dB differs from the one in tenths when a restart is taken. -/
theorem Restarts.gain_ne_zero {state : State} {transfer : Transfer}
    (restarts : Restarts formats settings state transfer)
    (lowest : TunedTo tuner state.tuner 0) : state.tuner.gain ≠ 0 := by
  have member := List.mem_of_getElem? lowest.entry
  have bounds := state.tuner.table.representable _ member
  intro zero
  apply restarts.2.2
  rw [lowest.decreaseGain_lowest]
  exact (formats.oldGain_eq_newGain bounds.1 bounds.2).mpr zero

/-- Unless a block saturates at a lowest gain other than `0`, a restart moves the gain to the
entry before it. -/
theorem Restarts.lowers {index place : ℕ} {state : State}
    (spared : tuner.table.lowest = 0 ∨ ¬ PegsAtLowest formats settings tuner transfers)
    (active : captured formats settings tuner transfers index = .active state)
    (restarts : Restarts formats settings state (transfers index))
    (tuned : TunedTo tuner state.tuner place) :
    ∃ lower, place = lower + 1 ∧
      TunedTo tuner (tunerAfter settings state (transfers index)) lower ∧
        (tunerAfter settings state (transfers index)).gain < state.tuner.gain := by
  cases place with
  | zero =>
    have nonzero := restarts.gain_ne_zero tuned
    have gain := tuned.lowest
    rcases spared with zero | never
    · exact absurd (gain.trans zero) nonzero
    · exact absurd ⟨index, state, active, restarts.1, restarts.2.1, gain⟩ never
  | succ lower =>
    have decreased : tunerAfter settings state (transfers index) = state.tuner.decreaseGain.1 :=
      if_pos restarts.2.1
    rw [decreased]
    exact ⟨lower, rfl, tuned.decreaseGain_above⟩

/-- Restarts and the place of the gain add up to no more than the place at the start. -/
theorem restarts_add_place {start : ℕ} (tuned : TunedTo tuner tuner start)
    (spared : tuner.table.lowest = 0 ∨ ¬ PegsAtLowest formats settings tuner transfers)
    (count : ℕ) :
    Nat.count (RestartsAt formats settings tuner transfers) count ≤ start ∧
      ∀ state, captured formats settings tuner transfers count = .active state →
        ∃ place, TunedTo tuner state.tuner place ∧
          Nat.count (RestartsAt formats settings tuner transfers) count + place ≤ start := by
  induction count with
  | zero =>
    refine ⟨Nat.zero_le _, fun state active => ⟨start, ?_, ?_⟩⟩
    · cases active
      exact tuned
    · rw [Nat.count_zero, Nat.zero_add]
  | succ count ih =>
    obtain ⟨few, places⟩ := ih
    rw [Nat.count_succ]
    by_cases restart : RestartsAt formats settings tuner transfers count
    · obtain ⟨state, active, restarts⟩ := restart.active
      obtain ⟨place, here, sum⟩ := places state active
      obtain ⟨lower, rfl, tuned', _⟩ := restarts.lowers spared active here
      have goesOn := (captured_succ active).trans (round_restarts restarts)
      rw [if_pos restart]
      refine ⟨by omega, fun next running => ⟨lower, ?_, by omega⟩⟩
      rw [goesOn] at running
      cases running
      exact tuned'
    · rw [if_neg restart, Nat.add_zero]
      refine ⟨few, fun next running => ?_⟩
      obtain ⟨state, active⟩ := active_of_le running (Nat.le_succ count)
      obtain ⟨place, here, sum⟩ := places state active
      obtain ⟨lower, below, tuned'⟩ := here.tunerAfter settings (transfers count)
      have kept := tuner_of_round ((captured_succ active).symm.trans running)
      rw [← kept] at tuned'
      exact ⟨lower, tuned', by omega⟩

/-- A bounded number of restarts comes to an end. -/
theorem settles_of_bounded {bound : ℕ}
    (bounded : ∀ count, Nat.count (RestartsAt formats settings tuner transfers) count ≤ bound) :
    ∃ last, ∀ index, last ≤ index → ¬ RestartsAt formats settings tuner transfers index := by
  by_contra endless
  push Not at endless
  have unbounded : ∀ many, ∃ count,
      many ≤ Nat.count (RestartsAt formats settings tuner transfers) count := by
    intro many
    induction many with
    | zero => exact ⟨0, Nat.zero_le _⟩
    | succ many ih =>
      obtain ⟨count, enough⟩ := ih
      obtain ⟨index, later, restart⟩ := endless count
      refine ⟨index + 1, ?_⟩
      have grown := Nat.count_monotone (RestartsAt formats settings tuner transfers) later
      rw [Nat.count_succ, if_pos restart]
      omega
  obtain ⟨count, many⟩ := unbounded (bound + 1)
  exact absurd (bounded count) (by omega)

/-- A block that saturates at a lowest gain other than `0` restarts the recording although no
gain is lowered. -/
theorem not_progress_of_pegs {start : ℕ} (tuned : TunedTo tuner tuner start)
    (nonzero : tuner.table.lowest ≠ 0) (pegs : PegsAtLowest formats settings tuner transfers)
    (bound : ℕ) : ¬ Progress formats settings tuner transfers bound := by
  intro progress
  obtain ⟨index, state, active, status, saturated, lowest⟩ := pegs
  obtain ⟨place, here⟩ := captured_tuned tuned active
  have first : TunedTo tuner state.tuner 0 := by
    refine ⟨here.table, here.responds, ?_⟩
    rw [lowest, here.table, ← List.head?_eq_getElem?]
    exact List.head?_eq_some_head tuner.table.nonempty
  have bounds := state.tuner.table.representable _ (List.mem_of_getElem? first.entry)
  have restarts : Restarts formats settings state (transfers index) := by
    refine ⟨status, saturated, fun same => ?_⟩
    rw [first.decreaseGain_lowest] at same
    have zero := (formats.oldGain_eq_newGain bounds.1 bounds.2).mp same
    exact nonzero (lowest ▸ zero)
  have lowered := progress.lowers index state _ active ((restartsAt_iff active).mpr restarts)
    ((captured_succ active).trans (round_restarts restarts))
  have kept : (restarted settings state (transfers index)).tuner = state.tuner := by
    have decreased : tunerAfter settings state (transfers index) = state.tuner.decreaseGain.1 :=
      if_pos saturated
    rw [first.decreaseGain_lowest] at decreased
    exact decreased
  rw [kept] at lowered
  exact lt_irrefl _ lowered

/-- Gain reduction makes progress exactly when the lowest gain is `0` or no block saturates at
it. -/
theorem progress_iff (responds : tuner.Responds) {start : ℕ}
    (starts : tuner.table.gains[start]? = Option.some tuner.gain) :
    Progress formats settings tuner transfers start ↔
      tuner.table.lowest = 0 ∨ ¬ PegsAtLowest formats settings tuner transfers := by
  have tuned : TunedTo tuner tuner start := ⟨rfl, responds, starts⟩
  constructor
  · intro progress
    by_cases zero : tuner.table.lowest = 0
    · exact Or.inl zero
    · exact Or.inr fun pegs => not_progress_of_pegs tuned zero pegs start progress
  · intro spared
    have counts := restarts_add_place tuned spared
    refine ⟨?_, fun count => (counts count).1, settles_of_bounded fun count => (counts count).1⟩
    intro index state next active restart running
    have restarts := (restartsAt_iff active).mp restart
    obtain ⟨place, here, _⟩ := (counts index).2 state active
    obtain ⟨_, _, _, lowered⟩ := restarts.lowers spared active here
    rw [tuner_of_round ((captured_succ active).symm.trans running)]
    exact lowered

/-! ## A signal that saturates at every gain -/

/-- The smallest blocks, with automatic gain reduction. -/
def automaticGain : Settings :=
  .ofArguments minimalBufLength (2 * 2048000) (by decide) true

/-- A block of samples at the upper limit. -/
def peggedBlock : Transfer where
  status := 0
  buffer := List.replicate minimalBufLength 0xFF
  room := minimalBufLength

/-- An R820T at one of its lower gains; its lowest gain is `0`. -/
def r82xx : Tuner where
  table := ⟨[0, 9, 14, 27, 37, 77, 87], by decide, by decide, by decide⟩
  gain := 27
  modeStatus := 0
  gainStatus := fun _ => 0

/-- An FC0012 at its lowest gain, which is not `0`. -/
def fc0012 : Tuner where
  table := ⟨[-99, -40, 71, 179, 192], by decide, by decide, by decide⟩
  gain := -99
  modeStatus := 0
  gainStatus := fun _ => 0

/-- With an R820T three restarts are the most. -/
theorem progress_r82xx :
    Progress ⟨.exact, .exact⟩ automaticGain r82xx (fun _ => peggedBlock) 3 :=
  (progress_iff ⟨le_refl 0, fun _ => rfl⟩ rfl).mpr (Or.inl rfl)

/-- With an FC0012 the recording is restarted at the lowest gain. -/
theorem not_progress_fc0012 :
    fc0012.Responds ∧ fc0012.table.gains[0]? = Option.some fc0012.gain ∧
      ¬ Progress ⟨.exact, .exact⟩ automaticGain fc0012 (fun _ => peggedBlock) 0 := by
  have responds : fc0012.Responds := ⟨le_refl 0, fun _ => rfl⟩
  have pegs : PegsAtLowest ⟨.exact, .exact⟩ automaticGain fc0012 (fun _ => peggedBlock) :=
    ⟨0, initial automaticGain fc0012, rfl, le_refl 0, by decide, rfl⟩
  have tuned : TunedTo fc0012 fc0012 0 := ⟨rfl, responds, rfl⟩
  exact ⟨responds, rfl, not_progress_of_pegs tuned (by decide) pegs 0⟩

end FcTpms.Capture
