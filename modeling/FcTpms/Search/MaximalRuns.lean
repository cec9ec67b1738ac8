import Mathlib.Data.List.Basic
import Mathlib.Order.Basic

/-!
# Maximal runs

The maximal runs of the places below a bound that have a property. A scan from the first place on
knows the runs that have ended, and where the run began that reaches the bound, if there is one.
-/

namespace FcTpms.Search

/-- The places from the first one up to the one behind have the property, and no place next to them
below the bound does. -/
structure MaximalRun (holds : ℕ → Prop) (bound first behind : ℕ) : Prop where
  some : first < behind
  within : behind ≤ bound
  all : ∀ place, first ≤ place → place < behind → holds place
  starts : first = 0 ∨ ¬ holds (first - 1)
  stops : behind = bound ∨ ¬ holds behind

/-- A list of all maximal runs in their order. -/
structure ListsRuns (holds : ℕ → Prop) (bound : ℕ) (runs : List (ℕ × ℕ)) : Prop where
  ordered : runs.Pairwise fun run next => run.2 < next.1
  mem_iff : ∀ run, run ∈ runs ↔ MaximalRun holds bound run.1 run.2

/-- What a scan of the places below the bound knows: the runs that have ended, and the start of the
one that has not. -/
structure TracksRuns (holds : ℕ → Prop) (bound : ℕ) (ended : List (ℕ × ℕ)) (openAt : Option ℕ) :
    Prop where
  ordered : ended.Pairwise fun run next => run.2 < next.1
  mem_iff : ∀ run, run ∈ ended ↔ MaximalRun holds bound run.1 run.2 ∧ run.2 < bound
  none_open : openAt = none → bound = 0 ∨ ¬ holds (bound - 1)
  some_open : ∀ first, openAt = some first → MaximalRun holds bound first bound

variable {holds : ℕ → Prop} {bound first : ℕ} {ended runs others : List (ℕ × ℕ)}
  {openAt : Option ℕ}

/-- Two runs that end at the same place are the same. -/
theorem MaximalRun.first_unique {behind other : ℕ} (run : MaximalRun holds bound first behind)
    (again : MaximalRun holds bound other behind) : first = other := by
  have starts (low high : ℕ) (lower : MaximalRun holds bound low behind)
      (higher : MaximalRun holds bound high behind) : ¬ low < high := by
    intro below
    have inside := higher.some
    rcases higher.starts with zero | outside
    · omega
    · exact outside (lower.all (high - 1) (by omega) (by omega))
  have notBelow := starts first other run again
  have notAbove := starts other first again run
  omega

/-- A run that has ended is one below every bound behind its end. -/
theorem MaximalRun.rebound {behind other : ℕ} (run : MaximalRun holds bound first behind)
    (below : behind < bound) (inside : behind < other) : MaximalRun holds other first behind :=
  ⟨run.some, by omega, run.all, run.starts, Or.inr (run.stops.resolve_left (by omega))⟩

/-- A run that has ended below the bound is one below a greater bound, too. -/
theorem maximalRun_succ_iff {behind : ℕ} (below : behind < bound) :
    MaximalRun holds (bound + 1) first behind ↔ MaximalRun holds bound first behind :=
  ⟨fun run => run.rebound (by omega) below, fun run => run.rebound below (by omega)⟩

/-- The runs depend on the places below the bound only. -/
theorem maximalRun_congr {holds' : ℕ → Prop} (same : ∀ place < bound, holds place ↔ holds' place)
    {behind : ℕ} : MaximalRun holds bound first behind ↔ MaximalRun holds' bound first behind := by
  have transfer {left right : ℕ → Prop} (same : ∀ place < bound, left place ↔ right place)
      (run : MaximalRun left bound first behind) : MaximalRun right bound first behind := by
    have some := run.some
    have within := run.within
    constructor
    · exact some
    · exact within
    · intro place above below
      exact (same place (by omega)).mp (run.all place above below)
    · exact run.starts.imp_right fun outside holds => outside ((same _ (by omega)).mpr holds)
    · by_cases last : behind = bound
      · exact Or.inl last
      · right
        intro holds
        exact run.stops.resolve_left last ((same behind (by omega)).mpr holds)
  exact ⟨transfer same, transfer fun place below => (same place below).symm⟩

/-- Before the first place there is nothing. -/
theorem TracksRuns.start : TracksRuns holds 0 [] none := by
  constructor
  · exact List.Pairwise.nil
  · intro run
    simp
  · exact fun _ => Or.inl rfl
  · intro first impossible
    cases impossible

section Step

variable (tracks : TracksRuns holds bound ended openAt)
include tracks

/-- A place that has the property ends no run. -/
theorem TracksRuns.mem_iff_of_holds (here : holds bound) (run : ℕ × ℕ) :
    run ∈ ended ↔ MaximalRun holds (bound + 1) run.1 run.2 ∧ run.2 < bound + 1 := by
  rw [tracks.mem_iff]
  constructor
  · rintro ⟨maximal, below⟩
    exact ⟨(maximalRun_succ_iff below).mpr maximal, by omega⟩
  · rintro ⟨maximal, below⟩
    have notHere : run.2 ≠ bound := by
      intro same
      rcases maximal.stops with last | outside
      · omega
      · rw [same] at outside
        exact outside here
    have ends : run.2 < bound := by omega
    exact ⟨(maximalRun_succ_iff ends).mp maximal, ends⟩

/-- A place that has the property goes on with the run in front of it. -/
theorem TracksRuns.extend (here : holds bound) (isOpen : openAt = some first) :
    TracksRuns holds (bound + 1) ended (some first) := by
  have run := tracks.some_open first isOpen
  constructor
  · exact tracks.ordered
  · exact tracks.mem_iff_of_holds here
  · intro impossible
    cases impossible
  · intro other same
    rw [← Option.some.inj same]
    have some := run.some
    constructor
    · omega
    · exact Nat.le_refl _
    · intro place above below
      by_cases last : place = bound
      · rwa [last]
      · exact run.all place above (by omega)
    · exact run.starts
    · exact Or.inl rfl

/-- A place that has the property begins a run if the one in front of it does not have it. -/
theorem TracksRuns.begin (here : holds bound) (closed : openAt = none) :
    TracksRuns holds (bound + 1) ended (some bound) := by
  constructor
  · exact tracks.ordered
  · exact tracks.mem_iff_of_holds here
  · intro impossible
    cases impossible
  · intro other same
    rw [← Option.some.inj same]
    constructor
    · omega
    · exact Nat.le_refl _
    · intro place above below
      rwa [show place = bound by omega]
    · exact tracks.none_open closed
    · exact Or.inl rfl

/-- The open run lies behind those that have ended. -/
theorem TracksRuns.ordered_append (isOpen : openAt = some first) :
    (ended ++ [(first, bound)]).Pairwise fun run next => run.2 < next.1 := by
  have run := tracks.some_open first isOpen
  rw [List.pairwise_append]
  refine ⟨tracks.ordered, List.pairwise_singleton _ _, ?_⟩
  intro earlier member last same
  rw [List.mem_singleton.mp same]
  -- The place behind an ended run is not one of those in the open run.
  obtain ⟨maximal, below⟩ := (tracks.mem_iff earlier).mp member
  by_contra overlap
  have outside := maximal.stops.resolve_left (by omega)
  exact outside (run.all earlier.2 (by omega) below)

/-- A place that does not have the property ends the run in front of it. -/
theorem TracksRuns.close (not : ¬ holds bound) (isOpen : openAt = some first) :
    TracksRuns holds (bound + 1) (ended ++ [(first, bound)]) none := by
  have run := tracks.some_open first isOpen
  have here : MaximalRun holds (bound + 1) first bound :=
    ⟨run.some, by omega, run.all, run.starts, Or.inr not⟩
  constructor
  · exact tracks.ordered_append isOpen
  · intro other
    rw [List.mem_append, List.mem_singleton, tracks.mem_iff]
    constructor
    · rintro (⟨maximal, below⟩ | rfl)
      · exact ⟨(maximalRun_succ_iff below).mpr maximal, by omega⟩
      · exact ⟨here, by omega⟩
    · rintro ⟨maximal, below⟩
      by_cases last : other.2 = bound
      · right
        rw [last] at maximal
        exact Prod.ext (maximal.first_unique here) last
      · left
        exact ⟨(maximalRun_succ_iff (by omega)).mp maximal, by omega⟩
  · exact fun _ => Or.inr not
  · intro other impossible
    cases impossible

/-- A place that does not have the property, behind another one, changes nothing. -/
theorem TracksRuns.skip (not : ¬ holds bound) (closed : openAt = none) :
    TracksRuns holds (bound + 1) ended none := by
  constructor
  · exact tracks.ordered
  · intro other
    rw [tracks.mem_iff]
    constructor
    · rintro ⟨maximal, below⟩
      exact ⟨(maximalRun_succ_iff below).mpr maximal, by omega⟩
    · rintro ⟨maximal, below⟩
      have some := maximal.some
      have notHere : other.2 ≠ bound := by
        intro same
        have before := maximal.all (bound - 1) (by omega) (by omega)
        rcases tracks.none_open closed with zero | outside
        · omega
        · exact outside before
      exact ⟨(maximalRun_succ_iff (by omega)).mp maximal, by omega⟩
  · exact fun _ => Or.inr not
  · intro other impossible
    cases impossible

/-- Without an open run, those that have ended are all. -/
theorem TracksRuns.lists_of_none (closed : openAt = none) : ListsRuns holds bound ended := by
  constructor
  · exact tracks.ordered
  · intro run
    rw [tracks.mem_iff]
    constructor
    · exact And.left
    · intro maximal
      have some := maximal.some
      have within := maximal.within
      have notLast : run.2 ≠ bound := by
        intro same
        have before := maximal.all (bound - 1) (by omega) (by omega)
        rcases tracks.none_open closed with zero | outside
        · omega
        · exact outside before
      exact ⟨maximal, by omega⟩

/-- The open run is the last one. -/
theorem TracksRuns.lists_of_some (isOpen : openAt = some first) :
    ListsRuns holds bound (ended ++ [(first, bound)]) := by
  have run := tracks.some_open first isOpen
  constructor
  · exact tracks.ordered_append isOpen
  · intro other
    rw [List.mem_append, List.mem_singleton, tracks.mem_iff]
    constructor
    · rintro (⟨maximal, _⟩ | rfl)
      · exact maximal
      · exact run
    · intro maximal
      have within := maximal.within
      by_cases last : other.2 = bound
      · right
        rw [last] at maximal
        exact Prod.ext (maximal.first_unique run) last
      · left
        exact ⟨maximal, by omega⟩

end Step

/-- The list of the runs depends on the places below the bound only. -/
theorem ListsRuns.congr {holds' : ℕ → Prop} (lists : ListsRuns holds bound runs)
    (same : ∀ place < bound, holds place ↔ holds' place) : ListsRuns holds' bound runs := by
  constructor
  · exact lists.ordered
  · intro run
    rw [lists.mem_iff, maximalRun_congr same]

/-- All lists of the maximal runs are equal. -/
theorem ListsRuns.unique (lists : ListsRuns holds bound runs)
    (again : ListsRuns holds bound others) :
    runs = others := by
  have nodup {list : List (ℕ × ℕ)} (listed : ListsRuns holds bound list) : list.Nodup := by
    apply listed.ordered.imp_of_mem
    intro run next member _ below same
    have some := ((listed.mem_iff run).mp member).some
    rw [← same] at below
    omega
  have perm : runs.Perm others := by
    rw [List.perm_ext_iff_of_nodup (nodup lists) (nodup again)]
    intro run
    rw [lists.mem_iff, again.mem_iff]
  apply perm.eq_of_pairwise _ lists.ordered again.ordered
  intro run next member listed below above
  have first := ((lists.mem_iff run).mp member).some
  have second := ((again.mem_iff next).mp listed).some
  omega

end FcTpms.Search
