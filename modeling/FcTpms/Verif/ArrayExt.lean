import FcTpms.Search.Boundary
import FcTpms.Website.ArrayExt
import Mathlib.Order.Bounds.Defs
import Mathlib.Order.Lattice
import Mathlib.Data.Set.Basic

/-!
# The laws of the binary search

On a range of a sorted array the two boundaries that `bsearch_boundary` finds enclose the places
where the block gives zero. `bsearch_first` and `bsearch_last` look at the element at a boundary
without asking whether it is in the range, and `b_index` indexes the array by a `nil` it has found.
-/

namespace FcTpms.Website

open Search (Boundary DownClosed)

variable {α : Type}

/-! ## Elements -/

/-- Inside of the array an index counts from the start. -/
theorem element_inside (self : List (Object α)) {place : ℤ} (begins : 0 ≤ place)
    (inside : place < self.length) :
    element self place = self.get ⟨place.toNat, by omega⟩ := by
  rw [element, if_pos begins, List.getElem?_eq_getElem, Option.join_some, List.get_eq_getElem]

/-- Inside of the array there are its elements. -/
theorem element_mem (self : List (Object α)) {place : ℤ} (begins : 0 ≤ place)
    (inside : place < self.length) : element self place ∈ self := by
  rw [element_inside self begins inside]
  exact List.get_mem _ _

/-- An index gives an element of the array, or `nil`. -/
theorem element_mem_or_nil (self : List (Object α)) (place : ℤ) :
    element self place ∈ self ∨ element self place = none := by
  have found (index : ℕ) : self[index]?.join ∈ self ∨ self[index]?.join = none := by
    by_cases inside : index < self.length
    · left
      rw [List.getElem?_eq_getElem inside, Option.join_some]
      exact List.getElem_mem inside
    · right
      rw [List.getElem?_eq_none (by omega), Option.join_none]
  rw [element]
  split
  · exact found _
  split
  · exact found _
  · exact Or.inr rfl

/-! ## The loop -/

section Loop

variable {self : List (Object α)} {flag : Bool} {block : Block α}

/-- The boundary that the loop finds is above the lower end and not above the upper one. -/
theorem bsearchLoop_inside {rounds : ℕ} {lower upper point : ℤ} (ordered : lower < upper)
    (found : bsearchLoop self flag block rounds lower upper = .ok point) :
    lower < point ∧ point ≤ upper := by
  induction rounds generalizing lower upper with
  | zero => cases found
  | succ rounds ih =>
    simp only [bsearchLoop] at found
    by_cases next : lower + 1 = upper
    · rw [if_neg (not_not.mpr next)] at found
      have place := Except.ok.inj found
      cases flag <;> simp at place <;> omega
    · rw [if_pos next] at found
      cases given : block (element self ((lower + upper) / 2)) with
      | none =>
        rw [given] at found
        cases found
      | some y =>
        simp only [given] at found
        by_cases early : y < 0 ∨ (!flag ∧ y = 0)
        · rw [if_pos early] at found
          have inside := ih (by omega) found
          omega
        · rw [if_neg early] at found
          have inside := ih (by omega) found
          omega

/-- What the loop takes for a place below the boundary. -/
def Early (self : List (Object α)) (flag : Bool) (block : Block α) (place : ℤ) : Prop :=
  ∃ y, block (element self place) = some y ∧ (y < 0 ∨ (!flag ∧ y = 0))

/-- The loop ends at the boundary of the places that are below it, where the block always gives a
number. -/
theorem bsearchLoop_boundary {rounds : ℕ} {lower upper : ℤ} (ordered : lower < upper)
    (enough : (upper - lower).toNat ≤ rounds)
    (gives : ∀ place, lower < place → place < upper → (block (element self place)).isSome)
    (closed : DownClosed (Early self flag block) lower upper) :
    ∃ point, bsearchLoop self flag block rounds lower upper = .ok point ∧
      Boundary (Early self flag block) lower upper point := by
  induction rounds generalizing lower upper with
  | zero => omega
  | succ rounds ih =>
    rw [bsearchLoop]
    by_cases next : lower + 1 = upper
    · rw [if_neg (not_not.mpr next)]
      refine ⟨upper, ?_, Boundary.adjacent next⟩
      cases flag <;> simp [next]
    · rw [if_pos next]
      have above : lower < (lower + upper) / 2 := by omega
      have below : (lower + upper) / 2 < upper := by omega
      obtain ⟨y, given⟩ := Option.isSome_iff_exists.mp (gives _ above below)
      simp only [given]
      by_cases early : y < 0 ∨ (!flag ∧ y = 0)
      · rw [if_pos early]
        obtain ⟨point, found, boundary⟩ := ih below (by omega)
          (fun place higher lower => gives place (by omega) lower)
          (closed.mono above.le (le_refl _))
        exact ⟨point, found, boundary.raise closed above ⟨y, given, early⟩⟩
      · rw [if_neg early]
        obtain ⟨point, found, boundary⟩ := ih above (by omega)
          (fun place higher lower => gives place higher (by omega))
          (closed.mono (le_refl _) below.le)
        refine ⟨point, found, boundary.reduce closed above below ?_⟩
        rintro ⟨z, gave, isEarly⟩
        rw [given] at gave
        rw [Option.some.inj gave] at early
        exact early isEarly

end Loop

/-! ## Searches with a block -/

/-- An array, a block that gives negative numbers, then zeros and then positive numbers for its
elements, and a range of its indices. -/
structure Search (α : Type) where
  array : List (Object α)
  block : Block α
  range : Range
  gives : ∀ x ∈ array, (block x).isSome
  monotone : array.Pairwise fun x y => ((block x).getD 0).sign ≤ ((block y).getD 0).sign
  begins : 0 ≤ range.first
  ordered : range.first ≤ range.upper
  inside : range.upper ≤ array.length

namespace Search

/-- The indices of the range for which the block gives zero. -/
def zeros (s : Search α) : Set ℤ :=
  {place | s.range.first ≤ place ∧ place < s.range.upper ∧
    s.block (element s.array place) = some 0}

/-- A result is the least or the greatest index of a set, or `nil` if there is none. -/
def Finds (extreme : Set ℤ → ℤ → Prop) (indices : Set ℤ) : Option ℤ → Prop
  | none => indices = ∅
  | some index => extreme indices index

/-- What the three searches promise. -/
structure Lawful (s : Search α) : Prop where
  range : ∃ lower upper, bsearchRange s.array s.range s.block = .ok ⟨lower, upper, true⟩ ∧
    lower ≤ upper ∧ ∀ place, lower ≤ place ∧ place < upper ↔ place ∈ s.zeros
  first : ∃ result, bsearchFirst s.array s.range s.block = .ok result ∧ Finds IsLeast s.zeros result
  last : ∃ result, bsearchLast s.array s.range s.block = .ok result ∧
    Finds IsGreatest s.zeros result

/-- The block gives zero in the range, or neither right behind it nor right in front of it. -/
def Unshadowed (s : Search α) : Prop :=
  s.zeros.Nonempty ∨
    (s.range.upper < s.array.length → s.block (element s.array s.range.upper) ≠ some 0) ∧
    (0 < s.range.first → s.block (element s.array (s.range.first - 1)) ≠ some 0)

variable (s : Search α)

/-- The block gives a number at every index of the array. -/
theorem given {place : ℤ} (begins : 0 ≤ place) (inside : place < s.array.length) :
    ∃ y, s.block (element s.array place) = some y :=
  Option.isSome_iff_exists.mp (s.gives _ (element_mem s.array begins inside))

/-- The signs of the numbers that the block gives do not fall. -/
theorem sign_le {low high : ℤ} {x y : ℤ} (begins : 0 ≤ low) (ordered : low ≤ high)
    (inside : high < s.array.length) (below : s.block (element s.array low) = some x)
    (above : s.block (element s.array high) = some y) : x.sign ≤ y.sign := by
  by_cases same : low = high
  · rw [same, above] at below
    rw [Option.some.inj below]
  · have lowInside : low.toNat < s.array.length := by omega
    have highInside : high.toNat < s.array.length := by omega
    have pairs := List.pairwise_iff_getElem.mp s.monotone low.toNat high.toNat lowInside
      highInside (by omega)
    have lowFound : element s.array low = s.array[low.toNat] :=
      element_inside s.array begins (by omega)
    have highFound : element s.array high = s.array[high.toNat] :=
      element_inside s.array (by omega) inside
    rwa [← lowFound, ← highFound, below, above, Option.getD_some, Option.getD_some] at pairs

/-- A place that is below one of the boundaries has all indices in front of it below, too. -/
theorem closed (flag : Bool) :
    DownClosed (Early s.array flag s.block) (s.range.first - 1) s.range.upper := by
  rintro low high above ordered below ⟨y, gave, early⟩
  have begins := s.begins
  have inside := s.inside
  obtain ⟨x, given⟩ := s.given (show 0 ≤ low by omega) (by omega)
  have signs := s.sign_le (by omega) ordered (by omega) given gave
  refine ⟨x, given, ?_⟩
  rcases early with negative | ⟨upper, zero⟩
  · left
    rw [Int.sign_eq_neg_one_of_neg negative] at signs
    by_contra positive
    have nonneg := Int.sign_nonneg_iff.mpr (not_lt.mp positive)
    omega
  · by_cases negative : x < 0
    · exact Or.inl negative
    · right
      rw [zero, Int.sign_zero] at signs
      have nonpos := Int.sign_nonpos_iff.mp signs
      exact ⟨upper, by omega⟩

/-- `bsearch_boundary` finds the boundary. -/
theorem boundary (flag : Bool) :
    ∃ point, bsearchBoundary s.array flag s.range s.block = .ok point ∧
      Boundary (Early s.array flag s.block) (s.range.first - 1) s.range.upper point := by
  have begins := s.begins
  have ordered := s.ordered
  have inside := s.inside
  exact bsearchLoop_boundary (by omega) (le_refl _)
    (fun place above below => s.gives _ (element_mem s.array (by omega) (by omega)))
    (s.closed flag)

/-- The zeros lie between the two boundaries. -/
theorem mem_zeros {lower upper : ℤ}
    (low : Boundary (Early s.array true s.block) (s.range.first - 1) s.range.upper lower)
    (high : Boundary (Early s.array false s.block) (s.range.first - 1) s.range.upper upper)
    (place : ℤ) : lower ≤ place ∧ place < upper ↔ place ∈ s.zeros := by
  rw [low.between high]
  have shift : s.range.first - 1 < place ↔ s.range.first ≤ place := by omega
  rw [shift, zeros, Set.mem_ofPred_eq, and_assoc]
  apply and_congr_right
  intro begins
  apply and_congr_right
  intro inside
  constructor
  · rintro ⟨lacks, y, given, early⟩
    have negative : ¬ y < 0 := fun negative => lacks ⟨y, given, Or.inl negative⟩
    rw [given]
    rcases early with below | ⟨_, zero⟩
    · exact absurd below negative
    · rw [zero]
  · intro zero
    constructor
    · rintro ⟨y, given, early⟩
      rw [zero] at given
      rw [← Option.some.inj given] at early
      simp at early
    · exact ⟨0, zero, Or.inr ⟨rfl, rfl⟩⟩

/-- The boundaries of a search, and what the methods make of them. -/
structure Found (lower upper : ℤ) : Prop where
  low : Boundary (Early s.array true s.block) (s.range.first - 1) s.range.upper lower
  high : Boundary (Early s.array false s.block) (s.range.first - 1) s.range.upper upper
  ordered : lower ≤ upper
  zeros : ∀ place, lower ≤ place ∧ place < upper ↔ place ∈ s.zeros
  range : bsearchRange s.array s.range s.block = .ok ⟨lower, upper, true⟩
  first : bsearchFirst s.array s.range s.block =
    .ok (if lower ≥ s.array.length ∨ s.block (element s.array lower) ≠ some 0 then none
      else some lower)
  last : bsearchLast s.array s.range s.block =
    .ok (if upper - 1 ≤ -1 ∨ s.block (element s.array (upper - 1)) ≠ some 0 then none
      else some (upper - 1))

/-- Every search finds its boundaries. -/
theorem found : ∃ lower upper, s.Found lower upper := by
  obtain ⟨lower, findsLower, low⟩ := s.boundary true
  obtain ⟨upper, findsUpper, high⟩ := s.boundary false
  refine ⟨lower, upper, ?_⟩
  constructor
  · exact low
  · exact high
  · apply low.le_of_imp high
    rintro place ⟨y, given, early⟩
    rcases early with negative | ⟨impossible, _⟩
    · exact ⟨y, given, Or.inl negative⟩
    · cases impossible
  · exact s.mem_zeros low high
  · simp [bsearchRange, bsearchLowerBoundary, bsearchUpperBoundary, findsLower, findsUpper, bind,
      Except.bind, pure, Except.pure]
  · simp only [bsearchFirst, bsearchLowerBoundary, findsLower, bind, Except.bind]
    split <;> rfl
  · simp only [bsearchLast, bsearchUpperBoundary, findsUpper, bind, Except.bind]
    split <;> rfl

variable {s} {lower upper : ℤ}

/-- Without zeros both boundaries are the same place. -/
theorem Found.eq_of_empty (found : s.Found lower upper) (empty : s.zeros = ∅) :
    lower = upper := by
  have ordered := found.ordered
  by_contra apart
  have zero := (found.zeros lower).mp ⟨le_refl _, by omega⟩
  rw [empty] at zero
  exact zero

/-- With a zero in the range the searches find the first and the last one. -/
theorem Found.lawful_of_nonempty (found : s.Found lower upper) (some : s.zeros.Nonempty) :
    s.Lawful := by
  obtain ⟨place, zero⟩ := some
  have between := (found.zeros place).mpr zero
  have least := (found.zeros lower).mp ⟨le_refl _, by omega⟩
  have greatest := (found.zeros (upper - 1)).mp ⟨by omega, by omega⟩
  have begins := s.begins
  have above := found.low.above
  have inside := s.inside
  have within := found.high.within
  constructor
  · exact ⟨lower, upper, found.range, found.ordered, found.zeros⟩
  · refine ⟨_, found.first, ?_⟩
    rw [if_neg (not_or.mpr ⟨by omega, not_not.mpr least.2.2⟩)]
    exact ⟨least, fun other zero => ((found.zeros other).mpr zero).1⟩
  · refine ⟨_, found.last, ?_⟩
    rw [if_neg (not_or.mpr ⟨by omega, not_not.mpr greatest.2.2⟩)]
    refine ⟨greatest, fun other zero => ?_⟩
    have below := ((found.zeros other).mpr zero).2
    omega

/-- Without an index in the set the result is `nil`. -/
theorem finds_empty_iff {extreme : Set ℤ → ℤ → Prop} {indices : Set ℤ} {result : Option ℤ}
    (member : ∀ index, extreme indices index → index ∈ indices) (empty : indices = ∅) :
    Finds extreme indices result ↔ result = none := by
  cases result with
  | none => exact iff_of_true empty rfl
  | some index =>
    apply iff_of_false
    · intro found
      have among := member index found
      rw [empty] at among
      exact among
    · exact Option.some_ne_none index

/-- Without a zero in the range, the element behind it is a zero if the lower boundary is one. -/
theorem Found.behind_iff (found : s.Found lower upper) (empty : s.zeros = ∅) :
    (lower ≥ s.array.length ∨ s.block (element s.array lower) ≠ some 0) ↔
      (s.range.upper < s.array.length → s.block (element s.array s.range.upper) ≠ some 0) := by
  have begins := s.begins
  have above := found.low.above
  have within := found.low.within
  by_cases reached : lower = s.range.upper
  · rw [reached, ge_iff_le, ← not_lt, imp_iff_not_or]
  · -- The places from the boundary on have positive numbers, also those behind the range.
    have inside := s.inside
    have lacks := found.high.behind lower (found.eq_of_empty empty ▸ le_refl _) (by omega)
    obtain ⟨x, given⟩ := s.given (show 0 ≤ lower by omega) (by omega)
    have positive : 0 < x := by
      by_contra early
      have cases : x < 0 ∨ x = 0 := by omega
      exact lacks ⟨x, given, cases.imp_right fun zero => ⟨rfl, zero⟩⟩
    apply iff_of_true
    · right
      rw [given]
      intro zero
      have same := Option.some.inj zero
      omega
    · intro place zero
      have signs := s.sign_le (by omega) within place given zero
      rw [Int.sign_eq_one_of_pos positive] at signs
      exact absurd signs (by decide)

/-- Without a zero in the range, the element in front of it is a zero if the one below the upper
boundary is. -/
theorem Found.front_iff (found : s.Found lower upper) (empty : s.zeros = ∅) :
    (upper - 1 ≤ -1 ∨ s.block (element s.array (upper - 1)) ≠ some 0) ↔
      (0 < s.range.first → s.block (element s.array (s.range.first - 1)) ≠ some 0) := by
  have begins := s.begins
  have above := found.high.above
  have within := found.high.within
  have inside := s.inside
  by_cases reached : upper = s.range.first
  · have start : upper - 1 ≤ -1 ↔ ¬ 0 < s.range.first := by omega
    rw [start, reached, imp_iff_not_or]
  · -- The places below the boundary have negative numbers, also those in front of the range.
    have has := found.low.before (upper - 1) (by omega)
      (by rw [found.eq_of_empty empty]; omega)
    obtain ⟨x, given, early⟩ := has
    have negative : x < 0 := early.resolve_right fun zero => Bool.false_ne_true zero.1
    apply iff_of_true
    · right
      rw [given]
      intro zero
      have same := Option.some.inj zero
      omega
    · intro place zero
      have signs := s.sign_le (show 0 ≤ s.range.first - 1 by omega) (by omega) (by omega) zero given
      rw [Int.sign_eq_neg_one_of_neg negative] at signs
      exact absurd signs (by decide)

/-- Without a zero in the range, only the places next to it are taken for one in it. -/
theorem Found.lawful_iff_of_empty (found : s.Found lower upper) (empty : s.zeros = ∅) :
    s.Lawful ↔
      (s.range.upper < s.array.length → s.block (element s.array s.range.upper) ≠ some 0) ∧
      (0 < s.range.first → s.block (element s.array (s.range.first - 1)) ≠ some 0) := by
  rw [← found.behind_iff empty, ← found.front_iff empty]
  constructor
  · intro lawful
    constructor
    · obtain ⟨result, gives, first⟩ := lawful.first
      rw [finds_empty_iff (fun _ least => least.1) empty] at first
      rw [found.first, first] at gives
      by_contra taken
      rw [if_neg taken] at gives
      exact Option.some_ne_none _ (Except.ok.inj gives)
    · obtain ⟨result, gives, last⟩ := lawful.last
      rw [finds_empty_iff (fun _ greatest => greatest.1) empty] at last
      rw [found.last, last] at gives
      by_contra taken
      rw [if_neg taken] at gives
      exact Option.some_ne_none _ (Except.ok.inj gives)
  · rintro ⟨behind, front⟩
    constructor
    · exact ⟨lower, upper, found.range, found.ordered, found.zeros⟩
    · refine ⟨_, found.first, ?_⟩
      rw [finds_empty_iff (fun _ least => least.1) empty, if_pos behind]
    · refine ⟨_, found.last, ?_⟩
      rw [finds_empty_iff (fun _ greatest => greatest.1) empty, if_pos front]

/-- The laws hold for a search exactly when no zero next to the range is taken for one in it. -/
theorem lawful_iff : s.Lawful ↔ s.Unshadowed := by
  obtain ⟨lower, upper, found⟩ := s.found
  by_cases some : s.zeros.Nonempty
  · exact iff_of_true (found.lawful_of_nonempty some) (Or.inl some)
  · have empty := Set.not_nonempty_iff_eq_empty.mp some
    rw [found.lawful_iff_of_empty empty, Unshadowed, or_iff_right some]

end Search

/-! ## Objects of a sorted array -/

section Lookup

variable [LinearOrder α]

/-- A sorted array, whose objects can be compared, and an object. -/
structure Lookup (α : Type) [LinearOrder α] where
  array : List (Object α)
  object : Object α
  sorted : array.Pairwise fun x y => ∃ order, compareTo y x = some order ∧ order ≤ 0

/-- An object is equal to itself and to nothing else. -/
theorem compareTo_eq_zero {x obj : Object α} : compareTo obj x = some 0 ↔ x = obj := by
  cases x with
  | none =>
    rw [compareTo]
    split
    case isTrue same => exact iff_of_true rfl same.symm
    case isFalse other => exact iff_of_false (fun zero => by cases zero) fun same => other same.symm
  | some x =>
    cases obj with
    | none => exact iff_of_false (fun zero => by cases zero) (Option.some_ne_none x)
    | some y =>
      rw [compareTo, Option.some_inj, Option.some_inj]
      split
      case isTrue below => exact iff_of_false (by decide) below.ne
      case isFalse notBelow =>
        split
        case isTrue same => exact iff_of_true rfl same
        case isFalse other => exact iff_of_false (by decide) other

/-- Objects can be compared if both are `nil` or neither is. -/
theorem compareTo_isSome {x y : Object α} : (compareTo y x).isSome ↔ x.isSome = y.isSome := by
  cases x with
  | none =>
    cases y with
    | none => simp [compareTo]
    | some y => simp [compareTo]
  | some x =>
    cases y with
    | none => simp [compareTo]
    | some y => simp [compareTo]

/-- The order of two values, by their comparison. -/
theorem compareTo_le {x y : α} {order : ℤ} (compared : compareTo (some y) (some x) = some order)
    (ordered : order ≤ 0) : x ≤ y := by
  by_contra above
  have apart : ¬ x < y ∧ x ≠ y := ⟨fun below => above below.le, fun same => above same.le⟩
  rw [compareTo, if_neg apart.1, if_neg apart.2] at compared
  have one := Option.some.inj compared
  omega

/-- The signs of the comparisons with an object follow the order of the objects. -/
theorem compareTo_sign_le {x y obj : Object α} {order : ℤ} (compared : compareTo y x = some order)
    (ordered : order ≤ 0) :
    ((compareTo obj x).getD 0).sign ≤ ((compareTo obj y).getD 0).sign := by
  cases x with
  | none =>
    cases y with
    | none => exact le_refl _
    | some y => cases compared
  | some x =>
    cases y with
    | none => cases compared
    | some y =>
      have below := compareTo_le compared ordered
      cases obj with
      | none => exact le_refl _
      | some z =>
        simp only [compareTo, Option.getD_some]
        by_cases under : x < z
        · rw [if_pos under]
          split
          · exact le_refl _
          split
          · decide
          · decide
        · have notUnder : ¬ y < z := fun less => under (lt_of_le_of_lt below less)
          rw [if_neg under, if_neg notUnder]
          by_cases same : y = z
          · have equal : x = z := le_antisymm (same ▸ below) (not_lt.mp under)
            rw [if_pos equal, if_pos same]
          · rw [if_neg same]
            split
            · decide
            · exact le_refl _

namespace Lookup

/-- The indices of an object. -/
def places (l : Lookup α) : Set ℤ :=
  {place | 0 ≤ place ∧ place < l.array.length ∧ element l.array place = l.object}

/-- What the three lookups promise. -/
structure Lawful (l : Lookup α) : Prop where
  first : ∃ result, bFirstIndex l.array l.object = .ok result ∧
    Search.Finds IsLeast l.places result
  last : ∃ result, bLastIndex l.array l.object = .ok result ∧
    Search.Finds IsGreatest l.places result
  included : bInclude l.array l.object = .ok (decide (l.object ∈ l.array))

variable {l : Lookup α}

/-- The search for an object that can be compared to those of the array. -/
def search (l : Lookup α) (comparable : ∀ x ∈ l.array, (compareTo l.object x).isSome) :
    Search α where
  array := l.array
  block := compareTo l.object
  range := wholeRange l.array
  gives := comparable
  monotone := l.sorted.imp fun ⟨_, compared, ordered⟩ => compareTo_sign_le compared ordered
  begins := le_refl 0
  ordered := Int.natCast_nonneg _
  inside := le_refl _

variable (comparable : ∀ x ∈ l.array, (compareTo l.object x).isSome)

/-- The indices of an object are where its comparison gives zero. -/
theorem zeros_search : (l.search comparable).zeros = l.places := by
  ext place
  simp only [Search.zeros, places, Set.mem_ofPred_eq, search, wholeRange, Range.upper, if_true,
    compareTo_eq_zero]

/-- The places of an object of the array. -/
theorem places_nonempty (present : l.object ∈ l.array) : l.places.Nonempty := by
  obtain ⟨index, inside, found⟩ := List.mem_iff_getElem.mp present
  refine ⟨index, Int.natCast_nonneg _, Int.ofNat_lt.mpr inside, ?_⟩
  rw [element_inside l.array (Int.natCast_nonneg _) (Int.ofNat_lt.mpr inside)]
  exact found

/-- An object of the array can be compared to all objects of the array. -/
theorem comparable_of_mem (present : l.object ∈ l.array) :
    ∀ x ∈ l.array, (compareTo l.object x).isSome := by
  have alike : l.array.Pairwise fun x y => x.isSome = y.isSome :=
    l.sorted.imp fun ⟨_, compared, _⟩ => compareTo_isSome.mp (Option.isSome_of_mem compared)
  intro x member
  rw [compareTo_isSome]
  exact List.Pairwise.forall_of_forall_of_flip (R := fun x y : Object α => x.isSome = y.isSome)
    (fun _ _ => rfl) alike (alike.imp Eq.symm) member present

include comparable in
/-- `b_include?` answers whether an object is in the array, if it can be compared to those in the
array and is not the `nil` behind an empty one. -/
theorem bInclude_eq (outside : l.array = [] → l.object ≠ none) :
    bInclude l.array l.object = .ok (decide (l.object ∈ l.array)) := by
  obtain ⟨lower, upper, found⟩ := (l.search comparable).found
  have range : bsearchRange l.array (wholeRange l.array) (compareTo l.object) = _ := found.range
  simp only [bInclude, range, bind, Except.bind, pure, Except.pure, Except.ok.injEq]
  by_cases present : l.object ∈ l.array
  · obtain ⟨place, here⟩ := places_nonempty present
    rw [← zeros_search comparable] at here
    have between := (found.zeros place).mpr here
    have least := (found.zeros lower).mp ⟨le_refl _, by omega⟩
    rw [zeros_search comparable] at least
    simp [least.2.2, present]
  · have apart (place : ℤ) : element l.array place ≠ l.object := by
      intro same
      rcases element_mem_or_nil l.array place with member | nothing
      · rw [same] at member
        exact present member
      · -- `nil` can only be compared to itself, so the array is empty.
        rw [same] at nothing
        apply outside _ nothing
        rw [List.eq_nil_iff_forall_not_mem]
        intro x member
        have compared := comparable x member
        cases x with
        | none => exact present (nothing ▸ member)
        | some x =>
          rw [nothing] at compared
          cases compared
    simp [apart, present]

/-- An object that `b_first_index` finds is in the array. -/
theorem bFirstIndex_mem {result : Option ℤ} (found : bFirstIndex l.array l.object = .ok result) :
    l.object ∈ l.array := by
  simp only [bFirstIndex, bIndex, if_true, bsearchFirst, bsearchLowerBoundary, bind,
    Except.bind] at found
  cases search : bsearchBoundary l.array true (wholeRange l.array) (compareTo l.object) with
  | error failure =>
    rw [search] at found
    cases found
  | ok boundary =>
    have ordered : (0 : ℤ) - 1 < l.array.length := by omega
    have above := (bsearchLoop_inside ordered search).1
    simp only [search] at found
    by_cases outside : boundary ≥ l.array.length ∨
        compareTo l.object (element l.array boundary) ≠ some 0
    · rw [if_pos outside] at found
      cases found
    · rw [not_or, not_not, compareTo_eq_zero] at outside
      rw [← outside.2]
      exact element_mem l.array (by omega) (by omega)

/-- `b_index` answers the index of an object that its search has found. -/
theorem bIndex_of_found {flag : Bool} {index : ℤ}
    (search : (if flag then bsearchFirst l.array (wholeRange l.array) (compareTo l.object)
      else bsearchLast l.array (wholeRange l.array) (compareTo l.object)) = .ok (some index))
    (here : element l.array index = l.object) :
    bIndex l.array l.object flag = .ok (some index) := by
  cases flag with
  | true =>
    rw [if_pos rfl] at search
    simp only [bIndex, if_true, search, bind, Except.bind, here]
    rfl
  | false =>
    rw [if_neg Bool.false_ne_true] at search
    simp only [bIndex, Bool.false_eq_true, if_false, search, bind, Except.bind, here, if_true]
    rfl

/-- `b_index` keeps its promise for an object of the array if its search does. -/
theorem bIndex_lawful {flag : Bool} {extreme : Set ℤ → ℤ → Prop} (present : l.object ∈ l.array)
    (member : ∀ index, extreme l.places index → index ∈ l.places)
    (search : ∃ result, (if flag then bsearchFirst l.array (wholeRange l.array) (compareTo l.object)
      else bsearchLast l.array (wholeRange l.array) (compareTo l.object)) = .ok result ∧
        Search.Finds extreme l.places result) :
    ∃ result, bIndex l.array l.object flag = .ok result ∧
      Search.Finds extreme l.places result := by
  obtain ⟨result, search, extremal⟩ := search
  cases result with
  | none =>
    have empty : l.places = ∅ := extremal
    have nonempty := places_nonempty present
    rw [empty] at nonempty
    exact absurd nonempty Set.not_nonempty_empty
  | some index =>
    have here := (member index extremal).2.2
    exact ⟨some index, bIndex_of_found search here, extremal⟩

/-- The lookups keep their promises exactly for the objects that are in the array. -/
theorem lawful_iff : l.Lawful ↔ l.object ∈ l.array := by
  constructor
  · intro lawful
    obtain ⟨result, found, _⟩ := lawful.first
    exact bFirstIndex_mem found
  · intro present
    have comparable := comparable_of_mem present
    have laws : (l.search comparable).Lawful := by
      apply Search.lawful_iff.mpr
      left
      rw [zeros_search comparable]
      exact places_nonempty present
    have first := laws.first
    have last := laws.last
    rw [zeros_search comparable] at first last
    constructor
    · exact bIndex_lawful present (fun _ least => least.1) first
    · exact bIndex_lawful present (fun _ greatest => greatest.1) last
    · apply bInclude_eq comparable
      intro empty
      rw [empty] at present
      cases present

end Lookup

end Lookup

/-! ## The laws together -/

/-- The searches keep their promises exactly where the block gives zero in the range or not next to
it, and the lookups exactly for the objects that are in the array. -/
theorem binarySearch_lawful_iff {β : Type} [LinearOrder β] :
    (∀ s : Search α, s.Lawful ↔ s.Unshadowed) ∧
      ∀ l : Lookup β, l.Lawful ↔ l.object ∈ l.array :=
  ⟨fun _ => Search.lawful_iff, fun _ => Lookup.lawful_iff⟩

/-- The range `0...1` of `[1, 2]`, searched for 2. -/
def searchBehind : Search ℤ where
  array := [some 1, some 2]
  block := compareTo (some 2)
  range := ⟨0, 1, true⟩
  gives := by decide
  monotone := by decide
  begins := by decide
  ordered := by decide
  inside := by decide

/-- An object that is not in the array. -/
def lookupAbsent : Lookup ℤ where
  array := [some 1, some 2]
  object := some 3
  sorted := by
    have compared : compareTo (some (2 : ℤ)) (some 1) = some (-1) := by decide
    simp [compared]

/-- `bsearch_first` finds the 2 behind the range, and `b_first_index` raises for an absent
object. -/
theorem binarySearch_unlawful : ¬ searchBehind.Lawful ∧ ¬ lookupAbsent.Lawful := by
  constructor
  · intro lawful
    obtain ⟨result, found, first⟩ := lawful.first
    have behind : bsearchFirst searchBehind.array searchBehind.range searchBehind.block =
        .ok (some 1) := by decide
    rw [behind] at found
    rw [← Except.ok.inj found] at first
    have inside : (1 : ℤ) < 1 := first.1.2.1
    exact absurd inside (by decide)
  · intro lawful
    obtain ⟨result, found, first⟩ := lawful.first
    have raised : bFirstIndex lookupAbsent.array lookupAbsent.object = .error .typeError := by
      decide
    rw [raised] at found
    cases found

end FcTpms.Website
