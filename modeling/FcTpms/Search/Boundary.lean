import Mathlib.Order.Basic
import Mathlib.Data.Int.Notation

/-!
# Boundaries in an interval of integers

A property that only the first places of an interval have changes once, at its boundary. A search
that halves the interval keeps the boundary between its two ends: the lower end is a place that has
the property, or the place in front of the interval, and the upper end is one that lacks it, or the
end of the interval.
-/

namespace FcTpms.Search

/-- The places strictly above the lower end that are below the point have the property, those from
the point up to the upper end lack it. -/
structure Boundary (early : ℤ → Prop) (lower upper point : ℤ) : Prop where
  above : lower < point
  within : point ≤ upper
  before : ∀ place, lower < place → place < point → early place
  behind : ∀ place, point ≤ place → place < upper → ¬ early place

/-- A property that a place strictly between the ends has, the places below it have, too. -/
def DownClosed (early : ℤ → Prop) (lower upper : ℤ) : Prop :=
  ∀ low high, lower < low → low ≤ high → high < upper → early high → early low

variable {early late : ℤ → Prop} {lower upper middle point other : ℤ}

/-- Between adjacent ends the upper one is the boundary. -/
theorem Boundary.adjacent (next : lower + 1 = upper) : Boundary early lower upper upper := by
  constructor
  · omega
  · omega
  · intro place above below
    omega
  · intro place above below
    omega

/-- A place in the middle that has the property becomes the lower end. -/
theorem Boundary.raise (closed : DownClosed early lower upper) (above : lower < middle)
    (has : early middle) (boundary : Boundary early middle upper point) :
    Boundary early lower upper point := by
  have inside := boundary.above
  constructor
  · omega
  · exact boundary.within
  · intro place higher below
    by_cases low : place ≤ middle
    · have within := boundary.within
      exact closed place middle higher low (by omega) has
    · exact boundary.before place (by omega) below
  · exact boundary.behind

/-- A place in the middle that lacks the property becomes the upper end. -/
theorem Boundary.reduce (closed : DownClosed early lower upper) (above : lower < middle)
    (below : middle < upper) (lacks : ¬ early middle)
    (boundary : Boundary early lower middle point) :
    Boundary early lower upper point := by
  have within := boundary.within
  constructor
  · exact boundary.above
  · omega
  · exact boundary.before
  · intro place higher lower
    by_cases low : place < middle
    · exact boundary.behind place higher low
    · intro has
      exact lacks (closed middle place above (by omega) lower has)

/-- The property of the places in a smaller interval. -/
theorem DownClosed.mono {closer nearer : ℤ} (closed : DownClosed early lower upper)
    (above : lower ≤ closer) (below : nearer ≤ upper) : DownClosed early closer nearer :=
  fun low high above ordered below => closed low high (by omega) ordered (by omega)

/-- The place of the boundary tells whether a place in the interval has the property. -/
theorem Boundary.lt_iff (boundary : Boundary early lower upper point) {place : ℤ}
    (above : lower < place) (below : place < upper) : place < point ↔ early place := by
  constructor
  · exact boundary.before place above
  · intro has
    by_contra behind
    exact boundary.behind place (by omega) below has

/-- The boundary of a property is not behind the one of a property that it implies. -/
theorem Boundary.le_of_imp (boundary : Boundary early lower upper point)
    (further : Boundary late lower upper other) (implied : ∀ place, early place → late place) :
    point ≤ other := by
  by_contra behind
  have above := further.above
  have within := boundary.within
  have has := boundary.before other above (by omega)
  exact further.behind other (Int.le_refl other) (by omega) (implied other has)

/-- The places between the boundaries of two properties are those that have only the second. -/
theorem Boundary.between (boundary : Boundary early lower upper point)
    (further : Boundary late lower upper other) (place : ℤ) :
    (point ≤ place ∧ place < other) ↔
      (lower < place ∧ place < upper) ∧ ¬ early place ∧ late place := by
  have above := boundary.above
  have within := further.within
  constructor
  · rintro ⟨from_point, below⟩
    have inside : lower < place ∧ place < upper := ⟨by omega, by omega⟩
    constructor
    · exact inside
    constructor
    · exact boundary.behind place from_point inside.2
    · exact further.before place inside.1 below
  · rintro ⟨⟨higher, below⟩, lacks, has⟩
    rw [← further.lt_iff higher below] at has
    rw [← boundary.lt_iff higher below] at lacks
    omega

end FcTpms.Search
