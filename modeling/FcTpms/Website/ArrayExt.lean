import Mathlib.Data.Int.Notation
import Mathlib.Data.Nat.Notation
import Mathlib.Order.Lattice

/-!
# Binary search in sorted arrays

`lib/array_ext.rb` extends Ruby's `Array` with a binary search. One loop, `bsearch_boundary`, finds
the lower or the upper boundary of the elements for which a block gives zero; the other methods
look at the element at that boundary.
-/

namespace FcTpms.Website

/-- A Ruby object: `nil`, or a value of a class. -/
abbrev Object (α : Type) := Option α

/-- How a method ends without a value: `NoMethodError` for an operator of `nil`, `TypeError` for
`nil` as an index, or the rounds it is given do not end its loop. -/
inductive Failure
  | noMethodError
  | typeError
  | unended
  deriving DecidableEq, Repr

/-- A block that is given an element. It gives a number, or `nil`. -/
abbrev Block (α : Type) := Object α → Option ℤ

/-- `first..last`, or `first...last` when the end is excluded. -/
structure Range where
  first : ℤ
  last : ℤ
  excludeEnd : Bool
  deriving DecidableEq, Repr

/-- `self[index]`: a negative index counts from the end, and outside of the array there is `nil`. -/
def element {α : Type} (self : List (Object α)) (index : ℤ) : Object α :=
  if 0 ≤ index then self[index.toNat]?.join
  else if -(self.length : ℤ) ≤ index then self[(self.length + index).toNat]?.join
  else none

/-- The `upper` that `bsearch_boundary` starts with. -/
def Range.upper (range : Range) : ℤ := if range.excludeEnd then range.last else range.last + 1

/-- `0...length`. -/
def wholeRange {α : Type} (self : List (Object α)) : Range := ⟨0, self.length, true⟩

variable {α : Type}

/-- The loop of `bsearch_boundary`, for a number of rounds: `while lower + 1 != upper`. -/
def bsearchLoop (self : List (Object α)) (flag : Bool) (block : Block α) :
    ℕ → ℤ → ℤ → Except Failure ℤ
  | 0, _, _ => .error .unended
  | rounds + 1, lower, upper =>
    if lower + 1 ≠ upper then
      let mid := (lower + upper) / 2
      match block (element self mid) with
      | none => .error .noMethodError
      | some y =>
        if y < 0 ∨ (!flag ∧ y = 0) then bsearchLoop self flag block rounds mid upper
        else bsearchLoop self flag block rounds lower mid
    else .ok (if flag then upper else lower + 1)

/-- `bsearch_boundary`. Every round leaves a smaller interval. -/
def bsearchBoundary (self : List (Object α)) (flag : Bool) (range : Range) (block : Block α) :
    Except Failure ℤ :=
  let lower := range.first - 1
  let upper := range.upper
  bsearchLoop self flag block (upper - lower).toNat lower upper

/-- `bsearch_lower_boundary`. -/
def bsearchLowerBoundary (self : List (Object α)) (range : Range) (block : Block α) :
    Except Failure ℤ :=
  bsearchBoundary self true range block

/-- `bsearch_upper_boundary`. -/
def bsearchUpperBoundary (self : List (Object α)) (range : Range) (block : Block α) :
    Except Failure ℤ :=
  bsearchBoundary self false range block

/-- `bsearch_first`. -/
def bsearchFirst (self : List (Object α)) (range : Range) (block : Block α) :
    Except Failure (Option ℤ) := do
  let boundary ← bsearchLowerBoundary self range block
  if boundary ≥ self.length ∨ block (element self boundary) ≠ some 0 then
    return none
  else
    return some boundary

/-- `bsearch_last`. -/
def bsearchLast (self : List (Object α)) (range : Range) (block : Block α) :
    Except Failure (Option ℤ) := do
  let boundary := (← bsearchUpperBoundary self range block) - 1
  if boundary ≤ -1 ∨ block (element self boundary) ≠ some 0 then
    return none
  else
    return some boundary

/-- `bsearch_range`: `lower...upper`. -/
def bsearchRange (self : List (Object α)) (range : Range) (block : Block α) :
    Except Failure Range := do
  let lower ← bsearchLowerBoundary self range block
  let upper ← bsearchUpperBoundary self range block
  return ⟨lower, upper, true⟩

variable [LinearOrder α]

/-- `x <=> obj`: `nil` is equal to itself, and not comparable to anything else. -/
def compareTo (obj : Object α) : Block α
  | none => if obj = none then some 0 else none
  | some x =>
    match obj with
    | none => none
    | some y => some (if x < y then -1 else if x = y then 0 else 1)

/-- `b_include?`. -/
def bInclude (self : List (Object α)) (obj : Object α) : Except Failure Bool := do
  let range ← bsearchRange self (wholeRange self) (compareTo obj)
  return element self range.first == obj || element self (range.last - 1) == obj

/-- `b_index`. The index `nil` of an array is a `TypeError`. -/
def bIndex (self : List (Object α)) (obj : Object α) (flag : Bool) :
    Except Failure (Option ℤ) := do
  let index ←
    if flag then bsearchFirst self (wholeRange self) (compareTo obj)
    else bsearchLast self (wholeRange self) (compareTo obj)
  match index with
  | none => throw .typeError
  | some index => return if element self index = obj then some index else none

/-- `b_first_index`. -/
def bFirstIndex (self : List (Object α)) (obj : Object α) : Except Failure (Option ℤ) :=
  bIndex self obj true

/-- `b_last_index`. -/
def bLastIndex (self : List (Object α)) (obj : Object α) : Except Failure (Option ℤ) :=
  bIndex self obj false

end FcTpms.Website
