import Mathlib.Data.List.Basic
import Mathlib.Data.Int.Notation

/-!
# The newest of a list

A list is sorted by a key, in descending order, and cut after a number of elements. Where keys are
equal the order is not determined; an element may be among the newest if fewer others are newer.
-/

namespace FcTpms.Search

variable {α : Type} {key : α → ℤ}

/-- A sort by the key, in descending order. -/
structure NewestFirst (key : α → ℤ) where
  sort : List α → List α
  perm : ∀ rows, (sort rows).Perm rows
  ordered : ∀ rows, (sort rows).Pairwise fun x y => key y ≤ key x

/-- An element that is not among the newest is not newer than any of them, and there are as many as
there may be. -/
theorem NewestFirst.of_not_mem_take (newestFirst : NewestFirst key) {rows : List α} {limit : ℕ}
    {x : α}
    (member : x ∈ rows) (omitted : x ∉ (newestFirst.sort rows).take limit) :
    ((newestFirst.sort rows).take limit).length = limit ∧
      ∀ y ∈ (newestFirst.sort rows).take limit, key x ≤ key y := by
  have behind : x ∈ (newestFirst.sort rows).drop limit := by
    have there := (newestFirst.perm rows).mem_iff.mpr member
    rw [← List.take_append_drop limit (newestFirst.sort rows), List.mem_append] at there
    exact there.resolve_left omitted
  constructor
  · have filled := List.length_pos_of_mem behind
    rw [List.length_drop] at filled
    rw [List.length_take]
    omega
  · intro y listed
    have ordered := newestFirst.ordered rows
    rw [← List.take_append_drop limit (newestFirst.sort rows), List.pairwise_append] at ordered
    exact ordered.2.2 y listed x behind

/-- An element with enough newer ones is not among the newest. -/
theorem NewestFirst.not_mem_take (newestFirst : NewestFirst key) {rows : List α} {limit : ℕ} {x : α}
    (newer : limit ≤ rows.countP fun y => decide (key x < key y)) :
    x ∉ (newestFirst.sort rows).take limit := by
  intro listed
  obtain ⟨before, behind, split⟩ := List.append_of_mem listed
  have whole : newestFirst.sort rows =
      before ++ x :: (behind ++ (newestFirst.sort rows).drop limit) := by
    rw [← List.cons_append, ← List.append_assoc, ← split, List.take_append_drop]
  have ordered := newestFirst.ordered rows
  rw [whole, List.pairwise_append, List.pairwise_cons] at ordered
  rw [← (newestFirst.perm rows).countP_eq, whole, List.countP_append] at newer
  have none_newer : (x :: (behind ++ (newestFirst.sort rows).drop limit)).countP
      (fun y => decide (key x < key y)) = 0 := by
    rw [List.countP_eq_zero]
    intro y later above
    rcases List.mem_cons.mp later with same | later
    · rw [same] at above
      exact absurd (of_decide_eq_true above) (Int.lt_irrefl _)
    · have order := ordered.2.1.1 y later
      have greater := of_decide_eq_true above
      omega
  have few : before.countP (fun y => decide (key x < key y)) ≤ before.length :=
    List.countP_le_length
  have short : (before ++ x :: behind).length ≤ limit := by
    rw [← split]
    exact List.length_take_le _ _
  rw [List.length_append, List.length_cons] at short
  omega

section Preferring

variable [DecidableEq α] (key) (x : α)

/-- The order that prefers one element among those with the same key. -/
def prefers (y z : α) : Bool := key z < key y ∨ key z = key y ∧ (y = x ∨ z ≠ x)

/-- Sorted in this order, each element is followed by those that it comes before. -/
theorem pairwise_prefers (rows : List α) :
    (rows.mergeSort (prefers key x)).Pairwise fun y z => prefers key x y z = true := by
  apply List.pairwise_mergeSort
  · intro a b c first second
    have one := of_decide_eq_true first
    have two := of_decide_eq_true second
    apply decide_eq_true
    grind
  · intro a b
    rw [Bool.or_eq_true, prefers, prefers, decide_eq_true_iff, decide_eq_true_iff]
    grind

/-- A sort that puts an element in front of those with the same key. -/
def NewestFirst.preferring : NewestFirst key where
  sort rows := rows.mergeSort (prefers key x)
  perm rows := List.mergeSort_perm rows _
  ordered rows := (pairwise_prefers key x rows).imp fun {y z} before => by
    have order := of_decide_eq_true before
    omega

/-- If few elements are newer, there is a sort that puts the element among the newest. -/
theorem NewestFirst.mem_take_preferring {rows : List α} {limit : ℕ} (member : x ∈ rows)
    (newer : (rows.countP fun y => decide (key x < key y)) < limit) :
    x ∈ ((NewestFirst.preferring key x).sort rows).take limit := by
  let sorted := rows.mergeSort (prefers key x)
  have there : x ∈ sorted := List.mem_mergeSort.mpr member
  obtain ⟨before, behind, split, first⟩ := List.eq_append_cons_of_mem there
  have ordered : sorted.Pairwise fun y z => prefers key x y z = true := pairwise_prefers key x rows
  rw [split, List.pairwise_append] at ordered
  have all_newer : before.countP (fun y => decide (key x < key y)) = before.length := by
    rw [List.countP_eq_length]
    intro y earlier
    have order := of_decide_eq_true (ordered.2.2 y earlier x List.mem_cons_self)
    have different : y ≠ x := fun same => first (same ▸ earlier)
    apply decide_eq_true
    grind
  have few : before.length < limit := by
    have counted : sorted.countP (fun y => decide (key x < key y)) < limit := by
      rw [(List.mergeSort_perm rows _).countP_eq]
      exact newer
    rw [split, List.countP_append, all_newer] at counted
    omega
  show x ∈ sorted.take limit
  have cut : limit = before.length + (limit - before.length) := by omega
  rw [split, cut, List.take_length_add_append]
  have more : limit - before.length = limit - before.length - 1 + 1 := by omega
  rw [more, List.take_succ_cons]
  simp

end Preferring

end FcTpms.Search
