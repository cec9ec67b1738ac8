import Mathlib.Data.List.Dedup
import Mathlib.Data.List.ProdSigma
import Mathlib.Algebra.BigOperators.Group.List.Lemmas
import Mathlib.Algebra.Ring.Nat
import Mathlib.Order.Lattice

/-!
# Tables and queries

A table is a list of rows with a primary key. A left join keeps every row of its left side, and
grouping divides rows by the value of an expression. What a query counts is described by sums over
the rows of the table it begins with.
-/

namespace FcTpms.Relational

variable {α β κ : Type}

/-! ## Tables -/

/-- A table whose rows have different values of the primary key. -/
structure Table (key : α → ℕ) where
  rows : List α
  unique : (rows.map key).Nodup

namespace Table

variable {key : α → ℕ}

/-- A table without rows. -/
def empty : Table key := ⟨[], List.nodup_nil⟩

/-- A table with one row. -/
def single (row : α) : Table key := ⟨[row], List.nodup_singleton _⟩

variable (table : Table key)

/-- The row with the key. -/
def find (id : ℕ) : Option α := table.rows.find? fun row => decide (key row = id)

/-- Rows with the same key are the same. -/
theorem eq_of_key {row other : α} (member : row ∈ table.rows) (among : other ∈ table.rows)
    (same : key row = key other) : row = other :=
  List.inj_on_of_nodup_map table.unique member among same

/-- The row that is found has the key. -/
theorem find_eq_some {id : ℕ} {row : α} :
    table.find id = some row ↔ row ∈ table.rows ∧ key row = id := by
  rw [find]
  constructor
  · intro found
    have same : key row = id := by simpa using List.find?_some found
    exact ⟨List.mem_of_find?_eq_some found, same⟩
  · intro here
    have there : (table.rows.find? fun row => decide (key row = id)).isSome := by
      rw [List.find?_isSome]
      exact ⟨row, here.1, decide_eq_true here.2⟩
    obtain ⟨other, found⟩ := Option.isSome_iff_exists.mp there
    have same : key other = id := by simpa using List.find?_some found
    have member : other ∈ table.rows := List.mem_of_find?_eq_some found
    rw [found, table.eq_of_key member here.1 (same.trans here.2.symm)]

end Table

/-- Where keys are different, the rows with a key are the row with the key. -/
theorem filter_key {key : α → ℕ} {rows : List α} (unique : (rows.map key).Nodup) (id : ℕ) :
    (rows.filter fun row => decide (key row = id)) =
      (rows.find? fun row => decide (key row = id)).toList := by
  induction rows with
  | nil => rfl
  | cons row rest ih =>
    rw [List.map_cons, List.nodup_cons] at unique
    by_cases here : key row = id
    · have others : (rest.filter fun row => decide (key row = id)) = [] := by
        rw [List.filter_eq_nil_iff]
        intro other member same
        apply unique.1
        rw [here, ← of_decide_eq_true same]
        exact List.mem_map_of_mem member
      rw [List.filter_cons_of_pos (by simpa using here),
        List.find?_cons_of_pos (by simpa using here),
        others]
      rfl
    · rw [List.filter_cons_of_neg (by simpa using here),
        List.find?_cons_of_neg (by simpa using here),
        ih unique.2]

/-- The rows of a table with a key. -/
theorem Table.filter_key {key : α → ℕ} (table : Table key) (id : ℕ) :
    (table.rows.filter fun row => decide (key row = id)) = (table.find id).toList :=
  Relational.filter_key table.unique id

/-! ## Products -/

/-- A condition on the parts of a pair. -/
theorem filter_product (left : List α) (right : List β) (p : α → Bool) (q : β → Bool) :
    ((left ×ˢ right).filter fun pair => p pair.1 && q pair.2) =
      left.filter p ×ˢ right.filter q := by
  induction left with
  | nil => rfl
  | cons a rest ih =>
    rw [List.product_cons, List.filter_append, ih, List.filter_map]
    have second : (right.filter ((fun pair : α × β => p pair.1 && q pair.2) ∘ fun b => (a, b))) =
        right.filter fun b => p a && q b := rfl
    rw [second]
    cases here : p a with
    | true => simp [here, List.product_cons]
    | false => simp [here]

/-- A condition on the first part of a pair. -/
theorem countP_product (left : List α) (right : List β) (p : α → Bool) :
    (left ×ˢ right).countP (fun pair => p pair.1) = left.countP p * right.length := by
  induction left with
  | nil => simp
  | cons a rest ih =>
    rw [List.product_cons, List.countP_append, ih, List.countP_map, List.countP_cons, add_mul,
      add_comm]
    congr 1
    cases here : p a with
    | true => simp [Function.comp_def, here]
    | false => simp [Function.comp_def, here]

/-- The second parts of the pairs that meet a condition, one part of which is about the first. -/
theorem map_filter_product (left : List α) (right : List β) (p : α → Bool) (q : α → β → Bool) :
    ((left ×ˢ right).filter fun pair => p pair.1 && q pair.1 pair.2).map Prod.snd =
      (left.filter p).flatMap fun a => right.filter (q a) := by
  induction left with
  | nil => rfl
  | cons a rest ih =>
    rw [List.product_cons, List.filter_append, List.map_append, ih, List.filter_map, List.map_map]
    have second : (right.filter ((fun pair : α × β => p pair.1 && q pair.1 pair.2) ∘
        fun b => (a, b))) = right.filter fun b => p a && q a b := rfl
    rw [second]
    cases here : p a with
    | true =>
      rw [List.filter_cons_of_pos here, List.flatMap_cons]
      simp [Function.comp_def]
    | false => simp [here]

/-! ## Sums -/

/-- A sum over the rows that meet a condition. -/
theorem sum_map_filter (p : α → Bool) (f : α → ℕ) (rows : List α) :
    ((rows.filter p).map f).sum = (rows.map fun row => if p row then f row else 0).sum := by
  induction rows with
  | nil => rfl
  | cons row rest ih =>
    rw [List.map_cons, List.sum_cons, ← ih]
    cases here : p row with
    | true => rw [List.filter_cons_of_pos here, List.map_cons, List.sum_cons, if_pos rfl]
    | false => rw [List.filter_cons_of_neg (by simp [here]), if_neg (by simp), Nat.zero_add]

/-- Counting is a sum. -/
theorem countP_eq_sum (p : α → Bool) (rows : List α) :
    rows.countP p = (rows.map fun row => if p row then 1 else 0).sum := by
  induction rows with
  | nil => rfl
  | cons row rest ih => rw [List.countP_cons, List.map_cons, List.sum_cons, ih, add_comm]

/-- Of two conditions that as many rows meet, one of which implies the other, both are the same. -/
theorem of_countP_eq {p q : α → Bool} {rows : List α} (implied : ∀ row ∈ rows, p row → q row)
    (same : rows.countP p = rows.countP q) : ∀ row ∈ rows, q row → p row := by
  have both : (rows.filter q).filter p = rows.filter p := by
    rw [List.filter_filter]
    apply List.filter_congr
    intro row member
    cases meets : p row with
    | true => rw [implied row member meets, Bool.and_true]
    | false => rw [Bool.false_and]
  have all : (rows.filter q).filter p = rows.filter q := by
    apply List.filter_sublist.eq_of_length
    rw [both, ← List.countP_eq_length_filter, ← List.countP_eq_length_filter, same]
  intro row member meets
  have kept : row ∈ (rows.filter q).filter p := by
    rw [all]
    exact List.mem_filter.mpr ⟨member, meets⟩
  exact (List.mem_filter.mp kept).2

/-! ## Left joins -/

/-- The rows of the right side that match, or a single `NULL` where there is none. -/
def partners (right : List β) (on : α → β → Bool) (a : α) : List (Option β) :=
  let found := right.filter (on a)
  if found.isEmpty then [none] else found.map some

/-- `left join right on`. -/
def leftJoin (left : List α) (right : List β) (on : α → β → Bool) : List (α × Option β) :=
  left.flatMap fun a => (partners right on a).map fun b => (a, b)

section LeftJoin

variable {left : List α} {right : List β} {on : α → β → Bool}

/-- A left join is counted row by row of its left side. -/
theorem countP_leftJoin (p : α × Option β → Bool) : (leftJoin left right on).countP p =
    (left.map fun a => (partners right on a).countP fun b => p (a, b)).sum := by
  rw [leftJoin, List.countP_flatMap]
  simp only [List.countP_map, Function.comp_def]

/-- Without a match there is still one row. -/
theorem partners_length (a : α) :
    (partners right on a).length = max 1 (right.filter (on a)).length := by
  cases found : right.filter (on a) with
  | nil => simp [partners, found]
  | cons b rest => simp [partners, found]

/-- A condition that `NULL` does not meet counts the matches. -/
theorem partners_countP {q : Option β → Bool} (noNull : q none = false) (a : α) :
    (partners right on a).countP q = (right.filter (on a)).countP fun b => q (some b) := by
  cases found : right.filter (on a) with
  | nil => simp [partners, found, noNull]
  | cons b rest =>
    rw [partners, found, List.isEmpty_cons, if_neg Bool.false_ne_true, List.countP_map]
    rfl

/-- Where no row has two matches, each row is joined with its match. -/
theorem leftJoin_of_single
    (single : ∀ a ∈ left, (right.filter (on a)).length ≤ 1) :
    leftJoin left right on = left.map fun a => (a, right.find? (on a)) := by
  have joined : ∀ a ∈ left, (partners right on a).map (fun b => (a, b)) =
      [(a, right.find? (on a))] := by
    intro a member
    have few := single a member
    rw [← List.head?_filter]
    cases found : right.filter (on a) with
    | nil => simp [partners, found]
    | cons b rest =>
      rw [found, List.length_cons] at few
      have nothing : rest = [] := List.eq_nil_of_length_eq_zero (by omega)
      simp [partners, found, nothing]
  rw [leftJoin, List.flatMap_congr joined, List.map_eq_flatMap]

end LeftJoin

/-! ## Groups -/

/-- `group by`: the values of the expression, each with its rows. -/
def groupBy [DecidableEq κ] (expression : α → κ) (rows : List α) : List (κ × List α) :=
  (rows.map expression).dedup.map fun value =>
    (value, rows.filter fun row => decide (expression row = value))

section Groups

variable [DecidableEq κ] (expression : α → κ) (rows : List α)

/-- Every row is in one group. -/
theorem sum_groupBy : ((groupBy expression rows).map fun group => group.2.length).sum =
    rows.length := by
  have sizes : ∀ value, (rows.filter fun row => decide (expression row = value)).length =
      (rows.map expression).count value := by
    intro value
    rw [← List.countP_eq_length_filter, List.count, List.countP_map]
    exact List.countP_congr fun row _ => by simp
  rw [groupBy, List.map_map]
  simp only [Function.comp_def, sizes]
  rw [List.sum_map_count_dedup_eq_length, List.length_map]

/-- The groups are those of the values of the rows. -/
theorem mem_groupBy {group : κ × List α} : group ∈ groupBy expression rows ↔
    (∃ row ∈ rows, expression row = group.1) ∧
      group.2 = rows.filter fun row => decide (expression row = group.1) := by
  rw [groupBy, List.mem_map]
  constructor
  · intro listed
    obtain ⟨value, member, same⟩ := listed
    rw [List.mem_dedup, List.mem_map] at member
    rw [← same]
    exact ⟨member, rfl⟩
  · intro both
    apply Exists.intro group.1
    constructor
    · rw [List.mem_dedup, List.mem_map]
      exact both.1
    · rw [← both.2]

/-- No two groups have the same value. -/
theorem groupBy_values : (groupBy expression rows).map Prod.fst = (rows.map expression).dedup := by
  rw [groupBy, List.map_map]
  exact List.map_id _

end Groups

/-! ## Sorting -/

/-- Sorting by an expression puts its values in order. -/
theorem map_mergeSort [LinearOrder κ] {expression : α → κ} {rows : List α} {values : List κ}
    (ascending : values.Pairwise (· < ·)) (same : (rows.map expression).Perm values) :
    (rows.mergeSort fun x y => decide (expression x ≤ expression y)).map expression = values := by
  have sorted : (rows.mergeSort fun x y => decide (expression x ≤ expression y)).Pairwise
      fun x y => decide (expression x ≤ expression y) = true := by
    apply List.pairwise_mergeSort
    · intro x y z first second
      exact decide_eq_true (le_trans (of_decide_eq_true first) (of_decide_eq_true second))
    · intro x y
      rw [Bool.or_eq_true, decide_eq_true_iff, decide_eq_true_iff]
      exact le_total _ _
  have ordered : ((rows.mergeSort fun x y => decide (expression x ≤ expression y)).map
      expression).Pairwise (· ≤ ·) := by
    rw [List.pairwise_map]
    exact sorted.imp fun le => of_decide_eq_true le
  have perm := ((List.mergeSort_perm rows fun x y =>
    decide (expression x ≤ expression y)).map expression).trans same
  exact perm.eq_of_pairwise (fun _ _ _ _ le ge => le_antisymm le ge) ordered
    (ascending.imp le_of_lt)

end FcTpms.Relational
