import Mathlib.Data.List.DropRight
import Mathlib.Data.List.Infix

/-!
# Fields of a text

Java splits a text at a separator and leaves out the empty strings at the end. Fields that are not
empty, each followed by the separator, are found again, whatever comes behind them.
-/

namespace FcTpms.Text

/-- `String.split` at a separator: the empty strings at the end of the array are left out, and a
text without the separator stays whole. -/
def splitFields (separator : Char) (text : List Char) : List (List Char) :=
  if separator ∈ text then (text.splitOn separator).rdropWhile List.isEmpty else [text]

/-- `String.trim`. -/
def trim (text : List Char) : List Char :=
  (text.dropWhile (· ≤ ' ')).rdropWhile (· ≤ ' ')

/-- `Arrays.copyOfRange` from the start of an array on, with null behind its end. -/
def copyOfRange (fields : List (List Char)) (count : ℕ) : List (Option (List Char)) :=
  (List.range count).map (fields[·]?)

/-- `TextUtils.join`; Java writes null as a word. -/
def joinFields (separator : Char) (fields : List (Option (List Char))) : List Char :=
  [separator].intercalate (fields.map fun field => field.getD "null".toList)

/-- Fields with the separator behind each of them, and a rest. -/
def terminated (separator : Char) (rest : List Char) : List (List Char) → List Char
  | [] => rest
  | field :: fields => field ++ separator :: terminated separator rest fields

/-- Dropping from the end leaves what stands before an element that is kept. -/
theorem append_prefix_rdropWhile {α : Type} (keep : α → Bool) (front : List α) (last : α)
    (back : List α) (kept : keep last = false) :
    front ++ [last] <+: (front ++ last :: back).rdropWhile keep := by
  induction back using List.reverseRecOn with
  | nil =>
    rw [List.rdropWhile_concat_neg _ _ _ (by simp [kept])]
  | append_singleton back one ih =>
    have whole : front ++ last :: (back ++ [one]) = front ++ last :: back ++ [one] := by simp
    rw [whole, List.rdropWhile_concat]
    split
    · exact ih
    · have before : front ++ last :: back ++ [one] = front ++ [last] ++ (back ++ [one]) := by simp
      rw [before]
      exact List.prefix_append _ _

/-- Terminated fields are split off one after the other. -/
theorem splitOn_terminated (separator : Char) (rest : List Char) (fields : List (List Char))
    (apart : ∀ field ∈ fields, separator ∉ field) :
    (terminated separator rest fields).splitOn separator = fields ++ rest.splitOn separator := by
  induction fields with
  | nil => rfl
  | cons field fields ih =>
    have here := apart field List.mem_cons_self
    rw [terminated, List.splitOn_append_cons_self, List.splitOn_eq_singleton here,
      ih fun other member => apart other (List.mem_cons_of_mem _ member)]
    rfl

/-- Terminated fields are found by `split`, if the last of them is not empty. -/
theorem splitFields_terminated {separator : Char} (rest : List Char) (front : List (List Char))
    {last : List Char} (apart : ∀ field ∈ front ++ [last], separator ∉ field)
    (nonempty : last ≠ []) :
    front ++ [last] <+: splitFields separator (terminated separator rest (front ++ [last])) := by
  have there : separator ∈ terminated separator rest (front ++ [last]) := by
    cases front with
    | nil => simp [terminated]
    | cons field front => simp [terminated]
  have whole : front ++ [last] ++ rest.splitOn separator =
      front ++ last :: rest.splitOn separator := by simp
  rw [splitFields, if_pos there, splitOn_terminated separator rest _ apart, whole]
  apply append_prefix_rdropWhile
  cases last with
  | nil => exact absurd rfl nonempty
  | cons => rfl

/-- Fields with the separator between them are found, if the last one is not empty. -/
theorem splitFields_separated {separator : Char} (front : List (List Char)) {last : List Char}
    (some : front ≠ []) (apart : ∀ field ∈ front ++ [last], separator ∉ field)
    (nonempty : last ≠ []) :
    front ++ [last] <+: splitFields separator (terminated separator last front) := by
  have there : separator ∈ terminated separator last front := by
    cases front with
    | nil => exact absurd rfl some
    | cons field front => simp [terminated]
  have before : ∀ field ∈ front, separator ∉ field :=
    fun field member => apart field (List.mem_append_left _ member)
  have here : separator ∉ last := apart last (by simp)
  rw [splitFields, if_pos there, splitOn_terminated separator last _ before,
    List.splitOn_eq_singleton here]
  apply append_prefix_rdropWhile
  cases last with
  | nil => exact absurd rfl nonempty
  | cons => rfl

/-- The word behind the first one is found, if it is not empty. -/
theorem splitFields_second {separator : Char} (first text : List Char)
    (apart : separator ∉ first) (nonempty : text.takeWhile (· ≠ separator) ≠ []) :
    [first, text.takeWhile (· ≠ separator)] <+:
      splitFields separator (first ++ separator :: text) := by
  have free : separator ∉ text.takeWhile (· ≠ separator) := by
    intro member
    have differs := List.mem_takeWhile_imp member
    simp at differs
  have fields : ∀ field ∈ [first] ++ [text.takeWhile (· ≠ separator)], separator ∉ field := by
    intro field member
    rcases List.mem_append.mp member with one | other
    · rw [List.mem_singleton.mp one]
      exact apart
    · rw [List.mem_singleton.mp other]
      exact free
  have parts := List.takeWhile_append_dropWhile (p := fun c => decide (c ≠ separator)) (l := text)
  cases behind : text.dropWhile (· ≠ separator) with
  | nil =>
    rw [behind, List.append_nil] at parts
    have whole : first ++ separator :: text =
        terminated separator (text.takeWhile (· ≠ separator)) [first] := by
      rw [parts]
      rfl
    rw [whole]
    exact splitFields_separated _ (by simp) fields nonempty
  | cons c rest =>
    have stops : c = separator := by
      have ended := List.head?_dropWhile_not (fun c => decide (c ≠ separator)) text
      rw [behind] at ended
      simpa using ended
    rw [behind, stops] at parts
    have whole : first ++ separator :: text =
        terminated separator rest ([first] ++ [text.takeWhile (· ≠ separator)]) := by
      change first ++ separator :: text =
        first ++ separator :: (text.takeWhile (· ≠ separator) ++ separator :: rest)
      rw [parts]
    rw [whole]
    exact splitFields_terminated rest _ fields nonempty

/-- Empty fields are found if something comes behind them, and none of them otherwise. -/
theorem splitFields_empty (separator : Char) (rest : List Char) (count : ℕ) :
    splitFields separator (terminated separator rest (List.replicate (count + 1) [])) = [] ∨
      List.replicate (count + 1) [] <+:
        splitFields separator (terminated separator rest (List.replicate (count + 1) [])) := by
  have there : separator ∈ terminated separator rest (List.replicate (count + 1) []) := by
    simp [terminated, List.replicate_succ]
  have apart : ∀ field ∈ List.replicate (count + 1) ([] : List Char), separator ∉ field := by
    intro field member
    rw [List.eq_of_mem_replicate member]
    exact List.not_mem_nil
  rw [splitFields, if_pos there, splitOn_terminated separator rest _ apart]
  by_cases all : ∀ field ∈ rest.splitOn separator, field.isEmpty = true
  · apply Or.inl
    rw [List.rdropWhile_eq_nil_iff]
    intro field member
    rcases List.mem_append.mp member with first | second
    · rw [List.eq_of_mem_replicate first]
      rfl
    · exact all field second
  · apply Or.inr
    push Not at all
    rcases all with ⟨field, member, kept⟩
    rcases List.append_of_mem member with ⟨early, late, split⟩
    rw [split, ← List.append_assoc]
    have before := append_prefix_rdropWhile List.isEmpty
      (List.replicate (count + 1) [] ++ early) field late (by simpa using kept)
    rw [List.append_assoc] at before
    exact (List.prefix_append _ _).trans before

/-- A field of a prefix is a field. -/
theorem getElem?_of_prefix {α : Type} {front fields : List α} (begins : front <+: fields) {i : ℕ}
    (inside : i < front.length) : fields[i]? = front[i]? := by
  rcases begins with ⟨rest, rfl⟩
  exact List.getElem?_append_left inside

/-- The range of an array that begins with the fields is these fields. -/
theorem copyOfRange_of_prefix {front fields : List (List Char)} (begins : front <+: fields) :
    copyOfRange fields front.length = front.map some := by
  apply List.ext_getElem?
  intro i
  rw [copyOfRange, List.getElem?_map, List.getElem?_map]
  by_cases inside : i < front.length
  · rw [List.getElem?_range inside, List.getElem?_eq_getElem inside, Option.map_some,
      Option.map_some, getElem?_of_prefix begins inside, List.getElem?_eq_getElem inside]
  · have past : front.length ≤ i := Nat.le_of_not_lt inside
    rw [List.getElem?_eq_none (by simpa using past), List.getElem?_eq_none past]
    rfl

end FcTpms.Text
