import Mathlib.Computability.RegularExpressions

/-!
# Patterns of texts

The languages of the regular expressions that formats are written with: a letter out of a class, a
text of such letters, and items with a separator between them.
-/

namespace FcTpms.Text

variable {α : Type}

/-- A letter out of a class, `[...]`. -/
def oneOf (letters : List α) : RegularExpression α :=
  letters.foldr (fun letter others => .char letter + others) 0

/-- One occurrence or more, `...+`. -/
def oneOrMore (item : RegularExpression α) : RegularExpression α := item * item.star

/-- Items with a separator between them. -/
def separated (separator : α) (item : RegularExpression α) : RegularExpression α :=
  item * (.char separator * item).star

/-- The language of one letter. -/
theorem mem_char (letter : α) (text : List α) :
    text ∈ (RegularExpression.char letter).matches' ↔ text = [letter] := by
  rw [RegularExpression.matches'_char]
  exact Set.mem_singleton_iff

/-- The language of a class. -/
theorem mem_oneOf (letters text : List α) :
    text ∈ (oneOf letters).matches' ↔ ∃ letter ∈ letters, text = [letter] := by
  induction letters with
  | nil =>
    rw [oneOf, List.foldr_nil, RegularExpression.matches'_zero]
    simp
  | cons letter others hypothesis =>
    have first : oneOf (letter :: others) = .char letter + oneOf others := rfl
    rw [first, RegularExpression.matches'_add, Language.mem_add, hypothesis, mem_char]
    simp

/-- The language of texts over a class. -/
theorem mem_oneOrMore_oneOf (letters text : List α) :
    text ∈ (oneOrMore (oneOf letters)).matches' ↔
      text ≠ [] ∧ ∀ letter ∈ text, letter ∈ letters := by
  rw [oneOrMore, RegularExpression.matches'_mul, RegularExpression.matches'_star, Language.mem_mul]
  constructor
  · rintro ⟨first, firstIn, others, othersIn, rfl⟩
    obtain ⟨letter, member, rfl⟩ := (mem_oneOf letters first).mp firstIn
    obtain ⟨items, rfl, itemsIn⟩ := Language.mem_kstar.mp othersIn
    constructor
    · simp
    · intro c there
      rcases List.mem_cons.mp there with same | later
      · rw [same]
        exact member
      · obtain ⟨item, listed, inItem⟩ := List.mem_flatten.mp later
        obtain ⟨d, dMember, rfl⟩ := (mem_oneOf letters item).mp (itemsIn item listed)
        rw [List.mem_singleton.mp inItem]
        exact dMember
  · rintro ⟨nonempty, lettersIn⟩
    cases text with
    | nil => exact absurd rfl nonempty
    | cons letter rest =>
      have restIn : (rest.map fun c => [c]).flatten ∈ KStar.kstar (oneOf letters).matches' := by
        apply Language.join_mem_kstar
        intro item listed
        obtain ⟨c, there, rfl⟩ := List.mem_map.mp listed
        exact (mem_oneOf _ _).mpr ⟨c, lettersIn c (List.mem_cons_of_mem _ there), rfl⟩
      have firstIn :=
        (mem_oneOf letters [letter]).mpr ⟨letter, lettersIn letter List.mem_cons_self, rfl⟩
      have letterByLetter : (rest.map fun c => [c]).flatten = rest := by
        rw [← List.flatMap_def]
        exact List.flatMap_singleton' rest
      exact ⟨[letter], firstIn, _, restIn, by rw [letterByLetter]; rfl⟩

/-- Items that each follow a separator. -/
theorem mem_star_separated (separator : α) (item : RegularExpression α) (text : List α) :
    text ∈ (RegularExpression.char separator * item).star.matches' ↔
      ∃ items : List (List α), (∀ one ∈ items, one ∈ item.matches') ∧
        text = (items.map fun one => separator :: one).flatten := by
  rw [RegularExpression.matches'_star, RegularExpression.matches'_mul]
  constructor
  · intro member
    obtain ⟨pieces, rfl, piecesIn⟩ := Language.mem_kstar.mp member
    induction pieces with
    | nil => exact ⟨[], by simp, rfl⟩
    | cons piece others hypothesis =>
      have othersIn := fun y listed => piecesIn y (List.mem_cons_of_mem _ listed)
      obtain ⟨items, itemsIn, joined⟩ := hypothesis othersIn (Language.join_mem_kstar othersIn)
      obtain ⟨point, pointIn, one, oneIn, apart⟩ :=
        Language.mem_mul.mp (piecesIn piece List.mem_cons_self)
      rw [(mem_char separator point).mp pointIn] at apart
      refine ⟨one :: items, ?_, ?_⟩
      · intro other listed
        rcases List.mem_cons.mp listed with same | later
        · rw [same]
          exact oneIn
        · exact itemsIn other later
      · rw [List.flatten_cons, joined, ← apart]
        rfl
  · rintro ⟨items, itemsIn, rfl⟩
    apply Language.join_mem_kstar
    intro piece listed
    obtain ⟨one, there, rfl⟩ := List.mem_map.mp listed
    exact Language.mem_mul.mpr
      ⟨[separator], (mem_char separator _).mpr rfl, one, itemsIn one there, rfl⟩

/-- A first item and the others, each after a separator, are an intercalated text. -/
theorem append_flatten_separated (separator : α) (first : List α) (items : List (List α)) :
    first ++ (items.map fun one => separator :: one).flatten =
      [separator].intercalate (first :: items) := by
  induction items generalizing first with
  | nil => simp [List.intercalate]
  | cons item others hypothesis =>
    rw [List.map_cons, List.flatten_cons, List.cons_append, hypothesis item]
    simp [List.intercalate]

/-- A text is made up of items exactly if all its parts between separators are items. -/
theorem mem_separated [DecidableEq α] {separator : α} {item : RegularExpression α}
    (free : ∀ text ∈ item.matches', separator ∉ text) (text : List α) :
    text ∈ (separated separator item).matches' ↔
      ∀ one ∈ text.splitOn separator, one ∈ item.matches' := by
  rw [separated, RegularExpression.matches'_mul, Language.mem_mul]
  constructor
  · rintro ⟨first, firstIn, others, othersIn, rfl⟩
    obtain ⟨items, itemsIn, rfl⟩ := (mem_star_separated separator item others).mp othersIn
    have all : ∀ one ∈ first :: items, one ∈ item.matches' := by
      simpa using ⟨firstIn, itemsIn⟩
    have apart := List.splitOn_intercalate separator (fun one listed => free one (all one listed))
      (List.cons_ne_nil first items)
    rw [append_flatten_separated, apart]
    exact all
  · intro parts
    have whole : [separator].intercalate (text.splitOn separator) = text :=
      List.intercalate_splitOn separator
    cases same : text.splitOn separator with
    | nil => exact absurd same (List.splitOn_ne_nil separator text)
    | cons first items =>
      rw [same] at parts whole
      have itemsIn : ∀ one ∈ items, one ∈ item.matches' := by
        intro one listed
        exact parts one (List.mem_cons_of_mem _ listed)
      refine ⟨first, parts first List.mem_cons_self, _,
        (mem_star_separated separator item _).mpr ⟨items, itemsIn, rfl⟩, ?_⟩
      rw [append_flatten_separated, whole]

end FcTpms.Text
