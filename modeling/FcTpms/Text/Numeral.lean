import Mathlib.Data.List.TakeWhile
import Mathlib.Data.Rat.Floor
import Mathlib.Tactic.Linarith

/-!
# Numbers in texts

Integers as Java writes and reads them, and the numbers that `atof` of the C library reads. An
integer that one program writes, the other reads back.
-/

namespace FcTpms.Text

/-- An integer in decimal digits, as Java concatenates it to a text. -/
def integerText (value : ℤ) : List Char :=
  if value < 0 then '-' :: Nat.toDigits 10 value.natAbs else Nat.toDigits 10 value.natAbs

/-- The sign at the front of a number, and the text after it. -/
def splitSign : List Char → Bool × List Char
  | '-' :: rest => (true, rest)
  | '+' :: rest => (false, rest)
  | text => (false, text)

/-- A magnitude with a sign. -/
def signed {α : Type} [Neg α] (negative : Bool) (magnitude : α) : α :=
  if negative then -magnitude else magnitude

/-- `Integer.parseInt`: `none` where it throws a `NumberFormatException`. -/
def parseInt (text : List Char) : Option ℤ :=
  let (negative, digits) := splitSign text
  let value := signed negative (Nat.ofDigitChars 10 digits 0 : ℤ)
  if digits ≠ [] ∧ digits.all Char.isDigit ∧ -2147483648 ≤ value ∧ value < 2147483648 then
    some value
  else none

/-- The fraction after a decimal point, and the text after it. -/
def splitFraction : List Char → List Char × List Char
  | '.' :: rest => (rest.takeWhile Char.isDigit, rest.dropWhile Char.isDigit)
  | text => ([], text)

/-- The exponent of a number, zero if there is none. -/
def exponentOf : List Char → ℤ
  | 'e' :: rest | 'E' :: rest =>
    let (negative, digits) := splitSign rest
    signed negative (Nat.ofDigitChars 10 (digits.takeWhile Char.isDigit) 0 : ℤ)
  | _ => 0

/-- `atof`, for decimal numbers; integers and fractions of some fifteen digits are exact in a
`double`. The hexadecimal forms, `inf` and `nan`, which `atof` also reads, are not read here. -/
def atof (text : List Char) : ℚ :=
  let (negative, body) := splitSign (text.dropWhile Char.isWhitespace)
  let whole := body.takeWhile Char.isDigit
  let (fraction, rest) := splitFraction (body.dropWhile Char.isDigit)
  let mantissa : ℚ := (Nat.ofDigitChars 10 (whole ++ fraction) 0 : ℕ)
  signed negative (mantissa * 10 ^ (exponentOf rest - fraction.length))

/-- A decimal numeral has digits only. -/
theorem isDigit_of_mem {value : ℕ} {c : Char} (there : c ∈ Nat.toDigits 10 value) :
    c.isDigit = true :=
  Nat.isDigit_of_mem_toDigits (by decide) (by decide) there

/-- Digits have no sign. -/
theorem splitSign_digits {text : List Char} (digits : ∀ c ∈ text, c.isDigit = true) :
    splitSign text = (false, text) := by
  cases text with
  | nil => rfl
  | cons c rest =>
    have digit := digits c List.mem_cons_self
    unfold splitSign
    split
    · rename_i same
      rw [(List.cons.inj same).1] at digit
      contradiction
    · rename_i same
      rw [(List.cons.inj same).1] at digit
      contradiction
    · rfl

/-- The sign and the digits of an integer. -/
theorem splitSign_integerText (value : ℤ) :
    splitSign (integerText value) = (decide (value < 0), Nat.toDigits 10 value.natAbs) := by
  rw [integerText]
  by_cases negative : value < 0
  · rw [if_pos negative, decide_eq_true negative]
    rfl
  · rw [if_neg negative, decide_eq_false negative]
    exact splitSign_digits fun _ there => isDigit_of_mem there

/-- An integer is its magnitude with its sign. -/
theorem signed_natAbs (value : ℤ) : signed (decide (value < 0)) (value.natAbs : ℤ) = value := by
  unfold signed
  split
  · rename_i negative
    have : value < 0 := by simpa using negative
    omega
  · rename_i negative
    have : ¬ value < 0 := by simpa using negative
    omega

/-- What Java writes, it reads back, if it fits an `int`. -/
theorem parseInt_integerText (value : ℤ) :
    parseInt (integerText value) =
      if -2147483648 ≤ value ∧ value < 2147483648 then some value else none := by
  have digits : (Nat.toDigits 10 value.natAbs).all Char.isDigit = true := by
    rw [List.all_eq_true]
    exact fun _ there => isDigit_of_mem there
  have nonempty : Nat.toDigits 10 value.natAbs ≠ [] := Nat.toDigits_ne_nil
  simp only [parseInt, splitSign_integerText, Nat.ofDigitChars_ten_toDigits, signed_natAbs,
    digits, ne_eq, nonempty, not_false_eq_true, true_and]

/-- Java reads digits as the number they write, leading zeros or not, if it fits an `int`. -/
theorem parseInt_digits {text : List Char} (nonempty : text ≠ [])
    (digits : text.all Char.isDigit = true) (fits : Nat.ofDigitChars 10 text 0 < 2 ^ 31) :
    parseInt text = some (Nat.ofDigitChars 10 text 0 : ℤ) := by
  have unsigned := splitSign_digits (List.all_eq_true.mp digits)
  have low : (-2147483648 : ℤ) ≤ (Nat.ofDigitChars 10 text 0 : ℤ) := by omega
  have high : (Nat.ofDigitChars 10 text 0 : ℤ) < 2147483648 := by omega
  simp only [parseInt, unsigned, signed, Bool.false_eq_true, if_false]
  rw [if_pos ⟨nonempty, digits, low, high⟩]

/-- What Java writes, `atof` reads. -/
theorem atof_integerText (value : ℤ) : atof (integerText value) = value := by
  have noSpace : (integerText value).dropWhile Char.isWhitespace = integerText value := by
    rw [integerText]
    split
    · rfl
    · cases shape : Nat.toDigits 10 value.natAbs with
      | nil => rfl
      | cons c rest =>
        have digit : c.isDigit = true := isDigit_of_mem (by rw [shape]; simp)
        have visible : ¬ c.isWhitespace = true := by
          intro space
          simp only [Char.isWhitespace, Bool.or_eq_true, decide_eq_true_eq] at space
          rcases space with ((rfl | rfl) | rfl) | rfl <;> contradiction
        rw [List.dropWhile_cons_of_neg visible]
  have whole : (Nat.toDigits 10 value.natAbs).takeWhile Char.isDigit =
      Nat.toDigits 10 value.natAbs :=
    List.takeWhile_eq_self_iff.mpr fun _ there => isDigit_of_mem there
  have rest : (Nat.toDigits 10 value.natAbs).dropWhile Char.isDigit = [] :=
    List.dropWhile_eq_nil_iff.mpr fun _ there => isDigit_of_mem there
  simp only [atof, noSpace, splitSign_integerText, whole, rest, splitFraction, List.append_nil,
    exponentOf, Nat.ofDigitChars_ten_toDigits, List.length_nil]
  have magnitude := congrArg (fun number : ℤ => (number : ℚ)) (signed_natAbs value)
  simp only [signed] at magnitude ⊢
  split at magnitude <;> rename_i negative
  · rw [if_pos negative]
    push_cast at magnitude ⊢
    simpa using magnitude
  · rw [if_neg negative]
    push_cast at magnitude ⊢
    simpa using magnitude

end FcTpms.Text
