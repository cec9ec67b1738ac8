import FcTpms.Text.Fields
import FcTpms.Text.Numeral
import Mathlib.Algebra.Order.Ring.Abs
import Mathlib.Tactic.FieldSimp
import Mathlib.Tactic.IntervalCases

/-!
# Numbers from C to Java

Numbers as the conversions `%lX` and `%lf` of the C library write them, and as Java reads them
back. Addresses come back from hexadecimal digits, with zeros in front or without; decimal fractions
come back if six digits hold them.
-/

namespace FcTpms.Text

/-! ## Hexadecimal numbers -/

/-- `%lX`. -/
def hexText (value : ℕ) : List Char := (Nat.toDigits 16 value).map Char.toUpper

/-- `Character.digit` with the radix sixteen, for ASCII characters. -/
def hexDigit (c : Char) : Option ℕ :=
  if '0' ≤ c ∧ c ≤ '9' then some (c.toNat - '0'.toNat)
  else if 'a' ≤ c ∧ c ≤ 'f' then some (c.toNat - 'a'.toNat + 10)
  else if 'A' ≤ c ∧ c ≤ 'F' then some (c.toNat - 'A'.toNat + 10)
  else none

/-- The value of hexadecimal digits behind a value. -/
def hexValue : List Char → ℕ → Option ℕ
  | [], value => some value
  | c :: rest, value => (hexDigit c).bind fun digit => hexValue rest (value * 16 + digit)

/-- `Integer.parseInt` with the radix sixteen: `none` where it throws a
`NumberFormatException`. -/
def parseHex (text : List Char) : Option ℤ :=
  let (negative, digits) := splitSign text
  if digits = [] then none
  else (hexValue digits 0).bind fun magnitude =>
    let value := signed negative (magnitude : ℤ)
    if -2147483648 ≤ value ∧ value < 2147483648 then some value else none

/-- A digit is read as it was written. -/
theorem hexDigit_digitChar {digit : ℕ} (small : digit < 16) :
    hexDigit digit.digitChar.toUpper = some digit := by
  interval_cases digit <;> rfl

theorem hexValue_append (front back : List Char) (value : ℕ) :
    hexValue (front ++ back) value = (hexValue front value).bind fun middle =>
      hexValue back middle := by
  induction front generalizing value with
  | nil => rfl
  | cons c front ih =>
    rw [List.cons_append, hexValue, hexValue]
    cases hexDigit c with
    | none => rfl
    | some digit => exact ih _

/-- Zeros in front do not count. -/
theorem hexValue_zeros (count : ℕ) (text : List Char) :
    hexValue (List.replicate count '0' ++ text) 0 = hexValue text 0 := by
  induction count with
  | zero => rfl
  | succ count ih => exact ih

/-- What `%lX` writes is read as the same value. -/
theorem hexValue_hexText (value : ℕ) : hexValue (hexText value) 0 = some value := by
  induction value using Nat.strong_induction_on with
  | _ value ih =>
    rw [hexText, Nat.toDigits_eq_if (by decide)]
    by_cases small : value < 16
    · rw [if_pos small, List.map_singleton, hexValue, hexDigit_digitChar small]
      simp [hexValue]
    · have shorter := ih (value / 16) (by omega)
      rw [hexText] at shorter
      rw [if_neg small, List.map_append, hexValue_append, shorter, Option.bind_some,
        List.map_singleton, hexValue, hexDigit_digitChar (Nat.mod_lt _ (by decide)),
        Option.bind_some, hexValue, Nat.div_add_mod' value 16]

/-- A hexadecimal numeral is made of digits and capital letters. -/
theorem mem_hexText {value : ℕ} {c : Char} (there : c ∈ hexText value) :
    ∃ digit < 16, c = digit.digitChar.toUpper := by
  induction value using Nat.strong_induction_on with
  | _ value ih =>
    rw [hexText, Nat.toDigits_eq_if (by decide)] at there
    by_cases small : value < 16
    · rw [if_pos small, List.map_singleton, List.mem_singleton] at there
      exact ⟨value, small, there⟩
    · rw [if_neg small, List.map_append, List.mem_append, List.map_singleton,
        List.mem_singleton] at there
      rcases there with front | last
      · exact ih (value / 16) (by omega) front
      · exact ⟨value % 16, Nat.mod_lt _ (by decide), last⟩

/-- How long a hexadecimal numeral is. -/
theorem hexText_length_le {value count : ℕ} (some : 0 < count) :
    (hexText value).length ≤ count ↔ value < 16 ^ count := by
  rw [hexText, List.length_map]
  exact Nat.length_toDigits_le_iff (by decide) some

/-- Java reads a hexadecimal numeral with zeros in front, if its value fits an `int`. -/
theorem parseHex_hexText {value : ℕ} (fits : value < 2 ^ 31) (count : ℕ) :
    parseHex (List.replicate count '0' ++ hexText value) = some (value : ℤ) := by
  have clean : ∀ c ∈ List.replicate count '0' ++ hexText value, c ≠ '-' ∧ c ≠ '+' := by
    intro c member
    rcases List.mem_append.mp member with zero | digit
    · rw [List.eq_of_mem_replicate zero]
      decide
    · rcases mem_hexText digit with ⟨one, small, rfl⟩
      interval_cases one <;> decide
  have unsigned : splitSign (List.replicate count '0' ++ hexText value) =
      (false, List.replicate count '0' ++ hexText value) := by
    cases shape : List.replicate count '0' ++ hexText value with
    | nil => rfl
    | cons c rest =>
      have here := clean c (by rw [shape]; exact List.mem_cons_self)
      unfold splitSign
      split
      · rename_i same
        exact absurd (List.cons.inj same).1 here.1
      · rename_i same
        exact absurd (List.cons.inj same).1 here.2
      · rfl
  have nonempty : List.replicate count '0' ++ hexText value ≠ [] := by
    intro empty
    have short := congrArg List.length (List.append_eq_nil_iff.mp empty).2
    have long := Nat.length_toDigits_pos (b := 16) (n := value)
    rw [hexText, List.length_map, List.length_nil] at short
    omega
  have read : hexValue (List.replicate count '0' ++ hexText value) 0 = some value := by
    rw [hexValue_zeros, hexValue_hexText]
  have bounds : (-2147483648 : ℤ) ≤ (value : ℤ) ∧ (value : ℤ) < 2147483648 := by omega
  have plain : signed false (value : ℤ) = value := rfl
  rw [parseHex, unsigned]
  dsimp only
  rw [if_neg nonempty, read, Option.bind_some, plain, if_pos bounds]

/-! ## Decimal fractions -/

/-- The nearest integer, and of two as near the even one. -/
def roundHalfEven (value : ℚ) : ℤ :=
  let low := ⌊value⌋
  if value - low < 1 / 2 then low
  else if 1 / 2 < value - low then low + 1
  else if low % 2 = 0 then low else low + 1

/-- `%lf`. -/
def fixedText (value : ℚ) : List Char :=
  let millionths := (roundHalfEven (|value| * 1000000)).toNat
  let magnitude := Nat.toDigits 10 (millionths / 1000000) ++
    '.' :: (Nat.toDigits 10 (millionths % 1000000)).leftpad 6 '0'
  if value < 0 then '-' :: magnitude else magnitude

/-- `Double.parseDouble` for digits with or without a point: `none` where it throws a
`NumberFormatException`. -/
def parseDouble (text : List Char) : Option ℚ :=
  let (negative, body) := splitSign (trim text)
  let whole := body.takeWhile Char.isDigit
  let (fraction, rest) := splitFraction (body.dropWhile Char.isDigit)
  if rest = [] ∧ whole ++ fraction ≠ [] then
    some (signed negative ((Nat.ofDigitChars 10 (whole ++ fraction) 0 : ℕ) /
      (10 : ℚ) ^ fraction.length))
  else none

@[simp] theorem roundHalfEven_natCast (value : ℕ) : roundHalfEven (value : ℚ) = value := by
  have low : ⌊(value : ℚ)⌋ = (value : ℤ) := Int.floor_natCast value
  have none : (value : ℚ) - ((value : ℤ) : ℚ) < 1 / 2 := by
    rw [Int.cast_natCast, sub_self]
    norm_num
  rw [roundHalfEven, low, if_pos none]

/-- The six digits behind the point. -/
theorem length_fraction {millionths : ℕ} (small : millionths < 1000000) :
    ((Nat.toDigits 10 millionths).leftpad 6 '0').length = 6 := by
  have most := (Nat.length_toDigits_le_iff (b := 10) (n := millionths) (k := 6) (by decide)
    (by decide)).mpr small
  rw [List.leftpad, List.length_append, List.length_replicate]
  omega

theorem isDigit_fraction {millionths : ℕ} {c : Char}
    (there : c ∈ (Nat.toDigits 10 millionths).leftpad 6 '0') : c.isDigit = true := by
  rw [List.leftpad, List.mem_append] at there
  rcases there with zero | digit
  · rw [List.eq_of_mem_replicate zero]
    rfl
  · exact isDigit_of_mem digit

/-- The characters of a decimal fraction. -/
theorem mem_fixedText {value : ℚ} {c : Char} (there : c ∈ fixedText value) :
    c.isDigit = true ∨ c = '.' ∨ c = '-' := by
  have magnitude (millionths : ℕ) (member : c ∈ Nat.toDigits 10 (millionths / 1000000) ++
      '.' :: (Nat.toDigits 10 (millionths % 1000000)).leftpad 6 '0') :
      c.isDigit = true ∨ c = '.' ∨ c = '-' := by
    rcases List.mem_append.mp member with whole | fraction
    · exact Or.inl (isDigit_of_mem whole)
    · rcases List.mem_cons.mp fraction with point | digit
      · exact Or.inr (Or.inl point)
      · exact Or.inl (isDigit_fraction digit)
  unfold fixedText at there
  dsimp only at there
  split at there
  · rcases List.mem_cons.mp there with sign | rest
    · exact Or.inr (Or.inr sign)
    · exact magnitude _ rest
  · exact magnitude _ there

/-- A decimal fraction has at least eight characters. -/
theorem fixedText_length (value : ℚ) : 8 ≤ (fixedText value).length := by
  have magnitude (millionths : ℕ) : 8 ≤ (Nat.toDigits 10 (millionths / 1000000) ++
      '.' :: (Nat.toDigits 10 (millionths % 1000000)).leftpad 6 '0').length := by
    have whole := Nat.length_toDigits_pos (b := 10) (n := millionths / 1000000)
    rw [List.length_append, List.length_cons, length_fraction (Nat.mod_lt _ (by decide))]
    omega
  unfold fixedText
  dsimp only
  split
  · rw [List.length_cons]
    exact le_trans (magnitude _) (Nat.le_succ _)
  · exact magnitude _

/-- Nothing is trimmed from a text of visible characters. -/
theorem trim_eq_self {text : List Char} (visible : ∀ c ∈ text, ¬ c ≤ ' ') : trim text = text := by
  have front : text.dropWhile (· ≤ ' ') = text := by
    cases text with
    | nil => rfl
    | cons c rest =>
      exact List.dropWhile_cons_of_neg (by simpa using visible c List.mem_cons_self)
  rw [trim, front, List.rdropWhile_eq_self_iff]
  intro nonempty
  simpa using visible _ (List.getLast_mem nonempty)

theorem not_le_space_of_isDigit {c : Char} (digit : c.isDigit = true) : ¬ c ≤ ' ' := by
  intro low
  rw [Char.isDigit, Bool.and_eq_true, decide_eq_true_eq] at digit
  have first : '0'.val ≤ c.val := digit.1
  have last : c.val ≤ ' '.val := low
  exact absurd (UInt32.le_trans first last) (by decide)

/-- A value with six decimals comes back. -/
theorem parseDouble_fixedText {value : ℚ} {millionths : ℕ}
    (exact : |value| * 1000000 = millionths) :
    parseDouble (fixedText value) = some value := by
  obtain ⟨whole, wholes⟩ : ∃ whole, whole = Nat.toDigits 10 (millionths / 1000000) := ⟨_, rfl⟩
  obtain ⟨fraction, fractions⟩ : ∃ fraction,
    fraction = (Nat.toDigits 10 (millionths % 1000000)).leftpad 6 '0' := ⟨_, rfl⟩
  have shape : fixedText value =
      if value < 0 then '-' :: (whole ++ '.' :: fraction) else whole ++ '.' :: fraction := by
    rw [fixedText, exact, roundHalfEven_natCast, Int.toNat_natCast, wholes, fractions]
  have visible : ∀ c ∈ fixedText value, ¬ c ≤ ' ' := by
    intro c member
    rcases mem_fixedText member with digit | rfl | rfl
    · exact not_le_space_of_isDigit digit
    · decide
    · decide
  have digits : ∀ c ∈ whole, c.isDigit = true := by
    rw [wholes]
    exact fun c there => isDigit_of_mem there
  have decimals : ∀ c ∈ fraction, c.isDigit = true := by
    rw [fractions]
    exact fun c there => isDigit_fraction there
  have signs : splitSign (fixedText value) = (decide (value < 0), whole ++ '.' :: fraction) := by
    rw [shape]
    by_cases negative : value < 0
    · rw [if_pos negative, decide_eq_true negative]
      rfl
    · rw [if_neg negative, decide_eq_false negative]
      cases whole with
      | nil => rfl
      | cons c rest =>
        have digit := digits c List.mem_cons_self
        unfold splitSign
        split
        · rename_i same
          rw [(List.cons.inj same).1] at digit
          contradiction
        · rename_i same
          rw [(List.cons.inj same).1] at digit
          contradiction
        · rfl
  have front : (whole ++ '.' :: fraction).takeWhile Char.isDigit = whole := by
    rw [List.takeWhile_append_of_pos digits, List.takeWhile_cons_of_neg (by decide),
      List.append_nil]
  have back : (whole ++ '.' :: fraction).dropWhile Char.isDigit = '.' :: fraction := by
    rw [List.dropWhile_append_of_pos digits, List.dropWhile_cons_of_neg (by decide)]
  have split : splitFraction ('.' :: fraction) = (fraction, []) := by
    rw [splitFraction, List.takeWhile_eq_self_iff.mpr decimals,
      List.dropWhile_eq_nil_iff.mpr decimals]
  have count : fraction.length = 6 := by
    rw [fractions]
    exact length_fraction (Nat.mod_lt _ (by decide))
  have number : Nat.ofDigitChars 10 (whole ++ fraction) 0 = millionths := by
    rw [Nat.ofDigitChars_append, Nat.ofDigitChars_eq_ofDigitChars_zero, count, wholes,
      Nat.ofDigitChars_ten_toDigits, fractions, List.leftpad, Nat.ofDigitChars_append,
      Nat.ofDigitChars_replicate_zero, Nat.mul_zero, Nat.ofDigitChars_ten_toDigits]
    exact Nat.div_add_mod millionths 1000000
  have nonempty : whole ++ fraction ≠ [] := by
    intro empty
    have none := congrArg List.length (List.append_eq_nil_iff.mp empty).2
    rw [count] at none
    cases none
  have magnitude : (millionths : ℚ) / 10 ^ 6 = |value| := by
    rw [← exact]
    norm_num
  simp only [parseDouble, trim_eq_self visible, signs, front, back, split, nonempty, ne_eq,
    not_false_eq_true, and_self, if_true, number, count, magnitude]
  by_cases negative : value < 0
  · simp [signed, negative, abs_of_neg negative]
  · simp [signed, negative, abs_of_nonneg (le_of_not_gt negative)]

end FcTpms.Text
