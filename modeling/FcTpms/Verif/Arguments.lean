import FcTpms.Settings.Arguments
import FcTpms.Verif.Request

/-!
# What the native code reads from the arguments

The words that the service writes come out one by one and set the variables of the capture. The
path comes out whole if it has no spaces and as many bytes as units; otherwise what comes out is
shorter.
-/

namespace FcTpms.Settings

open Text

/-! ## Taking the arguments apart -/

/-- A character that is one unit in Java and one byte in C. -/
def OneByte (c : Char) : Prop := 0 < c.toNat ∧ c.toNat < 0x80

/-- Texts of such characters stay what they are. -/
theorem getStringUTFChars_eq_self {text : List Char} (plain : ∀ c ∈ text, OneByte c) :
    getStringUTFChars text = text := by
  induction text with
  | nil => rfl
  | cons c rest ih =>
    have here : OneByte c := plain c List.mem_cons_self
    have later := ih fun other there => plain other (List.mem_cons_of_mem _ there)
    have single : modifiedUtf8 c = [c] := if_pos here
    rw [getStringUTFChars, List.flatMap_cons, single, ← getStringUTFChars, later]
    rfl

/-- Their length in Java is the number of characters. -/
theorem getStringLength_eq_length {text : List Char} (plain : ∀ c ∈ text, OneByte c) :
    getStringLength text = text.length := by
  induction text with
  | nil => rfl
  | cons c rest ih =>
    have here : OneByte c := plain c List.mem_cons_self
    have later := ih fun other there => plain other (List.mem_cons_of_mem _ there)
    have single : utf16Units c = 1 := if_pos (by have := here.2; omega)
    rw [getStringLength, List.map_cons, List.sum_cons, single, ← getStringLength, later,
      List.length_cons, Nat.add_comm]

theorem getStringUTFChars_append (front rest : List Char) :
    getStringUTFChars (front ++ rest) = getStringUTFChars front ++ getStringUTFChars rest :=
  List.flatMap_append

theorem getStringLength_append (front rest : List Char) :
    getStringLength (front ++ rest) = getStringLength front + getStringLength rest := by
  simp [getStringLength]

/-- A unit that is no single byte takes at least two. -/
theorem length_longUnit (unit : ℕ) : 2 ≤ (longUnit unit).length := by
  unfold longUnit
  split <;> simp

/-- A character has at least as many bytes as units, and more unless it is one byte. -/
theorem utf16Units_le (c : Char) : utf16Units c ≤ (modifiedUtf8 c).length ∧
    (utf16Units c = (modifiedUtf8 c).length → OneByte c) := by
  by_cases plain : OneByte c
  · have single : modifiedUtf8 c = [c] := if_pos plain
    have one : utf16Units c = 1 := if_pos (by have := plain.2; omega)
    rw [single, one]
    exact ⟨le_refl _, fun _ => plain⟩
  · have notPlain : ¬ (0 < c.toNat ∧ c.toNat < 0x80) := plain
    unfold utf16Units modifiedUtf8
    rw [if_neg notPlain]
    split
    · have := length_longUnit c.toNat
      constructor <;> omega
    · have high := length_longUnit (0xD800 + (c.toNat - 0x10000) / 0x400)
      have low := length_longUnit (0xDC00 + (c.toNat - 0x10000) % 0x400)
      rw [List.length_append]
      constructor <;> omega

/-- A text has at least as many bytes as units, and more unless all characters are one byte. -/
theorem getStringLength_le (text : List Char) :
    getStringLength text ≤ (getStringUTFChars text).length ∧
      (getStringLength text = (getStringUTFChars text).length → ∀ c ∈ text, OneByte c) := by
  induction text with
  | nil => exact ⟨le_refl _, by simp⟩
  | cons c rest ih =>
    obtain ⟨here, hereSame⟩ := utf16Units_le c
    obtain ⟨later, laterSame⟩ := ih
    have units : getStringLength (c :: rest) = utf16Units c + getStringLength rest := by
      simp [getStringLength]
    have bytes : (getStringUTFChars (c :: rest)).length =
        (modifiedUtf8 c).length + (getStringUTFChars rest).length := by
      simp [getStringUTFChars]
    rw [units, bytes]
    constructor
    · omega
    · intro same other there
      rcases List.mem_cons.mp there with rfl | there
      · exact hereSame (by omega)
      · exact laterSame (by omega) other there

/-- A text without spaces at its ends is copied whole. -/
theorem strcpytrimmed_of_not_mem {text : List Char} (noSpace : ' ' ∉ text) :
    strcpytrimmed text = some text := by
  have first : text.head? ≠ some ' ' := fun same => noSpace (List.mem_of_mem_head? same)
  have last : text.getLast? ≠ some ' ' := fun same => noSpace (List.mem_of_getLast? same)
  rw [strcpytrimmed, if_neg]
  rintro (same | same)
  · exact first same
  · exact last same

/-- A word ends at the space before the next one. -/
theorem argumentsFrom_word {current word : List Char} (noSpace : ' ' ∉ word) {next : Char}
    (visible : next ≠ ' ') (rest : List Char) :
    argumentsFrom current (word ++ ' ' :: next :: rest) =
      strcpytrimmed (current ++ word) :: argumentsFrom [] (next :: rest) := by
  induction word generalizing current with
  | nil =>
    rw [List.nil_append, argumentsFrom, if_pos ⟨rfl, visible⟩, List.append_nil]
  | cons c word ih =>
    have other : c ≠ ' ' := by
      rintro rfl
      exact noSpace List.mem_cons_self
    have later : argumentsFrom (current ++ [c]) (word ++ ' ' :: next :: rest) =
        strcpytrimmed (current ++ [c] ++ word) :: argumentsFrom [] (next :: rest) :=
      ih fun there => noSpace (List.mem_cons_of_mem _ there)
    have shape : ∃ d more, word ++ ' ' :: next :: rest = d :: more := by
      cases word with
      | nil => exact ⟨_, _, rfl⟩
      | cons d word => exact ⟨_, _, rfl⟩
    obtain ⟨d, more, split⟩ := shape
    rw [List.cons_append, split, argumentsFrom, if_neg (fun both => other both.1), ← split, later,
      List.append_assoc, List.singleton_append]

/-- Words with a space after each come out one by one. -/
theorem argumentsFrom_spaced {words : List (List Char)}
    (clean : ∀ word ∈ words, word ≠ [] ∧ ' ' ∉ word) {next : Char} (visible : next ≠ ' ')
    (rest : List Char) :
    argumentsFrom [] (spaced words ++ next :: rest) =
      words.map some ++ argumentsFrom [] (next :: rest) := by
  induction words with
  | nil => rfl
  | cons word words ih =>
    have here := clean word List.mem_cons_self
    have later := ih fun other there => clean other (List.mem_cons_of_mem _ there)
    have shape : ∃ c more, c ≠ ' ' ∧ spaced words ++ next :: rest = c :: more := by
      cases words with
      | nil => exact ⟨next, rest, visible, rfl⟩
      | cons second words =>
        obtain ⟨nonempty, noSpace⟩ := clean second (List.mem_cons_of_mem _ List.mem_cons_self)
        cases second with
        | nil => exact absurd rfl nonempty
        | cons c more =>
          refine ⟨c, _, ?_, rfl⟩
          rintro rfl
          exact noSpace List.mem_cons_self
    obtain ⟨c, more, notSpace, split⟩ := shape
    have text : spaced (word :: words) ++ next :: rest = word ++ ' ' :: c :: more := by
      rw [← split]
      simp [spaced]
    rw [text, argumentsFrom_word here.2 notSpace, List.nil_append,
      strcpytrimmed_of_not_mem here.2, ← split, later]
    rfl

/-- A last word comes out whole. -/
theorem argumentsFrom_last {current word : List Char} (nonempty : word ≠ [])
    (noSpace : ' ' ∉ word) :
    argumentsFrom current word = [strcpytrimmed (current ++ word)] := by
  induction word generalizing current with
  | nil => exact absurd rfl nonempty
  | cons c word ih =>
    cases word with
    | nil => rfl
    | cons d word =>
      have other : c ≠ ' ' := by
        rintro rfl
        exact noSpace List.mem_cons_self
      have later : argumentsFrom (current ++ [c]) (d :: word) =
          [strcpytrimmed (current ++ [c] ++ d :: word)] :=
        ih (by simp) fun there => noSpace (List.mem_cons_of_mem _ there)
      rw [argumentsFrom, if_neg (fun both => other both.1), later, List.append_assoc,
        List.singleton_append]

/-- A first argument that is copied whole is not longer than the text, and if it is as long, it is
the text and has no space after what was read before. -/
theorem argumentsFrom_first {current text argument : List Char} {rest : List Argument}
    (taken : argumentsFrom current text = some argument :: rest) :
    argument.length ≤ current.length + text.length ∧
      (argument.length = current.length + text.length →
        argument = current ++ text ∧ ' ' ∉ text) := by
  have copied : ∀ {src}, strcpytrimmed src = some argument →
      argument = src ∧ src.getLast? ≠ some ' ' := by
    intro src same
    rw [strcpytrimmed] at same
    split at same
    · contradiction
    · rename_i ends
      push Not at ends
      exact ⟨(Option.some.inj same).symm, ends.2⟩
  induction text generalizing current with
  | nil => contradiction
  | cons c text ih =>
    cases text with
    | nil =>
      rw [argumentsFrom] at taken
      obtain ⟨rfl, notLast⟩ := copied (List.cons.inj taken).1
      rw [List.getLast?_append, List.getLast?_singleton] at notLast
      constructor
      · simp
      · intro _
        constructor
        · rfl
        · rw [List.mem_singleton]
          rintro rfl
          exact notLast rfl
    | cons d text =>
      rw [argumentsFrom] at taken
      split at taken
      · obtain ⟨rfl, -⟩ := copied (List.cons.inj taken).1
        simp only [List.length_cons]
        constructor <;> omega
      · rename_i together
        obtain ⟨shorter, whole⟩ := ih taken
        rw [List.length_append, List.length_singleton] at shorter whole
        simp only [List.length_cons] at shorter whole ⊢
        constructor
        · omega
        · intro same
          obtain ⟨split, noSpace⟩ := whole (by omega)
          constructor
          · rw [split, List.append_assoc, List.singleton_append]
          · rw [List.mem_cons]
            rintro (rfl | there)
            · apply together
              constructor
              · rfl
              · rintro rfl
                exact noSpace List.mem_cons_self
            · exact noSpace there

/-- An argument begins with what was read before. -/
theorem argumentsFrom_head {first : Char} {current text argument : List Char}
    {rest : List Argument} (taken : argumentsFrom (first :: current) text = some argument :: rest) :
    ∃ more, argument = first :: more := by
  have copied : ∀ {src}, strcpytrimmed src = some argument → argument = src := by
    intro src same
    rw [strcpytrimmed] at same
    split at same
    · contradiction
    · exact (Option.some.inj same).symm
  induction text generalizing current with
  | nil => contradiction
  | cons c text ih =>
    cases text with
    | nil => exact ⟨_, copied (List.cons.inj taken).1⟩
    | cons d text =>
      rw [argumentsFrom] at taken
      split at taken
      · exact ⟨_, copied (List.cons.inj taken).1⟩
      · exact ih taken

/-- The first argument of a path from the root is one, if it is copied whole. -/
theorem argumentsFrom_root {path argument : List Char} {rest : List Argument}
    (taken : argumentsFrom [] ('/' :: path) = some argument :: rest) :
    ∃ more, argument = '/' :: more := by
  cases path with
  | nil => exact ⟨[], (Option.some.inj (List.cons.inj taken).1).symm⟩
  | cons c path =>
    rw [argumentsFrom, if_neg (fun both => absurd both.1 (by decide))] at taken
    exact argumentsFrom_head taken

/-! ## The options -/

/-- An option takes the argument after it. -/
theorem options_pair {opt : Char} (known : opt ∈ optionLetters) (optarg : List Char)
    (fuel : ℕ) (rest : List Argument) (capture : Capture) :
    Capture.options (fuel + 1) (some ['-', opt] :: some optarg :: rest) capture =
      (capture.option opt optarg).bind (Capture.options fuel rest) := by
  have letter : opt ≠ '-' := by
    rintro rfl
    contradiction
  rw [Capture.options, Capture.optionsIn, if_pos known, if_neg (by simp)]
  · cases capture.option opt optarg <;> rfl
  · simpa using letter

/-- The options end at a path from the root. -/
theorem options_path (path : List Char) (fuel : ℕ) (rest : List Argument) (capture : Capture) :
    Capture.options (fuel + 1) (some ('/' :: path) :: rest) capture =
      some (capture, some ('/' :: path) :: rest) := rfl

/-- What the native code takes for the path of the file. -/
def pathArgument (path : List Char) : Option (List Char) :=
  match argumentsFrom [] ((getStringUTFChars path).take (getStringLength path)) with
  | some filename :: _ => if filename.length < 255 then some filename else none
  | _ => none

/-- A word of the arguments is not empty and has no spaces, and its characters are one byte. -/
theorem argumentWords_clean {numSamples : ℤ} {gainAdjust testing : Bool} {word : List Char}
    (there : word ∈ argumentWords numSamples gainAdjust testing) :
    (word ≠ [] ∧ ' ' ∉ word) ∧ ∀ c ∈ word, OneByte c := by
  have digits : ∀ c : Char, c.isDigit = true → OneByte c := by
    intro c digit
    have bounds : 48 ≤ c.toNat ∧ c.toNat ≤ 57 := Char.isDigit_iff_toNat.mp digit
    constructor <;> omega
  have integer : ∀ value, (integerText value ≠ [] ∧ ' ' ∉ integerText value) ∧
      ∀ c ∈ integerText value, OneByte c := by
    intro value
    refine ⟨⟨?_, not_mem_integerText value (by decide) (by decide)⟩, fun c inside => ?_⟩
    · unfold integerText
      split
      · simp
      · exact Nat.toDigits_ne_nil
    · rcases mem_integerText inside with rfl | digit
      · constructor <;> decide
      · exact digits c digit
  have fixed : ∀ text ∈ ["-f".toList, "-s".toList, "-n".toList, "-q".toList, "-t".toList,
      "true".toList, "false".toList, "0".toList, "1".toList],
      (text ≠ [] ∧ ' ' ∉ text) ∧ ∀ c ∈ text, 0 < c.toNat ∧ c.toNat < 0x80 := by simp
  unfold argumentWords at there
  simp only [List.mem_cons, List.not_mem_nil, or_false] at there
  rcases there with rfl | rfl | rfl | rfl | rfl | rfl | rfl | rfl | rfl | rfl
  · exact fixed _ (by simp)
  · exact integer _
  · exact fixed _ (by simp)
  · exact integer _
  · exact fixed _ (by simp)
  · exact integer _
  · exact fixed _ (by simp)
  · exact fixed _ (by cases gainAdjust <;> simp [booleanText])
  · exact fixed _ (by simp)
  · exact fixed _ (by cases testing <;> simp [flag])

/-- An integer is converted if it is a number of 32 bits. -/
theorem toUint32_integer (value : ℤ) :
    toUint32 (value : ℚ) =
      if 0 ≤ value ∧ value < 4294967296 then some value.toNat else none := by
  have least : (-1 : ℚ) < value ↔ 0 ≤ value := by
    have cast : (-1 : ℚ) < value ↔ (-1 : ℤ) < value := by norm_cast
    rw [cast]
    omega
  have bound : (value : ℚ) < 2 ^ 32 ↔ value < 4294967296 := by norm_cast
  rw [toUint32, Int.floor_intCast]
  simp only [least, bound]

/-- An integer has no suffix. -/
theorem atofs_integerText (value : ℤ) : atofs (integerText value) = value := by
  have last : ∀ {c : Char}, (integerText value).getLast? = some c → c = '-' ∨ c.isDigit = true :=
    fun ends => mem_integerText (List.mem_of_getLast? ends)
  unfold atofs
  split
  · rename_i ends
    rcases last ends with same | digit <;> contradiction
  · rename_i ends
    rcases last ends with same | digit <;> contradiction
  · rename_i ends
    rcases last ends with same | digit <;> contradiction
  · rename_i ends
    rcases last ends with same | digit <;> contradiction
  · rename_i ends
    rcases last ends with same | digit <;> contradiction
  · rename_i ends
    rcases last ends with same | digit <;> contradiction
  · exact atof_integerText value

/-- The words of the arguments set all variables but the name of the file. The gain adjustment is
off, whatever it was. -/
theorem options_argumentWords (numSamples : ℤ) (fits : numSamples < 2147483648)
    (gainAdjust testing : Bool) (fuel : ℕ) (rest : List Argument) :
    Capture.options (fuel + 5)
        ((argumentWords numSamples gainAdjust testing).map some ++ rest) .initial =
      if 0 ≤ numSamples then
        Capture.options fuel rest
          { testMode := testing, frequency := 314980000, sampRate := 2048000,
            bytesToRead := numSamples.toNat * 2, autoreduceGain := false, filename := [] }
      else none := by
  have known : ∀ opt ∈ ['f', 's', 'n', 'q', 't'], opt ∈ optionLetters := by simp [optionLetters]
  have frequency : Capture.option .initial 'f' (integerText 314980000) =
      some { Capture.initial with frequency := 314980000 } := by
    show (toUint32 (atofs (integerText 314980000))).map _ = _
    rw [atofs_integerText, toUint32_integer]
    rfl
  have rate : ∀ capture : Capture, capture.option 's' (integerText sampleRate) =
      some { capture with sampRate := 2048000 } := by
    intro capture
    show (toUint32 (atofs (integerText sampleRate))).map _ = _
    rw [atofs_integerText, toUint32_integer]
    rfl
  have samples : ∀ capture : Capture, capture.option 'n' (integerText numSamples) =
      if 0 ≤ numSamples then some { capture with bytesToRead := numSamples.toNat * 2 }
      else none := by
    intro capture
    show (toUint32 (atof (integerText numSamples))).map _ = _
    rw [atof_integerText, toUint32_integer]
    by_cases positive : 0 ≤ numSamples
    · have small : numSamples.toNat * 2 % 2 ^ 32 = numSamples.toNat * 2 := by omega
      rw [if_pos ⟨positive, by omega⟩, if_pos positive, Option.map_some, small]
    · rw [if_neg (fun both => positive both.1), if_neg positive]
      rfl
  have gain : ∀ capture : Capture, capture.option 'q' (booleanText gainAdjust) =
      some { capture with autoreduceGain := false } := by
    intro capture
    cases gainAdjust <;> rfl
  have test : ∀ capture : Capture, capture.option 't' (flag testing) =
      some { capture with testMode := testing } := by
    intro capture
    cases testing <;> rfl
  show Capture.options (fuel + 5) (some ['-', 'f'] :: some (integerText 314980000) ::
    some ['-', 's'] :: some (integerText sampleRate) ::
    some ['-', 'n'] :: some (integerText numSamples) ::
    some ['-', 'q'] :: some (booleanText gainAdjust) ::
    some ['-', 't'] :: some (flag testing) :: rest) .initial = _
  rw [options_pair (known _ (by simp)), frequency, Option.bind_some,
    options_pair (known _ (by simp)), rate, Option.bind_some,
    options_pair (known _ (by simp)), samples]
  by_cases positive : 0 ≤ numSamples
  · rw [if_pos positive, if_pos positive, Option.bind_some, options_pair (known _ (by simp)), gain,
      Option.bind_some, options_pair (known _ (by simp)), test]
    rfl
  · rw [if_neg positive, if_neg positive]
    rfl

/-- What the arguments of the service set. -/
theorem rtlSdrOpen_arguments (numSamples : ℤ) (fits : numSamples < 2147483648)
    (gainAdjust testing : Bool) (path : List Char) :
    rtlSdrOpen (spaced (argumentWords numSamples gainAdjust testing) ++ '/' :: path) =
      if 0 ≤ numSamples then
        (pathArgument ('/' :: path)).map fun filename =>
          { testMode := testing, frequency := 314980000, sampRate := 2048000,
            bytesToRead := numSamples.toNat * 2, autoreduceGain := false, filename }
      else none := by
  let words := argumentWords numSamples gainAdjust testing
  have clean : ∀ word ∈ words, (word ≠ [] ∧ ' ' ∉ word) ∧ ∀ c ∈ word, OneByte c :=
    fun _ there => argumentWords_clean there
  have plain : ∀ c ∈ spaced words, OneByte c := by
    intro c there
    obtain ⟨word, member, inside⟩ := List.mem_flatMap.mp there
    rcases List.mem_append.mp inside with inWord | space
    · exact (clean word member).2 c inWord
    · rw [List.mem_singleton.mp space]
      constructor <;> decide
  obtain ⟨more, bytes⟩ : ∃ more, (getStringUTFChars ('/' :: path)).take
      (getStringLength ('/' :: path)) = '/' :: more := by
    have units : getStringLength ('/' :: path) = getStringLength path + 1 := by
      rw [getStringLength, List.map_cons, List.sum_cons, Nat.add_comm]
      rfl
    rw [units]
    exact ⟨_, rfl⟩
  have read : (getStringUTFChars (spaced words ++ '/' :: path)).take
      (getStringLength (spaced words ++ '/' :: path)) = spaced words ++ '/' :: more := by
    rw [getStringUTFChars_append, getStringLength_append, getStringUTFChars_eq_self plain,
      getStringLength_eq_length plain, List.take_length_add_append, bytes]
  have visible : (spaced words ++ '/' :: more).all (· = ' ') = false := by
    rw [List.all_eq_false]
    exact ⟨'/', by simp, by decide⟩
  have found : allocateArgsFromString (getStringUTFChars (spaced words ++ '/' :: path))
      (getStringLength (spaced words ++ '/' :: path)) =
        words.map some ++ argumentsFrom [] ('/' :: more) := by
    rw [allocateArgsFromString, read]
    simp only [visible, Bool.false_eq_true, if_false]
    exact argumentsFrom_spaced (fun word there => (clean word there).1) (by decide) more
  have count : (words.map some ++ argumentsFrom [] ('/' :: more)).length =
      (argumentsFrom [] ('/' :: more)).length + 5 + 5 := by
    rw [List.length_append, List.length_map, Nat.add_comm]
    rfl
  rw [rtlSdrOpen, found, rtlsdrMain, count, options_argumentWords numSamples fits, pathArgument,
    bytes]
  by_cases positive : 0 ≤ numSamples
  · rw [if_pos positive, if_pos positive]
    cases shape : argumentsFrom [] ('/' :: more) with
    | nil => rfl
    | cons argument rest =>
      cases argument with
      | none => rfl
      | some argument =>
        obtain ⟨tail, rfl⟩ := argumentsFrom_root shape
        rw [List.length_cons, Nat.add_right_comm _ 1 5, options_path]
        show (if ('/' :: tail).length < 255 then some _ else none) =
          Option.map _ (if ('/' :: tail).length < 255 then some _ else none)
        by_cases short : ('/' :: tail).length < 255
        · rw [if_pos short, if_pos short]
          rfl
        · rw [if_neg short, if_neg short]
          rfl
  · rw [if_neg positive, if_neg positive]
    rfl

end FcTpms.Settings
