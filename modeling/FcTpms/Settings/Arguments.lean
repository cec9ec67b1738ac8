import FcTpms.Text.Numeral

/-!
# The arguments of the native code

`RtlSdr.open` takes the text of arguments apart and calls `rtlsdr_main` with them, which reads them
with `getopt`. A character of a C string stands for a byte. `none` stands for what C leaves
undefined: bytes that are not set, numbers that do not fit, a missing argument, a text longer than
its array.
-/

namespace FcTpms.Settings

open Text

/-! ## Strings of Java in C -/

/-- The units of a character in a Java string. -/
def utf16Units (c : Char) : ℕ := if c.toNat < 0x10000 then 1 else 2

/-- `GetStringLength`. -/
def getStringLength (text : List Char) : ℕ := (text.map utf16Units).sum

/-- A unit of two or more bytes in modified UTF-8. -/
def longUnit (unit : ℕ) : List Char :=
  if unit < 0x800 then [Char.ofNat (0xC0 + unit / 0x40), Char.ofNat (0x80 + unit % 0x40)]
  else
    [Char.ofNat (0xE0 + unit / 0x1000), Char.ofNat (0x80 + unit / 0x40 % 0x40),
      Char.ofNat (0x80 + unit % 0x40)]

/-- A character in modified UTF-8: NUL takes two bytes, and a character of two units takes three
for each. -/
def modifiedUtf8 (c : Char) : List Char :=
  if 0 < c.toNat ∧ c.toNat < 0x80 then [c]
  else if c.toNat < 0x10000 then longUnit c.toNat
  else
    longUnit (0xD800 + (c.toNat - 0x10000) / 0x400) ++
      longUnit (0xDC00 + (c.toNat - 0x10000) % 0x400)

/-- `GetStringUTFChars`. -/
def getStringUTFChars (text : List Char) : List Char := text.flatMap modifiedUtf8

/-! ## Taking the arguments apart -/

/-- An argument in `argv`. -/
abbrev Argument := Option (List Char)

/-- `strcpytrimmed`, for as many characters as there is room for. It ends the string after the
room, so with a space at an end the bytes after the trimmed text are not set. -/
def strcpytrimmed (src : List Char) : Argument :=
  if src.head? = some ' ' ∨ src.getLast? = some ' ' then none else some src

/-- The loop of `allocate_args_from_string` over the characters after the `current` ones, which
start at `laststart`. -/
def argumentsFrom : List Char → List Char → List Argument
  | _, [] => []
  | current, [last] => [strcpytrimmed (current ++ [last])]
  | current, c :: next :: rest =>
    if c = ' ' ∧ next ≠ ' ' then strcpytrimmed current :: argumentsFrom [] (next :: rest)
    else argumentsFrom (current ++ [c]) (next :: rest)

/-- `allocate_args_from_string`, without `argv[0]`. -/
def allocateArgsFromString (string : List Char) (nargslength : ℕ) : List Argument :=
  let read := string.take nargslength
  if read.all (· = ' ') then [] else argumentsFrom [] read

/-! ## Options -/

/-- The variables of `rtlsdr_main` that a capture depends on. -/
structure Capture where
  testMode : Bool
  frequency : ℕ
  sampRate : ℕ
  bytesToRead : ℕ
  autoreduceGain : Bool
  filename : List Char
  deriving DecidableEq, Repr

/-- The variables before the options are read. -/
def Capture.initial : Capture where
  testMode := false
  frequency := 100000000
  sampRate := 2048000
  bytesToRead := 0
  autoreduceGain := false
  filename := []

/-- `(uint32_t)`, for a `double` that it is defined for. -/
def toUint32 (value : ℚ) : Option ℕ :=
  if -1 < value ∧ value < 2 ^ 32 then some ⌊value⌋.toNat else none

/-- `atofs`: `atof` with a suffix for thousands, millions or milliards. -/
def atofs (text : List Char) : ℚ :=
  match text.getLast? with
  | some 'g' | some 'G' => 1000000000 * atof text.dropLast
  | some 'm' | some 'M' => 1000000 * atof text.dropLast
  | some 'k' | some 'K' => 1000 * atof text.dropLast
  | _ => atof text

/-- The option letters in `q:d:f:g:s:b:n:p:t:`, all of which take an argument. -/
def optionLetters : List Char := ['q', 'd', 'f', 'g', 's', 'b', 'n', 'p', 't']

/-- The body of the option loop. -/
def Capture.option (capture : Capture) (opt : Char) (optarg : List Char) : Option Capture :=
  match opt with
  | 't' => some { capture with testMode := optarg ≠ "0".toList }
  | 'f' => (toUint32 (atofs optarg)).map fun value => { capture with frequency := value }
  | 's' => (toUint32 (atofs optarg)).map fun value => { capture with sampRate := value }
  | 'n' => (toUint32 (atof optarg)).map fun value =>
      { capture with bytesToRead := value * 2 % 2 ^ 32 }
  | 'q' => some { capture with autoreduceGain := optarg = "1".toList }
  | _ => some capture

/-- The options in one argument, after its `-`. An unknown one is only logged; a known one takes
the rest of the argument or the next argument. -/
def Capture.optionsIn : List Char → List Argument → Capture → Option (Capture × List Argument)
  | [], rest, capture => some (capture, rest)
  | opt :: place, rest, capture =>
    if opt ∈ optionLetters then
      if place ≠ [] then (capture.option opt place).map (·, rest)
      else
        match rest with
        | [] => some (capture, [])
        | none :: _ => none
        | some optarg :: rest => (capture.option opt optarg).map (·, rest)
    else optionsIn place rest capture

/-- The loop over `getopt`, which ends at the first argument that is no option. -/
def Capture.options : ℕ → List Argument → Capture → Option (Capture × List Argument)
  | 0, arguments, capture => some (capture, arguments)
  | _ + 1, [], capture => some (capture, [])
  | _ + 1, none :: _, _ => none
  | fuel + 1, some argument :: rest, capture =>
    match argument with
    | ['-', '-'] => some (capture, rest)
    | '-' :: opt :: place =>
      (optionsIn (opt :: place) rest capture).bind fun (capture, rest) =>
        options fuel rest capture
    | _ => some (capture, some argument :: rest)

/-- `rtlsdr_main`, up to the file name, for which it has an array of 255. -/
def rtlsdrMain (arguments : List Argument) : Option Capture := do
  let (capture, rest) ← Capture.options arguments.length arguments .initial
  match rest with
  | some filename :: _ => if filename.length < 255 then some { capture with filename } else none
  | _ => none

/-- `RtlSdr.open`. -/
def rtlSdrOpen (args : List Char) : Option Capture :=
  rtlsdrMain (allocateArgsFromString (getStringUTFChars args) (getStringLength args))

end FcTpms.Settings
