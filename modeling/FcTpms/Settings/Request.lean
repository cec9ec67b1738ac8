import FcTpms.Text.Numeral
import FcTpms.Text.Uri

/-!
# The settings of a capture

`LogActivity` writes the preferences into the query of an address. `SdrFtpService` reads them from
there and writes those that the capture needs into a text of arguments.
-/

namespace FcTpms.Settings

open Text

/-- `R.string.processTarget`, of which each flavour of the app has one. -/
inductive ProcessTarget where
  | localFlavour
  | remoteFlavour
  | localremote
  deriving DecidableEq, Repr

/-- A host name, in which no character ends a query parameter. -/
structure Hostname where
  chars : List Char
  noAmpersand : '&' ∉ chars
  noHash : '#' ∉ chars

/-- The path of a file without spaces, `&` and `%`. The files that the app makes are in directories
that Android gives from the root. -/
structure FilePath where
  chars : List Char
  rooted : chars.head? = some '/'
  noSpace : ' ' ∉ chars
  noAmpersand : '&' ∉ chars
  noPercent : '%' ∉ chars

/-- The preferences that a capture is started with. -/
structure Preferences (S : Type) where
  /-- `basestation_secssent`. -/
  secs : S
  /-- `units_temp` is `R.string.celsius`. -/
  celsius : Bool
  /-- `units_pressure` is `R.string.psi`. -/
  psi : Bool
  /-- `gain_adjust`. -/
  gainAdjust : Bool
  processTarget : ProcessTarget
  /-- `basestation_local_remote` is `R.string.local`. -/
  basestationLocal : Bool
  /-- `basestation_remote_hostname`. -/
  hostname : Hostname
  /-- `testing`, which is no preference but a field of the activity. -/
  testing : Bool

/-- `sample_rate`. -/
def sampleRate : ℤ := 2048000

/-- A condition in a query or an argument. -/
def flag (value : Bool) : List Char := if value then "1".toList else "0".toList

section Activity

variable {S : Type} (roundSamples : S → ℤ) (prefs : Preferences S) (file : FilePath)

/-- `proc_local`. -/
def procLocal : Bool :=
  match prefs.processTarget with
  | .localFlavour => true
  | .remoteFlavour => false
  | .localremote => prefs.basestationLocal

/-- The query of the request, where `roundSamples` is `Math.round(secs * sample_rate)`. -/
def requestArguments : List Char :=
  let arguments := "?f=314980000&s=".toList ++ integerText sampleRate ++
    "&n=".toList ++ integerText (roundSamples prefs.secs) ++
    "&c=".toList ++ flag prefs.celsius ++
    "&p=".toList ++ flag prefs.psi ++ "&q=".toList ++ flag prefs.gainAdjust ++
    "&t=".toList ++ flag prefs.testing
  let arguments :=
    if procLocal prefs then arguments else arguments ++ "&base=".toList ++ prefs.hostname.chars
  arguments ++ "&l=".toList ++ flag (procLocal prefs) ++ "&fn=".toList ++ file.chars

/-- The address that `LogActivity` starts the service with. -/
def request : List Char := "rtlsdr://".toList ++ requestArguments roundSamples prefs file

end Activity

/-- `Integer.parseInt` of a query parameter, which throws if there is none. -/
def intParameter (uri key : List Char) : Option ℤ := (getQueryParameter uri key).bind parseInt

/-- A `boolean` in a text. -/
def booleanText (value : Bool) : List Char := if value then "true".toList else "false".toList

/-- `onHandleIntent`, up to the text `arguments`: `none` where a number is missing or malformed. -/
def onHandleIntent (str : List Char) : Option (List Char) := do
  let u := "rtlsdr://".toList ++ str
  let testing := getBooleanQueryParameter u "t".toList true
  let _cDisp ← intParameter u "c".toList
  let _psiDisp ← intParameter u "p".toList
  let gainAdjust := getBooleanQueryParameter u "q".toList true
  let _loc ← intParameter u "l".toList
  let fn := (getQueryParameter u "fn".toList).getD "null".toList
  let sampleRate ← intParameter u "s".toList
  let numSamples ← intParameter u "n".toList
  let freq ← intParameter u "f".toList
  some ("-f ".toList ++ integerText freq ++ " -s ".toList ++ integerText sampleRate ++
    " -n ".toList ++ integerText numSamples ++ " -q ".toList ++ booleanText gainAdjust ++
    " -t ".toList ++ flag testing ++ " ".toList ++ fn)

end FcTpms.Settings
