import FcTpms.Verif.Arguments

/-!
# From the preferences to the capture

The preferences are written and read four times on their way. The service writes the gain
adjustment as `true` or `false`, the native code only knows `1`: it is never on. The path of the
file goes through a query, where `+` and `#` have a meaning, and through a text whose length is
counted in units of UTF-16 and used for bytes. Everything else arrives (`delivers_iff`).
-/

namespace FcTpms.Settings

open Text

/-! ## The path -/

/-- A path that arrives: of characters of one byte, without `+` and `#`, and shorter than the array
for it. -/
structure Plain (file : FilePath) : Prop where
  oneByte : ∀ c ∈ file.chars, OneByte c
  noPlus : '+' ∉ file.chars
  noHash : '#' ∉ file.chars
  short : file.chars.length < 255

/-- Decoding does not change the length. -/
theorem getStringLength_decodeValue (value : List Char) :
    getStringLength (decodeValue value) = getStringLength value := by
  have units : ∀ c, utf16Units (if c = '+' then ' ' else c) = utf16Units c := by
    intro c
    split
    · rename_i same
      rw [same]
      rfl
    · rfl
  simp only [getStringLength, decodeValue, List.map_map, Function.comp_def, units]

/-- A text without a character is the text up to it. -/
theorem takeWhile_ne_eq_self {stop : Char} {text : List Char} :
    text.takeWhile (· ≠ stop) = text ↔ stop ∉ text := by
  rw [List.takeWhile_eq_self_iff]
  constructor
  · intro all there
    simpa using all stop there
  · intro absent c there
    have other : c ≠ stop := by
      rintro rfl
      exact absent there
    simpa using other

/-- A plain path is read as it is. -/
theorem readPath_plain {file : FilePath} (plain : Plain file) : readPath file = file.chars := by
  rw [readPath, takeWhile_ne_eq_self.mpr plain.noHash, decodeValue_eq_self plain.noPlus]

/-- A plain path arrives. -/
theorem pathArgument_plain {file : FilePath} (plain : Plain file) :
    pathArgument (readPath file) = some (getStringUTFChars file.chars) := by
  have nonempty : file.chars ≠ [] := by
    intro empty
    have rooted := file.rooted
    rw [empty] at rooted
    contradiction
  rw [readPath_plain plain, pathArgument, getStringUTFChars_eq_self plain.oneByte,
    getStringLength_eq_length plain.oneByte, List.take_length,
    argumentsFrom_last nonempty file.noSpace, List.nil_append,
    strcpytrimmed_of_not_mem file.noSpace]
  exact if_pos plain.short

/-- Only a plain path arrives: otherwise what arrives is shorter. -/
theorem plain_of_pathArgument {file : FilePath}
    (arrives : pathArgument (readPath file) = some (getStringUTFChars file.chars)) :
    Plain file := by
  have cut : getStringLength (file.chars.takeWhile (· ≠ '#')) ≤ getStringLength file.chars := by
    conv_rhs => rw [← List.takeWhile_append_dropWhile (p := (· ≠ '#')) (l := file.chars)]
    rw [getStringLength_append]
    omega
  obtain ⟨units, unitsSame⟩ := getStringLength_le file.chars
  have decoded : getStringLength (readPath file) =
      getStringLength (file.chars.takeWhile (· ≠ '#')) := getStringLength_decodeValue _
  unfold pathArgument at arrives
  split at arrives
  · rename_i filename rest taken
    split at arrives
    · rename_i short
      obtain rfl := Option.some.inj arrives
      obtain ⟨notLonger, whole⟩ := argumentsFrom_first taken
      rw [List.length_take, List.length_nil, Nat.zero_add] at notLonger whole
      have oneByte : ∀ c ∈ file.chars, OneByte c := unitsSame (by omega)
      have sameLength := getStringLength_eq_length oneByte
      have cutOneByte : ∀ c ∈ file.chars.takeWhile (· ≠ '#'), OneByte c := fun c there =>
        oneByte c ((List.takeWhile_sublist _).mem there)
      have cutLength := getStringLength_eq_length cutOneByte
      have bytes := congrArg List.length (getStringUTFChars_eq_self oneByte)
      have noHash : '#' ∉ file.chars := by
        apply takeWhile_ne_eq_self.mp
        apply (List.takeWhile_sublist _).eq_of_length
        omega
      have readOneByte : ∀ c ∈ readPath file, OneByte c := by
        intro c there
        obtain ⟨original, member, rfl⟩ := List.mem_map.mp there
        by_cases plus : original = '+'
        · rw [if_pos plus]
          constructor <;> decide
        · rw [if_neg plus]
          exact cutOneByte original member
      have readBytes := congrArg List.length (getStringUTFChars_eq_self readOneByte)
      have readLength := getStringLength_eq_length readOneByte
      have noSpace := (whole (by omega)).2
      rw [getStringUTFChars_eq_self readOneByte, readLength, List.take_length] at noSpace
      constructor
      · exact oneByte
      · intro plus
        apply noSpace
        rw [readPath, takeWhile_ne_eq_self.mpr noHash]
        exact List.mem_map.mpr ⟨'+', plus, rfl⟩
      · exact noHash
      · omega
    · contradiction
  · contradiction

/-! ## The whole way -/

section Pipeline

variable {S : Type} (roundSamples : S → ℤ) (prefs : Preferences S) (file : FilePath)

/-- The preferences on their way through the request and the arguments to the capture. -/
def capture : Option Capture :=
  (onHandleIntent (request roundSamples prefs file)).bind rtlSdrOpen

/-- A capture has the values that the user chose, and the fixed ones. -/
structure Chosen (capture : Capture) : Prop where
  frequency : capture.frequency = 314980000
  sampRate : (capture.sampRate : ℤ) = sampleRate
  testMode : capture.testMode = prefs.testing
  autoreduceGain : capture.autoreduceGain = prefs.gainAdjust
  filename : capture.filename = getStringUTFChars file.chars
  bytesToRead : (capture.bytesToRead : ℤ) = 2 * roundSamples prefs.secs

/-- The capture starts with the values that the user chose. -/
def Delivers : Prop := ∃ started, capture roundSamples prefs file = some started ∧
  Chosen roundSamples prefs file started

/-- The path as the service reads it is from the root. -/
theorem readPath_root : ∃ more, readPath file = '/' :: more := by
  have rooted := file.rooted
  unfold readPath
  cases shape : file.chars with
  | nil =>
    rw [shape] at rooted
    contradiction
  | cons c rest =>
    rw [shape] at rooted
    obtain rfl := Option.some.inj rooted
    exact ⟨_, rfl⟩

/-- What the preferences become. -/
theorem capture_eq : capture roundSamples prefs file =
    if 0 ≤ roundSamples prefs.secs ∧ roundSamples prefs.secs < 2147483648 then
      (pathArgument (readPath file)).map fun filename =>
        { testMode := prefs.testing, frequency := 314980000, sampRate := 2048000,
          bytesToRead := (roundSamples prefs.secs).toNat * 2, autoreduceGain := false, filename }
    else none := by
  obtain ⟨more, root⟩ := readPath_root file
  rw [capture, onHandleIntent_request]
  by_cases fits : -2147483648 ≤ roundSamples prefs.secs ∧ roundSamples prefs.secs < 2147483648
  · rw [if_pos fits, Option.bind_some, root, rtlSdrOpen_arguments _ fits.2]
    simp only [fits.2, and_true]
  · rw [if_neg fits, if_neg]
    · rfl
    · intro both
      apply fits
      omega

/-- The values that the user chose arrive if and only if the gain is not to be adjusted, the number
of samples is one of 31 bits, and the path is plain. -/
theorem delivers_iff : Delivers roundSamples prefs file ↔
    prefs.gainAdjust = false ∧
      (0 ≤ roundSamples prefs.secs ∧ roundSamples prefs.secs < 2147483648) ∧ Plain file := by
  rw [Delivers, capture_eq]
  constructor
  · rintro ⟨started, found, chosen⟩
    split at found
    · rename_i fits
      obtain ⟨filename, arrives, rfl⟩ := Option.map_eq_some_iff.mp found
      have same : filename = getStringUTFChars file.chars := chosen.filename
      rw [same] at arrives
      exact ⟨chosen.autoreduceGain.symm, fits, plain_of_pathArgument arrives⟩
    · contradiction
  · rintro ⟨off, fits, plain⟩
    rw [if_pos fits, pathArgument_plain plain]
    refine ⟨_, rfl, rfl, rfl, rfl, off.symm, rfl, ?_⟩
    have := fits.1
    push_cast
    omega

end Pipeline

/-- One second of samples with the default settings. -/
def defaultPreferences : Preferences ℤ where
  secs := 1
  celsius := true
  psi := true
  gainAdjust := true
  processTarget := .localremote
  basestationLocal := true
  hostname := ⟨"127.0.0.1".toList, by decide, by decide⟩
  testing := false

/-- The file in the directory of the emulator. -/
def cacheFile : FilePath where
  chars := "/storage/sdcard/Android/data/cache/fc.bin".toList
  rooted := by decide
  noSpace := by decide
  noAmpersand := by decide
  noPercent := by decide

/-- With the default settings the gain is to be adjusted, and is not. -/
theorem defaultPreferences_not_delivered :
    ¬ Delivers (· * sampleRate) defaultPreferences cacheFile := by
  have started : (capture (· * sampleRate) defaultPreferences cacheFile).map
      Capture.autoreduceGain = some false := by decide +kernel
  rintro ⟨capture, found, chosen⟩
  rw [found] at started
  have off : capture.autoreduceGain = false := Option.some.inj started
  rw [chosen.autoreduceGain] at off
  contradiction

end FcTpms.Settings
