import FcTpms.Settings.Request

/-!
# What the service reads from the request

The query of the request is put together of parameters, so the service reads each of them back. Of
the path it reads what is before a `#`, with a space for every `+`.
-/

namespace FcTpms.Settings

open Text

/-- A decoded value without `+` is the value. -/
theorem decodeValue_eq_self {value : List Char} (noPlus : '+' ∉ value) :
    decodeValue value = value := by
  have same : decodeValue value = value.map id := by
    apply List.map_congr_left
    intro c there
    rw [if_neg]
    · rfl
    · rintro rfl
      exact noPlus there
  rw [same, List.map_id]

/-- The characters of an integer. -/
theorem mem_integerText {value : ℤ} {c : Char} (there : c ∈ integerText value) :
    c = '-' ∨ c.isDigit = true := by
  rw [integerText] at there
  split at there
  · rcases List.mem_cons.mp there with rfl | digit
    · exact .inl rfl
    · exact .inr (isDigit_of_mem digit)
  · exact .inr (isDigit_of_mem there)

/-- A character that is no sign and no digit is not in an integer. -/
theorem not_mem_integerText {c : Char} (value : ℤ) (sign : c ≠ '-') (digit : c.isDigit = false) :
    c ∉ integerText value := by
  intro there
  rcases mem_integerText there with same | isDigit
  · exact sign same
  · rw [digit] at isDigit
    contradiction

/-- A character that is no digit is not in a condition. -/
theorem not_mem_flag {c : Char} (value : Bool) (digit : c.isDigit = false) : c ∉ flag value := by
  intro there
  have cases_of : c = '1' ∨ c = '0' := by
    cases value
    · exact .inr (by simpa [flag] using there)
    · exact .inl (by simpa [flag] using there)
  rcases cases_of with rfl | rfl <;> contradiction

section Request

variable {S : Type} (roundSamples : S → ℤ) (prefs : Preferences S) (file : FilePath)

/-- The parameters of the request before the one for the file. -/
def parameters : List (List Char × List Char) :=
  [(['f'], integerText 314980000), (['s'], integerText sampleRate),
    (['n'], integerText (roundSamples prefs.secs)), (['c'], flag prefs.celsius),
    (['p'], flag prefs.psi), (['q'], flag prefs.gainAdjust), (['t'], flag prefs.testing)] ++
  (if procLocal prefs then [] else [("base".toList, prefs.hostname.chars)]) ++
  [(['l'], flag (procLocal prefs))]

/-- The request is a query of these parameters and the one for the file. -/
theorem requestArguments_eq : requestArguments roundSamples prefs file =
    '?' :: queryText (parameters roundSamples prefs ++ [("fn".toList, file.chars)]) := by
  have frequency : integerText 314980000 = "314980000".toList := by decide +kernel
  unfold requestArguments parameters
  cases procLocal prefs <;> simp [queryText, parameterText, frequency, List.intercalate]

/-- No parameter has a separator or a fragment in it. -/
theorem parameters_clean {parameter : List Char × List Char}
    (there : parameter ∈ parameters roundSamples prefs) :
    Separable parameter ∧ '#' ∉ parameterText parameter := by
  have integer : ∀ key value, ('&' ∉ key ∧ '=' ∉ key ∧ '#' ∉ key) →
      Separable (key, integerText value) ∧ '#' ∉ parameterText (key, integerText value) := by
    intro key value ⟨ampersand, equal, hash⟩
    constructor
    · exact ⟨⟨ampersand, equal⟩, not_mem_integerText value (by decide) (by decide)⟩
    · have clean := not_mem_integerText value (c := '#') (by decide) (by decide)
      simp [parameterText, hash, clean]
  have condition : ∀ key value, ('&' ∉ key ∧ '=' ∉ key ∧ '#' ∉ key) →
      Separable (key, flag value) ∧ '#' ∉ parameterText (key, flag value) := by
    intro key value ⟨ampersand, equal, hash⟩
    constructor
    · exact ⟨⟨ampersand, equal⟩, not_mem_flag value (by decide)⟩
    · have clean := not_mem_flag (c := '#') value (by decide)
      simp [parameterText, hash, clean]
  unfold parameters at there
  simp only [List.mem_append, List.mem_cons, List.not_mem_nil, or_false] at there
  rcases there with ((rfl | rfl | rfl | rfl | rfl | rfl | rfl) | base) | rfl
  · exact integer _ _ (by decide)
  · exact integer _ _ (by decide)
  · exact integer _ _ (by decide)
  · exact condition _ _ (by decide)
  · exact condition _ _ (by decide)
  · exact condition _ _ (by decide)
  · exact condition _ _ (by decide)
  · split at base
    · contradiction
    · rw [List.mem_singleton.mp base]
      constructor
      · have key : '&' ∉ "base".toList ∧ '=' ∉ "base".toList := by decide
        exact ⟨key, prefs.hostname.noAmpersand⟩
      · simp [parameterText, prefs.hostname.noHash]
  · exact condition _ _ (by decide)

/-- The path as the service reads it. -/
def readPath : List Char := decodeValue (file.chars.takeWhile (· ≠ '#'))

/-- What the service reads from the request. -/
theorem getQueryParameter_request (key : List Char) :
    getQueryParameter ("rtlsdr://".toList ++ request roundSamples prefs file) key =
      ((parameters roundSamples prefs ++
        [("fn".toList, file.chars.takeWhile (· ≠ '#'))]).lookup key).map decodeValue := by
  have front : "rtlsdr://".toList ++ request roundSamples prefs file =
      ("rtlsdr://".toList ++ "rtlsdr://".toList) ++
        '?' :: queryText (parameters roundSamples prefs ++ [("fn".toList, file.chars)]) := by
    have address := congrArg ("rtlsdr://".toList ++ ·) (requestArguments_eq roundSamples prefs file)
    have twice := congrArg ("rtlsdr://".toList ++ ·) address
    exact twice.trans (List.append_assoc _ _ _).symm
  have key : '&' ∉ "fn".toList ∧ '=' ∉ "fn".toList := by decide
  have keyHash : '#' ∉ "fn".toList := by decide
  have clean : ∀ parameter ∈ parameters roundSamples prefs, '#' ∉ parameterText parameter :=
    fun _ there => (parameters_clean roundSamples prefs there).2
  have start : '?' ∉ "rtlsdr://".toList ++ "rtlsdr://".toList ∧
      '#' ∉ "rtlsdr://".toList ++ "rtlsdr://".toList := by decide
  rw [getQueryParameter, front, getEncodedQuery_append start.1 start.2, Option.bind_some,
    takeWhile_queryText clean keyHash]
  apply parameterOf_queryText
  · intro parameter there
    rcases List.mem_append.mp there with front | last
    · exact (parameters_clean roundSamples prefs front).1
    · rw [List.mem_singleton.mp last]
      constructor
      · exact key
      · intro ampersand
        exact file.noAmpersand ((List.takeWhile_sublist _).mem ampersand)
  · simp

/-- The value of a parameter before the file, which is decoded as it is. -/
theorem lookup_request {key value : List Char} (noPlus : '+' ∉ value)
    (first : (parameters roundSamples prefs).lookup key = some value) :
    getQueryParameter ("rtlsdr://".toList ++ request roundSamples prefs file) key = some value := by
  rw [getQueryParameter_request, List.lookup_append, first]
  exact congrArg some (decodeValue_eq_self noPlus)

/-- The path of the file comes after all parameters. -/
theorem lookup_file : getQueryParameter ("rtlsdr://".toList ++ request roundSamples prefs file)
    "fn".toList = some (readPath file) := by
  have absent : (parameters roundSamples prefs).lookup "fn".toList = none := by
    unfold parameters
    cases procLocal prefs <;> simp [List.lookup_cons]
  rw [getQueryParameter_request, List.lookup_append, absent]
  simp [readPath]

/-- An integer is read back if it fits an `int`. -/
theorem intParameter_integer {key : List Char} {value : ℤ}
    (first : (parameters roundSamples prefs).lookup key = some (integerText value)) :
    intParameter ("rtlsdr://".toList ++ request roundSamples prefs file) key =
      if -2147483648 ≤ value ∧ value < 2147483648 then some value else none := by
  have noPlus : '+' ∉ integerText value := not_mem_integerText value (by decide) (by decide)
  rw [intParameter, lookup_request roundSamples prefs file noPlus first, Option.bind_some,
    parseInt_integerText]

/-- A condition that is read as an integer can be read. -/
theorem intParameter_flag {key : List Char} {value : Bool}
    (first : (parameters roundSamples prefs).lookup key = some (flag value)) :
    ∃ number, intParameter ("rtlsdr://".toList ++ request roundSamples prefs file) key =
      some number := by
  have noPlus : '+' ∉ flag value := not_mem_flag value (by decide)
  rw [intParameter, lookup_request roundSamples prefs file noPlus first, Option.bind_some]
  cases value
  · exact ⟨0, by decide +kernel⟩
  · exact ⟨1, by decide +kernel⟩

/-- A condition that is read as one is read back. -/
theorem getBoolean_flag {key : List Char} {value : Bool}
    (first : (parameters roundSamples prefs).lookup key = some (flag value)) :
    getBooleanQueryParameter ("rtlsdr://".toList ++ request roundSamples prefs file) key true =
      value := by
  have noPlus : '+' ∉ flag value := not_mem_flag value (by decide)
  rw [getBooleanQueryParameter, lookup_request roundSamples prefs file noPlus first]
  cases value <;> decide

/-- The words of the arguments that the service writes before the path. -/
def argumentWords (numSamples : ℤ) (gainAdjust testing : Bool) : List (List Char) :=
  ["-f".toList, integerText 314980000, "-s".toList, integerText sampleRate, "-n".toList,
    integerText numSamples, "-q".toList, booleanText gainAdjust, "-t".toList, flag testing]

/-- Each word with the space after it. -/
def spaced (words : List (List Char)) : List Char := words.flatMap fun word => word ++ [' ']

/-- The service writes the arguments if the number of samples fits an `int`. -/
theorem onHandleIntent_request :
    onHandleIntent (request roundSamples prefs file) =
      if -2147483648 ≤ roundSamples prefs.secs ∧ roundSamples prefs.secs < 2147483648 then
        some (spaced (argumentWords (roundSamples prefs.secs) prefs.gainAdjust prefs.testing) ++
          readPath file)
      else none := by
  have testingFirst : (parameters roundSamples prefs).lookup "t".toList =
      some (flag prefs.testing) := by simp [parameters, List.lookup_cons]
  have gainFirst : (parameters roundSamples prefs).lookup "q".toList =
      some (flag prefs.gainAdjust) := by simp [parameters, List.lookup_cons]
  have celsiusFirst : (parameters roundSamples prefs).lookup "c".toList =
      some (flag prefs.celsius) := by simp [parameters, List.lookup_cons]
  have psiFirst : (parameters roundSamples prefs).lookup "p".toList =
      some (flag prefs.psi) := by simp [parameters, List.lookup_cons]
  have localFirst : (parameters roundSamples prefs).lookup "l".toList =
      some (flag (procLocal prefs)) := by
    unfold parameters
    cases procLocal prefs <;> simp [List.lookup_cons]
  have rateFirst : (parameters roundSamples prefs).lookup "s".toList =
      some (integerText sampleRate) := by simp [parameters, List.lookup_cons]
  have samplesFirst : (parameters roundSamples prefs).lookup "n".toList =
      some (integerText (roundSamples prefs.secs)) := by simp [parameters, List.lookup_cons]
  have frequencyFirst : (parameters roundSamples prefs).lookup "f".toList =
      some (integerText 314980000) := by simp [parameters]
  have testing := getBoolean_flag roundSamples prefs file testingFirst
  have gainAdjust := getBoolean_flag roundSamples prefs file gainFirst
  obtain ⟨cDisp, celsius⟩ := intParameter_flag roundSamples prefs file celsiusFirst
  obtain ⟨psiDisp, psi⟩ := intParameter_flag roundSamples prefs file psiFirst
  obtain ⟨loc, procLocal⟩ := intParameter_flag roundSamples prefs file localFirst
  have rate := intParameter_integer roundSamples prefs file rateFirst
  have samples := intParameter_integer roundSamples prefs file samplesFirst
  have frequency := intParameter_integer roundSamples prefs file frequencyFirst
  rw [if_pos (by decide)] at rate frequency
  unfold onHandleIntent
  simp only [testing, gainAdjust, celsius, psi, procLocal, rate, samples, frequency, lookup_file]
  split
  · simp [spaced, argumentWords]
  · rfl

end Request

end FcTpms.Settings
