import Mathlib.Data.List.TakeWhile

/-!
# Query parameters

The part of `android.net.Uri` that reads the query of an address: its parameters are separated by
`&`, a parameter is a key and a value with `=` between them, and the fragment after `#` is not
part of it. A query that is put together of keys and values gives each key its first value.
-/

namespace FcTpms.Text

/-- `getEncodedQuery`: what is between the first `?` and the fragment. -/
def getEncodedQuery (uri : List Char) : Option (List Char) :=
  match uri.dropWhile (· ≠ '?') with
  | [] => none
  | _ :: query =>
    if '#' ∈ uri.takeWhile (· ≠ '?') then none else some (query.takeWhile (· ≠ '#'))

/-- The decoding of a value without `%`: a `+` stands for a space. -/
def decodeValue (value : List Char) : List Char := value.map fun c => if c = '+' then ' ' else c

/-- The value of the first parameter of a query with a key. -/
def parameterOf (query key : List Char) : Option (List Char) :=
  ((query.splitOn '&').find? fun parameter => parameter.takeWhile (· ≠ '=') == key).map
    fun parameter => decodeValue (parameter.dropWhile (· ≠ '=')).tail

/-- `getQueryParameter`. -/
def getQueryParameter (uri key : List Char) : Option (List Char) :=
  (getEncodedQuery uri).bind fun query => parameterOf query key

/-- `getBooleanQueryParameter`: every value but `false` and `0` is true. -/
def getBooleanQueryParameter (uri key : List Char) (defaultValue : Bool) : Bool :=
  match getQueryParameter uri key with
  | none => defaultValue
  | some flag =>
    let flag := flag.map Char.toLower
    flag ≠ "false".toList && flag ≠ "0".toList

/-- A key and its value in a query. -/
def parameterText (parameter : List Char × List Char) : List Char :=
  parameter.1 ++ '=' :: parameter.2

/-- A query of keys and values. -/
def queryText (parameters : List (List Char × List Char)) : List Char :=
  ['&'].intercalate (parameters.map parameterText)

/-- A key and its value can be told apart in a query. -/
structure Separable (parameter : List Char × List Char) : Prop where
  key : '&' ∉ parameter.1 ∧ '=' ∉ parameter.1
  value : '&' ∉ parameter.2

/-- A text up to the first occurrence of a character that is not in its front. -/
theorem takeWhile_ne_append {stop : Char} {front : List Char} (absent : stop ∉ front)
    (rest : List Char) :
    (front ++ rest).takeWhile (· ≠ stop) = front ++ rest.takeWhile (· ≠ stop) := by
  apply List.takeWhile_append_of_pos
  intro c there
  have other : c ≠ stop := by
    rintro rfl
    exact absent there
  simpa using other

/-- A text from the first occurrence of a character that is not in its front. -/
theorem dropWhile_ne_append {stop : Char} {front : List Char} (absent : stop ∉ front)
    (rest : List Char) : (front ++ rest).dropWhile (· ≠ stop) = rest.dropWhile (· ≠ stop) := by
  apply List.dropWhile_append_of_pos
  intro c there
  have other : c ≠ stop := by
    rintro rfl
    exact absent there
  simpa using other

/-- The query of an address that is put together. -/
theorem getEncodedQuery_append {start : List Char} (noQuery : '?' ∉ start)
    (noFragment : '#' ∉ start) (query : List Char) :
    getEncodedQuery (start ++ '?' :: query) = some (query.takeWhile (· ≠ '#')) := by
  have before : (start ++ '?' :: query).takeWhile (· ≠ '?') = start := by
    rw [takeWhile_ne_append noQuery]
    simp
  have after : (start ++ '?' :: query).dropWhile (· ≠ '?') = '?' :: query := by
    rw [dropWhile_ne_append noQuery]
    simp
  rw [getEncodedQuery, after]
  simp only [before, noFragment, if_false]

theorem queryText_cons (first second : List Char × List Char)
    (rest : List (List Char × List Char)) :
    queryText (first :: second :: rest) =
      parameterText first ++ '&' :: queryText (second :: rest) := by
  simp [queryText, List.intercalate_cons_cons]

/-- The fragment cuts the value of the last parameter. -/
theorem takeWhile_queryText {front : List (List Char × List Char)} {key : List Char}
    (clean : ∀ parameter ∈ front, '#' ∉ parameterText parameter) (cleanKey : '#' ∉ key)
    (value : List Char) :
    (queryText (front ++ [(key, value)])).takeWhile (· ≠ '#') =
      queryText (front ++ [(key, value.takeWhile (· ≠ '#'))]) := by
  induction front with
  | nil =>
    have single : ∀ value, queryText ([] ++ [(key, value)]) = key ++ '=' :: value := by
      intro value
      simp [queryText, parameterText]
    rw [single, single, takeWhile_ne_append cleanKey]
    simp
  | cons first rest ih =>
    have later := ih fun parameter there => clean parameter (List.mem_cons_of_mem _ there)
    have here := clean first List.mem_cons_self
    cases rest with
    | nil =>
      rw [List.cons_append, List.nil_append, queryText_cons, takeWhile_ne_append here]
      rw [List.nil_append] at later
      rw [List.takeWhile_cons_of_pos (by decide), later, List.cons_append, List.nil_append,
        queryText_cons]
    | cons second rest =>
      rw [List.cons_append, List.cons_append, queryText_cons, takeWhile_ne_append here]
      rw [List.cons_append] at later
      rw [List.takeWhile_cons_of_pos (by decide), later]
      rfl

/-- A query that is put together of keys and values gives each key its first value. -/
theorem parameterOf_queryText {parameters : List (List Char × List Char)}
    (separable : ∀ parameter ∈ parameters, Separable parameter) (nonempty : parameters ≠ [])
    (key : List Char) :
    parameterOf (queryText parameters) key = (parameters.lookup key).map decodeValue := by
  have split : (queryText parameters).splitOn '&' = parameters.map parameterText := by
    apply List.splitOn_intercalate
    · intro text there
      obtain ⟨parameter, member, rfl⟩ := List.mem_map.mp there
      have apart := separable parameter member
      simp [parameterText, apart.key.1, apart.value]
    · simpa using nonempty
  rw [parameterOf, split]
  clear split nonempty
  induction parameters with
  | nil => rfl
  | cons parameter rest ih =>
    have later := ih fun other there => separable other (List.mem_cons_of_mem _ there)
    have apart := separable parameter List.mem_cons_self
    have keyText : (parameterText parameter).takeWhile (· ≠ '=') = parameter.1 := by
      rw [parameterText, takeWhile_ne_append apart.key.2]
      simp
    have valueText : ((parameterText parameter).dropWhile (· ≠ '=')).tail = parameter.2 := by
      rw [parameterText, dropWhile_ne_append apart.key.2]
      simp
    rw [List.map_cons, List.find?_cons, List.lookup_cons, keyText]
    by_cases same : parameter.1 = key
    · rw [same, beq_self_eq_true]
      show some (decodeValue ((parameterText parameter).dropWhile (· ≠ '=')).tail) =
        some (decodeValue parameter.2)
      rw [valueText]
    · have other : (parameter.1 == key) = false := by simpa using same
      have swapped : (key == parameter.1) = false := by simpa using Ne.symm same
      rw [other, swapped]
      exact later

end FcTpms.Text
