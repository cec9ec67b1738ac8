import FcTpms.Text.Numeral
import FcTpms.Text.Pattern
import Mathlib.Data.List.DropRight
import Mathlib.Tactic.IntervalCases

/-!
# Versions of the application

The version numbers that the remote application asks its server for, the comparison of two of them
and the choice of the latest one.
-/

namespace FcTpms.RemoteTpmsApplication

open FcTpms.Text

/-- What the class throws. -/
inductive Thrown where
  | illegalArgumentException (message : String)
  | numberFormatException
  | nullPointerException
deriving Repr, DecidableEq

/-- The digits that a version is written with. -/
def digits : List Char := ['0', '1', '2', '3', '4', '5', '6', '7', '8', '9']

/-- `[0-9]+(\.[0-9]+)*`. -/
def versionFormat : RegularExpression Char := separated '.' (oneOrMore (oneOf digits))

/-- A version; its text has been checked when it was made. -/
structure Version where
  version : List Char
  format : versionFormat.rmatch version = true

/-- The constructor; a null text is `none`. -/
def Version.new : Option (List Char) → Except Thrown Version
  | none => .error (.illegalArgumentException "Version can not be null")
  | some version =>
    if format : versionFormat.rmatch version then .ok ⟨version, format⟩
    else .error (.illegalArgumentException "Invalid version format")

/-- `split("\\.")` of Java, which leaves out the empty strings at the end of the array. -/
def splitAtPoints (text : List Char) : List (List Char) :=
  if '.' ∈ text then (text.splitOn '.').rdropWhile List.isEmpty else [text]

/-- The part at a position as a number, zero past the end of the array. -/
def part (parts : List (List Char)) (i : ℕ) : Except Thrown ℤ :=
  match parts[i]? with
  | some text => (parseInt text).elim (.error .numberFormatException) .ok
  | none => .ok 0

/-- The loop of `compareTo`, over the positions that are left. -/
def compareParts (thisParts thatParts : List (List Char)) : List ℕ → Except Thrown ℤ
  | [] => .ok 0
  | i :: rest => do
    let thisPart ← part thisParts i
    let thatPart ← part thatParts i
    if thisPart < thatPart then .ok (-1)
    else if thisPart > thatPart then .ok 1
    else compareParts thisParts thatParts rest

/-- The comparison of two versions; any version is above null. -/
def Version.compareTo (this : Version) : Option Version → Except Thrown ℤ
  | none => .ok 1
  | some that =>
    let thisParts := splitAtPoints this.version
    let thatParts := splitAtPoints that.version
    compareParts thisParts thatParts (List.range (max thisParts.length thatParts.length))

/-- An object on the heap, a version or one of another class. -/
inductive Object where
  | version (value : Version)
  | other

/-- `equals` of the version `this`, which stands at the address `self`; a null is `none`. -/
def Version.equals (heap : ℕ → Object) (self : ℕ) (this : Version) :
    Option ℕ → Except Thrown Bool
  | none => .ok false
  | some address =>
    if self = address then .ok true
    else
      match heap address with
      | .other => .ok false
      | .version that => do
        let order ← this.compareTo (some that)
        .ok (decide (order = 0))

/-- The loop of `handleServerResponse` over the versions after the first. A version is `none` where
reading it throws a `JSONException`; this is caught outside the loop. -/
def latestVersion (latest_version : List Char) :
    List (Option (List Char)) → Except Thrown (List Char)
  | [] => .ok latest_version
  | none :: _ => .ok latest_version
  | some v :: rest => do
    let latest ← Version.new (some latest_version)
    let candidate ← Version.new (some v)
    let order ← latest.compareTo (some candidate)
    latestVersion (if 0 ≤ order then latest_version else v) rest

/-- The response of the server: `none` without an array of versions. Where the array is not empty,
the result is the latest version and whether it is above the installed one. The package is `none`
if its manager does not find it. -/
def handleServerResponse (versions : Option (List (Option (List Char))))
    (packageInfo : Option (Option (List Char))) : Except Thrown (Option (List Char × Bool)) := do
  match versions with
  | some [] => .ok none
  | none => installed []
  | some (none :: _) => installed []
  | some (some first :: rest) => installed (← latestVersion first rest)
where
  installed (latest_version : List Char) : Except Thrown (Option (List Char × Bool)) :=
    match packageInfo with
    | none => .error .nullPointerException
    | some this_version => do
      let latest ← Version.new (some latest_version)
      let order ← latest.compareTo (some (← Version.new this_version))
      .ok (some (latest_version, decide (0 < order)))

/-- The digits of the format are those that Java reads in a number. -/
theorem mem_digits (c : Char) : c ∈ digits ↔ c.isDigit = true := by
  constructor
  · intro listed
    simp only [digits, List.mem_cons, List.not_mem_nil, or_false] at listed
    rcases listed with rfl | rfl | rfl | rfl | rfl | rfl | rfl | rfl | rfl | rfl <;> rfl
  · intro isDigit
    have bounds := Char.isDigit_iff_toNat.mp isDigit
    have low : 48 ≤ c.toNat := bounds.1
    have high : c.toNat ≤ 57 := bounds.2
    rw [← Char.ofNat_toNat c]
    interval_cases c.toNat <;> simp [digits]

/-- A version is made up of parts between points, each of at least one digit. -/
theorem versionFormat_iff (text : List Char) :
    versionFormat.rmatch text = true ↔
      ∀ one ∈ text.splitOn '.', one ≠ [] ∧ one.all Char.isDigit = true := by
  have free : ∀ one ∈ (oneOrMore (oneOf digits)).matches', '.' ∉ one := by
    intro one member there
    have listed := ((mem_oneOrMore_oneOf digits one).mp member).2 _ there
    contradiction
  rw [RegularExpression.rmatch_iff_matches', versionFormat, mem_separated free]
  apply forall₂_congr
  intro one _
  rw [mem_oneOrMore_oneOf, List.all_eq_true]
  simp only [mem_digits]

end FcTpms.RemoteTpmsApplication
