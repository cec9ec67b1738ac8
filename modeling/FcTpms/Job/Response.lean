import FcTpms.Job.SdrFtpService
import FcTpms.Text.Formats

/-!
# What a job reads in a response

The part of `onHandleIntent` behind the analysis or the upload: the code of the response, the three
values of the reading, and whether one was found. The exceptions of the getters are caught while the
message is made.
-/

namespace FcTpms.Job

open Text

/-- An element of an array. -/
def elementAt (fields : List (List Char)) (i : ℕ) : Except Thrown (List Char) :=
  fields[i]?.elim (.error .arrayIndexOutOfBounds) .ok

/-- A number of a text. -/
def numberOf {α : Type} (number : Option α) : Except Thrown α :=
  number.elim (.error .numberFormat) .ok

/-- `getKpa`. -/
def getKpa (resp : List Char) : Except Thrown ℚ := do
  numberOf (parseDouble (trim (← elementAt (splitFields ',' resp) 2)))

/-- `getTempC`. -/
def getTempC (resp : List Char) : Except Thrown ℤ := do
  numberOf (parseInt (trim (← elementAt (splitFields ',' resp) 1)))

/-- `getHexAddr`. -/
def getHexAddr (resp : List Char) : Except Thrown (List Char) := do
  let addr := trim (← elementAt (splitFields ',' resp) 0)
  if addr.length ≤ 4 then .error .arrayIndexOutOfBounds
  else .ok (("00000000".toList ++ addr).drop 7)

/-- `getDecAddr`. -/
def getDecAddr (resp : List Char) : Except Thrown ℤ := do
  numberOf (parseHex (← getHexAddr resp))

/-- `TextUtils.join(",", Arrays.copyOfRange(resp.split(","), 0, 3))`. -/
def relevantResponse (resp : List Char) : List Char :=
  joinFields ',' (copyOfRange (splitFields ',' resp) 3)

/-- The values of the message. -/
def messageValues (resp : List Char) : Except Thrown (List Char × ℤ × ℚ) := do
  let addr ← getHexAddr resp
  let temp ← getTempC resp
  let kpa ← getKpa resp
  return (addr, temp, kpa)

/-- What becomes of `found` and `resp`. -/
def foundIn (resp : List Char) : Except Thrown (ℕ × List Char) := do
  let words := splitFields ' ' resp
  let respCode ← numberOf (parseInt (← elementAt words 0))
  if respCode = 226 then
    let relevant := relevantResponse (← elementAt words 1)
    if relevant.length > 14 then
      match messageValues relevant with
      | .ok _ => return (1, relevant)
      | .error _ => return (0, relevant)
    else return (0, relevant)
  else return (0, resp)

/-! ## The getters, given their field -/

theorem getKpa_of_element {resp field : List Char}
    (there : elementAt (splitFields ',' resp) 2 = .ok field) :
    getKpa resp = numberOf (parseDouble (trim field)) := by
  rw [getKpa, there]
  rfl

theorem getTempC_of_element {resp field : List Char}
    (there : elementAt (splitFields ',' resp) 1 = .ok field) :
    getTempC resp = numberOf (parseInt (trim field)) := by
  rw [getTempC, there]
  rfl

theorem getHexAddr_of_element {resp field : List Char}
    (there : elementAt (splitFields ',' resp) 0 = .ok field) :
    getHexAddr resp = if (trim field).length ≤ 4 then .error .arrayIndexOutOfBounds
      else .ok (("00000000".toList ++ trim field).drop 7) := by
  rw [getHexAddr, there]
  rfl

theorem getDecAddr_of_hexAddr {resp addr : List Char} (there : getHexAddr resp = .ok addr) :
    getDecAddr resp = numberOf (parseHex addr) := by
  rw [getDecAddr, there]
  rfl

end FcTpms.Job
