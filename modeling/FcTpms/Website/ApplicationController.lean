import Mathlib.Logic.Function.Basic
import Mathlib.Algebra.Ring.Nat

/-!
# Sensitive parameters

`hide_sensitive_params` of the application controller, which overwrites passwords in a hash of
parameters before the hash is logged. A hash has its keys in the order of their insertion; the
hashes in it are its own, none of them is stored at two places.
-/

namespace FcTpms.Website.ApplicationController

/-- A key of a hash. -/
inductive Key where
  | string (name : String)
  | symbol (name : String)
deriving Repr, DecidableEq

/-- A value in a hash of parameters; `object` is one that is not nil, a text or a hash. -/
inductive Value (α : Type) where
  | nil
  | text (content : String)
  | object (content : α)
  | hash (indifferent : Bool) (keys : List Key) (value : Key → Value α)

/-- What the method raises: `each_key` is not understood, or the calls are too deep. -/
inductive RubyError where
  | noMethodError
  | systemStackError
deriving Repr, DecidableEq

variable {α : Type}

/-- `is_a?(Hash)`. -/
def Value.isHash : Value α → Bool
  | .hash _ _ _ => true
  | _ => false

/-- The levels of hashes in a value. -/
def Value.depth : Value α → ℕ
  | .hash _ keys value => (keys.map fun key => (value key).depth).foldr max 0 + 1
  | _ => 0

/-- `params_hash[key]`, nil for a key that is not in the hash. -/
def fetch (keys : List Key) (value : Key → Value α) (key : Key) : Value α :=
  if key ∈ keys then value key else .nil

/-- The values after the one under a key has changed. -/
def store (keys : List Key) (value : Key → Value α) (key : Key) (changed : Value α) :
    Key → Value α :=
  if key ∈ keys then Function.update value key changed else value

/-- The key that `params_hash[:key]` reads, a string if the access is indifferent. -/
def keySymbol (indifferent : Bool) : Key :=
  if indifferent then .string "key" else .symbol "key"

/-- `'(hidden)'`. -/
def hiddenText : Value α := .text "(hidden)"

/-- `params_hash.each_key`, for the keys that are left. The recursive call changes the hash under
`:key` in place. -/
def eachKey (again : Value α → Except RubyError (Value α)) (hideKeys : List Key)
    (indifferent : Bool) (keys : List Key) :
    List Key → (Key → Value α) → Except RubyError (Key → Value α)
  | [], value => .ok value
  | key :: rest, value =>
    if (fetch keys value key).isHash then do
      let slot := keySymbol indifferent
      let changed ← again (fetch keys value slot)
      eachKey again hideKeys indifferent keys rest (store keys value slot changed)
    else if key ∈ hideKeys then
      eachKey again hideKeys indifferent keys rest (store keys value key hiddenText)
    else eachKey again hideKeys indifferent keys rest value

/-- `hide_sensitive_params`, for calls up to a depth: the hash as it is afterwards. -/
def hideSensitiveParams (hideKeys : List Key) : ℕ → Value α → Except RubyError (Value α)
  | _, .nil => .ok .nil
  | 0, _ => .error .systemStackError
  | stack + 1, .hash indifferent keys value => do
    let changed ← eachKey (hideSensitiveParams hideKeys stack) hideKeys indifferent keys keys value
    .ok (.hash indifferent keys changed)
  | _ + 1, _ => .error .noMethodError

/-- The names that are hidden if the caller gives none. -/
def defaultHideKeys : List Key := [.string "password", .string "password_confirmation"]

end FcTpms.Website.ApplicationController
