import FcTpms.Website.ApplicationController
import Mathlib.Data.List.Basic
import Mathlib.Order.Lattice

/-!
# Which parameters are hidden

The recursive call of `hide_sensitive_params` is given what stands under `:key`, whatever key it is
made for. Hashes under other keys are left as they are, and the one under `:key` is passed once for
each nested hash.
-/

namespace FcTpms.Website.ApplicationController

variable {α : Type}

/-- The parameters with every value under a listed key hidden, at every depth, and nothing else
changed. -/
def hidden (hideKeys : List Key) : Value α → Value α
  | .hash indifferent keys value => .hash indifferent keys fun key =>
    if key ∈ keys then
      if (value key).isHash then hidden hideKeys (value key)
      else if key ∈ hideKeys then hiddenText
      else value key
    else value key
  | value => value

/-- No value is left to be hidden, at any depth. -/
def NothingToHide (hideKeys : List Key) : Value α → Prop
  | .hash _ keys value => ∀ key ∈ keys,
    ((value key).isHash = true → NothingToHide hideKeys (value key)) ∧
      ((value key).isHash = false → key ∈ hideKeys → value key = hiddenText)
  | _ => True

/-- The keys of a hash whose values are hashes. -/
def nestedKeys (keys : List Key) (value : Key → Value α) : List Key :=
  keys.filter fun key => (value key).isHash

/-- The parameters in which the hashes that the method does not come to have nothing to hide, and
in which it meets nothing but hashes and nil under `:key`; `again` if it passes them repeatedly. -/
def Within (hideKeys : List Key) : Value α → Bool → Prop
  | .hash indifferent keys value, again =>
    let slot := keySymbol indifferent
    nestedKeys keys value = [] ∨
    (slot ∈ keys ∧ (value slot).isHash = true ∧
      Within hideKeys (value slot) (again || decide (2 ≤ (nestedKeys keys value).length)) ∧
      ∀ key ∈ nestedKeys keys value, key ≠ slot → NothingToHide hideKeys (value key)) ∨
    (fetch keys value slot = .nil ∧
      (∀ key ∈ nestedKeys keys value, NothingToHide hideKeys (value key)) ∧
      (slot ∈ keys → slot ∈ hideKeys → again = false ∧
        ∀ key ∈ keys.dropWhile (fun key => decide (key ≠ slot)), (value key).isHash = false))
  | _, _ => True

/-- Nothing to hide means that hiding changes nothing. -/
theorem nothingToHide_iff (hideKeys : List Key) (params : Value α) :
    NothingToHide hideKeys params ↔ hidden hideKeys params = params := by
  induction params with
  | nil => simp [NothingToHide, hidden]
  | text content => simp [NothingToHide, hidden]
  | object content => simp [NothingToHide, hidden]
  | hash indifferent keys value hypothesis =>
    simp only [NothingToHide, hidden, Value.hash.injEq, true_and, funext_iff]
    apply forall_congr'
    intro key
    by_cases member : key ∈ keys
    · rw [if_pos member, hypothesis key]
      by_cases nested : (value key).isHash = true
      · simp [nested, member]
      · simp only [Bool.not_eq_true] at nested
        simp only [nested, member, true_implies, Bool.false_eq_true, false_implies, true_and,
          if_false]
        by_cases listed : key ∈ hideKeys
        · simp [listed, eq_comm]
        · simp [listed]
    · simp [member]

/-- The values after the loop has passed some keys: texts are hidden, hashes are not changed. -/
def hideFlat (hideKeys rest : List Key) (value : Key → Value α) : Key → Value α := fun key =>
  if key ∈ rest ∧ (value key).isHash = false ∧ key ∈ hideKeys then hiddenText else value key

/-- A value that is passed to the method a number of times. -/
def passes (again : Value α → Except RubyError (Value α)) : ℕ → Value α → Except RubyError (Value α)
  | 0, params => .ok params
  | count + 1, params => (again params).bind (passes again count)

theorem passes_add (again : Value α → Except RubyError (Value α)) (first later : ℕ)
    (params : Value α) :
    passes again (first + later) params =
      (passes again first params).bind (passes again later) := by
  induction first generalizing params with
  | zero => simp [passes, Except.bind]
  | succ first hypothesis =>
    rw [Nat.add_right_comm, passes, passes]
    cases again params with
    | error raised => rfl
    | ok changed => exact hypothesis changed

section Loop

variable {again : Value α → Except RubyError (Value α)} {hideKeys keys : List Key}
  {indifferent : Bool}

/-- Keys of hashes are those of hashes after a change that keeps hashes hashes. -/
theorem nestedKeys_update {rest : List Key} {value : Key → Value α} {place : Key}
    {changed : Value α}
    (same : changed.isHash = (value place).isHash) :
    nestedKeys rest (Function.update value place changed) = nestedKeys rest value := by
  unfold nestedKeys
  apply List.filter_congr
  intro key _
  by_cases here : key = place
  · rw [here, Function.update_self, same]
  · rw [Function.update_of_ne here]

/-- Hiding the text under a key is the first step of hiding all of them. -/
theorem hideFlat_cons_listed {key : Key} {rest : List Key} {value : Key → Value α}
    (flat : (value key).isHash = false) (listed : key ∈ hideKeys) :
    hideFlat hideKeys rest (Function.update value key hiddenText) =
      hideFlat hideKeys (key :: rest) value := by
  funext other
  unfold hideFlat
  by_cases here : other = key
  · rw [here, Function.update_self]
    simp [flat, listed]
  · rw [Function.update_of_ne here]
    simp [here]

/-- A key that is not listed or has a hash is left as it is. -/
theorem hideFlat_cons_left {key : Key} {rest : List Key} {value : Key → Value α}
    (left : (value key).isHash = true ∨ key ∉ hideKeys) :
    hideFlat hideKeys (key :: rest) value = hideFlat hideKeys rest value := by
  funext other
  unfold hideFlat
  by_cases here : other = key
  · rw [here]
    rcases left with nested | unlisted
    · simp [nested]
    · simp [unlisted]
  · simp [here]

/-- A changed hash stays where it is. -/
theorem hideFlat_update {rest : List Key} {value : Key → Value α} {place : Key} {changed : Value α}
    (nested : changed.isHash = true) :
    hideFlat hideKeys rest (Function.update value place changed) =
      Function.update (hideFlat hideKeys rest value) place changed := by
  funext other
  unfold hideFlat
  by_cases here : other = place
  · rw [here, Function.update_self, Function.update_self]
    simp [nested]
  · rw [Function.update_of_ne here, Function.update_of_ne here]

/-- With a hash under `:key`, the loop passes it once for each nested hash. -/
theorem eachKey_hash (keeps : ∀ params changed, again params = .ok changed → params.isHash = true →
      changed.isHash = true)
    (member : keySymbol indifferent ∈ keys) {rest : List Key} (within : ∀ key ∈ rest, key ∈ keys)
    {value : Key → Value α} (nested : (value (keySymbol indifferent)).isHash = true) :
    eachKey again hideKeys indifferent keys rest value =
      (passes again (nestedKeys rest value).length (value (keySymbol indifferent))).map
        (Function.update (hideFlat hideKeys rest value) (keySymbol indifferent)) := by
  induction rest generalizing value with
  | nil =>
    have nothing : hideFlat hideKeys [] value = value := by
      funext key
      simp [hideFlat]
    simp [eachKey, nestedKeys, passes, Except.map, nothing]
  | cons key rest hypothesis =>
    have inside := within key List.mem_cons_self
    have others := fun other listed => within other (List.mem_cons_of_mem key listed)
    have atKey : fetch keys value key = value key := if_pos inside
    have atSlot : fetch keys value (keySymbol indifferent) = value (keySymbol indifferent) :=
      if_pos member
    rw [eachKey, atKey]
    by_cases hash : (value key).isHash = true
    · have counted : (nestedKeys (key :: rest) value).length =
          (nestedKeys rest value).length + 1 := by
        simp [nestedKeys, hash]
      rw [if_pos hash, counted, passes, hideFlat_cons_left (.inl hash)]
      dsimp only
      rw [atSlot]
      cases passed : again (value (keySymbol indifferent)) with
      | error raised => rfl
      | ok changed =>
        have still := keeps _ _ passed nested
        have stored : store keys value (keySymbol indifferent) changed =
            Function.update value (keySymbol indifferent) changed := if_pos member
        have next : (Function.update value (keySymbol indifferent) changed
            (keySymbol indifferent)).isHash = true := by
          rw [Function.update_self]
          exact still
        have continued := hypothesis others next
        rw [Function.update_self, nestedKeys_update (still.trans nested.symm),
          hideFlat_update still] at continued
        simp only [bind, Except.bind, stored, continued]
        congr 1
        funext last
        rw [Function.update_idem]
    · have flat : (value key).isHash = false := by simpa using hash
      have uncounted : nestedKeys (key :: rest) value = nestedKeys rest value := by
        simp [nestedKeys, flat]
      rw [if_neg hash, uncounted]
      by_cases listed : key ∈ hideKeys
      · have other : keySymbol indifferent ≠ key := by
          intro same
          rw [same, flat] at nested
          contradiction
        have stored : store keys value key hiddenText = Function.update value key hiddenText :=
          if_pos inside
        have next :
            (Function.update value key hiddenText (keySymbol indifferent)).isHash = true := by
          rw [Function.update_of_ne other]
          exact nested
        have stays : (hiddenText : Value α).isHash = (value key).isHash := flat.symm
        rw [if_pos listed, stored, hypothesis others next, Function.update_of_ne other,
          nestedKeys_update stays, hideFlat_cons_listed flat listed]
      · rw [if_neg listed, hypothesis others nested, hideFlat_cons_left (.inr listed)]

/-- A key whose value is a text, listed or not. -/
theorem eachKey_cons_flat {key : Key} {rest : List Key} {value : Key → Value α}
    (inside : key ∈ keys) (flat : (value key).isHash = false) :
    eachKey again hideKeys indifferent keys (key :: rest) value =
      eachKey again hideKeys indifferent keys rest
        (if key ∈ hideKeys then Function.update value key hiddenText else value) := by
  have atKey : fetch keys value key = value key := if_pos inside
  have stored :
      store keys value key (hiddenText : Value α) = Function.update value key hiddenText :=
    if_pos inside
  rw [eachKey, atKey, if_neg (by simp [flat]), stored]
  split <;> rfl

/-- The values after a step of the loop at a text. -/
theorem hideFlat_cons_flat {key : Key} {rest : List Key} {value : Key → Value α}
    (flat : (value key).isHash = false) :
    hideFlat hideKeys rest
        (if key ∈ hideKeys then Function.update value key hiddenText else value) =
      hideFlat hideKeys (key :: rest) value := by
  by_cases listed : key ∈ hideKeys
  · rw [if_pos listed, hideFlat_cons_listed flat listed]
  · rw [if_neg listed, hideFlat_cons_left (.inr listed)]

/-- The hashes after a step of the loop at a text. -/
theorem nestedKeys_cons_flat {key : Key} {value : Key → Value α}
    (flat : (value key).isHash = false) (later : List Key) :
    nestedKeys later (if key ∈ hideKeys then Function.update value key hiddenText else value) =
      nestedKeys later value := by
  have stays : (hiddenText : Value α).isHash = (value key).isHash := flat.symm
  by_cases listed : key ∈ hideKeys
  · rw [if_pos listed, nestedKeys_update stays]
  · rw [if_neg listed]

/-- Without nested hashes the loop hides the texts. -/
theorem eachKey_flat {rest : List Key} (within : ∀ key ∈ rest, key ∈ keys) {value : Key → Value α}
    (flat : nestedKeys rest value = []) :
    eachKey again hideKeys indifferent keys rest value = .ok (hideFlat hideKeys rest value) := by
  induction rest generalizing value with
  | nil =>
    have nothing : hideFlat hideKeys [] value = value := by
      funext key
      simp [hideFlat]
    simp [eachKey, nothing]
  | cons key rest hypothesis =>
    have inside := within key List.mem_cons_self
    have others := fun other listed => within other (List.mem_cons_of_mem key listed)
    have here : (value key).isHash = false := by
      by_contra hash
      simp [nestedKeys, hash] at flat
    have same : nestedKeys (key :: rest) value = nestedKeys rest value := by
      simp [nestedKeys, here]
    rw [eachKey_cons_flat inside here,
      hypothesis others (by rw [nestedKeys_cons_flat here, ← same, flat]),
      hideFlat_cons_flat here]

/-- With a text under `:key`, the loop stops at the first nested hash. -/
theorem eachKey_text
    (raises : ∀ params, params.isHash = false → params ≠ .nil →
      again params = .error .noMethodError)
    (member : keySymbol indifferent ∈ keys) {rest : List Key} (within : ∀ key ∈ rest, key ∈ keys)
    {value : Key → Value α} (flat : (value (keySymbol indifferent)).isHash = false)
    (present : value (keySymbol indifferent) ≠ .nil) :
    eachKey again hideKeys indifferent keys rest value =
      if nestedKeys rest value = [] then .ok (hideFlat hideKeys rest value)
      else .error .noMethodError := by
  induction rest generalizing value with
  | nil =>
    have nothing : hideFlat hideKeys [] value = value := by
      funext key
      simp [hideFlat]
    simp [eachKey, nestedKeys, nothing]
  | cons key rest hypothesis =>
    have inside := within key List.mem_cons_self
    have others := fun other listed => within other (List.mem_cons_of_mem key listed)
    by_cases hash : (value key).isHash = true
    · have atKey : fetch keys value key = value key := if_pos inside
      have atSlot : fetch keys value (keySymbol indifferent) = value (keySymbol indifferent) :=
        if_pos member
      have found : nestedKeys (key :: rest) value ≠ [] := by simp [nestedKeys, hash]
      rw [eachKey, atKey, if_pos hash, if_neg found]
      dsimp only
      rw [atSlot, raises _ flat present]
      rfl
    · have here : (value key).isHash = false := by simpa using hash
      have next : ∀ changed, changed = (if key ∈ hideKeys then Function.update value key hiddenText
          else value) → (changed (keySymbol indifferent)).isHash = false ∧
            changed (keySymbol indifferent) ≠ .nil := by
        intro changed same
        rw [same]
        by_cases listed : key ∈ hideKeys
        · rw [if_pos listed]
          by_cases slot : keySymbol indifferent = key
          · rw [slot, Function.update_self]
            exact ⟨rfl, by simp [hiddenText]⟩
          · rw [Function.update_of_ne slot]
            exact ⟨flat, present⟩
        · rw [if_neg listed]
          exact ⟨flat, present⟩
      have same : nestedKeys (key :: rest) value = nestedKeys rest value := by
        simp [nestedKeys, here]
      rw [eachKey_cons_flat inside here, hypothesis others (next _ rfl).1 (next _ rfl).2,
        nestedKeys_cons_flat here rest, hideFlat_cons_flat here, same]

/-- With nil under `:key`, the loop passes over the nested hashes. Where nil is stored there under a
listed key, it is a text from then on. -/
theorem eachKey_nil (nothing : again .nil = .ok .nil)
    (raises : ∀ params, params.isHash = false → params ≠ .nil →
      again params = .error .noMethodError)
    {rest : List Key} (within : ∀ key ∈ rest, key ∈ keys) {value : Key → Value α}
    (empty : fetch keys value (keySymbol indifferent) = .nil) :
    eachKey again hideKeys indifferent keys rest value =
      if keySymbol indifferent ∈ keys ∧ keySymbol indifferent ∈ hideKeys ∧
        nestedKeys (rest.dropWhile fun key => decide (key ≠ keySymbol indifferent)) value ≠ []
      then .error .noMethodError else .ok (hideFlat hideKeys rest value) := by
  induction rest generalizing value with
  | nil =>
    have unchanged : hideFlat hideKeys [] value = value := by
      funext key
      simp [hideFlat]
    simp [eachKey, nestedKeys, unchanged]
  | cons key rest hypothesis =>
    have inside := within key List.mem_cons_self
    have others := fun other listed => within other (List.mem_cons_of_mem key listed)
    by_cases hash : (value key).isHash = true
    · have atKey : fetch keys value key = value key := if_pos inside
      have elsewhere : key ≠ keySymbol indifferent := by
        intro same
        rw [← same, atKey] at empty
        rw [empty] at hash
        contradiction
      have stored : store keys value (keySymbol indifferent) .nil = value := by
        unfold store
        split
        · rename_i member
          have atSlot : value (keySymbol indifferent) = .nil := by
            rw [← empty]
            exact (if_pos member).symm
          rw [← atSlot, Function.update_eq_self]
        · rfl
      rw [eachKey, atKey, if_pos hash]
      dsimp only
      rw [empty, nothing]
      simp only [bind, Except.bind]
      rw [stored, hypothesis others empty, hideFlat_cons_left (.inl hash),
        List.dropWhile_cons_of_pos (by simpa using elsewhere)]
    · have here : (value key).isHash = false := by simpa using hash
      rw [eachKey_cons_flat inside here]
      by_cases slot : key = keySymbol indifferent ∧ key ∈ hideKeys
      · -- from here on the value under `:key` is a text
        have member : keySymbol indifferent ∈ keys := slot.1 ▸ inside
        have listed : keySymbol indifferent ∈ hideKeys := slot.1 ▸ slot.2
        have text : (if key ∈ hideKeys then Function.update value key hiddenText else value)
            (keySymbol indifferent) = hiddenText := by
          rw [if_pos slot.2, slot.1, Function.update_self]
        have same : nestedKeys (key :: rest) value = nestedKeys rest value := by
          simp [nestedKeys, here]
        have whole : (key :: rest).dropWhile (fun key => decide (key ≠ keySymbol indifferent)) =
            key :: rest := List.dropWhile_cons_of_neg (by simp [slot.1])
        rw [eachKey_text raises member others (by rw [text]; rfl) (by rw [text]; simp [hiddenText]),
          nestedKeys_cons_flat here rest, hideFlat_cons_flat here, whole, same]
        by_cases none_nested : nestedKeys rest value = []
        · simp [none_nested]
        · simp [none_nested, member, listed]
      · have still : fetch keys (if key ∈ hideKeys then Function.update value key hiddenText
            else value) (keySymbol indifferent) = .nil := by
          by_cases listed : key ∈ hideKeys
          · have elsewhere : keySymbol indifferent ≠ key := fun same => slot ⟨same.symm, listed⟩
            unfold fetch at empty ⊢
            rw [if_pos listed, Function.update_of_ne elsewhere]
            exact empty
          · rw [if_neg listed]
            exact empty
        rw [hypothesis others still, nestedKeys_cons_flat here, hideFlat_cons_flat here]
        by_cases at_slot : key = keySymbol indifferent
        · have unlisted : keySymbol indifferent ∉ hideKeys := fun listed =>
            slot ⟨at_slot, at_slot ▸ listed⟩
          simp [unlisted]
        · rw [List.dropWhile_cons_of_pos (by simpa using at_slot)]

end Loop

section Calls

variable {hideKeys : List Key} {stack : ℕ}

theorem hideSensitiveParams_nil (hideKeys : List Key) (stack : ℕ) :
    hideSensitiveParams hideKeys stack (.nil : Value α) = .ok .nil := by
  cases stack <;> rfl

/-- A hash is still a hash after the call. -/
theorem isHash_of_hideSensitiveParams {params changed : Value α}
    (returned : hideSensitiveParams hideKeys stack params = .ok changed)
    (nested : params.isHash = true) : changed.isHash = true := by
  cases params with
  | hash indifferent keys value =>
    cases stack with
    | zero => cases returned
    | succ stack =>
      rw [hideSensitiveParams] at returned
      cases loop :
          eachKey (hideSensitiveParams hideKeys stack) hideKeys indifferent keys keys value with
      | error raised =>
        rw [loop] at returned
        cases returned
      | ok values =>
        rw [loop] at returned
        rw [← Except.ok.inj returned]
        rfl
  | nil => contradiction
  | text content => contradiction
  | object content => contradiction

/-- A text has no keys. -/
theorem hideSensitiveParams_text {params : Value α} (flat : params.isHash = false)
    (present : params ≠ .nil) :
    hideSensitiveParams hideKeys (stack + 1) params = .error .noMethodError := by
  cases params with
  | nil => exact absurd rfl present
  | text content => rfl
  | object content => rfl
  | hash indifferent keys value => contradiction

/-- The level below has a smaller depth. -/
theorem depth_lt {indifferent : Bool} {keys : List Key} {value : Key → Value α} {key : Key}
    (member : key ∈ keys) : (value key).depth < (Value.hash indifferent keys value).depth := by
  rw [Value.depth]
  have below : (value key).depth ≤ (keys.map fun key => (value key).depth).foldr max 0 := by
    induction keys with
    | nil => contradiction
    | cons other keys hypothesis =>
      rw [List.map_cons, List.foldr_cons]
      rcases List.mem_cons.mp member with same | later
      · rw [same]
        exact le_max_left _ _
      · exact le_trans (hypothesis later) (le_max_right _ _)
  omega

theorem mem_nestedKeys {keys : List Key} {value : Key → Value α} {key : Key} :
    key ∈ nestedKeys keys value ↔ key ∈ keys ∧ (value key).isHash = true :=
  List.mem_filter

/-- Hiding is hiding the texts of a level and hiding within its hashes. -/
theorem hidden_hash (hideKeys : List Key) (indifferent : Bool) (keys : List Key)
    (value : Key → Value α) :
    hidden hideKeys (.hash indifferent keys value) = .hash indifferent keys fun key =>
      if key ∈ nestedKeys keys value then hidden hideKeys (value key)
      else hideFlat hideKeys keys value key := by
  rw [hidden]
  congr 1
  funext key
  rw [hideFlat]
  by_cases member : key ∈ keys
  · cases nested : (value key).isHash with
    | true => simp [mem_nestedKeys, member, nested]
    | false => simp [mem_nestedKeys, member, nested]
  · simp [mem_nestedKeys, member]

/-- A level whose hashes are left as they are is hidden if there is nothing to hide in them. -/
theorem eq_hidden_iff_flat {indifferent : Bool} {keys : List Key} {value : Key → Value α} :
    Value.hash indifferent keys (hideFlat hideKeys keys value) =
        hidden hideKeys (.hash indifferent keys value) ↔
      ∀ key ∈ nestedKeys keys value, NothingToHide hideKeys (value key) := by
  rw [hidden_hash, Value.hash.injEq, funext_iff]
  simp only [true_and]
  apply forall_congr'
  intro key
  by_cases nested : key ∈ nestedKeys keys value
  · have left : hideFlat hideKeys keys value key = value key := by
      simp [hideFlat, (mem_nestedKeys.mp nested).2]
    rw [if_pos nested, left, nothingToHide_iff, eq_comm]
    simp [nested]
  · simp [nested]

/-- A level with a changed hash is hidden if that one is, and there is nothing to hide in the
others. -/
theorem eq_hidden_iff_slot {indifferent : Bool} {keys : List Key} {value : Key → Value α}
    {slot : Key} {changed : Value α} (there : slot ∈ nestedKeys keys value) :
    Value.hash indifferent keys (Function.update (hideFlat hideKeys keys value) slot changed) =
        hidden hideKeys (.hash indifferent keys value) ↔
      changed = hidden hideKeys (value slot) ∧
        ∀ key ∈ nestedKeys keys value, key ≠ slot → NothingToHide hideKeys (value key) := by
  rw [hidden_hash, Value.hash.injEq, funext_iff]
  simp only [true_and]
  constructor
  · intro same
    constructor
    · have here := same slot
      rw [Function.update_self, if_pos there] at here
      exact here
    · intro key nested other
      have here := same key
      have left : hideFlat hideKeys keys value key = value key := by
        simp [hideFlat, (mem_nestedKeys.mp nested).2]
      rw [Function.update_of_ne other, if_pos nested, left] at here
      exact (nothingToHide_iff hideKeys _).mpr here.symm
  · rintro ⟨within, others⟩ key
    by_cases here : key = slot
    · rw [here, Function.update_self, if_pos there]
      exact within
    · rw [Function.update_of_ne here]
      by_cases nested : key ∈ nestedKeys keys value
      · have left : hideFlat hideKeys keys value key = value key := by
          simp [hideFlat, (mem_nestedKeys.mp nested).2]
        rw [if_pos nested, left]
        exact ((nothingToHide_iff hideKeys _).mp (others key nested here)).symm
      · rw [if_neg nested]

/-- Texts that are hidden are hidden. -/
theorem hideFlat_idem (hideKeys keys : List Key) (value : Key → Value α) :
    hideFlat hideKeys keys (hideFlat hideKeys keys value) = hideFlat hideKeys keys value := by
  funext key
  by_cases here : key ∈ keys ∧ (value key).isHash = false ∧ key ∈ hideKeys
  · have text : hideFlat hideKeys keys value key = hiddenText := if_pos here
    rw [hideFlat, text]
    simp
  · have same : hideFlat hideKeys keys value key = value key := if_neg here
    rw [hideFlat, same, if_neg here]

/-- Hashes are where they were. -/
theorem isHash_hideFlat (hideKeys keys : List Key) (value : Key → Value α) (key : Key) :
    (hideFlat hideKeys keys value key).isHash = (value key).isHash := by
  unfold hideFlat
  split
  · rename_i here
    rw [here.2.1]
    rfl
  · rfl

theorem nestedKeys_hideFlat (hideKeys keys rest : List Key) (value : Key → Value α) :
    nestedKeys rest (hideFlat hideKeys keys value) = nestedKeys rest value := by
  apply List.filter_congr
  intro key _
  exact isHash_hideFlat hideKeys keys value key

/-- A value that the method leaves as it is stays so, however often it is passed. -/
theorem passes_fixed {again : Value α → Except RubyError (Value α)} {params : Value α}
    (fixed : again params = .ok params) (count : ℕ) : passes again count params = .ok params := by
  induction count with
  | zero => rfl
  | succ count hypothesis =>
    rw [passes, fixed]
    exact hypothesis

/-- One call for a hash, by what its loop does. -/
theorem hideSensitiveParams_hash {indifferent : Bool} {keys : List Key}
    {value changed : Key → Value α}
    (loop : eachKey (hideSensitiveParams hideKeys stack) hideKeys indifferent keys keys value =
      .ok changed) :
    hideSensitiveParams hideKeys (stack + 1) (.hash indifferent keys value) =
      .ok (.hash indifferent keys changed) := by
  rw [hideSensitiveParams, loop]
  rfl

/-- A hash is still a hash after several calls. -/
theorem isHash_of_passes {count : ℕ} {params changed : Value α}
    (returned : passes (hideSensitiveParams hideKeys stack) count params = .ok changed)
    (nested : params.isHash = true) : changed.isHash = true := by
  induction count generalizing params with
  | zero =>
    rw [← Except.ok.inj returned]
    exact nested
  | succ count hypothesis =>
    rw [passes] at returned
    cases first : hideSensitiveParams hideKeys stack params with
    | error raised =>
      rw [first] at returned
      cases returned
    | ok next =>
      rw [first] at returned
      exact hypothesis returned (isHash_of_hideSensitiveParams first nested)

/-- One call for a level with a hash under `:key`. -/
theorem hideSensitiveParams_slot {indifferent : Bool} {keys : List Key} {value : Key → Value α}
    (there : keySymbol indifferent ∈ nestedKeys keys value) :
    hideSensitiveParams hideKeys (stack + 1) (.hash indifferent keys value) =
      (passes (hideSensitiveParams hideKeys stack) (nestedKeys keys value).length
        (value (keySymbol indifferent))).map fun changed =>
          .hash indifferent keys
            (Function.update (hideFlat hideKeys keys value) (keySymbol indifferent) changed) := by
  have member := mem_nestedKeys.mp there
  have loop :
      eachKey (hideSensitiveParams hideKeys stack) hideKeys indifferent keys keys value = _ :=
    eachKey_hash (fun _ _ returned nested => isHash_of_hideSensitiveParams returned nested) member.1
      (fun _ listed => listed) member.2
  rw [hideSensitiveParams, loop]
  cases passes (hideSensitiveParams hideKeys stack) (nestedKeys keys value).length
    (value (keySymbol indifferent)) <;> rfl

/-- Calls for a level with a hash under `:key` are calls for that hash. -/
theorem passes_slot {indifferent : Bool} {keys : List Key} {value : Key → Value α}
    (there : keySymbol indifferent ∈ nestedKeys keys value) (count : ℕ) :
    passes (hideSensitiveParams hideKeys (stack + 1)) (count + 1) (.hash indifferent keys value) =
      (passes (hideSensitiveParams hideKeys stack) ((count + 1) * (nestedKeys keys value).length)
        (value (keySymbol indifferent))).map fun changed =>
          .hash indifferent keys
            (Function.update (hideFlat hideKeys keys value) (keySymbol indifferent) changed) := by
  induction count generalizing value with
  | zero =>
    rw [passes, hideSensitiveParams_slot there, Nat.zero_add, Nat.one_mul]
    cases passes (hideSensitiveParams hideKeys stack) (nestedKeys keys value).length
      (value (keySymbol indifferent)) <;> rfl
  | succ count hypothesis =>
    have calls : (count + 1 + 1) * (nestedKeys keys value).length =
        (nestedKeys keys value).length + (count + 1) * (nestedKeys keys value).length := by
      rw [Nat.succ_mul, Nat.add_comm]
    rw [passes, hideSensitiveParams_slot there, calls, passes_add]
    cases first : passes (hideSensitiveParams hideKeys stack) (nestedKeys keys value).length
      (value (keySymbol indifferent)) with
    | error raised => rfl
    | ok changed =>
      have nested := isHash_of_passes first (mem_nestedKeys.mp there).2
      have kept : ∀ rest, nestedKeys rest (Function.update (hideFlat hideKeys keys value)
          (keySymbol indifferent) changed) = nestedKeys rest value := by
        intro rest
        rw [nestedKeys_update (nested.trans (by
          rw [isHash_hideFlat]
          exact (mem_nestedKeys.mp there).2.symm)), nestedKeys_hideFlat]
      have again := @hypothesis (Function.update (hideFlat hideKeys keys value)
        (keySymbol indifferent) changed) (by rw [kept]; exact there)
      rw [Function.update_self, kept, hideFlat_update nested, hideFlat_idem] at again
      simp only [Except.map, Except.bind, again]
      congr 1
      funext last
      rw [Function.update_idem]

/-- A level of texts is hidden by every call. -/
theorem passes_flat {indifferent : Bool} {keys : List Key} {value : Key → Value α}
    (flat : nestedKeys keys value = []) (count : ℕ) :
    passes (hideSensitiveParams hideKeys (stack + 1)) (count + 1) (.hash indifferent keys value) =
      .ok (.hash indifferent keys (hideFlat hideKeys keys value)) := by
  have call : ∀ value : Key → Value α, nestedKeys keys value = [] →
      hideSensitiveParams hideKeys (stack + 1) (.hash indifferent keys value) =
        .ok (.hash indifferent keys (hideFlat hideKeys keys value)) := by
    intro value flat
    exact hideSensitiveParams_hash (eachKey_flat (fun _ listed => listed) flat)
  have fixed := call (hideFlat hideKeys keys value) (by rw [nestedKeys_hideFlat]; exact flat)
  rw [hideFlat_idem] at fixed
  rw [passes, call value flat]
  exact passes_fixed fixed count

/-- One call for a level with a text under `:key`. -/
theorem hideSensitiveParams_stops {indifferent : Bool} {keys : List Key} {value : Key → Value α}
    (member : keySymbol indifferent ∈ keys) (flat : (value (keySymbol indifferent)).isHash = false)
    (present : value (keySymbol indifferent) ≠ .nil) (nested : nestedKeys keys value ≠ []) :
    hideSensitiveParams hideKeys (stack + 2) (.hash indifferent keys value) =
      .error .noMethodError := by
  have loop :
      eachKey (hideSensitiveParams hideKeys (stack + 1)) hideKeys indifferent keys keys value = _ :=
    eachKey_text (fun _ => hideSensitiveParams_text) member (fun _ listed => listed) flat present
  rw [hideSensitiveParams, loop, if_neg nested]
  rfl

/-- One call for a level with nil under `:key`. -/
theorem hideSensitiveParams_skips {indifferent : Bool} {keys : List Key} {value : Key → Value α}
    (empty : fetch keys value (keySymbol indifferent) = .nil) :
    hideSensitiveParams hideKeys (stack + 2) (.hash indifferent keys value) =
      if keySymbol indifferent ∈ keys ∧ keySymbol indifferent ∈ hideKeys ∧
        nestedKeys (keys.dropWhile fun key => decide (key ≠ keySymbol indifferent)) value ≠ []
      then .error .noMethodError
      else .ok (.hash indifferent keys (hideFlat hideKeys keys value)) := by
  have loop :
      eachKey (hideSensitiveParams hideKeys (stack + 1)) hideKeys indifferent keys keys value = _ :=
    eachKey_nil (hideSensitiveParams_nil hideKeys _) (fun _ => hideSensitiveParams_text)
      (fun _ listed => listed) empty
  rw [hideSensitiveParams, loop]
  split <;> rfl

/-- Calls for a level with nil under `:key`: the first hides the nil if its key is listed. -/
theorem passes_nil {indifferent : Bool} {keys : List Key} {value : Key → Value α}
    (empty : fetch keys value (keySymbol indifferent) = .nil) (nested : nestedKeys keys value ≠ [])
    (count : ℕ) :
    passes (hideSensitiveParams hideKeys (stack + 2)) (count + 1) (.hash indifferent keys value) =
      if keySymbol indifferent ∈ keys ∧ keySymbol indifferent ∈ hideKeys ∧ (1 ≤ count ∨
        nestedKeys (keys.dropWhile fun key => decide (key ≠ keySymbol indifferent)) value ≠ [])
      then .error .noMethodError
      else .ok (.hash indifferent keys (hideFlat hideKeys keys value)) := by
  rw [passes, hideSensitiveParams_skips empty]
  by_cases listed : keySymbol indifferent ∈ keys ∧ keySymbol indifferent ∈ hideKeys
  · by_cases later : nestedKeys
        (keys.dropWhile fun key => decide (key ≠ keySymbol indifferent)) value ≠ []
    · rw [if_pos ⟨listed.1, listed.2, later⟩, if_pos ⟨listed.1, listed.2, .inr later⟩]
      rfl
    · rw [if_neg fun all => later all.2.2]
      have null : value (keySymbol indifferent) = .nil := by
        rw [← empty]
        exact (if_pos listed.1).symm
      have text : hideFlat hideKeys keys value (keySymbol indifferent) = hiddenText :=
        if_pos ⟨listed.1, by rw [null]; rfl, listed.2⟩
      cases count with
      | zero =>
        rw [if_neg fun all => all.2.2.elim (by omega) later]
        rfl
      | succ count =>
        rw [if_pos ⟨listed.1, listed.2, .inl (by omega)⟩]
        simp only [Except.bind]
        rw [passes, hideSensitiveParams_stops listed.1 (by rw [text]; rfl)
          (by rw [text]; simp [hiddenText]) (by rw [nestedKeys_hideFlat]; exact nested)]
        rfl
  · have still : fetch keys (hideFlat hideKeys keys value) (keySymbol indifferent) = .nil := by
      unfold fetch at empty ⊢
      by_cases member : keySymbol indifferent ∈ keys
      · have unlisted : keySymbol indifferent ∉ hideKeys := fun there => listed ⟨member, there⟩
        rw [if_pos member] at empty ⊢
        rw [hideFlat, if_neg fun all => unlisted all.2.2]
        exact empty
      · exact if_neg member
    have fixed : hideSensitiveParams hideKeys (stack + 2) (.hash indifferent keys _) = _ :=
      hideSensitiveParams_skips still
    rw [if_neg fun all => listed ⟨all.1, all.2.1⟩, hideFlat_idem] at fixed
    rw [if_neg fun all => listed ⟨all.1, all.2.1⟩, if_neg fun all => listed ⟨all.1, all.2.1⟩]
    exact passes_fixed fixed count

/-- A hash is passed repeatedly if the level is, or if there are several hashes in it. -/
theorem calls_often {count nested calls : ℕ} (positive : 0 < nested)
    (total : (count + 1) * nested = calls + 1) :
    decide (1 ≤ calls) = (decide (1 ≤ count) || decide (2 ≤ nested)) := by
  rw [← Bool.decide_or, decide_eq_decide]
  rw [Nat.succ_mul] at total
  constructor
  · intro several
    by_contra once
    have first : count = 0 := by omega
    rw [first, Nat.zero_mul] at total
    omega
  · rintro (again | several)
    · have more := Nat.mul_le_mul again positive
      omega
    · omega

/-- The calls for a hash, `count + 1` of them, hide everything in it exactly if it is as the method
needs it. -/
theorem passes_iff (params : Value α) (deep : params.depth < stack) (count : ℕ)
    (nested : params.isHash = true) :
    passes (hideSensitiveParams hideKeys stack) (count + 1) params = .ok (hidden hideKeys params) ↔
      Within hideKeys params (decide (1 ≤ count)) := by
  -- induction on the parameters; the hash under `:key` is passed at least once for each call here
  induction params generalizing stack count with
  | nil => contradiction
  | text content => contradiction
  | object content => contradiction
  | hash indifferent keys value hypothesis =>
    obtain ⟨below, rfl⟩ : ∃ below, stack = below + 2 :=
      ⟨stack - 2, by rw [Value.depth] at deep; omega⟩
    rw [Within]
    by_cases flat : nestedKeys keys value = []
    · have nothing : ∀ key ∈ nestedKeys keys value, NothingToHide hideKeys (value key) := by
        rw [flat]
        intro key listed
        contradiction
      rw [passes_flat flat, eq_hidden_iff_flat.mpr nothing]
      simp [flat]
    · by_cases there : keySymbol indifferent ∈ nestedKeys keys value
      · have member := mem_nestedKeys.mp there
        have atSlot : fetch keys value (keySymbol indifferent) = value (keySymbol indifferent) :=
          if_pos member.1
        have hash : value (keySymbol indifferent) ≠ .nil := by
          intro null
          rw [null] at member
          simp [Value.isHash] at member
        have positive : 0 < (nestedKeys keys value).length := List.length_pos_iff.mpr flat
        have product : 0 < (count + 1) * (nestedKeys keys value).length :=
          Nat.mul_pos (Nat.succ_pos count) positive
        obtain ⟨calls, total⟩ := Nat.exists_eq_add_of_lt product
        rw [Nat.zero_add] at total
        have often := calls_often positive total
        have nearer : (value (keySymbol indifferent)).depth <
            (Value.hash indifferent keys value).depth := depth_lt member.1
        have deeper : (value (keySymbol indifferent)).depth < below + 1 := by omega
        have within := hypothesis (keySymbol indifferent) deeper calls member.2
        rw [often] at within
        rw [passes_slot there, total]
        simp only [flat, member.1, member.2, atSlot, hash, false_or, false_and, or_false, true_and]
        rw [← within]
        cases passes (hideSensitiveParams hideKeys (below + 1)) (calls + 1)
          (value (keySymbol indifferent)) with
        | error raised => simp [Except.map]
        | ok changed =>
          simp only [Except.map, Except.ok.injEq]
          exact eq_hidden_iff_slot there
      · by_cases empty : fetch keys value (keySymbol indifferent) = .nil
        · have no_hash : ¬ (keySymbol indifferent ∈ keys ∧
              (value (keySymbol indifferent)).isHash = true) := fun both =>
            there (mem_nestedKeys.mpr both)
          have none_later :
              (∀ key ∈ keys.dropWhile (fun key => decide (key ≠ keySymbol indifferent)),
              (value key).isHash = false) ↔
              nestedKeys (keys.dropWhile fun key => decide (key ≠ keySymbol indifferent)) value =
                [] := by
            rw [nestedKeys, List.filter_eq_nil_iff]
            simp
          rw [passes_nil empty flat, none_later]
          simp only [flat, empty, false_or, true_and]
          by_cases stops : keySymbol indifferent ∈ keys ∧ keySymbol indifferent ∈ hideKeys ∧
              (1 ≤ count ∨ nestedKeys
                (keys.dropWhile fun key => decide (key ≠ keySymbol indifferent)) value ≠ [])
          · rw [if_pos stops]
            constructor
            · intro returned
              cases returned
            · rintro (⟨member, hash, _⟩ | ⟨_, condition⟩)
              · exact absurd ⟨member, hash⟩ no_hash
              · have once := condition stops.1 stops.2.1
                rcases stops.2.2 with repeated | later
                · exact absurd repeated (of_decide_eq_false once.1)
                · exact absurd once.2 later
          · rw [if_neg stops, Except.ok.injEq, eq_hidden_iff_flat]
            constructor
            · intro nothing
              refine .inr ⟨nothing, fun member listed => ⟨?_, ?_⟩⟩
              · apply decide_eq_false
                intro repeated
                exact stops ⟨member, listed, .inl repeated⟩
              · by_contra later
                exact stops ⟨member, listed, .inr later⟩
            · rintro (⟨member, hash, _⟩ | ⟨nothing, _⟩)
              · exact absurd ⟨member, hash⟩ no_hash
              · exact nothing
        · have member : keySymbol indifferent ∈ keys := by
            by_contra absent
            exact empty (if_neg absent)
          have atSlot : fetch keys value (keySymbol indifferent) = value (keySymbol indifferent) :=
            if_pos member
          have text : (value (keySymbol indifferent)).isHash = false := by
            by_contra hash
            exact there (mem_nestedKeys.mpr ⟨member, by simpa using hash⟩)
          rw [atSlot] at empty
          rw [passes, hideSensitiveParams_stops member text empty flat]
          simp [Except.bind, flat, text, atSlot, empty]

end Calls

/-- For parameters of any depth, as many calls as there are levels suffice: the call hides what is
under a listed key at every depth and changes nothing else exactly if there is nothing to hide
in the hashes that it does not come to, and nothing but hashes and nil under `:key`. -/
theorem hideSensitiveParams_iff (hideKeys : List Key) (indifferent : Bool) (keys : List Key)
    (value : Key → Value α) (more : ℕ) :
    hideSensitiveParams hideKeys ((Value.hash indifferent keys value).depth + 1 + more)
        (.hash indifferent keys value) = .ok (hidden hideKeys (.hash indifferent keys value)) ↔
      Within hideKeys (.hash indifferent keys value) false := by
  have single : ∀ (stack : ℕ) (params : Value α),
      passes (hideSensitiveParams hideKeys stack) (0 + 1) params =
        hideSensitiveParams hideKeys stack params := by
    intro stack params
    rw [passes]
    cases hideSensitiveParams hideKeys stack params <;> rfl
  rw [← single]
  exact passes_iff _ (by omega) 0 rfl

/-- The parameters of a form, nested as Rails does it. -/
def userParams : Value String :=
  .hash false [.string "user"] fun _ => .hash false [.string "password"] fun _ => .text "secret"

/-- The password of a nested hash is left as it is. -/
theorem hideSensitiveParams_user :
    ¬ hideSensitiveParams defaultHideKeys 3 userParams =
      .ok (hidden defaultHideKeys userParams) := by
  have left : hideSensitiveParams defaultHideKeys 3 userParams = .ok userParams := rfl
  rw [left, Except.ok.injEq]
  intro same
  have nothing := (nothingToHide_iff defaultHideKeys userParams).mpr same.symm
  have user := (nothing (.string "user") (List.mem_singleton.mpr rfl)).1 rfl
  have password := (user (.string "password") (List.mem_singleton.mpr rfl)).2 rfl List.mem_cons_self
  simp [hiddenText] at password

end FcTpms.Website.ApplicationController
