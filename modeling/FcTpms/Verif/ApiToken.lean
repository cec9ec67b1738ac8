import FcTpms.Server.FcQueryService

/-!
# The token that requests carry

The header with the token is built when a request is sent. It is the token that was stored when the
request was decided on as long as nothing writes `apiToken` in between. Signing out does so
itself, before its own request is sent.
-/

namespace FcTpms.Server

open Machine

/-- The field of the token in the headers. -/
def userToken (headers : List (String × String)) : Option String := headers.lookup "X-USER-TOKEN"

/-- A request was sent with a token, and with the one that was stored when it was decided on. -/
structure CarriesToken (sent : Dispatched) : Prop where
  /-- The token that was stored. -/
  stored : userToken sent.headers = .some sent.request.decidedWith
  /-- There was one. -/
  present : sent.request.decidedWith ≠ ""

/-- No request waits, and the handler is not between its test for a token and its request. -/
def Quiet (state : State) : Prop := state.queue = [] ∧ ∀ u, state.handler ≠ .checked u

/-- The condition on a step: nobody signs out, the server's tokens are not empty, and the token is
written only while no request depends on it. -/
def Undisturbed (state : State) : Event → Prop
  | .issue => ∀ u, state.handler = .checked u → u.meth ≠ "DELETE"
  | .userLogout => False
  | .loggedIn login => login ≠ .token ""
  | .response _ json => json = true ∨ Quiet state
  | .errorResponse _ => Quiet state
  | .loginErrorResponse => Quiet state
  | .userLoggedIn login => login = .malformed ∨ Quiet state
  | _ => True

/-- What undisturbed steps keep. -/
structure Kept (state : State) : Prop where
  /-- All requests that were sent carried their tokens. -/
  sent : ∀ sent ∈ state.dispatched, CarriesToken sent
  /-- All requests that wait were decided on with the token that is stored now. -/
  waiting : ∀ request ∈ state.queue, request.decidedWith = state.apiToken ∧ state.apiToken ≠ ""
  /-- After the test for a token there is one. -/
  checked : ∀ u, state.handler = .checked u → state.apiToken ≠ ""
  /-- While the handler logs in, nothing waits. -/
  loggingIn : ∀ u, state.handler = .loggingIn u → state.queue = []

theorem apiTokenAvailable_iff {apiToken : String} :
    apiTokenAvailable apiToken = true ↔ apiToken ≠ "" := by
  unfold apiTokenAvailable
  rw [decide_eq_true_eq, Nat.pos_iff_ne_zero, ne_eq, ne_eq, String.length_eq_zero_iff]

/-- The headers carry a token that is stored. -/
theorem userToken_getHeaders {apiToken : String} (present : apiToken ≠ "") (userid : String) :
    userToken (getHeaders userid apiToken) = .some apiToken := by
  unfold getHeaders userToken
  rw [if_pos (apiTokenAvailable_iff.mpr present)]
  split <;> rfl

/-- And none if none is stored. -/
theorem userToken_getHeaders_empty (userid : String) :
    userToken (getHeaders userid "") = none := by
  unfold getHeaders userToken
  split <;> rfl

theorem kept_initial : Kept .initial :=
  ⟨fun _ member => (nomatch member), fun _ member => (nomatch member), fun _ same => (nomatch same),
    fun _ same => (nomatch same)⟩

section Steps

variable {state next : State}

/-- Writing the token while no request depends on it, or leaving it alone. -/
theorem Kept.write (kept : Kept state) (sent : next.dispatched = state.dispatched)
    (queue : next.queue = state.queue) (handler : next.handler = state.handler)
    (safe : next.apiToken = state.apiToken ∨ Quiet state) : Kept next := by
  constructor
  · rw [sent]
    exact kept.sent
  · intro request member
    rw [queue] at member
    rcases safe with same | ⟨empty, -⟩
    · rw [same]
      exact kept.waiting request member
    · rw [empty] at member
      cases member
  · intro u checked
    rw [handler] at checked
    rcases safe with same | ⟨-, unchecked⟩
    · rw [same]
      exact kept.checked u checked
    · exact absurd checked (unchecked u)
  · rw [handler, queue]
    exact kept.loggingIn

/-- A step of the handler that writes no token and issues no request. -/
theorem Kept.enter (kept : Kept state) {handler : Handler} {logins : ℕ}
    (checked : ∀ u, handler = .checked u → state.apiToken ≠ "")
    (loggingIn : ∀ u, handler = .loggingIn u → state.queue = []) :
    Kept { state with handler, logins } :=
  ⟨kept.sent, kept.waiting, checked, loggingIn⟩

/-- Without a token no request waits. -/
theorem Kept.queue_of_empty (kept : Kept state) (empty : state.apiToken = "") :
    state.queue = [] := by
  cases waiting : state.queue with
  | nil => rfl
  | cons request rest =>
    have stored := (kept.waiting request (waiting ▸ List.mem_cons_self)).2
    exact absurd empty stored

theorem Kept.handle (kept : Kept state) {u : Uri} (stepped : step state (.handle u) = .some next) :
    Kept next := by
  unfold step at stepped
  dsimp only at stepped
  split at stepped
  · cases stepped
  · split at stepped
    · next available =>
      cases stepped
      exact kept.enter (fun _ _ => apiTokenAvailable_iff.mp available)
        (fun _ same => (nomatch same))
    · next missing =>
      cases stepped
      have empty : state.apiToken = "" := by
        by_contra present
        exact missing (apiTokenAvailable_iff.mpr present)
      exact kept.enter (fun _ same => (nomatch same)) fun _ _ => kept.queue_of_empty empty

theorem Kept.loggedIn (kept : Kept state) {login : Login} (valid : login ≠ .token "")
    (stepped : step state (.loggedIn login) = .some next) : Kept next := by
  unfold step at stepped
  dsimp only at stepped
  cases handler : state.handler with
  | idle =>
    rw [handler] at stepped
    cases stepped
  | checked u =>
    rw [handler] at stepped
    cases stepped
  | loggingIn u =>
    rw [handler] at stepped
    have empty := kept.loggingIn u handler
    have nothing {request : Request} (member : request ∈ state.queue) : False := by
      rw [empty] at member
      cases member
    cases login with
    | token authenticationToken =>
      cases stepped
      exact ⟨kept.sent, fun _ member => (nothing member).elim,
        fun _ _ same => valid (same ▸ rfl), fun _ same => (nomatch same)⟩
    | malformed =>
      cases stepped
      exact kept.enter (fun _ same => (nomatch same)) fun _ same => (nomatch same)
    | failed =>
      cases stepped
      exact ⟨kept.sent, fun _ member => (nothing member).elim, fun _ same => (nomatch same),
        fun _ same => (nomatch same)⟩

theorem Kept.issue (kept : Kept state)
    (stays : ∀ u, state.handler = .checked u → u.meth ≠ "DELETE")
    (stepped : step state .issue = .some next) : Kept next := by
  unfold step at stepped
  dsimp only at stepped
  cases handler : state.handler with
  | idle =>
    rw [handler] at stepped
    cases stepped
  | loggingIn u =>
    rw [handler] at stepped
    cases stepped
  | checked u =>
    have issued : state.callToServer u = state.fetchUrl (getFullUrl u.path u.query)
        (if u.meth = "POST" then Method.post else Method.get) state.apiToken :=
      if_neg (stays u handler)
    rw [handler] at stepped
    dsimp only at stepped
    rw [issued] at stepped
    cases stepped
    constructor
    · exact kept.sent
    · intro request member
      rcases List.mem_append.mp member with before | new
      · exact kept.waiting request before
      · obtain rfl := List.mem_singleton.mp new
        exact ⟨rfl, kept.checked u handler⟩
    · intro _ same
      cases same
    · intro _ same
      cases same

theorem Kept.dispatch (kept : Kept state) {index : ℕ} {userid : String}
    (stepped : step state (.dispatch index userid) = .some next) : Kept next := by
  obtain ⟨request, found, rfl⟩ := Option.map_eq_some_iff.mp stepped
  have member : request ∈ state.queue := List.mem_of_getElem? found
  obtain ⟨same, present⟩ := kept.waiting request member
  constructor
  · intro sent sentNow
    rcases List.mem_append.mp sentNow with before | new
    · exact kept.sent sent before
    · obtain rfl := List.mem_singleton.mp new
      constructor
      · rw [same]
        exact userToken_getHeaders present userid
      · rw [same]
        exact present
  · intro other left
    exact kept.waiting other (List.mem_of_mem_eraseIdx left)
  · exact kept.checked
  · intro u waits
    have empty := kept.loggingIn u waits
    rw [empty] at member
    cases member

/-- An undisturbed step keeps it. -/
theorem Kept.step (kept : Kept state) {event : Event} (undisturbed : Undisturbed state event)
    (stepped : step state event = .some next) : Kept next := by
  cases event with
  | handle u => exact kept.handle stepped
  | loggedIn login => exact kept.loggedIn undisturbed stepped
  | issue => exact kept.issue undisturbed stepped
  | dispatch index userid => exact kept.dispatch stepped
  | response index json =>
    obtain ⟨request, -, rfl⟩ := Option.map_eq_some_iff.mp stepped
    cases json with
    | true => exact kept.write rfl rfl rfl (Or.inl rfl)
    | false => exact kept.write rfl rfl rfl (Or.inr (undisturbed.resolve_left Bool.false_ne_true))
  | errorResponse index =>
    obtain ⟨request, -, rfl⟩ := Option.map_eq_some_iff.mp stepped
    exact kept.write rfl rfl rfl (Or.inr undisturbed)
  | loginErrorResponse =>
    unfold Server.step at stepped
    dsimp only at stepped
    split at stepped
    · cases stepped
    · cases stepped
      exact kept.write rfl rfl rfl (Or.inr undisturbed)
  | userLogin =>
    cases stepped
    exact kept.write rfl rfl rfl (Or.inl rfl)
  | userLoggedIn login =>
    unfold Server.step at stepped
    dsimp only at stepped
    split at stepped
    · cases stepped
    · cases stepped
      cases login with
      | malformed => exact kept.write rfl rfl rfl (Or.inl rfl)
      | token authenticationToken =>
        exact kept.write rfl rfl rfl (Or.inr (undisturbed.resolve_left Login.noConfusion))
      | failed => exact kept.write rfl rfl rfl (Or.inr (undisturbed.resolve_left Login.noConfusion))
  | userLogout => exact undisturbed.elim

end Steps

/-- In every run in which nobody signs out and the token is written only while no request depends
on it, every request is sent with the token that was stored when it was decided on. -/
theorem dispatched_carry (events : List Event) {state : State}
    (undisturbed : Meets step Undisturbed .initial events)
    (reached : run step .initial events = .some state) :
    ∀ sent ∈ state.dispatched, CarriesToken sent :=
  (run_keeps (fun _ _ _ kept condition stepped => Kept.step kept condition stepped) kept_initial
    undisturbed reached).sent

/-- An intent for the fleet. -/
def fleetUri : Uri := ⟨"/fleets.json", "meth=GET", "GET"⟩

/-- A login, and a request after it. -/
def fleetEvents : List Event :=
  [.handle fleetUri, .loggedIn (.token "t1"), .issue, .dispatch 0 ""]

/-- A request after a login. -/
theorem dispatched_carry_fleet :
    ∃ state, run step .initial fleetEvents = .some state ∧ state.dispatched ≠ [] ∧
      ∀ sent ∈ state.dispatched, CarriesToken sent := by
  have undisturbed : Meets step Undisturbed .initial fleetEvents := by
    unfold fleetEvents
    apply Meets.cons trivial rfl
    apply Meets.cons
    · show Login.token "t1" ≠ .token ""
      decide
    · rfl
    apply Meets.cons
    · intro u checked
      cases checked
      decide
    · rfl
    apply Meets.cons trivial rfl
    trivial
  exact ⟨_, rfl, List.cons_ne_nil _ _, dispatched_carry fleetEvents undisturbed rfl⟩

/-! ## Signing out -/

/-- No login returns a token. -/
def NoLogin (_ : State) : Event → Prop
  | .loggedIn (.token _) => False
  | .userLoggedIn (.token _) => False
  | _ => True

/-- What signing out leaves behind: no token is stored, and what was sent since carries none. -/
structure SignedOut (before : List Dispatched) (state : State) : Prop where
  /-- No token is stored. -/
  empty : state.apiToken = ""
  /-- What was sent since carries none. -/
  sent : ∀ sent ∈ state.dispatched, sent ∈ before ∨ userToken sent.headers = none

/-- A step that sends nothing and stores nothing. -/
theorem SignedOut.of_same {before : List Dispatched} {state next : State}
    (out : SignedOut before state) (dispatched : next.dispatched = state.dispatched)
    (token : next.apiToken = state.apiToken ∨ next.apiToken = "") : SignedOut before next := by
  constructor
  · rcases token with same | empty
    · rw [same]
      exact out.empty
    · exact empty
  · rw [dispatched]
    exact out.sent

/-- A step without a login keeps it. -/
theorem SignedOut.step {before : List Dispatched} {state next : State}
    (out : SignedOut before state) {event : Event} (noLogin : NoLogin state event)
    (stepped : step state event = .some next) : SignedOut before next := by
  cases event with
  | handle u =>
    unfold Server.step at stepped
    dsimp only at stepped
    split at stepped
    · cases stepped
    · split at stepped <;> cases stepped <;> exact out.of_same rfl (Or.inl rfl)
  | loggedIn login =>
    unfold Server.step at stepped
    dsimp only at stepped
    split at stepped
    · cases login with
      | token authenticationToken => exact noLogin.elim
      | malformed =>
        cases stepped
        exact out.of_same rfl (Or.inl rfl)
      | failed =>
        cases stepped
        exact out.of_same rfl (Or.inr rfl)
    · cases stepped
  | issue =>
    unfold Server.step State.callToServer at stepped
    dsimp only at stepped
    split at stepped
    · split at stepped
      · cases stepped
        exact out.of_same rfl (Or.inr rfl)
      · cases stepped
        exact out.of_same rfl (Or.inl rfl)
    · cases stepped
  | dispatch index userid =>
    obtain ⟨request, -, rfl⟩ := Option.map_eq_some_iff.mp stepped
    constructor
    · exact out.empty
    · intro sent sentNow
      rcases List.mem_append.mp sentNow with earlier | new
      · exact out.sent sent earlier
      · obtain rfl := List.mem_singleton.mp new
        right
        rw [out.empty]
        exact userToken_getHeaders_empty userid
  | response index json =>
    obtain ⟨request, -, rfl⟩ := Option.map_eq_some_iff.mp stepped
    cases json with
    | true => exact out.of_same rfl (Or.inl rfl)
    | false => exact out.of_same rfl (Or.inr rfl)
  | errorResponse index =>
    obtain ⟨request, -, rfl⟩ := Option.map_eq_some_iff.mp stepped
    exact out.of_same rfl (Or.inr rfl)
  | loginErrorResponse =>
    unfold Server.step at stepped
    dsimp only at stepped
    split at stepped
    · cases stepped
    · cases stepped
      exact out.of_same rfl (Or.inr rfl)
  | userLogin =>
    cases stepped
    exact out.of_same rfl (Or.inl rfl)
  | userLoggedIn login =>
    unfold Server.step at stepped
    dsimp only at stepped
    split at stepped
    · cases stepped
    · cases stepped
      cases login with
      | token authenticationToken => exact noLogin.elim
      | malformed => exact out.of_same rfl (Or.inl rfl)
      | failed => exact out.of_same rfl (Or.inr rfl)
  | userLogout =>
    cases stepped
    exact out.of_same rfl (Or.inr rfl)

/-- Whatever is sent after `logoutOfServer` and before the next login carries no token, the
request that signs out included. -/
theorem signedOut_carry_none {state last : State} {events : List Event}
    (noLogin : Meets step NoLogin state.logoutOfServer events)
    (reached : run step state.logoutOfServer events = .some last) :
    ∀ sent ∈ last.dispatched, sent ∈ state.dispatched ∨ userToken sent.headers = none := by
  have out : SignedOut state.dispatched state.logoutOfServer :=
    ⟨rfl, fun sent member => Or.inl member⟩
  exact (run_keeps (fun _ _ _ kept condition stepped => SignedOut.step kept condition stepped) out
    noLogin reached).sent

/-- An intent to sign out. -/
def signOutUri : Uri := ⟨"/user/sign_out.json", "meth=DELETE", "DELETE"⟩

/-- A request that signs out without the token that it is meant to expire. -/
theorem signOut_without_token :
    ∃ state, run step .initial [.handle fleetUri, .loggedIn (.token "t1"), .issue, .dispatch 0 "",
        .handle signOutUri, .issue, .dispatch 0 ""] = .some state ∧
      ¬∀ sent ∈ state.dispatched, CarriesToken sent := by
  refine ⟨_, rfl, fun carried => ?_⟩
  have signOut := (carried _ (List.getLast_mem (List.cons_ne_nil _ _))).stored
  revert signOut
  decide

end FcTpms.Server
