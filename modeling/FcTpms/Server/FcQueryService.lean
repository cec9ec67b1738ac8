import FcTpms.Machine.Runs

/-!
# `FcQueryService`

The service takes one intent after the other. Its requests wait in a queue, whose threads build
the headers of a request when they send it, and the callbacks of requests run on yet another
thread. All of them share the static field `apiToken`. Two activities use the service's functions
on threads of their own, one to log in and one to log out.
-/

namespace FcTpms.Server

/-- The methods of `Request.Method` that are used. -/
inductive Method where
  | get
  | post
  | delete
  deriving DecidableEq

/-- `u`, the data of an intent. -/
structure Uri where
  /-- `getPath()`. -/
  path : String
  /-- `getQuery()`. -/
  query : String
  /-- `getQueryParameter("meth")`. -/
  meth : String
  deriving DecidableEq

/-- `getFullUrl`. -/
def getFullUrl (uri parms : String) : String :=
  "http" ++ "://" ++ "www.fleetcents.com" ++
    (uri ++ if 0 < parms.length then "?" ++ parms else "")

/-- `logoutUri`. -/
def logoutUri : String := "/user/sign_out.json"

/-- `logoutParms`. -/
def logoutParms : String := ""

/-- `logoutMethod`. -/
def logoutMethod : Method := .delete

/-- `apiTokenAvailable`. -/
def apiTokenAvailable (apiToken : String) : Bool := decide (0 < apiToken.length)

/-- `getHeaders` of the requests of `fetchUrl`, where `userid` is the preference. -/
def getHeaders (userid apiToken : String) : List (String × String) :=
  [("Content-Type", "application/json")] ++
    (if 0 < userid.length then [("X-USER-EMAIL", userid)] else []) ++
    if apiTokenAvailable apiToken then [("X-USER-TOKEN", apiToken)] else []

/-- A request of `fetchUrl`. -/
structure Request where
  /-- `methodType`. -/
  methodType : Method
  /-- `url`. -/
  url : String
  /-- The token that was stored when the request was decided on. The code does not keep it. -/
  decidedWith : String
  deriving DecidableEq

/-- A request as it was sent. -/
structure Dispatched where
  /-- The request. -/
  request : Request
  /-- What `getHeaders` returned. -/
  headers : List (String × String)
  deriving DecidableEq

/-- How `loginToServer` ends. -/
inductive Login where
  /-- The response has an `authentication_token`. -/
  | token (authenticationToken : String)
  /-- It has none. -/
  | malformed
  /-- The wait was interrupted, failed or took longer than two seconds. -/
  | failed
  deriving DecidableEq

/-- Where the handler of intents is in `callToServer`. -/
inductive Handler where
  /-- There is no intent. -/
  | idle
  /-- It waits in `loginToServer`. -/
  | loggingIn (u : Uri)
  /-- It has found a token or has logged in. -/
  | checked (u : Uri)
  deriving DecidableEq

/-- The service, its queue and its requests. -/
structure State where
  /-- `AbstractBaseActivity.apiToken`. -/
  apiToken : String
  /-- The handler of intents. -/
  handler : Handler
  /-- The requests of `fetchUrl` that wait in `queue`. -/
  queue : List Request
  /-- The requests of `fetchUrl` that were sent and whose callbacks have not run. -/
  inFlight : List Request
  /-- The number of login requests whose callbacks have not run. -/
  logins : ℕ
  /-- All requests of `fetchUrl` that were sent. -/
  dispatched : List Dispatched
  deriving DecidableEq

/-- The application has just started. -/
def State.initial : State := ⟨"", .idle, [], [], 0, []⟩

/-- What can happen next. -/
inductive Event where
  /-- An intent is taken, up to the test for a token. -/
  | handle (u : Uri)
  /-- `loginToServer` returns to the handler. -/
  | loggedIn (login : Login)
  /-- The handler goes on after the test for a token. -/
  | issue
  /-- A thread of the queue sends a request. -/
  | dispatch (index : ℕ) (userid : String)
  /-- `onResponse` of a request, with whether the response is JSON. -/
  | response (index : ℕ) (json : Bool)
  /-- `onErrorResponse` of a request. -/
  | errorResponse (index : ℕ)
  /-- `onErrorResponse` of a login request. -/
  | loginErrorResponse
  /-- `LoginActivity` calls `loginToServer`. -/
  | userLogin
  /-- `loginToServer` returns to `LoginActivity`. -/
  | userLoggedIn (login : Login)
  /-- `MainActivity` calls `logoutOfServer`. -/
  | userLogout
  deriving DecidableEq

namespace State

/-- `handleServerError`. -/
def handleServerError (state : State) : State := { state with apiToken := "" }

/-- `fetchUrl`, for a request that was decided on when this token was stored. -/
def fetchUrl (state : State) (url : String) (methodType : Method) (decidedWith : String) : State :=
  { state with queue := state.queue ++ [⟨methodType, url, decidedWith⟩] }

/-- `logoutOfServer`. -/
def logoutOfServer (state : State) : State :=
  { state with apiToken := "" }.fetchUrl (getFullUrl logoutUri logoutParms) logoutMethod
    state.apiToken

/-- The end of `loginToServer`, with the value it returns. -/
def endLogin (state : State) : Login → State × Bool
  | .token authenticationToken =>
    ({ state with apiToken := authenticationToken, logins := state.logins - 1 }, true)
  | .malformed => ({ state with logins := state.logins - 1 }, false)
  | .failed => (state.handleServerError, false)

/-- The rest of `callToServer`, after the test for a token. -/
def callToServer (state : State) (u : Uri) : State :=
  if u.meth = "DELETE" then state.logoutOfServer
  else
    let meth := if u.meth = "POST" then Method.post else Method.get
    state.fetchUrl (getFullUrl u.path u.query) meth state.apiToken

end State

/-- What an event does, if it can happen. -/
def step (state : State) : Event → Option State
  | .handle u =>
    if state.handler ≠ .idle then none
    else if apiTokenAvailable state.apiToken then .some { state with handler := .checked u }
    else .some { state with handler := .loggingIn u, logins := state.logins + 1 }
  | .loggedIn login =>
    match state.handler with
    | .loggingIn u =>
      let (state, success) := state.endLogin login
      .some { state with handler := if success then .checked u else .idle }
    | _ => none
  | .issue =>
    match state.handler with
    | .checked u => .some { state.callToServer u with handler := .idle }
    | _ => none
  | .dispatch index userid =>
    state.queue[index]?.map fun request =>
      { state with
        queue := state.queue.eraseIdx index
        inFlight := state.inFlight ++ [request]
        dispatched := state.dispatched ++ [⟨request, getHeaders userid state.apiToken⟩] }
  | .response index json =>
    state.inFlight[index]?.map fun _ =>
      let answered := { state with inFlight := state.inFlight.eraseIdx index }
      if json then answered else answered.handleServerError
  | .errorResponse index =>
    state.inFlight[index]?.map fun _ =>
      { state with inFlight := state.inFlight.eraseIdx index }.handleServerError
  | .loginErrorResponse =>
    if state.logins = 0 then none
    else .some { state with logins := state.logins - 1 }.handleServerError
  | .userLogin => .some { state with logins := state.logins + 1 }
  | .userLoggedIn login =>
    if state.logins = 0 ∧ login ≠ .failed then none else .some (state.endLogin login).1
  | .userLogout => .some state.logoutOfServer

end FcTpms.Server
