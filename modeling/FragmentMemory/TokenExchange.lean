import FragmentMemory.InterleavedRuns
import FragmentMemory.OAuthBinding

/-! # Token requests side by side

`handleToken` with Redis in its commands: a grant is read and deleted by two of them, and between the two
other requests may read it.  The lookup of the client secret is no Redis command and is taken together with
the first one.
-/
namespace FragmentMemory.TokenExchange
open ApiKeyStore JsString KeyValueStore OAuthServer InterleavedRuns TransitionRuns

/-- A request with the two random strings that its handler will generate. -/
structure TokenRequest where
  params : TokenParams
  accessToken : String
  refreshToken : String

/-- What is read from Redis and then deleted. -/
inductive Credential
  | code (code : String)
  | refresh (token : String)
  deriving DecidableEq

def TokenRequest.presents (request : TokenRequest) : Option Credential :=
  if request.params.grantType = some "refresh_token" then (truthy request.params.refreshToken).map .refresh
  else if request.params.grantType = some "authorization_code" then (truthy request.params.code).map .code
  else none

structure Issue where
  accessData : TokenData
  refreshData : TokenData

/-- The next command of a request. -/
inductive Stage
  | reading
  | consuming (data : CodeData) (secretBound : Option KeyId)
  | expiring
  | savingAccess (issue : Issue)
  | savingRefresh (issue : Issue)
  | rotating (scope : String)
  | finished (result : TokenResult)

structure Thread where
  request : TokenRequest
  stage : Stage := .reading

/-- What a step meets; a failing command is caught, and a failing read finds nothing. -/
structure StepInput where
  now : ℕ
  tables : KeyTables
  faults : LookupFaults := {}
  fails : Bool := false

variable (config : Config)

def Issue.ofGrant (now : ℕ) (grant : Grant) (secretBound : Option KeyId) (resource : Option String) (refreshTtl : ℕ) :
    Issue where
  accessData := tokenData .access grant secretBound resource now config.oauthTokenTtlSeconds
  refreshData := tokenData .refresh grant secretBound resource now refreshTtl

/-- The checks of a consumed code. -/
def checkCode (now : ℕ) (params : TokenParams) (codeVerifier : String) (data : CodeData)
    (secretBound : Option KeyId) : Stage :=
  if data.expiresAt < now then .finished (.error "invalid_grant" "Authorization code expired")
  else if some data.redirectUri ≠ params.redirectUri then .finished (.error "invalid_grant" "redirect_uri mismatch")
  else if config.digests.base64Url codeVerifier ≠ data.codeChallenge then
    .finished (.error "invalid_grant" "code_verifier validation failed")
  else .savingAccess (.ofGrant config now (.ofCode data) secretBound params.resource (config.oauthTokenTtlSeconds * 24))

/-- The checks of a refresh token that was found. -/
def checkRefresh (now : ℕ) (params : TokenParams) (data : TokenData) (secretBound : Option KeyId) : Stage :=
  if data.type ≠ .refresh then .finished (.error "invalid_grant" "Invalid refresh token")
  else if data.expiresAt < now then .expiring
  else .savingAccess (.ofGrant config now (.ofToken data) secretBound params.resource config.oauthRefreshTtlSeconds)

/-- The first command, a `GET`. -/
def readGrant (input : StepInput) (state : OAuthState) (params : TokenParams) : Stage :=
  let secretBound := secretBoundKeyId config input.tables input.faults params.clientSecret
  if params.grantType = some "refresh_token" then
    match truthy params.refreshToken with
    | none => .finished (.error "invalid_request" "refresh_token is required")
    | some presented =>
      match if input.fails then none else state.accessTokens.get input.now presented with
      | none => .finished (.error "invalid_grant" "Invalid refresh token")
      | some data => checkRefresh config input.now params data secretBound
  else if params.grantType ≠ some "authorization_code" then
    .finished (.error "unsupported_grant_type" "Only authorization_code and refresh_token are supported")
  else match truthy params.code, truthy params.codeVerifier with
    | none, _ => .finished (.error "invalid_request" "code is required")
    | some _, none => .finished (.error "invalid_request" "code_verifier is required (PKCE)")
    | some code, some _ =>
      match if input.fails then none else state.authCodes.get input.now code with
      | none => .finished (.error "invalid_grant" "Invalid authorization code")
      | some data => .consuming data secretBound

def Credential.delete (state : OAuthState) : Credential → OAuthState
  | .code presented => { state with authCodes := state.authCodes.delete presented }
  | .refresh presented => { state with accessTokens := state.accessTokens.delete presented }

/-- `DEL` on what the request presents. -/
def deletePresented (input : StepInput) (state : OAuthState) (request : TokenRequest) : OAuthState :=
  match request.presents with
  | some credential => if input.fails then state else credential.delete state
  | none => state

/-- `SETEX` of a new token. -/
def saveToken (input : StepInput) (state : OAuthState) (token : String) (data : TokenData) (ttlSeconds : ℕ) : OAuthState :=
  if input.fails then state
  else { state with accessTokens := state.accessTokens.put token data (some (input.now + ttlSeconds * 1000)) }

/-- The next step of a request. -/
def advance (input : StepInput) (state : OAuthState) (thread : Thread) : OAuthState × Thread :=
  let request := thread.request
  match thread.stage with
  | .reading => (state, { thread with stage := readGrant config input state request.params })
  | .consuming data secretBound =>
    (deletePresented input state request,
      { thread with stage :=
          if input.fails then .finished (.error "invalid_grant" "Invalid authorization code")
          else checkCode config input.now request.params (request.params.codeVerifier.getD "") data secretBound })
  | .expiring =>
    (deletePresented input state request,
      { thread with stage := .finished (.error "invalid_grant" "Refresh token expired") })
  | .savingAccess issue =>
    (saveToken input state request.accessToken issue.accessData config.oauthTokenTtlSeconds,
      { thread with stage := .savingRefresh issue })
  | .savingRefresh issue =>
    (saveToken input state request.refreshToken issue.refreshData config.oauthRefreshTtlSeconds,
      { thread with stage :=
          if request.params.grantType = some "refresh_token" then .rotating issue.accessData.scope
          else .finished (.issued request.accessToken request.refreshToken issue.accessData.scope) })
  | .rotating scope =>
    (deletePresented input state request,
      { thread with stage := .finished (.issued request.accessToken request.refreshToken scope) })
  | .finished _ => (state, thread)

/-- Requests that have not begun. -/
def start (state : OAuthState) (requests : List TokenRequest) : Pool OAuthState Thread where
  shared := state
  threads := requests.map fun request => { request := request }

/-- A request on its own, with one clock throughout and no failing command, is the handler. -/
theorem run_alone (hredis : config.redisEnabled = true) (input : StepInput) (hfails : input.fails = false)
    (state : OAuthState) (request : TokenRequest) :
    ((run (Pool.step (advance config)) (start state [request]) [(0, input), (0, input), (0, input), (0, input)]).shared,
      (run (Pool.step (advance config)) (start state [request])
        [(0, input), (0, input), (0, input), (0, input)]).threads.map Thread.stage) =
      ((handleToken config input.tables input.faults input.now state request.params request.accessToken
          request.refreshToken).1,
        [.finished (handleToken config input.tables input.faults input.now state request.params request.accessToken
          request.refreshToken).2]) := by
  have hdeadline : ∀ ttlSeconds, deadline config input.now ttlSeconds = some (input.now + ttlSeconds * 1000) := by
    intro ttlSeconds
    rw [deadline, if_pos hredis]
  simp only [run_cons, run_nil, start, List.map_cons, List.map_nil, Pool.step, List.getElem?_cons_zero, advance,
    readGrant,
    List.set_cons_zero, hfails, Bool.false_eq_true, if_false, handleToken]
  by_cases hrefresh : request.params.grantType = some "refresh_token"
  · simp only [hrefresh, if_true, handleRefreshGrant]
    rcases hpresented : truthy request.params.refreshToken with _ | presented
    · rfl
    · have hpresents : request.presents = some (.refresh presented) := by
        simp only [TokenRequest.presents, hrefresh, if_true, hpresented, Option.map_some]
      simp only
      rcases state.accessTokens.get input.now presented with _ | data
      · rfl
      · simp only [checkRefresh]
        by_cases htype : data.type = .refresh
        · by_cases hexpired : data.expiresAt < input.now
          · simp only [htype, hexpired, ne_eq, not_true_eq_false, if_false, if_true, deletePresented, hpresents, hfails,
              Credential.delete, Bool.false_eq_true]
          · simp only [htype, hexpired, ne_eq, not_true_eq_false, if_false, if_true, deletePresented, hpresents, hfails,
              Credential.delete, Bool.false_eq_true, hrefresh, saveToken, issueTokens, hdeadline, Issue.ofGrant]
            rfl
        · simp only [htype, ne_eq, not_false_eq_true, if_true]
  · by_cases hcode : request.params.grantType = some "authorization_code"
    · have hother : ¬ request.params.grantType ≠ some "authorization_code" := not_not.mpr hcode
      simp only [if_neg hrefresh, if_neg hother, handleCodeGrant]
      rcases hpresented : truthy request.params.code with _ | presented
      · rfl
      · have hpresents : request.presents = some (.code presented) := by
          simp only [TokenRequest.presents, if_neg hrefresh, if_pos hcode, hpresented, Option.map_some]
        rcases hverifier : truthy request.params.codeVerifier with _ | codeVerifier
        · rfl
        · have hgiven : request.params.codeVerifier.getD "" = codeVerifier := by
            rw [truthy_eq_some hverifier, Option.getD_some]
          simp only
          rcases state.authCodes.get input.now presented with _ | data
          · rfl
          · simp only [deletePresented, hpresents, hfails, Bool.false_eq_true, if_false, Credential.delete, checkCode,
              hgiven]
            by_cases hexpired : data.expiresAt < input.now
            · simp only [hexpired, if_true]
            · by_cases hredirect : some data.redirectUri = request.params.redirectUri
              · by_cases hchallenge : config.digests.base64Url codeVerifier = data.codeChallenge
                · simp only [hexpired, hredirect, hchallenge, ne_eq, not_true_eq_false, if_false, if_neg hrefresh,
                    saveToken, hfails, Bool.false_eq_true, issueTokens, hdeadline, Issue.ofGrant]
                  rfl
                · simp only [hexpired, hredirect, hchallenge, ne_eq, not_true_eq_false, not_false_eq_true, if_false,
                    if_true]
              · simp only [hexpired, hredirect, ne_eq, not_false_eq_true, if_false, if_true]
    · simp only [hrefresh, hcode, if_false, ne_eq, not_false_eq_true, if_true]

end FragmentMemory.TokenExchange
