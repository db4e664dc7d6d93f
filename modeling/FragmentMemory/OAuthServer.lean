import FragmentMemory.ApiKeyStore
import FragmentMemory.JsString
import FragmentMemory.KeyValueStore

/-! # The OAuth authorization server

Dynamic client registration, the authorization endpoint with its automatic registration, the token
endpoint and the validation of access tokens.  A client is bound to an API key by the marker
`apikey:<id>` in its `client_name`; a token carries the binding in `bound_key_id`.
-/
namespace FragmentMemory.OAuthServer

open ApiKeyStore JsString KeyValueStore

structure ParsedUrl where
  hostname : String
  origin : String

/-- The settings of the process, with the URL parser and the digests of the platform. -/
structure Config where
  accessKey : String
  authDisabled : Bool := false
  redisEnabled : Bool := false
  rejectNonApiKeyOAuth : Bool := true
  allowAutoDcrRegister : Bool := false
  oauthTrustedOrigins : List String := []
  oauthAllowedRedirectUris : List String := []
  oauthTokenTtlSeconds : ℕ := 2592000
  oauthRefreshTtlSeconds : ℕ := 5184000
  sessionTtlMs : ℕ := 2592000000
  cacheSessionTtl : ℕ := 2592000
  supportedProtocolVersions : List String := ["2025-11-25", "2025-06-18", "2025-03-26", "2024-11-05"]
  modePresets : List String := ["audit", "onboarding", "recall-only", "write-only"]
  parseUrl : String → Option ParsedUrl
  digests : Digests

structure OAuthClient where
  clientId : String
  clientName : Option String
  redirectUris : List String
  scope : String
  clientUri : Option String := none
  logoUri : Option String := none
  deriving DecidableEq

structure CodeData where
  clientId : Option String
  redirectUri : String
  codeChallenge : String
  scope : String
  state : Option String
  isApiKey : Bool
  boundKeyId : Option String
  resource : Option String
  createdAt : ℕ
  expiresAt : ℕ
  deriving DecidableEq

inductive TokenType | access | refresh deriving DecidableEq

structure TokenData where
  type : TokenType
  clientId : Option String
  scope : String
  isApiKey : Bool
  boundKeyId : Option String
  resource : Option String
  createdAt : ℕ
  expiresAt : ℕ
  deriving DecidableEq

/-- The table `oauth_clients` and the code and token stores, which are Redis keys with a time to
live or the maps of the process. -/
structure OAuthState where
  clients : List OAuthClient
  authCodes : Store CodeData
  accessTokens : Store TokenData

def OAuthState.empty : OAuthState := ⟨[], .empty, .empty⟩

def codeTtlSeconds : ℕ := 600

section Requests

variable (config : Config)

def safeCompare (a b : String) : Bool := config.digests.hex a = config.digests.hex b

def isAccessKey (candidate : Option String) : Bool :=
  config.accessKey ≠ "" && safeCompare config (candidate.getD "") config.accessKey

def isAllowedRedirectUri (uri : Option String) : Bool :=
  match truthy uri with
  | none => false
  | some uri =>
    match config.parseUrl uri with
    | none => false
    | some url =>
      url.hostname = "localhost" || url.hostname = "127.0.0.1" ||
        config.oauthTrustedOrigins.contains url.origin || config.oauthAllowedRedirectUris.contains uri

/-- `/^Bearer\s+(.+)$/i` on the Authorization header. -/
def extractBearerToken (header : Option String) : Option String :=
  match truthy header with
  | none => none
  | some header =>
    if startsWithIgnoreCase header "bearer" then
      let rest := header.toList.drop 6
      let token := rest.dropWhile isSpace
      match rest.takeWhile isSpace, token with
      | [], _ => none
      | spaces, [] => if 2 ≤ spaces.length then spaces.getLast?.map Char.toString else none
      | _, token => some (String.ofList token)
    else none

/-- `/^apikey:([0-9a-f-]{36})$/i` on the name of a client. -/
def apiKeyMarker (clientName : Option String) : Option String :=
  match clientName with
  | none => none
  | some name =>
    let captured := name.toList.drop 7
    if startsWithIgnoreCase name "apikey:" && captured.length = 36 &&
        (captured.map Char.toLower).all fun c => c.isDigit || ('a' ≤ c && c ≤ 'f') || c = '-' then
      some (String.ofList captured)
    else none

def deadline (now ttlSeconds : ℕ) : Option ℕ :=
  if config.redisEnabled then some (now + ttlSeconds * 1000) else none

/-! ## Clients -/

def getClient (state : OAuthState) (clientId : Option String) : Option OAuthClient :=
  match truthy clientId with
  | none => none
  | some clientId => state.clients.find? fun client => client.clientId = clientId

structure RegisterOptions where
  clientId : Option String
  clientName : Option String
  redirectUris : List String
  scope : Option String
  clientUri : Option String := none
  logoUri : Option String := none

/-- `INSERT … ON CONFLICT (client_id) DO UPDATE SET last_used_at`: an existing row keeps its name.
`none` is the error on an empty list of redirect URIs. -/
def registerClient (state : OAuthState) (options : RegisterOptions) (randomId : String) :
    Option (OAuthState × OAuthClient) :=
  let clientId := (truthy options.clientId).getD ("wdm_" ++ randomId)
  if options.redirectUris.isEmpty then none else
  match state.clients.find? fun client => client.clientId = clientId with
  | some client => some (state, client)
  | none =>
    let client : OAuthClient :=
      { clientId, clientName := truthy options.clientName, redirectUris := options.redirectUris,
        scope := (truthy options.scope).getD "mcp", clientUri := truthy options.clientUri,
        logoUri := truthy options.logoUri }
    some ({ state with clients := state.clients ++ [client] }, client)

structure RegisterRequest where
  authorization : Option String
  clientName : Option String
  redirectUris : List String
  scope : Option String := none
  clientUri : Option String := none
  logoUri : Option String := none
  randomId : String

/-- The raw key that `/register` tries to bind the client to. -/
def RegisterRequest.bearer (request : RegisterRequest) : Option String :=
  (extractBearerToken request.authorization).map trim

/-- `POST /register`.  A bearer that validates as an API key fixes the id and the name. -/
def handleOAuthRegister (tables : KeyTables) (faults : LookupFaults) (state : OAuthState)
    (request : RegisterRequest) : OAuthState × Option OAuthClient :=
  if request.redirectUris.isEmpty then (state, none) else
  let bound := match request.bearer with
    | none => none
    | some token => keyFromSecret? config.digests tables faults (some token)
  let suffix (key : ValidKey) := String.ofList ((key.keyId.val.toList.filter (· ≠ '-')).take 8)
  let options : RegisterOptions :=
    { clientId := bound.map fun key => (truthy (some key.name)).getD key.keyId.val ++ "_" ++ suffix key
      clientName := match bound with
        | some key => some ("apikey:" ++ key.keyId.val)
        | none => truthy request.clientName
      redirectUris := request.redirectUris, scope := request.scope,
      clientUri := request.clientUri, logoUri := request.logoUri }
  match registerClient state options request.randomId with
  | none => (state, none)
  | some (state, client) => (state, some client)

/-! ## The authorization endpoint -/

structure AuthorizeParams where
  responseType : Option String
  clientId : Option String
  redirectUri : Option String
  codeChallenge : Option String
  codeChallengeMethod : Option String
  state : Option String := none
  scope : Option String := none
  resource : Option String := none

inductive AuthorizeResult
  | error (error description : String)
  | thrown
  | redirect (code redirectUri : String)
  deriving DecidableEq

/-- The client that a request names and the key it is bound to. -/
structure ResolvedClient where
  oauthClient : Option OAuthClient
  isApiKeyClient : Bool
  boundKeyId : Option String

/-- Step 1 of `handleAuthorize`: the access key, an API key as client id, a registered client. -/
def resolveClient (tables : KeyTables) (faults : LookupFaults) (state : OAuthState)
    (clientId redirectUri : Option String) : Except (String × String) ResolvedClient :=
  if isAccessKey config clientId then .ok ⟨none, false, none⟩
  else if (keyFromSecret? config.digests tables faults clientId).isSome then .ok ⟨none, true, none⟩
  else match getClient state clientId with
    | some client =>
      match apiKeyMarker client.clientName with
      | none => .ok ⟨some client, false, none⟩
      | some extractedKeyId =>
        match validateApiKeyById tables faults extractedKeyId with
        | .valid _ => .ok ⟨some client, true, some extractedKeyId⟩
        | .invalid _ => .ok ⟨some client, false, none⟩
    | none =>
      if isAllowedRedirectUri config redirectUri then .ok ⟨none, false, none⟩
      else .error ("invalid_client", "Invalid client_id")

def redirectError (client : ResolvedClient) (redirectUri : String) : Option (String × String) :=
  match client.oauthClient with
  | some registered =>
    if registered.redirectUris.contains redirectUri then none
    else some ("invalid_request", "redirect_uri not registered for this client")
  | none =>
    if isAllowedRedirectUri config (some redirectUri) then none
    else some ("invalid_request", "redirect_uri is not allowed")

/-- Check the request, resolve its client and store an authorization code. -/
def handleAuthorize (tables : KeyTables) (faults : LookupFaults) (now : ℕ) (state : OAuthState)
    (params : AuthorizeParams) (code : String) : OAuthState × AuthorizeResult :=
  if params.responseType ≠ some "code" then
    (state, .error "unsupported_response_type" "Only 'code' response type is supported")
  else match truthy params.redirectUri with
  | none => (state, .error "invalid_request" "redirect_uri is required")
  | some redirectUri =>
    match truthy params.codeChallenge with
    | none => (state, .error "invalid_request" "code_challenge is required (PKCE)")
    | some codeChallenge =>
      if params.codeChallengeMethod ≠ some "S256" then
        (state, .error "invalid_request" "Only S256 code_challenge_method is supported")
      else match resolveClient config tables faults state params.clientId params.redirectUri with
      | .error (error, description) => (state, .error error description)
      | .ok client =>
        match redirectError config client redirectUri with
        | some (error, description) => (state, .error error description)
        | none =>
          let codeData : CodeData :=
            { clientId := params.clientId, redirectUri, codeChallenge,
              scope := (truthy params.scope).getD "mcp", state := params.state,
              isApiKey := client.isApiKeyClient, boundKeyId := client.boundKeyId,
              resource := truthy params.resource, createdAt := now,
              expiresAt := now + codeTtlSeconds * 1000 }
          let saved := { state with
            authCodes := state.authCodes.put code codeData (deadline config now codeTtlSeconds) }
          -- The code is already stored when building the redirect URL throws.
          match config.parseUrl redirectUri with
          | none => (saved, .thrown)
          | some _ => (saved, .redirect code redirectUri)

/-- What the browser gets from `GET /authorize`. -/
inductive AuthorizePage
  | redirect (code redirectUri : String)
  | invalidClient (description : String)
  | consent (clientName : String)
  | thrown
  deriving DecidableEq

/-- The client shown on the consent page, registering an unknown one on the way. -/
def authorizeClient (state : OAuthState) (params : AuthorizeParams) (randomId : String) :
    OAuthState × Except String (Option String) :=
  if isAccessKey config params.clientId then (state, .ok (some "Master Key Client"))
  else match getClient state params.clientId, truthy params.redirectUri with
    | some client, _ => (state, .ok (truthy client.clientName <|> params.clientId))
    | none, none => (state, .error "Invalid client_id")
    | none, some redirectUri =>
      if !isAllowedRedirectUri config (some redirectUri) && !config.allowAutoDcrRegister then
        (state, .error "Client not registered. Use POST /register first.")
      else
        match registerClient state
          { clientId := params.clientId, clientName := params.clientId, redirectUris := [redirectUri],
            scope := (truthy params.scope).getD "mcp" } randomId with
        | none => (state, .error "Invalid client_id")
        | some (state, _) => (state, .ok params.clientId)

/-- `GET /authorize`: a trusted redirect URI is approved without the consent page. -/
def handleOAuthAuthorizeGet (tables : KeyTables) (faults : LookupFaults) (now : ℕ) (state : OAuthState)
    (params : AuthorizeParams) (code randomId : String) : OAuthState × AuthorizePage :=
  match authorizeClient config state params randomId with
  | (state, .error description) => (state, .invalidClient description)
  | (state, .ok clientName) =>
    let consent := AuthorizePage.consent ((truthy clientName).getD "An application")
    if isAllowedRedirectUri config params.redirectUri then
      match handleAuthorize config tables faults now state params code with
      | (state, .redirect code redirectUri) => (state, .redirect code redirectUri)
      | (state, .thrown) => (state, .thrown)
      | (state, .error _ _) => (state, consent)
    else (state, consent)

/-- `POST /authorize`: the decision of the consent page. -/
def handleOAuthAuthorizePost (tables : KeyTables) (faults : LookupFaults) (now : ℕ) (state : OAuthState)
    (params : AuthorizeParams) (decision : Option String) (code : String) : OAuthState × AuthorizeResult :=
  if decision = some "deny" then (state, .error "access_denied" "User denied access")
  else handleAuthorize config tables faults now state params code

/-! ## The token endpoint -/

structure TokenParams where
  grantType : Option String
  code : Option String := none
  redirectUri : Option String := none
  codeVerifier : Option String := none
  refreshToken : Option String := none
  clientSecret : Option String := none
  resource : Option String := none

inductive TokenResult
  | error (error description : String)
  | issued (accessToken refreshToken scope : String)
  deriving DecidableEq

/-- What an issued pair of tokens inherits from the code or the refresh token it is issued for. -/
structure Grant where
  clientId : Option String
  scope : String
  isApiKey : Bool
  boundKeyId : Option String
  resource : Option String

def Grant.ofCode (data : CodeData) : Grant :=
  ⟨data.clientId, data.scope, data.isApiKey, data.boundKeyId, data.resource⟩

def Grant.ofToken (data : TokenData) : Grant :=
  ⟨data.clientId, data.scope, data.isApiKey, data.boundKeyId, data.resource⟩

/-- The API key whose raw secret is sent as `client_secret`. -/
def secretBoundKeyId (tables : KeyTables) (faults : LookupFaults) (clientSecret : Option String) :
    Option KeyId :=
  match truthy clientSecret with
  | none => none
  | some secret => (keyFromSecret? config.digests tables faults (some secret)).map ValidKey.keyId

def effectiveBoundId (secretBound : Option KeyId) (grant : Grant) : Option String :=
  secretBound.map Subtype.val <|> grant.boundKeyId

def tokenData (type : TokenType) (grant : Grant) (secretBound : Option KeyId) (resource : Option String)
    (now ttlSeconds : ℕ) : TokenData :=
  { type, clientId := grant.clientId, scope := grant.scope,
    isApiKey := if (effectiveBoundId secretBound grant).isSome then true else grant.isApiKey,
    boundKeyId := effectiveBoundId secretBound grant,
    resource := truthy resource <|> grant.resource,
    createdAt := now, expiresAt := now + ttlSeconds * 1000 }

/-- Store an access and a refresh token.  `refreshTtl` is what the refresh token records for itself;
its Redis key always lives for the configured refresh time. -/
def issueTokens (now : ℕ) (state : OAuthState) (grant : Grant) (secretBound : Option KeyId)
    (resource : Option String) (refreshTtl : ℕ) (accessToken refreshToken : String) : OAuthState :=
  let withAccess := state.accessTokens.put accessToken
    (tokenData .access grant secretBound resource now config.oauthTokenTtlSeconds)
    (deadline config now config.oauthTokenTtlSeconds)
  { state with
    accessTokens := withAccess.put refreshToken
      (tokenData .refresh grant secretBound resource now refreshTtl)
      (deadline config now config.oauthRefreshTtlSeconds) }

/-- The refresh grant: the old refresh token is deleted after the new pair is stored. -/
def handleRefreshGrant (now : ℕ) (state : OAuthState) (params : TokenParams)
    (secretBound : Option KeyId) (accessToken refreshToken : String) : OAuthState × TokenResult :=
  match truthy params.refreshToken with
  | none => (state, .error "invalid_request" "refresh_token is required")
  | some presented =>
    match state.accessTokens.get now presented with
    | none => (state, .error "invalid_grant" "Invalid refresh token")
    | some data =>
      if data.type ≠ .refresh then (state, .error "invalid_grant" "Invalid refresh token")
      else if data.expiresAt < now then
        ({ state with accessTokens := state.accessTokens.delete presented },
          .error "invalid_grant" "Refresh token expired")
      else
        let issued := issueTokens config now state (.ofToken data) secretBound params.resource
          config.oauthRefreshTtlSeconds accessToken refreshToken
        ({ issued with accessTokens := issued.accessTokens.delete presented },
          .issued accessToken refreshToken data.scope)

/-- The code grant: the code is consumed before any check on it. -/
def handleCodeGrant (now : ℕ) (state : OAuthState) (params : TokenParams)
    (secretBound : Option KeyId) (accessToken refreshToken : String) : OAuthState × TokenResult :=
  match truthy params.code, truthy params.codeVerifier with
  | none, _ => (state, .error "invalid_request" "code is required")
  | some _, none => (state, .error "invalid_request" "code_verifier is required (PKCE)")
  | some code, some codeVerifier =>
    match state.authCodes.get now code with
    | none => (state, .error "invalid_grant" "Invalid authorization code")
    | some data =>
      let consumed := { state with authCodes := state.authCodes.delete code }
      if data.expiresAt < now then (consumed, .error "invalid_grant" "Authorization code expired")
      else if some data.redirectUri ≠ params.redirectUri then
        (consumed, .error "invalid_grant" "redirect_uri mismatch")
      else if config.digests.base64Url codeVerifier ≠ data.codeChallenge then
        (consumed, .error "invalid_grant" "code_verifier validation failed")
      else
        (issueTokens config now consumed (.ofCode data) secretBound params.resource
          (config.oauthTokenTtlSeconds * 24) accessToken refreshToken,
          .issued accessToken refreshToken data.scope)

/-- `POST /token`. -/
def handleToken (tables : KeyTables) (faults : LookupFaults) (now : ℕ) (state : OAuthState)
    (params : TokenParams) (accessToken refreshToken : String) : OAuthState × TokenResult :=
  let secretBound := secretBoundKeyId config tables faults params.clientSecret
  if params.grantType = some "refresh_token" then
    handleRefreshGrant config now state params secretBound accessToken refreshToken
  else if params.grantType ≠ some "authorization_code" then
    (state, .error "unsupported_grant_type" "Only authorization_code and refresh_token are supported")
  else handleCodeGrant config now state params secretBound accessToken refreshToken

/-! ## Access tokens -/

/-- `validateAccessToken`, which deletes a token that it finds expired. -/
def validateAccessToken (now : ℕ) (state : OAuthState) (token : String) : OAuthState × Option TokenData :=
  match state.accessTokens.get now token with
  | none => (state, none)
  | some data =>
    if data.type ≠ .access then (state, none)
    else if data.expiresAt < now then
      ({ state with accessTokens := state.accessTokens.delete token }, none)
    else (state, some data)

/-- Redis keeps an authenticated token for another token lifetime. -/
def extendOAuthToken (now : ℕ) (state : OAuthState) (token : String) : OAuthState :=
  if config.redisEnabled then
    { state with accessTokens :=
        state.accessTokens.expireAt now token (now + config.oauthTokenTtlSeconds * 1000) }
  else state

/-- The periodic cleanup looks at the maps of the process only. -/
def cleanupExpiredOAuthData (now : ℕ) (state : OAuthState) : OAuthState :=
  if config.redisEnabled then state else
    { state with
      authCodes := state.authCodes.drop fun _ data => data.expiresAt < now
      accessTokens := state.accessTokens.drop fun _ data => data.expiresAt < now }

end Requests

end FragmentMemory.OAuthServer
