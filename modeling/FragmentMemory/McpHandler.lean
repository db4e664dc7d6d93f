import FragmentMemory.StreamableSessions
import FragmentMemory.TransitionRuns

/-! # The MCP endpoint and the runs of the server

A request with a session id runs in the scope of that session, or recovers the id with its own
credential when no session is left for it.  An initialize request without a session id authenticates
and creates a session or reuses the one bound to its token.
-/
namespace FragmentMemory.McpHandler

open ApiKeyStore Authentication KeyValueStore OAuthServer StreamableSessions TransitionRuns

/-- A request that passed the origin check and whose body is a JSON object, with the decisions of the
rate limiter, the failing lookups and the random session id it would be given. -/
structure McpRequest where
  sessionId : Option String := none
  credentials : CredentialHeaders := {}
  accessKeyHeader : Option String := none
  isInitialize : Bool := false
  modeHeader : Option String := none
  initializeMode : Option String := none
  protocolVersion : Option String := none
  initializeVersion : Option String := none
  faults : LookupFaults := {}
  ipAllowed : Bool := true
  keyAllowed : Bool := true
  newSessionId : String := ""

structure Server where
  now : ℕ
  auth : AuthStores
  sessions : SessionStores
  /-- Every key that was ever created, with its hash: ids and raw keys are random and never repeat. -/
  issuedKeys : List (KeyId × String)

def Server.initial : Server :=
  ⟨0, ⟨.empty, ⟨[], fun _ => 0, []⟩⟩, .empty, []⟩

/-- How the scope of a served request was found. -/
inductive ScopeSource | session | credential deriving DecidableEq

inductive Outcome
  | rejected (status : ℕ) (message : String)
  | served (sessionId : String) (context : SessionContext) (source : ScopeSource)

/-- The session id and the key of a served request. -/
def Outcome.scope : Outcome → Option (String × Option KeyId)
  | .rejected _ _ => none
  | .served sessionId context _ => some (sessionId, context.keyId)

variable (config : Config)

/-- `_resolveMode`: header, then `params.mode`, then the default of the key; unknown presets are null. -/
def resolveMode (request : McpRequest) (defaultMode : Option String) : Option String :=
  let known (mode : String) : Option String := if config.modePresets.contains mode then some mode else none
  match JsString.truthy request.modeHeader with
  | some mode => known mode
  | none =>
    match (if request.isInitialize then JsString.truthy request.initializeMode else none) with
    | some mode => known mode
    | none => (JsString.truthy defaultMode).bind known

def identityContext (request : McpRequest) (identity : Identity) : SessionContext :=
  ⟨identity.keyId, identity.groupKeyIds, identity.permissions, identity.defaultWorkspace,
    resolveMode config request identity.defaultMode⟩

/-- The headers that `validateAuthentication` sees for this message. -/
def McpRequest.authHeaders (request : McpRequest) : CredentialHeaders :=
  if request.isInitialize then request.credentials
  else { request.credentials with initializeAccessKey := none }

def McpRequest.fallbackVersion (request : McpRequest) : String :=
  (JsString.truthy request.protocolVersion).getD "2025-03-26"

def McpRequest.reanchorVersion (request : McpRequest) : Option String :=
  if config.supportedProtocolVersions.contains request.fallbackVersion then some request.fallbackVersion else none

/-- `authCheck.keyId || "master"`. -/
def tokenNamespace (keyId : Option KeyId) : String := (keyId.map Subtype.val).getD "master"

/-- `deriveTokenKey`: the scope and a short hash of the raw credential. -/
def deriveTokenKey (request : McpRequest) (identity : Identity) : Option String :=
  let raw := extractBearerToken request.credentials.authorization <|>
    JsString.truthy request.accessKeyHeader <|>
    (if request.isInitialize then JsString.truthy request.credentials.initializeAccessKey else none)
  (JsString.truthy raw).map fun raw =>
    tokenNamespace identity.keyId ++ ":" ++ String.ofList ((config.digests.hex raw).toList.take 16)

/-- The groups of a session that carries a key but no groups are read again. -/
def refetchGroups (server : Server) (session : Session) : SessionStores × SessionContext :=
  match session.keyId with
  | none => (server.sessions, session.context)
  | some keyId =>
    if (session.groupKeyIds.getD []).isEmpty then
      let refetched := { session with groupKeyIds := some (getGroupKeyIds server.auth.tables keyId) }
      (updateSession config server.now server.sessions refetched (ceilSeconds config.sessionTtlMs),
        refetched.context)
    else (server.sessions, session.context)

def hasForeignCopy (server : Server) (sessionId : String) (keyId : Option KeyId) : Bool :=
  (getSessionFromRedis config server.now server.sessions sessionId).any fun copy => copy.keyId ≠ keyId

/-- Recovery in `_resolveExistingSession`: the id is created again for the credential of the request,
unless a Redis copy names another key. -/
def recoverSession (server : Server) (request : McpRequest) (sessionId : String) : Server × Outcome :=
  let (auth, result) := validateAuthentication config request.faults server.now server.auth request.authHeaders
  let server := { server with auth }
  match result with
  | .denied _ => (server, .rejected 404 "Session not found")
  | .accepted identity =>
    if hasForeignCopy config server sessionId identity.keyId then (server, .rejected 403 "Forbidden")
    else
      let context := identityContext config request identity
      let sessions := createStreamableSessionWithId config server.now server.sessions sessionId true context
        (request.reanchorVersion config)
      ({ server with sessions }, .served sessionId context .credential)

/-- A session that was never authenticated is authenticated by the request, which then runs in the
scope of the session. -/
def authenticateSession (server : Server) (request : McpRequest) (session : Session)
    (context : SessionContext) : Server × Outcome :=
  if session.authenticated then (server, .served session.sessionId context .session)
  else
    let (auth, result) := validateAuthentication config request.faults server.now server.auth request.authHeaders
    let server := { server with auth }
    match result with
    | .denied error => (server, .rejected 401 error)
    | .accepted _ =>
      let authenticated := { session with authenticated := true, groupKeyIds := context.groupKeyIds }
      let memory := server.sessions.memory.put session.sessionId authenticated none
      ({ server with sessions := { server.sessions with memory } }, .served session.sessionId context .session)

/-- `_resolveExistingSession`. -/
def resolveExistingSession (server : Server) (request : McpRequest) (sessionId : String) : Server × Outcome :=
  match validateStreamableSession config server.now server.sessions sessionId (request.reanchorVersion config) with
  | (sessions, .error _) => recoverSession config { server with sessions } request sessionId
  | (sessions, .ok session) =>
    let (sessions, context) := refetchGroups config { server with sessions } session
    authenticateSession config { server with sessions } request session context

/-- The session that is bound to the token of an initialize request and still valid. -/
def reusableSession (server : Server) (request : McpRequest) (identity : Identity) :
    SessionStores × Option String :=
  match (deriveTokenKey config request identity).bind (getSessionIdByToken config server.now server.sessions) with
  | none => (server.sessions, none)
  | some existing =>
    match validateStreamableSession config server.now server.sessions existing none with
    | (sessions, .ok _) => (sessions, some existing)
    | (sessions, .error _) => (sessions, none)

/-- `_createInitializeSession`. -/
def createInitializeSession (server : Server) (request : McpRequest) : Server × Outcome :=
  let (auth, result) := validateAuthentication config request.faults server.now server.auth request.authHeaders
  let server := { server with auth }
  match result with
  | .denied error => (server, .rejected 401 error)
  | .accepted identity =>
    let context := identityContext config request identity
    match reusableSession config server request identity with
    | (sessions, some existing) => ({ server with sessions }, .served existing context .credential)
    | (sessions, none) =>
      let created := createStreamableSessionWithId config server.now sessions request.newSessionId true context none
      let bound := match deriveTokenKey config request identity with
        | none => created
        | some tokenKey =>
          bindTokenToSession config server.now created tokenKey request.newSessionId
            (ceilSeconds config.sessionTtlMs)
      ({ server with sessions := bound }, .served request.newSessionId context .credential)

/-- The protocol version that a served request leaves in its session. -/
def anchorVersion (server : Server) (request : McpRequest) (sessionId : String) : Server :=
  let version := if request.isInitialize then request.initializeVersion else JsString.truthy request.protocolVersion
  match version, server.sessions.memory.get server.now sessionId with
  | some version, some session =>
    let anchored := { session with sessionId, negotiatedVersion := some version }
    let memory := server.sessions.memory.put sessionId anchored none
    let ttlSeconds := max (ceilSeconds (session.expiresAt - server.now)) 60
    if request.isInitialize then
      { server with sessions := updateSession config server.now server.sessions anchored ttlSeconds }
    else { server with sessions := { server.sessions with memory } }
  | _, _ => server

/-- The checks between authentication and dispatch: rate limit and protocol version. -/
def admitServed (request : McpRequest) : Server × Outcome → Server × Outcome
  | (server, .rejected status message) => (server, .rejected status message)
  | (server, .served sessionId context source) =>
    if !request.isInitialize && !request.keyAllowed then (server, .rejected 429 "Too many requests")
    else if !request.isInitialize && !config.supportedProtocolVersions.contains request.fallbackVersion then
      (server, .rejected 400 "Unsupported protocol version")
    else (anchorVersion config server request sessionId, .served sessionId context source)

/-- `POST /mcp`. -/
def handleMcpPost (server : Server) (request : McpRequest) : Server × Outcome :=
  match JsString.truthy request.sessionId with
  | some sessionId => admitServed config request (resolveExistingSession config server request sessionId)
  | none =>
    if !request.isInitialize then
      (server, .rejected 400 "Session required. Send an 'initialize' request first to create a session, then include the returned MCP-Session-Id header in subsequent requests.")
    else if !request.ipAllowed then (server, .rejected 429 "Too many requests")
    else admitServed config request (createInitializeSession config server request)

/-- `GET /mcp` attaches a stream to a valid session and reads no credential. -/
def handleMcpGet (server : Server) (sessionId : String) : Server :=
  { server with sessions := (validateStreamableSession config server.now server.sessions sessionId none).1 }

inductive DeleteOutcome
  | refused (status : ℕ)
  | closed (requester : Option KeyId)

/-- `DELETE /mcp`: only the master scope or the key of the session may close it. -/
def handleMcpDelete (server : Server) (credentials : CredentialHeaders) (faults : LookupFaults)
    (sessionId : String) : Server × DeleteOutcome :=
  match validateStreamableSession config server.now server.sessions sessionId none with
  | (sessions, .error _) => ({ server with sessions }, .refused 400)
  | (sessions, .ok session) =>
    let (auth, result) := validateAuthentication config faults server.now server.auth
      { credentials with initializeAccessKey := none }
    let server := { server with auth, sessions }
    match result with
    | .denied _ => (server, .refused 401)
    | .accepted identity =>
      if identity.keyId.isSome && identity.keyId ≠ session.keyId then (server, .refused 403)
      else
        let sessions := closeStreamableSession config server.now server.sessions sessionId
        ({ server with sessions }, .closed identity.keyId)

/-- How a stream of the older transport was opened. -/
inductive SseOutcome
  | unauthorized
  | connected (keyId : Option KeyId) (source : ScopeSource)

/-- `GET /sse`: the headers, then the access key in the query string. -/
def handleLegacySseGet (server : Server) (credentials : CredentialHeaders) (faults : LookupFaults)
    (queryAccessKey : Option String) (newSessionId : String) : Server × SseOutcome :=
  let connect (server : Server) (identity : Identity) : Server :=
    let session : LegacySession :=
      { authenticated := true, keyId := identity.keyId, groupKeyIds := identity.groupKeyIds,
        permissions := identity.permissions, defaultWorkspace := identity.defaultWorkspace,
        createdAt := server.now, expiresAt := server.now + config.sessionTtlMs, lastAccessedAt := server.now }
    let legacy := server.sessions.legacy.put newSessionId session none
    { server with sessions := { server.sessions with legacy } }
  if config.accessKey = "" then (connect server {}, .connected none .session)
  else
    let (auth, result) := validateAuthentication config faults server.now server.auth
      { credentials with initializeAccessKey := none }
    let server := { server with auth }
    match result with
    | .accepted identity => (connect server identity, .connected identity.keyId .credential)
    | .denied _ =>
      match JsString.truthy queryAccessKey with
      | none => (server, .unauthorized)
      | some accessKey =>
        if safeCompare config accessKey config.accessKey then (connect server {}, .connected none .session)
        else (server, .unauthorized)

/-- `POST /message` runs in the scope of its stream. -/
def handleLegacySsePost (server : Server) (sessionId : String) : Server × Outcome :=
  match validateLegacySseSession config server.now server.sessions sessionId with
  | (sessions, .error reason) => ({ server with sessions }, .rejected 404 reason)
  | (sessions, .ok session) =>
    let server := { server with sessions }
    if !session.authenticated then (server, .rejected 401 "Unauthorized")
    else
      let groups := match session.keyId with
        | some keyId =>
          if (session.groupKeyIds.getD []).isEmpty then some (getGroupKeyIds server.auth.tables keyId)
          else session.groupKeyIds
        | none => session.groupKeyIds
      let legacy := sessions.legacy.put sessionId { session with groupKeyIds := groups } none
      ({ server with sessions := { sessions with legacy } },
        .served sessionId ⟨session.keyId, groups, session.permissions, session.defaultWorkspace, none⟩ .session)

/-! ## Runs of the server -/

/-- The administration of API keys. -/
inductive AdminAction
  | create (key : ApiKey)
  | updateStatus (keyId : KeyId) (status : KeyStatus)
  | updateDailyLimit (keyId : KeyId) (limit : ℕ)
  | delete (keyId : KeyId)
  | setUsage (usage : KeyId → ℕ)
  | setGroups (members : List (String × KeyId))

def updateKey (tables : KeyTables) (keyId : KeyId) (change : ApiKey → ApiKey) : KeyTables :=
  { tables with keys := tables.keys.map fun key =>
      if key.id = keyId then { change key with id := key.id, keyHash := key.keyHash } else key }

/-- A new key has an id and a raw secret that no key had before, and a name no present key has. -/
def Server.admin (server : Server) (action : AdminAction) : Server :=
  let tables := server.auth.tables
  let withTables (tables : KeyTables) : Server := { server with auth := { server.auth with tables } }
  match action with
  | .create key =>
    if server.issuedKeys.any (fun issued => issued.1 = key.id || issued.2 = key.keyHash) ||
        tables.keys.any (fun other => other.name = key.name) then server
    else
      let issuedKeys := server.issuedKeys ++ [(key.id, key.keyHash)]
      { withTables { tables with keys := tables.keys ++ [key] } with issuedKeys }
  | .updateStatus keyId status => withTables (updateKey tables keyId fun key => { key with status })
  | .updateDailyLimit keyId limit => withTables (updateKey tables keyId fun key => { key with dailyLimit := limit })
  | .delete keyId => withTables { tables with keys := tables.keys.filter fun key => key.id ≠ keyId }
  | .setUsage usage => withTables { tables with usageToday := usage }
  | .setGroups members => withTables { tables with groupMembers := members }

inductive ServerEvent
  | advance (ms : ℕ)
  | admin (action : AdminAction)
  | register (request : RegisterRequest) (faults : LookupFaults)
  | authorizeGet (params : AuthorizeParams) (faults : LookupFaults) (code randomId : String)
  | authorizePost (params : AuthorizeParams) (faults : LookupFaults) (decision : Option String) (code : String)
  | token (params : TokenParams) (faults : LookupFaults) (accessToken refreshToken : String)
  | post (request : McpRequest)
  | get (sessionId : String)
  | delete (credentials : CredentialHeaders) (faults : LookupFaults) (sessionId : String)
  | sse (credentials : CredentialHeaders) (faults : LookupFaults) (queryAccessKey : Option String)
      (newSessionId : String)
  | message (sessionId : String)
  | rotate (oldSessionId newSessionId : String)
  | cleanup (sessionIds : List String)
  | restart
  | redisLoses (sessions : String → Session → Bool) (tokens : String → TokenData → Bool)
      (tokenSessions : String → String → Bool)

/-- One event, with the outcome of an MCP request. -/
def serverStep (server : Server) (event : ServerEvent) : Server × Option Outcome :=
  let withOAuth (oauth : OAuthState) : Server := { server with auth := { server.auth with oauth } }
  let withSessions (sessions : SessionStores) : Server := { server with sessions }
  let oauth := server.auth.oauth
  let tables := server.auth.tables
  match event with
  | .advance ms => ({ server with now := server.now + ms }, none)
  | .admin action => (server.admin action, none)
  | .register request faults => (withOAuth (handleOAuthRegister config tables faults oauth request).1, none)
  | .authorizeGet params faults code randomId =>
      (withOAuth (handleOAuthAuthorizeGet config tables faults server.now oauth params code randomId).1, none)
  | .authorizePost params faults decision code =>
      (withOAuth (handleOAuthAuthorizePost config tables faults server.now oauth params decision code).1, none)
  | .token params faults accessToken refreshToken =>
      (withOAuth (handleToken config tables faults server.now oauth params accessToken refreshToken).1, none)
  | .post request =>
      let (server, outcome) := handleMcpPost config server request
      (server, some outcome)
  | .get sessionId => (handleMcpGet config server sessionId, none)
  | .delete credentials faults sessionId => ((handleMcpDelete config server credentials faults sessionId).1, none)
  | .sse credentials faults queryAccessKey newSessionId =>
      ((handleLegacySseGet config server credentials faults queryAccessKey newSessionId).1, none)
  | .message sessionId =>
      let (server, outcome) := handleLegacySsePost config server sessionId
      (server, some outcome)
  | .rotate oldSessionId newSessionId =>
      (withSessions (rotateSession config server.now server.sessions oldSessionId newSessionId).1, none)
  | .cleanup sessionIds => (withSessions (sessionIds.foldl (cleanupSession config server.now) server.sessions), none)
  | .restart =>
      let sessions := { server.sessions with memory := .empty, legacy := .empty }
      let oauth := if config.redisEnabled then oauth else { oauth with authCodes := .empty, accessTokens := .empty }
      ({ withOAuth oauth with sessions }, none)
  | .redisLoses sessions tokens tokenSessions =>
      let lost := { server.sessions with
        redis := server.sessions.redis.drop sessions,
        tokenSessions := server.sessions.tokenSessions.drop tokenSessions }
      ({ withOAuth { oauth with accessTokens := oauth.accessTokens.drop tokens } with sessions := lost }, none)

def step (server : Server) (event : ServerEvent) : Server := (serverStep config server event).1

end FragmentMemory.McpHandler
