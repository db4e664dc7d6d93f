import FragmentMemory.Authentication

/-! # Streamable HTTP sessions

A session lives in the memory of the process and, with Redis enabled, in a copy with a time to live.
A session that is missing in memory is restored from the copy; closing a session removes both.
-/
namespace FragmentMemory.StreamableSessions

open ApiKeyStore KeyValueStore OAuthServer

structure Session where
  sessionId : String
  authenticated : Bool
  keyId : Option KeyId
  groupKeyIds : Option (List KeyId)
  permissions : Option (List Permission)
  defaultWorkspace : Option String
  mode : Option String
  createdAt : ℕ
  expiresAt : ℕ
  lastAccessedAt : ℕ
  lastReflectedAt : Option ℕ := none
  negotiatedVersion : Option String := none
  deriving DecidableEq

/-- A session of the older SSE transport, which has no Redis copy. -/
structure LegacySession where
  authenticated : Bool
  keyId : Option KeyId
  groupKeyIds : Option (List KeyId)
  permissions : Option (List Permission)
  defaultWorkspace : Option String
  createdAt : ℕ
  expiresAt : ℕ
  lastAccessedAt : ℕ
  deriving DecidableEq

/-- The maps of the process, the Redis copies, and the Redis index from token keys to session ids. -/
structure SessionStores where
  memory : Store Session
  redis : Store Session
  tokenSessions : Store String
  legacy : Store LegacySession

def SessionStores.empty : SessionStores := ⟨.empty, .empty, .empty, .empty⟩

/-- The identity that a session carries over its requests. -/
structure SessionContext where
  keyId : Option KeyId
  groupKeyIds : Option (List KeyId)
  permissions : Option (List Permission)
  defaultWorkspace : Option String
  mode : Option String

def Session.context (session : Session) : SessionContext :=
  ⟨session.keyId, session.groupKeyIds, session.permissions, session.defaultWorkspace, session.mode⟩

variable (config : Config) (now : ℕ)

def ceilSeconds (ms : ℕ) : ℕ := (ms + 999) / 1000

/-- `saveSession`: the stub client of a disabled Redis stores nothing. -/
def saveSessionToRedis (stores : SessionStores) (session : Session) (ttlSeconds : ℕ) : SessionStores :=
  if config.redisEnabled then
    { stores with redis := stores.redis.put session.sessionId session (some (now + ttlSeconds * 1000)) }
  else stores

def getSessionFromRedis (stores : SessionStores) (sessionId : String) : Option Session :=
  if config.redisEnabled then stores.redis.get now sessionId else none

def createStreamableSessionWithId (stores : SessionStores) (sessionId : String) (authenticated : Bool)
    (context : SessionContext) (negotiatedVersion : Option String) : SessionStores :=
  let session : Session :=
    { sessionId, authenticated, keyId := context.keyId, groupKeyIds := context.groupKeyIds,
      permissions := context.permissions, defaultWorkspace := context.defaultWorkspace, mode := context.mode,
      createdAt := now, expiresAt := now + config.sessionTtlMs, lastAccessedAt := now, negotiatedVersion }
  saveSessionToRedis config now { stores with memory := stores.memory.put sessionId session none } session
    config.cacheSessionTtl

/-- `session.close`: drop the session of the process and its copy. -/
def closeSession (stores : SessionStores) (sessionId : String) : SessionStores :=
  { stores with
    memory := stores.memory.delete sessionId
    redis := if config.redisEnabled then stores.redis.delete sessionId else stores.redis }

/-- `closeStreamableSession` does nothing for a session that is not in memory. -/
def closeStreamableSession (stores : SessionStores) (sessionId : String) : SessionStores :=
  match stores.memory.get now sessionId with
  | none => stores
  | some _ => closeSession config stores sessionId

/-- The session in memory, or its Redis copy put back into memory with a new lifetime. -/
def lookupSession (stores : SessionStores) (sessionId : String) (requestedVersion : Option String) :
    SessionStores × Option Session :=
  match stores.memory.get now sessionId with
  | some session => (stores, some session)
  | none =>
    match getSessionFromRedis config now stores sessionId with
    | none => (stores, none)
    | some copy =>
      let version := requestedVersion.filter fun version => config.supportedProtocolVersions.contains version
      let session := { copy with
        sessionId, lastAccessedAt := now, expiresAt := now + config.sessionTtlMs,
        negotiatedVersion := version <|> copy.negotiatedVersion }
      let restored := { stores with memory := stores.memory.put sessionId session none }
      (saveSessionToRedis config now restored session (ceilSeconds config.sessionTtlMs), some session)

/-- `validateStreamableSession`: an expired session is closed, a valid one gets a new lifetime. -/
def validateStreamableSession (stores : SessionStores) (sessionId : String) (requestedVersion : Option String) :
    SessionStores × Except String Session :=
  match lookupSession config now stores sessionId requestedVersion with
  | (stores, none) => (stores, .error "Session not found")
  | (stores, some session) =>
    if session.expiresAt < now then
      (closeStreamableSession config now stores sessionId, .error "Session expired")
    else
      let session := { session with lastAccessedAt := now, expiresAt := now + config.sessionTtlMs }
      let stores := { stores with memory := stores.memory.put sessionId session none }
      (saveSessionToRedis config now stores session (max (ceilSeconds config.sessionTtlMs) 60), .ok session)

/-- Overwrite a live session in memory and its copy. -/
def updateSession (stores : SessionStores) (session : Session) (ttlSeconds : ℕ) : SessionStores :=
  saveSessionToRedis config now { stores with memory := stores.memory.put session.sessionId session none }
    session ttlSeconds

/-- `rotateSession`: a new session with the same context replaces the old one. -/
def rotateSession (stores : SessionStores) (oldSessionId newSessionId : String) :
    SessionStores × Except String Session :=
  let existing := match stores.memory.get now oldSessionId with
    | some session => some session
    | none => getSessionFromRedis config now stores oldSessionId
  match existing with
  | none => (stores, .error "Session not found")
  | some session =>
    if session.expiresAt < now then
      (closeStreamableSession config now stores oldSessionId, .error "Session expired")
    else
      let created := createStreamableSessionWithId config now stores newSessionId session.authenticated
        session.context none
      (closeSession config created oldSessionId, .ok session)

/-- One iteration of `cleanupExpiredSessions`, for a session of the process. -/
def cleanupSession (stores : SessionStores) (sessionId : String) : SessionStores :=
  match stores.memory.get now sessionId with
  | none => stores
  | some session =>
    if session.expiresAt < now then closeStreamableSession config now stores sessionId else stores

def bindTokenToSession (stores : SessionStores) (tokenKey sessionId : String) (ttlSeconds : ℕ) : SessionStores :=
  if config.redisEnabled then
    { stores with tokenSessions := stores.tokenSessions.put tokenKey sessionId (some (now + ttlSeconds * 1000)) }
  else stores

def getSessionIdByToken (stores : SessionStores) (tokenKey : String) : Option String :=
  if config.redisEnabled then JsString.truthy (stores.tokenSessions.get now tokenKey) else none

/-- `validateLegacySseSession`. -/
def validateLegacySseSession (stores : SessionStores) (sessionId : String) :
    SessionStores × Except String LegacySession :=
  match stores.legacy.get now sessionId with
  | none => (stores, .error "Session not found")
  | some session =>
    if session.expiresAt < now then
      ({ stores with legacy := stores.legacy.delete sessionId }, .error "Session expired")
    else
      let session := { session with lastAccessedAt := now, expiresAt := now + config.sessionTtlMs }
      ({ stores with legacy := stores.legacy.put sessionId session none }, .ok session)

end FragmentMemory.StreamableSessions
