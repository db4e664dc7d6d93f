import FragmentMemory.SessionOwnership

/-! # The session that a credential leads to

An initialize request without a session id is authenticated by one of its credentials, and the index from
token keys to sessions is asked with a key that `deriveTokenKey` takes from the headers on its own.  The
two readings of the headers are compared, and what follows for the sessions of a run.
-/
namespace FragmentMemory.CredentialSessions

open ApiKeyStore Authentication JsString KeyValueStore McpHandler OAuthServer SessionOwnership StreamableSessions
  TransitionRuns

/-! ## The credential that was accepted -/

inductive CredentialForm | accessKeyHeader | bearer | initializeAccessKey deriving DecidableEq

structure Credential where
  form : CredentialForm
  text : String
  deriving DecidableEq

section AcceptedCredential

variable (config : Config) (faults : LookupFaults) (now : ℕ)

/-- The credential with which step 3 of `validateAuthentication` accepts. -/
def initializeCredential (headers : CredentialHeaders) : Option Credential :=
  match truthy headers.initializeAccessKey with
  | some key => if safeCompare config key config.accessKey then some ⟨.initializeAccessKey, key⟩ else none
  | none => none

/-- The credential with which step 2 accepts, or step 3 after it. -/
def bearerCredential (stores : AuthStores) (headers : CredentialHeaders) : Option Credential :=
  match extractBearerToken headers.authorization with
  | none => initializeCredential config headers
  | some token =>
    if safeCompare config token config.accessKey then some ⟨.bearer, token⟩
    else match validateAccessToken now stores.oauth token with
    | (oauth, some data) =>
      (authenticateToken config faults now { stores with oauth } token data).2.identity?.map fun _ => ⟨.bearer, token⟩
    | (_, none) =>
      match keyFromSecret? config.digests stores.tables faults (some token) with
      | some _ => some ⟨.bearer, token⟩
      | none => initializeCredential config headers

/-- The credential by which `validateAuthentication` accepts a request on a server with an access key. -/
def acceptedCredential (stores : AuthStores) (headers : CredentialHeaders) : Option Credential :=
  if config.accessKey = "" then none
  else match truthy headers.legacyKey with
  | some key =>
    if safeCompare config key config.accessKey then some ⟨.accessKeyHeader, key⟩
    else bearerCredential config faults now stores headers
  | none => bearerCredential config faults now stores headers

end AcceptedCredential

/-- The text that the headers carry in the place of a credential form. -/
def CredentialForm.shownIn (headers : CredentialHeaders) : CredentialForm → Option String
  | .accessKeyHeader => truthy headers.legacyKey
  | .bearer => extractBearerToken headers.authorization
  | .initializeAccessKey => truthy headers.initializeAccessKey

variable {config : Config} {faults : LookupFaults} {now : ℕ} {stores : AuthStores} {headers : CredentialHeaders}
  {credential : Credential}

theorem initializeCredential_isSome (config : Config) (headers : CredentialHeaders) :
    (initializeCredential config headers).isSome = (authenticateInitialize config headers).identity?.isSome := by
  unfold initializeCredential authenticateInitialize
  cases truthy headers.initializeAccessKey with
  | none => rfl
  | some key =>
    simp only
    split <;> rfl

theorem bearerCredential_isSome (config : Config) (faults : LookupFaults) (now : ℕ) (stores : AuthStores)
    (headers : CredentialHeaders) :
    (bearerCredential config faults now stores headers).isSome =
      (authenticateBearer config faults now stores headers).2.identity?.isSome := by
  have hfirst := initializeCredential_isSome config headers
  unfold bearerCredential authenticateBearer
  cases extractBearerToken headers.authorization with
  | none => exact hfirst
  | some token =>
    simp only
    split
    · rfl
    cases validateAccessToken now stores.oauth token with
    | mk oauth found =>
      cases found with
      | some data => simp only [Option.isSome_map]
      | none =>
        simp only
        cases keyFromSecret? config.digests stores.tables faults (some token) with
        | some key => rfl
        | none => exact hfirst

/-- On a server with an access key, a request is accepted exactly by one of its credentials. -/
theorem acceptedCredential_isSome (hconfigured : config.accessKey ≠ "") (faults : LookupFaults) (now : ℕ)
    (stores : AuthStores) (headers : CredentialHeaders) :
    (acceptedCredential config faults now stores headers).isSome =
      (validateAuthentication config faults now stores headers).2.identity?.isSome := by
  have hbearer := bearerCredential_isSome config faults now stores headers
  unfold acceptedCredential validateAuthentication
  rw [if_neg hconfigured, if_neg hconfigured]
  cases truthy headers.legacyKey with
  | none => exact hbearer
  | some key =>
    simp only
    split
    · rfl
    · exact hbearer

theorem initializeCredential_shown (h : initializeCredential config headers = some credential) :
    credential.form = .initializeAccessKey ∧ truthy headers.initializeAccessKey = some credential.text := by
  unfold initializeCredential at h
  cases hkey : truthy headers.initializeAccessKey with
  | none =>
    rw [hkey] at h
    cases h
  | some key =>
    rw [hkey] at h
    simp only at h
    split at h
    · rw [← Option.some.inj h]
      exact ⟨rfl, rfl⟩
    · cases h

theorem bearerCredential_shown (h : bearerCredential config faults now stores headers = some credential) :
    credential.form.shownIn headers = some credential.text := by
  have hfirst : initializeCredential config headers = some credential →
      credential.form.shownIn headers = some credential.text := by
    intro hcredential
    obtain ⟨hform, htext⟩ := initializeCredential_shown hcredential
    rw [hform]
    exact htext
  unfold bearerCredential at h
  cases htoken : extractBearerToken headers.authorization with
  | none =>
    rw [htoken] at h
    exact hfirst h
  | some token =>
    have hbearer : (some ⟨.bearer, token⟩ : Option Credential) = some credential →
        credential.form.shownIn headers = some credential.text := by
      intro hcredential
      rw [← Option.some.inj hcredential]
      exact htoken
    rw [htoken] at h
    simp only at h
    split at h
    · exact hbearer h
    split at h
    · obtain ⟨_, _, hcredential⟩ := Option.map_eq_some_iff.mp h
      exact hbearer (congrArg some hcredential)
    split at h
    · exact hbearer h
    · exact hfirst h

/-- The accepted credential is one that the request shows. -/
theorem acceptedCredential_shown (h : acceptedCredential config faults now stores headers = some credential) :
    credential.form.shownIn headers = some credential.text := by
  unfold acceptedCredential at h
  split at h
  · cases h
  cases hkey : truthy headers.legacyKey with
  | none =>
    rw [hkey] at h
    exact bearerCredential_shown h
  | some key =>
    rw [hkey] at h
    simp only at h
    split at h
    · rw [← Option.some.inj h]
      exact hkey
    · exact bearerCredential_shown h

/-! ## The credential that the token key is derived from -/

/-- The raw credential of `deriveTokenKey`. -/
def derivedCredential (request : McpRequest) : Option String :=
  truthy (extractBearerToken request.credentials.authorization <|> truthy request.accessKeyHeader <|>
    (if request.isInitialize then truthy request.credentials.initializeAccessKey else none))

/-- The short hash of a raw credential. -/
def tokenHash (config : Config) (raw : String) : String := String.ofList ((config.digests.hex raw).toList.take 16)

def tokenKey (config : Config) (keyId : Option KeyId) (raw : String) : String :=
  tokenNamespace keyId ++ ":" ++ tokenHash config raw

theorem deriveTokenKey_eq (config : Config) (request : McpRequest) (identity : Identity) :
    deriveTokenKey config request identity =
      (derivedCredential request).map (tokenKey config identity.keyId) := rfl

/-- The headers before the accepted credential in the order of `deriveTokenKey` are absent or carry the same
text.  That order knows the header `weasley_deepmind-access-key` and not `weasley-deepmind-access-key`. -/
def DerivedAlike (request : McpRequest) (credential : Credential) : Prop :=
  match credential.form, extractBearerToken request.credentials.authorization, truthy request.accessKeyHeader with
  | .bearer, _, _ => True
  | _, some token, _ => token = credential.text
  | _, none, some key => key = credential.text
  | .initializeAccessKey, none, none => True
  | .accessKeyHeader, none, none => truthy request.credentials.initializeAccessKey = some credential.text

theorem extractBearerToken_ne_empty {header : Option String} {token : String}
    (h : extractBearerToken header = some token) : token ≠ "" := by
  unfold extractBearerToken at h
  split at h
  · cases h
  split at h
  · simp only at h
    split at h
    · cases h
    · split at h
      · obtain ⟨c, _, rfl⟩ := Option.map_eq_some_iff.mp h
        simp [Char.toString]
      · cases h
    · rename_i hne
      rw [← Option.some.inj h]
      intro hempty
      exact hne (String.ofList_eq_empty_iff.mp hempty)
  · cases h

theorem truthy_of_ne_empty {text : String} (h : text ≠ "") : truthy (some text) = some text := by
  simp [truthy, Option.filter, h]

/-- The token key is derived from the accepted credential exactly under `DerivedAlike`. -/
theorem derivedCredential_eq_iff {request : McpRequest} (hopening : request.isInitialize = true)
    (h : credential.form.shownIn request.credentials = some credential.text) :
    derivedCredential request = some credential.text ↔ DerivedAlike request credential := by
  obtain ⟨form, text⟩ := credential
  simp only [CredentialForm.shownIn] at h
  unfold derivedCredential DerivedAlike
  rw [if_pos hopening]
  cases htoken : extractBearerToken request.credentials.authorization with
  | some token =>
    have hderived : truthy (some token <|> truthy request.accessKeyHeader <|>
        truthy request.credentials.initializeAccessKey) = some token :=
      truthy_of_ne_empty (extractBearerToken_ne_empty htoken)
    rw [hderived, Option.some.injEq]
    cases form with
    | bearer => exact iff_of_true (Option.some.inj (htoken.symm.trans h)) trivial
    | accessKeyHeader => exact Iff.rfl
    | initializeAccessKey => exact Iff.rfl
  | none =>
    cases hheader : truthy request.accessKeyHeader with
    | some key =>
      have hderived : truthy ((none : Option String) <|> some key <|>
          truthy request.credentials.initializeAccessKey) = some key := by
        have htruthy := truthy_truthy request.accessKeyHeader
        rwa [hheader] at htruthy
      rw [hderived, Option.some.injEq]
      cases form with
      | bearer =>
        rw [htoken] at h
        cases h
      | accessKeyHeader => exact Iff.rfl
      | initializeAccessKey => exact Iff.rfl
    | none =>
      have hderived : truthy ((none : Option String) <|> none <|>
          truthy request.credentials.initializeAccessKey) = truthy request.credentials.initializeAccessKey :=
        truthy_truthy request.credentials.initializeAccessKey
      rw [hderived]
      cases form with
      | bearer =>
        rw [htoken] at h
        cases h
      | accessKeyHeader => exact Iff.rfl
      | initializeAccessKey => exact iff_of_true h trivial

/-! ## The index from token keys to sessions -/

section TokenIndex

variable (config : Config) (now : ℕ) (stores : SessionStores)

theorem saveSessionToRedis_tokens (session : Session) (ttlSeconds : ℕ) :
    (saveSessionToRedis config now stores session ttlSeconds).tokenSessions = stores.tokenSessions := by
  unfold saveSessionToRedis
  split <;> rfl

theorem closeStreamableSession_tokens (sessionId : String) :
    (closeStreamableSession config now stores sessionId).tokenSessions = stores.tokenSessions := by
  unfold closeStreamableSession
  split <;> rfl

theorem lookupSession_tokens (sessionId : String) (version : Option String) :
    (lookupSession config now stores sessionId version).1.tokenSessions = stores.tokenSessions := by
  unfold lookupSession
  split
  · rfl
  split
  · rfl
  · exact saveSessionToRedis_tokens config now _ _ _

theorem validateStreamableSession_tokens (sessionId : String) (version : Option String) :
    (validateStreamableSession config now stores sessionId version).1.tokenSessions = stores.tokenSessions := by
  have hlookup := lookupSession_tokens config now stores sessionId version
  unfold validateStreamableSession
  split
  · rename_i heq
    rw [heq] at hlookup
    exact hlookup
  · rename_i looked session heq
    rw [heq] at hlookup
    split
    · exact (closeStreamableSession_tokens config now looked sessionId).trans hlookup
    · exact (saveSessionToRedis_tokens config now _ _ _).trans hlookup

theorem createStreamableSessionWithId_tokens (sessionId : String) (authenticated : Bool) (context : SessionContext)
    (version : Option String) :
    (createStreamableSessionWithId config now stores sessionId authenticated context version).tokenSessions =
      stores.tokenSessions :=
  saveSessionToRedis_tokens config now _ _ _

theorem rotateSession_tokens (oldSessionId newSessionId : String) :
    (rotateSession config now stores oldSessionId newSessionId).1.tokenSessions = stores.tokenSessions := by
  unfold rotateSession
  simp only
  split
  · rfl
  split
  · exact closeStreamableSession_tokens config now stores oldSessionId
  · exact createStreamableSessionWithId_tokens config now stores newSessionId _ _ _

theorem cleanupSession_tokens (sessionIds : List String) :
    (sessionIds.foldl (cleanupSession config now) stores).tokenSessions = stores.tokenSessions := by
  induction sessionIds generalizing stores with
  | nil => rfl
  | cons sessionId later ih =>
    have hone : (cleanupSession config now stores sessionId).tokenSessions = stores.tokenSessions := by
      unfold cleanupSession
      split
      · rfl
      split
      · exact closeStreamableSession_tokens config now stores sessionId
      · rfl
    exact (ih _).trans hone

theorem validateLegacySseSession_tokens (sessionId : String) :
    (validateLegacySseSession config now stores sessionId).1.tokenSessions = stores.tokenSessions := by
  unfold validateLegacySseSession
  split
  · rfl
  split <;> rfl

end TokenIndex

section TokenIndexOfServer

variable (config : Config) (server : Server) (request : McpRequest)

theorem anchorVersion_tokens (sessionId : String) :
    (anchorVersion config server request sessionId).sessions.tokenSessions = server.sessions.tokenSessions := by
  unfold anchorVersion
  simp only
  split
  · split
    · exact saveSessionToRedis_tokens config server.now _ _ _
    · rfl
  · rfl

theorem admitServed_tokens (result : Server × Outcome) :
    (admitServed config request result).1.sessions.tokenSessions = result.1.sessions.tokenSessions := by
  obtain ⟨server, outcome⟩ := result
  cases outcome with
  | rejected status message => rfl
  | served sessionId context source =>
    simp only [admitServed]
    split
    · rfl
    split
    · rfl
    · exact anchorVersion_tokens config server request sessionId

theorem recoverSession_tokens (sessionId : String) :
    (recoverSession config server request sessionId).1.sessions.tokenSessions = server.sessions.tokenSessions := by
  unfold recoverSession
  simp only
  split
  · rfl
  split
  · rfl
  · exact createStreamableSessionWithId_tokens config server.now server.sessions sessionId _ _ _

theorem authenticateSession_tokens (session : Session) (context : SessionContext) :
    (authenticateSession config server request session context).1.sessions.tokenSessions =
      server.sessions.tokenSessions := by
  unfold authenticateSession
  split
  · rfl
  simp only
  split <;> rfl

theorem refetchGroups_tokens (session : Session) :
    (refetchGroups config server session).1.tokenSessions = server.sessions.tokenSessions := by
  unfold refetchGroups
  split
  · rfl
  split
  · exact saveSessionToRedis_tokens config server.now _ _ _
  · rfl

theorem resolveExistingSession_tokens (sessionId : String) :
    (resolveExistingSession config server request sessionId).1.sessions.tokenSessions =
      server.sessions.tokenSessions := by
  have hvalidated := validateStreamableSession_tokens config server.now server.sessions sessionId
    (request.reanchorVersion config)
  unfold resolveExistingSession
  split
  · rename_i sessions reason heq
    rw [heq] at hvalidated
    exact (recoverSession_tokens config { server with sessions } request sessionId).trans hvalidated
  · rename_i sessions session heq
    rw [heq] at hvalidated
    have hgroups := refetchGroups_tokens config { server with sessions } session
    exact (authenticateSession_tokens config _ request session _).trans (hgroups.trans hvalidated)

theorem handleMcpDelete_tokens (credentials : CredentialHeaders) (faults : LookupFaults) (sessionId : String) :
    (handleMcpDelete config server credentials faults sessionId).1.sessions.tokenSessions =
      server.sessions.tokenSessions := by
  have hvalidated := validateStreamableSession_tokens config server.now server.sessions sessionId none
  unfold handleMcpDelete
  split
  · rename_i heq
    rw [heq] at hvalidated
    exact hvalidated
  · rename_i heq
    rw [heq] at hvalidated
    simp only
    split
    · exact hvalidated
    split
    · exact hvalidated
    · exact (closeStreamableSession_tokens config server.now _ sessionId).trans hvalidated

theorem handleLegacySseGet_tokens (credentials : CredentialHeaders) (faults : LookupFaults)
    (queryAccessKey : Option String) (newSessionId : String) :
    (handleLegacySseGet config server credentials faults queryAccessKey newSessionId).1.sessions.tokenSessions =
      server.sessions.tokenSessions := by
  unfold handleLegacySseGet
  simp only
  split
  · rfl
  split
  · rfl
  split
  · rfl
  split <;> rfl

theorem handleLegacySsePost_tokens (sessionId : String) :
    (handleLegacySsePost config server sessionId).1.sessions.tokenSessions = server.sessions.tokenSessions := by
  have hvalidated := validateLegacySseSession_tokens config server.now server.sessions sessionId
  unfold handleLegacySsePost
  split
  · rename_i heq
    rw [heq] at hvalidated
    exact hvalidated
  · rename_i heq
    rw [heq] at hvalidated
    simp only
    split <;> exact hvalidated

theorem admin_tokens (action : AdminAction) :
    (server.admin action).sessions.tokenSessions = server.sessions.tokenSessions := by
  cases action with
  | create key =>
    simp only [Server.admin]
    split <;> rfl
  | _ => rfl

end TokenIndexOfServer

/-! ## An initialize request -/

/-- The request reaches `_createInitializeSession`. -/
def opensSession (request : McpRequest) : Bool :=
  (truthy request.sessionId).isNone && request.isInitialize && request.ipAllowed

/-- `POST /mcp` answers the request in the session. -/
def ServedIn (config : Config) (server : Server) (request : McpRequest) (sessionId : String) : Prop :=
  ∃ context source, (handleMcpPost config server request).2 = .served sessionId context source

/-- The index leads from the key to a valid session. -/
def LeadsTo (config : Config) (server : Server) (key sessionId : String) : Prop :=
  getSessionIdByToken config server.now server.sessions key = some sessionId ∧
    ∃ session, (validateStreamableSession config server.now server.sessions sessionId none).2 = .ok session

/-- `validateAuthentication` accepts the request by the credential. -/
structure AcceptedBy (config : Config) (server : Server) (request : McpRequest) (identity : Identity)
    (credential : Credential) : Prop where
  accepted : (validateAuthentication config request.faults server.now server.auth request.authHeaders).2 =
    .accepted identity
  credential : acceptedCredential config request.faults server.now server.auth request.authHeaders = some credential

variable {server : Server} {request : McpRequest} {identity : Identity} {sessionId key : String}

theorem opensSession_iff (request : McpRequest) :
    opensSession request = true ↔
      truthy request.sessionId = none ∧ request.isInitialize = true ∧ request.ipAllowed = true := by
  simp [opensSession, and_assoc]

theorem handleMcpPost_opening (config : Config) (server : Server) (h : opensSession request = true) :
    handleMcpPost config server request = admitServed config request (createInitializeSession config server request) := by
  obtain ⟨hid, hfirst, hip⟩ := (opensSession_iff request).mp h
  unfold handleMcpPost
  rw [hid]
  simp [hfirst, hip]

theorem reusableSession_iff (config : Config) (server : Server) (request : McpRequest) (identity : Identity)
    (sessionId : String) :
    (reusableSession config server request identity).2 = some sessionId ↔
      ∃ key, deriveTokenKey config request identity = some key ∧ LeadsTo config server key sessionId := by
  have hleads : (∃ key, deriveTokenKey config request identity = some key ∧ LeadsTo config server key sessionId) ↔
      (deriveTokenKey config request identity).bind (getSessionIdByToken config server.now server.sessions) =
        some sessionId ∧
      ∃ session, (validateStreamableSession config server.now server.sessions sessionId none).2 = .ok session := by
    rw [Option.bind_eq_some_iff]
    constructor
    · rintro ⟨key, hkey, hindex, hvalid⟩
      exact ⟨⟨key, hkey, hindex⟩, hvalid⟩
    · rintro ⟨⟨key, hkey, hindex⟩, hvalid⟩
      exact ⟨key, hkey, hindex, hvalid⟩
  rw [hleads]
  unfold reusableSession
  split
  · rename_i hnone
    rw [hnone]
    simp
  · rename_i existing hexisting
    rw [hexisting, Option.some.injEq]
    split
    · rename_i sessions session heq
      rw [Option.some.injEq]
      constructor
      · rintro rfl
        exact ⟨rfl, session, by rw [heq]⟩
      · exact And.left
    · rename_i sessions reason heq
      constructor
      · rintro ⟨⟩
      · rintro ⟨rfl, session, hsession⟩
        rw [heq] at hsession
        cases hsession

theorem reusableSession_tokens (config : Config) (server : Server) (request : McpRequest) (identity : Identity) :
    (reusableSession config server request identity).1.tokenSessions = server.sessions.tokenSessions := by
  unfold reusableSession
  split
  · rfl
  rename_i existing _
  have hvalidated := validateStreamableSession_tokens config server.now server.sessions existing none
  split
  · rename_i heq
    rw [heq] at hvalidated
    exact hvalidated
  · rename_i heq
    rw [heq] at hvalidated
    exact hvalidated

/-- The index after an initialize request was accepted. -/
def indexAfter (config : Config) (server : Server) (request : McpRequest) (identity : Identity) : Store String :=
  match (reusableSession config server request identity).2, deriveTokenKey config request identity with
  | none, some key =>
    if config.redisEnabled then
      server.sessions.tokenSessions.put key request.newSessionId
        (some (server.now + ceilSeconds config.sessionTtlMs * 1000))
    else server.sessions.tokenSessions
  | _, _ => server.sessions.tokenSessions

/-- An accepted request is served in the session that its token key leads to, else in the new one. -/
theorem createInitializeSession_accepted (haccepted : (validateAuthentication config request.faults server.now
      server.auth request.authHeaders).2 = .accepted identity) :
    (∃ context, (createInitializeSession config server request).2 =
      .served ((reusableSession config server request identity).2.getD request.newSessionId) context .credential) ∧
    (createInitializeSession config server request).1.sessions.tokenSessions =
      indexAfter config server request identity := by
  have hsame : ∀ auth, reusableSession config { server with auth } request identity =
      reusableSession config server request identity := fun auth => rfl
  have htokens := reusableSession_tokens config server request identity
  unfold createInitializeSession indexAfter
  simp only [haccepted, hsame]
  generalize reusableSession config server request identity = reused at htokens ⊢
  obtain ⟨sessions, _ | existing⟩ := reused
  · simp only
    refine ⟨⟨_, rfl⟩, ?_⟩
    have hcreated := createStreamableSessionWithId_tokens config server.now sessions request.newSessionId true
      (identityContext config request identity) none
    cases deriveTokenKey config request identity with
    | none => exact hcreated.trans htokens
    | some key =>
      simp only [bindTokenToSession]
      split
      · simp only [hcreated]
        rw [htokens]
      · exact hcreated.trans htokens
  · exact ⟨⟨_, rfl⟩, htokens⟩

theorem createInitializeSession_denied {error : String} (hdenied : (validateAuthentication config request.faults
      server.now server.auth request.authHeaders).2 = .denied error) :
    (createInitializeSession config server request).1.sessions.tokenSessions = server.sessions.tokenSessions := by
  unfold createInitializeSession
  simp only [hdenied]

/-- The session in which an accepted initialize request is served. -/
theorem servedIn_iff (hopens : opensSession request = true)
    (h : AcceptedBy config server request identity credential) (sessionId : String) :
    ServedIn config server request sessionId ↔
      (reusableSession config server request identity).2.getD request.newSessionId = sessionId := by
  obtain ⟨⟨context, hserved⟩, _⟩ := createInitializeSession_accepted h.accepted
  have hfirst := ((opensSession_iff request).mp hopens).2.1
  have hanswer : (handleMcpPost config server request).2 = (createInitializeSession config server request).2 := by
    rw [handleMcpPost_opening config server hopens]
    generalize createInitializeSession config server request = result at hserved ⊢
    obtain ⟨next, outcome⟩ := result
    simp only at hserved
    rw [hserved]
    simp [admitServed, hfirst]
  unfold ServedIn
  rw [hanswer, hserved]
  constructor
  · rintro ⟨_, _, heq⟩
    cases heq
    rfl
  · rintro rfl
    exact ⟨context, .credential, rfl⟩

/-- With Redis, the token key of an accepted request leads to its session afterwards. -/
theorem index_of_served (hopens : opensSession request = true)
    (h : AcceptedBy config server request identity credential)
    (hkey : deriveTokenKey config request identity = some key) (hredis : config.redisEnabled = true)
    (hserved : ServedIn config server request sessionId) :
    ∃ entry, (handleMcpPost config server request).1.sessions.tokenSessions key = some entry ∧
      entry.value = sessionId := by
  have hindex : (handleMcpPost config server request).1.sessions.tokenSessions =
      indexAfter config server request identity := by
    rw [handleMcpPost_opening config server hopens]
    exact (admitServed_tokens config request _).trans (createInitializeSession_accepted h.accepted).2
  have hsession := (servedIn_iff hopens h sessionId).mp hserved
  rw [hindex]
  unfold indexAfter
  cases hreused : (reusableSession config server request identity).2 with
  | none =>
    rw [hreused] at hsession
    simp only [hkey, hredis, if_true]
    exact ⟨_, if_pos rfl, hsession⟩
  | some existing =>
    rw [hreused] at hsession
    obtain ⟨other, hother, hleads, _⟩ := (reusableSession_iff config server request identity existing).mp hreused
    rw [hkey, Option.some.injEq] at hother
    subst hother
    unfold getSessionIdByToken at hleads
    rw [if_pos hredis] at hleads
    obtain ⟨entry, hentry, _, hvalue⟩ := Store.get_eq_some_iff.mp (truthy_eq_some hleads)
    exact ⟨entry, hentry, hvalue.trans hsession⟩

/-! ## The token key that a session was created for -/

/-- The random id that an event may give to a new session of an initialize request. -/
def drawnSessionId : ServerEvent → Option String
  | .post request => if opensSession request then some request.newSessionId else none
  | _ => none

def drawnSessionIds (events : List ServerEvent) : List String := events.filterMap drawnSessionId

/-- Every entry of the index leads to a session from the token key it was created for. -/
def Traced (origin : String → Option String) (server : Server) : Prop :=
  server.sessions.tokenSessions.Holds fun key sessionId => origin sessionId = some key

/-- The origins after some events: those of earlier sessions stay, and new ones are of ids drawn since. -/
structure Grows (origin : String → Option String) (ids : List String) (more : String → Option String)
    (server : Server) : Prop where
  traced : Traced more server
  keeps : ∀ id key, origin id = some key → more id = some key
  drawn : ∀ id key, more id = some key → origin id = some key ∨ id ∈ ids

variable {origin : String → Option String}

theorem Traced.grows (h : Traced origin server) {next : Server} (ids : List String)
    (hsame : next.sessions.tokenSessions = server.sessions.tokenSessions) : Grows origin ids origin next where
  traced := by
    unfold Traced
    rw [hsame]
    exact h
  keeps id key hid := hid
  drawn id key hid := Or.inl hid

/-- What an initialize request adds to the index. -/
theorem createInitializeSession_grows (h : Traced origin server) (hfresh : origin request.newSessionId = none) :
    ∃ more, Grows origin [request.newSessionId] more (createInitializeSession config server request).1 := by
  cases hauth : (validateAuthentication config request.faults server.now server.auth request.authHeaders).2 with
  | denied error => exact ⟨origin, h.grows _ (createInitializeSession_denied hauth)⟩
  | accepted identity =>
    have hindex := (createInitializeSession_accepted hauth).2
    unfold indexAfter at hindex
    split at hindex
    · rename_i key _ hkey
      split at hindex
      · refine ⟨fun id => if id = request.newSessionId then some key else origin id, ?_, ?_, ?_⟩
        · unfold Traced
          rw [hindex]
          have hold : server.sessions.tokenSessions.Holds fun key' sessionId =>
              (if sessionId = request.newSessionId then some key else origin sessionId) = some key' := by
            intro key' entry hentry
            have horigin : origin entry.value = some key' := h key' entry hentry
            have hne : entry.value ≠ request.newSessionId := by
              intro heq
              rw [heq, hfresh] at horigin
              cases horigin
            simp only [if_neg hne]
            exact horigin
          exact hold.put _ (if_pos rfl)
        · intro id key' hid
          have hne : id ≠ request.newSessionId := by
            rintro rfl
            rw [hfresh] at hid
            cases hid
          simp only [if_neg hne]
          exact hid
        · intro id key' hid
          by_cases hnew : id = request.newSessionId
          · exact Or.inr (List.mem_singleton.mpr hnew)
          · simp only [if_neg hnew] at hid
            exact Or.inl hid
      · exact ⟨origin, h.grows _ hindex⟩
    · exact ⟨origin, h.grows _ hindex⟩

theorem handleMcpPost_grows (h : Traced origin server)
    (hfresh : opensSession request = true → origin request.newSessionId = none) :
    ∃ more, Grows origin (drawnSessionId (.post request)).toList more (handleMcpPost config server request).1 := by
  by_cases hopens : opensSession request = true
  · obtain ⟨more, hmore⟩ : ∃ more, Grows origin [request.newSessionId] more
        (createInitializeSession config server request).1 := createInitializeSession_grows h (hfresh hopens)
    have hsame := admitServed_tokens config request (createInitializeSession config server request)
    rw [handleMcpPost_opening config server hopens, drawnSessionId, if_pos hopens]
    refine ⟨more, ?_, hmore.keeps, hmore.drawn⟩
    unfold Traced
    rw [hsame]
    exact hmore.traced
  · refine ⟨origin, h.grows _ ?_⟩
    unfold handleMcpPost
    split
    · exact (admitServed_tokens config request _).trans (resolveExistingSession_tokens config server request _)
    rename_i hid
    split
    · rfl
    split
    · rfl
    · rename_i hfirst hip
      refine absurd ((opensSession_iff request).mpr ⟨hid, ?_, ?_⟩) hopens
      · simpa using hfirst
      · simpa using hip

theorem serverStep_grows (h : Traced origin server) (event : ServerEvent)
    (hfresh : ∀ id ∈ (drawnSessionId event).toList, origin id = none) :
    ∃ more, Grows origin (drawnSessionId event).toList more (McpHandler.step config server event) := by
  have hquiet : (McpHandler.step config server event).sessions.tokenSessions = server.sessions.tokenSessions →
      ∃ more, Grows origin (drawnSessionId event).toList more (McpHandler.step config server event) :=
    fun hsame => ⟨origin, h.grows _ hsame⟩
  cases event with
  | post request =>
    refine handleMcpPost_grows h ?_
    intro hopens
    refine hfresh request.newSessionId ?_
    rw [drawnSessionId, if_pos hopens]
    exact List.mem_singleton.mpr rfl
  | message sessionId => exact hquiet (handleLegacySsePost_tokens config server sessionId)
  | get sessionId => exact hquiet (validateStreamableSession_tokens config server.now server.sessions sessionId none)
  | delete credentials faults sessionId =>
    exact hquiet (handleMcpDelete_tokens config server credentials faults sessionId)
  | sse credentials faults queryAccessKey newSessionId =>
    exact hquiet (handleLegacySseGet_tokens config server credentials faults queryAccessKey newSessionId)
  | rotate oldSessionId newSessionId =>
    exact hquiet (rotateSession_tokens config server.now server.sessions oldSessionId newSessionId)
  | cleanup sessionIds => exact hquiet (cleanupSession_tokens config server.now server.sessions sessionIds)
  | admin action => exact hquiet (admin_tokens server action)
  | redisLoses sessions tokens tokenSessions =>
    refine ⟨origin, ?_, fun id key hid => hid, fun id key hid => Or.inl hid⟩
    exact Store.Holds.drop h tokenSessions
  | _ => exact hquiet rfl

/-- Along a run whose drawn ids never repeat, a session keeps the token key it was created for. -/
theorem run_grows {server : Server} (h : Traced origin server) (events : List ServerEvent)
    (hdistinct : (drawnSessionIds events).Nodup) (hfresh : ∀ id ∈ drawnSessionIds events, origin id = none) :
    ∃ more, Grows origin (drawnSessionIds events) more (run (McpHandler.step config) server events) := by
  induction events generalizing server origin with
  | nil => exact ⟨origin, h.grows [] rfl⟩
  | cons event later ih =>
    have hids : drawnSessionIds (event :: later) = (drawnSessionId event).toList ++ drawnSessionIds later := by
      unfold drawnSessionIds
      cases hdrawn : drawnSessionId event <;> simp [hdrawn]
    rw [hids] at hdistinct hfresh
    obtain ⟨_, hlater, hdisjoint⟩ := List.nodup_append.mp hdistinct
    obtain ⟨middle, hmiddle⟩ : ∃ middle, Grows origin (drawnSessionId event).toList middle
        (McpHandler.step config server event) :=
      serverStep_grows h event fun id hid => hfresh id (List.mem_append_left _ hid)
    have hmiddleFresh : ∀ id ∈ drawnSessionIds later, middle id = none := by
      intro id hid
      cases horigin : middle id with
      | none => rfl
      | some key =>
        rcases hmiddle.drawn id key horigin with hold | hnew
        · rw [hfresh id (List.mem_append_right _ hid)] at hold
          cases hold
        · exact absurd rfl (hdisjoint id hnew id hid)
    obtain ⟨more, hmore⟩ := ih hmiddle.traced hlater hmiddleFresh
    refine ⟨more, hmore.traced, ?_, ?_⟩
    · intro id key hid
      exact hmore.keeps id key (hmiddle.keeps id key hid)
    · intro id key hid
      rw [hids, List.mem_append]
      rcases hmore.drawn id key hid with hearlier | hnew
      · exact (hmiddle.drawn id key hearlier).imp_right Or.inl
      · exact Or.inr (Or.inr hnew)

/-! ## Two initialize requests of a run -/

def serverAfter (config : Config) (events : List ServerEvent) : Server :=
  run (McpHandler.step config) .initial events

/-- The same credential leads to the same session: both token keys are derived from the accepted credentials,
and the later request is served in the session of the earlier one exactly when the credential and its scope
are the same and the credential still leads to that session, which is valid. -/
structure SameSession (config : Config) (first second : Server) (request later : McpRequest)
    (identity laterIdentity : Identity) (credential laterCredential : Credential) : Prop where
  derived : derivedCredential request = some credential.text
  laterDerived : derivedCredential later = some laterCredential.text
  reused : (∃ sessionId, ServedIn config first request sessionId ∧ ServedIn config second later sessionId) ↔
    (credential.text = laterCredential.text ∧ identity.keyId = laterIdentity.keyId) ∧
      ∃ sessionId, ServedIn config first request sessionId ∧
        LeadsTo config second (tokenKey config laterIdentity.keyId laterCredential.text) sessionId

theorem traced_initial : Traced (fun _ => none) Server.initial := Store.holds_empty

variable {later : McpRequest} {laterIdentity : Identity} {laterCredential : Credential}

theorem presents_of_acceptedBy (hopens : opensSession request = true)
    (h : AcceptedBy config server request identity credential) :
    derivedCredential request = some credential.text ↔ DerivedAlike request credential := by
  have hfirst := ((opensSession_iff request).mp hopens).2.1
  have hshown := acceptedCredential_shown h.credential
  rw [McpRequest.authHeaders, if_pos hfirst] at hshown
  exact derivedCredential_eq_iff hfirst hshown

theorem drawnSessionIds_append (events more : List ServerEvent) :
    drawnSessionIds (events ++ more) = drawnSessionIds events ++ drawnSessionIds more :=
  List.filterMap_append

theorem drawnSessionIds_opening (hopens : opensSession request = true) :
    drawnSessionIds [.post request] = [request.newSessionId] := by
  simp [drawnSessionIds, drawnSessionId, hopens]

theorem serverAfter_origin (config : Config) {events : List ServerEvent} (hdistinct : (drawnSessionIds events).Nodup) :
    ∃ origin, Grows (fun _ => none) (drawnSessionIds events) origin (serverAfter config events) :=
  run_grows traced_initial events hdistinct fun _ _ => rfl

theorem LeadsTo.origin_eq (h : LeadsTo config server key sessionId) (htraced : Traced origin server) :
    config.redisEnabled = true ∧ origin sessionId = some key := by
  have hleads := h.1
  unfold getSessionIdByToken at hleads
  split at hleads
  · rename_i hredis
    exact ⟨hredis, htraced.of_get (truthy_eq_some hleads)⟩
  · cases hleads

/-- The session of a served request was drawn for it, or was found in the index. -/
theorem served_drawn (hopens : opensSession request = true)
    (h : AcceptedBy config server request identity credential) {ids : List String}
    (hgrows : Grows (fun _ => none) ids origin server) (hserved : ServedIn config server request sessionId) :
    sessionId ∈ ids ++ [request.newSessionId] := by
  have hsession := (servedIn_iff hopens h sessionId).mp hserved
  cases hreused : (reusableSession config server request identity).2 with
  | none =>
    rw [hreused] at hsession
    exact List.mem_append_right _ (List.mem_singleton.mpr hsession.symm)
  | some existing =>
    rw [hreused] at hsession
    obtain ⟨key, _, hleads⟩ := (reusableSession_iff config server request identity existing).mp hreused
    rcases hgrows.drawn existing key (hleads.origin_eq hgrows.traced).2 with hnone | hdrawn
    · cases hnone
    · rw [← hsession]
      exact List.mem_append_left _ hdrawn

theorem tokenKey_injective {keyId otherKeyId : Option KeyId} {raw other : String}
    (hcollision : tokenHash config raw = tokenHash config other → raw = other)
    (h : tokenKey config keyId raw = tokenKey config otherKeyId other) : raw = other ∧ keyId = otherKeyId := by
  have hkeyId := tokenNamespace_injective h
  subst hkeyId
  refine ⟨hcollision ?_, rfl⟩
  have hlist := congrArg String.toList h
  simp only [tokenKey, String.toList_append] at hlist
  exact String.toList_injective (List.append_cancel_left hlist)

/-- The session of a request is found again by its own token key only. -/
theorem key_eq_of_served {before between : List ServerEvent} (hopens : opensSession request = true)
    (h : AcceptedBy config (serverAfter config before) request identity credential)
    (hdistinct : (drawnSessionIds (before ++ [.post request] ++ between)).Nodup)
    (hkey : deriveTokenKey config request identity = some key)
    (hserved : ServedIn config (serverAfter config before) request sessionId) {other : String}
    (hleads : LeadsTo config (serverAfter config (before ++ [.post request] ++ between)) other sessionId) :
    key = other := by
  rw [drawnSessionIds_append] at hdistinct
  obtain ⟨hfirst, hbetween, hdisjoint⟩ := List.nodup_append.mp hdistinct
  obtain ⟨origin, horigin⟩ := serverAfter_origin config hfirst
  have hfresh : ∀ id ∈ drawnSessionIds between, origin id = none := by
    intro id hid
    cases hnone : origin id with
    | none => rfl
    | some created =>
      rcases horigin.drawn id created hnone with hinitial | hdrawn
      · cases hinitial
      · exact absurd rfl (hdisjoint id hdrawn id hid)
  obtain ⟨more, hmore⟩ : ∃ more, Grows origin (drawnSessionIds between) more
      (run (McpHandler.step config) (serverAfter config (before ++ [.post request])) between) :=
    run_grows horigin.traced between hbetween hfresh
  have hrun : run (McpHandler.step config) (serverAfter config (before ++ [.post request])) between =
      serverAfter config (before ++ [.post request] ++ between) := (run_append _ _ _ _).symm
  rw [hrun] at hmore
  obtain ⟨hredis, hother⟩ := hleads.origin_eq hmore.traced
  -- The index led from the key of the request to this session when the request was answered.
  obtain ⟨entry, hentry, hvalue⟩ := index_of_served hopens h hkey hredis hserved
  have hafter : serverAfter config (before ++ [.post request]) =
      (handleMcpPost config (serverAfter config before) request).1 := run_append _ _ _ _
  have hcreated : origin entry.value = some key := horigin.traced key entry (by rw [hafter]; exact hentry)
  rw [hvalue] at hcreated
  exact Option.some.inj ((hmore.keeps sessionId key hcreated).symm.trans hother)

/-- For two initialize requests of a run whose credentials `validateAuthentication` accepts, the same
credential leads to the same session exactly when `deriveTokenKey` meets no other text before the accepted
one.  Drawn session ids do not repeat and the short hashes of the two credentials do not collide. -/
theorem sameSession_iff_derivedAlike (config : Config) (before between : List ServerEvent)
    (hopens : opensSession request = true) (hlaterOpens : opensSession later = true)
    (h : AcceptedBy config (serverAfter config before) request identity credential)
    (hlater : AcceptedBy config (serverAfter config (before ++ [.post request] ++ between)) later laterIdentity
      laterCredential)
    (hdistinct : (drawnSessionIds (before ++ [.post request] ++ between ++ [.post later])).Nodup)
    (hcollision : tokenHash config credential.text = tokenHash config laterCredential.text →
      credential.text = laterCredential.text) :
    SameSession config (serverAfter config before) (serverAfter config (before ++ [.post request] ++ between)) request
        later identity laterIdentity credential laterCredential ↔
      DerivedAlike request credential ∧ DerivedAlike later laterCredential := by
  have hderived := presents_of_acceptedBy hopens h
  have hlaterDerived := presents_of_acceptedBy hlaterOpens hlater
  constructor
  · intro hsame
    exact ⟨hderived.mp hsame.derived, hlaterDerived.mp hsame.laterDerived⟩
  rintro ⟨halike, hlaterAlike⟩
  refine ⟨hderived.mpr halike, hlaterDerived.mpr hlaterAlike, ?_⟩
  have hkey : deriveTokenKey config request identity = some (tokenKey config identity.keyId credential.text) := by
    rw [deriveTokenKey_eq, hderived.mpr halike, Option.map_some]
  have hlaterKey : deriveTokenKey config later laterIdentity =
      some (tokenKey config laterIdentity.keyId laterCredential.text) := by
    rw [deriveTokenKey_eq, hlaterDerived.mpr hlaterAlike, Option.map_some]
  have hlaterServed := servedIn_iff hlaterOpens hlater
  have hlaterReused := reusableSession_iff config (serverAfter config (before ++ [.post request] ++ between)) later
    laterIdentity
  simp only [hlaterKey, Option.some.injEq, exists_eq_left'] at hlaterReused
  rw [drawnSessionIds_append, drawnSessionIds_opening hlaterOpens] at hdistinct
  obtain ⟨hevents, _, hdisjoint⟩ := List.nodup_append.mp hdistinct
  constructor
  · rintro ⟨sessionId, hserved, hagain⟩
    have hsession := (hlaterServed sessionId).mp hagain
    cases hreused : (reusableSession config (serverAfter config (before ++ [.post request] ++ between)) later
        laterIdentity).2 with
    | some existing =>
      have hleads := (hlaterReused existing).mp hreused
      rw [hreused] at hsession
      rw [show existing = sessionId from hsession] at hleads
      have hsame := key_eq_of_served hopens h hevents hkey hserved hleads
      exact ⟨tokenKey_injective hcollision hsame, sessionId, hserved, hleads⟩
    | none =>
      -- The later request would have been given the id of an earlier session.
      rw [hreused] at hsession
      rw [drawnSessionIds_append, drawnSessionIds_append, drawnSessionIds_opening hopens] at hevents hdisjoint
      obtain ⟨hbefore, -, -⟩ := List.nodup_append.mp (List.nodup_append.mp hevents).1
      obtain ⟨origin, horigin⟩ := serverAfter_origin config hbefore
      have hdrawn := List.mem_append_left (drawnSessionIds between) (served_drawn hopens h horigin hserved)
      exact absurd hsession.symm (hdisjoint sessionId hdrawn later.newSessionId (List.mem_singleton.mpr rfl))
  · rintro ⟨_, sessionId, hserved, hleads⟩
    refine ⟨sessionId, hserved, (hlaterServed sessionId).mpr ?_⟩
    rw [(hlaterReused sessionId).mpr hleads]
    rfl

/-! ## The same key twice -/

def redisConfig : Config := { OAuthBinding.sampleConfig with redisEnabled := true }

def initializeWith (credentials : CredentialHeaders) (newSessionId : String) : McpRequest where
  isInitialize := true
  credentials := credentials
  newSessionId := newSessionId

def aliceBearer : CredentialHeaders := bearer "wdm_alice_00112233445566778899aabbccddeeff"

def aliceCredential : Credential := ⟨.bearer, "wdm_alice_00112233445566778899aabbccddeeff"⟩

def aliceIdentity : Identity where
  keyId := some OAuthBinding.aliceId
  groupKeyIds := some [OAuthBinding.aliceId]
  permissions := some [.read, .write]

/-- A client that sends its API key as a bearer token twice gets its first session again. -/
theorem bearer_same_session :
    SameSession redisConfig (serverAfter redisConfig [.admin (.create OAuthBinding.aliceKey)])
      (serverAfter redisConfig ([.admin (.create OAuthBinding.aliceKey)] ++
        [.post (initializeWith aliceBearer "s-1")] ++ [.advance 60000]))
      (initializeWith aliceBearer "s-1") (initializeWith aliceBearer "s-2") aliceIdentity aliceIdentity
      aliceCredential aliceCredential :=
  (sameSession_iff_derivedAlike redisConfig [.admin (.create OAuthBinding.aliceKey)] [.advance 60000] (by decide)
    (by decide) ⟨rfl, by decide⟩ ⟨rfl, by decide⟩ (by decide) fun _ => rfl).mpr ⟨trivial, trivial⟩

def accessKeyHeader : CredentialHeaders := { legacyKey := some "wdm-master-key" }

def masterCredential : Credential := ⟨.accessKeyHeader, "wdm-master-key"⟩

/-- A client that sends the access key in its header is accepted by it, and no token key is derived from it. -/
theorem accessKeyHeader_not_derived :
    ¬ ∀ (config : Config) (before between : List ServerEvent) (request later : McpRequest)
      (identity laterIdentity : Identity) (credential laterCredential : Credential),
      opensSession request = true → opensSession later = true →
      AcceptedBy config (serverAfter config before) request identity credential →
      AcceptedBy config (serverAfter config (before ++ [.post request] ++ between)) later laterIdentity
        laterCredential →
      (drawnSessionIds (before ++ [.post request] ++ between ++ [.post later])).Nodup →
      (tokenHash config credential.text = tokenHash config laterCredential.text →
        credential.text = laterCredential.text) →
      SameSession config (serverAfter config before) (serverAfter config (before ++ [.post request] ++ between))
        request later identity laterIdentity credential laterCredential := by
  intro h
  have hsame := h redisConfig [] [] (initializeWith accessKeyHeader "s-1") (initializeWith accessKeyHeader "s-2")
    {} {} masterCredential masterCredential (by decide) (by decide) ⟨rfl, by decide⟩ ⟨rfl, by decide⟩ (by decide)
    fun _ => rfl
  have hderived := hsame.derived
  revert hderived
  decide

end FragmentMemory.CredentialSessions
