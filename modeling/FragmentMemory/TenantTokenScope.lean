import FragmentMemory.McpHandler
import FragmentMemory.OAuthBinding

/-! # The scope in which an access token acts

A token bound to an API key loses its key when the key is deactivated, deleted, over its limit or not
found.  Authentication then goes on as for a token without a key, and the setting that rejects those
decides whether the request runs in the master scope.
-/
namespace FragmentMemory.TenantTokenScope

open ApiKeyStore Authentication JsString KeyValueStore McpHandler OAuthServer StreamableSessions TransitionRuns

/-! ## The ledger of keys -/

/-- Ids and hashes identify the keys that were ever created, and every present key is one of them. -/
structure KeyLedger (server : Server) : Prop where
  recorded : ∀ key ∈ server.auth.tables.keys, (key.id, key.keyHash) ∈ server.issuedKeys
  present : (server.auth.tables.keys.map ApiKey.id).Nodup
  ids : (server.issuedKeys.map Prod.fst).Nodup
  hashes : (server.issuedKeys.map Prod.snd).Nodup

/-- The key tables list the same keys and the same keys were created. -/
structure SameKeys (before after : Server) : Prop where
  keys : after.auth.tables.keys = before.auth.tables.keys
  issued : after.issuedKeys = before.issuedKeys

theorem KeyLedger.of_sameKeys {before after : Server} (h : KeyLedger before) (hsame : SameKeys before after) :
    KeyLedger after :=
  ⟨by rw [hsame.keys, hsame.issued]; exact h.recorded, by rw [hsame.keys]; exact h.present,
    by rw [hsame.issued]; exact h.ids, by rw [hsame.issued]; exact h.hashes⟩

theorem SameKeys.of_sessions {before after : Server} {sessions : SessionStores}
    (h : SameKeys { before with sessions } after) : SameKeys before after :=
  ⟨h.keys, h.issued⟩

variable (config : Config) (faults : LookupFaults) (now : ℕ)

theorem authenticateToken_keys (stores : AuthStores) (token : String) (data : TokenData) :
    (authenticateToken config faults now stores token data).1.tables.keys = stores.tables.keys := by
  unfold authenticateToken
  simp only
  split
  · rfl
  split
  · rfl
  split <;> rfl

theorem validateAuthentication_keys (stores : AuthStores) (headers : CredentialHeaders) :
    (validateAuthentication config faults now stores headers).1.tables.keys = stores.tables.keys := by
  have hbearer : (authenticateBearer config faults now stores headers).1.tables.keys = stores.tables.keys := by
    unfold authenticateBearer
    split
    · rfl
    split
    · rfl
    split
    · exact authenticateToken_keys config faults now _ _ _
    split <;> rfl
  unfold validateAuthentication
  split
  · split <;> rfl
  split
  · split
    · rfl
    · exact hbearer
  · exact hbearer

theorem recoverSession_sameKeys (server : Server) (request : McpRequest) (sessionId : String) :
    SameKeys server (recoverSession config server request sessionId).1 := by
  have hauth := validateAuthentication_keys config request.faults server.now server.auth request.authHeaders
  unfold recoverSession
  simp only
  split
  · exact ⟨hauth, rfl⟩
  split
  · exact ⟨hauth, rfl⟩
  · exact ⟨hauth, rfl⟩

theorem authenticateSession_sameKeys (server : Server) (request : McpRequest) (session : Session)
    (context : SessionContext) :
    SameKeys server (authenticateSession config server request session context).1 := by
  have hauth := validateAuthentication_keys config request.faults server.now server.auth request.authHeaders
  unfold authenticateSession
  split
  · exact ⟨rfl, rfl⟩
  simp only
  split <;> exact ⟨hauth, rfl⟩

theorem resolveExistingSession_sameKeys (server : Server) (request : McpRequest) (sessionId : String) :
    SameKeys server (resolveExistingSession config server request sessionId).1 := by
  unfold resolveExistingSession
  split
  · exact (recoverSession_sameKeys config _ request sessionId).of_sessions
  · exact (authenticateSession_sameKeys config _ request _ _).of_sessions

theorem createInitializeSession_sameKeys (server : Server) (request : McpRequest) :
    SameKeys server (createInitializeSession config server request).1 := by
  have hauth := validateAuthentication_keys config request.faults server.now server.auth request.authHeaders
  unfold createInitializeSession
  simp only
  split
  · exact ⟨hauth, rfl⟩
  split <;> exact ⟨hauth, rfl⟩

theorem anchorVersion_sameKeys (server : Server) (request : McpRequest) (sessionId : String) :
    SameKeys server (anchorVersion config server request sessionId) := by
  unfold anchorVersion
  simp only
  split
  · split <;> exact ⟨rfl, rfl⟩
  · exact ⟨rfl, rfl⟩

theorem admitServed_sameKeys {server : Server} {result : Server × Outcome} (request : McpRequest)
    (h : SameKeys server result.1) : SameKeys server (admitServed config request result).1 := by
  obtain ⟨next, outcome⟩ := result
  cases outcome with
  | rejected status message => exact h
  | served sessionId context source =>
    have hanchor := anchorVersion_sameKeys config next request sessionId
    simp only [admitServed]
    split
    · exact h
    split
    · exact h
    · exact ⟨hanchor.keys.trans h.keys, hanchor.issued.trans h.issued⟩

theorem handleMcpPost_sameKeys (server : Server) (request : McpRequest) :
    SameKeys server (handleMcpPost config server request).1 := by
  unfold handleMcpPost
  split
  · exact admitServed_sameKeys config request (resolveExistingSession_sameKeys config server request _)
  split
  · exact ⟨rfl, rfl⟩
  split
  · exact ⟨rfl, rfl⟩
  · exact admitServed_sameKeys config request (createInitializeSession_sameKeys config server request)

theorem handleMcpDelete_sameKeys (server : Server) (credentials : CredentialHeaders) (sessionId : String) :
    SameKeys server (handleMcpDelete config server credentials faults sessionId).1 := by
  have hauth := validateAuthentication_keys config faults server.now server.auth
    { credentials with initializeAccessKey := none }
  unfold handleMcpDelete
  split
  · exact ⟨rfl, rfl⟩
  simp only
  split
  · exact ⟨hauth, rfl⟩
  split <;> exact ⟨hauth, rfl⟩

theorem handleLegacySseGet_sameKeys (server : Server) (credentials : CredentialHeaders)
    (queryAccessKey : Option String) (newSessionId : String) :
    SameKeys server (handleLegacySseGet config server credentials faults queryAccessKey newSessionId).1 := by
  have hauth := validateAuthentication_keys config faults server.now server.auth
    { credentials with initializeAccessKey := none }
  unfold handleLegacySseGet
  simp only
  split
  · exact ⟨rfl, rfl⟩
  split
  · exact ⟨hauth, rfl⟩
  split
  · exact ⟨hauth, rfl⟩
  split <;> exact ⟨hauth, rfl⟩

theorem handleLegacySsePost_sameKeys (server : Server) (sessionId : String) :
    SameKeys server (handleLegacySsePost config server sessionId).1 := by
  unfold handleLegacySsePost
  split
  · exact ⟨rfl, rfl⟩
  simp only
  split <;> exact ⟨rfl, rfl⟩

theorem updateKey_ids (tables : KeyTables) (keyId : KeyId) (change : ApiKey → ApiKey) :
    (updateKey tables keyId change).keys.map (fun key => (key.id, key.keyHash)) =
      tables.keys.map fun key => (key.id, key.keyHash) := by
  simp only [updateKey, List.map_map]
  apply List.map_congr_left
  intro key _
  simp only [Function.comp_apply]
  split <;> rfl

theorem KeyLedger.of_updateKey {server : Server} (h : KeyLedger server) (keyId : KeyId)
    (change : ApiKey → ApiKey) :
    KeyLedger { server with auth := { server.auth with tables := updateKey server.auth.tables keyId change } } := by
  have hids := updateKey_ids server.auth.tables keyId change
  refine ⟨?_, ?_, h.ids, h.hashes⟩
  · intro key hkey
    have hpair : (key.id, key.keyHash) ∈
        (updateKey server.auth.tables keyId change).keys.map fun key => (key.id, key.keyHash) :=
      List.mem_map_of_mem hkey
    rw [hids] at hpair
    obtain ⟨old, hold, heq⟩ := List.mem_map.mp hpair
    rw [← heq]
    exact h.recorded old hold
  · have hfst := congrArg (List.map Prod.fst) hids
    simp only [List.map_map] at hfst
    change ((updateKey server.auth.tables keyId change).keys.map (Prod.fst ∘ fun key => (key.id, key.keyHash))).Nodup
    rw [hfst]
    exact h.present

theorem KeyLedger.admin {server : Server} (h : KeyLedger server) (action : AdminAction) :
    KeyLedger (server.admin action) := by
  cases action with
  | create key =>
    simp only [Server.admin]
    split
    · exact h
    rename_i hfresh
    simp only [Bool.or_eq_true, List.any_eq_true, decide_eq_true_eq, not_or, not_exists, not_and] at hfresh
    obtain ⟨hissued, _⟩ := hfresh
    refine ⟨?_, ?_, ?_, ?_⟩
    · intro other hother
      rcases List.mem_append.mp hother with hold | hnew
      · exact List.mem_append_left _ (h.recorded other hold)
      · rw [List.mem_singleton.mp hnew]
        simp
    · simp only [List.map_append, List.map_cons, List.map_nil]
      refine List.nodup_append.mpr ⟨h.present, by simp, ?_⟩
      intro id hid other hother
      rw [List.mem_singleton.mp hother]
      obtain ⟨old, hold, rfl⟩ := List.mem_map.mp hid
      exact (hissued _ (h.recorded old hold)).1
    · simp only [List.map_append, List.map_cons, List.map_nil]
      refine List.nodup_append.mpr ⟨h.ids, by simp, ?_⟩
      intro id hid other hother
      rw [List.mem_singleton.mp hother]
      obtain ⟨old, hold, rfl⟩ := List.mem_map.mp hid
      exact (hissued old hold).1
    · simp only [List.map_append, List.map_cons, List.map_nil]
      refine List.nodup_append.mpr ⟨h.hashes, by simp, ?_⟩
      intro hash hhash other hother
      rw [List.mem_singleton.mp hother]
      obtain ⟨old, hold, rfl⟩ := List.mem_map.mp hhash
      exact (hissued old hold).2
  | updateStatus keyId status => exact h.of_updateKey keyId _
  | updateDailyLimit keyId limit => exact h.of_updateKey keyId _
  | delete keyId =>
    refine ⟨?_, ?_, h.ids, h.hashes⟩
    · intro key hkey
      exact h.recorded key (List.mem_filter.mp hkey).1
    · exact (List.filter_sublist.map _).nodup h.present
  | setUsage usage => exact h.of_sameKeys ⟨rfl, rfl⟩
  | setGroups members => exact h.of_sameKeys ⟨rfl, rfl⟩

theorem KeyLedger.step {server : Server} (h : KeyLedger server) (event : ServerEvent) :
    KeyLedger (McpHandler.step config server event) := by
  cases event with
  | admin action => exact h.admin action
  | post request => exact h.of_sameKeys (handleMcpPost_sameKeys config server request)
  | delete credentials faults sessionId =>
    exact h.of_sameKeys (handleMcpDelete_sameKeys config faults server credentials sessionId)
  | sse credentials faults queryAccessKey newSessionId =>
    exact h.of_sameKeys (handleLegacySseGet_sameKeys config faults server credentials queryAccessKey newSessionId)
  | message sessionId => exact h.of_sameKeys (handleLegacySsePost_sameKeys config server sessionId)
  | _ => exact h.of_sameKeys ⟨rfl, rfl⟩

theorem keyLedger_reachable {server : Server} (h : Reachable (McpHandler.step config) .initial server) :
    KeyLedger server :=
  invariant_reachable (fun _ event hledger => hledger.step config event)
    ⟨by simp [Server.initial], by simp [Server.initial], by simp [Server.initial], by simp [Server.initial]⟩ h

/-! ## The keys a token leads to -/

/-- The token was issued for the key: by its `bound_key_id`, or for a client id that is its secret. -/
def BoundTo (digests : Digests) (issuedKeys : List (KeyId × String)) (data : TokenData) (keyId : KeyId) : Prop :=
  data.boundKeyId = some keyId.val ∨
    (data.boundKeyId = none ∧ data.isApiKey = true ∧
      ∃ raw, data.clientId = some raw ∧ (keyId, hashKey digests raw) ∈ issuedKeys)

/-- The key is present and active and the lookup by id answers. -/
def UsableById (tables : KeyTables) (faults : LookupFaults) (keyId : KeyId) : Prop :=
  faults.byId = false ∧ ∃ key ∈ tables.keys, key.id = keyId ∧ key.status = .active

/-- The raw string is the secret of the key, which is active with calls left, and the lookup answers. -/
def UsableBySecret (digests : Digests) (tables : KeyTables) (faults : LookupFaults) (raw : String)
    (keyId : KeyId) : Prop :=
  faults.byHash = false ∧ ∃ key ∈ tables.keys, key.id = keyId ∧ key.keyHash = hashKey digests raw ∧
    key.status = .active ∧ tables.usageToday key.id < key.dailyLimit

/-- When the scope of a token bound to the key is kept: the key is usable by id, or the client id of the
token is the secret of this usable key, or it is no usable key's secret and such tokens are rejected. -/
def ScopeKept (config : Config) (tables : KeyTables) (faults : LookupFaults) (data : TokenData)
    (keyId : KeyId) : Prop :=
  (data.boundKeyId = some keyId.val ∧ UsableById tables faults keyId) ∨
    (∃ raw, data.isApiKey = true ∧ data.clientId = some raw ∧
      UsableBySecret config.digests tables faults raw keyId) ∨
    ((∀ raw other, data.isApiKey = true → data.clientId = some raw →
        ¬ UsableBySecret config.digests tables faults raw other) ∧ rejectsUnboundTokens config = true)

theorem boundKey_none_of_unbound {tables : KeyTables} {data : TokenData} (h : data.boundKeyId = none) :
    boundKey faults tables data = none := by
  simp [boundKey, h, truthy]

theorem boundKey_some {tables : KeyTables} {data : TokenData} {keyId : KeyId} {key : ValidKey}
    (hbound : data.boundKeyId = some keyId.val) (h : boundKey faults tables data = some key) :
    key.keyId = keyId ∧ UsableById tables faults keyId := by
  obtain ⟨id, htruthy, hlookup⟩ := Option.bind_eq_some_iff.mp h
  have hid : id = keyId.val := by
    have := truthy_eq_some htruthy
    rw [hbound, Option.some.injEq] at this
    exact this.symm
  have hvalid : validateApiKeyById tables faults id = .valid key := by
    cases hv : validateApiKeyById tables faults id with
    | invalid reason => simp [hv, Validation.key?] at hlookup
    | valid found => simp only [hv, Validation.key?, Option.some.injEq] at hlookup; rw [hlookup]
  obtain ⟨hkey, row, hrow, hrowId, hactive⟩ := validateApiKeyById_valid hvalid
  have hkeyId : key.keyId = keyId := Subtype.ext (hkey.trans hid)
  have hfault : faults.byId = false := by
    by_contra hfault
    simp only [validateApiKeyById, Bool.not_eq_false] at hvalid hfault
    simp only [hfault, if_true] at hvalid
    split at hvalid <;> cases hvalid
  exact ⟨hkeyId, hfault, row, hrow, by rw [hrowId, hkeyId], hactive⟩

theorem boundKey_of_usable {tables : KeyTables} (hunique : (tables.keys.map ApiKey.id).Nodup)
    {data : TokenData} {keyId : KeyId} (hbound : data.boundKeyId = some keyId.val)
    (h : UsableById tables faults keyId) : ∃ key, boundKey faults tables data = some key := by
  obtain ⟨hfault, row, hrow, rfl, hactive⟩ := h
  obtain ⟨key, hvalid, _⟩ := validateApiKeyById_of_active hunique hrow hactive hfault
  have hempty : row.id.val ≠ "" := by
    intro hid
    simp [validateApiKeyById, hid] at hvalid
  have htruthy : truthy (some row.id.val) = some row.id.val := by simp [truthy, Option.filter, hempty]
  exact ⟨key, by simp only [boundKey, hbound, htruthy, Option.bind_some, hvalid, Validation.key?]⟩

theorem clientIdKey_some {tables : KeyTables} {data : TokenData} {key : ValidKey}
    (h : clientIdKey config faults tables data = some key) :
    ∃ raw, data.isApiKey = true ∧ data.clientId = some raw ∧
      UsableBySecret config.digests tables faults raw key.keyId := by
  unfold clientIdKey at h
  split at h
  · rename_i hapi
    obtain ⟨raw, hraw, row, hrow, hhash, hactive, hlimit, hid⟩ :=
      validateApiKeyFromDB_valid (keyFromSecret?_eq_some_iff.mp h)
    have hfault : faults.byHash = false := by
      by_contra hfault
      simp only [Bool.not_eq_false] at hfault
      simp [hraw, keyFromSecret?, validateApiKeyFromDB, hfault] at h
    exact ⟨raw, hapi, hraw, hfault, row, hrow, hid.symm, hhash, hactive, hlimit⟩
  · cases h

/-- Two present keys with one hash are one key. -/
theorem KeyLedger.hash_injective {server : Server} (h : KeyLedger server) {a b : ApiKey}
    (ha : a ∈ server.auth.tables.keys) (hb : b ∈ server.auth.tables.keys) (hash : a.keyHash = b.keyHash) :
    a = b := by
  have hpair : (a.id, a.keyHash) = (b.id, b.keyHash) :=
    List.inj_on_of_nodup_map h.hashes (h.recorded a ha) (h.recorded b hb) hash
  exact List.inj_on_of_nodup_map h.present ha hb (congrArg Prod.fst hpair)

theorem clientIdKey_of_usable {server : Server} (hledger : KeyLedger server) {data : TokenData} {raw : String}
    {keyId : KeyId} (hapi : data.isApiKey = true) (hraw : data.clientId = some raw)
    (h : UsableBySecret config.digests server.auth.tables faults raw keyId) :
    ∃ key, clientIdKey config faults server.auth.tables data = some key ∧ key.keyId = keyId := by
  obtain ⟨hfault, row, hrow, rfl, hhash, hactive, hlimit⟩ := h
  obtain ⟨key, hkey, hid⟩ := keyFromSecret?_of_active
    (fun other hother heq => hledger.hash_injective hother hrow heq) hrow hhash hactive hlimit hfault
  exact ⟨key, by simp [clientIdKey, hapi, hraw, hkey], hid⟩

/-! ## The scope of an authenticated request -/

/-- The requests that show a credential of their own. -/
inductive CredentialedRequest
  | post (request : McpRequest)
  | delete (credentials : CredentialHeaders) (faults : LookupFaults) (sessionId : String)
  | sse (credentials : CredentialHeaders) (faults : LookupFaults) (queryAccessKey : Option String)
      (newSessionId : String)

def CredentialedRequest.credentials : CredentialedRequest → CredentialHeaders
  | .post request => request.credentials
  | .delete credentials _ _ => credentials
  | .sse credentials _ _ _ => credentials

def CredentialedRequest.lookupFaults : CredentialedRequest → LookupFaults
  | .post request => request.faults
  | .delete _ faults _ => faults
  | .sse _ faults _ _ => faults

/-- The scope in which the server executes a request that its own credential authenticated. -/
def executedScope (server : Server) : CredentialedRequest → Option (Option KeyId)
  | .post request =>
    match (handleMcpPost config server request).2 with
    | .served _ context .credential => some context.keyId
    | _ => none
  | .delete credentials faults sessionId =>
    match (handleMcpDelete config server credentials faults sessionId).2 with
    | .closed requester => some requester
    | .refused _ => none
  | .sse credentials faults queryAccessKey newSessionId =>
    match (handleLegacySseGet config server credentials faults queryAccessKey newSessionId).2 with
    | .connected keyId .credential => some keyId
    | _ => none

/-- The request shows the token as its bearer and not the access key of the server. -/
structure CarriesToken (authorization : Option String) (faults : LookupFaults)
    (request : CredentialedRequest) : Prop where
  authorization : request.credentials.authorization = authorization
  legacyKey : ∀ key, truthy request.credentials.legacyKey = some key →
    safeCompare config key config.accessKey = false
  faults : request.lookupFaults = faults

theorem authenticateToken_executedAs (stores : AuthStores) (token : String) (data : TokenData) :
    (authenticateToken config faults now stores token data).2.executedAs =
      match boundKey faults stores.tables data, clientIdKey config faults stores.tables data with
      | some key, _ => some (some key.keyId)
      | none, some key => some (some key.keyId)
      | none, none => if rejectsUnboundTokens config then none else some none := by
  unfold authenticateToken
  simp only
  cases boundKey faults stores.tables data with
  | some key => rfl
  | none =>
    cases clientIdKey config faults stores.tables data with
    | some key => rfl
    | none =>
      simp only
      split <;> rfl

theorem validateAuthentication_token (hconfig : config.accessKey ≠ "") {stores : AuthStores}
    {headers : CredentialHeaders} {token : String} {data : TokenData}
    (hlegacy : ∀ key, truthy headers.legacyKey = some key → safeCompare config key config.accessKey = false)
    (hheader : extractBearerToken headers.authorization = some token)
    (hforeign : safeCompare config token config.accessKey = false)
    (hvalid : (validateAccessToken now stores.oauth token).2 = some data) :
    ∃ oauth, validateAuthentication config faults now stores headers =
      authenticateToken config faults now { stores with oauth } token data := by
  have hbearer : authenticateBearer config faults now stores headers =
      authenticateToken config faults now
        { stores with oauth := (validateAccessToken now stores.oauth token).1 } token data := by
    unfold authenticateBearer
    simp only [hheader, hforeign, Bool.false_eq_true, if_false]
    cases hresult : validateAccessToken now stores.oauth token with
    | mk oauth found =>
      rw [hresult] at hvalid
      simp only at hvalid
      rw [hvalid]
  refine ⟨(validateAccessToken now stores.oauth token).1, ?_⟩
  rw [← hbearer]
  unfold validateAuthentication
  rw [if_neg hconfig]
  split
  · rename_i key hkey
    rw [hlegacy key hkey]
    rfl
  · rfl

theorem createInitializeSession_scope (server : Server) (request : McpRequest) :
    (validateAuthentication config request.faults server.now server.auth request.authHeaders).2.executedAs =
      match (createInitializeSession config server request).2 with
      | .served _ context .credential => some context.keyId
      | _ => none := by
  unfold createInitializeSession
  simp only
  cases (validateAuthentication config request.faults server.now server.auth request.authHeaders).2 with
  | denied error => rfl
  | accepted identity =>
    simp only
    generalize reusableSession config _ request identity = reused
    obtain ⟨sessions, _ | existing⟩ := reused <;> rfl

theorem admitServed_credential {request : McpRequest} {result : Server × Outcome} {sessionId : String}
    {context : SessionContext} {source : ScopeSource}
    (h : (admitServed config request result).2 = .served sessionId context source) :
    result.2 = .served sessionId context source := by
  obtain ⟨server, outcome⟩ := result
  cases outcome with
  | rejected status message => cases h
  | served otherId otherContext otherSource =>
    simp only [admitServed] at h
    split at h
    · cases h
    split at h
    · cases h
    · exact h

theorem admitServed_initialize {request : McpRequest} (h : request.isInitialize = true)
    (result : Server × Outcome) : (admitServed config request result).2 = result.2 := by
  obtain ⟨server, outcome⟩ := result
  cases outcome with
  | rejected status message => rfl
  | served sessionId context source => simp [admitServed, h]

theorem recoverSession_scope {server : Server} {request : McpRequest} {sessionId otherId : String}
    {context : SessionContext} {source : ScopeSource}
    (h : (recoverSession config server request sessionId).2 = .served otherId context source) :
    (validateAuthentication config request.faults server.now server.auth request.authHeaders).2.executedAs =
      some context.keyId := by
  unfold recoverSession at h
  simp only at h
  cases hauth : (validateAuthentication config request.faults server.now server.auth request.authHeaders).2 with
  | denied error =>
    rw [hauth] at h
    cases h
  | accepted identity =>
    rw [hauth] at h
    simp only at h
    split at h
    · cases h
    · simp only [Outcome.served.injEq] at h
      rw [← h.2.1]
      rfl

theorem authenticateSession_source {server : Server} {request : McpRequest} {session : Session}
    {context otherContext : SessionContext} {sessionId : String} :
    (authenticateSession config server request session context).2 ≠
      .served sessionId otherContext .credential := by
  unfold authenticateSession
  split
  · simp
  simp only
  split <;> simp

theorem handleMcpPost_scope {server : Server} {request : McpRequest} {sessionId : String}
    {context : SessionContext}
    (h : (handleMcpPost config server request).2 = .served sessionId context .credential) :
    (validateAuthentication config request.faults server.now server.auth request.authHeaders).2.executedAs =
      some context.keyId := by
  unfold handleMcpPost at h
  split at h
  · have hresolved := admitServed_credential config h
    unfold resolveExistingSession at hresolved
    split at hresolved
    · have hscope := recoverSession_scope config hresolved
      exact hscope
    · exact absurd hresolved (authenticateSession_source config)
  split at h
  · cases h
  split at h
  · cases h
  · have hcreated := admitServed_credential config h
    have hscope := createInitializeSession_scope config server request
    rw [hcreated] at hscope
    exact hscope

/-- A request that its credential authenticated runs in the scope that authentication returned. -/
theorem executedScope_eq_executedAs {server : Server} {request : CredentialedRequest} {scope : Option KeyId}
    (h : executedScope config server request = some scope) :
    ∃ headers : CredentialHeaders, headers.legacyKey = request.credentials.legacyKey ∧
      headers.authorization = request.credentials.authorization ∧
      (validateAuthentication config request.lookupFaults server.now server.auth headers).2.executedAs = some scope := by
  cases request with
  | post request =>
    refine ⟨request.authHeaders, ?_, ?_, ?_⟩
    · simp only [McpRequest.authHeaders, CredentialedRequest.credentials]; split <;> rfl
    · simp only [McpRequest.authHeaders, CredentialedRequest.credentials]; split <;> rfl
    simp only [executedScope] at h
    split at h
    · rename_i hserved
      rw [← h]
      exact handleMcpPost_scope config hserved
    · cases h
  | delete credentials faults sessionId =>
    refine ⟨{ credentials with initializeAccessKey := none }, rfl, rfl, ?_⟩
    simp only [executedScope, handleMcpDelete] at h
    split at h
    · rename_i requester hclosed
      split at hclosed
      · cases hclosed
      · split at hclosed
        · cases hclosed
        · rename_i identity hauth
          split at hclosed
          · cases hclosed
          · simp only [DeleteOutcome.closed.injEq] at hclosed
            simp only [CredentialedRequest.lookupFaults]
            rw [hauth]
            rw [← h, ← hclosed]
            rfl
    · cases h
  | sse credentials faults queryAccessKey newSessionId =>
    refine ⟨{ credentials with initializeAccessKey := none }, rfl, rfl, ?_⟩
    simp only [executedScope, handleLegacySseGet] at h
    split at h
    · rename_i keyId hconnected
      split at hconnected
      · cases hconnected
      split at hconnected
      · rename_i identity hauth
        simp only [SseOutcome.connected.injEq] at hconnected
        simp only [CredentialedRequest.lookupFaults]
        rw [hauth, ← h, ← hconnected.1]
        rfl
      · split at hconnected
        · cases hconnected
        split at hconnected <;> cases hconnected
    · cases h

theorem executedAs_of_carries (hconfig : config.accessKey ≠ "") {server : Server} {token : String}
    {data : TokenData} {authorization : Option String}
    (hvalid : (validateAccessToken server.now server.auth.oauth token).2 = some data)
    (hforeign : safeCompare config token config.accessKey = false)
    (hheader : extractBearerToken authorization = some token) {headers : CredentialHeaders}
    (hauthorization : headers.authorization = authorization)
    (hlegacy : ∀ key, truthy headers.legacyKey = some key → safeCompare config key config.accessKey = false) :
    (validateAuthentication config faults server.now server.auth headers).2.executedAs =
      match boundKey faults server.auth.tables data, clientIdKey config faults server.auth.tables data with
      | some key, _ => some (some key.keyId)
      | none, some key => some (some key.keyId)
      | none, none => if rejectsUnboundTokens config then none else some none := by
  rw [← hauthorization] at hheader
  obtain ⟨oauth, heq⟩ := validateAuthentication_token config faults server.now hconfig hlegacy hheader hforeign hvalid
  rw [heq]
  exact authenticateToken_executedAs config faults server.now _ token data

/-- What the lookups of a bound token find is its key or nothing exactly when its scope is kept. -/
theorem lookups_keep_scope_iff {server : Server} (hledger : KeyLedger server) {data : TokenData} {keyId : KeyId}
    (hbound : BoundTo config.digests server.issuedKeys data keyId) :
    (∀ scope, (match boundKey faults server.auth.tables data, clientIdKey config faults server.auth.tables data with
      | some key, _ => some (some key.keyId)
      | none, some key => some (some key.keyId)
      | none, none => if rejectsUnboundTokens config then none else some none) = some scope →
        scope = some keyId) ↔
      ScopeKept config server.auth.tables faults data keyId := by
  cases hboundKey : boundKey faults server.auth.tables data with
  | some key =>
    have hid : data.boundKeyId = some keyId.val := by
      rcases hbound with hid | ⟨hnone, _⟩
      · exact hid
      · rw [boundKey_none_of_unbound faults hnone] at hboundKey
        cases hboundKey
    obtain ⟨hkey, husable⟩ := boundKey_some faults hid hboundKey
    simp only [Option.some.injEq, forall_eq']
    exact ⟨fun _ => Or.inl ⟨hid, husable⟩, fun _ => hkey⟩
  | none =>
    have hnotById : ¬ (data.boundKeyId = some keyId.val ∧ UsableById server.auth.tables faults keyId) := by
      rintro ⟨hid, husable⟩
      obtain ⟨key, hkey⟩ := boundKey_of_usable faults hledger.present hid husable
      rw [hboundKey] at hkey
      cases hkey
    cases hclient : clientIdKey config faults server.auth.tables data with
    | some key =>
      obtain ⟨raw, hapi, hraw, husable⟩ := clientIdKey_some config faults hclient
      simp only [Option.some.injEq, forall_eq']
      constructor
      · intro hkey
        exact Or.inr (Or.inl ⟨raw, hapi, hraw, hkey ▸ husable⟩)
      · rintro (hById | ⟨other, _, hother, hotherUsable⟩ | ⟨hunusable, _⟩)
        · exact absurd hById hnotById
        · obtain ⟨found, hfound, hfoundId⟩ :=
            clientIdKey_of_usable config faults hledger hapi hother hotherUsable
          rw [hclient, Option.some.injEq] at hfound
          rw [hfound, hfoundId]
        · exact absurd husable (hunusable raw key.keyId hapi hraw)
    | none =>
      have hunusable : ∀ raw other, data.isApiKey = true → data.clientId = some raw →
          ¬ UsableBySecret config.digests server.auth.tables faults raw other := by
        intro raw other hapi hraw husable
        obtain ⟨key, hkey, _⟩ := clientIdKey_of_usable config faults hledger hapi hraw husable
        rw [hclient] at hkey
        cases hkey
      constructor
      · intro h
        by_cases hreject : rejectsUnboundTokens config
        · exact Or.inr (Or.inr ⟨hunusable, hreject⟩)
        · have hnull := h none (by simp [hreject])
          cases hnull
      · rintro (hById | ⟨raw, hapi, hraw, husable⟩ | ⟨_, hreject⟩)
        · exact absurd hById hnotById
        · exact absurd husable (hunusable raw keyId hapi hraw)
        · simp [hreject]

/-- In every state the server reaches, requests authenticated with a token that was issued for a key run
in the scope of that key or are rejected exactly when the scope of the token is kept. -/
theorem boundToken_scope_iff (hconfig : config.accessKey ≠ "") {server : Server}
    (hreach : Reachable (McpHandler.step config) .initial server) {token : String} {data : TokenData}
    {authorization : Option String} {keyId : KeyId}
    (hvalid : (validateAccessToken server.now server.auth.oauth token).2 = some data)
    (hforeign : safeCompare config token config.accessKey = false)
    (hheader : extractBearerToken authorization = some token)
    (hbound : BoundTo config.digests server.issuedKeys data keyId) :
    (∀ request, CarriesToken config authorization faults request →
      ∀ scope, executedScope config server request = some scope → scope = some keyId) ↔
      ScopeKept config server.auth.tables faults data keyId := by
  rw [← lookups_keep_scope_iff config faults (keyLedger_reachable config hreach) hbound]
  constructor
  · intro h scope hscope
    -- An initialize request without a session id is always admitted, so it shows the scope.
    let request : McpRequest := { isInitialize := true, credentials := { authorization }, faults }
    have hexecuted : executedScope config server (.post request) = some scope := by
      have hauth := executedAs_of_carries config faults hconfig hvalid hforeign hheader
        (show request.authHeaders.authorization = authorization from rfl) (by rintro key ⟨⟩)
      rw [hscope] at hauth
      have hpost : (handleMcpPost config server request).2 = (createInitializeSession config server request).2 :=
        admitServed_initialize config rfl _
      simp only [executedScope, hpost]
      rw [← createInitializeSession_scope config server request]
      exact hauth
    exact h (.post request) ⟨rfl, by rintro key ⟨⟩, rfl⟩ scope hexecuted
  · intro h request hcarries scope hscope
    obtain ⟨headers, hlegacy, hauthorization, hexecuted⟩ := executedScope_eq_executedAs config hscope
    have hauth := executedAs_of_carries config faults hconfig hvalid hforeign hheader
      (hauthorization.trans hcarries.authorization) (by rw [hlegacy]; exact hcarries.legacyKey)
    rw [hcarries.faults, hauth] at hexecuted
    exact h scope hexecuted

/-! ## A token whose key is deactivated -/

open OAuthBinding

/-- The owner of a key binds a client and obtains an access token. -/
def aliceTokenRun : List ServerEvent :=
  [ .admin (.create aliceKey), .register ownRegistration {},
    .authorizeGet (sampleAuthorization "alice_7b1f6f0e") {} "code-1" "",
    .token sampleExchange {} "access-1" "refresh-1" ]

def aliceToken : TokenData where
  type := .access
  clientId := some "alice_7b1f6f0e"
  scope := "mcp"
  isApiKey := true
  boundKeyId := some aliceId.val
  resource := none
  createdAt := 0
  expiresAt := 2592000000

def permissiveConfig : Config := { sampleConfig with rejectNonApiKeyOAuth := false }

def deactivatedRun : List ServerEvent := aliceTokenRun ++ [.admin (.updateStatus aliceId .inactive)]

/-- While the key is active the token acts for it. -/
theorem boundToken_scope_active :
    UsableById (run (McpHandler.step sampleConfig) .initial aliceTokenRun).auth.tables {} aliceId ∧
    ∀ request, CarriesToken sampleConfig (some "Bearer access-1") {} request → ∀ scope,
      executedScope sampleConfig (run (McpHandler.step sampleConfig) .initial aliceTokenRun) request = some scope →
        scope = some aliceId := by
  have husable : UsableById (run (McpHandler.step sampleConfig) .initial aliceTokenRun).auth.tables {} aliceId :=
    ⟨rfl, aliceKey, List.mem_singleton.mpr rfl, rfl, rfl⟩
  have hvalid : (validateAccessToken (run (McpHandler.step sampleConfig) .initial aliceTokenRun).now
      (run (McpHandler.step sampleConfig) .initial aliceTokenRun).auth.oauth "access-1").2 = some aliceToken := by
    decide
  exact ⟨husable, (boundToken_scope_iff sampleConfig {} (by decide) ⟨aliceTokenRun, rfl⟩ hvalid (by decide)
    (by decide) (Or.inl rfl)).mpr (Or.inl ⟨rfl, husable⟩)⟩

/-- With the rejection switched off, the token of a deactivated key opens a session in the master scope. -/
theorem boundToken_acts_as_master :
    ¬ ∀ (config : Config) (faults : LookupFaults), config.accessKey ≠ "" → ∀ server,
      Reachable (McpHandler.step config) .initial server → ∀ token data authorization keyId,
      (validateAccessToken server.now server.auth.oauth token).2 = some data →
      safeCompare config token config.accessKey = false → extractBearerToken authorization = some token →
      BoundTo config.digests server.issuedKeys data keyId →
      ∀ request, CarriesToken config authorization faults request →
        ∀ scope, executedScope config server request = some scope → scope = some keyId := by
  intro h
  have hscope := h permissiveConfig {} (by decide) _ ⟨deactivatedRun, rfl⟩ "access-1" aliceToken
    (some "Bearer access-1") aliceId (by decide) (by decide) (by decide) (Or.inl rfl)
    (.post { isInitialize := true, credentials := { authorization := some "Bearer access-1" }, newSessionId := "s-1" })
    ⟨rfl, by rintro key ⟨⟩, rfl⟩ none (by decide)
  cases hscope

end FragmentMemory.TenantTokenScope
