import FragmentMemory.McpHandler
import FragmentMemory.OAuthBinding

/-! # The key that owns a session id

An id is owned by the key with which a session is first stored under it.  Memory, the Redis copies, the
streams and the index from tokens to sessions agree on the owner; only recovery can give the id away.
-/
namespace FragmentMemory.SessionOwnership

open ApiKeyStore Authentication KeyValueStore McpHandler OAuthServer StreamableSessions TransitionRuns

/-- The owner of every id that a session was stored under; the master scope owns as `none`. -/
abbrev Owners := String → Option (Option KeyId)

/-- The key of a session that is stored under an id. -/
def storedKey (stores : SessionStores) (sessionId : String) : Option (Option KeyId) :=
  (stores.memory sessionId).map (fun entry => entry.value.keyId) <|>
    (stores.redis sessionId).map (fun entry => entry.value.keyId) <|>
    (stores.legacy sessionId).map fun entry => entry.value.keyId

/-- Every stored session belongs to the owner of its id, and every token of the index is of the scope
that owns the session it leads to. -/
structure Recorded (owners : Owners) (stores : SessionStores) : Prop where
  memory : stores.memory.Holds fun sessionId session =>
    owners sessionId = some session.keyId ∧ session.sessionId = sessionId
  redis : stores.redis.Holds fun sessionId session =>
    owners sessionId = some session.keyId ∧ session.sessionId = sessionId
  legacy : stores.legacy.Holds fun sessionId session => owners sessionId = some session.keyId
  tokens : stores.tokenSessions.Holds fun tokenKey sessionId =>
    ∃ keyId hash, tokenKey = tokenNamespace keyId ++ ":" ++ hash ∧ owners sessionId = some keyId

/-- The owners after an id is given to a key, unless it has an owner. -/
def claim (owners : Owners) (sessionId : String) (keyId : Option KeyId) : Owners :=
  fun other => owners other <|> if other = sessionId then some keyId else none

variable {owners : Owners} {stores : SessionStores} {config : Config} {now : ℕ} {sessionId : String}
  {session : Session}

theorem Recorded.mono (h : Recorded owners stores) {more : Owners}
    (hmore : ∀ id keyId, owners id = some keyId → more id = some keyId) : Recorded more stores where
  memory id entry hentry := ⟨hmore _ _ (h.memory id entry hentry).1, (h.memory id entry hentry).2⟩
  redis id entry hentry := ⟨hmore _ _ (h.redis id entry hentry).1, (h.redis id entry hentry).2⟩
  legacy id entry hentry := hmore _ _ (h.legacy id entry hentry)
  tokens tokenKey entry hentry := by
    obtain ⟨keyId, hash, hkey, howner⟩ := h.tokens tokenKey entry hentry
    exact ⟨keyId, hash, hkey, hmore _ _ howner⟩

theorem le_claim (owners : Owners) (sessionId : String) (keyId : Option KeyId) :
    ∀ id other, owners id = some other → claim owners sessionId keyId id = some other := by
  intro id other h
  simp [claim, h]

theorem claim_self {keyId : Option KeyId} (h : owners sessionId = none ∨ owners sessionId = some keyId) :
    claim owners sessionId keyId sessionId = some keyId := by
  rcases h with h | h <;> simp [claim, h]

theorem claim_eq_some {keyId other : Option KeyId} {id : String}
    (h : claim owners sessionId keyId id = some other) :
    owners id = some other ∨ (id = sessionId ∧ other = keyId) := by
  unfold claim at h
  cases howner : owners id with
  | some existing =>
    rw [howner] at h
    exact Or.inl h
  | none =>
    rw [howner] at h
    by_cases hid : id = sessionId
    · rw [if_pos hid] at h
      exact Or.inr ⟨hid, (Option.some.inj h).symm⟩
    · simp [hid] at h

/-! ## One session at a time -/

/-- A session is put into memory under its id, together with its copy. -/
theorem Recorded.kept (h : Recorded owners stores) (hid : session.sessionId = sessionId)
    (howner : owners sessionId = some session.keyId) (ttlSeconds : ℕ) :
    Recorded owners (saveSessionToRedis config now
      { stores with memory := stores.memory.put sessionId session none } session ttlSeconds) := by
  subst hid
  have hmemory := h.memory.put none ⟨howner, rfl⟩
  unfold saveSessionToRedis
  split
  · exact ⟨hmemory, h.redis.put _ ⟨howner, rfl⟩, h.legacy, h.tokens⟩
  · exact ⟨hmemory, h.redis, h.legacy, h.tokens⟩

theorem Recorded.created (h : Recorded owners stores) (authenticated : Bool) {context : SessionContext}
    (howner : owners sessionId = some context.keyId) (version : Option String) :
    Recorded owners (createStreamableSessionWithId config now stores sessionId authenticated context version) := by
  simp only [createStreamableSessionWithId]
  exact h.kept (by rfl) (by exact howner) _

theorem Recorded.closed (h : Recorded owners stores) (sessionId : String) :
    Recorded owners (closeSession config stores sessionId) := by
  refine ⟨h.memory.delete sessionId, ?_, h.legacy, h.tokens⟩
  simp only [closeSession]
  split
  · exact h.redis.delete sessionId
  · exact h.redis

theorem Recorded.closedStreamable (h : Recorded owners stores) (sessionId : String) :
    Recorded owners (closeStreamableSession config now stores sessionId) := by
  unfold closeStreamableSession
  split
  · exact h
  · exact h.closed sessionId

theorem Recorded.lookedUp (h : Recorded owners stores) (sessionId : String) (version : Option String) :
    Recorded owners (lookupSession config now stores sessionId version).1 ∧
      ∀ session, (lookupSession config now stores sessionId version).2 = some session →
        owners sessionId = some session.keyId ∧ session.sessionId = sessionId := by
  unfold lookupSession
  split
  · rename_i found hfound
    refine ⟨h, ?_⟩
    rintro session ⟨⟩
    exact h.memory.of_get hfound
  split
  · exact ⟨h, by rintro session ⟨⟩⟩
  · rename_i copy hcopy
    have howner : owners sessionId = some copy.keyId := by
      unfold getSessionFromRedis at hcopy
      split at hcopy
      · exact (h.redis.of_get hcopy).1
      · cases hcopy
    simp only
    constructor
    · exact h.kept (by rfl) (by exact howner) _
    · rintro session ⟨⟩
      exact ⟨howner, rfl⟩

theorem Recorded.validated (h : Recorded owners stores) (sessionId : String)
    (version : Option String) :
    Recorded owners (validateStreamableSession config now stores sessionId version).1 ∧
      ∀ session, (validateStreamableSession config now stores sessionId version).2 = .ok session →
        owners sessionId = some session.keyId ∧ session.sessionId = sessionId := by
  obtain ⟨hstores, hfound⟩ : Recorded owners (lookupSession config now stores sessionId version).1 ∧ _ :=
    h.lookedUp sessionId version
  unfold validateStreamableSession
  split
  · rename_i heq
    rw [heq] at hstores
    exact ⟨hstores, by rintro session ⟨⟩⟩
  · rename_i looked session heq
    rw [heq] at hstores hfound
    obtain ⟨howner, rfl⟩ := hfound session rfl
    split
    · exact ⟨hstores.closedStreamable _, by rintro session ⟨⟩⟩
    · simp only
      constructor
      · exact hstores.kept (by rfl) (by exact howner) _
      · rintro other ⟨⟩
        exact ⟨howner, rfl⟩

theorem Recorded.validatedLegacy (h : Recorded owners stores) (sessionId : String) :
    Recorded owners (validateLegacySseSession config now stores sessionId).1 ∧
      ∀ session, (validateLegacySseSession config now stores sessionId).2 = .ok session →
        owners sessionId = some session.keyId := by
  unfold validateLegacySseSession
  split
  · exact ⟨h, by rintro session ⟨⟩⟩
  rename_i session hsession
  have howner := h.legacy.of_get hsession
  split
  · exact ⟨⟨h.memory, h.redis, h.legacy.delete _, h.tokens⟩, by rintro session ⟨⟩⟩
  · constructor
    · exact ⟨h.memory, h.redis, h.legacy.put _ (by exact howner), h.tokens⟩
    · rintro other ⟨⟩
      exact howner

theorem Recorded.cleaned (h : Recorded owners stores) (sessionIds : List String) :
    Recorded owners (sessionIds.foldl (cleanupSession config now) stores) := by
  induction sessionIds generalizing stores with
  | nil => exact h
  | cons sessionId sessionIds ih =>
    refine ih ?_
    unfold cleanupSession
    split
    · exact h
    split
    · exact h.closedStreamable sessionId
    · exact h

theorem Recorded.bound (h : Recorded owners stores) {keyId : Option KeyId}
    (howner : owners sessionId = some keyId) (hash : String) (ttlSeconds : ℕ) :
    Recorded owners (bindTokenToSession config now stores (tokenNamespace keyId ++ ":" ++ hash) sessionId ttlSeconds) := by
  unfold bindTokenToSession
  split
  · exact ⟨h.memory, h.redis, h.legacy, h.tokens.put _ ⟨keyId, hash, rfl, howner⟩⟩
  · exact h

/-! ## Token keys -/

/-- A token key names the scope it was derived in. -/
theorem tokenNamespace_injective {a b : Option KeyId} {hash other : String}
    (h : tokenNamespace a ++ ":" ++ hash = tokenNamespace b ++ ":" ++ other) : a = b := by
  have hlist := congrArg String.toList h
  simp only [String.toList_append, List.append_assoc] at hlist
  have hlength : ∀ id : KeyId, id.val.toList.length = 36 := by
    intro id
    have huuid := id.property
    simp only [isUuid, Bool.and_eq_true, decide_eq_true_eq] at huuid
    exact huuid.1
  -- An id starts with a hexadecimal digit or a dash, never with the letter m.
  have hmaster : ∀ (id : KeyId) (rest rest' : List Char), id.val.toList ++ rest ≠ "master".toList ++ rest' := by
    intro id rest rest' heq
    have huuid := id.property
    simp only [isUuid, Bool.and_eq_true, decide_eq_true_eq] at huuid
    cases hchars : id.val.toList with
    | nil => simp [hchars] at huuid
    | cons c chars =>
      rw [hchars] at huuid heq
      have hc : c = 'm' := by
        have := congrArg List.head? heq
        simpa using this
      subst hc
      simp at huuid
  cases a with
  | none =>
    cases b with
    | none => rfl
    | some id => exact absurd hlist.symm (hmaster id _ _)
  | some id =>
    cases b with
    | none => exact absurd hlist (hmaster id _ _)
    | some id' =>
      have hids := List.append_inj_left hlist ((hlength id).trans (hlength id').symm)
      exact congrArg some (Subtype.ext (String.toList_injective hids))

/-! ## Owners along a run -/

/-- The owners after a step: they keep their ids, and new sessions belong to whoever they name. -/
structure Handed (owners : Owners) (next : SessionStores) (more : Owners) : Prop where
  recorded : Recorded more next
  keeps : ∀ id keyId, owners id = some keyId → more id = some keyId
  stored : ∀ id keyId, more id = some keyId → owners id = some keyId ∨ storedKey next id = some keyId

theorem Recorded.handed (h : Recorded owners stores) : Handed owners stores owners :=
  ⟨h, fun _ _ howner => howner, fun _ _ howner => Or.inl howner⟩

theorem Recorded.handedTo {keyId : Option KeyId} (h : Recorded (claim owners sessionId keyId) stores)
    (hstored : storedKey stores sessionId = some keyId) :
    Handed owners stores (claim owners sessionId keyId) := by
  refine ⟨h, le_claim owners sessionId keyId, ?_⟩
  intro id other hother
  rcases claim_eq_some hother with howner | ⟨rfl, rfl⟩
  · exact Or.inl howner
  · exact Or.inr hstored

/-- The audited owners record every stored session again. -/
theorem Handed.audited {more : Owners} (h : Handed owners stores more) :
    Recorded (fun id => owners id <|> storedKey stores id) stores ∧
      ∀ id keyId, more id = some keyId → (owners id <|> storedKey stores id) = some keyId := by
  have hmore : ∀ id keyId, more id = some keyId → (owners id <|> storedKey stores id) = some keyId := by
    intro id keyId hid
    cases howner : owners id with
    | some existing =>
      have := h.keeps id existing howner
      rw [hid] at this
      exact this.symm
    | none =>
      rcases h.stored id keyId hid with hold | hnew
      · rw [howner] at hold
        cases hold
      · exact hnew
  exact ⟨h.recorded.mono hmore, hmore⟩

theorem saveSessionToRedis_memory (stores : SessionStores) (session : Session) (ttlSeconds : ℕ) :
    (saveSessionToRedis config now stores session ttlSeconds).memory = stores.memory := by
  unfold saveSessionToRedis
  split <;> rfl

theorem storedKey_of_memory {entry : Entry Session} (h : stores.memory sessionId = some entry) :
    storedKey stores sessionId = some entry.value.keyId := by
  simp [storedKey, h]

theorem storedKey_created (stores : SessionStores) (sessionId : String) (authenticated : Bool)
    (context : SessionContext) (version : Option String) :
    storedKey (createStreamableSessionWithId config now stores sessionId authenticated context version) sessionId =
      some context.keyId := by
  simp only [createStreamableSessionWithId, storedKey, saveSessionToRedis_memory, Store.put, if_true]
  rfl

/-- What is left of an id when `validateStreamableSession` refuses it: no session in memory and no copy,
or a session in memory whose lifetime has passed. -/
def SessionLost (config : Config) (now : ℕ) (stores : SessionStores) (sessionId : String) : Prop :=
  match stores.memory.get now sessionId with
  | none => getSessionFromRedis config now stores sessionId = none
  | some session => session.expiresAt < now

theorem sessionLost_of_error {version : Option String} {next : SessionStores} {reason : String}
    (h : validateStreamableSession config now stores sessionId version = (next, .error reason)) :
    SessionLost config now stores sessionId := by
  unfold validateStreamableSession lookupSession at h
  unfold SessionLost
  cases hmemory : stores.memory.get now sessionId with
  | some session =>
    simp only [hmemory] at h
    split at h
    · rename_i hexpired
      exact hexpired
    · simp at h
  | none =>
    simp only [hmemory] at h
    cases hcopy : getSessionFromRedis config now stores sessionId with
    | none => rfl
    | some copy =>
      simp only [hcopy] at h
      split at h
      · omega
      · simp at h

variable {server : Server}

theorem anchorVersion_recorded (h : Recorded owners server.sessions) (request : McpRequest) (sessionId : String) :
    Recorded owners (anchorVersion config server request sessionId).sessions := by
  unfold anchorVersion
  simp only
  split
  · rename_i session _ hsession
    obtain ⟨howner, hid⟩ := h.memory.of_get hsession
    split
    · exact h.kept (by rfl) (by exact howner) _
    · exact ⟨h.memory.put _ ⟨howner, rfl⟩, h.redis, h.legacy, h.tokens⟩
  · exact h

theorem anchorVersion_storedKey (server : Server) (request : McpRequest) (sessionId id : String) :
    storedKey (anchorVersion config server request sessionId).sessions id = storedKey server.sessions id := by
  unfold anchorVersion
  simp only
  split
  · rename_i session _ hsession
    obtain ⟨entry, hentry, _, rfl⟩ := Store.get_eq_some_iff.mp hsession
    by_cases hid : id = sessionId
    · subst hid
      rw [storedKey_of_memory hentry]
      split
      · simp [updateSession, storedKey, saveSessionToRedis_memory, Store.put]
      · simp [storedKey, Store.put]
    · split
      · simp only [updateSession, saveSessionToRedis]
        split <;> simp [storedKey, Store.put, hid]
      · simp [storedKey, Store.put, hid]
  · rfl

/-- A resolution hands the id on, and what it serves it serves as the owner. -/
structure Resolved (owners : Owners) (result : Server × Outcome) : Prop where
  handed : ∃ more, Handed owners result.1.sessions more ∧
    ∀ id context source, result.2 = .served id context source → more id = some context.keyId

theorem Resolved.admitted {result : Server × Outcome} (h : Resolved owners result) (request : McpRequest) :
    Resolved owners (admitServed config request result) := by
  obtain ⟨server, outcome⟩ := result
  obtain ⟨more, hhanded, hserved⟩ := h.handed
  cases outcome with
  | rejected status message => exact h
  | served id context source =>
    simp only [admitServed]
    split
    · exact ⟨more, hhanded, by rintro _ _ _ ⟨⟩⟩
    split
    · exact ⟨more, hhanded, by rintro _ _ _ ⟨⟩⟩
    · refine ⟨more, ⟨anchorVersion_recorded hhanded.recorded request id, hhanded.keeps, ?_⟩, ?_⟩
      · intro other keyId hother
        rw [anchorVersion_storedKey]
        exact hhanded.stored other keyId hother
      · rintro _ _ _ ⟨⟩
        exact hserved id context source rfl

theorem recoverSession_resolved (h : Recorded owners server.sessions) (request : McpRequest) (sessionId : String)
    (howner : ∀ keyId, (validateAuthentication config request.faults server.now server.auth
      request.authHeaders).2.executedAs = some keyId → owners sessionId = none ∨ owners sessionId = some keyId) :
    Resolved owners (recoverSession config server request sessionId) := by
  unfold recoverSession
  simp only
  cases hauth : (validateAuthentication config request.faults server.now server.auth request.authHeaders).2 with
  | denied error => exact ⟨owners, h.handed, by rintro _ _ _ ⟨⟩⟩
  | accepted identity =>
    have hkey := howner identity.keyId (by rw [hauth]; rfl)
    simp only
    split
    · exact ⟨owners, h.handed, by rintro _ _ _ ⟨⟩⟩
    · have hclaim : claim owners sessionId identity.keyId sessionId = some identity.keyId := claim_self hkey
      refine ⟨claim owners sessionId identity.keyId, ?_, ?_⟩
      · exact ((h.mono (le_claim owners sessionId identity.keyId)).created true (by exact hclaim) _).handedTo
          (storedKey_created _ _ _ _ _)
      · rintro _ _ _ ⟨⟩
        exact hclaim

theorem authenticateSession_resolved (h : Recorded owners server.sessions) (request : McpRequest)
    {context : SessionContext} (howner : owners session.sessionId = some session.keyId)
    (hcontext : context.keyId = session.keyId) :
    Resolved owners (authenticateSession config server request session context) := by
  unfold authenticateSession
  split
  · refine ⟨owners, h.handed, ?_⟩
    rintro _ _ _ ⟨⟩
    rw [hcontext]
    exact howner
  simp only
  split
  · exact ⟨owners, h.handed, by rintro _ _ _ ⟨⟩⟩
  · refine ⟨owners, Recorded.handed ⟨h.memory.put _ ⟨by exact howner, rfl⟩, h.redis, h.legacy, h.tokens⟩, ?_⟩
    rintro _ _ _ ⟨⟩
    rw [hcontext]
    exact howner

theorem refetchGroups_recorded (h : Recorded owners server.sessions)
    (howner : owners session.sessionId = some session.keyId) :
    Recorded owners (refetchGroups config server session).1 ∧
      (refetchGroups config server session).2.keyId = session.keyId := by
  unfold refetchGroups
  split
  · exact ⟨h, rfl⟩
  split
  · exact ⟨h.kept (by rfl) (by exact howner) _, rfl⟩
  · exact ⟨h, rfl⟩

theorem resolveExistingSession_resolved (h : Recorded owners server.sessions) (request : McpRequest)
    (sessionId : String)
    (howner : SessionLost config server.now server.sessions sessionId → ∀ keyId,
      (validateAuthentication config request.faults server.now server.auth request.authHeaders).2.executedAs =
        some keyId → owners sessionId = none ∨ owners sessionId = some keyId) :
    Resolved owners (resolveExistingSession config server request sessionId) := by
  obtain ⟨hstores, hvalid⟩ : Recorded owners
      (validateStreamableSession config server.now server.sessions sessionId (request.reanchorVersion config)).1 ∧ _ :=
    h.validated sessionId (request.reanchorVersion config)
  unfold resolveExistingSession
  split
  · rename_i sessions reason heq
    rw [heq] at hstores
    have hrecovered : Resolved owners (recoverSession config { server with sessions } request sessionId) :=
      recoverSession_resolved hstores request sessionId (howner (sessionLost_of_error heq))
    exact hrecovered
  · rename_i sessions session heq
    rw [heq] at hstores hvalid
    obtain ⟨hsession, rfl⟩ := hvalid session rfl
    obtain ⟨hgroups, hcontext⟩ : Recorded owners (refetchGroups config { server with sessions } session).1 ∧ _ :=
      refetchGroups_recorded hstores hsession
    exact authenticateSession_resolved hgroups request hsession hcontext

theorem reusableSession_recorded (h : Recorded owners server.sessions) (request : McpRequest) (identity : Identity) :
    Recorded owners (reusableSession config server request identity).1 ∧
      ∀ existing, (reusableSession config server request identity).2 = some existing →
        owners existing = some identity.keyId := by
  unfold reusableSession
  split
  · exact ⟨h, by rintro _ ⟨⟩⟩
  rename_i existing hexisting
  have howner : owners existing = some identity.keyId := by
    obtain ⟨tokenKey, htokenKey, hsession⟩ := Option.bind_eq_some_iff.mp hexisting
    unfold getSessionIdByToken at hsession
    split at hsession
    · obtain ⟨keyId, hash, hkey, howner⟩ := h.tokens.of_get (JsString.truthy_eq_some hsession)
      obtain ⟨raw, _, hderived⟩ := Option.map_eq_some_iff.mp htokenKey
      rw [tokenNamespace_injective (hderived.trans hkey)]
      exact howner
    · cases hsession
  obtain ⟨hstores, _⟩ : Recorded owners
      (validateStreamableSession config server.now server.sessions existing none).1 ∧ _ := h.validated existing none
  split
  · rename_i heq
    rw [heq] at hstores
    exact ⟨hstores, by rintro _ ⟨⟩; exact howner⟩
  · rename_i heq
    rw [heq] at hstores
    exact ⟨hstores, by rintro _ ⟨⟩⟩

theorem createInitializeSession_resolved (h : Recorded owners server.sessions) (request : McpRequest)
    (hfresh : owners request.newSessionId = none) :
    Resolved owners (createInitializeSession config server request) := by
  unfold createInitializeSession
  simp only
  cases (validateAuthentication config request.faults server.now server.auth request.authHeaders).2 with
  | denied error => exact ⟨owners, h.handed, by rintro _ _ _ ⟨⟩⟩
  | accepted identity =>
    simp only
    have hreuse : ∀ next : Server, next.sessions = server.sessions →
        Recorded owners (reusableSession config next request identity).1 ∧
          ∀ existing, (reusableSession config next request identity).2 = some existing →
            owners existing = some identity.keyId :=
      fun next hnext => reusableSession_recorded (hnext ▸ h) request identity
    obtain ⟨hsessions, hexisting⟩ := hreuse { server with auth := (validateAuthentication config request.faults
      server.now server.auth request.authHeaders).1 } rfl
    generalize reusableSession config _ request identity = reused at hsessions hexisting ⊢
    obtain ⟨sessions, existing⟩ := reused
    cases existing with
    | some existing =>
      refine ⟨owners, hsessions.handed, ?_⟩
      rintro _ _ _ ⟨⟩
      exact hexisting existing rfl
    | none =>
      have hclaim : claim owners request.newSessionId identity.keyId request.newSessionId = some identity.keyId :=
        claim_self (Or.inl hfresh)
      have hcreated : Recorded (claim owners request.newSessionId identity.keyId)
          (createStreamableSessionWithId config server.now sessions request.newSessionId true
            (identityContext config request identity) none) :=
        (hsessions.mono (le_claim owners request.newSessionId identity.keyId)).created true (by exact hclaim) none
      have hstored : storedKey (createStreamableSessionWithId config server.now sessions request.newSessionId true
          (identityContext config request identity) none) request.newSessionId = some identity.keyId :=
        storedKey_created _ _ _ _ _
      refine ⟨claim owners request.newSessionId identity.keyId, ?_, ?_⟩
      · cases hkey : deriveTokenKey config request identity with
        | none => exact hcreated.handedTo hstored
        | some tokenKey =>
          obtain ⟨raw, _, rfl⟩ := Option.map_eq_some_iff.mp hkey
          refine (hcreated.bound hclaim _ _).handedTo ?_
          unfold bindTokenToSession
          split <;> exact hstored
      · rintro _ _ _ ⟨⟩
        exact hclaim

theorem handleMcpPost_resolved (h : Recorded owners server.sessions) (request : McpRequest)
    (hexisting : ∀ sessionId, JsString.truthy request.sessionId = some sessionId →
      SessionLost config server.now server.sessions sessionId → ∀ keyId,
        (validateAuthentication config request.faults server.now server.auth request.authHeaders).2.executedAs =
          some keyId → owners sessionId = none ∨ owners sessionId = some keyId)
    (hfresh : JsString.truthy request.sessionId = none → owners request.newSessionId = none) :
    Resolved owners (handleMcpPost config server request) := by
  unfold handleMcpPost
  split
  · rename_i sessionId hid
    exact (resolveExistingSession_resolved h request sessionId (hexisting sessionId hid)).admitted request
  rename_i hid
  split
  · exact ⟨owners, h.handed, by rintro _ _ _ ⟨⟩⟩
  split
  · exact ⟨owners, h.handed, by rintro _ _ _ ⟨⟩⟩
  · exact (createInitializeSession_resolved h request (hfresh hid)).admitted request

theorem handleMcpDelete_recorded (h : Recorded owners server.sessions) (credentials : CredentialHeaders)
    (faults : LookupFaults) (sessionId : String) :
    Recorded owners (handleMcpDelete config server credentials faults sessionId).1.sessions := by
  have hstores : Recorded owners
      (validateStreamableSession config server.now server.sessions sessionId none).1 := (h.validated sessionId none).1
  unfold handleMcpDelete
  split
  · rename_i heq
    rw [heq] at hstores
    exact hstores
  · rename_i heq
    rw [heq] at hstores
    simp only
    split
    · exact hstores
    split
    · exact hstores
    · exact hstores.closedStreamable sessionId

theorem connect_handed (h : Recorded owners stores) (hfresh : owners sessionId = none) (session : LegacySession) :
    ∃ more, Handed owners { stores with legacy := stores.legacy.put sessionId session none } more := by
  have hclaim : claim owners sessionId session.keyId sessionId = some session.keyId := claim_self (Or.inl hfresh)
  have hmono := h.mono (le_claim owners sessionId session.keyId)
  refine ⟨claim owners sessionId session.keyId,
    Recorded.handedTo ⟨hmono.memory, hmono.redis, hmono.legacy.put none hclaim, hmono.tokens⟩ ?_⟩
  -- An id without an owner has no session in memory and no copy.
  have hmemory : stores.memory sessionId = none := by
    cases hentry : stores.memory sessionId with
    | none => rfl
    | some entry => rw [(h.memory sessionId entry hentry).1] at hfresh; cases hfresh
  have hredis : stores.redis sessionId = none := by
    cases hentry : stores.redis sessionId with
    | none => rfl
    | some entry => rw [(h.redis sessionId entry hentry).1] at hfresh; cases hfresh
  simp [storedKey, hmemory, hredis, Store.put]

theorem handleLegacySseGet_handed (h : Recorded owners server.sessions) (credentials : CredentialHeaders)
    (faults : LookupFaults) (queryAccessKey : Option String) {newSessionId : String}
    (hfresh : owners newSessionId = none) :
    ∃ more, Handed owners
      (handleLegacySseGet config server credentials faults queryAccessKey newSessionId).1.sessions more := by
  unfold handleLegacySseGet
  simp only
  split
  · exact connect_handed h hfresh _
  split
  · exact connect_handed h hfresh _
  split
  · exact ⟨owners, h.handed⟩
  split
  · exact connect_handed h hfresh _
  · exact ⟨owners, h.handed⟩

theorem handleLegacySsePost_resolved (h : Recorded owners server.sessions) (sessionId : String) :
    Resolved owners (handleLegacySsePost config server sessionId) := by
  obtain ⟨hstores, hvalid⟩ : Recorded owners
      (validateLegacySseSession config server.now server.sessions sessionId).1 ∧ _ := h.validatedLegacy sessionId
  unfold handleLegacySsePost
  split
  · rename_i heq
    rw [heq] at hstores
    exact ⟨owners, hstores.handed, by rintro _ _ _ ⟨⟩⟩
  · rename_i sessions session heq
    rw [heq] at hstores hvalid
    have howner := hvalid session rfl
    simp only
    split
    · exact ⟨owners, hstores.handed, by rintro _ _ _ ⟨⟩⟩
    · refine ⟨owners, Recorded.handed ⟨hstores.memory, hstores.redis, hstores.legacy.put none (by exact howner),
        hstores.tokens⟩, ?_⟩
      rintro _ _ _ ⟨⟩
      exact howner

theorem rotateSession_handed (h : Recorded owners stores) {oldSessionId newSessionId : String}
    (hfresh : owners newSessionId = none) :
    ∃ more, Handed owners (rotateSession config now stores oldSessionId newSessionId).1 more := by
  unfold rotateSession
  simp only
  split
  · exact ⟨owners, h.handed⟩
  rename_i session hexisting
  split
  · exact ⟨owners, (h.closedStreamable oldSessionId).handed⟩
  have hold : owners oldSessionId = some session.keyId := by
    split at hexisting
    · rename_i found hfound
      rw [← Option.some.inj hexisting]
      exact (h.memory.of_get hfound).1
    · unfold getSessionFromRedis at hexisting
      split at hexisting
      · exact (h.redis.of_get hexisting).1
      · cases hexisting
  have hne : newSessionId ≠ oldSessionId := by
    rintro rfl
    rw [hold] at hfresh
    cases hfresh
  have hclaim : claim owners newSessionId session.keyId newSessionId = some session.keyId := claim_self (Or.inl hfresh)
  have hcreated : Recorded (claim owners newSessionId session.keyId)
      (createStreamableSessionWithId config now stores newSessionId session.authenticated session.context none) :=
    (h.mono (le_claim owners newSessionId session.keyId)).created _ (by exact hclaim) _
  refine ⟨_, (hcreated.closed oldSessionId).handedTo ?_⟩
  simp only [closeSession, createStreamableSessionWithId, storedKey, saveSessionToRedis_memory, Store.delete,
    if_neg hne, Store.put, if_true]
  rfl

/-! ## Runs -/

/-- A server with the owners of its session ids. -/
structure Audited where
  server : Server
  owners : Owners

def Audited.initial : Audited := ⟨.initial, fun _ => none⟩

/-- The first session that is stored under an id fixes its owner. -/
def auditedStep (config : Config) (audited : Audited) (event : ServerEvent) : Audited :=
  let next := McpHandler.step config audited.server event
  ⟨next, fun id => audited.owners id <|> storedKey next.sessions id⟩

/-- A request that finds no session left for its id shows a credential of the owner, and the session ids
that the server draws at random are new. -/
def RecoversAsOwner (config : Config) (audited : Audited) (event : ServerEvent) : Prop :=
  match event with
  | .post request =>
    (∀ sessionId, JsString.truthy request.sessionId = some sessionId →
      SessionLost config audited.server.now audited.server.sessions sessionId → ∀ keyId,
        (validateAuthentication config request.faults audited.server.now audited.server.auth
          request.authHeaders).2.executedAs = some keyId →
        audited.owners sessionId = none ∨ audited.owners sessionId = some keyId) ∧
    (JsString.truthy request.sessionId = none → audited.owners request.newSessionId = none)
  | .sse _ _ _ newSessionId => audited.owners newSessionId = none
  | .rotate _ newSessionId => audited.owners newSessionId = none
  | _ => True

/-- A request served on an id is executed in the scope of the owner of the id. -/
def ServesOwner (config : Config) (audited : Audited) (event : ServerEvent) : Prop :=
  ∀ id keyId, (serverStep config audited.server event).2.bind Outcome.scope = some (id, keyId) →
    (auditedStep config audited event).owners id = some keyId

theorem serverStep_resolved {event : ServerEvent} (h : Recorded owners server.sessions)
    (hcondition : RecoversAsOwner config ⟨server, owners⟩ event) :
    ∃ more, Handed owners (serverStep config server event).1.sessions more ∧
      ∀ id context source, (serverStep config server event).2 = some (.served id context source) →
        more id = some context.keyId := by
  have hquiet : ∀ {next : SessionStores}, (∃ more, Handed owners next more) →
      ∃ more, Handed owners next more ∧ ∀ id (context : SessionContext) source,
        (none : Option Outcome) = some (.served id context source) → more id = some context.keyId := by
    rintro next ⟨more, hmore⟩
    exact ⟨more, hmore, by rintro _ _ _ ⟨⟩⟩
  have hanswer : ∀ {result : Server × Outcome}, Resolved owners result →
      ∃ more, Handed owners result.1.sessions more ∧ ∀ id context source,
        some result.2 = some (.served id context source) → more id = some context.keyId := by
    rintro result ⟨more, hmore, hserved⟩
    exact ⟨more, hmore, fun id context source heq => hserved id context source (Option.some.inj heq)⟩
  cases event with
  | post request => exact hanswer (handleMcpPost_resolved h request hcondition.1 hcondition.2)
  | message sessionId => exact hanswer (handleLegacySsePost_resolved h sessionId)
  | get sessionId => exact hquiet ⟨owners, (h.validated sessionId none).1.handed⟩
  | delete credentials faults sessionId =>
    exact hquiet ⟨owners, (handleMcpDelete_recorded h credentials faults sessionId).handed⟩
  | sse credentials faults queryAccessKey newSessionId =>
    exact hquiet (handleLegacySseGet_handed h credentials faults queryAccessKey hcondition)
  | rotate oldSessionId newSessionId => exact hquiet (rotateSession_handed h hcondition)
  | cleanup sessionIds => exact hquiet ⟨owners, (h.cleaned sessionIds).handed⟩
  | restart =>
    exact hquiet ⟨owners, Recorded.handed ⟨Store.holds_empty, h.redis, Store.holds_empty, h.tokens⟩⟩
  | redisLoses sessions tokens tokenSessions =>
    exact hquiet ⟨owners, Recorded.handed ⟨h.memory, h.redis.drop sessions, h.legacy, h.tokens.drop tokenSessions⟩⟩
  | admin action =>
    have hsame : (server.admin action).sessions = server.sessions := by
      cases action with
      | create key => simp only [Server.admin]; split <;> rfl
      | _ => rfl
    exact hquiet ⟨owners, Recorded.handed (hsame ▸ h)⟩
  | _ => exact hquiet ⟨owners, h.handed⟩

theorem auditedStep_keeps {audited : Audited} {event : ServerEvent}
    (h : Recorded audited.owners audited.server.sessions) (hcondition : RecoversAsOwner config audited event) :
    Recorded (auditedStep config audited event).owners (auditedStep config audited event).server.sessions ∧
      ServesOwner config audited event := by
  obtain ⟨more, hhanded, hserved⟩ := serverStep_resolved h hcondition
  obtain ⟨hrecorded, hmore⟩ := hhanded.audited
  refine ⟨hrecorded, ?_⟩
  intro id keyId hscope
  obtain ⟨outcome, houtcome, hscope⟩ := Option.bind_eq_some_iff.mp hscope
  cases outcome with
  | rejected status message => cases hscope
  | served other context source =>
    cases hscope
    exact hmore _ _ (hserved _ context source houtcome)

/-- In a run in which lost ids are recovered with their own keys only, every request is executed in the
scope of the key with which its session id was first created. -/
theorem requests_served_by_owner (config : Config) (events : List ServerEvent)
    (hrecovers : StepsMeet (auditedStep config) (RecoversAsOwner config) .initial events) :
    StepsMeet (auditedStep config) (ServesOwner config) .initial events :=
  stepsMeet_of_invariant (I := fun audited : Audited => Recorded audited.owners audited.server.sessions)
    (fun _ _ hrecorded hcondition => auditedStep_keeps hrecorded hcondition)
    ⟨Store.holds_empty, Store.holds_empty, Store.holds_empty, Store.holds_empty⟩ hrecovers

/-! ## A session that outlives its lifetime -/

open OAuthBinding

def bobId : KeyId := ⟨"c0a80001-93d1-4b52-8f7e-2d1f6a5b4c3d", by decide⟩

def bobKey : ApiKey :=
  { aliceKey with id := bobId, name := "bob", keyHash := sampleDigests.hex "wdm_bob_ffeeddccbbaa99887766554433221100" }

def bearer (rawKey : String) : CredentialHeaders := { authorization := some ("Bearer " ++ rawKey) }

/-- One key opens a session; after its lifetime a request with a credential comes for the same id. -/
def expiryRun (returning : CredentialHeaders) : List ServerEvent :=
  [ .admin (.create aliceKey), .admin (.create bobKey),
    .post { isInitialize := true, newSessionId := "s-1",
            credentials := bearer "wdm_alice_00112233445566778899aabbccddeeff" },
    .advance (sampleConfig.sessionTtlMs + 1),
    .post { sessionId := some "s-1", credentials := returning } ]

/-- The owner of an expired session recovers its id. -/
theorem requests_served_by_owner_recovery :
    StepsMeet (auditedStep sampleConfig) (RecoversAsOwner sampleConfig) .initial
      (expiryRun (bearer "wdm_alice_00112233445566778899aabbccddeeff")) ∧
    StepsMeet (auditedStep sampleConfig) (ServesOwner sampleConfig) .initial
      (expiryRun (bearer "wdm_alice_00112233445566778899aabbccddeeff")) := by
  have hrecovers : StepsMeet (auditedStep sampleConfig) (RecoversAsOwner sampleConfig) .initial
      (expiryRun (bearer "wdm_alice_00112233445566778899aabbccddeeff")) := by
    refine ⟨trivial, trivial, ⟨by rintro _ ⟨⟩, fun _ => by decide⟩, trivial, ⟨?_, by rintro ⟨⟩⟩, trivial⟩
    rintro sessionId ⟨⟩ _ keyId hkey
    right
    rw [← hkey]
    decide
  exact ⟨hrecovers, requests_served_by_owner sampleConfig _ hrecovers⟩

/-- The id of an expired session is handed to the first other key that asks for it. -/
theorem expired_session_changes_owner :
    ¬ ∀ (config : Config) (events : List ServerEvent),
      StepsMeet (auditedStep config) (ServesOwner config) .initial events := by
  intro h
  obtain ⟨_, _, _, _, hserves, _⟩ :=
    h sampleConfig (expiryRun (bearer "wdm_bob_ffeeddccbbaa99887766554433221100"))
  have howner := hserves "s-1" (some bobId) (by decide)
  revert howner
  decide

end FragmentMemory.SessionOwnership
