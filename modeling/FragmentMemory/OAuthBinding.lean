import FragmentMemory.OAuthServer
import FragmentMemory.TransitionRuns

/-! # Who can obtain a token that is bound to an API key

The authorization endpoint trusts the marker `apikey:<id>` in the name of a registered client.  The
name is set by `/register` for a caller who shows the key, but also copied from the request body of a
caller who does not and from the client id that `GET /authorize` registers on its own.
-/
namespace FragmentMemory.OAuthBinding

open ApiKeyStore JsString KeyValueStore OAuthServer TransitionRuns

inductive Request
  | register (request : RegisterRequest)
  | authorizeGet (params : AuthorizeParams) (code randomId : String)
  | authorizePost (params : AuthorizeParams) (decision : Option String) (code : String)
  | token (params : TokenParams) (accessToken refreshToken : String)
  | bearer (token : String)
  | cleanup
  | evict (lostCodes : String → CodeData → Bool) (lostTokens : String → TokenData → Bool)

/-- A request with the time and the key tables it meets; both may change freely between requests. -/
structure Event where
  now : ℕ
  tables : KeyTables
  faults : LookupFaults := {}
  request : Request

def step (config : Config) (state : OAuthState) (event : Event) : OAuthState :=
  match event.request with
  | .register request => (handleOAuthRegister config event.tables event.faults state request).1
  | .authorizeGet params code randomId =>
      (handleOAuthAuthorizeGet config event.tables event.faults event.now state params code randomId).1
  | .authorizePost params decision code =>
      (handleOAuthAuthorizePost config event.tables event.faults event.now state params decision code).1
  | .token params accessToken refreshToken =>
      (handleToken config event.tables event.faults event.now state params accessToken refreshToken).1
  | .bearer token =>
      extendOAuthToken config event.now (validateAccessToken event.now state token).1 token
  | .cleanup => cleanupExpiredOAuthData config event.now state
  | .evict lostCodes lostTokens =>
      { state with authCodes := state.authCodes.drop lostCodes, accessTokens := state.accessTokens.drop lostTokens }

/-- The string that a request shows as an API key. -/
def Request.shownSecret : Request → Option String
  | .register request => request.bearer
  | .authorizeGet params _ _ => params.clientId
  | .authorizePost params _ _ => params.clientId
  | .token params _ _ => params.clientSecret
  | _ => none

def PresentsSecret (config : Config) (keyId : KeyId) (_ : OAuthState) (event : Event) : Prop :=
  ∃ raw, event.request.shownSecret = some raw ∧ IsSecretOf config.digests event.tables raw keyId

/-- `GET /authorize` registers the client id of the request on its own. -/
def autoRegisters (config : Config) (state : OAuthState) (params : AuthorizeParams) : Bool :=
  !isAccessKey config params.clientId && (getClient state params.clientId).isNone &&
    (truthy params.redirectUri).isSome &&
    (isAllowedRedirectUri config (truthy params.redirectUri) || config.allowAutoDcrRegister)

/-- The client name that a request registers without having shown an API key. -/
def unprovedClientName (config : Config) (state : OAuthState) (event : Event) : Option String :=
  match event.request with
  | .register request =>
      match request.bearer.bind fun token => keyFromSecret? config.digests event.tables event.faults (some token) with
      | some _ => none
      | none => if request.redirectUris.isEmpty then none else request.clientName
  | .authorizeGet params _ _ => if autoRegisters config state params then params.clientId else none
  | _ => none

/-- No client is registered under the key's marker by a caller who has not shown an API key. -/
def NoForgedMarker (config : Config) (keyId : KeyId) (state : OAuthState) (event : Event) : Prop :=
  apiKeyMarker (unprovedClientName config state event) ≠ some keyId.val

def TokenBoundTo (keyId : KeyId) (state : OAuthState) : Prop :=
  ∃ token entry, state.accessTokens token = some entry ∧ entry.value.boundKeyId = some keyId.val

/-- Nothing in the server leads to a token bound to the key. -/
structure Unbound (keyId : KeyId) (state : OAuthState) : Prop where
  clients : ∀ client ∈ state.clients, apiKeyMarker client.clientName ≠ some keyId.val
  authCodes : state.authCodes.Holds fun _ data => data.boundKeyId ≠ some keyId.val
  accessTokens : state.accessTokens.Holds fun _ data => data.boundKeyId ≠ some keyId.val

variable {config : Config} {keyId : KeyId} {tables : KeyTables} {faults : LookupFaults} {now : ℕ}
  {state : OAuthState}

theorem unbound_empty (keyId : KeyId) : Unbound keyId .empty :=
  ⟨by simp [OAuthState.empty], Store.holds_empty, Store.holds_empty⟩

theorem apiKeyMarker_append {id captured : String}
    (h : apiKeyMarker (some ("apikey:" ++ id)) = some captured) : captured = id := by
  simp only [apiKeyMarker] at h
  split at h
  · rw [Option.some.injEq] at h
    rw [← h]
    simp
  · cases h

theorem apiKeyMarker_truthy {name : Option String} {captured : String}
    (h : apiKeyMarker (truthy name) = some captured) : apiKeyMarker name = some captured := by
  cases hname : truthy name with
  | none => rw [hname] at h; cases h
  | some text => rwa [hname, ← truthy_eq_some hname] at h

/-! ## Registration -/

theorem registerClient_unbound (h : Unbound keyId state) {options : RegisterOptions} {randomId : String}
    (hname : apiKeyMarker options.clientName ≠ some keyId.val) {next : OAuthState} {client : OAuthClient}
    (hregister : registerClient state options randomId = some (next, client)) : Unbound keyId next := by
  simp only [registerClient] at hregister
  split at hregister
  · cases hregister
  split at hregister
  · simp only [Option.some.injEq, Prod.mk.injEq] at hregister
    rw [← hregister.1]
    exact h
  · simp only [Option.some.injEq, Prod.mk.injEq] at hregister
    rw [← hregister.1]
    refine ⟨?_, h.authCodes, h.accessTokens⟩
    intro other hother
    rcases List.mem_append.mp hother with hold | hnew
    · exact h.clients other hold
    · rw [List.mem_singleton.mp hnew]
      exact mt apiKeyMarker_truthy hname

theorem register_unbound (h : Unbound keyId state) (request : RegisterRequest)
    (hsecret : ∀ raw, request.bearer = some raw → ¬ IsSecretOf config.digests tables raw keyId)
    (hname : (request.bearer.bind fun token => keyFromSecret? config.digests tables faults (some token)) = none →
      ¬ request.redirectUris.isEmpty → apiKeyMarker request.clientName ≠ some keyId.val) :
    Unbound keyId (handleOAuthRegister config tables faults state request).1 := by
  unfold handleOAuthRegister
  split
  · exact h
  rename_i huris
  simp only
  split
  · exact h
  rename_i next client hregister
  refine registerClient_unbound h ?_ hregister
  simp only
  cases hbearer : request.bearer with
  | none =>
    simp only
    exact mt apiKeyMarker_truthy (hname (by simp [hbearer]) huris)
  | some token =>
    simp only
    cases hkey : keyFromSecret? config.digests tables faults (some token) with
    | none => exact mt apiKeyMarker_truthy (hname (by simp [hbearer, hkey]) huris)
    | some key =>
      -- A caller with another key can only write that key's own marker.
      intro hmarker
      obtain ⟨raw, hraw, hsecretOf⟩ := keyFromSecret?_some hkey
      have hid : key.keyId = keyId := Subtype.ext (apiKeyMarker_append hmarker).symm
      rw [hid] at hsecretOf
      exact hsecret raw (by rw [hbearer, hraw]) hsecretOf

/-! ## Authorization codes -/

theorem resolveClient_unbound (h : Unbound keyId state) {clientId redirectUri : Option String}
    {client : ResolvedClient}
    (hresolve : resolveClient config tables faults state clientId redirectUri = .ok client) :
    client.boundKeyId ≠ some keyId.val := by
  unfold resolveClient at hresolve
  split at hresolve
  · cases hresolve; simp
  split at hresolve
  · cases hresolve; simp
  split at hresolve
  · rename_i registered hclient
    have hmem : registered ∈ state.clients := by
      unfold getClient at hclient
      split at hclient
      · cases hclient
      · exact List.mem_of_find?_eq_some hclient
    split at hresolve
    · cases hresolve; simp
    · rename_i extracted hmarker
      split at hresolve
      · cases hresolve
        intro hbound
        exact h.clients registered hmem (hmarker.trans hbound)
      · cases hresolve; simp
  · split at hresolve
    · cases hresolve; simp
    · cases hresolve

theorem handleAuthorize_unbound (h : Unbound keyId state) (params : AuthorizeParams) (code : String) :
    Unbound keyId (handleAuthorize config tables faults now state params code).1 := by
  unfold handleAuthorize
  split
  · exact h
  split
  · exact h
  split
  · exact h
  split
  · exact h
  split
  · exact h
  rename_i client hresolve
  split
  · exact h
  have hbound := resolveClient_unbound h hresolve
  simp only
  split
  · exact ⟨h.clients, h.authCodes.put _ (by exact hbound), h.accessTokens⟩
  · exact ⟨h.clients, h.authCodes.put _ (by exact hbound), h.accessTokens⟩

theorem authorizeClient_unbound (h : Unbound keyId state) (params : AuthorizeParams) (randomId : String)
    (hname : autoRegisters config state params → apiKeyMarker params.clientId ≠ some keyId.val) :
    Unbound keyId (authorizeClient config state params randomId).1 := by
  unfold authorizeClient
  split
  · exact h
  rename_i haccess
  split
  · exact h
  · exact h
  rename_i redirectUri hunknown hredirect
  split
  · exact h
  rename_i hallowed
  split
  · exact h
  · rename_i hregister
    have hauto : autoRegisters config state params := by
      cases htrusted : isAllowedRedirectUri config (some redirectUri) <;> simp_all [autoRegisters]
    exact registerClient_unbound h (hname hauto) hregister

theorem authorizeGet_unbound (h : Unbound keyId state) (params : AuthorizeParams) (code randomId : String)
    (hname : autoRegisters config state params → apiKeyMarker params.clientId ≠ some keyId.val) :
    Unbound keyId (handleOAuthAuthorizeGet config tables faults now state params code randomId).1 := by
  have hclient : Unbound keyId (authorizeClient config state params randomId).1 :=
    authorizeClient_unbound h params randomId hname
  unfold handleOAuthAuthorizeGet
  split
  · rename_i heq
    rwa [heq] at hclient
  rename_i next clientName heq
  rw [heq] at hclient
  have hcode : Unbound keyId (handleAuthorize config tables faults now next params code).1 :=
    handleAuthorize_unbound hclient params code
  simp only
  split
  · split <;> (rename_i hresult; rwa [hresult] at hcode)
  · exact hclient

/-! ## Tokens -/

theorem issueTokens_unbound (h : Unbound keyId state) {grant : Grant} {secretBound : Option KeyId}
    (hgrant : grant.boundKeyId ≠ some keyId.val) (hsecret : secretBound ≠ some keyId)
    (resource : Option String) (refreshTtl : ℕ) (accessToken refreshToken : String) :
    Unbound keyId
      (issueTokens config now state grant secretBound resource refreshTtl accessToken refreshToken) := by
  have hbound : effectiveBoundId secretBound grant ≠ some keyId.val := by
    cases secretBound with
    | none => simpa [effectiveBoundId] using hgrant
    | some other =>
      intro heq
      exact hsecret (congrArg some (Subtype.ext (by simpa [effectiveBoundId] using heq)))
  refine ⟨h.clients, h.authCodes, ?_⟩
  exact (h.accessTokens.put _ hbound).put _ hbound

theorem handleRefreshGrant_unbound (h : Unbound keyId state) (params : TokenParams) {secretBound : Option KeyId}
    (hsecret : secretBound ≠ some keyId) (accessToken refreshToken : String) :
    Unbound keyId (handleRefreshGrant config now state params secretBound accessToken refreshToken).1 := by
  unfold handleRefreshGrant
  split
  · exact h
  rename_i presented _
  split
  · exact h
  rename_i data hdata
  split
  · exact h
  split
  · exact ⟨h.clients, h.authCodes, h.accessTokens.delete presented⟩
  · have hgrant : (Grant.ofToken data).boundKeyId ≠ some keyId.val := h.accessTokens.of_get hdata
    have hissued : Unbound keyId (issueTokens config now state (.ofToken data) secretBound params.resource
        config.oauthRefreshTtlSeconds accessToken refreshToken) := issueTokens_unbound h hgrant hsecret _ _ _ _
    exact ⟨hissued.clients, hissued.authCodes, hissued.accessTokens.delete presented⟩

theorem handleCodeGrant_unbound (h : Unbound keyId state) (params : TokenParams) {secretBound : Option KeyId}
    (hsecret : secretBound ≠ some keyId) (accessToken refreshToken : String) :
    Unbound keyId (handleCodeGrant config now state params secretBound accessToken refreshToken).1 := by
  unfold handleCodeGrant
  split
  · exact h
  · exact h
  rename_i code _ _ _
  split
  · exact h
  rename_i data hdata
  have hconsumed : Unbound keyId { state with authCodes := state.authCodes.delete code } :=
    ⟨h.clients, h.authCodes.delete code, h.accessTokens⟩
  simp only
  split
  · exact hconsumed
  split
  · exact hconsumed
  split
  · exact hconsumed
  · have hgrant : (Grant.ofCode data).boundKeyId ≠ some keyId.val := h.authCodes.of_get hdata
    exact issueTokens_unbound hconsumed hgrant hsecret _ _ _ _

theorem handleToken_unbound (h : Unbound keyId state) (params : TokenParams)
    (hsecret : ∀ raw, params.clientSecret = some raw → ¬ IsSecretOf config.digests tables raw keyId)
    (accessToken refreshToken : String) :
    Unbound keyId (handleToken config tables faults now state params accessToken refreshToken).1 := by
  have hbound : secretBoundKeyId config tables faults params.clientSecret ≠ some keyId := by
    unfold secretBoundKeyId
    split
    · simp
    rename_i secret htruthy
    intro heq
    obtain ⟨key, hkey, hid⟩ := Option.map_eq_some_iff.mp heq
    obtain ⟨raw, hraw, hsecretOf⟩ := keyFromSecret?_some hkey
    rw [hid] at hsecretOf
    exact hsecret raw (by rw [truthy_eq_some htruthy, hraw]) hsecretOf
  unfold handleToken
  simp only
  split
  · exact handleRefreshGrant_unbound h params hbound accessToken refreshToken
  split
  · exact h
  · exact handleCodeGrant_unbound h params hbound accessToken refreshToken

theorem bearer_unbound (h : Unbound keyId state) (token : String) :
    Unbound keyId (extendOAuthToken config now (validateAccessToken now state token).1 token) := by
  have hvalidated : Unbound keyId (validateAccessToken now state token).1 := by
    unfold validateAccessToken
    split
    · exact h
    split
    · exact h
    split
    · exact ⟨h.clients, h.authCodes, h.accessTokens.delete token⟩
    · exact h
  unfold extendOAuthToken
  split
  · exact ⟨hvalidated.clients, hvalidated.authCodes, hvalidated.accessTokens.expireAt _ _ _⟩
  · exact hvalidated

/-! ## Runs -/

/-- Only the key's secret or a forged marker lets one request bind anything to the key. -/
theorem unbound_step (h : Unbound keyId state) (event : Event) (hmarker : NoForgedMarker config keyId state event)
    (hsecret : ¬ PresentsSecret config keyId state event) : Unbound keyId (step config state event) := by
  have hshown : ∀ raw, event.request.shownSecret = some raw → ¬ IsSecretOf config.digests event.tables raw keyId :=
    fun raw hraw hsecretOf => hsecret ⟨raw, hraw, hsecretOf⟩
  unfold NoForgedMarker unprovedClientName at hmarker
  unfold step
  cases hrequest : event.request with
  | register request =>
    simp only [hrequest] at hshown hmarker
    refine register_unbound h request hshown ?_
    intro hnone huris
    simpa only [hnone, if_neg huris] using hmarker
  | authorizeGet params code randomId =>
    simp only [hrequest] at hmarker
    refine authorizeGet_unbound h params code randomId ?_
    intro hauto
    simpa only [if_pos hauto] using hmarker
  | authorizePost params decision code =>
    simp only [handleOAuthAuthorizePost]
    split
    · exact h
    · exact handleAuthorize_unbound h params code
  | token params accessToken refreshToken =>
    simp only [hrequest] at hshown
    exact handleToken_unbound h params hshown accessToken refreshToken
  | bearer token => exact bearer_unbound h token
  | cleanup =>
    simp only [cleanupExpiredOAuthData]
    split
    · exact h
    · exact ⟨h.clients, h.authCodes.drop fun _ data => data.expiresAt < event.now,
        h.accessTokens.drop fun _ data => data.expiresAt < event.now⟩
  | evict lostCodes lostTokens => exact ⟨h.clients, h.authCodes.drop lostCodes, h.accessTokens.drop lostTokens⟩

/-- In a run without a forged marker a token is bound to a key only after its secret was shown. -/
theorem tokenBound_requires_secret (config : Config) (keyId : KeyId) (events : List Event)
    (hmarker : StepsMeet (step config) (NoForgedMarker config keyId) .empty events)
    (hbound : TokenBoundTo keyId (run (step config) .empty events)) :
    Happens (step config) (PresentsSecret config keyId) .empty events := by
  by_contra hnever
  have hunbound : Unbound keyId (run (step config) .empty events) :=
    invariant_run_unless (I := Unbound keyId)
      (fun _ event hstate hcondition hsecret => unbound_step hstate event hcondition hsecret)
      (unbound_empty keyId) hmarker hnever
  obtain ⟨token, entry, hentry, hkey⟩ := hbound
  exact hunbound.accessTokens token entry hentry hkey

/-! ## Two runs -/

/-- SHA-256 on the strings of the runs below. -/
def sampleDigests : Digests where
  hex text :=
    if text = "wdm-master-key" then
      "e02f143f63583cc4b922813becf6e575762bcffd6292b2796fa5ff63f88125ad"
    else if text = "wdm_alice_00112233445566778899aabbccddeeff" then
      "0a0c6e5ece8311b21a24f06c8e41454e9fa4c94b7a1933eb0cb484d41eff9465"
    else if text = "wdm_0123456789abcdef0123456789abcdef" then
      "c9884e42e21e87822daa4a9f066f57bfa095eed3ef8a9cafce3db808902e0686"
    else if text = "alice_7b1f6f0e" then
      "550de0646135296c8f8fc0b79a2645421b90f364cc612ab200e90e8fa76a159d"
    else text
  base64Url text :=
    if text = "dBjftJeZ4CVP-mB92K27uhbUJU1p1r_wW1gFWFOEjXk" then "E9Melhoa2OwvFrEMTJguCHaoeK1t8URWbuGJSstw-cM"
    else text

def sampleConfig : Config where
  accessKey := "wdm-master-key"
  parseUrl uri :=
    if uri = "http://localhost:8080/cb" then some ⟨"localhost", "http://localhost:8080"⟩ else none
  digests := sampleDigests

def aliceId : KeyId := ⟨"7b1f6f0e-2c55-4a0e-9a55-0c9f3c1f2ab4", by decide⟩

def aliceKey : ApiKey where
  id := aliceId
  name := "alice"
  keyHash := sampleDigests.hex "wdm_alice_00112233445566778899aabbccddeeff"
  permissions := [.read, .write]
  status := .active
  dailyLimit := 10000
  fragmentLimit := some 5000
  defaultWorkspace := none
  defaultMode := none

def aliceTables : KeyTables := ⟨[aliceKey], fun _ => 0, []⟩

def sampleAuthorization (clientId : String) : AuthorizeParams where
  responseType := some "code"
  clientId := some clientId
  redirectUri := some "http://localhost:8080/cb"
  codeChallenge := some "E9Melhoa2OwvFrEMTJguCHaoeK1t8URWbuGJSstw-cM"
  codeChallengeMethod := some "S256"

def sampleExchange : TokenParams where
  grantType := some "authorization_code"
  code := some "code-1"
  redirectUri := some "http://localhost:8080/cb"
  codeVerifier := some "dBjftJeZ4CVP-mB92K27uhbUJU1p1r_wW1gFWFOEjXk"

/-- Register a client, authorize it and exchange the code. -/
def bindingRun (registration : RegisterRequest) (clientId : String) : List Event :=
  [ { now := 1000, tables := aliceTables, request := .register registration },
    { now := 2000, tables := aliceTables, request := .authorizeGet (sampleAuthorization clientId) "code-1" "" },
    { now := 3000, tables := aliceTables, request := .token sampleExchange "access-1" "refresh-1" } ]

def ownRegistration : RegisterRequest where
  authorization := some "Bearer wdm_alice_00112233445566778899aabbccddeeff"
  clientName := none
  redirectUris := ["http://localhost:8080/cb"]
  randomId := "0123456789abcdef0123456789abcdef"

def forgedRegistration : RegisterRequest where
  authorization := none
  clientName := some "apikey:7b1f6f0e-2c55-4a0e-9a55-0c9f3c1f2ab4"
  redirectUris := ["http://localhost:8080/cb"]
  randomId := "0123456789abcdef0123456789abcdef"

/-- The owner of the key binds a client with the secret and gets a bound token. -/
theorem tokenBound_requires_secret_owner :
    StepsMeet (step sampleConfig) (NoForgedMarker sampleConfig aliceId) .empty
      (bindingRun ownRegistration "alice_7b1f6f0e") ∧
    Happens (step sampleConfig) (PresentsSecret sampleConfig aliceId) .empty
      (bindingRun ownRegistration "alice_7b1f6f0e") := by
  have hmarker : StepsMeet (step sampleConfig) (NoForgedMarker sampleConfig aliceId) .empty
      (bindingRun ownRegistration "alice_7b1f6f0e") := by
    refine ⟨?_, ?_, ?_, trivial⟩ <;> (simp only [NoForgedMarker]; decide)
  refine ⟨hmarker, tokenBound_requires_secret sampleConfig aliceId _ hmarker ?_⟩
  exact ⟨"access-1", _, Option.some_get (by decide) |>.symm, by decide⟩

/-- Whoever knows the id of a key registers its marker and gets a token bound to the key. -/
theorem tokenBound_without_secret :
    ¬ ∀ (config : Config) (keyId : KeyId) (events : List Event),
      TokenBoundTo keyId (run (step config) .empty events) →
        Happens (step config) (PresentsSecret config keyId) .empty events := by
  intro h
  have hshown := h sampleConfig aliceId (bindingRun forgedRegistration "wdm_0123456789abcdef0123456789abcdef")
    ⟨"access-1", _, Option.some_get (by decide) |>.symm, by decide⟩
  have hnever : ¬ Happens (step sampleConfig) (PresentsSecret sampleConfig aliceId) .empty
      (bindingRun forgedRegistration "wdm_0123456789abcdef0123456789abcdef") := by
    rintro (⟨raw, hraw, hsecret⟩ | ⟨raw, hraw, hsecret⟩ | ⟨raw, hraw, hsecret⟩ | hfalse)
    · cases hraw
    · cases hraw
      revert hsecret
      decide
    · cases hraw
    · exact hfalse
  exact hnever hshown

end FragmentMemory.OAuthBinding
