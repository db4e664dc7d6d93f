import FragmentMemory.ExpiringStores
import FragmentMemory.OAuthBinding

/-! # The OAuth server with Redis and with the maps of the process

A record expires by its `expires_at`, and a Redis key also by its time to live.  The two settings answer
alike as long as no request presents a record whose key is gone before it has expired.
-/
namespace FragmentMemory.OAuthStores
open ApiKeyStore JsString KeyValueStore ExpiringStores OAuthServer OAuthBinding TransitionRuns

variable (config : Config)

def withRedis : Config := { config with redisEnabled := true }

def withMaps : Config := { config with redisEnabled := false }

/-- The server after a request.  Only a token that validates has its key extended. -/
def serve (state : OAuthState) (event : Event) : OAuthState :=
  match event.request with
  | .bearer token =>
    match validateAccessToken event.now state token with
    | (next, some _) => extendOAuthToken config event.now next token
    | (next, none) => next
  | _ => step config state event

/-- What the client learns of its request; the reason of a refusal is left out. -/
inductive Answer
  | registered (client : Option OAuthClient)
  | page (page : AuthorizePage)
  | authorized (result : AuthorizeResult)
  | issued (accessToken refreshToken scope : String)
  | valid (clientId : Option String) (scope : String) (isApiKey : Bool) (boundKeyId : Option String)
  | refused
  | silent
  deriving DecidableEq

def tokenAnswer : TokenResult → Answer
  | .error _ _ => .refused
  | .issued accessToken refreshToken scope => .issued accessToken refreshToken scope

def validationAnswer : Option TokenData → Answer
  | none => .refused
  | some data => .valid data.clientId data.scope data.isApiKey (truthy data.boundKeyId)

def answer (state : OAuthState) (event : Event) : Answer :=
  match event.request with
  | .register request => .registered (handleOAuthRegister config event.tables event.faults state request).2
  | .authorizeGet params code randomId =>
    .page (handleOAuthAuthorizeGet config event.tables event.faults event.now state params code randomId).2
  | .authorizePost params decision code =>
    .authorized (handleOAuthAuthorizePost config event.tables event.faults event.now state params decision code).2
  | .token params accessToken refreshToken =>
    tokenAnswer (handleToken config event.tables event.faults event.now state params accessToken refreshToken).2
  | .bearer token => validationAnswer (validateAccessToken event.now state token).2
  | .cleanup | .evict _ _ => .silent

/-- The two servers beside each other and the time of the last request. -/
structure Servers where
  redis : OAuthState
  maps : OAuthState
  clock : ℕ := 0

def Servers.empty : Servers := ⟨.empty, .empty, 0⟩

def stepBoth (servers : Servers) (event : Event) : Servers where
  redis := serve (withRedis config) servers.redis event
  maps := serve (withMaps config) servers.maps event
  clock := event.now

def SameAnswer (servers : Servers) (event : Event) : Prop :=
  answer (withRedis config) servers.redis event = answer (withMaps config) servers.maps event

instance (servers : Servers) (event : Event) : Decidable (SameAnswer config servers event) :=
  inferInstanceAs (Decidable (_ = _))

/-- Time does not go back, and Redis loses no key before its time. -/
def Working (servers : Servers) (event : Event) : Prop :=
  servers.clock ≤ event.now ∧
    match event.request with
    | .evict _ _ => False
    | _ => True

/-- The code that a request takes out of the store. -/
def consumedCode (params : TokenParams) : Option String :=
  if params.grantType = some "authorization_code" ∧ (truthy params.codeVerifier).isSome then truthy params.code else none

/-- The refresh token that a request presents. -/
def presentedToken (params : TokenParams) : Option String :=
  if params.grantType = some "refresh_token" then truthy params.refreshToken else none

/-- The request presents a code or a token that has not expired and that Redis still has. -/
def Reachable (servers : Servers) (event : Event) : Prop :=
  match event.request with
  | .token params _ _ =>
    (∀ code ∈ consumedCode params, ¬ Lapsed CodeData.expiresAt event.now servers.redis.authCodes code) ∧
      ∀ token ∈ presentedToken params, ¬ Lapsed TokenData.expiresAt event.now servers.redis.accessTokens token
  | .bearer token => ¬ Lapsed TokenData.expiresAt event.now servers.redis.accessTokens token
  | _ => True

instance (servers : Servers) (event : Event) : Decidable (Working servers event) := by
  unfold Working
  split <;> infer_instance

instance (servers : Servers) (event : Event) : Decidable (Reachable servers event) := by
  unfold Reachable
  split <;> infer_instance

/-- The servers hold the same clients, and the same codes and tokens among those that have not expired. -/
structure Related (now : ℕ) (redis maps : OAuthState) : Prop where
  clients : redis.clients = maps.clients
  authCodes : Agree CodeData.expiresAt now redis.authCodes maps.authCodes
  accessTokens : Agree TokenData.expiresAt now redis.accessTokens maps.accessTokens
  codesStay : Undying maps.authCodes
  tokensStay : Undying maps.accessTokens

theorem Related.later {now after : ℕ} {redis maps : OAuthState} (h : Related now redis maps) (hafter : now ≤ after) :
    Related after redis maps :=
  ⟨h.clients, h.authCodes.later hafter, h.accessTokens.later hafter, h.codesStay, h.tokensStay⟩

variable {config} {tables : KeyTables} {faults : LookupFaults} {now : ℕ} {redis maps : OAuthState}

/-! ## Registration and authorization -/

theorem registerClient_related (h : Related now redis maps) (options : RegisterOptions) (randomId : String) :
    (registerClient redis options randomId = none ∧ registerClient maps options randomId = none) ∨
      ∃ redisNext mapsNext client, registerClient redis options randomId = some (redisNext, client) ∧
        registerClient maps options randomId = some (mapsNext, client) ∧ Related now redisNext mapsNext := by
  simp only [registerClient, h.clients]
  split
  · exact Or.inl ⟨rfl, rfl⟩
  · rcases maps.clients.find? _ with _ | client
    · exact Or.inr ⟨_, _, _, rfl, rfl, by simp, h.authCodes, h.accessTokens, h.codesStay, h.tokensStay⟩
    · exact Or.inr ⟨_, _, _, rfl, rfl, h⟩

theorem handleOAuthRegister_related (h : Related now redis maps) (request : RegisterRequest) :
    (handleOAuthRegister (withRedis config) tables faults redis request).2 =
        (handleOAuthRegister (withMaps config) tables faults maps request).2 ∧
      Related now (handleOAuthRegister (withRedis config) tables faults redis request).1
        (handleOAuthRegister (withMaps config) tables faults maps request).1 := by
  simp only [handleOAuthRegister, withRedis, withMaps]
  split
  · exact ⟨rfl, h⟩
  · generalize RegisterOptions.mk _ _ _ _ _ _ = options
    rcases registerClient_related h options request.randomId with ⟨hredis, hmaps⟩ | ⟨redisNext, mapsNext, client, hredis, hmaps, hnext⟩
    · simp only [hredis, hmaps]
      exact ⟨trivial, h⟩
    · simp only [hredis, hmaps]
      exact ⟨trivial, hnext⟩

theorem getClient_related (h : Related now redis maps) (clientId : Option String) :
    getClient redis clientId = getClient maps clientId := by
  rw [getClient, getClient, h.clients]

theorem resolveClient_related (h : Related now redis maps) (clientId redirectUri : Option String) :
    resolveClient (withRedis config) tables faults redis clientId redirectUri =
      resolveClient (withMaps config) tables faults maps clientId redirectUri := by
  rw [resolveClient, resolveClient, getClient_related h]
  rfl

theorem handleAuthorize_related (h : Related now redis maps) (params : AuthorizeParams) (code : String) :
    (handleAuthorize (withRedis config) tables faults now redis params code).2 =
        (handleAuthorize (withMaps config) tables faults now maps params code).2 ∧
      Related now (handleAuthorize (withRedis config) tables faults now redis params code).1
        (handleAuthorize (withMaps config) tables faults now maps params code).1 := by
  have hredirectError : ∀ client redirectUri,
      redirectError (withRedis config) client redirectUri = redirectError (withMaps config) client redirectUri :=
    fun _ _ => rfl
  have hparse : (withRedis config).parseUrl = (withMaps config).parseUrl := rfl
  simp only [handleAuthorize, resolveClient_related h, hredirectError, hparse]
  split
  · exact ⟨rfl, h⟩
  · split
    · exact ⟨rfl, h⟩
    · split
      · exact ⟨rfl, h⟩
      · split
        · exact ⟨rfl, h⟩
        · split
          · exact ⟨rfl, h⟩
          · split
            · exact ⟨rfl, h⟩
            · have hsaved : ∀ data : CodeData, Related now
                  { redis with authCodes := redis.authCodes.put code data (deadline (withRedis config) now codeTtlSeconds) }
                  { maps with authCodes := maps.authCodes.put code data (deadline (withMaps config) now codeTtlSeconds) } :=
                fun data =>
                  ⟨h.clients, h.authCodes.put code data _ _, h.accessTokens, h.codesStay.put code data, h.tokensStay⟩
              split
              · exact ⟨rfl, hsaved _⟩
              · exact ⟨rfl, hsaved _⟩

theorem authorizeClient_related (h : Related now redis maps) (params : AuthorizeParams) (randomId : String) :
    (authorizeClient (withRedis config) redis params randomId).2 =
        (authorizeClient (withMaps config) maps params randomId).2 ∧
      Related now (authorizeClient (withRedis config) redis params randomId).1
        (authorizeClient (withMaps config) maps params randomId).1 := by
  have hallowed : ∀ uri, isAllowedRedirectUri (withRedis config) uri = isAllowedRedirectUri (withMaps config) uri :=
    fun _ => rfl
  have haccess : isAccessKey (withRedis config) params.clientId = isAccessKey (withMaps config) params.clientId := rfl
  have hauto : (withRedis config).allowAutoDcrRegister = (withMaps config).allowAutoDcrRegister := rfl
  simp only [authorizeClient, getClient_related h, hallowed, haccess, hauto]
  split
  · exact ⟨rfl, h⟩
  · split
    · exact ⟨rfl, h⟩
    · exact ⟨rfl, h⟩
    · split
      · exact ⟨rfl, h⟩
      · generalize RegisterOptions.mk _ _ _ _ _ _ = options
        rcases registerClient_related h options randomId with ⟨hredis, hmaps⟩ | ⟨redisNext, mapsNext, client, hredis, hmaps, hnext⟩
        · simp only [hredis, hmaps]
          exact ⟨trivial, h⟩
        · simp only [hredis, hmaps]
          exact ⟨trivial, hnext⟩

theorem authorizeGet_related (h : Related now redis maps) (params : AuthorizeParams) (code randomId : String) :
    (handleOAuthAuthorizeGet (withRedis config) tables faults now redis params code randomId).2 =
        (handleOAuthAuthorizeGet (withMaps config) tables faults now maps params code randomId).2 ∧
      Related now (handleOAuthAuthorizeGet (withRedis config) tables faults now redis params code randomId).1
        (handleOAuthAuthorizeGet (withMaps config) tables faults now maps params code randomId).1 := by
  obtain ⟨hanswer, hnext⟩ := @authorizeClient_related config now redis maps h params randomId
  rw [handleOAuthAuthorizeGet, handleOAuthAuthorizeGet]
  generalize authorizeClient (withRedis config) redis params randomId = redisOutcome at hanswer hnext ⊢
  generalize authorizeClient (withMaps config) maps params randomId = mapsOutcome at hanswer hnext ⊢
  obtain ⟨redisNext, clientName⟩ := redisOutcome
  obtain ⟨mapsNext, mapsName⟩ := mapsOutcome
  obtain rfl : clientName = mapsName := hanswer
  have hallowed : isAllowedRedirectUri (withRedis config) params.redirectUri =
      isAllowedRedirectUri (withMaps config) params.redirectUri := rfl
  cases clientName with
  | error description => exact ⟨rfl, hnext⟩
  | ok clientName =>
    simp only [hallowed]
    split
    · obtain ⟨hresult, hstored⟩ :=
        @handleAuthorize_related config tables faults now redisNext mapsNext hnext params code
      generalize handleAuthorize (withRedis config) tables faults now redisNext params code = redisLast at hresult hstored ⊢
      generalize handleAuthorize (withMaps config) tables faults now mapsNext params code = mapsLast at hresult hstored ⊢
      obtain ⟨redisLast, result⟩ := redisLast
      obtain ⟨mapsLast, mapsResult⟩ := mapsLast
      obtain rfl : result = mapsResult := hresult
      cases result <;> exact ⟨rfl, hstored⟩
    · exact ⟨rfl, hnext⟩

/-! ## Tokens -/

theorem issueTokens_related (grant : Grant) (secretBound : Option KeyId) (resource : Option String) (refreshTtl : ℕ)
    (accessToken refreshToken : String) (h : Related now redis maps) :
    Related now (issueTokens (withRedis config) now redis grant secretBound resource refreshTtl accessToken refreshToken)
      (issueTokens (withMaps config) now maps grant secretBound resource refreshTtl accessToken refreshToken) := by
  refine ⟨h.clients, h.authCodes, ?_, h.codesStay, ?_⟩
  · exact (h.accessTokens.put accessToken _ _ _).put refreshToken _ _ _
  · exact (h.tokensStay.put accessToken _).put refreshToken _

/-- The outcomes of a refresh request, by the token that is still good. -/
theorem handleRefreshGrant_cases (config : Config) (now : ℕ) (state : OAuthState) (params : TokenParams)
    (secretBound : Option KeyId) (accessToken refreshToken : String) :
    (∃ presented data, truthy params.refreshToken = some presented ∧
      effective TokenData.expiresAt now state.accessTokens presented = some data ∧ data.type = .refresh ∧
      handleRefreshGrant config now state params secretBound accessToken refreshToken =
        ({ (issueTokens config now state (.ofToken data) secretBound params.resource config.oauthRefreshTtlSeconds
            accessToken refreshToken) with
            accessTokens := (issueTokens config now state (.ofToken data) secretBound params.resource
              config.oauthRefreshTtlSeconds accessToken refreshToken).accessTokens.delete presented },
          .issued accessToken refreshToken data.scope)) ∨
    (∀ presented, truthy params.refreshToken = some presented → ∀ data,
        effective TokenData.expiresAt now state.accessTokens presented = some data → data.type ≠ .refresh) ∧
      ∃ error description tokens, handleRefreshGrant config now state params secretBound accessToken refreshToken =
        ({ state with accessTokens := tokens }, .error error description) ∧
          Sheds TokenData.expiresAt now state.accessTokens tokens := by
  rw [handleRefreshGrant]
  rcases hpresented : truthy params.refreshToken with _ | presented
  · exact Or.inr ⟨fun _ h => (nomatch h), _, _, _, rfl, sheds_refl _⟩
  · simp only
    rcases hget : state.accessTokens.get now presented with _ | data
    · refine Or.inr ⟨?_, _, _, _, rfl, sheds_refl _⟩
      rintro _ ⟨⟩ data hdata
      rw [(effective_eq_some_iff.mp hdata).1] at hget
      cases hget
    · simp only
      have heffective : ∀ {other}, effective TokenData.expiresAt now state.accessTokens presented = some other →
        other = data := by
        intro other hother
        have hsame := (effective_eq_some_iff.mp hother).1
        rw [hget] at hsame
        exact (Option.some.inj hsame).symm
      by_cases htype : data.type = .refresh
      · by_cases hexpired : data.expiresAt < now
        · simp only [htype, hexpired, ne_eq, not_true_eq_false, if_false, if_true]
          refine Or.inr ⟨?_, _, _, _, rfl, sheds_delete hget hexpired⟩
          rintro _ ⟨⟩ other hother
          have hgood := (effective_eq_some_iff.mp hother).2
          rw [heffective hother] at hgood
          omega
        · simp only [htype, hexpired, ne_eq, not_true_eq_false, if_false]
          exact Or.inl ⟨presented, data, rfl, effective_eq_some_iff.mpr ⟨hget, by omega⟩, htype, rfl⟩
      · simp only [htype, ne_eq, not_false_eq_true, if_true]
        refine Or.inr ⟨?_, _, _, _, rfl, sheds_refl _⟩
        rintro _ ⟨⟩ other hother
        rw [heffective hother]
        exact htype

theorem handleRefreshGrant_related (h : Related now redis maps) (params : TokenParams) (secretBound : Option KeyId)
    (accessToken refreshToken : String)
    (hlapsed : ∀ presented, truthy params.refreshToken = some presented →
      ¬ Lapsed TokenData.expiresAt now redis.accessTokens presented) :
    tokenAnswer (handleRefreshGrant (withRedis config) now redis params secretBound accessToken refreshToken).2 =
        tokenAnswer (handleRefreshGrant (withMaps config) now maps params secretBound accessToken refreshToken).2 ∧
      Related now (handleRefreshGrant (withRedis config) now redis params secretBound accessToken refreshToken).1
        (handleRefreshGrant (withMaps config) now maps params secretBound accessToken refreshToken).1 := by
  rcases handleRefreshGrant_cases (withRedis config) now redis params secretBound accessToken refreshToken with
    ⟨presented, data, hpresented, hgood, htype, hredis⟩ | ⟨hnone, error, description, tokens, hredis, hsheds⟩
  · have hsame := h.accessTokens.effective_eq h.tokensStay (hlapsed presented hpresented)
    rcases handleRefreshGrant_cases (withMaps config) now maps params secretBound accessToken refreshToken with
      ⟨other, found, hother, hfound, -, hmaps⟩ | ⟨hnone, -⟩
    · obtain rfl : presented = other := Option.some.inj (hpresented.symm.trans hother)
      obtain rfl : data = found := by
        rw [← hsame, hgood] at hfound
        exact Option.some.inj hfound
      rw [hredis, hmaps]
      have hissued := @issueTokens_related config now redis maps (.ofToken data) secretBound params.resource
        config.oauthRefreshTtlSeconds accessToken refreshToken h
      exact ⟨rfl, hissued.clients, hissued.authCodes, hissued.accessTokens.delete presented, hissued.codesStay,
        hissued.tokensStay.delete presented⟩
    · exact absurd htype (hnone presented hpresented data (hsame ▸ hgood))
  · rcases handleRefreshGrant_cases (withMaps config) now maps params secretBound accessToken refreshToken with
      ⟨presented, data, hpresented, hgood, htype, -⟩ | ⟨-, error', description', tokens', hmaps, hsheds'⟩
    · have hsame := h.accessTokens.effective_eq h.tokensStay (hlapsed presented hpresented)
      exact absurd htype (hnone presented hpresented data (hsame.trans hgood))
    · rw [hredis, hmaps]
      exact ⟨rfl, h.clients, h.authCodes, (h.accessTokens.sheds_left hsheds).sheds_right hsheds', h.codesStay,
        h.tokensStay.sheds hsheds'⟩

/-- The checks of a code that is found and has not expired. -/
def Accepts (config : Config) (params : TokenParams) (codeVerifier : String) (data : CodeData) : Prop :=
  some data.redirectUri = params.redirectUri ∧ config.digests.base64Url codeVerifier = data.codeChallenge

/-- The outcomes of a code request, by the code that is still good.  The code is gone in all of them. -/
theorem handleCodeGrant_cases (config : Config) (now : ℕ) (state : OAuthState) {params : TokenParams}
    (hgrant : params.grantType = some "authorization_code") (secretBound : Option KeyId) (accessToken refreshToken : String)
    (hlapsed : ∀ code, consumedCode params = some code → ¬ Lapsed CodeData.expiresAt now state.authCodes code) :
    (∃ code codeVerifier data, consumedCode params = some code ∧ truthy params.codeVerifier = some codeVerifier ∧
      effective CodeData.expiresAt now state.authCodes code = some data ∧ Accepts config params codeVerifier data ∧
      handleCodeGrant config now state params secretBound accessToken refreshToken =
        (issueTokens config now { state with authCodes := state.authCodes.delete code } (.ofCode data) secretBound
          params.resource (config.oauthTokenTtlSeconds * 24) accessToken refreshToken,
          .issued accessToken refreshToken data.scope)) ∨
    (∀ code codeVerifier data, consumedCode params = some code → truthy params.codeVerifier = some codeVerifier →
        effective CodeData.expiresAt now state.authCodes code = some data → ¬ Accepts config params codeVerifier data) ∧
      ∃ error description codes, handleCodeGrant config now state params secretBound accessToken refreshToken =
        ({ state with authCodes := codes }, .error error description) ∧
          (codes = state.authCodes ∨ ∃ code, consumedCode params = some code ∧ codes = state.authCodes.delete code) ∧
          ∀ code, consumedCode params = some code → Cleared CodeData.expiresAt now codes code := by
  rw [handleCodeGrant]
  rcases hverifier : truthy params.codeVerifier with _ | codeVerifier
  · have hnone : consumedCode params = none := by
      simp [consumedCode, hverifier]
    rw [hnone]
    refine Or.inr ⟨fun _ _ _ h => (nomatch h), ?_⟩
    rcases truthy params.code with _ | presented
    · exact ⟨_, _, _, rfl, Or.inl rfl, fun _ h => (nomatch h)⟩
    · exact ⟨_, _, _, rfl, Or.inl rfl, fun _ h => (nomatch h)⟩
  · have hconsumed : consumedCode params = truthy params.code := by
      simp [consumedCode, hgrant, hverifier]
    rw [hconsumed] at hlapsed ⊢
    rcases hpresented : truthy params.code with _ | presented
    · exact Or.inr ⟨fun _ _ _ h => (nomatch h), _, _, _, rfl, Or.inl rfl, fun _ h => (nomatch h)⟩
    · simp only
      rcases hget : state.authCodes.get now presented with _ | data
      · refine Or.inr ⟨?_, _, _, _, rfl, Or.inl rfl, ?_⟩
        · rintro _ _ data ⟨⟩ - hdata
          rw [(effective_eq_some_iff.mp hdata).1] at hget
          cases hget
        · rintro _ ⟨⟩
          exact cleared_of_get_eq_none hget (hlapsed presented hpresented)
      · have heffective : ∀ {other}, effective CodeData.expiresAt now state.authCodes presented = some other →
          other = data := by
          intro other hother
          have hsame := (effective_eq_some_iff.mp hother).1
          rw [hget] at hsame
          exact (Option.some.inj hsame).symm
        have hcleared : ∀ code, some presented = some code →
            Cleared CodeData.expiresAt now (state.authCodes.delete presented) code := by
          rintro _ ⟨⟩
          exact cleared_delete _ _
        simp only
        split
        · rename_i hexpired
          refine Or.inr ⟨?_, _, _, _, rfl, Or.inr ⟨presented, rfl, rfl⟩, hcleared⟩
          rintro _ _ other ⟨⟩ - hother
          have hgood := (effective_eq_some_iff.mp hother).2
          rw [heffective hother] at hgood
          omega
        · rename_i hexpires
          split
          · rename_i hredirect
            refine Or.inr ⟨?_, _, _, _, rfl, Or.inr ⟨presented, rfl, rfl⟩, hcleared⟩
            rintro _ _ other ⟨⟩ - hother haccepts
            rw [heffective hother] at haccepts
            exact hredirect haccepts.1
          · rename_i hredirect
            split
            · rename_i hchallenge
              refine Or.inr ⟨?_, _, _, _, rfl, Or.inr ⟨presented, rfl, rfl⟩, hcleared⟩
              rintro _ _ other ⟨⟩ ⟨⟩ hother haccepts
              rw [heffective hother] at haccepts
              exact hchallenge haccepts.2
            · rename_i hchallenge
              exact Or.inl ⟨presented, codeVerifier, data, rfl, rfl, effective_eq_some_iff.mpr ⟨hget, by omega⟩,
                ⟨not_not.mp hredirect, not_not.mp hchallenge⟩, rfl⟩

theorem handleCodeGrant_related (h : Related now redis maps) {params : TokenParams}
    (hgrant : params.grantType = some "authorization_code") (secretBound : Option KeyId) (accessToken refreshToken : String)
    (hlapsed : ∀ code, consumedCode params = some code → ¬ Lapsed CodeData.expiresAt now redis.authCodes code) :
    tokenAnswer (handleCodeGrant (withRedis config) now redis params secretBound accessToken refreshToken).2 =
        tokenAnswer (handleCodeGrant (withMaps config) now maps params secretBound accessToken refreshToken).2 ∧
      Related now (handleCodeGrant (withRedis config) now redis params secretBound accessToken refreshToken).1
        (handleCodeGrant (withMaps config) now maps params secretBound accessToken refreshToken).1 := by
  have hmapsLapsed : ∀ code, consumedCode params = some code → ¬ Lapsed CodeData.expiresAt now maps.authCodes code := by
    rintro code - ⟨entry, hentry, hdead, -⟩
    rw [Entry.aliveAt, h.codesStay code entry hentry] at hdead
    cases hdead
  have haccepts : ∀ codeVerifier data, Accepts (withRedis config) params codeVerifier data ↔
      Accepts (withMaps config) params codeVerifier data := fun _ _ => Iff.rfl
  rcases handleCodeGrant_cases (withRedis config) now redis hgrant secretBound accessToken refreshToken hlapsed with
    ⟨code, codeVerifier, data, hcode, hverifier, hgood, hchecks, hredis⟩ |
    ⟨hnone, error, description, codes, hredis, hcodes, hcleared⟩
  · have hsame := h.authCodes.effective_eq h.codesStay (hlapsed code hcode)
    rcases handleCodeGrant_cases (withMaps config) now maps hgrant secretBound accessToken refreshToken hmapsLapsed with
      ⟨other, _, found, hother, -, hfound, -, hmaps⟩ | ⟨hnone, -⟩
    · obtain rfl : code = other := Option.some.inj (hcode.symm.trans hother)
      obtain rfl : data = found := by
        rw [← hsame, hgood] at hfound
        exact Option.some.inj hfound
      rw [hredis, hmaps]
      have hdeleted : Related now { redis with authCodes := redis.authCodes.delete code }
          { maps with authCodes := maps.authCodes.delete code } :=
        ⟨h.clients, h.authCodes.delete code, h.accessTokens, h.codesStay.delete code, h.tokensStay⟩
      exact ⟨rfl, @issueTokens_related config now _ _ (.ofCode data) secretBound params.resource
        (config.oauthTokenTtlSeconds * 24) accessToken refreshToken hdeleted⟩
    · exact absurd ((haccepts _ _).mp hchecks) (hnone code codeVerifier data hcode hverifier (hsame ▸ hgood))
  · rcases handleCodeGrant_cases (withMaps config) now maps hgrant secretBound accessToken refreshToken hmapsLapsed with
      ⟨code, codeVerifier, data, hcode, hverifier, hgood, hchecks, -⟩ |
      ⟨-, error', description', codes', hmaps, hcodes', hcleared'⟩
    · have hsame := h.authCodes.effective_eq h.codesStay (hlapsed code hcode)
      exact absurd ((haccepts _ _).mpr hchecks) (hnone code codeVerifier data hcode hverifier (hsame.trans hgood))
    · rw [hredis, hmaps]
      have hunchanged : ∀ {before after : Store CodeData}, (after = before ∨
          ∃ code, consumedCode params = some code ∧ after = before.delete code) →
          ∀ key, ¬ consumedCode params = some key → after key = before key := by
        rintro before after (rfl | ⟨code, hcode, rfl⟩) key hkey
        · rfl
        · refine if_neg fun hsame => hkey ?_
          rw [hsame]
          exact hcode
      refine ⟨rfl, h.clients, ?_, h.accessTokens, ?_, h.tokensStay⟩
      · exact h.authCodes.of_cleared (hunchanged hcodes) (hunchanged hcodes') hcleared hcleared'
      · rcases hcodes' with rfl | ⟨code, -, rfl⟩
        · exact h.codesStay
        · exact h.codesStay.delete code

theorem handleToken_related (h : Related now redis maps) (params : TokenParams) (accessToken refreshToken : String)
    (hcodes : ∀ code ∈ consumedCode params, ¬ Lapsed CodeData.expiresAt now redis.authCodes code)
    (htokens : ∀ token ∈ presentedToken params, ¬ Lapsed TokenData.expiresAt now redis.accessTokens token) :
    tokenAnswer (handleToken (withRedis config) tables faults now redis params accessToken refreshToken).2 =
        tokenAnswer (handleToken (withMaps config) tables faults now maps params accessToken refreshToken).2 ∧
      Related now (handleToken (withRedis config) tables faults now redis params accessToken refreshToken).1
        (handleToken (withMaps config) tables faults now maps params accessToken refreshToken).1 := by
  have hsecret : secretBoundKeyId (withRedis config) tables faults params.clientSecret =
      secretBoundKeyId (withMaps config) tables faults params.clientSecret := rfl
  simp only [handleToken, hsecret]
  split
  · rename_i hrefresh
    refine handleRefreshGrant_related h params _ accessToken refreshToken fun presented hpresented => ?_
    exact htokens presented ((if_pos hrefresh).trans hpresented)
  · split
    · exact ⟨rfl, h⟩
    · rename_i hcode
      exact handleCodeGrant_related h (not_not.mp hcode) _ accessToken refreshToken hcodes

/-- The outcomes of a validation, by the token that is still good. -/
theorem validateAccessToken_cases (now : ℕ) (state : OAuthState) (token : String) :
    (∃ data, effective TokenData.expiresAt now state.accessTokens token = some data ∧ data.type = .access ∧
      validateAccessToken now state token = (state, some data)) ∨
    (∀ data, effective TokenData.expiresAt now state.accessTokens token = some data → data.type ≠ .access) ∧
      ∃ tokens, validateAccessToken now state token = ({ state with accessTokens := tokens }, none) ∧
        Sheds TokenData.expiresAt now state.accessTokens tokens := by
  rw [validateAccessToken]
  rcases hget : state.accessTokens.get now token with _ | data
  · refine Or.inr ⟨fun data hdata => ?_, _, rfl, sheds_refl _⟩
    rw [(effective_eq_some_iff.mp hdata).1] at hget
    cases hget
  · have heffective : ∀ {other}, effective TokenData.expiresAt now state.accessTokens token = some other →
      other = data := by
      intro other hother
      have hsame := (effective_eq_some_iff.mp hother).1
      rw [hget] at hsame
      exact (Option.some.inj hsame).symm
    simp only
    split
    · rename_i htype
      refine Or.inr ⟨fun other hother => ?_, _, rfl, sheds_refl _⟩
      rw [heffective hother]
      exact htype
    · rename_i htype
      split
      · rename_i hexpired
        refine Or.inr ⟨fun other hother => ?_, _, rfl, sheds_delete hget hexpired⟩
        have hgood := (effective_eq_some_iff.mp hother).2
        rw [heffective hother] at hgood
        omega
      · rename_i hexpires
        exact Or.inl ⟨data, effective_eq_some_iff.mpr ⟨hget, by omega⟩, not_not.mp htype, rfl⟩

theorem bearer_related (h : Related now redis maps) (token : String)
    (hlapsed : ¬ Lapsed TokenData.expiresAt now redis.accessTokens token) (tables : KeyTables) (faults : LookupFaults) :
    validationAnswer (validateAccessToken now redis token).2 = validationAnswer (validateAccessToken now maps token).2 ∧
      Related now (serve (withRedis config) redis ⟨now, tables, faults, .bearer token⟩)
        (serve (withMaps config) maps ⟨now, tables, faults, .bearer token⟩) := by
  have hsame := h.accessTokens.effective_eq h.tokensStay hlapsed
  rcases validateAccessToken_cases now redis token with ⟨data, hgood, htype, hredis⟩ | ⟨hnone, tokens, hredis, hsheds⟩
  · rcases validateAccessToken_cases now maps token with ⟨found, hfound, -, hmaps⟩ | ⟨hnone, -⟩
    · obtain rfl : data = found := by
        rw [← hsame, hgood] at hfound
        exact Option.some.inj hfound
      simp only [serve, hredis, hmaps]
      exact ⟨trivial, h.clients, h.authCodes, h.accessTokens.expireAt_left _ _ _, h.codesStay, h.tokensStay⟩
    · exact absurd htype (hnone data (hsame ▸ hgood))
  · rcases validateAccessToken_cases now maps token with ⟨data, hgood, htype, -⟩ | ⟨-, tokens', hmaps, hsheds'⟩
    · exact absurd htype (hnone data (hsame.trans hgood))
    · simp only [serve, hredis, hmaps]
      exact ⟨trivial, h.clients, h.authCodes, (h.accessTokens.sheds_left hsheds).sheds_right hsheds', h.codesStay,
        h.tokensStay.sheds hsheds'⟩

/-! ## Runs -/

/-- A request that Redis can still serve keeps the servers related and is answered alike. -/
theorem related_step (servers : Servers) (event : Event) (h : Related servers.clock servers.redis servers.maps)
    (hworking : Working servers event) (hreachable : Reachable servers event) :
    Related (stepBoth config servers event).clock (stepBoth config servers event).redis (stepBoth config servers event).maps ∧
      SameAnswer config servers event := by
  obtain ⟨now, tables, faults, request⟩ := event
  have hnow : Related now servers.redis servers.maps := h.later hworking.1
  simp only [SameAnswer, stepBoth, answer]
  cases request with
  | register request =>
    obtain ⟨hanswer, hnext⟩ := @handleOAuthRegister_related config tables faults now _ _ hnow request
    exact ⟨hnext, congrArg Answer.registered hanswer⟩
  | authorizeGet params code randomId =>
    obtain ⟨hanswer, hnext⟩ := @authorizeGet_related config tables faults now _ _ hnow params code randomId
    exact ⟨hnext, congrArg Answer.page hanswer⟩
  | authorizePost params decision code =>
    simp only [serve, step, handleOAuthAuthorizePost]
    split
    · exact ⟨hnow, rfl⟩
    · obtain ⟨hanswer, hnext⟩ := @handleAuthorize_related config tables faults now _ _ hnow params code
      exact ⟨hnext, congrArg Answer.authorized hanswer⟩
  | token params accessToken refreshToken =>
    obtain ⟨hanswer, hnext⟩ := @handleToken_related config tables faults now _ _ hnow params accessToken refreshToken
      hreachable.1 hreachable.2
    exact ⟨hnext, hanswer⟩
  | bearer token =>
    obtain ⟨hanswer, hnext⟩ := @bearer_related config now _ _ hnow token hreachable tables faults
    exact ⟨hnext, hanswer⟩
  | cleanup =>
    exact ⟨⟨hnow.clients, hnow.authCodes.sheds_right (sheds_drop _), hnow.accessTokens.sheds_right (sheds_drop _),
      hnow.codesStay.drop fun _ data => data.expiresAt < now, hnow.tokensStay.drop fun _ data =>
        data.expiresAt < now⟩, rfl⟩
  | evict lostCodes lostTokens => exact hworking.2.elim

theorem related_empty : Related 0 Servers.empty.redis Servers.empty.maps :=
  ⟨rfl, Agree.refl _, Agree.refl _, fun _ _ h => (nomatch h), fun _ _ h => (nomatch h)⟩

/-- Over a working Redis the servers answer every request alike, in every run whose requests present nothing that
Redis has given up before its record expires. -/
theorem stores_equivalent (config : Config) (events : List Event)
    (hworking : StepsMeet (stepBoth config) Working .empty events)
    (hreachable : StepsMeet (stepBoth config) Reachable .empty events) :
    StepsMeet (stepBoth config) (SameAnswer config) .empty events :=
  stepsMeet_of_invariant (I := fun servers => Related servers.clock servers.redis servers.maps)
    (fun servers event h hmeets => related_step servers event h hmeets.1 hmeets.2) related_empty
    (hworking.and hreachable)

/-- Authorize, exchange the code, and refresh after a number of days. -/
def refreshRun (days : ℕ) : List Event :=
  [{ now := 1000, tables := aliceTables, request := .authorizeGet (sampleAuthorization "notes") "code-1" "" },
    { now := 2000, tables := aliceTables, request := .token sampleExchange "access-1" "refresh-1" },
    { now := 3000, tables := aliceTables, request := .bearer "access-1" },
    { now := 2000 + days * 86400000, tables := aliceTables,
      request := .token { grantType := some "refresh_token", refreshToken := some "refresh-1" } "access-2" "refresh-2" }]

/-- With the default times to live Redis gives the first refresh token up after 60 days and its record says 720. -/
theorem refresh_after_sixty_days :
    StepsMeet (stepBoth sampleConfig) Working .empty (refreshRun 61) ∧
      ¬ StepsMeet (stepBoth sampleConfig) (SameAnswer sampleConfig) .empty (refreshRun 61) := by
  decide

theorem stores_equivalent_thirty_days :
    StepsMeet (stepBoth sampleConfig) (SameAnswer sampleConfig) .empty (refreshRun 30) :=
  stores_equivalent sampleConfig (refreshRun 30) (by decide) (by decide)

end FragmentMemory.OAuthStores
