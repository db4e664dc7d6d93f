import FragmentMemory.OAuthBinding

/-! # What a token inherits

A code hands its binding on to an access and a refresh token, and every refresh hands it on again.  The
server keeps no record of the chain; the trace below does, and every stored token agrees with it.
-/
namespace FragmentMemory.GrantChains
open ApiKeyStore JsString KeyValueStore OAuthServer OAuthBinding TransitionRuns

/-- The grant behind a token: the code of the chain's first request, and the keys whose secrets the requests of
the chain have shown, in their order. -/
structure Origin where
  root : CodeData
  secrets : List KeyId := []

/-- The key of the last secret, or the one of the code. -/
def Origin.boundKeyId (origin : Origin) : Option String :=
  (origin.secrets.getLast?.map Subtype.val).or origin.root.boundKeyId

def Origin.extend (origin : Origin) (secretBound : Option KeyId) : Origin :=
  { origin with secrets := origin.secrets ++ secretBound.toList }

structure Inherits (data : TokenData) (origin : Origin) : Prop where
  clientId : data.clientId = origin.root.clientId
  scope : data.scope = origin.root.scope
  boundKeyId : data.boundKeyId = origin.boundKeyId

/-- The server with the grant behind every token string that it has issued. -/
structure Traced where
  state : OAuthState
  origins : String → Option Origin

def Traced.empty : Traced := ⟨.empty, fun _ => none⟩

variable (config : Config)

/-- The grant behind the tokens that a token request is answered with. -/
def grantedOrigin (traced : Traced) (event : Event) (params : TokenParams) : Option Origin :=
  let secretBound := secretBoundKeyId config event.tables event.faults params.clientSecret
  if params.grantType = some "refresh_token" then
    ((truthy params.refreshToken).bind traced.origins).map fun origin => origin.extend secretBound
  else ((truthy params.code).bind (traced.state.authCodes.get event.now)).map fun data => ⟨data, secretBound.toList⟩

/-- The answer to a token request. -/
def answer (state : OAuthState) (event : Event) (params : TokenParams) (accessToken refreshToken : String) : TokenResult :=
  (handleToken config event.tables event.faults event.now state params accessToken refreshToken).2

def trace (traced : Traced) (event : Event) : Traced where
  state := step config traced.state event
  origins :=
    match event.request with
    | .token params accessToken refreshToken =>
      match answer config traced.state event params accessToken refreshToken with
      | .issued _ _ _ => fun token =>
        if token = refreshToken ∨ token = accessToken then grantedOrigin config traced event params
        else traced.origins token
      | .error _ _ => traced.origins
    | _ => traced.origins

/-- Tokens for a code go to a request with its redirect URI and the verifier of its challenge, in time. -/
def IssuesProperly (traced : Traced) (event : Event) : Prop :=
  match event.request with
  | .token params accessToken refreshToken =>
    match answer config traced.state event params accessToken refreshToken with
    | .issued _ _ _ => params.grantType ≠ some "refresh_token" →
      ∃ code data codeVerifier, truthy params.code = some code ∧ traced.state.authCodes.get event.now code = some data ∧
        params.redirectUri = some data.redirectUri ∧ truthy params.codeVerifier = some codeVerifier ∧
        config.digests.base64Url codeVerifier = data.codeChallenge ∧ event.now ≤ data.expiresAt
    | .error _ _ => True
  | _ => True

/-- Every stored token inherits from the grant behind it. -/
def TokensInherit (traced : Traced) : Prop :=
  traced.state.accessTokens.Holds fun token data => ∃ origin, traced.origins token = some origin ∧ Inherits data origin

variable {config}

theorem boundKeyId_extend (origin : Origin) (secretBound : Option KeyId) :
    (origin.extend secretBound).boundKeyId = (secretBound.map Subtype.val).or origin.boundKeyId := by
  cases secretBound with
  | none => simp [Origin.extend, Origin.boundKeyId]
  | some key => simp [Origin.extend, Origin.boundKeyId]

/-- The data of a new token, for a grant that inherits. -/
theorem inherits_tokenData {type : TokenType} {grant : Grant} {origin : Origin}
    (hclient : grant.clientId = origin.root.clientId)
    (hscope : grant.scope = origin.root.scope) (hbound : grant.boundKeyId = origin.boundKeyId)
    (secretBound : Option KeyId) (resource : Option String) (now ttlSeconds : ℕ) :
    Inherits (tokenData type grant secretBound resource now ttlSeconds) (origin.extend secretBound) := by
  refine ⟨hclient, hscope, ?_⟩
  rw [boundKeyId_extend, ← hbound]
  simp only [tokenData, effectiveBoundId]
  cases secretBound <;> rfl

/-- The outcomes of a token request.  Tokens are issued for a code that passes its checks, or for a refresh token. -/
theorem handleToken_cases (tables : KeyTables) (faults : LookupFaults) (now : ℕ) (state : OAuthState)
    (params : TokenParams) (accessToken refreshToken : String) :
    (∃ error description, (handleToken config tables faults now state params accessToken refreshToken).2 =
        .error error description ∧
      ∀ token entry, (handleToken config tables faults now state params accessToken refreshToken).1.accessTokens token =
        some entry → state.accessTokens token = some entry) ∨
    (∃ presented data, params.grantType = some "refresh_token" ∧ truthy params.refreshToken = some presented ∧
      state.accessTokens.get now presented = some data ∧
      (handleToken config tables faults now state params accessToken refreshToken).2 =
        .issued accessToken refreshToken data.scope ∧
      (handleToken config tables faults now state params accessToken refreshToken).1.accessTokens =
        (issueTokens config now state (.ofToken data) (secretBoundKeyId config tables faults params.clientSecret)
          params.resource config.oauthRefreshTtlSeconds accessToken refreshToken).accessTokens.delete presented) ∨
    ∃ code data codeVerifier, params.grantType ≠ some "refresh_token" ∧ truthy params.code = some code ∧
      state.authCodes.get now code = some data ∧ params.redirectUri = some data.redirectUri ∧
      truthy params.codeVerifier = some codeVerifier ∧ config.digests.base64Url codeVerifier = data.codeChallenge ∧
      now ≤ data.expiresAt ∧
      (handleToken config tables faults now state params accessToken refreshToken).2 =
        .issued accessToken refreshToken data.scope ∧
      (handleToken config tables faults now state params accessToken refreshToken).1.accessTokens =
        (issueTokens config now state (.ofCode data) (secretBoundKeyId config tables faults params.clientSecret)
          params.resource (config.oauthTokenTtlSeconds * 24) accessToken refreshToken).accessTokens := by
  simp only [handleToken]
  by_cases hrefresh : params.grantType = some "refresh_token"
  · rw [if_pos hrefresh]
    simp only [handleRefreshGrant]
    rcases hpresented : truthy params.refreshToken with _ | presented
    · exact Or.inl ⟨_, _, rfl, fun _ _ h => h⟩
    · simp only
      rcases hget : state.accessTokens.get now presented with _ | data
      · exact Or.inl ⟨_, _, rfl, fun _ _ h => h⟩
      · simp only
        split
        · exact Or.inl ⟨_, _, rfl, fun _ _ h => h⟩
        · split
          · refine Or.inl ⟨_, _, rfl, fun token entry h => ?_⟩
            simp only [Store.delete] at h
            split at h
            · cases h
            · exact h
          · exact Or.inr (Or.inl ⟨presented, data, hrefresh, rfl, hget, rfl, rfl⟩)
  · rw [if_neg hrefresh]
    by_cases hcode : params.grantType = some "authorization_code"
    · rw [if_neg (not_not.mpr hcode)]
      simp only [handleCodeGrant]
      rcases hpresented : truthy params.code with _ | presented
      · exact Or.inl ⟨_, _, rfl, fun _ _ h => h⟩
      · rcases hverifier : truthy params.codeVerifier with _ | codeVerifier
        · exact Or.inl ⟨_, _, rfl, fun _ _ h => h⟩
        · simp only
          rcases hget : state.authCodes.get now presented with _ | data
          · exact Or.inl ⟨_, _, rfl, fun _ _ h => h⟩
          · simp only
            split
            · exact Or.inl ⟨_, _, rfl, fun _ _ h => h⟩
            · rename_i hexpires
              split
              · exact Or.inl ⟨_, _, rfl, fun _ _ h => h⟩
              · rename_i hredirect
                split
                · exact Or.inl ⟨_, _, rfl, fun _ _ h => h⟩
                · rename_i hchallenge
                  exact Or.inr (Or.inr ⟨presented, data, codeVerifier, hrefresh, rfl, hget, (not_not.mp hredirect).symm, rfl,
                    not_not.mp hchallenge, by omega, rfl, rfl⟩)
    · rw [if_pos hcode]
      exact Or.inl ⟨_, _, rfl, fun _ _ h => h⟩

/-! ## Requests that issue no token -/

theorem register_accessTokens (tables : KeyTables) (faults : LookupFaults) (state : OAuthState)
    (request : RegisterRequest) :
    (handleOAuthRegister config tables faults state request).1.accessTokens = state.accessTokens := by
  simp only [handleOAuthRegister]
  split
  · rfl
  · split
    · rfl
    · rename_i next client hregister
      rw [registerClient] at hregister
      simp only at hregister
      split at hregister
      · cases hregister
      · split at hregister <;> (cases hregister; rfl)

theorem handleAuthorize_accessTokens (tables : KeyTables) (faults : LookupFaults) (now : ℕ) (state : OAuthState)
    (params : AuthorizeParams) (code : String) :
    (handleAuthorize config tables faults now state params code).1.accessTokens = state.accessTokens := by
  simp only [handleAuthorize]
  repeat' split
  all_goals rfl

theorem authorizeClient_accessTokens (state : OAuthState) (params : AuthorizeParams) (randomId : String) :
    (authorizeClient config state params randomId).1.accessTokens = state.accessTokens := by
  simp only [authorizeClient]
  split
  · rfl
  · split
    · rfl
    · rfl
    · split
      · rfl
      · split
        · rfl
        · rename_i next client hregister
          simp only [registerClient] at hregister
          split at hregister
          · cases hregister
          · split at hregister <;> (cases hregister; rfl)

theorem authorizeGet_accessTokens (tables : KeyTables) (faults : LookupFaults) (now : ℕ) (state : OAuthState)
    (params : AuthorizeParams) (code randomId : String) :
    (handleOAuthAuthorizeGet config tables faults now state params code randomId).1.accessTokens = state.accessTokens := by
  have hclient := @authorizeClient_accessTokens config state params randomId
  rw [handleOAuthAuthorizeGet]
  rcases hresult : authorizeClient config state params randomId with ⟨next, description | clientName⟩
  · rw [hresult] at hclient
    exact hclient
  · rw [hresult] at hclient
    have hcode := @handleAuthorize_accessTokens config tables faults now next params code
    simp only
    split
    · rcases hauthorized : handleAuthorize config tables faults now next params code with ⟨last, answer⟩
      rw [hauthorized] at hcode
      cases answer <;> exact hcode.trans hclient
    · exact hclient

/-- A request other than one for tokens keeps what holds of the stored ones. -/
theorem holds_step {property : String → TokenData → Prop} {state : OAuthState} (h : state.accessTokens.Holds property)
    (event : Event) (hother : ∀ params accessToken refreshToken, event.request ≠ .token params accessToken refreshToken) :
    (step config state event).accessTokens.Holds property := by
  obtain ⟨now, tables, faults, request⟩ := event
  cases request with
  | register request =>
    rw [step, register_accessTokens]
    exact h
  | authorizeGet params code randomId =>
    rw [step, authorizeGet_accessTokens]
    exact h
  | authorizePost params decision code =>
    simp only [step, handleOAuthAuthorizePost]
    split
    · exact h
    · rw [handleAuthorize_accessTokens]
      exact h
  | token params accessToken refreshToken => exact absurd rfl (hother params accessToken refreshToken)
  | bearer token =>
    have hvalidated : (validateAccessToken now state token).1.accessTokens.Holds property := by
      rw [validateAccessToken]
      split
      · exact h
      · split
        · exact h
        · split
          · exact h.delete token
          · exact h
    simp only [step, extendOAuthToken]
    split
    · exact hvalidated.expireAt _ _ _
    · exact hvalidated
  | cleanup =>
    simp only [step, cleanupExpiredOAuthData]
    split
    · exact h
    · exact h.drop fun _ data => data.expiresAt < now
  | evict lostCodes lostTokens => exact h.drop lostTokens

/-! ## Token requests -/

/-- The stored tokens after an issue inherit, when the new ones have the origin of the grant. -/
theorem holds_issueTokens {origins : String → Option Origin} {state : OAuthState}
    (h : state.accessTokens.Holds fun token data => ∃ origin, origins token = some origin ∧ Inherits data origin)
    {grant : Grant} {origin : Origin} (hclient : grant.clientId = origin.root.clientId)
    (hscope : grant.scope = origin.root.scope) (hbound : grant.boundKeyId = origin.boundKeyId) (now : ℕ)
    (secretBound : Option KeyId) (resource : Option String) (refreshTtl : ℕ) (accessToken refreshToken : String) :
    (issueTokens config now state grant secretBound resource refreshTtl accessToken refreshToken).accessTokens.Holds
      fun token data => ∃ found, (if token = refreshToken ∨ token = accessToken then some (origin.extend secretBound)
        else origins token) = some found ∧ Inherits data found := by
  intro token entry hentry
  simp only [issueTokens, Store.put] at hentry
  by_cases hrefresh : token = refreshToken
  · rw [if_pos hrefresh, Option.some.injEq] at hentry
    refine ⟨_, if_pos (Or.inl hrefresh), ?_⟩
    rw [← hentry]
    exact inherits_tokenData hclient hscope hbound secretBound resource now _
  · rw [if_neg hrefresh] at hentry
    by_cases haccess : token = accessToken
    · rw [if_pos haccess, Option.some.injEq] at hentry
      refine ⟨_, if_pos (Or.inr haccess), ?_⟩
      rw [← hentry]
      exact inherits_tokenData hclient hscope hbound secretBound resource now _
    · rw [if_neg haccess] at hentry
      obtain ⟨found, hfound, hinherits⟩ := h token entry hentry
      exact ⟨found, (if_neg (by tauto)).trans hfound, hinherits⟩

/-- A step of the server keeps the inheritance, and issues tokens properly. -/
theorem tokensInherit_trace (traced : Traced) (event : Event) (h : TokensInherit traced) :
    TokensInherit (trace config traced event) ∧ IssuesProperly config traced event := by
  obtain ⟨now, tables, faults, request⟩ := event
  cases request with
  | token params accessToken refreshToken =>
    rcases @handleToken_cases config tables faults now traced.state params accessToken refreshToken with
      ⟨error, description, hanswer, hstored⟩ | ⟨presented, data, hrefresh, hpresented, hget, hanswer, htokens⟩ |
      ⟨code, data, codeVerifier, hcode, hpresented, hget, hredirect, hverifier, hchallenge, htime, hanswer, htokens⟩
    · constructor
      · intro token entry hentry
        obtain ⟨origin, horigin, hinherits⟩ := h token entry (hstored token entry hentry)
        refine ⟨origin, ?_, hinherits⟩
        simp only [trace, answer, hanswer]
        exact horigin
      · simp only [IssuesProperly, answer, hanswer]
    · constructor
      · obtain ⟨origin, horigin, hinherits⟩ := h.of_get hget
        have hgranted :
          grantedOrigin config traced ⟨now, tables, faults, .token params accessToken refreshToken⟩ params =
            some (origin.extend (secretBoundKeyId config tables faults params.clientSecret)) := by
          simp only [grantedOrigin, hrefresh, if_true, hpresented, Option.bind_some, horigin, Option.map_some]
        have hissued :=
          @holds_issueTokens config traced.origins traced.state h (.ofToken data) origin hinherits.clientId
          hinherits.scope hinherits.boundKeyId now (secretBoundKeyId config tables faults params.clientSecret) params.resource
          config.oauthRefreshTtlSeconds accessToken refreshToken
        rw [TokensInherit]
        simp only [trace, answer, hanswer, step, htokens, hgranted]
        exact hissued.delete presented
      · simp only [IssuesProperly, answer, hanswer]
        exact fun hother => absurd hrefresh hother
    · constructor
      · have hgranted :
          grantedOrigin config traced ⟨now, tables, faults, .token params accessToken refreshToken⟩ params =
            some (Origin.extend ⟨data, []⟩ (secretBoundKeyId config tables faults params.clientSecret)) := by
          simp only [grantedOrigin, if_neg hcode, hpresented, Option.bind_some, hget, Option.map_some, Origin.extend,
            List.nil_append]
        have hissued :=
          @holds_issueTokens config traced.origins traced.state h (.ofCode data) ⟨data, []⟩ rfl rfl rfl now
          (secretBoundKeyId config tables faults params.clientSecret) params.resource (config.oauthTokenTtlSeconds * 24)
          accessToken refreshToken
        rw [TokensInherit]
        simp only [trace, answer, hanswer, step, htokens, hgranted]
        exact hissued
      · simp only [IssuesProperly, answer, hanswer]
        exact fun _ => ⟨code, data, codeVerifier, hpresented, hget, hredirect, hverifier, hchallenge, htime⟩
  | _ =>
    constructor
    · exact holds_step h _ fun _ _ _ hrequest => by cases hrequest
    · trivial

/-- A run in which tokens are issued properly and every state has tokens that inherit. -/
structure BindingPreserved (config : Config) (events : List Event) : Prop where
  issued : StepsMeet (trace config) (IssuesProperly config) .empty events
  inherited : ∀ earlier, earlier <+: events → TokensInherit (run (trace config) .empty earlier)

/-- The binding is preserved along every grant in every run. -/
theorem binding_preserved (config : Config) (events : List Event) : BindingPreserved config events := by
  have hempty : TokensInherit Traced.empty := Store.holds_empty
  have hmeet : StepsMeet (trace config) (fun _ _ => True) .empty events :=
    stepsMeet_of_forall (fun _ _ => trivial) Traced.empty events
  exact ⟨stepsMeet_of_invariant (fun traced event h _ => tokensInherit_trace traced event h) hempty hmeet,
    fun _ hprefix => invariant_throughout (fun traced event h _ => (tokensInherit_trace traced event h).1) hempty hmeet hprefix⟩

end FragmentMemory.GrantChains
