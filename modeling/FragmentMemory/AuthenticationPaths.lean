import FragmentMemory.Authentication
import FragmentMemory.OAuthBinding

/-! # Three ways to show an API key

The raw secret as bearer, a token with the key in `bound_key_id` and a token whose client id is the secret.
The lookup by id reads no daily limit, and its result is handed on without the default mode.
-/
namespace FragmentMemory.AuthenticationPaths
open ApiKeyStore JsString KeyValueStore OAuthServer Authentication

/-- What an accepted request may do. -/
structure Access where
  keyId : Option KeyId
  groupKeyIds : Option (List KeyId)
  permissions : Option (List Permission)
  defaultWorkspace : Option String
  defaultMode : Option String
  deriving DecidableEq

def Identity.access (identity : Identity) : Access :=
  ⟨identity.keyId, identity.groupKeyIds, identity.permissions, identity.defaultWorkspace, identity.defaultMode⟩

def accessOf (result : AuthResult) : Option Access := result.identity?.map Identity.access

/-- Three requests with one credential each, and the records of their two tokens. -/
structure Credentials where
  secret : String
  secretHeader : String
  boundToken : String
  boundHeader : String
  boundData : TokenData
  clientToken : String
  clientHeader : String
  clientData : TokenData

variable (config : Config) (now : ℕ) (stores : AuthStores)

/-- The answer to a request with an Authorization header and nothing else, over a database that answers. -/
def answer (header : String) : Option Access :=
  accessOf (validateAuthentication config {} now stores { authorization := some header }).2

/-- A header carries a bearer token other than the access key of the server. -/
structure Carries (header token : String) : Prop where
  bearer : extractBearerToken (some header) = some token
  other : safeCompare config token config.accessKey = false

/-- The requests show one key: its secret, a token bound to its id and a token issued to its secret. -/
structure ShowKey (key : ApiKey) (shown : Credentials) : Prop where
  secretHeader : Carries config shown.secretHeader shown.secret
  boundHeader : Carries config shown.boundHeader shown.boundToken
  clientHeader : Carries config shown.clientHeader shown.clientToken
  secret : key.keyHash = hashKey config.digests shown.secret
  noToken : (validateAccessToken now stores.oauth shown.secret).2 = none
  boundToken : (validateAccessToken now stores.oauth shown.boundToken).2 = some shown.boundData
  boundKey : shown.boundData.boundKeyId = some key.id.val
  clientToken : (validateAccessToken now stores.oauth shown.clientToken).2 = some shown.clientData
  clientKey : shown.clientData.boundKeyId = none ∧ shown.clientData.isApiKey = true ∧
    shown.clientData.clientId = some shown.secret

/-- The three requests get the same answer. -/
def PathsAgree (shown : Credentials) : Prop :=
  answer config now stores shown.secretHeader = answer config now stores shown.boundHeader ∧
    answer config now stores shown.secretHeader = answer config now stores shown.clientHeader

/-- The key is usable today and has no default mode; or it is inactive, tokens without a usable key are rejected,
and the client of the bound token shows no other key. -/
def Aligned (key : ApiKey) (shown : Credentials) : Prop :=
  config.accessKey = "" ∨
    key.status = .active ∧ stores.tables.usageToday key.id < key.dailyLimit ∧ key.defaultMode = none ∨
    key.status ≠ .active ∧ rejectsUnboundTokens config = true ∧ (clientIdKey config {} stores.tables shown.boundData) = none

/-- What a usable key gives. -/
def keyAccess (tables : KeyTables) (key : ApiKey) : Access :=
  ⟨some key.id, some (getGroupKeyIds tables key.id), some key.permissions, key.defaultWorkspace, key.defaultMode⟩

variable {config now stores} {key : ApiKey} {shown : Credentials}

theorem find?_eq_of_nodup {α β : Type*} [DecidableEq β] {f : α → β} {items : List α} (hnodup : (items.map f).Nodup)
    {item : α} (hitem : item ∈ items) : (items.find? fun other => f other = f item) = some item := by
  obtain ⟨found, hfound⟩ := Option.isSome_iff_exists.mp
    (List.find?_isSome.mpr ⟨item, hitem, decide_eq_true rfl⟩ :
      (items.find? fun other => decide (f other = f item)).isSome)
  have hfoundItem := List.find?_some hfound
  have hsame : f found = f item := of_decide_eq_true hfoundItem
  rw [hfound, List.inj_on_of_nodup_map hnodup (List.mem_of_find?_eq_some hfound) hitem hsame]

/-- The lookup by the secret. -/
theorem keyFromSecret?_eq (hmem : key ∈ stores.tables.keys) (hhashes : (stores.tables.keys.map ApiKey.keyHash).Nodup)
    {secret : String} (hsecret : key.keyHash = hashKey config.digests secret) :
    ∀ oauth, ((keyFromSecret? config.digests stores.tables {} (some secret)).map fun found =>
        Identity.access (Identity.ofKey found oauth)) =
      if key.status = .active ∧ stores.tables.usageToday key.id < key.dailyLimit then some (keyAccess stores.tables key)
      else none := by
  intro oauth
  have hfind := find?_eq_of_nodup hhashes hmem
  rw [hsecret] at hfind
  simp only [keyFromSecret?, validateApiKeyFromDB, Bool.false_eq_true, if_false, hfind]
  by_cases hactive : key.status = .active
  · by_cases hlimit : key.dailyLimit ≤ stores.tables.usageToday key.id
    · have hnot : ¬ (key.status = .active ∧ stores.tables.usageToday key.id < key.dailyLimit) := by omega
      simp only [hactive, ne_eq, not_true_eq_false, if_false, hlimit, if_true, Validation.key?, Option.map_none]
      rw [if_neg (by omega)]
    · have hbelow : stores.tables.usageToday key.id < key.dailyLimit := by omega
      simp only [hactive, ne_eq, not_true_eq_false, if_false, hlimit, Validation.key?, Option.map_some, hbelow,
        and_self,
        if_true]
      rfl
  · simp only [hactive, ne_eq, not_false_eq_true, if_true, Validation.key?, Option.map_none, false_and, if_false]

/-- The lookup by the id. -/
theorem boundKey_eq (hmem : key ∈ stores.tables.keys) (hids : (stores.tables.keys.map ApiKey.id).Nodup)
    {data : TokenData}
    (hbound : data.boundKeyId = some key.id.val) :
    ((boundKey {} stores.tables data).map fun found =>
        Identity.access { Identity.ofKey found true with defaultMode := none }) =
      if key.status = .active then some { keyAccess stores.tables key with defaultMode := none } else none := by
  have hfilled : key.id.val ≠ "" := by
    intro hempty
    have huuid := key.id.property
    rw [hempty] at huuid
    exact absurd huuid (by decide)
  have hvalueNodup : (stores.tables.keys.map fun other => other.id.val).Nodup := by
    have hmapped := hids.map Subtype.val_injective
    rw [List.map_map] at hmapped
    exact hmapped
  have hvalues : (stores.tables.keys.find? fun other => other.id.val = key.id.val) = some key :=
    find?_eq_of_nodup hvalueNodup hmem
  have htruthy : truthy data.boundKeyId = some key.id.val := by
    rw [hbound, truthy, Option.filter_some, if_pos (decide_eq_true hfilled)]
  simp only [boundKey, htruthy, Option.bind_some, validateApiKeyById, if_neg hfilled, Bool.false_eq_true, if_false,
    hvalues]
  by_cases hactive : key.status = .active
  · simp only [hactive, ne_eq, not_true_eq_false, if_false, Validation.key?, Option.map_some, if_true]
    rfl
  · simp only [hactive, ne_eq, not_false_eq_true, if_true, Validation.key?, Option.map_none, if_false]

/-- What a valid token gives: its bound key, else the key of its client id, else the setting decides. -/
def tokenAccess (config : Config) (tables : KeyTables) (data : TokenData) : Option Access :=
  ((boundKey {} tables data).map fun found => Identity.access { Identity.ofKey found true with defaultMode := none }).or
    (((clientIdKey config {} tables data).map fun found => Identity.access (Identity.ofKey found true)).or
      (if rejectsUnboundTokens config then none else some ⟨none, none, none, none, none⟩))

theorem answer_of_token (hconfigured : config.accessKey ≠ "") {header token : String} {data : TokenData}
    (hcarries : Carries config header token) (htoken : (validateAccessToken now stores.oauth token).2 = some data) :
    answer config now stores header = tokenAccess config stores.tables data := by
  simp only [answer, validateAuthentication, if_neg hconfigured, truthy, Option.filter_none, authenticateBearer,
    hcarries.bearer, hcarries.other, Bool.false_eq_true, if_false]
  rcases hvalidated : validateAccessToken now stores.oauth token with ⟨oauth, found⟩
  rw [hvalidated] at htoken
  obtain rfl : found = some data := htoken
  simp only [authenticateToken, tokenAccess]
  rcases boundKey {} stores.tables data with _ | bound
  · rcases clientIdKey config {} stores.tables data with _ | client
    · cases rejectsUnboundTokens config <;> rfl
    · rfl
  · rfl

theorem answer_of_secret (hconfigured : config.accessKey ≠ "") {header secret : String}
    (hcarries : Carries config header secret) (htoken : (validateAccessToken now stores.oauth secret).2 = none) :
    answer config now stores header = (keyFromSecret? config.digests stores.tables {} (some secret)).map fun found =>
      Identity.access (Identity.ofKey found false) := by
  simp only [answer, validateAuthentication, if_neg hconfigured, truthy, Option.filter_none, authenticateBearer,
    hcarries.bearer, hcarries.other, Bool.false_eq_true, if_false]
  rcases hvalidated : validateAccessToken now stores.oauth secret with ⟨oauth, found⟩
  rw [hvalidated] at htoken
  obtain rfl : found = none := htoken
  simp only
  rcases keyFromSecret? config.digests stores.tables {} (some secret) with _ | key
  · rfl
  · rfl

/-- The three requests are answered alike exactly when the key is aligned. -/
theorem paths_agree_iff (config : Config) (now : ℕ) (stores : AuthStores) (key : ApiKey) (shown : Credentials)
    (hmem : key ∈ stores.tables.keys) (hids : (stores.tables.keys.map ApiKey.id).Nodup)
    (hhashes : (stores.tables.keys.map ApiKey.keyHash).Nodup) (hshown : ShowKey config now stores key shown) :
    PathsAgree config now stores shown ↔ Aligned config stores key shown := by
  by_cases hconfigured : config.accessKey = ""
  · have hsame : ∀ header other, answer config now stores header = answer config now stores other := by
      intro header other
      simp only [answer, validateAuthentication, if_pos hconfigured]
    exact iff_of_true ⟨hsame _ _, hsame _ _⟩ (Or.inl hconfigured)
  · have hsecret := @keyFromSecret?_eq config stores key hmem hhashes shown.secret hshown.secret
    obtain ⟨hnone, hapi, hclient⟩ := hshown.clientKey
    have hbySecret := (answer_of_secret hconfigured hshown.secretHeader hshown.noToken).trans (hsecret false)
    have hbyClient : answer config now stores shown.clientHeader =
        (if key.status = .active ∧
          stores.tables.usageToday key.id < key.dailyLimit then some (keyAccess stores.tables key)
          else none).or (if rejectsUnboundTokens config then none else some ⟨none, none, none, none, none⟩) := by
      have hunbound : boundKey {} stores.tables shown.clientData = none := by
        rw [boundKey, hnone]
        rfl
      have hkey : clientIdKey config {} stores.tables shown.clientData =
          keyFromSecret? config.digests stores.tables {} (some shown.secret) := by
        rw [clientIdKey, if_pos hapi, hclient]
      rw [answer_of_token hconfigured hshown.clientHeader hshown.clientToken, tokenAccess, hunbound, hkey,
        ← hsecret true,
        Option.map_none, Option.none_or]
    have hbyBound : answer config now stores shown.boundHeader =
        (if key.status = .active then some { keyAccess stores.tables key with defaultMode := none } else none).or
          (((clientIdKey config {} stores.tables shown.boundData).map fun found =>
            Identity.access (Identity.ofKey found true)).or
            (if rejectsUnboundTokens config then none else some ⟨none, none, none, none, none⟩)) := by
      rw [answer_of_token hconfigured hshown.boundHeader hshown.boundToken, tokenAccess,
        boundKey_eq hmem hids hshown.boundKey]
    rw [PathsAgree, Aligned, hbySecret, hbyClient, hbyBound]
    by_cases hactive : key.status = .active
    · by_cases hlimit : stores.tables.usageToday key.id < key.dailyLimit
      · simp only [hactive, hlimit, and_self, if_true, Option.some_or, and_true, hconfigured, false_or, true_and, ne_eq,
          not_true_eq_false, false_and, or_false, Option.some.injEq, keyAccess]
        constructor
        · intro h
          exact (Access.mk.inj h).2.2.2.2
        · intro hmode
          rw [hmode]
      · simp [hactive, hlimit, hconfigured]
    · simp only [hactive, hconfigured, false_and, if_false, Option.none_or, false_or, ne_eq, not_false_eq_true,
        true_and]
      cases rejectsUnboundTokens config <;> cases clientIdKey config {} stores.tables shown.boundData <;> simp

instance (config : Config) (now : ℕ) (stores : AuthStores) (shown : Credentials) :
    Decidable (PathsAgree config now stores shown) :=
  inferInstanceAs (Decidable (_ ∧ _))

def boundRecord : TokenData where
  type := .access
  clientId := some "alice_7b1f6f0e"
  scope := "mcp"
  isApiKey := true
  boundKeyId := some OAuthBinding.aliceId.val
  resource := none
  createdAt := 1000
  expiresAt := 9000

def clientRecord : TokenData :=
  { boundRecord with clientId := some "wdm_alice_00112233445566778899aabbccddeeff", boundKeyId := none }

/-- A server with one key, called so often today, and its two tokens. -/
def storesWith (key : ApiKey) (used : ℕ) : AuthStores where
  oauth := { OAuthState.empty with
    accessTokens := (Store.empty.put "access-bound" boundRecord none).put "access-client" clientRecord none }
  tables := ⟨[key], fun _ => used, []⟩

def aliceShown : Credentials where
  secret := "wdm_alice_00112233445566778899aabbccddeeff"
  secretHeader := "Bearer wdm_alice_00112233445566778899aabbccddeeff"
  boundToken := "access-bound"
  boundHeader := "Bearer access-bound"
  boundData := boundRecord
  clientToken := "access-client"
  clientHeader := "Bearer access-client"
  clientData := clientRecord

theorem showKey_alice {key : ApiKey} {used : ℕ} (hid : key.id = OAuthBinding.aliceId)
    (hhash : key.keyHash = OAuthBinding.aliceKey.keyHash) :
    ShowKey OAuthBinding.sampleConfig 2000 (storesWith key used) key aliceShown where
  secretHeader := ⟨by decide, by decide⟩
  boundHeader := ⟨by decide, by decide⟩
  clientHeader := ⟨by decide, by decide⟩
  secret := hhash
  noToken := rfl
  boundToken := rfl
  boundKey := by rw [hid]; rfl
  clientToken := rfl
  clientKey := ⟨rfl, rfl, rfl⟩

/-- At its daily limit the key is refused by its secret and accepted by its id; with a default mode the token that is
bound to its id loses the mode. -/
theorem bound_token_differs :
    ¬ PathsAgree OAuthBinding.sampleConfig 2000 (storesWith OAuthBinding.aliceKey 10000) aliceShown ∧
      ¬ PathsAgree OAuthBinding.sampleConfig 2000
        (storesWith { OAuthBinding.aliceKey with defaultMode := some "recall-only" } 0) aliceShown := by
  decide

theorem paths_agree_iff_alice :
    PathsAgree OAuthBinding.sampleConfig 2000 (storesWith OAuthBinding.aliceKey 7) aliceShown :=
  (paths_agree_iff OAuthBinding.sampleConfig 2000 (storesWith OAuthBinding.aliceKey 7) OAuthBinding.aliceKey aliceShown
    (List.mem_singleton.mpr rfl) (List.nodup_singleton _) (List.nodup_singleton _) (showKey_alice rfl rfl)).mpr
    (Or.inr (Or.inl ⟨rfl, by decide, rfl⟩))

end FragmentMemory.AuthenticationPaths
