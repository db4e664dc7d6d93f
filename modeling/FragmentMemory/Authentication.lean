import FragmentMemory.OAuthServer

/-! # Authentication of a request

The credential is the access key of the server, an OAuth access token or a raw API key.  The result
names the key in whose scope the request is executed; no key is the master scope.
-/
namespace FragmentMemory.Authentication

open ApiKeyStore JsString KeyValueStore OAuthServer

/-- The stores that authentication reads and updates. -/
structure AuthStores where
  oauth : OAuthState
  tables : KeyTables

/-- The credentials of a request: two headers and `params.accessKey` of an initialize message. -/
structure CredentialHeaders where
  legacyKey : Option String := none
  authorization : Option String := none
  initializeAccessKey : Option String := none

structure Identity where
  keyId : Option KeyId := none
  oauth : Bool := false
  authDisabled : Bool := false
  clientId : Option String := none
  groupKeyIds : Option (List KeyId) := none
  permissions : Option (List Permission) := none
  defaultWorkspace : Option String := none
  defaultMode : Option String := none

inductive AuthResult
  | denied (error : String)
  | accepted (identity : Identity)

def AuthResult.identity? : AuthResult → Option Identity
  | .denied _ => none
  | .accepted identity => some identity

/-- The scope in which an accepted request runs: `authResult.keyId ?? null`. -/
def AuthResult.executedAs (result : AuthResult) : Option (Option KeyId) :=
  result.identity?.map Identity.keyId

def Identity.ofKey (key : ValidKey) (oauth : Bool) : Identity where
  keyId := some key.keyId
  oauth := oauth
  groupKeyIds := some key.groupKeyIds
  permissions := some key.permissions
  defaultWorkspace := key.defaultWorkspace
  defaultMode := key.defaultMode

variable (config : Config) (faults : LookupFaults) (now : ℕ)

def AuthStores.used (stores : AuthStores) (key : ValidKey) : AuthStores :=
  { stores with tables := incrementUsage stores.tables key.keyId }

/-- The active key in `bound_key_id` of a token. -/
def boundKey (tables : KeyTables) (data : TokenData) : Option ValidKey :=
  (truthy data.boundKeyId).bind fun id => (validateApiKeyById tables faults id).key?

/-- The key whose raw secret is the client id of an API-key token. -/
def clientIdKey (tables : KeyTables) (data : TokenData) : Option ValidKey :=
  if data.isApiKey then keyFromSecret? config.digests tables faults data.clientId else none

def rejectsUnboundTokens : Bool :=
  config.rejectNonApiKeyOAuth && config.accessKey ≠ "" && !config.authDisabled

/-- A valid access token: its bound key, else the key of its client id, else the setting decides
between a rejection and an identity without a key. -/
def authenticateToken (stores : AuthStores) (token : String) (data : TokenData) : AuthStores × AuthResult :=
  let stores := { stores with oauth := extendOAuthToken config now stores.oauth token }
  match boundKey faults stores.tables data with
  | some key => (stores.used key, .accepted { Identity.ofKey key true with defaultMode := none })
  | none =>
    match clientIdKey config faults stores.tables data with
    | some key => (stores.used key, .accepted (.ofKey key true))
    | none =>
      if rejectsUnboundTokens config then (stores, .denied "non-API-key OAuth denied")
      else (stores, .accepted { oauth := true, clientId := data.clientId })

def invalidKey : AuthResult := .denied "Invalid or missing access key"

/-- Step 3 of `validateAuthentication`: the access key inside an initialize message. -/
def authenticateInitialize (headers : CredentialHeaders) : AuthResult :=
  match truthy headers.initializeAccessKey with
  | some key => if safeCompare config key config.accessKey then .accepted {} else invalidKey
  | none => invalidKey

/-- Step 2 of `validateAuthentication`: the access key, an OAuth token or a raw API key as bearer. -/
def authenticateBearer (stores : AuthStores) (headers : CredentialHeaders) : AuthStores × AuthResult :=
  match extractBearerToken headers.authorization with
  | none => (stores, authenticateInitialize config headers)
  | some token =>
    if safeCompare config token config.accessKey then (stores, .accepted {})
    else match validateAccessToken now stores.oauth token with
    | (oauth, some data) => authenticateToken config faults now { stores with oauth } token data
    | (oauth, none) =>
      match keyFromSecret? config.digests stores.tables faults (some token) with
      | some key => (AuthStores.used { stores with oauth } key, .accepted (.ofKey key false))
      | none => ({ stores with oauth }, authenticateInitialize config headers)

/-- `validateAuthentication`. -/
def validateAuthentication (stores : AuthStores) (headers : CredentialHeaders) : AuthStores × AuthResult :=
  if config.accessKey = "" then
    if config.authDisabled then (stores, .accepted { authDisabled := true })
    else (stores, .denied "Server authentication is not configured. Set WEASLEY_DEEPMIND_ACCESS_KEY or explicitly opt out with WEASLEY_DEEPMIND_AUTH_DISABLED=true for local development.")
  else match truthy headers.legacyKey with
  | some key =>
    if safeCompare config key config.accessKey then (stores, .accepted {})
    else authenticateBearer config faults now stores headers
  | none => authenticateBearer config faults now stores headers

end FragmentMemory.Authentication
