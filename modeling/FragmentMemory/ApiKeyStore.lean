import Mathlib.Data.List.Dedup

/-! # API keys: the store of tenant credentials

Only the SHA-256 hash of a raw key is stored.  A key is validated by its raw secret on the bearer
paths and by its id on the path of a bound OAuth token.
-/
namespace FragmentMemory.ApiKeyStore

/-- The shape of `gen_random_uuid()::text`. -/
def isUuid (text : String) : Bool :=
  text.toList.length = 36 && text.toList.all fun c => c.isDigit || ('a' ≤ c && c ≤ 'f') || c = '-'

/-- The id of a row of `api_keys`. -/
abbrev KeyId := { text : String // isUuid text = true }

inductive Permission | read | write deriving DecidableEq

inductive KeyStatus | active | inactive deriving DecidableEq

structure ApiKey where
  id : KeyId
  name : String
  keyHash : String
  permissions : List Permission
  status : KeyStatus
  dailyLimit : ℕ
  fragmentLimit : Option ℕ
  defaultWorkspace : Option String
  defaultMode : Option String
  deriving DecidableEq

/-- The tables `api_keys`, `api_key_usage` for the current date, and `api_key_group_members`. -/
structure KeyTables where
  keys : List ApiKey
  usageToday : KeyId → ℕ
  groupMembers : List (String × KeyId)

/-- SHA-256 as it is used on keys, tokens and PKCE verifiers. -/
structure Digests where
  hex : String → String
  base64Url : String → String

/-- Which of the two key lookups of a request throws. -/
structure LookupFaults where
  byHash : Bool := false
  byId : Bool := false

structure ValidKey where
  keyId : KeyId
  name : String
  groupKeyIds : List KeyId
  permissions : List Permission
  fragmentLimit : Option ℕ := none
  defaultWorkspace : Option String
  defaultMode : Option String

inductive Validation
  | invalid (reason : Option String)
  | valid (key : ValidKey)

def Validation.key? : Validation → Option ValidKey
  | .invalid _ => none
  | .valid key => some key

variable (digests : Digests)

def hashKey (raw : String) : String := digests.hex raw

/-- The members of every group of the key, or the key alone. -/
def getGroupKeyIds (tables : KeyTables) (keyId : KeyId) : List KeyId :=
  let joined := tables.groupMembers.flatMap fun own =>
    if own.2 = keyId then (tables.groupMembers.filter fun other => other.1 = own.1).map Prod.snd else []
  if joined.isEmpty then [keyId] else joined.dedup

/-- `validateApiKeyFromDB`.  A null raw key makes the hash throw, as a failing query does. -/
def validateApiKeyFromDB (tables : KeyTables) (faults : LookupFaults) (rawKey : Option String) :
    Except String Validation :=
  match rawKey with
  | none => .error "The \"data\" argument must be of type string"
  | some raw =>
    if faults.byHash then .error "query failed" else
    match tables.keys.find? fun key => key.keyHash = hashKey digests raw with
    | none => .ok (.invalid none)
    | some key =>
      if key.status ≠ .active then .ok (.invalid (some "inactive"))
      else if key.dailyLimit ≤ tables.usageToday key.id then .ok (.invalid (some "limit_exceeded"))
      else .ok (.valid
        { keyId := key.id, name := key.name, groupKeyIds := getGroupKeyIds tables key.id,
          permissions := key.permissions, fragmentLimit := key.fragmentLimit,
          defaultWorkspace := key.defaultWorkspace, defaultMode := key.defaultMode })

/-- `validateApiKeyById`, whose own `catch` turns a failing query into an invalid key.  It does not
read the daily limit. -/
def validateApiKeyById (tables : KeyTables) (faults : LookupFaults) (id : String) : Validation :=
  if id = "" then .invalid none
  else if faults.byId then .invalid none
  else match tables.keys.find? fun key => key.id.val = id with
    | none => .invalid none
    | some key =>
      if key.status ≠ .active then .invalid (some "inactive")
      else .valid
        { keyId := key.id, name := key.name, groupKeyIds := getGroupKeyIds tables key.id,
          permissions := key.permissions, defaultWorkspace := key.defaultWorkspace,
          defaultMode := key.defaultMode }

/-- Callers swallow a throwing lookup by the raw key and go on as if no key had matched. -/
def keyFromSecret? (tables : KeyTables) (faults : LookupFaults) (rawKey : Option String) : Option ValidKey :=
  match validateApiKeyFromDB digests tables faults rawKey with
  | .error _ => none
  | .ok validation => validation.key?

def incrementUsage (tables : KeyTables) (keyId : KeyId) : KeyTables :=
  { tables with usageToday := fun other => if other = keyId then tables.usageToday other + 1
                                           else tables.usageToday other }

/-- The raw string is the secret of the row with this id. -/
def IsSecretOf (tables : KeyTables) (raw : String) (keyId : KeyId) : Prop :=
  ∃ key ∈ tables.keys, key.id = keyId ∧ key.keyHash = hashKey digests raw

instance (tables : KeyTables) (raw : String) (keyId : KeyId) :
    Decidable (IsSecretOf digests tables raw keyId) :=
  inferInstanceAs (Decidable (∃ key ∈ tables.keys, key.id = keyId ∧ key.keyHash = hashKey digests raw))

@[simp] theorem incrementUsage_keys (tables : KeyTables) (keyId : KeyId) :
    (incrementUsage tables keyId).keys = tables.keys := rfl

variable {digests}

/-- A raw key is accepted only for the active row with its hash and calls left today. -/
theorem validateApiKeyFromDB_valid {tables : KeyTables} {faults : LookupFaults} {rawKey : Option String}
    {key : ValidKey} (h : validateApiKeyFromDB digests tables faults rawKey = .ok (.valid key)) :
    ∃ raw, rawKey = some raw ∧ ∃ row ∈ tables.keys, row.keyHash = hashKey digests raw ∧
      row.status = .active ∧ tables.usageToday row.id < row.dailyLimit ∧ key.keyId = row.id := by
  unfold validateApiKeyFromDB at h
  split at h
  · cases h
  rename_i raw
  split at h
  · cases h
  split at h
  · simp at h
  rename_i row hfind
  have hhash : row.keyHash = hashKey digests raw := by simpa using List.find?_some hfind
  split at h
  · simp at h
  rename_i hactive
  split at h
  · simp at h
  rename_i hlimit
  simp only [Except.ok.injEq, Validation.valid.injEq] at h
  exact ⟨raw, rfl, row, List.mem_of_find?_eq_some hfind, hhash, by simpa using hactive, by omega, by rw [← h]⟩

theorem keyFromSecret?_eq_some_iff {tables : KeyTables} {faults : LookupFaults} {rawKey : Option String}
    {key : ValidKey} : keyFromSecret? digests tables faults rawKey = some key ↔
      validateApiKeyFromDB digests tables faults rawKey = .ok (.valid key) := by
  unfold keyFromSecret?
  cases validateApiKeyFromDB digests tables faults rawKey with
  | error message => simp
  | ok validation => cases validation <;> simp [Validation.key?]

/-- A lookup by the raw key succeeds only for its owner. -/
theorem keyFromSecret?_some {tables : KeyTables} {faults : LookupFaults} {rawKey : Option String}
    {key : ValidKey} (h : keyFromSecret? digests tables faults rawKey = some key) :
    ∃ raw, rawKey = some raw ∧ IsSecretOf digests tables raw key.keyId := by
  obtain ⟨raw, hraw, row, hrow, hhash, _, _, hid⟩ :=
    validateApiKeyFromDB_valid (keyFromSecret?_eq_some_iff.mp h)
  exact ⟨raw, hraw, row, hrow, hid.symm, hhash⟩

/-- A lookup by id returns the active key with that id. -/
theorem validateApiKeyById_valid {tables : KeyTables} {faults : LookupFaults} {id : String} {key : ValidKey}
    (h : validateApiKeyById tables faults id = .valid key) :
    key.keyId.val = id ∧ ∃ row ∈ tables.keys, row.id = key.keyId ∧ row.status = .active := by
  unfold validateApiKeyById at h
  split at h
  · cases h
  split at h
  · cases h
  split at h
  · cases h
  rename_i row hfind
  have hid : row.id.val = id := by simpa using List.find?_some hfind
  split at h
  · cases h
  rename_i hactive
  simp only [Validation.valid.injEq] at h
  rw [← h]
  exact ⟨hid, row, List.mem_of_find?_eq_some hfind, rfl, by simpa using hactive⟩

/-- With unique ids an active key is found by its id unless the lookup fails. -/
theorem validateApiKeyById_of_active {tables : KeyTables} {faults : LookupFaults}
    (hunique : (tables.keys.map ApiKey.id).Nodup) {row : ApiKey} (hrow : row ∈ tables.keys)
    (hactive : row.status = .active) (hfault : faults.byId = false) :
    ∃ key, validateApiKeyById tables faults row.id.val = .valid key ∧ key.keyId = row.id := by
  have hempty : row.id.val ≠ "" := by
    intro hid
    have huuid := row.id.property
    rw [hid] at huuid
    exact absurd huuid (by decide)
  obtain ⟨found, hfound⟩ := Option.isSome_iff_exists.mp
    (List.find?_isSome (p := fun key : ApiKey => key.id.val = row.id.val).mpr ⟨row, hrow, by simp⟩)
  have hid : found.id.val = row.id.val := by simpa using List.find?_some hfound
  have hsame : found = row :=
    List.inj_on_of_nodup_map hunique (List.mem_of_find?_eq_some hfound) hrow (Subtype.ext hid)
  subst hsame
  unfold validateApiKeyById
  simp only [if_neg hempty, hfault, Bool.false_eq_true, if_false, hfound, hactive, ne_eq, not_true_eq_false]
  exact ⟨_, rfl, rfl⟩

/-- With unique hashes an active key with calls left is found by its secret unless the lookup fails. -/
theorem keyFromSecret?_of_active {tables : KeyTables} {faults : LookupFaults} {row : ApiKey} {raw : String}
    (hunique : ∀ other ∈ tables.keys, other.keyHash = row.keyHash → other = row) (hrow : row ∈ tables.keys)
    (hhash : row.keyHash = hashKey digests raw) (hactive : row.status = .active)
    (hlimit : tables.usageToday row.id < row.dailyLimit) (hfault : faults.byHash = false) :
    ∃ key, keyFromSecret? digests tables faults (some raw) = some key ∧ key.keyId = row.id := by
  obtain ⟨found, hfound⟩ := Option.isSome_iff_exists.mp
    (List.find?_isSome (p := fun key : ApiKey => key.keyHash = hashKey digests raw).mpr
      ⟨row, hrow, by simpa using hhash⟩)
  have hfoundHash : found.keyHash = hashKey digests raw := by simpa using List.find?_some hfound
  have hsame : found = row := hunique found (List.mem_of_find?_eq_some hfound) (hfoundHash.trans hhash.symm)
  subst hsame
  have hnot : ¬ found.dailyLimit ≤ tables.usageToday found.id := by omega
  unfold keyFromSecret? validateApiKeyFromDB
  simp only [hfault, Bool.false_eq_true, if_false, hfound, hactive, ne_eq, not_true_eq_false, if_neg hnot]
  exact ⟨_, rfl, rfl⟩

end FragmentMemory.ApiKeyStore
