import FragmentMemory.ApiKeyStore
import FragmentMemory.UniqueIndexTable
import Mathlib.Algebra.Order.Ring.Unbundled.Rat
import Mathlib.Data.List.Infix

/-! # The fragment store: tables and Redis index

The rows of `fragments`, `fragment_links`, `case_events` and the tables around them, with the
unique indexes of the schema and its migrations, and the members of the Redis inverted index.
-/
namespace FragmentMemory.FragmentTables
open ApiKeyStore UniqueIndexTable

abbrev FragmentId := String

/-- Milliseconds of the database clock. -/
abbrev Time := ℕ

inductive FragmentType | fact | decision | error | preference | procedure | relation | episode
  deriving DecidableEq

inductive TtlTier | short | hot | warm | cold | permanent deriving DecidableEq

inductive AssertionStatus | observed | inferred | verified | rejected deriving DecidableEq

inductive ResolutionStatus | open_ | resolved | abandoned deriving DecidableEq

inductive Affect | neutral | frustration | confidence | surprise | doubt | satisfaction
  deriving DecidableEq

inductive RelationType
  | related | causedBy | resolvedBy | partOf | contradicts | supersededBy | coRetrieved | temporal
  deriving DecidableEq

structure Fragment where
  id : FragmentId
  content : String
  topic : String
  keywords : List String := []
  type : FragmentType
  importance : ℚ
  contentHash : String
  source : Option String := none
  linkedTo : List FragmentId := []
  agentId : String := "default"
  ttlTier : TtlTier := .warm
  estimatedTokens : ℕ := 0
  keyId : Option KeyId
  isAnchor : Bool := false
  contextSummary : Option String := none
  sessionId : Option String := none
  workspace : Option String := none
  caseId : Option String := none
  goal : Option String := none
  outcome : Option String := none
  phase : Option String := none
  resolutionStatus : Option ResolutionStatus := none
  assertionStatus : AssertionStatus := .observed
  affect : Affect := .neutral
  idempotencyKey : Option String := none
  validationWarnings : List String := []
  accessCount : ℕ := 0
  emaActivation : Option ℚ := none
  createdAt : Time
  accessedAt : Option Time := none
  validTo : Option Time := none
  deriving DecidableEq

/-- An entry of a unique index of `fragments`: the primary key, the two partial indexes on
`content_hash` (`uq_frag_hash_master`, `uq_frag_hash_per_key`) and the two on `idempotency_key`. -/
inductive FragmentEntry
  | primary (id : FragmentId)
  | contentHash (keyId : Option KeyId) (hash : String)
  | idempotency (keyId : Option KeyId) (key : String)
  deriving DecidableEq

def Fragment.entries (f : Fragment) : List FragmentEntry :=
  .primary f.id :: .contentHash f.keyId f.contentHash ::
    (f.idempotencyKey.map (FragmentEntry.idempotency f.keyId)).toList

abbrev FragmentTable := Table Fragment.entries

/-- A live row: `valid_to IS NULL`. -/
def Fragment.live (f : Fragment) : Bool := f.validTo.isNone

structure Link where
  fromId : FragmentId
  toId : FragmentId
  relationType : RelationType
  weight : ℚ := 1
  confidence : ℚ := 1
  quarantined : Bool := false
  deletedAt : Option Time := none
  deriving DecidableEq

/-- `UNIQUE (from_id, to_id)`. -/
def Link.entries (l : Link) : List (FragmentId × FragmentId) := [(l.fromId, l.toId)]

abbrev LinkTable := Table Link.entries

def Link.touches (l : Link) (id : FragmentId) : Bool := l.fromId = id || l.toId = id

inductive EventType
  | milestoneReached | hypothesisProposed | hypothesisRejected | decisionCommitted | errorObserved
  | fixAttempted | verificationPassed | verificationFailed
  deriving DecidableEq

structure CaseEvent where
  eventId : String
  caseId : String
  sessionId : Option String
  sequenceNo : ℕ
  eventType : EventType
  summary : String
  entityKeys : List String
  sourceFragmentId : FragmentId
  keyId : Option KeyId
  createdAt : Time
  deriving DecidableEq

inductive EdgeType | causedBy | resolvedBy | precededBy | contradicts deriving DecidableEq

structure CaseEventEdge where
  fromEventId : String
  toEventId : String
  edgeType : EdgeType
  deriving DecidableEq

inductive EvidenceKind | supports | contradicts | producedBy deriving DecidableEq

structure Evidence where
  fragmentId : FragmentId
  eventId : String
  kind : EvidenceKind
  deriving DecidableEq

/-- The inverted index: keyword, topic, type and recency sets and the hot cache per key
namespace, and the fragment set of a session. -/
inductive IndexSet
  | keyword (namespace_ : Option KeyId) (word : String)
  | topic (namespace_ : Option KeyId) (topic : String)
  | type (namespace_ : Option KeyId) (type : FragmentType)
  | recent (namespace_ : Option KeyId)
  | hot (namespace_ : Option KeyId)
  | session (sessionId : String)
  deriving DecidableEq

abbrev RedisIndex := List (IndexSet × FragmentId)

structure Store where
  fragments : FragmentTable := Table.empty
  links : LinkTable := Table.empty
  caseEvents : List CaseEvent := []
  caseEventEdges : List CaseEventEdge := []
  evidence : List Evidence := []
  index : RedisIndex := []

/-- The row with an id. -/
def FragmentTable.byId (table : FragmentTable) (id : FragmentId) : Option Fragment :=
  table.holder (.primary id)

theorem primary_mem_entries {f : Fragment} {id : FragmentId} :
    FragmentEntry.primary id ∈ f.entries ↔ id = f.id := by
  cases hkey : f.idempotencyKey <;> simp [Fragment.entries, hkey]

theorem contentHash_mem_entries {f : Fragment} {keyId : Option KeyId} {hash : String} :
    FragmentEntry.contentHash keyId hash ∈ f.entries ↔ keyId = f.keyId ∧ hash = f.contentHash := by
  cases hkey : f.idempotencyKey <;> simp [Fragment.entries, hkey]

theorem idempotency_mem_entries {f : Fragment} {keyId : Option KeyId} {idempotencyKey : String} :
    FragmentEntry.idempotency keyId idempotencyKey ∈ f.entries ↔
      f.keyId = keyId ∧ f.idempotencyKey = some idempotencyKey := by
  cases hidem : f.idempotencyKey with
  | none => simp [Fragment.entries, hidem]
  | some key => simp [Fragment.entries, hidem, eq_comm]

theorem byId_eq_some_iff (table : FragmentTable) {id : FragmentId} {f : Fragment} :
    table.byId id = some f ↔ f ∈ table.rows ∧ f.id = id := by
  rw [FragmentTable.byId, Table.holder_eq_some_iff, primary_mem_entries, eq_comm (a := id)]

theorem byId_eq_none_iff (table : FragmentTable) {id : FragmentId} :
    table.byId id = none ↔ ∀ f ∈ table.rows, f.id ≠ id := by
  simp only [FragmentTable.byId, Table.holder_eq_none_iff, primary_mem_entries, ne_eq, eq_comm (a := id)]

/-- The id determines the row. -/
theorem eq_of_id (table : FragmentTable) {f g : Fragment} (hf : f ∈ table.rows) (hg : g ∈ table.rows)
    (h : f.id = g.id) : f = g :=
  table.eq_of_entry hf hg (primary_mem_entries.mpr rfl) (primary_mem_entries.mpr h)

/-- The key and the content hash determine the row, live or not. -/
theorem eq_of_contentHash (table : FragmentTable) {f g : Fragment} (hf : f ∈ table.rows)
    (hg : g ∈ table.rows) (hkey : f.keyId = g.keyId) (hhash : f.contentHash = g.contentHash) : f = g :=
  table.eq_of_entry hf hg (contentHash_mem_entries.mpr ⟨rfl, rfl⟩)
    (contentHash_mem_entries.mpr ⟨hkey, hhash⟩)

/-- A change of columns that no unique index of `fragments` reads. -/
structure ColumnUpdate where
  set : Fragment → Fragment
  entries_set : ∀ f, (set f).entries = f.entries

theorem ColumnUpdate.id_set (change : ColumnUpdate) (f : Fragment) : (change.set f).id = f.id := by
  have hmem : FragmentEntry.primary f.id ∈ (change.set f).entries := by
    rw [change.entries_set]
    exact primary_mem_entries.mpr rfl
  exact (primary_mem_entries.mp hmem).symm

theorem ColumnUpdate.keyId_set (change : ColumnUpdate) (f : Fragment) :
    (change.set f).keyId = f.keyId := by
  have hmem : FragmentEntry.contentHash f.keyId f.contentHash ∈ (change.set f).entries := by
    rw [change.entries_set]
    exact contentHash_mem_entries.mpr ⟨rfl, rfl⟩
  exact (contentHash_mem_entries.mp hmem).1.symm

theorem ColumnUpdate.contentHash_set (change : ColumnUpdate) (f : Fragment) :
    (change.set f).contentHash = f.contentHash := by
  have hmem : FragmentEntry.contentHash f.keyId f.contentHash ∈ (change.set f).entries := by
    rw [change.entries_set]
    exact contentHash_mem_entries.mpr ⟨rfl, rfl⟩
  exact (contentHash_mem_entries.mp hmem).2.symm

/-- `UPDATE fragments SET … WHERE …`. -/
def Store.updateFragments (store : Store) (cond : Fragment → Bool) (change : ColumnUpdate) : Store :=
  { store with fragments := store.fragments.update cond change.set change.entries_set }

/-- `DELETE FROM fragments WHERE …`, with the links that the foreign keys cascade to. -/
def Store.deleteFragments (store : Store) (cond : Fragment → Bool) : Store :=
  let gone := (store.fragments.rows.filter cond).map Fragment.id
  { store with
    fragments := store.fragments.delete cond
    links := store.links.delete fun l => gone.contains l.fromId || gone.contains l.toId
    evidence := store.evidence.filter fun e => !gone.contains e.fragmentId }

theorem mem_updateFragments_iff (store : Store) {cond : Fragment → Bool} {change : ColumnUpdate}
    {f : Fragment} : f ∈ (store.updateFragments cond change).fragments.rows ↔
      ∃ before ∈ store.fragments.rows, f = if cond before then change.set before else before :=
  store.fragments.mem_update_iff change.entries_set

theorem updated_mem_updateFragments {store : Store} {f : Fragment} (h : f ∈ store.fragments.rows)
    (cond : Fragment → Bool) (change : ColumnUpdate) :
    (if cond f then change.set f else f) ∈ (store.updateFragments cond change).fragments.rows :=
  (mem_updateFragments_iff store).mpr ⟨f, h, rfl⟩

/-- A view of the rows that an update leaves alone. -/
theorem map_updateFragments {β : Type*} (store : Store) (view : Fragment → β) {cond : Fragment → Bool}
    {change : ColumnUpdate} (hview : ∀ f, view (change.set f) = view f) :
    (store.updateFragments cond change).fragments.rows.map view = store.fragments.rows.map view := by
  simp only [Store.updateFragments, Table.update, List.map_map]
  refine List.map_congr_left fun f _ => ?_
  simp only [Function.comp]
  split
  · exact hview f
  · rfl

end FragmentMemory.FragmentTables
