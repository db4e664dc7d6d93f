import FragmentMemory.FragmentWriter
import Mathlib.Algebra.Order.Ring.Rat
import Mathlib.Data.List.Sort

/-! # Reading fragments under a key

`FragmentReader` and the key clause of its queries.  A null key reads everything; another key reads
its own rows and those of its group, and no row without a key.
-/
namespace FragmentMemory.FragmentReader
open ApiKeyStore FragmentTables FragmentWriter

/-- `keyScopeClause`. -/
def keyScope (keyId : Option KeyId) (groupKeyIds : List KeyId) (f : Fragment) : Bool :=
  match keyId with
  | none => true
  | some key =>
    let members := if groupKeyIds.isEmpty then [key] else groupKeyIds
    f.keyId = some key || f.keyId.any members.contains

def getByIds (store : Store) (ids : List FragmentId) (agentId : String) (keyId : Option KeyId)
    (groupKeyIds : List KeyId) : List Fragment :=
  store.fragments.rows.filter fun f =>
    ids.contains f.id && agentScope agentId f && f.live && keyScope keyId groupKeyIds f

def getById (store : Store) (id : FragmentId) (agentId : String) (keyId : Option KeyId)
    (groupKeyIds : List KeyId) : Option Fragment :=
  (store.fragments.byId id).filter fun f =>
    agentScope agentId f && f.live && keyScope keyId groupKeyIds f

/-- `ORDER BY importance DESC, created_at DESC`. -/
def byImportance (f g : Fragment) : Bool :=
  g.importance < f.importance || (f.importance = g.importance && g.createdAt ≤ f.createdAt)

/-- `searchByTopic` on live rows. -/
def searchByTopic (store : Store) (topic : String) (minImportance : ℚ) (limit : ℕ) (agentId : String)
    (keyId : Option KeyId) : List Fragment :=
  let found := store.fragments.rows.filter fun f =>
    f.topic = topic && agentScope agentId f && minImportance ≤ f.importance && ownedBy keyId f && f.live
  (found.insertionSort (byImportance · ·)).take limit

def findByIdempotencyKey (store : Store) (idempotencyKey : String) (keyId : Option KeyId) : Option Fragment :=
  store.fragments.rows.find? fun f =>
    f.idempotencyKey = some idempotencyKey && f.keyId = keyId && f.live

def findCaseIdBySessionTopic (store : Store) (sessionId topic : String) (keyId : Option KeyId)
    (groupKeyIds : List KeyId) : Option String :=
  (store.fragments.rows.find? fun f =>
    f.sessionId = some sessionId && f.topic = topic && f.caseId.isSome && f.live &&
      keyScope keyId groupKeyIds f).bind Fragment.caseId

def findErrorFragmentsBySessionTopic (store : Store) (sessionId topic : String) (keyId : Option KeyId)
    (groupKeyIds : List KeyId) : List FragmentId :=
  ((store.fragments.rows.filter fun f =>
    f.sessionId = some sessionId && f.topic = topic && f.type = .error && f.live &&
      keyScope keyId groupKeyIds f).take 10).map Fragment.id

theorem getById_eq_some {store : Store} {id : FragmentId} {agentId : String} {keyId : Option KeyId}
    {groupKeyIds : List KeyId} {f : Fragment} (h : getById store id agentId keyId groupKeyIds = some f) :
    f ∈ store.fragments.rows ∧ f.id = id ∧ f.live = true ∧ keyScope keyId groupKeyIds f = true := by
  obtain ⟨hfound, hcond⟩ := Option.filter_eq_some_iff.mp h
  have hrow := (byId_eq_some_iff _).mp hfound
  simp only [Bool.and_eq_true] at hcond
  exact ⟨hrow.1, hrow.2, hcond.1.2, hcond.2⟩

theorem mem_getByIds {store : Store} {ids : List FragmentId} {agentId : String} {keyId : Option KeyId}
    {groupKeyIds : List KeyId} {f : Fragment} (h : f ∈ getByIds store ids agentId keyId groupKeyIds) :
    f ∈ store.fragments.rows ∧ f.id ∈ ids ∧ f.live = true ∧ keyScope keyId groupKeyIds f = true := by
  obtain ⟨hrow, hcond⟩ := List.mem_filter.mp h
  simp only [Bool.and_eq_true, List.contains_iff_mem] at hcond
  exact ⟨hrow, hcond.1.1.1, hcond.1.2, hcond.2⟩

theorem mem_searchByTopic {store : Store} {topic : String} {minImportance : ℚ} {limit : ℕ}
    {agentId : String} {keyId : Option KeyId} {f : Fragment}
    (h : f ∈ searchByTopic store topic minImportance limit agentId keyId) :
    f ∈ store.fragments.rows ∧ f.topic = topic ∧ f.live = true ∧ ownedBy keyId f = true := by
  have hsorted := List.mem_of_mem_take h
  obtain ⟨hrow, hcond⟩ := List.mem_filter.mp ((List.perm_insertionSort _ _).mem_iff.mp hsorted)
  simp only [Bool.and_eq_true, decide_eq_true_eq] at hcond
  exact ⟨hrow, hcond.1.1.1.1, hcond.2, hcond.1.2⟩

theorem findByIdempotencyKey_eq_some {store : Store} {key : String} {keyId : Option KeyId} {f : Fragment}
    (h : findByIdempotencyKey store key keyId = some f) :
    f ∈ store.fragments.rows ∧ f.keyId = keyId ∧ f.live = true := by
  have hcond := List.find?_some (by exact h)
  simp only [Bool.and_eq_true, decide_eq_true_eq] at hcond
  exact ⟨List.mem_of_find?_eq_some h, hcond.1.2, hcond.2⟩

/-- A row that a key owns is in every scope of the key. -/
theorem keyScope_of_ownedBy {keyId : Option KeyId} {groupKeyIds : List KeyId} {f : Fragment}
    (h : ownedBy keyId f = true) : keyScope keyId groupKeyIds f = true := by
  rcases keyId with _ | key
  · rfl
  · have hkey : f.keyId = some key := by simpa [ownedBy] using h
    simp [keyScope, hkey]

end FragmentMemory.FragmentReader
