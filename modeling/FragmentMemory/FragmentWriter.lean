import FragmentMemory.FragmentFactory

/-! # Writing fragments

`FragmentWriter`: the upsert of a single fragment, the amendment, the deletions and the small
updates of one column.  A null key is the master scope, in which nothing is filtered by key.
-/
namespace FragmentMemory.FragmentWriter
open ApiKeyStore FragmentTables FragmentFactory UniqueIndexTable JsString

variable (digests : Digests)

/-- The hash of the single and the amending path: all digits of the digest. -/
def computeContentHash (content : String) : String := digests.hex content

def maxInitialImportance : FragmentType → ℚ
  | .error => 6 / 10
  | .procedure => 6 / 10
  | .preference => 9 / 10
  | .fact | .decision | .relation | .episode => 7 / 10

def sanitizeInsertImportance (content : String) (type : FragmentType) (requested : ℚ)
    (isAnchor : Bool) : ℚ :=
  if isAnchor then requested
  else
    let importance := min requested (maxInitialImportance type)
    if utf16Length content < 20 then min importance (2 / 10) else importance

/-- `fragment.estimated_tokens || Math.ceil((fragment.content || "").length / 4)`. -/
def estimateTokens (f : Fragment) : ℕ :=
  if f.estimatedTokens = 0 then (utf16Length f.content + 3) / 4 else f.estimatedTokens

/-- The columns that `_prepareInsertRow` and the defaults of the table set; the others are taken
from the fragment. -/
def prepareInsertRow (now : Time) (f : Fragment) : Fragment :=
  { f with
    contentHash := computeContentHash digests f.content
    importance := sanitizeInsertImportance f.content f.type f.importance f.isAnchor
    source := truthy f.source
    estimatedTokens := estimateTokens f
    contextSummary := truthy f.contextSummary
    sessionId := truthy f.sessionId
    workspace := truthy f.workspace
    caseId := truthy f.caseId
    goal := truthy f.goal
    outcome := truthy f.outcome
    phase := truthy f.phase
    accessCount := 0
    emaActivation := none
    createdAt := now
    accessedAt := none
    validTo := none }

/-- The `DO UPDATE SET` clause of both insert paths: the validity of the row is not among its
columns. -/
def promote (now : Time) (excluded : Fragment) : ColumnUpdate where
  set f := { f with
    importance := max f.importance excluded.importance
    isAnchor := f.isAnchor || excluded.isAnchor
    accessedAt := some now }
  entries_set _ := rfl

/-- `CHECK (importance >= 0 AND importance <= 1)`. -/
def checkImportance (importance : ℚ) : Bool := 0 ≤ importance && importance ≤ 1

/-- The upsert of one row and the id that `RETURNING id` yields; none when the statement throws. -/
def upsertRow (now : Time) (store : Store) (row : Fragment) : Option (Store × FragmentId) :=
  if checkImportance row.importance then
    let arbiter := FragmentEntry.contentHash row.keyId row.contentHash
    let change := promote now row
    (store.fragments.upsert arbiter row change.set change.entries_set).map fun fragments =>
      ({ store with fragments := fragments },
        ((store.fragments.holder arbiter).map Fragment.id).getD row.id)
  else none

/-- `FragmentWriter.insert`. -/
def insert (now : Time) (store : Store) (f : Fragment) : Option (Store × FragmentId) :=
  upsertRow now store (prepareInsertRow digests now f)

structure FragmentUpdates where
  content : Option String := none
  topic : Option String := none
  keywords : Option (List String) := none
  type : Option FragmentType := none
  importance : Option ℚ := none
  isAnchor : Option Bool := none
  assertionStatus : Option AssertionStatus := none

inductive UpdateResult
  | missing
  | merged (existingId : FragmentId)
  | unchanged (existing : Fragment)
  | updated (fragment : Fragment)
  | failed

def FragmentUpdates.isEmpty (updates : FragmentUpdates) : Bool :=
  updates.content.isNone && updates.topic.isNone && updates.keywords.isNone && updates.type.isNone &&
    updates.importance.isNone && updates.isAnchor.isNone && updates.assertionStatus.isNone

/-- The row after the `SET` clauses that `_diffUpdatableFields` collects. -/
def FragmentUpdates.apply (updates : FragmentUpdates) (countTokens : String → ℕ) (now : Time)
    (existing : Fragment) : Fragment :=
  { existing with
    content := updates.content.getD existing.content
    contentHash := (updates.content.map (computeContentHash digests)).getD existing.contentHash
    estimatedTokens := (updates.content.map countTokens).getD existing.estimatedTokens
    topic := updates.topic.getD existing.topic
    keywords := updates.keywords.getD existing.keywords
    type := updates.type.getD existing.type
    importance := updates.importance.getD existing.importance
    isAnchor := updates.isAnchor.getD existing.isAnchor
    assertionStatus := updates.assertionStatus.getD existing.assertionStatus
    accessedAt := some now }

/-- The row other than the amended one that holds the hash of its new content under its key. -/
def duplicateOf (store : Store) (existing : Fragment) (content : String) : Option Fragment :=
  store.fragments.rows.find? fun f =>
    f.contentHash = computeContentHash digests content && f.id ≠ existing.id && f.keyId = existing.keyId

/-- `FragmentWriter.update`: one transaction, rolled back on every outcome but `updated`. -/
def update (countTokens : String → ℕ) (now : Time) (store : Store) (id : FragmentId)
    (updates : FragmentUpdates) (keyId : Option KeyId) : Store × UpdateResult :=
  match store.fragments.byId id with
  | none => (store, .missing)
  | some existing =>
    if keyId.isSome ∧ existing.keyId ≠ keyId then (store, .missing)
    else match updates.content.bind (duplicateOf digests store existing) with
      | some duplicate => (store, .merged duplicate.id)
      | none =>
        if updates.isEmpty then (store, .unchanged existing)
        else
          let row := updates.apply digests countTokens now existing
          match store.fragments.replace (.primary id) row with
          | some fragments =>
            if checkImportance row.importance then ({ store with fragments := fragments }, .updated row)
            else (store, .failed)
          | none => (store, .failed)

/-- Whether a row is in the reach of a write made under a key. -/
def ownedBy (keyId : Option KeyId) (f : Fragment) : Bool := keyId.isNone || f.keyId = keyId

/-- Removal of ids from every `linked_to` array that holds one. -/
def unlinked (ids : List FragmentId) : ColumnUpdate where
  set f := { f with linkedTo := f.linkedTo.filter fun id => !ids.contains id }
  entries_set _ := rfl

/-- The links and array entries of the ids and the rows themselves go. -/
def removeRows (store : Store) (ids : List FragmentId) : Store :=
  let links := store.links.delete fun l => ids.any l.touches
  let cleared := { store with links := links }.updateFragments
    (fun f => f.linkedTo.any ids.contains) (unlinked ids)
  cleared.deleteFragments fun f => ids.contains f.id

/-- `FragmentWriter.delete`, with its ownership query. -/
def delete (store : Store) (id : FragmentId) (keyId : Option KeyId) : Store × Bool :=
  if keyId.isSome ∧ ¬ store.fragments.rows.any (fun f => f.id = id && f.keyId = keyId) then (store, false)
  else (removeRows store [id], (store.fragments.byId id).isSome)

/-- `FragmentWriter.deleteMany` and the number of deleted rows: the key clause is that of the rows alone. -/
def deleteMany (store : Store) (ids : List FragmentId) (keyId : Option KeyId) : Store × ℕ :=
  let links := store.links.delete fun l => ids.any l.touches
  let cleared := { store with links := links }.updateFragments
    (fun f => f.linkedTo.any ids.contains) (unlinked ids)
  (cleared.deleteFragments fun f => ids.contains f.id && ownedBy keyId f,
    (store.fragments.rows.filter fun f => ids.contains f.id && ownedBy keyId f).length)

/-- The agent condition of the reading queries. -/
def agentScope (agentId : String) (f : Fragment) : Bool := f.agentId = agentId || f.agentId = "default"

/-- The rows of a topic in the reach of a deletion. -/
def topicRows (store : Store) (topic agentId : String) (keyId : Option KeyId) : List Fragment :=
  store.fragments.rows.filter fun f => f.topic = topic && agentScope agentId f && ownedBy keyId f

/-- Those of them that are deleted: permanent rows only by force. -/
def eligibleRows (store : Store) (topic agentId : String) (keyId : Option KeyId) (force : Bool) :
    List Fragment :=
  (topicRows store topic agentId keyId).filter fun f => force || f.ttlTier ≠ .permanent

/-- `FragmentWriter.deleteByTopic`: what is deleted, and how many rows were protected. -/
def deleteByTopic (store : Store) (topic agentId : String) (keyId : Option KeyId) (force : Bool) :
    Store × List Fragment × ℕ :=
  let eligible := eligibleRows store topic agentId keyId force
  (removeRows store (eligible.map Fragment.id), eligible,
    (topicRows store topic agentId keyId).length - eligible.length)

def setTtlTier (ttlTier : TtlTier) : ColumnUpdate where
  set f := { f with ttlTier := ttlTier }
  entries_set _ := rfl

def updateTtlTier (store : Store) (id : FragmentId) (ttlTier : TtlTier) (keyId : Option KeyId) : Store :=
  store.updateFragments (fun f => f.id = id && ownedBy keyId f) (setTtlTier ttlTier)

def setCaseId (caseId : String) : ColumnUpdate where
  set f := { f with caseId := some caseId }
  entries_set _ := rfl

def updateCaseId (store : Store) (id : FragmentId) (caseId : String) (keyId : Option KeyId) : Store :=
  store.updateFragments (fun f => f.id = id && f.live && ownedBy keyId f) (setCaseId caseId)

def setAssertion (status : AssertionStatus) : ColumnUpdate where
  set f := { f with assertionStatus := status }
  entries_set _ := rfl

def patchAssertion (store : Store) (id : FragmentId) (status : AssertionStatus) (keyId : Option KeyId) :
    Store :=
  store.updateFragments (fun f => f.id = id && ownedBy keyId f) (setAssertion status)

variable {digests}

/-- An upsert that does not throw promotes the row that holds the hash under the key, or adds the
row. -/
theorem upsertRow_cases {now : Time} {store next : Store} {row : Fragment} {id : FragmentId}
    (h : upsertRow now store row = some (next, id)) :
    (∃ held ∈ store.fragments.rows, held.keyId = row.keyId ∧ held.contentHash = row.contentHash ∧
      id = held.id ∧ next = store.updateFragments
        (fun f => decide (FragmentEntry.contentHash row.keyId row.contentHash ∈ f.entries)) (promote now row)) ∨
    ((∀ f ∈ store.fragments.rows, ¬ (f.keyId = row.keyId ∧ f.contentHash = row.contentHash)) ∧
      id = row.id ∧ ∃ fragments, store.fragments.insert row = some fragments ∧
        next = { store with fragments := fragments }) := by
  simp only [upsertRow] at h
  split at h
  · obtain ⟨fragments, hupsert, hresult⟩ := Option.map_eq_some_iff.mp h
    have hnext := (Prod.mk.inj hresult).1
    have hid := (Prod.mk.inj hresult).2
    rcases Table.upsert_cases hupsert with ⟨held, hheld, hfragments⟩ | ⟨hfree, hinsert⟩
    · left
      have hheldRow := (Table.holder_eq_some_iff _).mp hheld
      have hentry := contentHash_mem_entries.mp hheldRow.2
      refine ⟨held, hheldRow.1, hentry.1.symm, hentry.2.symm, ?_, ?_⟩
      · rw [← hid, hheld]
        rfl
      · rw [← hnext, hfragments]
        rfl
    · right
      have hnone := (Table.holder_eq_none_iff _).mp hfree
      refine ⟨?_, ?_, fragments, hinsert, hnext.symm⟩
      · intro f hf hsame
        exact hnone f hf (contentHash_mem_entries.mpr ⟨hsame.1.symm, hsame.2.symm⟩)
      · rw [← hid, hfree]
        rfl
  · cases h

/-- An upsert keeps key, content and hash of every row and adds at most the new row. -/
theorem mem_upsertRow {now : Time} {store next : Store} {row : Fragment} {id : FragmentId}
    (h : upsertRow now store row = some (next, id)) {f : Fragment} (hf : f ∈ next.fragments.rows) :
    f = row ∨ ∃ before ∈ store.fragments.rows, f.id = before.id ∧ f.keyId = before.keyId ∧
      f.content = before.content ∧ f.contentHash = before.contentHash := by
  rcases upsertRow_cases h with ⟨held, -, -, -, -, rfl⟩ | ⟨-, -, fragments, hinsert, rfl⟩
  · right
    obtain ⟨before, hbefore, hset⟩ := (mem_updateFragments_iff store).mp hf
    refine ⟨before, hbefore, ?_⟩
    rw [hset]
    split <;> exact ⟨rfl, rfl, rfl, rfl⟩
  · have hrows := Table.rows_insert hinsert
    simp only [hrows, List.mem_append, List.mem_singleton] at hf
    rcases hf with hold | hnew
    · exact Or.inr ⟨f, hold, rfl, rfl, rfl, rfl⟩
    · exact Or.inl hnew

/-- The row that an upsert reports is one of the key, and every row stays with its key and hash. -/
theorem upsertRow_rows {now : Time} {store next : Store} {row : Fragment} {id : FragmentId}
    (h : upsertRow now store row = some (next, id)) :
    (∃ g ∈ next.fragments.rows, g.id = id ∧ g.keyId = row.keyId) ∧
      ∀ f ∈ store.fragments.rows, ∃ g ∈ next.fragments.rows,
        g.keyId = f.keyId ∧ g.contentHash = f.contentHash := by
  rcases upsertRow_cases h with ⟨held, hheld, hkey, -, rfl, rfl⟩ | ⟨-, rfl, fragments, hinsert, rfl⟩
  · have hupdated : ∀ f ∈ store.fragments.rows, ∃ g ∈ (store.updateFragments (fun f =>
        decide (FragmentEntry.contentHash row.keyId row.contentHash ∈ f.entries)) (promote now row)).fragments.rows,
        g.id = f.id ∧ g.keyId = f.keyId ∧ g.contentHash = f.contentHash := by
      intro f hf
      refine ⟨_, updated_mem_updateFragments hf _ _, ?_⟩
      split <;> exact ⟨rfl, rfl, rfl⟩
    obtain ⟨g, hg, hgid, hgkey, -⟩ := hupdated held hheld
    refine ⟨⟨g, hg, hgid, hgkey.trans hkey⟩, ?_⟩
    intro f hf
    obtain ⟨g, hg, -, hgkey, hghash⟩ := hupdated f hf
    exact ⟨g, hg, hgkey, hghash⟩
  · have hrows := Table.rows_insert hinsert
    constructor
    · refine ⟨row, ?_, rfl, rfl⟩
      simp only [hrows]
      exact List.mem_append_right _ (List.mem_singleton.mpr rfl)
    · intro f hf
      refine ⟨f, ?_, rfl, rfl⟩
      simp only [hrows]
      exact List.mem_append_left _ hf

/-- The outcomes of an amendment: the store stays, or one row is replaced by its amended form. -/
theorem update_cases (countTokens : String → ℕ) (now : Time) (store : Store) (id : FragmentId)
    (updates : FragmentUpdates) (keyId : Option KeyId) :
    (update digests countTokens now store id updates keyId).1 = store ∨
    ∃ existing fragments, store.fragments.byId id = some existing ∧
      (keyId.isSome → existing.keyId = keyId) ∧
      updates.content.bind (duplicateOf digests store existing) = none ∧
      store.fragments.replace (.primary id) (updates.apply digests countTokens now existing) = some fragments ∧
      update digests countTokens now store id updates keyId =
        ({ store with fragments := fragments }, .updated (updates.apply digests countTokens now existing)) := by
  rcases hexisting : store.fragments.byId id with _ | existing
  · left
    simp only [update, hexisting]
  · by_cases hkey : keyId.isSome ∧ existing.keyId ≠ keyId
    · left
      simp only [update, hexisting, if_pos hkey]
    · rcases hdup : updates.content.bind (duplicateOf digests store existing) with _ | duplicate
      · by_cases hempty : updates.isEmpty
        · left
          simp only [update, hexisting, if_neg hkey, hdup, if_pos hempty]
        · rcases hreplace : store.fragments.replace (.primary id)
              (updates.apply digests countTokens now existing) with _ | fragments
          · left
            simp only [update, hexisting, if_neg hkey, hdup, if_neg hempty, hreplace]
          · by_cases hcheck : checkImportance (updates.apply digests countTokens now existing).importance
            · right
              refine ⟨existing, fragments, rfl, ?_, hdup, hreplace, ?_⟩
              · intro hsome
                by_contra hne
                exact hkey ⟨hsome, hne⟩
              · simp only [update, hexisting, if_neg hkey, hdup, if_neg hempty, hreplace, if_pos hcheck]
            · left
              simp only [update, hexisting, if_neg hkey, hdup, if_neg hempty, hreplace, if_neg hcheck]
      · left
        simp only [update, hexisting, if_neg hkey, hdup]

/-- The row that an amendment hands back is that of its id, under the key of the caller. -/
theorem update_row {countTokens : String → ℕ} {now : Time} {store : Store} {id : FragmentId}
    {updates : FragmentUpdates} {keyId : Option KeyId} {result : Fragment}
    (h : (update digests countTokens now store id updates keyId).2 = .unchanged result ∨
      (update digests countTokens now store id updates keyId).2 = .updated result) :
    ∃ existing, store.fragments.byId id = some existing ∧ (keyId.isSome → existing.keyId = keyId) ∧
      result.id = existing.id := by
  rcases hexisting : store.fragments.byId id with _ | existing
  · simp only [update, hexisting, reduceCtorEq, or_self] at h
  · refine ⟨existing, rfl, ?_⟩
    by_cases hkey : keyId.isSome ∧ existing.keyId ≠ keyId
    · simp only [update, hexisting, if_pos hkey, reduceCtorEq, or_self] at h
    · refine ⟨fun hsome => by_contra fun hne => hkey ⟨hsome, hne⟩, ?_⟩
      simp only [update, hexisting, if_neg hkey] at h
      split at h
      · simp only [reduceCtorEq, or_self] at h
      · split at h
        · simp only [UpdateResult.unchanged.injEq, reduceCtorEq, or_false] at h
          rw [h]
        · split at h
          · split at h
            · simp only [UpdateResult.updated.injEq, reduceCtorEq, false_or] at h
              rw [← h]
              rfl
            · simp only [reduceCtorEq, or_self] at h
          · simp only [reduceCtorEq, or_self] at h

end FragmentMemory.FragmentWriter
