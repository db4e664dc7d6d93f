import FragmentMemory.FragmentWriter

/-! # The plain inserts of the two imports

`INSERT INTO fragments (…) VALUES (…)` without the upsert of the writer, with `ON CONFLICT (id) DO NOTHING` or without.
A column that the statement does not name has the default of the table, and `content_hash` has none.
-/
namespace FragmentMemory.PlainInserts
open ApiKeyStore FragmentTables FragmentWriter UniqueIndexTable

/-- The columns that one of the statements names; a hash that is not named is NULL. -/
structure InsertValues where
  id : FragmentId
  content : String
  topic : String
  type : FragmentType
  keywords : List String
  importance : ℚ
  contentHash : Option String := none
  source : Option String
  agentId : String
  keyId : Option KeyId := none
  isAnchor : Bool
  ttlTier : TtlTier := .warm
  caseId : Option String := none
  idempotencyKey : Option String := none
  goal : Option String := none
  outcome : Option String := none
  phase : Option String := none
  resolutionStatus : Option ResolutionStatus := none
  assertionStatus : AssertionStatus := .observed
  createdAt : Time

/-- The new row, none when it violates `content_hash NOT NULL` or the check of the importance. -/
def InsertValues.row (values : InsertValues) : Option Fragment :=
  if checkImportance values.importance then
    values.contentHash.map fun hash => {
      id := values.id
      content := values.content
      topic := values.topic
      keywords := values.keywords
      type := values.type
      importance := values.importance
      contentHash := hash
      source := values.source
      agentId := values.agentId
      ttlTier := values.ttlTier
      keyId := values.keyId
      isAnchor := values.isAnchor
      caseId := values.caseId
      goal := values.goal
      outcome := values.outcome
      phase := values.phase
      resolutionStatus := values.resolutionStatus
      assertionStatus := values.assertionStatus
      idempotencyKey := values.idempotencyKey
      createdAt := values.createdAt }
  else none

inductive InsertOutcome
  | failed
  | skipped
  | inserted (store : Store)

/-- The statement: the constraints of the row come before the unique indexes, of which only that of the id can be yielded
to. -/
def insertValues (doNothing : Bool) (store : Store) (values : InsertValues) : InsertOutcome :=
  match values.row with
  | none => .failed
  | some row =>
    if doNothing && (store.fragments.byId row.id).isSome then .skipped
    else match store.fragments.insert row with
      | none => .failed
      | some fragments => .inserted { store with fragments := fragments }

/-- A statement that does not name the hash throws, also on an id that exists. -/
theorem insertValues_unhashed {values : InsertValues} (h : values.contentHash = none) (doNothing : Bool)
    (store : Store) :
    insertValues doNothing store values = .failed := by
  have hrow : values.row = none := by
    simp only [InsertValues.row, h, Option.map_none, ite_self]
  simp only [insertValues, hrow]

/-- What is inserted is the row of the values, beside the rows that were there. -/
theorem insertValues_inserted {doNothing : Bool} {store next : Store} {values : InsertValues}
    (h : insertValues doNothing store values = .inserted next) :
    ∃ row, values.row = some row ∧ next.fragments.rows = store.fragments.rows ++ [row] := by
  simp only [insertValues] at h
  split at h
  · cases h
  · rename_i row hrow
    split at h
    · cases h
    · split at h
      · cases h
      · rename_i fragments hinsert
        cases h
        exact ⟨row, hrow, Table.rows_insert hinsert⟩

/-- A row whose id, hash under its key and idempotency key are free is inserted. -/
theorem insertValues_fits {store : Store} {values : InsertValues} {row : Fragment} (hrow : values.row = some row)
    (hid : ∀ g ∈ store.fragments.rows, g.id ≠ row.id)
    (hhash : ∀ g ∈ store.fragments.rows, g.keyId = row.keyId → g.contentHash ≠ row.contentHash)
    (hidem : ∀ g ∈ store.fragments.rows, g.keyId = row.keyId → row.idempotencyKey ≠ none →
      g.idempotencyKey ≠ row.idempotencyKey) (doNothing : Bool) :
    ∃ next, insertValues doNothing store values = .inserted next ∧
      next.fragments.rows = store.fragments.rows ++ [row] := by
  have hfits : Table.Fits Fragment.entries store.fragments.rows row := by
    intro g hg entry hentry hmem
    cases entry with
    | primary id =>
      rw [primary_mem_entries] at hentry hmem
      exact hid g hg (hentry.symm.trans hmem)
    | contentHash keyId hash =>
      obtain ⟨hkey, hsame⟩ := contentHash_mem_entries.mp hentry
      obtain ⟨hkey', hsame'⟩ := contentHash_mem_entries.mp hmem
      exact hhash g hg (hkey.symm.trans hkey') (hsame.symm.trans hsame')
    | idempotency keyId key =>
      obtain ⟨hkey, hsame⟩ := idempotency_mem_entries.mp hentry
      obtain ⟨hkey', hsame'⟩ := idempotency_mem_entries.mp hmem
      refine hidem g hg (hkey.trans hkey'.symm) ?_ (hsame.trans hsame'.symm)
      rw [hsame']
      nofun
  have hbyId : store.fragments.byId row.id = none := (byId_eq_none_iff _).mpr hid
  cases hinsert : store.fragments.insert row with
  | none =>
    rw [Table.insert, dif_pos hfits] at hinsert
    cases hinsert
  | some fragments =>
    refine ⟨{ store with fragments := fragments }, ?_, Table.rows_insert hinsert⟩
    simp only [insertValues, hrow, hbyId, Option.isSome_none, Bool.and_false, Bool.false_eq_true, if_false, hinsert]

/-- With `ON CONFLICT (id) DO NOTHING` a row whose id is there is skipped. -/
theorem insertValues_present {store : Store} {values : InsertValues} {row g : Fragment} (hrow : values.row = some row)
    (hg : g ∈ store.fragments.rows) (hid : g.id = row.id) : insertValues true store values = .skipped := by
  have hbyId : store.fragments.byId row.id = some g := (byId_eq_some_iff _).mpr ⟨hg, hid⟩
  simp only [insertValues, hrow, hbyId, Option.isSome_some, Bool.and_self, if_true]

end FragmentMemory.PlainInserts
