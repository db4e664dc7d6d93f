import FragmentMemory.ContentUniqueness
import FragmentMemory.PlainInserts
import FragmentMemory.StablePages

/-! # The export and the import of the admin console

`handleExport` streams the live rows of some keys, and `handleImport` inserts the rows of a body one by one, each in a
transaction of its own.  The import names neither the hash nor the creation time.
-/
namespace FragmentMemory.AdminExport
open ApiKeyStore FragmentTables FragmentFactory PlainInserts StablePages UniqueIndexTable JsString

/-! ## Export -/

/-- The query parameters of `GET /export`. -/
structure ExportRequest where
  keyIds : Option String := none
  keyId : Option String := none
  groupId : Option String := none
  topic : Option String := none
  type : Option FragmentType := none
  confirm : Option String := none

/-- What an export meets outside the fragments: the members of a group and the lower case of `ILIKE`. -/
structure ExportTools where
  groupMembers : String → List KeyId
  toLowerCase : String → String

/-- The names in `key_ids`. -/
def ExportRequest.names (request : ExportRequest) : List String :=
  (((request.keyIds.getD "").toList.splitOn ',').map fun name => trim (String.ofList name)).filter (· ≠ "")

/-- The answer is 400: no key, no group and no confirmation. -/
def ExportRequest.refused (request : ExportRequest) : Bool :=
  (truthy request.keyId).isNone && (truthy request.groupId).isNone && request.names.isEmpty && request.confirm ≠ some "full"

/-- `topic ILIKE '%…%'`, the wildcards of the text escaped. -/
def topicIlike (toLowerCase : String → String) (topic text : String) : Bool :=
  decide ((toLowerCase text).toList <:+: (toLowerCase topic).toList)

def hasName (f : Fragment) (name : String) : Bool := f.keyId.any fun key => key.val = name

/-- The `WHERE` clause: names of keys come before one key, and one key before a group. -/
def exportCond (tools : ExportTools) (request : ExportRequest) (f : Fragment) : Bool :=
  let scope :=
    if request.names ≠ [] then request.names.any (hasName f)
    else match truthy request.keyId, truthy request.groupId with
      | some name, _ => hasName f name
      | none, some groupId => f.keyId.any (tools.groupMembers groupId).contains
      | none, none => true
  f.live && scope && (truthy request.topic).all (topicIlike tools.toLowerCase f.topic) && request.type.all (· = f.type)

def exportMatches (tools : ExportTools) (request : ExportRequest) (store : Store) : List Fragment :=
  store.fragments.rows.filter (exportCond tools request)

/-- The rows that are streamed, of an answer of `ORDER BY created_at`. -/
def streamedRows (request : ExportRequest) (answer : List Fragment) : List Fragment :=
  if request.refused then [] else answer

/-- A line of the stream. -/
structure ExportedFragment where
  id : FragmentId
  content : String
  topic : String
  type : FragmentType
  keywords : List String
  importance : ℚ
  source : Option String
  agentId : String
  keyId : Option KeyId
  isAnchor : Bool
  createdAt : Time
  accessedAt : Option Time
  validTo : Option Time

def exportLine (f : Fragment) : ExportedFragment where
  id := f.id
  content := f.content
  topic := f.topic
  type := f.type
  keywords := f.keywords
  importance := f.importance
  source := f.source
  agentId := f.agentId
  keyId := f.keyId
  isAnchor := f.isAnchor
  createdAt := f.createdAt
  accessedAt := f.accessedAt
  validTo := f.validTo

/-- `handleExport`: the lines of the stream; none when the request is refused. -/
def handleExport (request : ExportRequest) (answer : List Fragment) : List ExportedFragment :=
  (streamedRows request answer).map exportLine

/-! ## Import -/

/-- An entry of `body.fragments`; what is absent or null is none. -/
structure BodyFragment where
  id : Option FragmentId := none
  content : Option String := none
  topic : Option String := none
  type : Option FragmentType := none
  keywords : Option (List String) := none
  importance : Option ℚ := none
  source : Option String := none
  agentId : Option String := none
  keyId : Option KeyId := none
  isAnchor : Option Bool := none

/-- A line of the stream as an entry of a body: the import reads no other field of it. -/
def bodyFragment (line : ExportedFragment) : BodyFragment where
  id := some line.id
  content := some line.content
  topic := some line.topic
  type := some line.type
  keywords := some line.keywords
  importance := some line.importance
  source := line.source
  agentId := some line.agentId
  keyId := line.keyId
  isAnchor := some line.isAnchor

/-- `gen_random_uuid()` for the entries in their order, and `NOW()`. -/
structure ImportDraws where
  newId : ℕ → FragmentId
  now : Time

inductive ImportResponse
  | badRequest
  | done (imported skipped : ℕ)
  | internalError
  deriving DecidableEq

/-- The values of the statement; none for an entry without a required field. -/
def importValues (draws : ImportDraws) (position : ℕ) (entry : BodyFragment) : Option InsertValues :=
  match entry.content, entry.topic, entry.type with
  | some content, some topic, some type => some {
      id := entry.id.getD (draws.newId position)
      content := content
      topic := topic
      type := type
      keywords := entry.keywords.getD []
      importance := entry.importance.getD (1 / 2)
      source := entry.source
      agentId := entry.agentId.getD "default"
      keyId := entry.keyId
      isAnchor := entry.isAnchor.getD false
      createdAt := draws.now }
  | _, _, _ => none

/-- The entries from a position on; a statement that throws ends the loop, and what was inserted stays. -/
def importEach (draws : ImportDraws) : Store → ℕ → ℕ → ℕ → List BodyFragment → Store × ImportResponse
  | store, _, imported, skipped, [] => (store, .done imported skipped)
  | store, position, imported, skipped, entry :: later =>
    match importValues draws position entry with
    | none => importEach draws store (position + 1) imported (skipped + 1) later
    | some values =>
      match insertValues true store values with
      | .failed => (store, .internalError)
      | .skipped => importEach draws store (position + 1) (imported + 1) skipped later
      | .inserted next => importEach draws next (position + 1) (imported + 1) skipped later

/-- `handleImport`. -/
def handleImport (draws : ImportDraws) (store : Store) (body : Option (List BodyFragment)) : Store × ImportResponse :=
  match body with
  | none => (store, .badRequest)
  | some entries => importEach draws store 0 0 0 entries

/-! ## The round trip -/

/-- The columns that an import is to restore. -/
structure AdminColumns where
  content : String
  topic : String
  type : FragmentType
  keywords : List String
  importance : ℚ
  source : Option String
  agentId : String
  keyId : Option KeyId
  isAnchor : Bool
  createdAt : Time

def adminColumns (f : Fragment) : AdminColumns where
  content := f.content
  topic := f.topic
  type := f.type
  keywords := f.keywords
  importance := f.importance
  source := f.source
  agentId := f.agentId
  keyId := f.keyId
  isAnchor := f.isAnchor
  createdAt := f.createdAt

def importStreamed (draws : ImportDraws) (store : Store) (rows : List Fragment) : Store × ImportResponse :=
  handleImport draws store (some (rows.map fun f => bodyFragment (exportLine f)))

/-- What is streamed is imported into an empty store: every row is inserted or skipped, the rows have the columns of the
originals, rows that exist are skipped, and an import that fails leaves nothing behind. -/
structure AdminRestores (draws : ImportDraws) (rows : List Fragment) : Prop where
  succeeds : ∃ imported skipped, (importStreamed draws {} rows).2 = .done imported skipped ∧
    imported + skipped = rows.length
  restored : ((importStreamed draws {} rows).1.fragments.rows.map adminColumns).Perm (rows.map adminColumns)
  existing : (importStreamed draws (importStreamed draws {} rows).1 rows).2 = .done 0 rows.length
  atomic : (importStreamed draws {} rows).2 = .internalError → (importStreamed draws {} rows).1.fragments.rows = []

/-- No statement of the import names the hash. -/
theorem importValues_unhashed {draws : ImportDraws} {position : ℕ} {entry : BodyFragment} {values : InsertValues}
    (h : importValues draws position entry = some values) : values.contentHash = none := by
  simp only [importValues] at h
  split at h
  · cases h
    rfl
  · cases h

/-- An import never inserts anything: it ends at the first entry that has the required fields. -/
theorem importEach_store (draws : ImportDraws) (store : Store) (position imported skipped : ℕ)
    (entries : List BodyFragment) :
    (importEach draws store position imported skipped entries).1 = store := by
  induction entries generalizing position skipped with
  | nil => rfl
  | cons entry later ih =>
    simp only [importEach]
    split
    · exact ih (position + 1) (skipped + 1)
    · rename_i values hvalues
      rw [insertValues_unhashed (importValues_unhashed hvalues)]

theorem handleImport_store (draws : ImportDraws) (store : Store) (body : Option (List BodyFragment)) :
    (handleImport draws store body).1 = store := by
  cases body with
  | none => rfl
  | some entries => exact importEach_store draws store 0 0 0 entries

/-- The first streamed row makes the import fail. -/
theorem importStreamed_cons (draws : ImportDraws) (store : Store) (f : Fragment) (later : List Fragment) :
    (importStreamed draws store (f :: later)).2 = .internalError := by
  have hfailed := fun values h => @insertValues_unhashed values h true store
  simp only [importStreamed, handleImport, List.map_cons, importEach, importValues, bodyFragment, exportLine]
  rw [hfailed _ rfl]

/-- Rows are restored only if there are none. -/
theorem adminRestores_iff_nil (draws : ImportDraws) (rows : List Fragment) : AdminRestores draws rows ↔ rows = [] := by
  constructor
  · intro hrestores
    obtain ⟨imported, skipped, hdone, -⟩ := hrestores.succeeds
    cases rows with
    | nil => rfl
    | cons f later =>
      rw [importStreamed_cons] at hdone
      cases hdone
  · rintro rfl
    exact ⟨⟨0, 0, rfl, rfl⟩, List.Perm.refl _, rfl, fun _ => rfl⟩

/-- An export is restored by its import exactly if it streams no row. -/
theorem admin_restores_iff (tools : ExportTools) (request : ExportRequest) (draws : ImportDraws) (store : Store)
    (answer : Arrangement Fragment.createdAt (exportMatches tools request store)) :
    AdminRestores draws (streamedRows request answer.list) ↔
      request.refused = true ∨ ∀ f ∈ store.fragments.rows, exportCond tools request f = false := by
  have hanswer : answer.list = [] ↔ ∀ f ∈ store.fragments.rows, exportCond tools request f = false := by
    rw [← List.length_eq_zero_iff, answer.perm.length_eq, List.length_eq_zero_iff, exportMatches,
      List.filter_eq_nil_iff]
    simp
  rw [adminRestores_iff_nil, streamedRows, ← hanswer]
  by_cases hrefused : request.refused = true
  · simp [hrefused]
  · simp [hrefused]

def singleStore : Store where
  fragments := (Table.empty.insert ContentUniqueness.sampleFragment).getD Table.empty

/-- The import of a full export of one row fails. -/
theorem admin_import_fails : ¬ ∀ (tools : ExportTools) (request : ExportRequest) (draws : ImportDraws) (store : Store)
    (answer : Arrangement Fragment.createdAt (exportMatches tools request store)),
      AdminRestores draws (streamedRows request answer.list) := by
  intro h
  let tools : ExportTools := { groupMembers := fun _ => [], toLowerCase := id }
  have hrow : exportMatches tools { confirm := some "full" } singleStore = [ContentUniqueness.sampleFragment] := by
    decide +kernel
  let answer : Arrangement Fragment.createdAt (exportMatches tools { confirm := some "full" } singleStore) := {
    list := [ContentUniqueness.sampleFragment]
    perm := by rw [hrow]
    sorted := List.pairwise_singleton _ _ }
  have hrestores := h tools { confirm := some "full" } { newId := fun _ => "frag-09", now := 2 } singleStore answer
  have hnone : streamedRows { confirm := some "full" } [ContentUniqueness.sampleFragment] = [] :=
    (adminRestores_iff_nil _ _).mp hrestores
  exact absurd hnone (by decide)

end FragmentMemory.AdminExport
