import FragmentMemory.AdminExport
import FragmentMemory.LiveCounts

/-! # The export and the import of the command line

`exportCmd` writes the live rows page by page, each page by a query of its own, and `importCmd` inserts the lines one by
one.  The lines have no key, no workspace, no session and no tier, and the import takes the hash from the content.
-/
namespace FragmentMemory.CliArchive
open ApiKeyStore FragmentTables FragmentWriter FragmentFactory PlainInserts StablePages UniqueIndexTable JsString
open AdminExport (hasName)

/-! ## Export -/

/-- `BATCH_SIZE`. -/
def batchSize : ℕ := 200

structure ExportArgs where
  key : Option String := none
  topic : Option String := none
  type : Option FragmentType := none
  since : Option Time := none

/-- The `WHERE` clause; `--key` is compared with the id of the key. -/
def exportCond (args : ExportArgs) (f : Fragment) : Bool :=
  f.live && (truthy args.key).all (hasName f) && (truthy args.topic).all (f.topic = ·) && args.type.all (· = f.type) &&
    args.since.all (· ≤ f.createdAt)

/-- The rows to export. -/
def exportMatches (args : ExportArgs) (store : Store) : List Fragment := store.fragments.rows.filter (exportCond args)

/-- The loop of the pages; `exported` is the offset, too. -/
def exportRows (answers : ℕ → List Fragment) (hardLimit : Option ℕ) : ℕ → ℕ → ℕ → List Fragment
  | 0, _, _ => []
  | fuel + 1, k, exported =>
    let batchLimit := match hardLimit with
      | some limit => min batchSize (limit - exported)
      | none => batchSize
    let rows := page batchLimit exported (answers k)
    if rows.length < batchSize || hardLimit.any (· ≤ exported + rows.length) then rows
    else rows ++ exportRows answers hardLimit fuel (k + 1) (exported + rows.length)

/-- A line of JSON; a field that is absent or null is none. -/
structure ImportRow where
  id : Option FragmentId := none
  content : Option String := none
  topic : Option String := none
  type : Option FragmentType := none
  keywords : Option (List String) := none
  importance : Option ℚ := none
  source : Option String := none
  agentId : Option String := none
  createdAt : Option Time := none
  isAnchor : Option Bool := none
  caseId : Option String := none
  idempotencyKey : Option String := none
  goal : Option String := none
  outcome : Option String := none
  phase : Option String := none
  resolutionStatus : Option ResolutionStatus := none
  assertionStatus : Option AssertionStatus := none

/-- What a transfer draws on: the timestamps as JavaScript dates, which have whole milliseconds, the ids of
`randomUUID`, SHA-256 and the clock. -/
structure ArchiveTools where
  dateOf : Time → Time
  newId : ℕ → FragmentId
  newId_ne : ∀ n, newId n ≠ ""
  digests : Digests
  now : Time

/-- The line of a row: `SELECT_FIELDS`. -/
def exportLine (tools : ArchiveTools) (f : Fragment) : ImportRow where
  id := some f.id
  content := some f.content
  topic := some f.topic
  type := some f.type
  keywords := some f.keywords
  importance := some f.importance
  source := f.source
  agentId := some f.agentId
  createdAt := some (tools.dateOf f.createdAt)
  isAnchor := some f.isAnchor
  caseId := f.caseId
  idempotencyKey := f.idempotencyKey
  goal := f.goal
  outcome := f.outcome
  phase := f.phase
  resolutionStatus := f.resolutionStatus
  assertionStatus := some f.assertionStatus

/-! ## Import -/

/-- `rowToParams` on a line with a content and a topic; a missing assertion is read as the default of the column. -/
def rowToParams (tools : ArchiveTools) (lineNum : ℕ) (content topic : String) (row : ImportRow) : InsertValues where
  id := (truthy row.id).getD (tools.newId lineNum)
  content := content
  topic := topic
  type := row.type.getD .fact
  keywords := row.keywords.getD []
  importance := row.importance.getD (1 / 2)
  contentHash := some (tools.digests.hex content)
  source := some ((truthy row.source).getD "import")
  agentId := (truthy row.agentId).getD "cli"
  isAnchor := row.isAnchor = some true
  ttlTier := .warm
  caseId := truthy row.caseId
  idempotencyKey := truthy row.idempotencyKey
  goal := truthy row.goal
  outcome := truthy row.outcome
  phase := truthy row.phase
  resolutionStatus := row.resolutionStatus
  assertionStatus := row.assertionStatus.getD .observed
  createdAt := row.createdAt.getD tools.now

structure ImportSummary where
  imported : ℕ := 0
  skipped : ℕ := 0
  errors : ℕ := 0
  lines : ℕ := 0
  deriving DecidableEq

structure ImportOptions where
  idempotent : Bool := false
  dryRun : Bool := false

/-- One line; none is a line that is no JSON. -/
def importLine (tools : ArchiveTools) (options : ImportOptions) (store : Store) (summary : ImportSummary) :
    Option ImportRow → Store × ImportSummary
  | none => (store, { summary with errors := summary.errors + 1 })
  | some row =>
    match truthy row.content, truthy row.topic with
    | some content, some topic =>
      if options.dryRun then (store, { summary with imported := summary.imported + 1 })
      else match insertValues options.idempotent store (rowToParams tools summary.lines content topic row) with
        | .failed => (store, { summary with errors := summary.errors + 1 })
        | .skipped => (store, { summary with skipped := summary.skipped + 1 })
        | .inserted next => (next, { summary with imported := summary.imported + 1 })
    | _, _ => (store, { summary with errors := summary.errors + 1 })

/-- `importCmd`. -/
def importCmd (tools : ArchiveTools) (options : ImportOptions) (store : Store) (summary : ImportSummary) :
    List (Option ImportRow) → Store × ImportSummary
  | [] => (store, summary)
  | line :: later =>
    let done := importLine tools options store { summary with lines := summary.lines + 1 } line
    importCmd tools options done.1 done.2 later

/-! ## The round trip -/

/-- The columns that recall, tenancy or lifetime depend on. -/
structure RestoredColumns where
  id : FragmentId
  content : String
  topic : String
  type : FragmentType
  keywords : List String
  importance : ℚ
  keyId : Option KeyId
  workspace : Option String
  sessionId : Option String
  ttlTier : TtlTier
  isAnchor : Bool
  caseId : Option String
  goal : Option String
  outcome : Option String
  phase : Option String
  resolutionStatus : Option ResolutionStatus
  assertionStatus : AssertionStatus
  createdAt : Time

def restoredColumns (f : Fragment) : RestoredColumns where
  id := f.id
  content := f.content
  topic := f.topic
  type := f.type
  keywords := f.keywords
  importance := f.importance
  keyId := f.keyId
  workspace := f.workspace
  sessionId := f.sessionId
  ttlTier := f.ttlTier
  isAnchor := f.isAnchor
  caseId := f.caseId
  goal := f.goal
  outcome := f.outcome
  phase := f.phase
  resolutionStatus := f.resolutionStatus
  assertionStatus := f.assertionStatus
  createdAt := f.createdAt

/-- The import of the lines of exported rows. -/
def importRows (tools : ArchiveTools) (options : ImportOptions) (store : Store) (rows : List Fragment) : Store × ImportSummary :=
  importCmd tools options store {} (rows.map fun f => some (exportLine tools f))

/-- Every row is exported once, an import into an empty store has the columns of the originals, and a second one changes
nothing and reports no errors. -/
structure RoundTrip (tools : ArchiveTools) (originals lines : List Fragment) : Prop where
  exported : lines.Perm originals
  restored : ((importRows tools {} {} lines).1.fragments.rows.map restoredColumns).Perm (originals.map restoredColumns)
  unchanged : (importRows tools { idempotent := true } (importRows tools {} {} lines).1 lines).1 =
    (importRows tools {} {} lines).1
  noErrors : (importRows tools { idempotent := true } (importRows tools {} {} lines).1 lines).2.errors = 0

/-- A row that its line restores. -/
structure RestorableRow (tools : ArchiveTools) (f : Fragment) : Prop where
  id : f.id ≠ ""
  content : f.content ≠ ""
  topic : f.topic ≠ ""
  importance : checkImportance f.importance = true
  keyId : f.keyId = none
  workspace : f.workspace = none
  sessionId : f.sessionId = none
  ttlTier : f.ttlTier = .warm
  caseId : f.caseId ≠ some ""
  goal : f.goal ≠ some ""
  outcome : f.outcome ≠ some ""
  phase : f.phase ≠ some ""
  createdAt : tools.dateOf f.createdAt = f.createdAt

/-- No page ends between rows of one time, every row is restored by its line, and no two have one content. -/
structure Restorable (tools : ArchiveTools) (originals : List Fragment) : Prop where
  pages : ∀ k, 0 < k → k * batchSize < originals.length → CleanCut Fragment.createdAt originals (k * batchSize)
  rows : ∀ f ∈ originals, RestorableRow tools f
  contents : ∀ f ∈ originals, ∀ g ∈ originals, tools.digests.hex f.content = tools.digests.hex g.content → f = g

/-! ## Export of every row -/

/-- Without a limit the loop reads the pages of the library. -/
theorem exportRows_eq (answers : ℕ → List Fragment) (fuel k exported : ℕ) :
    exportRows answers none fuel k exported = readPages answers batchSize fuel k exported := by
  induction fuel generalizing k exported with
  | zero => rfl
  | succ fuel ih =>
    simp only [exportRows, readPages, Option.any_none, Bool.or_false, decide_eq_true_eq, ih]

/-- The export covers the rows, in whatever order ties stand, exactly if no page ends between rows of one time. -/
theorem forall_perm_exportRows_iff {rows : List Fragment} (hnodup : rows.Nodup) :
    (∀ answers : ℕ → Arrangement Fragment.createdAt rows,
      (exportRows (fun k => (answers k).list) none (rows.length + 1) 0 0).Perm rows) ↔
      ∀ k, 0 < k → k * batchSize < rows.length → CleanCut Fragment.createdAt rows (k * batchSize) := by
  have hfuel : rows.length / batchSize < rows.length + 1 := Nat.lt_succ_of_le (Nat.div_le_self _ _)
  have hread := @forall_perm_readPages_iff Fragment Time _ Fragment.createdAt rows batchSize (by decide) hnodup _ hfuel
  simp only [exportRows_eq]
  exact hread

/-! ## Import of restorable rows -/

/-- The row that a restorable row becomes. -/
def restoredRow (tools : ArchiveTools) (f : Fragment) : Fragment where
  id := f.id
  content := f.content
  topic := f.topic
  keywords := f.keywords
  type := f.type
  importance := f.importance
  contentHash := tools.digests.hex f.content
  source := some ((truthy f.source).getD "import")
  agentId := (truthy (some f.agentId)).getD "cli"
  ttlTier := .warm
  keyId := none
  isAnchor := f.isAnchor
  caseId := f.caseId
  goal := f.goal
  outcome := f.outcome
  phase := f.phase
  resolutionStatus := f.resolutionStatus
  assertionStatus := f.assertionStatus
  idempotencyKey := truthy f.idempotencyKey
  createdAt := f.createdAt

variable {tools : ArchiveTools}

theorem truthy_some {text : String} (h : text ≠ "") : truthy (some text) = some text := by
  simp [truthy, Option.filter_some, h]

theorem truthy_of_ne {value : Option String} (h : value ≠ some "") : truthy value = value := by
  cases value with
  | none => rfl
  | some text => exact truthy_some fun hempty => h (congrArg some hempty)

theorem row_rowToParams {f : Fragment} (h : RestorableRow tools f) (lineNum : ℕ) :
    (rowToParams tools lineNum f.content f.topic (exportLine tools f)).row = some (restoredRow tools f) := by
  simp only [InsertValues.row, rowToParams, exportLine, Option.getD_some, h.importance, if_true, Option.map_some,
    truthy_some h.id, truthy_of_ne h.caseId, truthy_of_ne h.goal, truthy_of_ne h.outcome, truthy_of_ne h.phase, h.createdAt]
  simp [restoredRow]

theorem restoredColumns_restoredRow {f : Fragment} (h : RestorableRow tools f) :
    restoredColumns (restoredRow tools f) = restoredColumns f := by
  simp only [restoredColumns, restoredRow, h.keyId, h.workspace, h.sessionId, h.ttlTier]

/-- What the statement does with the line of a restorable row. -/
theorem importLine_restorable {f : Fragment} (h : RestorableRow tools f) (options : ImportOptions)
    (hreal : options.dryRun = false) (store : Store) (summary : ImportSummary) :
    importLine tools options store summary (some (exportLine tools f)) =
      match insertValues options.idempotent store (rowToParams tools summary.lines f.content f.topic (exportLine tools f)) with
      | .failed => (store, { summary with errors := summary.errors + 1 })
      | .skipped => (store, { summary with skipped := summary.skipped + 1 })
      | .inserted next => (next, { summary with imported := summary.imported + 1 }) := by
  have hcontent : truthy (exportLine tools f).content = some f.content := truthy_some h.content
  have htopic : truthy (exportLine tools f).topic = some f.topic := truthy_some h.topic
  simp only [importLine, hcontent, htopic, hreal, Bool.false_eq_true, if_false]

/-- Rows that differ in id, content and idempotency key. -/
structure Apart (tools : ArchiveTools) (f g : Fragment) : Prop where
  id : f.id ≠ g.id
  contents : tools.digests.hex f.content ≠ tools.digests.hex g.content
  idempotencyKey : truthy g.idempotencyKey ≠ none → truthy f.idempotencyKey ≠ truthy g.idempotencyKey

/-- Restorable rows that are apart are all inserted. -/
theorem importRows_rows {later : List Fragment} {store : Store} {earlier : List Fragment} {summary : ImportSummary}
    (hrows : ∀ f ∈ later, RestorableRow tools f) (hapart : (earlier ++ later).Pairwise (Apart tools))
    (hstore : store.fragments.rows = earlier.map (restoredRow tools)) :
    (importCmd tools {} store summary (later.map fun f => some (exportLine tools f))).1.fragments.rows =
      (earlier ++ later).map (restoredRow tools) := by
  induction later generalizing store earlier summary with
  | nil =>
    rw [List.append_nil]
    exact hstore
  | cons f later ih =>
    have hf := hrows f List.mem_cons_self
    obtain ⟨-, -, hcross⟩ := List.pairwise_append.mp hapart
    have hheld : ∀ g ∈ store.fragments.rows, ∃ e ∈ earlier, restoredRow tools e = g := by
      intro g hg
      rw [hstore] at hg
      exact List.mem_map.mp hg
    obtain ⟨next, hinsert, hnext⟩ := insertValues_fits (row_rowToParams hf (summary.lines + 1))
      (fun g hg => by
        obtain ⟨e, he, rfl⟩ := hheld g hg
        exact (hcross e he f List.mem_cons_self).id)
      (fun g hg _ => by
        obtain ⟨e, he, rfl⟩ := hheld g hg
        exact (hcross e he f List.mem_cons_self).contents)
      (fun g hg _ => by
        obtain ⟨e, he, rfl⟩ := hheld g hg
        exact (hcross e he f List.mem_cons_self).idempotencyKey) false
    have hrest := fun total => @ih next (earlier ++ [f]) total (fun g hg => hrows g (List.mem_cons_of_mem _ hg))
      (by rw [List.append_assoc]; exact hapart) (by rw [hnext, hstore, List.map_append]; rfl)
    simp only [List.map_cons, importCmd, importLine_restorable hf {} rfl, hinsert]
    rw [hrest, List.append_assoc]
    rfl

/-- Lines whose ids are there are all skipped. -/
theorem importRows_again {rows : List Fragment} {store : Store} {summary : ImportSummary}
    (hrows : ∀ f ∈ rows, RestorableRow tools f) (hthere : ∀ f ∈ rows, ∃ g ∈ store.fragments.rows, g.id = f.id) :
    (importCmd tools { idempotent := true } store summary (rows.map fun f => some (exportLine tools f))).1 = store ∧
      (importCmd tools { idempotent := true } store summary (rows.map fun f => some (exportLine tools f))).2.errors =
        summary.errors := by
  induction rows generalizing summary with
  | nil => exact ⟨rfl, rfl⟩
  | cons f later ih =>
    have hf := hrows f List.mem_cons_self
    obtain ⟨g, hg, hid⟩ := hthere f List.mem_cons_self
    have hskipped := insertValues_present (row_rowToParams hf (summary.lines + 1)) hg hid
    have hrest := fun total => @ih total (fun e he => hrows e (List.mem_cons_of_mem _ he))
      fun e he => hthere e (List.mem_cons_of_mem _ he)
    simp only [List.map_cons, importCmd, importLine_restorable hf { idempotent := true } rfl, hskipped]
    exact hrest _

/-! ## What an import makes of any lines -/

/-- The row that the line of a row becomes. -/
structure Imported (tools : ArchiveTools) (f r : Fragment) : Prop where
  id_ne : r.id ≠ ""
  id : f.id ≠ "" → r.id = f.id
  content : r.content = f.content
  content_ne : r.content ≠ ""
  topic_ne : r.topic ≠ ""
  importance : checkImportance r.importance = true
  contentHash : r.contentHash = tools.digests.hex f.content
  keyId : r.keyId = none
  workspace : r.workspace = none
  sessionId : r.sessionId = none
  ttlTier : r.ttlTier = .warm
  caseId : r.caseId ≠ some ""
  goal : r.goal ≠ some ""
  outcome : r.outcome ≠ some ""
  phase : r.phase ≠ some ""
  createdAt : r.createdAt = tools.dateOf f.createdAt

theorem truthy_ne (value : Option String) : truthy value ≠ some "" := by
  intro h
  have hcond := (Option.filter_eq_some_iff.mp h).2
  simp at hcond

theorem imported_row {f r : Fragment} {lineNum : ℕ} {content topic : String}
    (hcontent : truthy (some f.content) = some content)
    (htopic : truthy (some f.topic) = some topic)
    (h : (rowToParams tools lineNum content topic (exportLine tools f)).row = some r) : Imported tools f r := by
  obtain ⟨hcontentSome, hcontentCond⟩ := Option.filter_eq_some_iff.mp hcontent
  obtain ⟨-, htopicCond⟩ := Option.filter_eq_some_iff.mp htopic
  cases hcontentSome
  simp only [decide_eq_true_eq] at hcontentCond htopicCond
  simp only [InsertValues.row] at h
  split at h
  · rename_i hcheck
    cases h
    have hid : (truthy (some f.id)).getD (tools.newId lineNum) ≠ "" := by
      rcases hgiven : truthy (some f.id) with _ | id
      · exact tools.newId_ne lineNum
      · have hne := (Option.filter_eq_some_iff.mp hgiven).2
        simpa using hne
    exact {
      id_ne := hid
      id := fun hne => by simp only [rowToParams, exportLine, truthy_some hne, Option.getD_some]
      content := rfl
      content_ne := hcontentCond
      topic_ne := htopicCond
      importance := hcheck
      contentHash := rfl
      keyId := rfl
      workspace := rfl
      sessionId := rfl
      ttlTier := rfl
      caseId := truthy_ne _
      goal := truthy_ne _
      outcome := truthy_ne _
      phase := truthy_ne _
      createdAt := rfl }
  · cases h

/-- One line adds at most the row of its original. -/
theorem importLine_rows {store : Store} {summary : ImportSummary} {options : ImportOptions} {f r : Fragment}
    (h : r ∈ (importLine tools options store summary (some (exportLine tools f))).1.fragments.rows) :
    r ∈ store.fragments.rows ∨ Imported tools f r := by
  simp only [importLine] at h
  split at h
  · rename_i content topic hcontent htopic
    split at h
    · exact Or.inl h
    · split at h
      · exact Or.inl h
      · exact Or.inl h
      · rename_i next hinsert
        obtain ⟨row, hrow, hrows⟩ := insertValues_inserted hinsert
        rw [hrows, List.mem_append, List.mem_singleton] at h
        rcases h with hold | rfl
        · exact Or.inl hold
        · exact Or.inr (imported_row hcontent htopic hrow)
  · exact Or.inl h

/-- Every row after an import was there or comes from a line. -/
theorem importCmd_rows {rows : List Fragment} {store : Store} {summary : ImportSummary} {options : ImportOptions}
    {r : Fragment}
    (h : r ∈ (importCmd tools options store summary (rows.map fun f => some (exportLine tools f))).1.fragments.rows) :
    r ∈ store.fragments.rows ∨ ∃ f ∈ rows, Imported tools f r := by
  induction rows generalizing store summary with
  | nil => exact Or.inl h
  | cons f later ih =>
    rcases ih h with hmiddle | ⟨g, hg, himported⟩
    · rcases importLine_rows hmiddle with hold | himported
      · exact Or.inl hold
      · exact Or.inr ⟨f, List.mem_cons_self, himported⟩
    · exact Or.inr ⟨g, List.mem_cons_of_mem _ hg, himported⟩

/-! ## The exact condition -/

variable {store : Store} {args : ExportArgs}

theorem nodup_exportMatches : (exportMatches args store).Nodup :=
  (LiveCounts.nodup_ids store.fragments).of_map.filter _

/-- Restorable rows survive the round trip. -/
theorem roundTrip_of_restorable (h : Restorable tools (exportMatches args store)) {lines : List Fragment}
    (hlines : lines.Perm (exportMatches args store)) : RoundTrip tools (exportMatches args store) lines := by
  have hrows : ∀ f ∈ lines, RestorableRow tools f := fun f hf => h.rows f (hlines.mem_iff.mp hf)
  have hstored : ∀ f ∈ lines, f ∈ store.fragments.rows := fun f hf => (List.mem_filter.mp (hlines.mem_iff.mp hf)).1
  have hnodup : lines.Nodup := hlines.nodup_iff.mpr nodup_exportMatches
  have hapart : lines.Pairwise (Apart tools) := by
    refine hnodup.imp_of_mem fun {f g} hf hg hne => ⟨fun hid => hne ?_, fun hhash => hne ?_, fun hsome hidem => hne ?_⟩
    · exact eq_of_id _ (hstored f hf) (hstored g hg) hid
    · exact h.contents f (hlines.mem_iff.mp hf) g (hlines.mem_iff.mp hg) hhash
    · obtain ⟨key, hkey⟩ := Option.ne_none_iff_exists'.mp hsome
      have hgiven := truthy_eq_some hkey
      have hgiven' := truthy_eq_some (hidem.trans hkey)
      refine store.fragments.eq_of_entry (hstored f hf) (hstored g hg)
        (idempotency_mem_entries.mpr ⟨(hrows f hf).keyId, hgiven'⟩) (idempotency_mem_entries.mpr ⟨(hrows g hg).keyId, hgiven⟩)
  have hfirst : (importRows tools {} {} lines).1.fragments.rows = lines.map (restoredRow tools) :=
    @importRows_rows tools lines {} [] {} hrows hapart rfl
  have hthere : ∀ f ∈ lines, ∃ g ∈ (importRows tools {} {} lines).1.fragments.rows, g.id = f.id := by
    intro f hf
    rw [hfirst]
    exact ⟨restoredRow tools f, List.mem_map_of_mem hf, rfl⟩
  obtain ⟨hunchanged, herrors⟩ := @importRows_again tools lines _ {} hrows hthere
  refine ⟨hlines, ?_, hunchanged, herrors⟩
  have hcolumns : (lines.map (restoredRow tools)).map restoredColumns = lines.map restoredColumns := by
    rw [List.map_map]
    exact List.map_congr_left fun f hf => restoredColumns_restoredRow (hrows f hf)
  rw [hfirst, hcolumns]
  exact hlines.map _

/-- The rows of a round trip are restorable, and no two have one content. -/
theorem restorable_of_roundTrip {lines : List Fragment} (h : RoundTrip tools (exportMatches args store) lines) :
    (∀ f ∈ exportMatches args store, RestorableRow tools f) ∧
      ∀ f ∈ exportMatches args store, ∀ g ∈ exportMatches args store,
        tools.digests.hex f.content = tools.digests.hex g.content → f = g := by
  have hstored : ∀ f ∈ exportMatches args store, f ∈ store.fragments.rows := fun f hf => (List.mem_filter.mp hf).1
  -- each original has a row with its columns, which comes from the line of some original
  have hback : ∀ f ∈ exportMatches args store, ∃ r ∈ (importRows tools {} {} lines).1.fragments.rows,
      restoredColumns r = restoredColumns f ∧ ∃ g ∈ exportMatches args store, Imported tools g r := by
    intro f hf
    obtain ⟨r, hr, hcolumns⟩ := List.mem_map.mp (h.restored.mem_iff.mpr (List.mem_map_of_mem hf))
    rcases importCmd_rows hr with hold | ⟨g, hg, himported⟩
    · cases hold
    · exact ⟨r, hr, hcolumns, g, h.exported.mem_iff.mp hg, himported⟩
  have hid : ∀ f ∈ exportMatches args store, f.id ≠ "" := by
    intro f hf
    obtain ⟨r, -, hcolumns, g, -, himported⟩ := hback f hf
    have hsame : r.id = f.id := congrArg RestoredColumns.id hcolumns
    rw [← hsame]
    exact himported.id_ne
  refine ⟨fun f hf => ?_, fun f hf g hg hhash => ?_⟩
  · obtain ⟨r, -, hcolumns, g, hg, himported⟩ := hback f hf
    have hsame : g = f := by
      refine eq_of_id _ (hstored g hg) (hstored f hf) ?_
      rw [← himported.id (hid g hg)]
      exact congrArg RestoredColumns.id hcolumns
    subst hsame
    simp only [restoredColumns, RestoredColumns.mk.injEq] at hcolumns
    obtain ⟨-, hcontent, htopic, -, -, himportance, hkey, hworkspace, hsession, htier, -, hcase, hgoal, houtcome, hphase, -, -,
      hcreated⟩ := hcolumns
    exact {
      id := hid g hf
      content := hcontent ▸ himported.content_ne
      topic := htopic ▸ himported.topic_ne
      importance := himportance ▸ himported.importance
      keyId := hkey ▸ himported.keyId
      workspace := hworkspace ▸ himported.workspace
      sessionId := hsession ▸ himported.sessionId
      ttlTier := htier ▸ himported.ttlTier
      caseId := hcase ▸ himported.caseId
      goal := hgoal ▸ himported.goal
      outcome := houtcome ▸ himported.outcome
      phase := hphase ▸ himported.phase
      createdAt := himported.createdAt.symm.trans hcreated }
  · obtain ⟨r, hr, hcolumns, e, -, himported⟩ := hback f hf
    obtain ⟨r', hr', hcolumns', e', -, himported'⟩ := hback g hg
    have hcontent : r.content = f.content := congrArg RestoredColumns.content hcolumns
    have hcontent' : r'.content = g.content := congrArg RestoredColumns.content hcolumns'
    have hrows : r = r' := by
      refine eq_of_contentHash _ hr hr' (himported.keyId.trans himported'.keyId.symm) ?_
      rw [himported.contentHash, himported'.contentHash, ← himported.content, ← himported'.content, hcontent,
        hcontent', hhash]
    refine eq_of_id _ (hstored f hf) (hstored g hg) ?_
    have hids : r.id = f.id := congrArg RestoredColumns.id hcolumns
    have hids' : r'.id = g.id := congrArg RestoredColumns.id hcolumns'
    rw [← hids, ← hids', hrows]

/-- An export and its import restore the store, in whatever order rows of one time stand, exactly if its rows are
restorable. -/
theorem cli_round_trip_iff (tools : ArchiveTools) (args : ExportArgs) (store : Store) :
    (∀ answers : ℕ → Arrangement Fragment.createdAt (exportMatches args store),
      RoundTrip tools (exportMatches args store)
        (exportRows (fun k => (answers k).list) none ((exportMatches args store).length + 1) 0 0)) ↔
      Restorable tools (exportMatches args store) := by
  have hpages := forall_perm_exportRows_iff (@nodup_exportMatches store args)
  constructor
  · intro htrip
    obtain ⟨arranged⟩ := exists_arrangement Fragment.createdAt (exportMatches args store)
    obtain ⟨hrows, hcontents⟩ := restorable_of_roundTrip (htrip fun _ => arranged)
    exact ⟨hpages.mp fun answers => (htrip answers).exported, hrows, hcontents⟩
  · intro hrestorable answers
    exact roundTrip_of_restorable hrestorable (hpages.mpr hrestorable.pages answers)

def sampleArchive : ArchiveTools where
  dateOf := id
  newId _ := "2c5ea4c0-4067-11e9-8bad-9b1deb4d3b7d"
  newId_ne _ := by decide
  digests := ContentUniqueness.sampleDigests
  now := 2

/-- The row of a key comes back without the key. -/
theorem tenant_row_not_restored : ¬ ∀ (tools : ArchiveTools) (args : ExportArgs) (store : Store)
    (answers : ℕ → Arrangement Fragment.createdAt (exportMatches args store)),
      RoundTrip tools (exportMatches args store)
        (exportRows (fun k => (answers k).list) none ((exportMatches args store).length + 1) 0 0) := by
  intro h
  obtain ⟨arranged⟩ := exists_arrangement Fragment.createdAt (exportMatches {} AdminExport.singleStore)
  have htrip := h sampleArchive {} AdminExport.singleStore fun _ => arranged
  have hrow : ContentUniqueness.sampleFragment ∈ exportMatches {} AdminExport.singleStore := by decide +kernel
  have hkey := ((restorable_of_roundTrip htrip).1 _ hrow).keyId
  cases hkey

end FragmentMemory.CliArchive
