import FragmentMemory.ContentUniqueness

/-! # The rows of the two insert paths

`FragmentWriter.insert` and the multi-row statement of a batch write the same fragments into the same
table, each with a list of columns of its own.  The batch leaves the importance as it is requested,
names neither the affect nor the idempotency key, and carries the short hash of the factory.
-/
namespace FragmentMemory.InsertPaths
open ApiKeyStore FragmentTables FragmentFactory FragmentWriter BatchRememberProcessor ContentUniqueness JsString

variable (digests : Digests) (tools : TextTools) (context : BatchContext)

/-- The fragments of a batch that both statements accept. -/
def acceptedFragments (items : List (Option BatchItem)) : List (ℕ × Fragment) :=
  (validFragments digests tools context items).filter fun item =>
    checkImportance (insertRow context item.2).importance &&
      checkImportance (prepareInsertRow digests context.now item.2).importance

/-- The same fragments one by one. -/
def insertEach : Store → List (ℕ × Fragment) → Option Store
  | store, [] => some store
  | store, item :: later =>
    match insert digests context.now store item.2 with
    | none => none
    | some inserted => insertEach inserted.1 later

/-- Every row has the same columns on both paths, and so has the table. -/
structure BatchEqualsSingle (store : Store) (items : List (Option BatchItem)) : Prop where
  columns : ∀ item ∈ acceptedFragments digests tools context items,
    insertRow context item.2 = prepareInsertRow digests context.now item.2
  table : (insertAll context store (acceptedFragments digests tools context items)).map Prod.fst =
    insertEach digests context store (acceptedFragments digests tools context items)

variable {digests tools context}

/-- Where the rows are the same, so are the tables. -/
theorem insertAll_eq_insertEach {items : List (ℕ × Fragment)}
    (hrows : ∀ item ∈ items, insertRow context item.2 = prepareInsertRow digests context.now item.2) (store : Store) :
    (insertAll context store items).map Prod.fst = insertEach digests context store items := by
  induction items generalizing store with
  | nil => rfl
  | cons item later ih =>
    obtain ⟨position, f⟩ := item
    have hrow : insertRow context f = prepareInsertRow digests context.now f := hrows _ List.mem_cons_self
    have hlater := ih fun other hother => hrows other (List.mem_cons_of_mem _ hother)
    simp only [insertAll, insertEach, FragmentWriter.insert, hrow]
    cases upsertRow context.now store (prepareInsertRow digests context.now f) with
    | none => rfl
    | some inserted =>
      obtain ⟨next, id⟩ := inserted
      simp only [← hlater next, Option.map_map]
      rfl

/-- The fragment of a valid item is one that the factory has created, under the caller. -/
theorem validFragments_created {items : List (Option BatchItem)} {position : ℕ} {f : Fragment}
    (h : (position, f) ∈ validFragments digests tools context items) :
    ∃ item created, create digests tools (context.newId position) context.now item = .ok created ∧
      f = { created with agentId := context.agentId, keyId := context.keyId, workspace := f.workspace } := by
  obtain ⟨given, created, -, hcreate, hbuilt⟩ := mem_validFragments h
  exact ⟨_, created, hcreate, hbuilt⟩

theorem create_validationWarnings {newId : FragmentId} {now : Time} {params : FragmentParams} {f : Fragment}
    (h : create digests tools newId now params = .ok f) : f.validationWarnings = [] := by
  simp only [create] at h
  split at h
  · cases h
  · split at h
    · cases h
    · cases h
      rfl

/-- The columns other than the hash that the two statements may fill differently. -/
def SameOtherColumns (f : Fragment) : Prop :=
  sanitizeInsertImportance f.content f.type f.importance f.isAnchor = f.importance ∧ f.affect = .neutral ∧
    f.idempotencyKey = none ∧ f.workspace ≠ some ""

theorem truthy_eq_self_iff {value : Option String} : truthy value = value ↔ value ≠ some "" := by
  rcases value with _ | text
  · simp [truthy]
  · by_cases hempty : text = ""
    · simp [truthy, Option.filter_some, hempty]
    · simp [truthy, Option.filter_some, hempty]

/-- The hash aside, the rows of a valid item agree in exactly these cases. -/
theorem sameOtherColumns_iff {items : List (Option BatchItem)} {item : ℕ × Fragment}
    (h : item ∈ validFragments digests tools context items) :
    { insertRow context item.2 with contentHash := "" } =
        { prepareInsertRow digests context.now item.2 with contentHash := "" } ↔ SameOtherColumns item.2 := by
  obtain ⟨position, f⟩ := item
  obtain ⟨params, created, hcreate, hf⟩ := validFragments_created h
  have hnone : created.validationWarnings = [] := create_validationWarnings hcreate
  have hwarnings : f.validationWarnings = [] := (congrArg Fragment.validationWarnings hf).trans hnone
  constructor
  · intro hsame
    refine ⟨?_, ?_, ?_, ?_⟩
    · exact (congrArg Fragment.importance hsame).symm
    · exact (congrArg Fragment.affect hsame).symm
    · exact (congrArg Fragment.idempotencyKey hsame).symm
    · exact truthy_eq_self_iff.mp (congrArg Fragment.workspace hsame).symm
  · intro hsame
    obtain ⟨himportance, haffect, hkey, hworkspace⟩ : SameOtherColumns f := hsame
    simp only [insertRow, prepareInsertRow, himportance, haffect, hkey, hwarnings, truthy_eq_self_iff.mpr hworkspace]

/-- The hash of the factory is no full digest. -/
theorem hashContent_ne_computeContentHash (hsha : ∀ text, (digests.hex text).toList.length = 64) (content : String) :
    hashContent digests content ≠ computeContentHash digests content := by
  intro hsame
  have hlength := congrArg (fun text : String => text.toList.length) hsame
  simp only [hashContent, computeContentHash, String.toList_ofList, List.length_take, hsha] at hlength
  omega

/-- With digests of 64 digits a batch never equals the single path, unless it has no item that both
accept; the other columns agree in the cases above. -/
theorem batch_equals_single_iff (hsha : ∀ text, (digests.hex text).toList.length = 64) (store : Store)
    (items : List (Option BatchItem)) :
    (BatchEqualsSingle digests tools context store items ↔ acceptedFragments digests tools context items = []) ∧
    ∀ item ∈ validFragments digests tools context items,
      ({ insertRow context item.2 with contentHash := "" } =
        { prepareInsertRow digests context.now item.2 with contentHash := "" } ↔ SameOtherColumns item.2) := by
  refine ⟨⟨fun h => ?_, fun hnone => ?_⟩, fun item hitem => sameOtherColumns_iff hitem⟩
  · refine List.eq_nil_iff_forall_not_mem.mpr fun item hitem => ?_
    have hhash := congrArg Fragment.contentHash (h.columns item hitem)
    have hspec := (validFragments_spec (List.mem_filter.mp hitem).1).2.1
    simp only [insertRow, prepareInsertRow, hspec] at hhash
    exact hashContent_ne_computeContentHash hsha item.2.content hhash
  · have hrows : ∀ item ∈ acceptedFragments digests tools context items,
        insertRow context item.2 = prepareInsertRow digests context.now item.2 := by
      rw [hnone]
      exact fun _ h => absurd h List.not_mem_nil
    exact ⟨hrows, insertAll_eq_insertEach hrows store⟩

/-- Digests of 64 digits, SHA-256 on the sample content. -/
def fullDigests : Digests where
  hex text := if text = sampleContent then
    "77dcdc41cdc3789120882cbf0383cede824aa0a0220f3d57b8b36bd33415aa8f"
    else "e3b0c44298fc1c149afbf4c8996fb92427ae41e4649b934ca495991b7852b855"
  base64Url _ := ""

/-- A confident finding under an idempotency key. -/
def confidentItem : BatchItem :=
  { sampleItem with importance := some (9 / 10), affect := some .confidence, idempotencyKey := some "retry-1" }

/-- The batch of the sample item and one without content. -/
theorem batch_equals_single_iff_sample :
    (BatchEqualsSingle fullDigests sampleTools sampleBatch {} [some { sampleItem with content := none }] ↔
      acceptedFragments fullDigests sampleTools sampleBatch [some { sampleItem with content := none }] = []) ∧
    ¬ BatchEqualsSingle fullDigests sampleTools sampleBatch {} [some sampleItem] := by
  have hsha : ∀ text, (fullDigests.hex text).toList.length = 64 := by
    intro text
    simp only [fullDigests]
    split
    · decide
    · decide
  have hsome : acceptedFragments fullDigests sampleTools sampleBatch [some sampleItem] ≠ [] := by decide +kernel
  exact ⟨(batch_equals_single_iff hsha {} _).1, fun h => hsome ((batch_equals_single_iff hsha {} _).1.mp h)⟩

/-- The two rows of such a finding differ in hash, importance, affect and idempotency key. -/
theorem batch_differs_from_single :
    ¬ BatchEqualsSingle fullDigests sampleTools sampleBatch {} [some confidentItem] ∧
    ∃ item ∈ acceptedFragments fullDigests sampleTools sampleBatch [some confidentItem],
      (insertRow sampleBatch item.2).contentHash ≠ (prepareInsertRow fullDigests sampleBatch.now item.2).contentHash ∧
      (insertRow sampleBatch item.2).importance = 9 / 10 ∧
      (prepareInsertRow fullDigests sampleBatch.now item.2).importance = 7 / 10 ∧
      (insertRow sampleBatch item.2).affect = .neutral ∧
      (prepareInsertRow fullDigests sampleBatch.now item.2).affect = .confidence ∧
      (insertRow sampleBatch item.2).idempotencyKey = none ∧
      (prepareInsertRow fullDigests sampleBatch.now item.2).idempotencyKey = some "retry-1" := by
  have hdiffer : ∃ item ∈ acceptedFragments fullDigests sampleTools sampleBatch [some confidentItem],
      insertRow sampleBatch item.2 ≠ prepareInsertRow fullDigests sampleBatch.now item.2 := by decide +kernel
  refine ⟨fun h => ?_, by decide +kernel⟩
  obtain ⟨item, hitem, hne⟩ := hdiffer
  exact hne (h.columns item hitem)

end FragmentMemory.InsertPaths
