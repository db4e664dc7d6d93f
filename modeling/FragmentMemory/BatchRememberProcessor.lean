import FragmentMemory.FragmentIndex
import FragmentMemory.FragmentWriter

/-! # Batch remember

`BatchRememberProcessor.process` on its synchronous path: validation of the items outside the
database, one transaction of upserts, and the indexing afterwards.  The items carry the hash that
the factory attached to them into the rows.
-/
namespace FragmentMemory.BatchRememberProcessor
open ApiKeyStore FragmentTables FragmentFactory FragmentWriter FragmentIndex JsString

structure BatchItem extends FragmentParams where
  workspace : Option String := none

/-- The caller of a batch and what its transaction draws on: the limit of the key row, the ids that
the factory generates for the items in order and the clock. -/
structure BatchContext where
  keyId : Option KeyId
  agentId : String := "default"
  workspace : Option String := none
  fragmentLimit : Option ℕ := none
  newId : ℕ → FragmentId
  now : Time
  redisReady : Bool := true

structure ItemResult where
  index : ℕ
  id : Option FragmentId
  success : Bool
  error : Option String := none
  deriving DecidableEq

structure BatchResult where
  results : List ItemResult
  inserted : ℕ
  skipped : ℕ
  rejectedByQuota : Option ℕ := none
  deriving DecidableEq

def maxBatch : ℕ := 200

def maxTotalChars : ℕ := 200000

def maxContentInputLength : ℕ := 4000

/-- `validateContentInput`. -/
def contentInputError (content : String) : Option String :=
  if maxContentInputLength < utf16Length content then
    some s!"content length {utf16Length content} exceeds max {maxContentInputLength}"
  else none

variable (digests : Digests) (tools : TextTools) (context : BatchContext)

/-- Phase A for one item: the reason of its refusal or its fragment. -/
def prepareItem (position : ℕ) : Option BatchItem → Except String Fragment
  | none => .error "Cannot read properties of null (reading 'content')"
  | some item =>
    match item.content with
    | none => .error "content is required"
    | some content =>
      match contentInputError content with
      | some reason => .error reason
      | none =>
        if item.type.isNone then .error "type is required"
        else match validateContent (trim content) item.type item.topic with
          | some reason => .error reason
          | none =>
            (create digests tools (context.newId position) context.now item.toFragmentParams).map fun f =>
              { f with
                agentId := context.agentId
                keyId := context.keyId
                workspace := item.workspace.or context.workspace }

def itemResult (position : ℕ) : Except String Fragment → ItemResult
  | .error reason => { index := position, id := none, success := false, error := some reason }
  | .ok f => { index := position, id := some f.id, success := true }

/-- The rows of a key that count against its limit. -/
def liveCount (store : Store) (keyId : KeyId) : ℕ :=
  (store.fragments.rows.filter fun f => f.keyId = some keyId && f.live).length

/-- The free slots of the key; none without a limit. -/
def remainingSlots (store : Store) : Option ℕ :=
  match context.keyId, context.fragmentLimit with
  | some keyId, some limit => some (limit - liveCount store keyId)
  | _, _ => none

def rejectByQuota (rejected : List (ℕ × Fragment)) (results : List ItemResult) : List ItemResult :=
  results.map fun r =>
    if rejected.any (fun item => item.1 = r.index) then
      { r with id := none, success := false, error := some "fragment_limit_exceeded" }
    else r

/-- The row of the multi-row `INSERT`: hash and importance are those of the factory, and columns that
the statement does not name have the defaults of the table. -/
def insertRow (f : Fragment) : Fragment :=
  { f with
    source := truthy f.source
    estimatedTokens := estimateTokens f
    contextSummary := truthy f.contextSummary
    sessionId := truthy f.sessionId
    caseId := truthy f.caseId
    goal := truthy f.goal
    outcome := truthy f.outcome
    phase := truthy f.phase
    accessCount := 0
    emaActivation := none
    accessedAt := none
    validTo := none
    createdAt := context.now
    affect := .neutral
    idempotencyKey := none
    validationWarnings := [] }

/-- Phase B: the upserts of one transaction in input order, with the id each returned; none when a
statement throws and the transaction is rolled back.  The chunks only bound the size of a
statement, and a repeated conflict target starts a new one. -/
def insertAll : Store → List (ℕ × Fragment) → Option (Store × List (ℕ × Fragment × FragmentId))
  | store, [] => some (store, [])
  | store, (position, f) :: later =>
    match upsertRow context.now store (insertRow context f) with
    | none => none
    | some (next, id) => (insertAll next later).map fun done => (done.1, (position, f, id) :: done.2)

def recordIds (inserted : List (ℕ × Fragment × FragmentId)) (results : List ItemResult) : List ItemResult :=
  results.map fun r =>
    match inserted.find? fun item => item.1 = r.index with
    | some item => { r with id := some item.2.2 }
    | none => r

/-- Phase C: a fragment is indexed when its own id is among the reported ones. -/
def indexInserted (store : Store) (inserted : List (ℕ × Fragment × FragmentId)) (results : List ItemResult) :
    Store :=
  inserted.foldl (fun current item =>
    if results.any fun r => r.success && r.id = some item.2.1.id then
      index context.redisReady tools current item.2.1 none context.keyId
    else current) store

/-- The arguments that make the call throw before any item is looked at. -/
def argumentError (items : List (Option BatchItem)) : Option String :=
  let totalChars := (items.map fun item =>
    ((item.bind fun i => i.content).map utf16Length).getD 0).sum
  if items = [] then some "fragments array is required and must not be empty"
  else if maxBatch < items.length then
    some s!"Batch size {items.length} exceeds maximum {maxBatch}"
  else if maxTotalChars < totalChars then
    some s!"Batch total content {totalChars} chars exceeds maximum {maxTotalChars}"
  else none

/-- The items that passed phase A with their positions. -/
def validFragments (items : List (Option BatchItem)) : List (ℕ × Fragment) :=
  items.zipIdx.filterMap fun (item, position) =>
    ((prepareItem digests tools context position item).toOption).map fun f => (position, f)

/-- `process`.  The quota is checked before the transaction and again inside it. -/
def process (store : Store) (items : List (Option BatchItem)) : Store × Except String BatchResult :=
  match argumentError items with
  | some reason => (store, .error reason)
  | none =>
    let results := items.zipIdx.map fun (item, position) =>
      itemResult position (prepareItem digests tools context position item)
    let valid := validFragments digests tools context items
    if valid = [] then (store, .ok { results := results, inserted := 0, skipped := items.length })
    else if remainingSlots context store = some 0 then
      (store, .ok {
        results := rejectByQuota valid results
        inserted := 0
        skipped := items.length
        rejectedByQuota := some valid.length })
    else
      let slots := (remainingSlots context store).getD valid.length
      let kept := valid.take slots
      let results := rejectByQuota (valid.drop slots) results
      match insertAll context store kept with
      | none => (store, .error "insert failed")
      | some (next, inserted) =>
        let results := recordIds inserted results
        (indexInserted tools context next inserted results,
          .ok { results := results, inserted := inserted.length, skipped := items.length - inserted.length })

variable {digests tools context}

theorem indexInserted_fragments (store : Store) (inserted : List (ℕ × Fragment × FragmentId))
    (results : List ItemResult) :
    (indexInserted tools context store inserted results).fragments = store.fragments := by
  induction inserted generalizing store with
  | nil => rfl
  | cons item later ih =>
    have hlater := ih (if results.any fun r => r.success && r.id = some item.2.1.id then
      index context.redisReady tools store item.2.1 none context.keyId else store)
    rw [indexInserted, List.foldl_cons]
    refine hlater.trans ?_
    split
    · exact index_fragments
    · rfl

/-- The transaction reports an id for each of its items, in their order. -/
theorem insertAll_items {items : List (ℕ × Fragment)} {store next : Store}
    {inserted : List (ℕ × Fragment × FragmentId)} (h : insertAll context store items = some (next, inserted)) :
    inserted.map (fun item => (item.1, item.2.1)) = items := by
  induction items generalizing store inserted with
  | nil =>
    cases h
    rfl
  | cons item later ih =>
    obtain ⟨position, f⟩ := item
    simp only [insertAll] at h
    split at h
    · cases h
    · obtain ⟨⟨done, rest⟩, hlater, hresult⟩ := Option.map_eq_some_iff.mp h
      have hdone : done = next := (Prod.mk.inj hresult).1
      have hinserted := (Prod.mk.inj hresult).2
      subst hdone
      rw [← hinserted, List.map_cons, ih hlater]

/-- An item that is reported as a success was valid. -/
theorem mem_validFragments_of_success {items : List (Option BatchItem)} {r : ItemResult}
    (hr : r ∈ items.zipIdx.map fun (item, position) =>
      itemResult position (prepareItem digests tools context position item))
    (hsuccess : r.success = true) : ∃ f, (r.index, f) ∈ validFragments digests tools context items := by
  obtain ⟨⟨item, position⟩, hitem, rfl⟩ := List.mem_map.mp hr
  cases hprepared : prepareItem digests tools context position item with
  | error reason =>
    simp only [hprepared, itemResult] at hsuccess
    cases hsuccess
  | ok f =>
    refine ⟨f, List.mem_filterMap.mpr ⟨(item, position), hitem, ?_⟩⟩
    simp only [hprepared, itemResult, Except.toOption, Option.map_some]

/-- After quota and transaction the id of every success is one that the transaction reported. -/
theorem success_reported {results : List ItemResult} {valid : List (ℕ × Fragment)} {slots : ℕ}
    {inserted : List (ℕ × Fragment × FragmentId)}
    (hvalid : ∀ r ∈ results, r.success = true → ∃ f, (r.index, f) ∈ valid)
    (hinserted : inserted.map (fun item => (item.1, item.2.1)) = valid.take slots) :
    ∀ r ∈ recordIds inserted (rejectByQuota (valid.drop slots) results), r.success = true →
      ∀ id, r.id = some id → ∃ item ∈ inserted, item.2.2 = id := by
  intro r hr hsuccess id hid
  obtain ⟨kept, hkept, rfl⟩ := List.mem_map.mp hr
  rcases hfind : inserted.find? fun item => item.1 = kept.index with _ | item
  · simp only [hfind] at hsuccess
    obtain ⟨first, hfirst, rfl⟩ := List.mem_map.mp hkept
    by_cases hrejected : (valid.drop slots).any fun item => item.1 = first.index
    · simp only [hrejected, if_true] at hsuccess
      cases hsuccess
    · simp only [hrejected, Bool.false_eq_true, if_false] at hsuccess hfind
      obtain ⟨f, hf⟩ := hvalid first hfirst hsuccess
      rw [← List.take_append_drop slots valid, List.mem_append] at hf
      rcases hf with htaken | hdropped
      · rw [← hinserted] at htaken
        obtain ⟨item, hitem, hpair⟩ := List.mem_map.mp htaken
        have hposition : item.1 = first.index := (Prod.mk.inj hpair).1
        have hnone := List.find?_eq_none.mp hfind item hitem
        exact absurd (decide_eq_true hposition) hnone
      · exact absurd (List.any_eq_true.mpr ⟨_, hdropped, decide_eq_true rfl⟩) hrejected
  · simp only [hfind, Option.some.injEq] at hid
    exact ⟨item, List.mem_of_find?_eq_some hfind, hid⟩

/-- A batch leaves the store, or upserts some of its valid items and indexes those whose own id was
reported. -/
theorem process_cases (store : Store) (items : List (Option BatchItem)) :
    (process digests tools context store items).1 = store ∨
    ∃ kept next inserted results, (∀ item ∈ kept, item ∈ validFragments digests tools context items) ∧
      insertAll context store kept = some (next, inserted) ∧
      (∀ r ∈ results, r.success = true → ∀ id, r.id = some id → ∃ item ∈ inserted, item.2.2 = id) ∧
      (process digests tools context store items).1 = indexInserted tools context next inserted results := by
  unfold process
  split
  · exact Or.inl rfl
  · simp only
    split
    · exact Or.inl rfl
    · split
      · exact Or.inl rfl
      · split
        · exact Or.inl rfl
        · rename_i next inserted hinsert
          right
          refine ⟨_, next, inserted, _, ?_, hinsert, ?_, rfl⟩
          · intro item hitem
            exact List.mem_of_mem_take hitem
          · exact success_reported (fun r hr => mem_validFragments_of_success hr) (insertAll_items hinsert)

/-- What phase A accepts is a fragment of the factory under the caller. -/
theorem prepareItem_created {position : ℕ} {item : Option BatchItem} {f : Fragment}
    (h : prepareItem digests tools context position item = .ok f) :
    ∃ given created, item = some given ∧
      create digests tools (context.newId position) context.now given.toFragmentParams = .ok created ∧
      f = { created with agentId := context.agentId, keyId := context.keyId, workspace := f.workspace } := by
  cases item with
  | none => cases h
  | some given =>
    simp only [prepareItem] at h
    split at h
    · cases h
    · split at h
      · cases h
      · split at h
        · cases h
        · split at h
          · cases h
          · cases hcreate : create digests tools (context.newId position) context.now given.toFragmentParams with
            | error reason =>
              rw [hcreate] at h
              cases h
            | ok created =>
              rw [hcreate] at h
              cases h
              exact ⟨given, created, rfl, hcreate, rfl⟩

theorem mem_validFragments {items : List (Option BatchItem)} {position : ℕ} {f : Fragment}
    (h : (position, f) ∈ validFragments digests tools context items) :
    ∃ given created, some given ∈ items ∧
      create digests tools (context.newId position) context.now given.toFragmentParams = .ok created ∧
      f = { created with agentId := context.agentId, keyId := context.keyId, workspace := f.workspace } := by
  obtain ⟨⟨item, index⟩, hitem, hprepared⟩ := List.mem_filterMap.mp h
  obtain ⟨prepared, hok, hpair⟩ := Option.map_eq_some_iff.mp hprepared
  obtain ⟨rfl, rfl⟩ := Prod.mk.inj hpair
  cases hresult : prepareItem digests tools context index item with
  | error reason =>
    rw [hresult] at hok
    cases hok
  | ok built =>
    rw [hresult] at hok
    cases hok
    obtain ⟨given, created, rfl, hcreate, hbuilt⟩ := prepareItem_created hresult
    exact ⟨given, created, List.mem_of_getElem? (List.mk_mem_zipIdx_iff_getElem?.mp hitem), hcreate, hbuilt⟩

/-- A valid item carries the key of the call and the hash that the factory gave its content. -/
theorem validFragments_spec {items : List (Option BatchItem)} {position : ℕ} {f : Fragment}
    (h : (position, f) ∈ validFragments digests tools context items) :
    f.keyId = context.keyId ∧ f.contentHash = hashContent digests f.content ∧
      ∃ item, some item ∈ items ∧ f.id = context.newId position ∧ f.linkedTo = item.linkedTo := by
  obtain ⟨given, created, hgiven, hcreate, hbuilt⟩ := mem_validFragments h
  have hhash := create_contentHash hcreate
  have hfields := create_linkedTo hcreate
  rw [hbuilt]
  exact ⟨rfl, hhash, given, hgiven, hfields.2.1, hfields.1⟩

end FragmentMemory.BatchRememberProcessor
