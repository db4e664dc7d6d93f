import FragmentMemory.BatchRememberProcessor
import FragmentMemory.TransitionRuns

/-! # One row per key and content

The single path and the amendment hash a content with all digits of its digest, the batch path with
the first sixteen.  The unique index on key and hash therefore keeps equal contents apart from each
other only within one way of hashing: a content stays in one row as long as no write meets it under
the other hash.
-/
namespace FragmentMemory.ContentUniqueness
open ApiKeyStore FragmentTables FragmentFactory FragmentWriter BatchRememberProcessor UniqueIndexTable
  TransitionRuns

inductive WriteRequest
  | remember (now : Time) (f : Fragment)
  | batchRemember (context : BatchContext) (items : List (Option BatchItem))
  | amend (now : Time) (callerKey : Option KeyId) (id : FragmentId) (updates : FragmentUpdates)

variable (digests : Digests) (tools : TextTools)

/-- The store after one write; a write that throws leaves it. -/
def step (store : Store) : WriteRequest → Store
  | .remember now f => ((insert digests now store f).map Prod.fst).getD store
  | .batchRemember context items => (process digests tools context store items).1
  | .amend now callerKey id updates =>
    (update digests tools.countTokens now store id updates callerKey).1

/-- No two rows of the key hold the same content. -/
def ContentsDistinct (keyId : Option KeyId) (store : Store) : Prop :=
  ∀ f ∈ store.fragments.rows, ∀ g ∈ store.fragments.rows,
    f.keyId = keyId → g.keyId = keyId → f.content = g.content → f = g

/-- Every row of the key that holds the content holds it under the hash. -/
def HeldUnder (keyId : Option KeyId) (content hash : String) (rows : List Fragment) : Prop :=
  ∀ held ∈ rows, held.keyId = keyId → held.content = content → held.contentHash = hash

instance (keyId : Option KeyId) (store : Store) : Decidable (ContentsDistinct keyId store) :=
  inferInstanceAs (Decidable (∀ f ∈ store.fragments.rows, ∀ g ∈ store.fragments.rows, _))

instance (keyId : Option KeyId) (content hash : String) (rows : List Fragment) :
    Decidable (HeldUnder keyId content hash rows) :=
  inferInstanceAs (Decidable (∀ held ∈ rows, _))

/-- What the request writes under the key is not held there under the hash of the other path. -/
def HashesAgree (keyId : Option KeyId) (store : Store) : WriteRequest → Prop
  | .remember _ f => f.keyId = keyId →
      HeldUnder keyId f.content (computeContentHash digests f.content) store.fragments.rows
  | .batchRemember context items => context.keyId = keyId →
      ∀ item ∈ validFragments digests tools context items,
        HeldUnder keyId item.2.content (hashContent digests item.2.content) store.fragments.rows
  | .amend _ callerKey id updates =>
      ∀ existing content, store.fragments.byId id = some existing → existing.keyId = keyId →
        (callerKey.isSome → existing.keyId = callerKey) → updates.content = some content →
        HeldUnder keyId content (computeContentHash digests content)
          (store.fragments.rows.filter fun f => f.id ≠ id)

variable {digests tools}

/-- One upsert keeps the contents distinct when the row's content is held under the row's hash. -/
theorem contentsDistinct_upsertRow {keyId : Option KeyId} {now : Time} {store next : Store}
    {row : Fragment} {id : FragmentId} (hstore : ContentsDistinct keyId store)
    (hheld : row.keyId = keyId → HeldUnder keyId row.content row.contentHash store.fragments.rows)
    (h : upsertRow now store row = some (next, id)) : ContentsDistinct keyId next := by
  have hnew : ∀ f ∈ next.fragments.rows, row ∈ next.fragments.rows → row.keyId = keyId →
      f.keyId = keyId → f.content = row.content → f = row := by
    intro f hf hrow hrowKey hfKey hcontent
    rcases mem_upsertRow h hf with hfrow | ⟨before, hbefore, -, hkey, hsame, hhash⟩
    · exact hfrow
    · have hbeforeKey : before.keyId = keyId := by rw [← hkey, hfKey]
      have hbeforeContent : before.content = row.content := by rw [← hsame, hcontent]
      have hbeforeHash := hheld hrowKey before hbefore hbeforeKey hbeforeContent
      have hfhash : f.contentHash = row.contentHash := by rw [hhash, hbeforeHash]
      exact eq_of_contentHash _ hf hrow (hfKey.trans hrowKey.symm) hfhash
  intro f hf g hg hfKey hgKey hcontent
  rcases mem_upsertRow h hf with rfl | ⟨fbefore, hfbefore, hfid, hfkey, hfcontent, -⟩
  · exact (hnew g hg hf hfKey hgKey hcontent.symm).symm
  · rcases mem_upsertRow h hg with rfl | ⟨gbefore, hgbefore, hgid, hgkey, hgcontent, -⟩
    · exact hnew f hf hg hgKey hfKey hcontent
    · have hbefore : fbefore = gbefore :=
        hstore fbefore hfbefore gbefore hgbefore (by rw [← hfkey, hfKey]) (by rw [← hgkey, hgKey])
          (by rw [← hfcontent, ← hgcontent, hcontent])
      have hid : f.id = g.id := by rw [hfid, hgid, hbefore]
      exact eq_of_id _ hf hg hid

/-- What a row was held under before an upsert it is held under afterwards. -/
theorem heldUnder_upsertRow {keyId : Option KeyId} {now : Time} {store next : Store} {row : Fragment}
    {id : FragmentId} {content hash : String} (hheld : HeldUnder keyId content hash store.fragments.rows)
    (hrow : row.content = content → row.contentHash = hash)
    (h : upsertRow now store row = some (next, id)) : HeldUnder keyId content hash next.fragments.rows := by
  intro f hf hkey hcontent
  rcases mem_upsertRow h hf with rfl | ⟨before, hbefore, -, hbeforeKey, hbeforeContent, hhash⟩
  · exact hrow hcontent
  · have hsame := hheld before hbefore (by rw [← hbeforeKey, hkey]) (by rw [← hbeforeContent, hcontent])
    rw [hhash, hsame]

/-- The transaction of a batch, by induction on its items: the contents of the items still to come
stay held under the factory's hash. -/
theorem contentsDistinct_insertAll {keyId : Option KeyId} {context : BatchContext}
    {items : List (ℕ × Fragment)}
    (hhash : ∀ item ∈ items, item.2.contentHash = hashContent digests item.2.content)
    {store next : Store} {inserted : List (ℕ × Fragment × FragmentId)}
    (hstore : ContentsDistinct keyId store)
    (hheld : ∀ item ∈ items, item.2.keyId = keyId →
      HeldUnder keyId item.2.content (hashContent digests item.2.content) store.fragments.rows)
    (h : insertAll context store items = some (next, inserted)) : ContentsDistinct keyId next := by
  induction items generalizing store inserted with
  | nil =>
    cases h
    exact hstore
  | cons item later ih =>
    obtain ⟨position, f⟩ := item
    simp only [insertAll] at h
    split at h
    · cases h
    · rename_i middle id hupsert
      obtain ⟨⟨done, rest⟩, hlater, hresult⟩ := Option.map_eq_some_iff.mp h
      have hdone : done = next := (Prod.mk.inj hresult).1
      subst hdone
      have hfhash : f.contentHash = hashContent digests f.content := hhash _ List.mem_cons_self
      have hmiddle : ContentsDistinct keyId middle := by
        refine contentsDistinct_upsertRow hstore ?_ hupsert
        intro hkey
        have hf := hheld _ List.mem_cons_self hkey
        rw [← hfhash] at hf
        exact hf
      refine ih (fun x hx => hhash x (List.mem_cons_of_mem _ hx)) hmiddle ?_ hlater
      intro x hx hkey
      refine heldUnder_upsertRow (hheld x (List.mem_cons_of_mem _ hx) hkey) ?_ hupsert
      intro hcontent
      have hfcontent : f.content = x.2.content := hcontent
      have hrowHash : (insertRow context f).contentHash = f.contentHash := rfl
      rw [hrowHash, hfhash, hfcontent]

theorem contentsDistinct_process {keyId : Option KeyId} {context : BatchContext}
    {items : List (Option BatchItem)} {store : Store} (hstore : ContentsDistinct keyId store)
    (hheld : context.keyId = keyId → ∀ item ∈ validFragments digests tools context items,
      HeldUnder keyId item.2.content (hashContent digests item.2.content) store.fragments.rows) :
    ContentsDistinct keyId (process digests tools context store items).1 := by
  rcases process_cases (by exact store) items with
    hsame | ⟨kept, next, inserted, results, hkept, hinsert, -, hprocess⟩
  · rw [hsame]
    exact hstore
  · have hhash : ∀ item ∈ kept, item.2.contentHash = hashContent digests item.2.content :=
      fun item hitem => (validFragments_spec (hkept item hitem)).2.1
    have hnext : ContentsDistinct keyId next := by
      refine contentsDistinct_insertAll hhash hstore ?_ hinsert
      intro item hitem hkey
      have hcaller := (validFragments_spec (hkept item hitem)).1
      exact hheld (hcaller.symm.trans hkey) item (hkept item hitem)
    have hfragments : (process digests tools context store items).1.fragments = next.fragments := by
      rw [hprocess, indexInserted_fragments]
    intro f hf g hg
    rw [hfragments] at hf hg
    exact hnext f hf g hg

theorem contentsDistinct_update {keyId callerKey : Option KeyId} {now : Time} {id : FragmentId}
    {updates : FragmentUpdates} {store : Store} (hstore : ContentsDistinct keyId store)
    (hheld : HashesAgree digests tools keyId store (.amend now callerKey id updates)) :
    ContentsDistinct keyId (update digests tools.countTokens now store id updates callerKey).1 := by
  rcases update_cases tools.countTokens now store id updates callerKey with
    hsame | ⟨existing, fragments, hexisting, hcaller, -, hreplace, hupdate⟩
  · rw [hsame]
    exact hstore
  · rw [hupdate]
    have hexistingRow := (byId_eq_some_iff _).mp hexisting
    have hmem : ∀ f ∈ fragments.rows, f = updates.apply digests tools.countTokens now existing ∨
        f ∈ store.fragments.rows ∧ f.id ≠ id := by
      intro f hf
      rw [Table.rows_replace hreplace] at hf
      obtain ⟨before, hbefore, rfl⟩ := List.mem_map.mp hf
      by_cases hentry : FragmentEntry.primary id ∈ before.entries
      · left
        exact if_pos hentry
      · right
        rw [if_neg hentry]
        exact ⟨hbefore, fun hid => hentry (primary_mem_entries.mpr hid.symm)⟩
    -- an untouched row with the amended row's content is the amended row itself
    have hnew : ∀ f ∈ fragments.rows, f.keyId = keyId → existing.keyId = keyId →
        f.content = (updates.apply digests tools.countTokens now existing).content →
        updates.apply digests tools.countTokens now existing ∈ fragments.rows →
        f = updates.apply digests tools.countTokens now existing := by
      intro f hf hfKey hkey hcontent hrow
      rcases hmem f hf with hsame | ⟨hold, hid⟩
      · exact hsame
      · rcases hupdates : updates.content with _ | content
        · have hcontent' : f.content = existing.content := by
            rw [hcontent]
            simp only [FragmentUpdates.apply, hupdates, Option.getD_none]
          have hsame := hstore f hold existing hexistingRow.1 hfKey hkey hcontent'
          exact absurd (hsame ▸ hexistingRow.2) hid
        · have hcontent' : f.content = content := by
            rw [hcontent]
            simp only [FragmentUpdates.apply, hupdates, Option.getD_some]
          have hother : f ∈ store.fragments.rows.filter fun g => g.id ≠ id :=
            List.mem_filter.mpr ⟨hold, decide_eq_true hid⟩
          have hfhash := hheld existing content hexisting hkey hcaller hupdates f hother hfKey hcontent'
          have hrowHash : (updates.apply digests tools.countTokens now existing).contentHash =
              computeContentHash digests content := by
            simp only [FragmentUpdates.apply, hupdates, Option.map_some, Option.getD_some]
          exact eq_of_contentHash _ hf hrow (hfKey.trans hkey.symm) (hfhash.trans hrowHash.symm)
    intro f hf g hg hfKey hgKey hcontent
    rcases hmem f hf with rfl | ⟨hfold, -⟩
    · exact (hnew g hg hgKey hfKey hcontent.symm hf).symm
    · rcases hmem g hg with rfl | ⟨hgold, -⟩
      · exact hnew f hf hfKey hgKey hcontent hg
      · exact hstore f hfold g hgold hfKey hgKey hcontent

theorem contentsDistinct_step {keyId : Option KeyId} (store : Store) (request : WriteRequest)
    (hstore : ContentsDistinct keyId store) (hagree : HashesAgree digests tools keyId store request) :
    ContentsDistinct keyId (step digests tools store request) := by
  cases request with
  | remember now f =>
    simp only [step]
    rcases hinsert : insert digests now store f with _ | ⟨next, id⟩
    · exact hstore
    · exact contentsDistinct_upsertRow hstore (by exact hagree) hinsert
  | batchRemember context items => exact contentsDistinct_process hstore hagree
  | amend now callerKey id updates => exact contentsDistinct_update hstore hagree

/-- In a run in which no write meets its content under the other path's hash, a key never holds one
content in two rows. -/
theorem equal_contents_share_row {keyId : Option KeyId} {start : Store} {requests : List WriteRequest}
    (hstart : ContentsDistinct keyId start)
    (hagree : StepsMeet (step digests tools) (HashesAgree digests tools keyId) start requests) :
    ContentsDistinct keyId (run (step digests tools) start requests) :=
  invariant_run_of_meets contentsDistinct_step hstart hagree

/-- A tenant's key. -/
def sampleKey : KeyId := ⟨"7d3b1c9e-5a20-4f6e-9b1d-02c8a4e6f713", by decide⟩

def sampleContent : String := "deploy needs the vpn tunnel"

/-- SHA-256 on the sample content. -/
def sampleDigests : Digests where
  hex text := if text = sampleContent then
    "77dcdc41cdc3789120882cbf0383cede824aa0a0220f3d57b8b36bd33415aa8f" else ""
  base64Url _ := ""

def sampleTools : TextTools where
  redactPII := id
  extractKeywords _ _ := ["deploy", "needs", "vpn", "tunnel"]
  countTokens _ := 5
  toLowerCase := id

def sampleFragment : Fragment where
  id := "frag-01"
  content := sampleContent
  topic := "deploy"
  keywords := ["vpn"]
  type := .fact
  importance := 5 / 10
  contentHash := ""
  keyId := some sampleKey
  createdAt := 1

def sampleBatch : BatchContext where
  keyId := some sampleKey
  newId _ := "frag-02"
  now := 2
  redisReady := false

def sampleItem : BatchItem where
  content := some sampleContent
  type := some .fact
  topic := some "deploy"
  keywords := ["vpn"]

/-- A content remembered twice by the same path meets the condition and stays in one row. -/
theorem equal_contents_share_row_repeated :
    ContentsDistinct (some sampleKey) (run (step sampleDigests sampleTools) {}
      [.remember 1 sampleFragment, .remember 2 { sampleFragment with id := "frag-03" }]) :=
  equal_contents_share_row (by decide)
    ⟨fun _ => by decide, fun _ => by decide +kernel, trivial⟩

/-- A content remembered once by itself and once in a batch fills two rows of the key. -/
theorem equal_contents_fill_two_rows :
    ¬ ContentsDistinct (some sampleKey) (run (step sampleDigests sampleTools) {}
      [.remember 1 sampleFragment, .batchRemember sampleBatch [some sampleItem]]) := by
  decide +kernel

end FragmentMemory.ContentUniqueness
