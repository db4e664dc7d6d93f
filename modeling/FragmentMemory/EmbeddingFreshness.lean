import FragmentMemory.EmbeddingWorker
import FragmentMemory.ContentUniqueness

/-! # Embeddings describe the current content

However amendments, searches and runs of the worker interleave, a stored vector is that of the content of its
row: a vector is written only over the content it was made from, and an amendment takes the vector away
together with the content.
-/
namespace FragmentMemory.EmbeddingFreshness
open ApiKeyStore FragmentTables FragmentFactory FragmentWriter FragmentReader EmbeddingWorker TransitionRuns InterleavedRuns
  UniqueIndexTable

variable {Vec : Type} (service : EmbeddingService Vec) (config : Config)

/-- The embedding of a content as the worker prepares it. -/
def contentEmbedding (content : String) : Vec := service.embedding (config.cacheKeyText content)

/-- Every stored vector is the embedding of the content that its row has. -/
def Current (db : Database Vec) : Prop :=
  ∀ f ∈ db.store.fragments.rows, ∀ vec, db.embedding f.id = some vec → vec = contentEmbedding service config f.content

/-- Besides, the cache holds the embeddings of its texts. -/
structure Consistent (db : Database Vec) : Prop where
  current : Current service config db
  cache : ∀ entry ∈ db.cache, entry.2 = service.embedding entry.1

/-- A run that is about to write holds the embeddings of the contents it has read. -/
def Answered : Process Vec → Prop
  | .worker _ (.writing task vecs _) => vecs = task.rows.map fun row => contentEmbedding service config row.content
  | .worker _ _ | .amending _ _ _ | .searching _ | .finished => True

/-- Every event of a step comes from the run that takes it, and names a row without a vector into which the step
writes the embedding of its content. -/
def EventsNameStored (pool : Processes Vec) (event : ℕ × Circumstances) : Prop :=
  let after := (embeddingStep service config pool event).shared
  ∃ emitted, after.events = pool.shared.events ++ emitted ∧ ∀ ready ∈ emitted,
    (∃ stage, pool.threads[event.1]? = some (.worker ready.1 stage)) ∧ pool.shared.embedding ready.2 = none ∧
      ∃ f ∈ after.store.fragments.rows, f.id = ready.2 ∧
        after.embedding ready.2 = some (contentEmbedding service config f.content)

variable {service config}

/-- What is cached is the embedding of the text. -/
theorem cached_eq {db : Database Vec} (h : Consistent service config db) {circumstances : Circumstances} {text : String}
    {vec : Vec} (hcached : cached circumstances db text = some vec) : vec = service.embedding text := by
  simp only [cached] at hcached
  split at hcached
  · obtain ⟨entry, hfound, rfl⟩ := Option.map_eq_some_iff.mp hcached
    have htext := List.find?_some (by exact hfound)
    rw [h.cache entry (List.mem_of_find?_eq_some hfound), of_decide_eq_true htext]
  · cases hcached

theorem mapM_eq_map {α β : Type} {f : α → Option β} {g : α → β} (h : ∀ a b, f a = some b → b = g a) {items : List α}
    {results : List β} (hresults : items.mapM f = some results) : results = items.map g := by
  induction items generalizing results with
  | nil => exact (Option.some.inj hresults).symm
  | cons a later ih =>
    rw [List.mapM_cons] at hresults
    obtain ⟨b, hb, hrest⟩ := Option.bind_eq_some_iff.mp hresults
    obtain ⟨rest, hlater, hsame⟩ := Option.bind_eq_some_iff.mp hrest
    rw [← Option.some.inj hsame, ih hlater, h a b hb, List.map_cons]

/-- The vectors that the service gives for a task are those of its contents. -/
theorem serviceVectors_eq {task : Task} {vecs : List Vec} (h : serviceVectors service config task = some vecs) :
    vecs = task.rows.map fun row => contentEmbedding service config row.content := by
  cases task with
  | chunk rows =>
    rw [serviceVectors, generateBatchEmbeddings_eq, List.map_map] at h
    exact (Option.some.inj h).symm
  | one row attempt =>
    rw [serviceVectors, generateEmbedding_eq] at h
    exact (Option.some.inj h).symm

section Persist
variable {db : Database Vec} {entries : List (WorkRow × Vec)}

/-- A vector that an update writes goes to a row without one, and is the embedding of its content. -/
theorem of_mem_persisted (hentries : ∀ entry ∈ entries, entry.2 = contentEmbedding service config entry.1.content)
    {id : FragmentId} {vec : Vec} (h : (id, vec) ∈ persisted db entries) :
    ∃ f ∈ db.store.fragments.rows, f.id = id ∧ db.embedding id = none ∧
    vec = contentEmbedding service config f.content := by
  obtain ⟨f, hf, hwritten⟩ := List.mem_filterMap.mp h
  split at hwritten
  · rename_i hnull
    obtain ⟨entry, hfound, hentry⟩ := Option.map_eq_some_iff.mp hwritten
    obtain ⟨rfl, rfl⟩ := Prod.mk.inj hentry
    have hcond := List.find?_some (by exact hfound)
    simp only [Bool.and_eq_true, decide_eq_true_eq] at hcond
    refine ⟨f, hf, rfl, Option.isNone_iff_eq_none.mp hnull, ?_⟩
    rw [hentries entry (List.mem_of_find?_eq_some hfound), hcond.2]
  · cases hwritten

/-- The vector of a row after an update of vectors. -/
theorem persist_embedding (hentries : ∀ entry ∈ entries, entry.2 = contentEmbedding service config entry.1.content)
    {run : ℕ} {id : FragmentId} {vec : Vec} (h : (persist db run entries).embedding id = some vec) :
    db.embedding id = some vec ∨
      ∃ f ∈ db.store.fragments.rows, f.id = id ∧ vec = contentEmbedding service config f.content := by
  rcases Option.or_eq_some_iff.mp h with hwritten | ⟨-, hold⟩
  · right
    obtain ⟨entry, hfound, rfl⟩ := Option.map_eq_some_iff.mp hwritten
    have hid := List.find?_some (by exact hfound)
    obtain ⟨f, hf, hsame, -, hvec⟩ := of_mem_persisted hentries (List.mem_of_find?_eq_some hfound)
    exact ⟨f, hf, hsame.trans (of_decide_eq_true hid), hvec⟩
  · exact Or.inl hold

theorem current_persist (h : Current service config db)
    (hentries : ∀ entry ∈ entries, entry.2 = contentEmbedding service config entry.1.content) (run : ℕ) :
    Current service config (persist db run entries) := by
  intro f hf vec hvec
  rcases persist_embedding hentries hvec with hold | ⟨g, hg, hid, hnew⟩
  · exact h f hf vec hold
  · rw [hnew, eq_of_id db.store.fragments hg hf hid]

/-- The events of an update of vectors. -/
theorem events_persist (hentries : ∀ entry ∈ entries, entry.2 = contentEmbedding service config entry.1.content)
    {run : ℕ}
    {ready : ℕ × FragmentId} (h : ready ∈ (persisted db entries).map fun entry => (run, entry.1)) :
    ready.1 = run ∧ db.embedding ready.2 = none ∧ ∃ f ∈ db.store.fragments.rows, f.id = ready.2 ∧
      (persist db run entries).embedding ready.2 = some (contentEmbedding service config f.content) := by
  obtain ⟨entry, hentry, rfl⟩ := List.mem_map.mp h
  obtain ⟨f, hf, hid, hnull, -⟩ := of_mem_persisted hentries hentry
  refine ⟨rfl, hnull, f, hf, hid, ?_⟩
  rcases hfound : (persisted db entries).find? (fun other => other.1 = entry.1) with _ | other
  · exact absurd (decide_eq_true rfl) (List.find?_eq_none.mp hfound entry hentry)
  · have hsame := List.find?_some (by exact hfound)
    obtain ⟨g, hg, hgid, -, hvec⟩ := of_mem_persisted hentries (List.mem_of_find?_eq_some hfound)
    have hrow : g = f := eq_of_id db.store.fragments hg hf (hgid.trans ((of_decide_eq_true hsame).trans hid.symm))
    rw [hrow] at hvec
    simp only [persist, hfound, Option.map_some, Option.some_or, hvec]

end Persist

/-- An amendment that changes a content takes its vector away. -/
theorem current_amendRow {db : Database Vec} (h : Current service config db) (circumstances : Circumstances)
    (id : FragmentId)
    (updates : FragmentUpdates) (keyId : Option KeyId) :
    Current service config (amendRow config circumstances db id updates keyId) := by
  have hkept : ∀ (next : Store), (∀ f ∈ next.fragments.rows, (f.id = id ∧ updates.content.isSome = true) ∨
      ∃ before ∈ db.store.fragments.rows, before.id = f.id ∧ before.content = f.content) →
      Current service config { db with
        store := next
        embedding := fun other => if other = id && updates.content.isSome then none else db.embedding other } := by
    intro next hrows f hf vec hvec
    by_cases hcleared : (decide (f.id = id) && updates.content.isSome) = true
    · simp only [hcleared, if_true] at hvec
      cases hvec
    · simp only [hcleared] at hvec
      rcases hrows f hf with ⟨hid, hcontent⟩ | ⟨before, hbefore, hid, hcontent⟩
      · exact absurd (by simp only [hid, hcontent, decide_true, Bool.and_self]) hcleared
      · rw [← hcontent]
        exact h before hbefore vec (by rw [hid]; exact hvec)
  simp only [amendRow]
  split
  · rename_i next row hresult
    rcases @update_cases config.digests config.countTokens circumstances.now db.store id updates keyId with
      hsame | ⟨existing, fragments, hexisting, -, -, hreplace, hupdated⟩
    · rw [hresult] at hsame
      exact hkept next fun f hf => Or.inr ⟨f, hsame ▸ hf, rfl, rfl⟩
    · rw [hresult] at hupdated
      obtain ⟨rfl, -⟩ := Prod.mk.inj hupdated
      obtain ⟨hrow, hid⟩ := (byId_eq_some_iff _).mp hexisting
      refine hkept _ fun f hf => ?_
      rw [Table.rows_replace hreplace] at hf
      obtain ⟨before, hbefore, rfl⟩ := List.mem_map.mp hf
      by_cases hchanged : FragmentEntry.primary id ∈ before.entries
      · rw [if_pos hchanged]
        rcases hcontent : updates.content with _ | content
        · refine Or.inr ⟨existing, hrow, rfl, ?_⟩
          simp only [FragmentUpdates.apply, hcontent, Option.getD_none]
        · exact Or.inl ⟨hid, rfl⟩
      · rw [if_neg hchanged]
        exact Or.inr ⟨before, hbefore, rfl, rfl⟩
  · exact h

/-- Pairs of the rows of a task with their vectors. -/
theorem entries_of_answered {rows : List WorkRow} {vecs : List Vec}
    (h : vecs = rows.map fun row => contentEmbedding service config row.content) :
    ∀ entry ∈ rows.zip vecs, entry.2 = contentEmbedding service config entry.1.content := by
  intro entry hentry
  rw [h, ← List.map_prod_left_eq_zip] at hentry
  obtain ⟨row, -, rfl⟩ := List.mem_map.mp hentry
  rfl

theorem advance_worker {circumstances : Circumstances} {db : Database Vec} {run : ℕ} {stage : Stage Vec}
    (h : Consistent service config db) (hanswered : Answered service config (.worker run stage)) :
    Consistent service config (workerStep service config circumstances db run stage).1 ∧
      Answered service config (workerStep service config circumstances db run stage).2 := by
  cases stage with
  | selecting source =>
    simp only [workerStep]
    split
    · exact ⟨h, trivial⟩
    · exact ⟨h, trivial⟩
  | working tasks =>
    cases tasks with
    | nil => exact ⟨h, trivial⟩
    | cons task later =>
      simp only [workerStep]
      split
      · rename_i vecs hvecs
        exact ⟨h, mapM_eq_map (fun _ _ hcached => cached_eq h hcached) hvecs⟩
      · exact ⟨h, trivial⟩
  | calling task later =>
    simp only [workerStep]
    split
    · rename_i vecs _ hvecs
      have hanswer := serviceVectors_eq hvecs
      refine ⟨⟨h.current, fun entry hentry => ?_⟩, hanswer⟩
      rcases List.mem_append.mp hentry with hnew | hold
      · rw [hanswer, List.zip_map', List.mem_map] at hnew
        obtain ⟨row, -, rfl⟩ := hnew
        rfl
      · exact h.cache entry hold
    · exact ⟨h, trivial⟩
    · exact ⟨h, trivial⟩
  | writing task vecs later =>
    simp only [workerStep]
    split
    · cases task with
      | chunk rows => exact ⟨h, trivial⟩
      | one row attempt => exact ⟨h, trivial⟩
    · have hentries : ∀ entry ∈ task.rows.zip vecs, entry.2 = contentEmbedding service config entry.1.content :=
        entries_of_answered hanswered
      exact ⟨⟨current_persist h.current hentries run, h.cache⟩, trivial⟩

theorem advance_own (circumstances : Circumstances) (db : Database Vec) (process : Process Vec)
    (h : Consistent service config db) (hanswered : Answered service config process) :
    Consistent service config (advance service config circumstances db process).1 ∧
      Answered service config (advance service config circumstances db process).2 := by
  cases process with
  | amending id updates keyId =>
    simp only [advance]
    split
    · exact ⟨h, trivial⟩
    · refine ⟨⟨current_amendRow h.current circumstances id updates keyId, ?_⟩, trivial⟩
      simp only [amendRow]
      split
      · exact h.cache
      · exact h.cache
  | searching text =>
    simp only [advance, generateEmbedding_eq]
    refine ⟨⟨h.current, fun entry hentry => ?_⟩, trivial⟩
    rcases List.mem_cons.mp hentry with rfl | hold
    · rfl
    · exact h.cache entry hold
  | worker run stage => exact advance_worker h hanswered
  | finished => exact ⟨h, trivial⟩

/-- Only the write of a run emits events. -/
theorem events_advance {circumstances : Circumstances} {db : Database Vec} {process : Process Vec}
    (hanswered : Answered service config process) :
    ∃ emitted, (advance service config circumstances db process).1.events = db.events ++ emitted ∧ ∀ ready ∈ emitted,
      (∃ stage, process = .worker ready.1 stage) ∧ db.embedding ready.2 = none ∧
        ∃ f ∈ (advance service config circumstances db process).1.store.fragments.rows, f.id = ready.2 ∧
          (advance service config circumstances db process).1.embedding ready.2 =
            some (contentEmbedding service config f.content) := by
  have hsilent : ∀ after : Database Vec, after.events = db.events → ∃ emitted, after.events = db.events ++ emitted ∧
      ∀ ready ∈ emitted, (∃ stage, process = .worker ready.1 stage) ∧ db.embedding ready.2 = none ∧
        ∃ f ∈ after.store.fragments.rows, f.id = ready.2 ∧
          after.embedding ready.2 = some (contentEmbedding service config f.content) := by
    intro after hevents
    refine ⟨[], by rw [hevents, List.append_nil], fun ready hready => ?_⟩
    cases hready
  cases process with
  | amending id updates keyId =>
    refine hsilent _ ?_
    simp only [advance, amendRow]
    split
    · rfl
    · split <;> rfl
  | searching text => exact hsilent _ (by simp only [advance, generateEmbedding_eq])
  | finished => exact hsilent _ rfl
  | worker run stage =>
    cases stage with
    | selecting source =>
      refine hsilent _ ?_
      simp only [advance, workerStep]
      split <;> rfl
    | working tasks =>
      refine hsilent _ ?_
      cases tasks with
      | nil => rfl
      | cons task later =>
        simp only [advance, workerStep]
        split <;> rfl
    | calling task later =>
      refine hsilent _ ?_
      simp only [advance, workerStep]
      split <;> rfl
    | writing task vecs later =>
      by_cases hfails : circumstances.fails = true
      · refine hsilent _ ?_
        simp only [advance, workerStep, if_pos hfails]
        cases task <;> rfl
      · have hentries : ∀ entry ∈ task.rows.zip vecs, entry.2 = contentEmbedding service config entry.1.content :=
          entries_of_answered hanswered
        simp only [advance, workerStep, if_neg hfails]
        refine ⟨(persisted db (task.rows.zip vecs)).map fun entry => (run, entry.1), rfl, fun ready hready => ?_⟩
        obtain ⟨hrun, hnull, hstored⟩ := events_persist hentries hready
        exact ⟨⟨_, by rw [hrun]⟩, hnull, hstored⟩

theorem holds_step (pool : Processes Vec) (event : ℕ × Circumstances)
    (h : pool.Holds (Consistent service config) fun _ => Answered service config) :
    (embeddingStep service config pool event).Holds (Consistent service config) fun _ => Answered service config :=
  @Pool.holds_step _ _ _ (advance service config) (Consistent service config) (fun _ => Answered service config)
    (fun _ _ _ => True) (fun circumstances db process hdb hprocess _ => advance_own circumstances db process hdb hprocess)
    (fun _ _ _ _ _ _ _ hother => hother) pool event h fun _ _ => trivial

theorem holds_starting {db : Database Vec} (h : Consistent service config db) (starts : List Start) :
    (starting db starts).Holds (Consistent service config) fun _ => Answered service config where
  shared := h
  threads process hprocess := by
    obtain ⟨i, hi, rfl⟩ := List.mem_mapIdx.mp hprocess
    split <;> trivial

/-- In every interleaving of amendments, searches and runs of the worker, a stored vector is the embedding of the
content that its row has, and every event names a row into which its run has just written it. -/
theorem embeddings_current (service : EmbeddingService Vec) (config : Config) (db : Database Vec)
    (hstart : Consistent service config db) (starts : List Start) (schedule : List (ℕ × Circumstances)) :
    Current service config (run (embeddingStep service config) (starting db starts) schedule).shared ∧
      StepsMeet (embeddingStep service config) (EventsNameStored service config) (starting db starts) schedule := by
  have hholds := invariant_run (I := fun pool : Processes Vec => pool.Holds (Consistent service config) fun _ => Answered service config)
    holds_step (holds_starting hstart starts) schedule
  have hany : StepsMeet (embeddingStep service config) (fun _ _ => True) (starting db starts) schedule :=
    stepsMeet_of_forall (fun _ _ => trivial) _ _
  refine ⟨hholds.shared.current, ?_⟩
  refine stepsMeet_of_invariant (I := fun pool : Processes Vec => pool.Holds (Consistent service config) fun _ => Answered service config)
    (fun pool event h _ => ⟨holds_step pool event h, ?_⟩) (holds_starting hstart starts) hany
  rcases Pool.step_cases (advance service config) pool event with ⟨-, hsame⟩ | ⟨process, hprocess, hmem, hshared, -⟩
  · refine ⟨[], ?_, fun ready hready => by cases hready⟩
    rw [embeddingStep, hsame, List.append_nil]
  · rw [EventsNameStored, embeddingStep, hshared]
    obtain ⟨emitted, hevents, hready⟩ :=
      @events_advance _ service config event.2 pool.shared process (h.threads process hmem)
    refine ⟨emitted, hevents, fun ready hmemReady => ?_⟩
    obtain ⟨⟨stage, rfl⟩, hnull, hstored⟩ := hready ready hmemReady
    exact ⟨⟨stage, hprocess⟩, hnull, hstored⟩

section Sample
open ContentUniqueness (sampleFragment sampleDigests)

/-- A remote service whose vectors are the texts, answering in the reverse order. -/
def sampleService : EmbeddingService String where
  inProcess := false
  model := id
  normalizeL2 := id
  respond batch := ((batch.map id).mapIdx Prod.mk).reverse
  indexed _ := List.reverse_perm _

def sampleConfig : Config where
  digests := sampleDigests
  countTokens := String.length
  cacheKeyText := id

/-- A row without a vector. -/
def sampleDatabase : Database String where
  store := { fragments := (Table.empty.insert sampleFragment).getD Table.empty }

def replacement : String := "deploy runs without the vpn tunnel now"

/-- An amendment with a run on either side of it, and a search for the new content. -/
def sampleStarts : List Start :=
  [.run (.queued ["frag-01"]), .amend "frag-01" { content := some replacement } none, .search replacement,
    .run (.orphans 10)]

/-- The first run reads before the amendment and writes after it; the second one finds its vector in the cache. -/
def overtakenRun : List (ℕ × Circumstances) :=
  [(0, {}), (0, {}), (0, {}), (1, {}), (0, {}), (2, {}), (3, {}), (3, {}), (3, {})]

theorem embeddings_current_overtaken :
    Current sampleService sampleConfig
        (run (embeddingStep sampleService sampleConfig) (starting sampleDatabase sampleStarts) overtakenRun).shared ∧
      StepsMeet (embeddingStep sampleService sampleConfig) (EventsNameStored sampleService sampleConfig)
        (starting sampleDatabase sampleStarts) overtakenRun :=
  embeddings_current sampleService sampleConfig sampleDatabase ⟨fun _ _ _ hnone => (by cases hnone), fun _ hempty => (by cases hempty)⟩
    sampleStarts overtakenRun

end Sample

end FragmentMemory.EmbeddingFreshness
