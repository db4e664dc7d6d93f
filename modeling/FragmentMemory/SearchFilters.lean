import FragmentMemory.TenantReadIsolation

/-! # The filters of a search

Each layer puts conditions of its own on the rows, and no layer but the keyword search puts all of
those that a query can ask for.  A search keeps its filters when no row that fails one of them reaches a
layer that runs.
-/
namespace FragmentMemory.SearchFilters
open ApiKeyStore FragmentTables RecallQueries FragmentSearch RankFusion SearchProvenance RecallScope
  TenantReadIsolation ContentUniqueness UniqueIndexTable

/-- A row satisfies every filter of a query. -/
def Satisfies (q : SearchQuery) (f : Fragment) : Bool :=
  q.type.all (f.type = ·) && q.topic.all (f.topic = ·) && q.affectCond f && q.timeRange.all (·.covers f.createdAt) &&
    q.minImportance.all (· ≤ f.importance) && q.isAnchor.all (f.isAnchor = ·) &&
    workspaceCond (JsString.truthy q.workspace) f && q.narrativeCond f

/-- Every row of a search satisfies the filters of its query. -/
def FiltersHold (model : SearchModel) (context : SearchContext) (store : Store) (q : SearchQuery) : Prop :=
  ∀ hit ∈ (search model context store q).found, ∀ f ∈ store.fragments.rows, f.id = hit.id → Satisfies q f = true

/-- The layers by the conditions that they put on a row; the rows of the hot cache are read by id. -/
inductive SearchLayer | keywords | topic | byId | semantic | temporal | graph deriving DecidableEq

/-- The text that a search with fusion is made for. -/
def fusionText (model : SearchModel) (q : SearchQuery) : Option String :=
  if model.embeddingEnabled then JsString.truthy q.text else none

/-- The similarities that the semantic layer looks at. -/
def semanticProbes (model : SearchModel) (context : SearchContext) (q : SearchQuery) : List (Fragment → Option ℚ) :=
  let expand := fun text => if model.assistantQuery text then "Assistant: " ++ text else text
  match fusionText model q with
  | some text => [model.similarity (expand text), model.morphemeSimilarity text]
  | none =>
    if model.keywordFallback && model.embeddingEnabled && !q.keywords.isEmpty && !context.supplementTimedOut then
      [model.similarity (expand (supplementText model q))]
    else []

/-- The layer runs, and can find the row. -/
def finds (model : SearchModel) (context : SearchContext) (store : Store) (q : SearchQuery) (f : Fragment) :
    SearchLayer → Bool
  | .keywords => true
  | .topic => q.topic.isSome
  | .byId => context.redisReady && store.index.any fun member => member.2 = f.id
  | .semantic => (semanticProbes model context q).any fun probe => (probe f).any (context.minSimilarity ≤ ·)
  | .temporal => q.timeRange.isSome
  | .graph => (fusionText model q).isSome && store.links.rows.any fun l => l.touches f.id && l.deletedAt.isNone

/-- What the queries of the layer ask of a row. -/
def admits (q : SearchQuery) (f : Fragment) : SearchLayer → Bool
  | .keywords => q.metadataCond f && q.topic.all (f.topic = ·) && q.isAnchor.all (f.isAnchor = ·)
  | .topic => q.metadataCond f && q.topic.all (f.topic = ·)
  | .byId => q.agentCond f && (q.includeSuperseded || f.live) && keyCond q.keyIds f && q.applyScope f
  | .semantic => q.rowCond f && q.applyScope f
  | .temporal => q.rowCond f && q.narrativeCond f
  | .graph => f.live && keyCond q.keyIds f && q.agentCond f && workspaceCond q.workspace f &&
      q.applyScope (neighborColumns f) && q.affect.isNone

/-- The importance that a row is shown with at most. -/
def shownImportance (model : SearchModel) (q : SearchQuery) (f : Fragment) : ℚ :=
  if (fusionText model q).any model.assistantQuery && model.assistantContent f.content then
    max f.importance (min 1 (f.importance + 2 / 100))
  else f.importance

/-- The importance cutoff of a search with fusion; it spares anchors. -/
def passesCutoff (model : SearchModel) (q : SearchQuery) (f : Fragment) : Bool :=
  (fusionText model q).isNone || f.isAnchor || q.minImportance.getD (1 / 10) ≤ shownImportance model q f

/-- A row that a layer hands over. -/
def reaches (model : SearchModel) (context : SearchContext) (store : Store) (q : SearchQuery) (layer : SearchLayer)
    (f : Fragment) : Bool :=
  finds model context store q f layer && admits q f layer && passesCutoff model q f

variable {store : Store} {q : SearchQuery} {model : SearchModel} {context : SearchContext}

/-- How a layer shows a stored row: some columns are missing, or its importance is raised. -/
structure Shows (model : SearchModel) (q : SearchQuery) (f row : Fragment) : Prop where
  id : row.id = f.id
  content : row.content = f.content
  validTo : row.validTo = f.validTo
  isAnchor : row.isAnchor = f.isAnchor
  importance : (fusionText model q).isSome = true → row.importance ≤ shownImportance model q f

theorem le_shownImportance (f : Fragment) : f.importance ≤ shownImportance model q f := by
  simp only [shownImportance]
  split
  · exact le_max_left _ _
  · exact le_refl _

theorem Shows.refl (f : Fragment) : Shows model q f f := ⟨rfl, rfl, rfl, rfl, fun _ => le_shownImportance f⟩

theorem Shows.neighborColumns (f : Fragment) : Shows model q f (neighborColumns f) :=
  ⟨rfl, rfl, rfl, rfl, fun _ => le_shownImportance f⟩

/-- A row of the store that a layer finds and admits, as it is shown. -/
def FoundBy (model : SearchModel) (context : SearchContext) (store : Store) (q : SearchQuery) (row : Fragment) : Prop :=
  ∃ layer, ∃ f ∈ store.fragments.rows, finds model context store q f layer = true ∧ admits q f layer = true ∧
    Shows model q f row

theorem foundBy_searchByKeywords {keywords : List String} :
    ∀ f ∈ searchByKeywords store q keywords, FoundBy model context store q f := by
  intro f hf
  obtain ⟨hrow, hcond⟩ := List.mem_filter.mp ((List.mem_insertionSort _).mp (List.mem_of_mem_take hf))
  simp only [Bool.and_eq_true] at hcond
  refine ⟨.keywords, f, hrow, rfl, ?_, Shows.refl f⟩
  simp only [admits, Bool.and_eq_true]
  exact ⟨⟨hcond.1.1.1, hcond.1.2⟩, hcond.2⟩

theorem foundBy_searchTopicRows {topic : String} (htopic : q.topic = some topic) :
    ∀ f ∈ searchTopicRows store q topic, FoundBy model context store q f := by
  intro f hf
  obtain ⟨hrow, hcond⟩ := List.mem_filter.mp ((List.mem_insertionSort _).mp (List.mem_of_mem_take hf))
  simp only [Bool.and_eq_true] at hcond
  refine ⟨.topic, f, hrow, by rw [finds, htopic]; rfl, ?_, Shows.refl f⟩
  simp only [admits, htopic, Option.all_some, Bool.and_eq_true]
  exact ⟨hcond.1, by simpa using hcond.2⟩

theorem foundBy_searchMetadata : ∀ f ∈ searchMetadata model store q, FoundBy model context store q f := by
  have hkeywords : ∀ keywords : List String,
      ∀ f ∈ (if keywords.isEmpty then [] else searchByKeywords store q keywords), FoundBy model context store q f :=
    fun keywords => forall_mem_ite (fun _ hf => absurd hf List.not_mem_nil) foundBy_searchByKeywords
  have htopic : ∀ f ∈ q.topic.elim [] (searchTopicRows store q), FoundBy model context store q f := by
    cases htopic : q.topic with
    | none => exact fun _ hf => absurd hf List.not_mem_nil
    | some topic => exact foundBy_searchTopicRows htopic
  exact forall_mem_ite htopic (hkeywords _)

/-- The rows read by the ids of the index, once the scope of the query has passed them. -/
theorem foundBy_byId {ids : List FragmentId} (hready : ids ≠ [] → context.redisReady = true)
    (hids : ∀ id ∈ ids, store.index.any (fun member => decide (member.2 = id)) = true) {f : Fragment}
    (hf : f ∈ getScopedByIds store q ids) (hscope : q.applyScope f = true) : FoundBy model context store q f := by
  obtain ⟨hrow, hcond⟩ := List.mem_filter.mp ((List.mem_insertionSort _).mp hf)
  simp only [Bool.and_eq_true] at hcond
  have hid : f.id ∈ ids := by simpa using hcond.1.1.1
  refine ⟨.byId, f, hrow, ?_, ?_, Shows.refl f⟩
  · simp only [finds, Bool.and_eq_true]
    exact ⟨hready (List.ne_nil_of_mem hid), hids f.id hid⟩
  · simp only [admits, Bool.and_eq_true]
    exact ⟨⟨⟨hcond.1.1.2, hcond.1.2⟩, hcond.2⟩, hscope⟩

theorem mem_index_of_members {key : IndexSet} {id : FragmentId} (h : id ∈ members store key) :
    store.index.any (fun member => decide (member.2 = id)) = true := by
  obtain ⟨member, hmember, rfl⟩ := List.mem_map.mp h
  exact List.any_eq_true.mpr ⟨member, (List.mem_filter.mp hmember).1, decide_eq_true rfl⟩

theorem mem_index_of_keywordMembers {tools : FragmentFactory.TextTools} {keywords : List String}
    {namespace_ : Option KeyId} {id : FragmentId} (h : id ∈ keywordMembers tools store keywords namespace_) :
    store.index.any (fun member => decide (member.2 = id)) = true := by
  have hset : ∀ set ∈ keywords.map fun word => members store (.keyword namespace_ (tools.toLowerCase word)),
      id ∈ set → store.index.any (fun member => decide (member.2 = id)) = true := by
    intro set hset hid
    obtain ⟨word, -, rfl⟩ := List.mem_map.mp hset
    exact mem_index_of_members hid
  simp only [keywordMembers] at h
  split at h
  · obtain ⟨set, hmem, hid⟩ := List.mem_flatten.mp (List.mem_eraseDups.mp h)
    exact hset set hmem hid
  · have hfirst := (List.mem_filter.mp h).1
    cases hsets : keywords.map fun word => members store (.keyword namespace_ (tools.toLowerCase word)) with
    | nil =>
      rw [hsets] at hfirst
      exact absurd hfirst List.not_mem_nil
    | cons set later =>
      rw [hsets] at hfirst hset
      exact hset set List.mem_cons_self hfirst

theorem mem_index_of_union {keyIds : Option (List KeyId)} {fetch : Option KeyId → List FragmentId} {id : FragmentId}
    (hfetch : ∀ space, id ∈ fetch space → store.index.any (fun member => decide (member.2 = id)) = true)
    (h : id ∈ unionFromNamespaces keyIds fetch) : store.index.any (fun member => decide (member.2 = id)) = true := by
  obtain ⟨space, -, hid⟩ := List.mem_flatMap.mp (List.mem_eraseDups.mp h)
  exact hfetch space hid

/-- The ids of the first layer are members of the index, read while it is there. -/
theorem mem_searchL1 {tools : FragmentFactory.TextTools} {ready : Bool} {recency : Option KeyId → FragmentId → ℕ}
    {id : FragmentId} (h : id ∈ (searchL1 tools ready recency store q).1) :
    ready = true ∧ store.index.any (fun member => decide (member.2 = id)) = true := by
  simp only [searchL1] at h
  split at h
  · exact absurd h List.not_mem_nil
  · split at h
    · exact absurd h List.not_mem_nil
    · rename_i hready
      refine ⟨by simpa using hready, ?_⟩
      split at h
      · refine mem_index_of_union (fun space hid => ?_) (List.mem_of_mem_take h)
        exact mem_index_of_members ((List.mem_insertionSort _).mp (List.mem_of_mem_take hid))
      · rename_i first others hsets
        have hfirst := @List.mem_cons_self _ first others
        rw [← hsets] at hfirst
        have hid := (List.mem_filter.mp h).1
        have hlist := (List.mem_filter.mp hfirst).1
        simp only [List.mem_cons, List.not_mem_nil, or_false] at hlist
        rcases hlist with rfl | rfl | rfl
        · split at hid
          · exact absurd hid List.not_mem_nil
          · exact mem_index_of_union (fun space hspace => mem_index_of_keywordMembers hspace) hid
        · cases htopic : q.topic with
          | none =>
            rw [htopic] at hid
            exact absurd hid List.not_mem_nil
          | some topic =>
            rw [htopic] at hid
            exact mem_index_of_union (fun space hspace => mem_index_of_members hspace) hid
        · cases htype : q.type with
          | none =>
            rw [htype] at hid
            exact absurd hid List.not_mem_nil
          | some type =>
            rw [htype] at hid
            exact mem_index_of_union (fun space hspace => mem_index_of_members hspace) hid

/-- The row of every hit is found by a layer. -/
def AllFound (model : SearchModel) (context : SearchContext) (store : Store) (q : SearchQuery) (found : List Hit) : Prop :=
  ∀ hit ∈ found, FoundBy model context store q hit.row

theorem allFound_hits {rows : List Fragment} (h : ∀ f ∈ rows, FoundBy model context store q f) :
    AllFound model context store q (hits rows) := by
  intro hit hhit
  obtain ⟨f, hf, rfl⟩ := List.mem_map.mp hhit
  exact h f hf

theorem allFound_append {found more : List Hit} (h : AllFound model context store q found)
    (h' : AllFound model context store q more) : AllFound model context store q (found ++ more) := by
  intro hit hhit
  rcases List.mem_append.mp hhit with hfound | hmore
  · exact h hit hfound
  · exact h' hit hmore

/-- Ids that come from the index while it is there. -/
def Listed (context : SearchContext) (store : Store) (ids : List FragmentId) : Prop :=
  ∀ id ∈ ids, context.redisReady = true ∧ store.index.any (fun member => decide (member.2 = id)) = true

theorem foundBy_listed {ids : List FragmentId} (hids : Listed context store ids) {f : Fragment}
    (hf : f ∈ getScopedByIds store q ids) (hscope : q.applyScope f = true) : FoundBy model context store q f := by
  refine foundBy_byId ?_ (fun id hid => (hids id hid).2) hf hscope
  cases ids with
  | nil => exact fun h => absurd rfl h
  | cons first later => exact fun _ => (hids first List.mem_cons_self).1

theorem allFound_searchL2 {excludeIds : List FragmentId} (hids : Listed context store excludeIds) :
    AllFound model context store q (searchL2 model store q excludeIds) := by
  refine allFound_hits fun f hf => ?_
  rcases List.mem_append.mp hf with hresult | hfetched
  · exact foundBy_searchMetadata f hresult
  · obtain ⟨hmem, hscope⟩ := List.mem_filter.mp hfetched
    split at hmem
    · exact absurd hmem List.not_mem_nil
    · exact foundBy_listed (fun id hid => hids id (List.mem_filter.mp hid).1) hmem hscope

theorem allFound_tryHotCache {ids : List FragmentId} (hids : Listed context store ids) :
    AllFound model context store q (hits (if ids.isEmpty then [] else tryHotCache context.redisReady store q ids)) := by
  refine allFound_hits fun f hf => ?_
  split at hf
  · exact absurd hf List.not_mem_nil
  · obtain ⟨hmem, hscope⟩ := List.mem_filter.mp hf
    simp only [Bool.and_eq_true] at hscope
    refine foundBy_listed (fun id hid => ?_) hmem hscope.2
    split at hid
    · exact hids id (List.mem_of_mem_take (List.mem_eraseDups.mp (List.mem_filter.mp hid).1))
    · exact absurd hid List.not_mem_nil

theorem allFound_temporalResults : AllFound model context store q (temporalResults store q) := by
  cases hrange : q.timeRange with
  | none =>
    simp only [temporalResults, hrange, Option.elim_none]
    exact fun _ h => absurd h List.not_mem_nil
  | some range =>
    simp only [temporalResults, hrange, Option.elim_some]
    refine allFound_hits fun f hf => ?_
    obtain ⟨hrow, hcond⟩ := List.mem_filter.mp ((List.mem_insertionSort _).mp (List.mem_of_mem_take hf))
    exact ⟨.temporal, f, hrow, by rw [finds, hrange]; rfl, hcond, Shows.refl f⟩

/-- The rows of a semantic search, one of whose probes it is made with. -/
theorem semantic_row {probe : Fragment → Option ℚ} {limit : ℕ} {affectOn : Bool}
    (hprobe : probe ∈ semanticProbes model context q) {hit : Hit}
    (hhit : hit ∈ searchBySemantic store q probe context.minSimilarity limit affectOn) :
    hit.row ∈ store.fragments.rows ∧ q.rowCond hit.row = true ∧
    finds model context store q hit.row .semantic = true := by
  obtain ⟨f, hf, rfl⟩ := List.mem_map.mp hhit
  obtain ⟨hrow, hcond⟩ := List.mem_filter.mp ((List.mem_insertionSort _).mp (List.mem_of_mem_take hf))
  simp only [Bool.and_eq_true] at hcond
  exact ⟨hrow, hcond.1.1, List.any_eq_true.mpr ⟨probe, hprobe, hcond.2⟩⟩

theorem allFound_searchL3 {text : String} {skipMorpheme : Bool}
    (hprobe : model.similarity (if model.assistantQuery text then "Assistant: " ++ text else text) ∈
      semanticProbes model context q)
    (hmorpheme : skipMorpheme = false → model.morphemeSimilarity text ∈ semanticProbes model context q)
    (htext : ∀ fused, fusionText model q = some fused → fused = text) :
    AllFound model context store q (searchL3 model context store q text skipMorpheme) := by
  intro hit hhit
  obtain ⟨hmem, hscope⟩ := List.mem_filter.mp hhit
  have hplain : ∀ other : Hit, (other.row ∈ store.fragments.rows ∧ q.rowCond other.row = true ∧
      finds model context store q other.row .semantic = true) → q.applyScope other.row = true →
      FoundBy model context store q other.row := by
    intro other hother hotherScope
    refine ⟨.semantic, other.row, hother.1, hother.2.2, ?_, Shows.refl _⟩
    simp only [admits, Bool.and_eq_true]
    exact ⟨hother.2.1, hotherScope⟩
  rcases List.mem_append.mp hmem with hbasic | hextra
  · split at hbasic
    · rename_i hassistant
      obtain ⟨other, hother, rfl⟩ := List.mem_map.mp hbasic
      rw [if_pos hassistant] at hprobe
      have hrow := semantic_row hprobe hother
      simp only [boostAssistant] at hscope ⊢
      split
      · rename_i hcontent
        rw [if_pos hcontent] at hscope
        refine ⟨.semantic, other.row, hrow.1, hrow.2.2, ?_, rfl, rfl, rfl, rfl, ?_⟩
        · simp only [admits, Bool.and_eq_true]
          exact ⟨hrow.2.1, hscope⟩
        · intro hfusion
          obtain ⟨fused, hfused⟩ := Option.isSome_iff_exists.mp hfusion
          rw [htext fused hfused] at hfused
          simp only [shownImportance, hfused, Option.any_some, hassistant, hcontent, Bool.and_self, if_true]
          exact le_max_right _ _
      · rename_i hcontent
        rw [if_neg hcontent] at hscope
        exact hplain other hrow hscope
    · rename_i hassistant
      rw [if_neg hassistant] at hprobe
      exact hplain hit (semantic_row hprobe hbasic) hscope
  · have hmorphemes := (List.mem_filter.mp hextra).1
    split at hmorphemes
    · exact absurd hmorphemes List.not_mem_nil
    · rename_i hskip
      exact hplain hit (semantic_row (hmorpheme (Bool.eq_false_of_not_eq_true hskip)) hmorphemes) hscope

/-- A joined row is at the end of a link that is not deleted. -/
theorem linked_of_mem_neighborRows {ids : List FragmentId} {chosen : Link → Bool} {skipped : FragmentId → Bool}
    {keep : Fragment → Bool} {item : Fragment × Link} (h : item ∈ neighborRows store ids chosen skipped keep) :
    (store.links.rows.any fun l => l.touches item.1.id && l.deletedAt.isNone) = true := by
  have hjoin : ∀ (id : FragmentId) (l : Link), l ∈ store.links.rows → l.touches id = true → l.deletedAt.isNone = true →
      (((store.fragments.byId id).filter keep).map fun f => (f, l)) = some item →
      (store.links.rows.any fun l => l.touches item.1.id && l.deletedAt.isNone) = true := by
    intro id l hl htouches hlive hitem
    obtain ⟨f, hf, rfl⟩ := Option.map_eq_some_iff.mp hitem
    have hid := ((byId_eq_some_iff _).mp (Option.filter_eq_some_iff.mp hf).1).2
    refine List.any_eq_true.mpr ⟨l, hl, ?_⟩
    rw [hid, htouches, hlive]
    rfl
  have htouches : ∀ l : Link, l.touches l.toId = true ∧ l.touches l.fromId = true := by
    intro l
    simp only [Link.touches, decide_true, Bool.or_true, Bool.true_or, and_self]
  rcases List.mem_append.mp h with hforward | hbackward
  · obtain ⟨l, hl, hjoined⟩ := List.mem_filterMap.mp hforward
    split at hjoined
    · rename_i hcond
      simp only [Bool.and_eq_true] at hcond
      exact hjoin _ l hl (htouches l).1 hcond.1.2 hjoined
    · cases hjoined
  · obtain ⟨l, hl, hjoined⟩ := List.mem_filterMap.mp hbackward
    split at hjoined
    · rename_i hcond
      simp only [Bool.and_eq_true] at hcond
      exact hjoin _ l hl (htouches l).2 hcond.1.2 hjoined
    · cases hjoined

/-- The neighbours of a search with fusion. -/
theorem allFound_graphResults {l2 : List Hit} (hfusion : (fusionText model q).isSome = true) :
    AllFound model context store q (graphResults model store q l2) := by
  refine allFound_hits fun row hrow => ?_
  obtain ⟨hmem, hscope⟩ := List.mem_filter.mp hrow
  obtain ⟨item, hitem, rfl⟩ := List.mem_map.mp hmem
  have hstrongest := List.mem_of_mem_take ((List.mem_insertionSort _).mp hitem)
  have hjoined := (List.mem_insertionSort _).mp (mem_of_mem_distinctOnId ((List.mem_insertionSort _).mp hstrongest))
  obtain ⟨hstored, hkeep⟩ := mem_neighborRows hjoined
  simp only [Bool.and_eq_true] at hscope hkeep
  refine ⟨.graph, item.1, hstored, ?_, ?_, Shows.neighborColumns _⟩
  · simp only [finds, Bool.and_eq_true]
    exact ⟨hfusion, linked_of_mem_neighborRows hjoined⟩
  · simp only [admits, Bool.and_eq_true]
    exact ⟨⟨hkeep, hscope.1⟩, hscope.2⟩

/-- A row found that the cutoff leaves in the result has reached it by a layer. -/
theorem reaches_of_found {row : Fragment} (hfound : FoundBy model context store q row)
    (hcut : (fusionText model q).isSome = true →
      (row.isAnchor || decide (q.minImportance.getD (1 / 10) ≤ row.importance)) = true) :
    ∃ layer, ∃ f ∈ store.fragments.rows, row.id = f.id ∧ reaches model context store q layer f = true := by
  obtain ⟨layer, f, hf, hfinds, hadmits, hshows⟩ := hfound
  refine ⟨layer, f, hf, hshows.id, ?_⟩
  simp only [reaches, hfinds, hadmits, Bool.true_and, passesCutoff]
  cases hfusion : (fusionText model q) with
  | none => rfl
  | some text =>
    have hfused : (fusionText model q).isSome = true := by rw [hfusion]; rfl
    have hpasses := hcut hfused
    rw [hshows.isAnchor, Bool.or_eq_true, decide_eq_true_eq] at hpasses
    simp only [Option.isNone_some, Bool.false_or, Bool.or_eq_true, decide_eq_true_eq]
    exact hpasses.imp id fun himportance => himportance.trans (hshows.importance hfused)

theorem fusionText_eq_some {text : String} (htext : JsString.truthy q.text = some text)
    (hembedding : model.embeddingEnabled = true) : fusionText model q = some text := by
  rw [fusionText, if_pos hembedding, htext]

theorem fusionText_eq_none
    (hnofusion : ∀ text, JsString.truthy q.text = some text → model.embeddingEnabled = true → False) :
    fusionText model q = none := by
  rw [fusionText]
  split
  · rename_i hembedding
    cases htext : JsString.truthy q.text with
    | none => rfl
    | some text => exact (hnofusion text htext hembedding).elim
  · rfl

theorem allFound_textHits {text : String} {cached : List Hit} {l1MissIds : List FragmentId}
    (hfusion : fusionText model q = some text) (hcached : AllFound model context store q cached)
    (hids : Listed context store l1MissIds) :
    AllFound model context store q (textHits model context store q text cached l1MissIds) := by
  have hgraph : AllFound model context store q (graphResults model store q (searchL2 model store q l1MissIds)) :=
    allFound_graphResults (by rw [hfusion]; rfl)
  have hl3 : AllFound model context store q (searchL3 model context store q text false) := by
    refine allFound_searchL3 ?_ (fun _ => ?_) fun fused hfused => ?_
    · simp only [semanticProbes, hfusion, List.mem_cons, true_or]
    · simp only [semanticProbes, hfusion, List.mem_cons, true_or, or_true]
    · exact (Option.some.inj (hfusion.symm.trans hfused)).symm
  exact allFound_append (allFound_append (allFound_append (allFound_append hcached (allFound_searchL2 hids)) hgraph)
    hl3) allFound_temporalResults

theorem allFound_fallbackHits {cached : List Hit} {l1MissIds : List FragmentId} (hfusion : fusionText model q = none)
    (hcached : AllFound model context store q cached) (hids : Listed context store l1MissIds) :
    AllFound model context store q (fallbackHits model context store q cached l1MissIds) := by
  refine allFound_append (allFound_append (allFound_append (allFound_searchL2 hids) hcached)
    allFound_temporalResults) ?_
  split
  · rename_i hon
    refine allFound_searchL3 ?_ nofun fun fused hfused => ?_
    · simp only [semanticProbes, hfusion, hon, if_true, List.mem_singleton]
    · rw [hfusion] at hfused
      cases hfused
  · exact fun _ h => absurd h List.not_mem_nil

/-- Every hit of the combined layers has reached them. -/
theorem reaches_executeSearch {hit : Hit} (hhit : hit ∈ (executeSearch model context store q).1) :
    ∃ layer, ∃ f ∈ store.fragments.rows, hit.row.id = f.id ∧ reaches model context store q layer f = true := by
  have hids : Listed context store (searchL1 model.tools context.redisReady context.recency store q).1 :=
    fun id hid => mem_searchL1 hid
  have hmisses : ∀ cached : List Hit, Listed context store
      (if (searchL1 model.tools context.redisReady context.recency store q).2 then []
        else (searchL1 model.tools context.redisReady context.recency store q).1.filter fun id =>
          !(cached.map Hit.id).contains id) := by
    intro cached id hid
    split at hid
    · exact absurd hid List.not_mem_nil
    · exact hids id (List.mem_filter.mp hid).1
  simp only [executeSearch] at hhit
  split at hhit
  · rename_i text htext hembedding
    obtain ⟨other, hother, hrow⟩ := rowsAmong_buildTextRRF _ _ _ _ hit hhit
    obtain ⟨hlayers, hcut⟩ := List.mem_filter.mp hother
    rw [← hrow]
    refine reaches_of_found ?_ fun _ => hcut
    exact allFound_textHits (fusionText_eq_some htext hembedding) (allFound_tryHotCache hids) (hmisses _) other hlayers
  · rename_i hnofusion
    have hfusion : fusionText model q = none := fusionText_eq_none hnofusion
    obtain ⟨other, hother, hrow⟩ := rowsAmong_buildFallbackCombined _ _ hit hhit
    rw [← hrow]
    refine reaches_of_found ?_ fun hsome => ?_
    · exact allFound_fallbackHits hfusion (allFound_tryHotCache hids) (hmisses _) other hother
    · rw [hfusion] at hsome
      cases hsome

/-- A fact and a decision of one topic. -/
def sampleRows : Store where
  fragments := [sampleFragment, { sampleFragment with
      id := "frag-02", content := "deploy moved to the new cluster", type := .decision, isAnchor := true }].foldl
    (fun table f => (table.insert f).getD table) Table.empty

/-- A search with neither Redis nor vectors. -/
def plainContext : SearchContext where
  redisReady := false

end FragmentMemory.SearchFilters
