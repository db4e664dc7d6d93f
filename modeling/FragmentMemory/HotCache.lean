import FragmentMemory.SearchFilters

/-! # The hot cache names candidates only

The search with whatever Redis holds: any ids in the keyword index, any payloads in the hot cache.  The
rows that it contributes are read from the table under the scope of the query.
-/
namespace FragmentMemory.HotCache
open ApiKeyStore FragmentTables RecallQueries FragmentSearch SearchProvenance SearchFilters

variable {π : Type*} (contentOf : π → Option String)

/-- `getCachedFragment`: the payload of the first namespace that has one. -/
def getCachedFragment (ready : Bool) (cache : Option KeyId → FragmentId → Option π) (keyIds : Option (List KeyId))
    (id : FragmentId) : Option π :=
  if ready then (namespaces keyIds).findSome? fun space => cache space id else none

/-- `_tryHotCache` on these payloads. -/
def tryHotCache (ready : Bool) (cache : Option KeyId → FragmentId → Option π) (store : Store) (q : SearchQuery)
    (ids : List FragmentId) : List Fragment :=
  let hitIds := (ids.take 30).eraseDups.filter fun id =>
    (JsString.truthy ((getCachedFragment ready cache q.keyIds id).bind contentOf)).isSome
  if hitIds.isEmpty then []
  else (getScopedByIds store q hitIds).filter fun f =>
    f.content ≠ "" && (q.includeSuperseded || f.live) && q.applyScope f

/-- The rows that `_searchL2` reads by the ids that the hot cache has missed. -/
def byIdFallback (store : Store) (q : SearchQuery) (results : List Fragment) (l1MissIds : List FragmentId) :
    List Fragment :=
  let missingIds := l1MissIds.filter fun id => !(results.map Fragment.id).contains id
  (if missingIds.isEmpty then [] else getScopedByIds store q missingIds).filter q.applyScope

/-- `_executeSearch` after the first layer has given these ids. -/
def executeWith (model : SearchModel) (context : SearchContext) (cache : Option KeyId → FragmentId → Option π)
    (store : Store) (q : SearchQuery) (l1 : List FragmentId × Bool) : List Hit :=
  let cached := hits (if l1.1.isEmpty then [] else tryHotCache contentOf context.redisReady cache store q l1.1)
  let l1MissIds := if l1.2 then [] else l1.1.filter fun id => !(cached.map Hit.id).contains id
  match JsString.truthy q.text, model.embeddingEnabled with
  | some text, true => (buildTextRRF model context store q text l1 cached l1MissIds).1
  | _, _ => (buildFallbackCombined model context store q cached l1MissIds).1

/-- A row that the caller of the query may see now. -/
def Visible (q : SearchQuery) (f : Fragment) : Prop :=
  (q.includeSuperseded = true ∨ f.live = true) ∧ keyCond q.keyIds f = true ∧ q.agentCond f = true ∧
    workspaceCond (JsString.truthy q.workspace) f = true

variable {contentOf} {store : Store} {q : SearchQuery} {model : SearchModel} {context : SearchContext}

theorem searchL2_eq (l1MissIds : List FragmentId) :
    searchL2 model store q l1MissIds =
      hits (searchMetadata model store q ++ byIdFallback store q (searchMetadata model store q) l1MissIds) := rfl

/-- The hot cache of the index: an id in it has a payload with a content. -/
def indexCache (store : Store) (space : Option KeyId) (id : FragmentId) : Option Unit :=
  if store.index.contains (.hot space, id) then some () else none

theorem getScopedByIds_nil : getScopedByIds store q [] = [] := by
  have hnone : store.fragments.rows.filter (fun f => ([] : List FragmentId).contains f.id && q.agentCond f &&
      (q.includeSuperseded || f.live) && keyCond q.keyIds f) = [] := by
    refine List.filter_eq_nil_iff.mpr fun f _ => ?_
    simp only [List.contains_nil, Bool.false_and, Bool.false_eq_true, not_false_eq_true]
  rw [getScopedByIds, hnone]
  rfl

theorem tryHotCache_indexCache (ready : Bool) (ids : List FragmentId) :
    tryHotCache (fun _ => some "cached") ready (indexCache store) store q ids =
      RecallQueries.tryHotCache ready store q ids := by
  have hpresent : ∀ id, (JsString.truthy ((getCachedFragment ready (indexCache store) q.keyIds id).bind
      fun _ => some "cached")).isSome = (ready && (namespaces q.keyIds).any fun space =>
        store.index.contains (.hot space, id)) := by
    intro id
    cases ready with
    | false => rfl
    | true =>
      simp only [getCachedFragment, if_true, Bool.true_and]
      induction namespaces q.keyIds with
      | nil => rfl
      | cons space later ih =>
        simp only [List.findSome?_cons, indexCache, List.any_cons]
        cases store.index.contains (IndexSet.hot space, id) with
        | true => rfl
        | false => exact ih
  have hids : ((ids.take 30).eraseDups.filter fun id => (JsString.truthy ((getCachedFragment ready (indexCache store)
      q.keyIds id).bind fun _ => some "cached")).isSome) =
      if ready then (ids.take 30).eraseDups.filter fun id =>
        (namespaces q.keyIds).any fun space => store.index.contains (.hot space, id) else [] := by
    simp only [hpresent]
    cases ready with
    | true => simp only [Bool.true_and, if_true]
    | false =>
      simp only [Bool.false_and, Bool.false_eq_true, if_false]
      exact List.filter_eq_nil_iff.mpr fun _ _ => Bool.false_ne_true
  have hempty : ∀ hitIds : List FragmentId, (if hitIds.isEmpty then [] else (getScopedByIds store q hitIds).filter
      fun f => f.content ≠ "" && (q.includeSuperseded || f.live) && q.applyScope f) =
      (getScopedByIds store q hitIds).filter fun f =>
        f.content ≠ "" && (q.includeSuperseded || f.live) && q.applyScope f := by
    intro hitIds
    cases hitIds with
    | nil =>
      rw [getScopedByIds_nil]
      rfl
    | cons id later => rfl
  simp only [tryHotCache, RecallQueries.tryHotCache, hids]
  exact hempty _

/-- The search of the tables is the one with the hot cache of their index. -/
theorem found_search_eq : (search model context store q).found =
    finish model q (executeWith (fun _ => some "cached") model context (indexCache store) store q
      (searchL1 model.tools context.redisReady context.recency store q)) := by
  have hlayers : (executeSearch model context store q).1 =
      executeWith (fun _ => some "cached") model context (indexCache store) store q
        (searchL1 model.tools context.redisReady context.recency store q) := by
    simp only [executeSearch, executeWith, tryHotCache_indexCache]
    cases JsString.truthy q.text with
    | none => rfl
    | some text => cases model.embeddingEnabled <;> rfl
  rw [found_search, hlayers]

theorem workspaceCond_truthy {workspace : Option String} {f : Fragment} (h : workspaceCond workspace f = true) :
    workspaceCond (JsString.truthy workspace) f = true := by
  cases workspace with
  | none => rfl
  | some name =>
    simp only [JsString.truthy, Option.filter_some]
    split
    · exact h
    · rfl

/-- What a layer admits is visible. -/
theorem visible_of_admits {f : Fragment} {layer : SearchLayer} (h : admits q f layer = true) : Visible q f := by
  have hrow : q.rowCond f = true → Visible q f := by
    intro hcond
    simp only [SearchQuery.rowCond, Bool.and_eq_true, Bool.or_eq_true] at hcond
    exact ⟨hcond.1.2, hcond.1.1.1.2, hcond.1.1.1.1, hcond.1.1.2⟩
  cases layer with
  | keywords =>
    simp only [admits, SearchQuery.metadataCond, Bool.and_eq_true] at h
    exact hrow h.1.1.1.1.1.1
  | topic =>
    simp only [admits, SearchQuery.metadataCond, Bool.and_eq_true] at h
    exact hrow h.1.1.1.1.1
  | byId =>
    simp only [admits, SearchQuery.applyScope, Bool.and_eq_true, Bool.or_eq_true] at h
    exact ⟨h.1.1.2, h.1.2, h.1.1.1, workspaceCond_truthy h.2.1.1.2⟩
  | semantic =>
    simp only [admits, Bool.and_eq_true] at h
    exact hrow h.1
  | temporal =>
    simp only [admits, Bool.and_eq_true] at h
    exact hrow h.1
  | graph =>
    simp only [admits, Bool.and_eq_true] at h
    exact ⟨Or.inr h.1.1.1.1.1, h.1.1.1.1.2, h.1.1.1.2, workspaceCond_truthy h.1.1.2⟩

/-- A row read by id under the scope is a row of the table that the caller may see. -/
theorem visible_getScopedByIds {ids : List FragmentId} {f : Fragment} (hf : f ∈ getScopedByIds store q ids)
    (hscope : q.applyScope f = true) : f ∈ store.fragments.rows ∧ Visible q f := by
  obtain ⟨hrow, hcond⟩ := List.mem_filter.mp ((List.mem_insertionSort _).mp hf)
  simp only [Bool.and_eq_true] at hcond
  have hadmits : admits q f .byId = true := by
    simp only [admits, Bool.and_eq_true]
    exact ⟨⟨⟨hcond.1.1.2, hcond.1.2⟩, hcond.2⟩, hscope⟩
  exact ⟨hrow, visible_of_admits hadmits⟩

theorem visible_tryHotCache {ready : Bool} {cache : Option KeyId → FragmentId → Option π} {ids : List FragmentId} :
    ∀ f ∈ tryHotCache contentOf ready cache store q ids, f ∈ store.fragments.rows ∧ Visible q f := by
  intro f hf
  simp only [tryHotCache] at hf
  split at hf
  · exact absurd hf List.not_mem_nil
  · obtain ⟨hmem, hcond⟩ := List.mem_filter.mp hf
    simp only [Bool.and_eq_true] at hcond
    exact visible_getScopedByIds hmem hcond.2

theorem visible_byIdFallback {results : List Fragment} {l1MissIds : List FragmentId} :
    ∀ f ∈ byIdFallback store q results l1MissIds, f ∈ store.fragments.rows ∧ Visible q f := by
  intro f hf
  obtain ⟨hmem, hscope⟩ := List.mem_filter.mp hf
  split at hmem
  · exact absurd hmem List.not_mem_nil
  · exact visible_getScopedByIds hmem hscope

/-- Every hit of the combined layers is of a row that the caller may see, with its content. -/
theorem visible_executeWith {cache : Option KeyId → FragmentId → Option π} {l1 : List FragmentId × Bool} {hit : Hit}
    (h : hit ∈ executeWith contentOf model context cache store q l1) :
    ∃ f ∈ store.fragments.rows, hit.row.id = f.id ∧ hit.row.content = f.content ∧ Visible q f := by
  -- the queries do not look at the index, so the ids may be taken as its members
  let listed : Store := { store with index := l1.1.map fun id => (.recent none, id) }
  let ready : SearchContext := { context with redisReady := true }
  have hids : Listed ready listed l1.1 := by
    intro id hid
    exact ⟨rfl, List.any_eq_true.mpr ⟨(.recent none, id), List.mem_map_of_mem hid, decide_eq_true rfl⟩⟩
  have hcached : AllFound model ready listed q
      (hits (if l1.1.isEmpty then [] else tryHotCache contentOf context.redisReady cache store q l1.1)) := by
    refine allFound_hits fun f hf => ?_
    split at hf
    · exact absurd hf List.not_mem_nil
    · simp only [tryHotCache] at hf
      split at hf
      · exact absurd hf List.not_mem_nil
      · obtain ⟨hmem, hcond⟩ := List.mem_filter.mp hf
        simp only [Bool.and_eq_true] at hcond
        refine @foundBy_listed listed q model ready _ (fun id hid => ?_) f hmem hcond.2
        exact hids id (List.mem_of_mem_take (List.mem_eraseDups.mp (List.mem_filter.mp hid).1))
  have hmisses : ∀ cached : List Hit, Listed ready listed
      (if l1.2 then [] else l1.1.filter fun id => !(cached.map Hit.id).contains id) := by
    intro cached id hid
    split at hid
    · exact absurd hid List.not_mem_nil
    · exact hids id (List.mem_filter.mp hid).1
  have hfound : FoundBy model ready listed q hit.row := by
    simp only [executeWith] at h
    split at h
    · rename_i text htext hembedding
      obtain ⟨other, hother, hrow⟩ := rowsAmong_buildTextRRF _ _ _ _ hit h
      rw [← hrow]
      exact allFound_textHits (fusionText_eq_some htext hembedding) hcached (hmisses _) other (List.mem_filter.mp hother).1
    · rename_i hnofusion
      obtain ⟨other, hother, hrow⟩ := rowsAmong_buildFallbackCombined _ _ hit h
      rw [← hrow]
      exact allFound_fallbackHits (fusionText_eq_none hnofusion) hcached (hmisses _) other hother
  obtain ⟨layer, f, hf, -, hadmits, hshows⟩ := hfound
  exact ⟨f, hf, hshows.id, hshows.content, visible_of_admits hadmits⟩

/-- Whatever Redis holds, the hot cache and the reading by id contribute rows of the table that the
caller may see, and the whole search shows only such rows, with the contents that they have. -/
theorem cache_never_overrides (contentOf : π → Option String) (model : SearchModel) (context : SearchContext)
    (cache : Option KeyId → FragmentId → Option π) (store : Store) (q : SearchQuery) (l1 : List FragmentId × Bool) :
    (∀ ids, ∀ f ∈ tryHotCache contentOf context.redisReady cache store q ids, f ∈ store.fragments.rows ∧ Visible q f) ∧
    (∀ results l1MissIds, ∀ f ∈ byIdFallback store q results l1MissIds, f ∈ store.fragments.rows ∧ Visible q f) ∧
    ∀ hit ∈ finish model q (executeWith contentOf model context cache store q l1),
      ∃ f ∈ store.fragments.rows, hit.id = f.id ∧ hit.row.content = f.content ∧ Visible q f := by
  refine ⟨fun _ => visible_tryHotCache, fun _ _ => visible_byIdFallback, fun hit hhit => ?_⟩
  obtain ⟨other, hother, hrow⟩ := rowsAmong_finish _ hit hhit
  obtain ⟨f, hf, hid, hcontent, hvisible⟩ := visible_executeWith hother
  exact ⟨f, hf, by rw [← hid, hrow]; rfl, by rw [← hcontent, hrow], hvisible⟩

end FragmentMemory.HotCache
