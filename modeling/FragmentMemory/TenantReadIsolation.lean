import FragmentMemory.TenantRequestIsolation
import FragmentMemory.TenantView
import Mathlib.Data.String.Basic

/-! # Isolation of a tenant's reads

A recall or a history of a tenant is what its view of the store gives, except for four queries that
have no key clause: the previews of linked rows, the pending contradictions, the events of the cases
of a recall and the links of a history.  Where each of these meets rows of the tenant only, stores
with the same view give the same responses.
-/
namespace FragmentMemory.TenantReadIsolation
open ApiKeyStore FragmentTables FragmentReader CaseEventStore RecallQueries FragmentSearch RecallScope MemoryRecaller
  HistoryReconstructor TenantFrame TenantWriteIsolation TenantRequestIsolation TenantView VisibleRows UniqueIndexTable ContentUniqueness JsString
open MemoryRememberer (Caller Caller.groups)

/-- The rows of the scope have rows of the scope at their three strongest live links. -/
def PreviewsSealed (scope : List KeyId) (store : Store) : Prop :=
  ∀ f ∈ store.fragments.rows, inside scope f = true →
    ∀ item ∈ strongestLinked store f.id, inside scope item.1 = true

/-- No live row of another key contradicts a row of the scope. -/
def ContradictionsSealed (scope : List KeyId) (store : Store) : Prop :=
  ∀ l ∈ store.links.rows, l.relationType = .contradicts →
    (insideId scope store l.fromId = true → ∀ f ∈ store.fragments.rows, f.id = l.toId → f.live = true →
      inside scope f = true) ∧
    (insideId scope store l.toId = true → ∀ f ∈ store.fragments.rows, f.id = l.fromId → f.live = true →
      inside scope f = true)

/-- The first twenty events of the case of a row of the scope are events of the scope. -/
def CasesSealed (scope : List KeyId) (store : Store) : Prop :=
  ∀ f ∈ store.fragments.rows, inside scope f = true → ∀ caseId, truthy f.caseId = some caseId →
    ∀ e ∈ (caseEventsOf store [caseId]).take 20, insideEvent scope e = true

/-- The causal links at a live row of the scope are between rows of the scope. -/
def ChainsSealed (scope : List KeyId) (store : Store) : Prop :=
  ∀ f ∈ store.fragments.rows, inside scope f = true → f.live = true → ∀ l ∈ store.links.rows,
    causalLink l = true → l.deletedAt = none → l.touches f.id = true → insideLink scope store l = true

variable {scope : List KeyId} {store : Store} {q : SearchQuery} {model : SearchModel}

/-- A scoped row has an id of the scope. -/
theorem insideId_of_scoped {keyIds : Option (List KeyId)} (hkeys : KeysWithin scope keyIds) {f : Fragment}
    (h : Scoped store keyIds f) : insideId scope store f.id = true := by
  obtain ⟨g, hg, hkey, hid, -⟩ := h
  rw [hid]
  exact insideId_of_mem hg (inside_of_keyCond hkeys hkey)

theorem insideIds_of_allScoped {keyIds : Option (List KeyId)} (hkeys : KeysWithin scope keyIds) {found : List Hit}
    (h : AllScoped store keyIds found) : ∀ id ∈ found.map Hit.id, insideId scope store id = true := by
  intro id hid
  obtain ⟨hit, hhit, rfl⟩ := List.mem_map.mp hid
  exact insideId_of_scoped hkeys (h hit hhit)

section Search
variable {context : SearchContext} (hkeys : KeysWithin scope q.keyIds)
include hkeys

theorem searchMetadata_view : searchMetadata model (view scope store) q = searchMetadata model store q := by
  have htopic : searchTopicRows (view scope store) q = searchTopicRows store q :=
    funext fun topic => searchTopicRows_view hkeys
  simp only [searchMetadata, searchByKeywords_view hkeys, htopic]

theorem searchL2_view {excludeIds : List FragmentId} :
    searchL2 model (view scope store) q excludeIds = searchL2 model store q excludeIds := by
  simp only [searchL2, searchMetadata_view hkeys, getScopedByIds_view hkeys]

theorem searchL3_view {text : String} {skipMorpheme : Bool} :
    searchL3 model context (view scope store) q text skipMorpheme =
      searchL3 model context store q text skipMorpheme := by
  simp only [searchL3, searchBySemantic_view hkeys]

theorem temporalResults_view : temporalResults (view scope store) q = temporalResults store q := by
  simp only [temporalResults, searchByTimeRange_view hkeys]

/-- The seeds of the graph search are rows of the scope. -/
theorem graphResults_view {excludeIds : List FragmentId} :
    graphResults model (view scope store) q (searchL2 model store q excludeIds) =
      graphResults model store q (searchL2 model store q excludeIds) := by
  have hseeds : ∀ id ∈ ((searchL2 model store q excludeIds).take 10).map Hit.id, insideId scope store id = true :=
    insideIds_of_allScoped hkeys (allScoped_searchL2.of_mem fun _ hhit => List.mem_of_mem_take hhit)
  simp only [graphResults, fetchGraphNeighbors_view hkeys hseeds]

theorem textSearch_view {text : String} {l1 : List FragmentId × Bool} {cached : List Hit}
    {l1MissIds : List FragmentId} :
    textSearch model context (view scope store) q text l1 cached l1MissIds =
      textSearch model context store q text l1 cached l1MissIds := by
  simp only [textSearch, searchL2_view hkeys, graphResults_view hkeys, searchL3_view hkeys,
    temporalResults_view hkeys]

theorem executeSearch_view :
    executeSearch model context (view scope store) q = executeSearch model context store q := by
  simp only [executeSearch, buildTextRRF, buildFallbackCombined, searchL1_view hkeys, tryHotCache_view hkeys,
    textSearch_view hkeys, searchL2_view hkeys, searchL3_view hkeys, temporalResults_view hkeys]

theorem search_view : search model context (view scope store) q = search model context store q := by
  simp only [search, executeSearch_view hkeys]

end Search

variable {context : RecallContext} {caller : Caller} {params : RecallParams}

/-- The rows of a recall, over all its pages. -/
theorem recallRows_view (hkeys : KeysWithin scope caller.groups) :
    recallRows model context (view scope store) caller params = recallRows model context store caller params := by
  have hquery : KeysWithin scope (searchQuery params caller context.now).keyIds := hkeys
  have hscoped : AllScoped store (searchQuery params caller context.now).keyIds
      (search model context.toSearchContext store (searchQuery params caller context.now)).found := allScoped_search
  have hfound := insideIds_of_allScoped hquery hscoped
  simp only [recallRows, appendLinked, search_view hquery, getLinkedFragments_view hquery hfound]

/-- The rows at the strongest links of a row of the scope. -/
theorem strongestLinked_view (hsealed : PreviewsSealed scope store) {id : FragmentId}
    (hid : insideId scope store id = true) : strongestLinked (view scope store) id = strongestLinked store id := by
  have htotal : Std.Total fun a b : Fragment × Link => b.2.weight ≤ a.2.weight := ⟨fun a b => le_total _ _⟩
  have htrans : IsTrans (Fragment × Link) fun a b => b.2.weight ≤ a.2.weight := ⟨fun a b c hab hbc => hbc.trans hab⟩
  obtain ⟨f, hf, rfl, hinside⟩ := insideId_iff.mp hid
  have hpage := hsealed f hf hinside
  simp only [strongestLinked] at hpage ⊢
  rw [← take_visible hpage, ← insertionSort_visible, List.filter_filterMap, view_links]
  congr 2
  refine filterMap_visible (fun l _ hhidden => ?_) fun l _ hvisible => ?_
  · split
    · rename_i hcond
      simp only [Bool.and_eq_true, decide_eq_true_eq] at hcond
      rw [insideLink, hcond.1, hid, Bool.true_and] at hhidden
      rw [Option.filter_eq_none_iff]
      intro item hitem
      obtain ⟨g, hg, rfl⟩ := Option.map_eq_some_iff.mp hitem
      rw [inside_of_byId (Option.filter_eq_some_iff.mp hg).1, hhidden]
      exact Bool.false_ne_true
    · rfl
  · rw [insideLink, Bool.and_eq_true] at hvisible
    rw [byId_view_of_inside hvisible.2]
    split
    · rcases hfound : store.fragments.byId l.toId with _ | g
      · rfl
      · have hg := (inside_of_byId hfound).trans hvisible.2
        rcases hlive : g.live with _ | _
        · simp [Option.filter_some, hlive]
        · simp [Option.filter_some, hlive, hg]
    · rfl

theorem hasPendingContradictions_view (hsealed : ContradictionsSealed scope store) {ids : List FragmentId}
    (hids : ∀ id ∈ ids, insideId scope store id = true) :
    hasPendingContradictions (view scope store) ids = hasPendingContradictions store ids := by
  simp only [hasPendingContradictions, view_links]
  congr 1
  refine any_visible (fun l hl hcond => ?_) fun l _ hvisible => ?_
  · simp only [Bool.and_eq_true, decide_eq_true_eq, Bool.or_eq_true, List.contains_iff_mem] at hcond
    obtain ⟨⟨hrelation, hends⟩, hother⟩ := hcond
    obtain ⟨hto, hfrom⟩ := hsealed l hl hrelation
    obtain ⟨g, hg, hlive⟩ := (Option.any_eq_true _ _).mp hother
    rw [insideLink, Bool.and_eq_true]
    split at hg
    · rename_i hin
      obtain ⟨hrow, hid⟩ := (byId_eq_some_iff _).mp hg
      have hinside := hto (hids _ hin) g hrow hid hlive
      exact ⟨hids _ hin, hid ▸ insideId_of_mem hrow hinside⟩
    · rename_i hnot
      have hin := hends.resolve_left hnot
      obtain ⟨hrow, hid⟩ := (byId_eq_some_iff _).mp hg
      have hinside := hfrom (hids _ hin) g hrow hid hlive
      exact ⟨hid ▸ insideId_of_mem hrow hinside, hids _ hin⟩
  · rw [insideLink, Bool.and_eq_true] at hvisible
    split
    · rw [byId_view_of_inside hvisible.2]
    · rw [byId_view_of_inside hvisible.1]

theorem caseOrder_total : Std.Total fun a b : CaseEvent =>
    (a.caseId < b.caseId || (a.caseId = b.caseId && a.sequenceNo ≤ b.sequenceNo) : Bool) = true := by
  refine ⟨fun a b => ?_⟩
  simp only [Bool.or_eq_true, Bool.and_eq_true, decide_eq_true_eq]
  rcases lt_trichotomy a.caseId b.caseId with hlt | heq | hgt
  · exact Or.inl (Or.inl hlt)
  · rcases le_total a.sequenceNo b.sequenceNo with hle | hge
    · exact Or.inl (Or.inr ⟨heq, hle⟩)
    · exact Or.inr (Or.inr ⟨heq.symm, hge⟩)
  · exact Or.inr (Or.inl hgt)

theorem caseOrder_trans : IsTrans CaseEvent fun a b =>
    (a.caseId < b.caseId || (a.caseId = b.caseId && a.sequenceNo ≤ b.sequenceNo) : Bool) = true := by
  refine ⟨fun a b c => ?_⟩
  simp only [Bool.or_eq_true, Bool.and_eq_true, decide_eq_true_eq]
  rintro (hab | hab) (hbc | hbc)
  · exact Or.inl (hab.trans hbc)
  · exact Or.inl (hbc.1 ▸ hab)
  · exact Or.inl (hab.1 ▸ hbc)
  · exact Or.inr ⟨hab.1.trans hbc.1, hab.2.trans hbc.2⟩

/-- The events of one case among those of several. -/
theorem caseEventsOf_filter {caseIds : List String} {caseId : String} (h : caseId ∈ caseIds) :
    (caseEventsOf store caseIds).filter (fun e => e.caseId = caseId) = caseEventsOf store [caseId] := by
  have htotal := caseOrder_total
  have htrans := caseOrder_trans
  simp only [caseEventsOf]
  rw [← insertionSort_visible, List.filter_filter]
  congr 1
  refine List.filter_congr fun e _ => ?_
  rw [Bool.eq_iff_iff]
  simp only [Bool.and_eq_true, decide_eq_true_eq, List.contains_iff_mem, List.mem_singleton]
  constructor
  · rintro ⟨heq, -⟩
    exact heq
  · rintro rfl
    exact ⟨rfl, h⟩

/-- The events that a triple shows of the case of a row of the scope. -/
theorem caseEventsOf_view {caseIds : List String} {caseId : String} (h : caseId ∈ caseIds)
    (hsealed : ∀ e ∈ (caseEventsOf store [caseId]).take 20, insideEvent scope e = true) :
    ((caseEventsOf (view scope store) caseIds).filter fun e => e.caseId = caseId).take 20 =
      ((caseEventsOf store caseIds).filter fun e => e.caseId = caseId).take 20 := by
  have htotal := caseOrder_total
  have htrans := caseOrder_trans
  have hview : caseEventsOf (view scope store) [caseId] = (caseEventsOf store [caseId]).filter (insideEvent scope) := by
    simp only [caseEventsOf, view]
    rw [← insertionSort_visible, List.filter_filter, List.filter_filter]
    simp only [Bool.and_comm]
  rw [caseEventsOf_filter h, caseEventsOf_filter h, hview, take_visible hsealed]

/-- The cases of scoped rows are cases of rows of the scope. -/
theorem caseId_of_topCases {keyIds : Option (List KeyId)} (hkeys : KeysWithin scope keyIds) {rows : List Fragment}
    (hrows : ∀ f ∈ rows, Scoped store keyIds f) {maxCases : ℕ} {caseId : String}
    (h : caseId ∈ topCases rows maxCases) :
    ∃ f ∈ store.fragments.rows, inside scope f = true ∧ truthy f.caseId = some caseId := by
  have hmem := (List.mem_insertionSort _).mp (List.mem_of_mem_take h)
  obtain ⟨row, hrow, hcase⟩ := List.mem_filterMap.mp (List.mem_eraseDups.mp hmem)
  obtain ⟨f, hf, hkey, -, hsame | hnone⟩ := hrows row hrow
  · exact ⟨f, hf, inside_of_keyCond hkeys hkey, hsame ▸ hcase⟩
  · rw [hnone] at hcase
    cases hcase

theorem buildCaseTriples_view {key : KeyId} (hkey : key ∈ scope) (hsealed : CasesSealed scope store)
    {keyIds : Option (List KeyId)} (hkeys : KeysWithin scope keyIds) {rows : List Fragment}
    (hrows : ∀ f ∈ rows, Scoped store keyIds f) (maxCases : ℕ) :
    buildCaseTriples (view scope store) rows (some key) maxCases = buildCaseTriples store rows (some key) maxCases := by
  simp only [buildCaseTriples, caseFragments_view hkey]
  congr 1
  refine List.map_congr_left fun caseId hcase => ?_
  obtain ⟨f, hf, hinside, hcaseId⟩ := caseId_of_topCases hkeys hrows hcase
  have hevents := caseEventsOf_view hcase (hsealed f hf hinside caseId hcaseId)
  rw [← List.map_take, ← List.map_take, hevents]

/-- A tenant's caller reads under keys of its scope. -/
theorem keysWithin_groups (tenant : Tenant) : KeysWithin tenant.scope tenant.caller.groups := by
  have hsome : ∃ members, tenant.caller.groups = some members := by
    rcases hgroups : tenant.groupKeyIds with _ | members
    · exact ⟨[tenant.key], by simp only [Caller.groups, Tenant.caller, hgroups, Option.none_or, Option.map_some]⟩
    · exact ⟨members, by simp only [Caller.groups, Tenant.caller, hgroups, Option.some_or]⟩
  obtain ⟨members, hmembers⟩ := hsome
  refine ⟨members, hmembers, ?_⟩
  have hscope := tenant.groups_mem_scope
  rw [hmembers] at hscope
  exact hscope

theorem recall_view (tenant : Tenant) (hcases : params.caseMode = true → CasesSealed tenant.scope store) :
    MemoryRecaller.recall model context (view tenant.scope store) tenant.caller params =
      MemoryRecaller.recall model context store tenant.caller params := by
  have hkey : tenant.key ∈ tenant.scope := List.mem_cons_self
  have hkeys := keysWithin_groups tenant
  have hscoped : AllScoped store tenant.caller.groups (recallRows model context store tenant.caller params).1 :=
    allScoped_recallRows
  have hcount : fragmentCount (view tenant.scope store) tenant.caller.keyId = fragmentCount store tenant.caller.keyId :=
    fragmentCount_view hkey
  simp only [MemoryRecaller.recall, recallRows_view hkeys, suggest, hcount]
  congr 1
  split
  · rename_i hmode
    refine congrArg some (buildCaseTriples_view hkey (hcases hmode) hkeys (fun f hf => ?_) _)
    obtain ⟨hit, hhit, rfl⟩ := List.mem_map.mp hf
    exact hscoped hit (List.mem_of_mem_drop (List.mem_of_mem_take hhit))
  · rfl

/-- The rows of a page of a recall have ids of the scope. -/
theorem insideId_of_recall (tenant : Tenant) :
    ∀ id ∈ (MemoryRecaller.recall model context store tenant.caller params).found.map Hit.id,
      insideId tenant.scope store id = true := by
  have hscoped : AllScoped store tenant.caller.groups (recallRows model context store tenant.caller params).1 :=
    allScoped_recallRows
  refine insideIds_of_allScoped (keysWithin_groups tenant) (hscoped.of_mem fun hit hhit => ?_)
  exact List.mem_of_mem_drop (List.mem_of_mem_take hhit)

/-- The previews, the surroundings and the key name of a row of the scope. -/
theorem recallEntry_view (tenant : Tenant) (hsealed : PreviewsSealed tenant.scope store) {hit : Hit}
    (hid : insideId tenant.scope store hit.id = true) :
    recallEntry context (view tenant.scope store) tenant.caller params hit =
      recallEntry context store tenant.caller params hit := by
  have hsource : ∀ source, searchBySource (view tenant.scope store) source tenant.caller.agentId tenant.caller.keyId =
      searchBySource store source tenant.caller.agentId tenant.caller.keyId :=
    fun source => searchBySource_view List.mem_cons_self
  simp only [recallEntry, fetchLinkedFragments, strongestLinked_view hsealed hid, nearbyContext, hsource, keyNameOf,
    byId_view_of_inside hid]

theorem toolRecall_view (tenant : Tenant)
    (hsealed : if params.caseMode then CasesSealed tenant.scope store
      else PreviewsSealed tenant.scope store ∧ ContradictionsSealed tenant.scope store) :
    toolRecall model context (view tenant.scope store) tenant.caller params =
      toolRecall model context store tenant.caller params := by
  have hkey : tenant.key ∈ tenant.scope := List.mem_cons_self
  have hresult : MemoryRecaller.recall model context (view tenant.scope store) tenant.caller params =
      MemoryRecaller.recall model context store tenant.caller params := by
    refine recall_view tenant fun hmode => ?_
    rw [if_pos hmode] at hsealed
    exact hsealed
  have hids : ∀ id ∈ (MemoryRecaller.recall model context store tenant.caller params).found.map Hit.id,
      insideId tenant.scope store id = true := insideId_of_recall tenant
  simp only [toolRecall, hresult]
  split
  · rfl
  · rename_i hcases
    have hmode : ¬ params.caseMode = true := by
      intro hmode
      simp only [MemoryRecaller.recall, hmode, if_true] at hcases
      cases hcases
    rw [if_neg hmode] at hsealed
    obtain ⟨hpreviews, hcontradictions⟩ := hsealed
    have hentries : ∀ hit ∈ (MemoryRecaller.recall model context store tenant.caller params).found,
        recallEntry context (view tenant.scope store) tenant.caller params hit =
          recallEntry context store tenant.caller params hit := by
      intro hit hhit
      have hid := hids hit.id (List.mem_map_of_mem hhit)
      exact recallEntry_view tenant hpreviews hid
    rw [hasPendingContradictions_view hcontradictions hids, List.map_congr_left hentries]

/-- The timeline of a tenant has live rows of its scope. -/
theorem inside_of_timeline (tenant : Tenant) {text : TextMatch} {params : HistoryParams} {f : Fragment}
    (h : f ∈ fetchTimeline text store tenant.caller params) :
    f ∈ store.fragments.rows ∧ inside tenant.scope f = true ∧ f.live = true := by
  obtain ⟨hrow, hcond⟩ := List.mem_filter.mp ((List.mem_insertionSort _).mp (List.mem_of_mem_take h))
  simp only [Bool.and_eq_true] at hcond
  have houtside : outside tenant.scope f = false :=
    inside_of_keyScope List.mem_cons_self tenant.groups_mem_scope hcond.1.1.2
  exact ⟨hrow, by rw [inside, houtside, Bool.not_false], hcond.2⟩

/-- The causal links at live rows of the scope. -/
theorem causalLinks_view (hsealed : ChainsSealed scope store) {rows : List Fragment}
    (hrows : ∀ f ∈ rows, f ∈ store.fragments.rows ∧ inside scope f = true ∧ f.live = true) :
    (fetchLinks (view scope store) (rows.map Fragment.id)).filter causalLink =
      (fetchLinks store (rows.map Fragment.id)).filter causalLink := by
  simp only [fetchLinks, view_links, List.filter_filter]
  refine List.filter_congr fun l hl => ?_
  rw [Bool.eq_iff_iff]
  simp only [Bool.and_eq_true, Bool.or_eq_true, List.contains_iff_mem, List.mem_map, Option.isNone_iff_eq_none]
  constructor
  · rintro ⟨hcausal, hat, -⟩
    exact ⟨hcausal, hat⟩
  · rintro ⟨hcausal, hends, hkept⟩
    refine ⟨hcausal, ⟨hends, hkept⟩, ?_⟩
    rcases hends with ⟨f, hf, hid⟩ | ⟨f, hf, hid⟩
    · obtain ⟨hrow, hinside, hlive⟩ := hrows f hf
      exact hsealed f hrow hinside hlive l hl hcausal hkept (by simp [Link.touches, hid])
    · obtain ⟨hrow, hinside, hlive⟩ := hrows f hf
      exact hsealed f hrow hinside hlive l hl hcausal hkept (by simp [Link.touches, hid])

/-- The events of a history with the rows that witness them. -/
theorem witnessedEvents_view (tenant : Tenant) {params : HistoryParams} :
    witnessedEvents (view tenant.scope store) tenant.caller (historyEvents store tenant.caller params) =
      witnessedEvents store tenant.caller (historyEvents store tenant.caller params) := by
  refine List.map_congr_left fun e he => ?_
  have hevent : e ∈ store.caseEvents ∧ e.keyId = some tenant.key := by
    simp only [historyEvents] at he
    rcases hcase : truthy params.caseId with _ | caseId
    · rw [hcase] at he
      cases he
    · rw [hcase] at he
      obtain ⟨hmem, hcond⟩ := List.mem_filter.mp ((List.mem_insertionSort _).mp (List.mem_of_mem_take he))
      rw [Bool.and_eq_true] at hcond
      exact ⟨hmem, of_decide_eq_true hcond.2⟩
  have hevidence : getEvidenceByEvent (view tenant.scope store) e.eventId tenant.caller.keyId =
      getEvidenceByEvent store e.eventId tenant.caller.keyId :=
    getEvidenceByEvent_view List.mem_cons_self hevent.1 hevent.2
  rw [hevidence]

/-- The chains over live rows of the scope. -/
theorem historyChains_view (hsealed : ChainsSealed scope store) {timeline : List Fragment}
    (htimeline : ∀ f ∈ timeline, f ∈ store.fragments.rows ∧ inside scope f = true ∧ f.live = true)
    (eventDag : List CaseEventEdge) :
    historyChains (view scope store) timeline eventDag = historyChains store timeline eventDag := by
  have hlinks := causalLinks_view hsealed htimeline
  simp only [historyChains, causalEdges]
  split
  · rfl
  · rw [hlinks]

theorem reconstruct_view (tenant : Tenant) (hsealed : ChainsSealed tenant.scope store) {text : TextMatch}
    {params : HistoryParams} :
    reconstruct text (view tenant.scope store) tenant.caller params =
      reconstruct text store tenant.caller params := by
  have hkey : tenant.key ∈ tenant.scope := List.mem_cons_self
  have htimeline : fetchTimeline text (view tenant.scope store) tenant.caller params =
      fetchTimeline text store tenant.caller params := fetchTimeline_view hkey rfl tenant.groups_mem_scope
  have hevents : historyEvents (view tenant.scope store) tenant.caller params =
      historyEvents store tenant.caller params := by
    have hcase : ∀ caseId, getByCase (view tenant.scope store) caseId none 100 tenant.caller.keyId =
        getByCase store caseId none 100 tenant.caller.keyId := fun caseId => getByCase_view hkey
    simp only [historyEvents, hcase]
  have hdag : ∀ events, historyDag (view tenant.scope store) tenant.caller events =
      historyDag store tenant.caller events := by
    intro events
    have hedges : ∀ ids, getEdgesByEvents (view tenant.scope store) ids tenant.caller.keyId =
        getEdgesByEvents store ids tenant.caller.keyId := fun ids => getEdgesByEvents_view hkey
    simp only [historyDag, hedges]
  have hchains : ∀ dag, historyChains (view tenant.scope store) (fetchTimeline text store tenant.caller params) dag =
      historyChains store (fetchTimeline text store tenant.caller params) dag :=
    historyChains_view hsealed fun f hf => inside_of_timeline tenant hf
  simp only [reconstruct, htimeline, hevents, hdag, hchains, witnessedEvents_view]

/-- What a tenant may ask of its memory. -/
inductive ReadRequest
  | «recall» (params : RecallParams)
  | reconstruct (params : HistoryParams)

inductive ReadResponse
  | recalled (response : RecallResponse)
  | reconstructed (history : Option History)
  deriving DecidableEq

def respond (model : SearchModel) (context : RecallContext) (text : TextMatch) (store : Store) (tenant : Tenant) :
    ReadRequest → ReadResponse
  | ReadRequest.recall params => .recalled (toolRecall model context store tenant.caller params)
  | .reconstruct params => .reconstructed (reconstruct text store tenant.caller params)

/-- The queries of a request that have no key clause meet what belongs to the scope only. -/
def Sealed (scope : List KeyId) (store : Store) : ReadRequest → Prop
  | ReadRequest.recall params =>
    if params.caseMode then CasesSealed scope store else PreviewsSealed scope store ∧ ContradictionsSealed scope store
  | .reconstruct _ => ChainsSealed scope store

/-- A request whose unkeyed queries stay in the scope is answered from the tenant's view. -/
theorem respond_view (text : TextMatch) (tenant : Tenant) {request : ReadRequest}
    (hsealed : Sealed tenant.scope store request) :
    respond model context text (view tenant.scope store) tenant request =
      respond model context text store tenant request := by
  cases request with
  | «recall» params =>
    exact congrArg ReadResponse.recalled (toolRecall_view tenant hsealed)
  | reconstruct params =>
    exact congrArg ReadResponse.reconstructed (reconstruct_view tenant hsealed)

def sampleModel : SearchModel where
  tools := sampleTools
  implicitTokens _ := []
  rankScore _ _ := 0
  recallScore _ _ := 0

def sampleContext : RecallContext where
  now := 9

def sampleText : TextMatch where
  contains text part := part.toList <:+: text.toList
  toLowerCase := id

def sampleTenant : Tenant where
  key := sampleKey

def sampleRecall : ReadRequest := ReadRequest.recall { keywords := ["vpn"] }

/-- A row of the sample key beside a row of another with a given content. -/
def twoTenants (content : String) (links : List Link) : Store where
  fragments := [sampleFragment, { sampleFragment with id := "frag-02", content := content, keyId := some otherKey }].foldl
    (fun table f => (table.insert f).getD table) Table.empty
  links := links.foldl (fun table l => (table.insert l).getD table) Table.empty

def crossLink : Link where
  fromId := "frag-01"
  toId := "frag-02"
  relationType := .related

theorem twoTenants_agree {links : List Link} (hlinks : links = [] ∨ links = [crossLink]) :
    view sampleTenant.scope (twoTenants "vault token rotated" links) =
      view sampleTenant.scope (twoTenants "staging db restored" links) := by
  rcases hlinks with rfl | rfl
  · exact view_eq (by decide +kernel) (by decide +kernel) rfl rfl rfl rfl
  · exact view_eq (by decide +kernel) (by decide +kernel) rfl rfl rfl rfl

end FragmentMemory.TenantReadIsolation
