import FragmentMemory.RecallScope
import FragmentMemory.HistoryReconstructor
import FragmentMemory.TenantWriteIsolation
import FragmentMemory.VisibleRows

/-! # What a scope shows of a store

The view of a scope holds the rows, links, events, edges, evidence and index members of its keys and
nothing else.  Every query with the key clause of a caller in the scope reads the view and the store
alike.
-/
namespace FragmentMemory.TenantView
open ApiKeyStore FragmentTables FragmentWriter FragmentReader CaseEventStore RecallQueries RecallScope MemoryRecaller
  HistoryReconstructor TenantFrame TenantWriteIsolation UniqueIndexTable VisibleRows
open MemoryRememberer (Caller Caller.groups)

/-- A row under a key of the scope. -/
def inside (scope : List KeyId) (f : Fragment) : Bool := !outside scope f

def insideId (scope : List KeyId) (store : Store) (id : FragmentId) : Bool :=
  store.fragments.rows.any fun f => f.id = id && inside scope f

/-- A link between two rows of the scope. -/
def insideLink (scope : List KeyId) (store : Store) (l : Link) : Bool :=
  insideId scope store l.fromId && insideId scope store l.toId

def insideEvent (scope : List KeyId) (e : CaseEvent) : Bool := e.keyId.any scope.contains

def insideEventId (scope : List KeyId) (store : Store) (id : String) : Bool :=
  store.caseEvents.any fun e => e.eventId = id && insideEvent scope e

def insideEdge (scope : List KeyId) (store : Store) (edge : CaseEventEdge) : Bool :=
  insideEventId scope store edge.fromEventId && insideEventId scope store edge.toEventId

def insideEvidence (scope : List KeyId) (store : Store) (evidence : Evidence) : Bool :=
  insideId scope store evidence.fragmentId && insideEventId scope store evidence.eventId

/-- The key namespace of an index set; the set of a session has none. -/
def namespaceOf : IndexSet → Option KeyId
  | .keyword space _ | .topic space _ | .type space _ | .recent space | .hot space => space
  | .session _ => none

def insideMember (scope : List KeyId) (member : IndexSet × FragmentId) : Bool :=
  (namespaceOf member.1).any scope.contains

/-- The part of a store that belongs to the keys of a scope. -/
def view (scope : List KeyId) (store : Store) : Store where
  fragments := store.fragments.delete (outside scope)
  links := store.links.delete fun l => !insideLink scope store l
  caseEvents := store.caseEvents.filter (insideEvent scope)
  caseEventEdges := store.caseEventEdges.filter (insideEdge scope store)
  evidence := store.evidence.filter (insideEvidence scope store)
  index := store.index.filter (insideMember scope)

/-- The key clause of a caller whose keys are all in the scope. -/
def KeysWithin (scope : List KeyId) (keyIds : Option (List KeyId)) : Prop :=
  ∃ members, keyIds = some members ∧ ∀ member ∈ members, member ∈ scope

variable {scope : List KeyId} {store : Store} {q : SearchQuery}

theorem view_rows : (view scope store).fragments.rows = store.fragments.rows.filter (inside scope) := rfl

theorem view_links : (view scope store).links.rows = store.links.rows.filter (insideLink scope store) := by
  simp only [view, Table.delete, Bool.not_not]

/-- Stores that agree on what belongs to the scope have the same view. -/
theorem view_eq {other : Store}
    (hrows : store.fragments.rows.filter (inside scope) = other.fragments.rows.filter (inside scope))
    (hlinks : store.links.rows.filter (insideLink scope store) = other.links.rows.filter (insideLink scope other))
    (hevents : store.caseEvents.filter (insideEvent scope) = other.caseEvents.filter (insideEvent scope))
    (hedges : store.caseEventEdges.filter (insideEdge scope store) =
      other.caseEventEdges.filter (insideEdge scope other))
    (hevidence : store.evidence.filter (insideEvidence scope store) =
      other.evidence.filter (insideEvidence scope other))
    (hindex : store.index.filter (insideMember scope) = other.index.filter (insideMember scope)) :
    view scope store = view scope other := by
  have hfragments : (view scope store).fragments = (view scope other).fragments := Table.ext hrows
  have hlinkTable : (view scope store).links = (view scope other).links := by
    refine Table.ext ?_
    rw [view_links, view_links, hlinks]
  simp only [view, Store.mk.injEq] at hfragments hlinkTable ⊢
  exact ⟨hfragments, hlinkTable, hevents, hedges, hevidence, hindex⟩

theorem insideId_iff {id : FragmentId} :
    insideId scope store id = true ↔ ∃ f ∈ store.fragments.rows, f.id = id ∧ inside scope f = true := by
  simp only [insideId, List.any_eq_true, Bool.and_eq_true, decide_eq_true_eq]

theorem insideId_of_mem {f : Fragment} (hf : f ∈ store.fragments.rows) (hinside : inside scope f = true) :
    insideId scope store f.id = true := insideId_iff.mpr ⟨f, hf, rfl, hinside⟩

theorem inside_of_byId {id : FragmentId} {f : Fragment} (h : store.fragments.byId id = some f) :
    inside scope f = insideId scope store id := by
  obtain ⟨hrow, hid⟩ := (byId_eq_some_iff _).mp h
  rw [Bool.eq_iff_iff, insideId_iff]
  constructor
  · intro hinside
    exact ⟨f, hrow, hid, hinside⟩
  · rintro ⟨g, hg, hgid, hinside⟩
    rw [eq_of_id _ hrow hg (hid.trans hgid.symm)]
    exact hinside

/-- A row of the view is found by its id, another is not. -/
theorem byId_view {id : FragmentId} :
    (view scope store).fragments.byId id = (store.fragments.byId id).filter (inside scope) := by
  ext f
  rw [byId_eq_some_iff, Option.filter_eq_some_iff, byId_eq_some_iff, view_rows, List.mem_filter]
  constructor
  · rintro ⟨⟨hrow, hinside⟩, hid⟩
    exact ⟨⟨hrow, hid⟩, hinside⟩
  · rintro ⟨⟨hrow, hid⟩, hinside⟩
    exact ⟨⟨hrow, hinside⟩, hid⟩

theorem byId_view_of_inside {id : FragmentId} (h : insideId scope store id = true) :
    (view scope store).fragments.byId id = store.fragments.byId id := by
  rw [byId_view]
  rcases hfound : store.fragments.byId id with _ | f
  · rfl
  · exact Option.filter_eq_some_iff.mpr ⟨rfl, by rw [inside_of_byId hfound, h]⟩

theorem inside_of_keyCond {keyIds : Option (List KeyId)} (hkeys : KeysWithin scope keyIds) {f : Fragment}
    (h : keyCond keyIds f = true) : inside scope f = true := by
  obtain ⟨members, rfl, hmembers⟩ := hkeys
  obtain ⟨owner, howner, hin⟩ := any_contains_iff.mp h
  have houtside := outside_eq_false_iff.mpr ⟨owner, howner, hmembers owner hin⟩
  simp only [inside, houtside, Bool.not_false]

/-- A selection of rows of the scope. -/
theorem select_view {p : Fragment → Bool} (hp : ∀ f, p f = true → inside scope f = true) :
    (view scope store).fragments.rows.filter p = store.fragments.rows.filter p :=
  filter_visible (fun f _ => hp f) fun _ _ _ => rfl

section Searches
variable (hkeys : KeysWithin scope q.keyIds)
include hkeys

theorem searchByKeywords_view {keywords : List String} :
    searchByKeywords (view scope store) q keywords = searchByKeywords store q keywords := by
  simp only [searchByKeywords]
  rw [select_view]
  intro f hf
  simp only [Bool.and_eq_true] at hf
  exact inside_of_keyCond hkeys (metadataCond_key hf.1.1.1)

theorem searchTopicRows_view {topic : String} :
    searchTopicRows (view scope store) q topic = searchTopicRows store q topic := by
  simp only [searchTopicRows]
  rw [select_view]
  intro f hf
  simp only [Bool.and_eq_true] at hf
  exact inside_of_keyCond hkeys (metadataCond_key hf.1)

theorem searchBySemantic_view {similarity : Fragment → Option ℚ} {minSimilarity : ℚ} {limit : ℕ} {affectOn : Bool} :
    searchBySemantic (view scope store) q similarity minSimilarity limit affectOn =
      searchBySemantic store q similarity minSimilarity limit affectOn := by
  simp only [searchBySemantic]
  rw [select_view]
  intro f hf
  simp only [Bool.and_eq_true] at hf
  exact inside_of_keyCond hkeys (rowCond_key hf.1.1)

theorem searchByTimeRange_view : searchByTimeRange (view scope store) q = searchByTimeRange store q := by
  simp only [searchByTimeRange]
  rw [select_view]
  intro f hf
  simp only [Bool.and_eq_true] at hf
  exact inside_of_keyCond hkeys (rowCond_key hf.1)

theorem getScopedByIds_view {ids : List FragmentId} :
    getScopedByIds (view scope store) q ids = getScopedByIds store q ids := by
  simp only [getScopedByIds]
  rw [select_view]
  intro f hf
  simp only [Bool.and_eq_true] at hf
  exact inside_of_keyCond hkeys hf.2

end Searches

/-- The members of an index set in a namespace of the scope. -/
theorem members_view {key : IndexSet} (hkey : (namespaceOf key).any scope.contains = true) :
    members (view scope store) key = members store key := by
  have hsets : (view scope store).index.filter (fun member => member.1 = key) =
      store.index.filter fun member => member.1 = key := by
    refine filter_visible (fun member _ hmember => ?_) fun _ _ _ => rfl
    simp only [insideMember, of_decide_eq_true hmember, hkey]
  simp only [members, hsets]

section Index
variable (hkeys : KeysWithin scope q.keyIds)
include hkeys

theorem namespaces_within : ∀ space ∈ namespaces q.keyIds, space.any scope.contains = true := by
  obtain ⟨keys, hq, hmembers⟩ := hkeys
  rw [hq]
  intro space hspace
  obtain ⟨key, hkey, rfl⟩ := List.mem_map.mp hspace
  exact any_contains_iff.mpr ⟨key, rfl, hmembers key hkey⟩

/-- Lookups that agree in the namespaces of the scope. -/
theorem union_view {fetch other : Option KeyId → List FragmentId}
    (h : ∀ space, space.any scope.contains = true → fetch space = other space) :
    unionFromNamespaces q.keyIds fetch = unionFromNamespaces q.keyIds other := by
  have hspaces : ∀ space ∈ namespaces q.keyIds, fetch space = other space :=
    fun space hspace => h space (namespaces_within hkeys space hspace)
  simp only [unionFromNamespaces]
  rw [List.flatMap_congr hspaces]

theorem searchL1_view {tools : FragmentFactory.TextTools} {ready : Bool}
    {recency : Option KeyId → FragmentId → ℕ} :
    searchL1 tools ready recency (view scope store) q = searchL1 tools ready recency store q := by
  have hkeywords : unionFromNamespaces q.keyIds (keywordMembers tools (view scope store) q.keywords) =
      unionFromNamespaces q.keyIds (keywordMembers tools store q.keywords) := by
    refine union_view hkeys fun space hspace => ?_
    have hword : ∀ word, members (view scope store) (.keyword space word) = members store (.keyword space word) :=
      fun word => members_view hspace
    simp only [keywordMembers, hword]
  have htopic : ∀ topic, unionFromNamespaces q.keyIds (fun space => members (view scope store) (.topic space topic)) =
      unionFromNamespaces q.keyIds fun space => members store (.topic space topic) :=
    fun topic => union_view hkeys fun space hspace => members_view hspace
  have htype : ∀ type, unionFromNamespaces q.keyIds (fun space => members (view scope store) (.type space type)) =
      unionFromNamespaces q.keyIds fun space => members store (.type space type) :=
    fun type => union_view hkeys fun space hspace => members_view hspace
  have hrecent : unionFromNamespaces q.keyIds (fun space => ((members (view scope store) (.recent space)).insertionSort
        fun a b => recency space b ≤ recency space a).take 20) =
      unionFromNamespaces q.keyIds fun space => ((members store (.recent space)).insertionSort
        fun a b => recency space b ≤ recency space a).take 20 := by
    refine union_view hkeys fun space hspace => ?_
    have hmembers : members (view scope store) (.recent space) = members store (.recent space) :=
      members_view hspace
    rw [hmembers]
  simp only [searchL1, hkeywords, htopic, htype, hrecent]

theorem tryHotCache_view {ready : Bool} {ids : List FragmentId} :
    tryHotCache ready (view scope store) q ids = tryHotCache ready store q ids := by
  have hhot : ∀ id, (namespaces q.keyIds).any (fun space => (view scope store).index.contains (.hot space, id)) =
      (namespaces q.keyIds).any fun space => store.index.contains (.hot space, id) := by
    intro id
    rw [Bool.eq_iff_iff, List.any_eq_true, List.any_eq_true]
    have hmember : ∀ space ∈ namespaces q.keyIds, ((view scope store).index.contains (.hot space, id) = true ↔
        store.index.contains (.hot space, id) = true) := by
      intro space hspace
      have hinside : insideMember scope (.hot space, id) = true := namespaces_within hkeys space hspace
      rw [List.contains_iff_mem, List.contains_iff_mem, view, List.mem_filter]
      exact and_iff_left hinside
    constructor
    · rintro ⟨space, hspace, hmem⟩
      exact ⟨space, hspace, (hmember space hspace).mp hmem⟩
    · rintro ⟨space, hspace, hmem⟩
      exact ⟨space, hspace, (hmember space hspace).mpr hmem⟩
  simp only [tryHotCache, hhot, getScopedByIds_view hkeys]

end Index

/-- The joined rows of a condition that admits rows of the scope only, at ids of the scope. -/
theorem neighborRows_view {ids : List FragmentId} {chosen : Link → Bool} {skipped : FragmentId → Bool}
    {keep : Fragment → Bool} (hids : ∀ id ∈ ids, insideId scope store id = true)
    (hkeep : ∀ f, keep f = true → inside scope f = true) :
    neighborRows (view scope store) ids chosen skipped keep = neighborRows store ids chosen skipped keep := by
  have hjoin : ∀ id, ((view scope store).fragments.byId id).filter keep = (store.fragments.byId id).filter keep := by
    intro id
    rw [byId_view]
    rcases store.fragments.byId id with _ | f
    · rfl
    · simp only [Option.filter_some]
      rcases hinside : inside scope f with _ | _
      · rcases hf : keep f with _ | _
        · rfl
        · rw [hkeep f hf] at hinside
          cases hinside
      · rfl
  have hhidden : ∀ id, insideId scope store id = false → (store.fragments.byId id).filter keep = none := by
    intro id hid
    rw [Option.filter_eq_none_iff]
    intro f hf hk
    rw [← inside_of_byId hf, hkeep f hk] at hid
    cases hid
  simp only [neighborRows, view_links, hjoin]
  congr 1
  · refine filterMap_visible (fun l _ hl => ?_) fun _ _ _ => rfl
    split
    · rename_i hcond
      simp only [Bool.and_eq_true, List.contains_iff_mem] at hcond
      rw [insideLink, hids _ hcond.1.1.1, Bool.true_and] at hl
      rw [hhidden _ hl]
      rfl
    · rfl
  · refine filterMap_visible (fun l _ hl => ?_) fun _ _ _ => rfl
    split
    · rename_i hcond
      simp only [Bool.and_eq_true, List.contains_iff_mem] at hcond
      rw [insideLink, hids _ hcond.1.1.1, Bool.and_true] at hl
      rw [hhidden _ hl]
      rfl
    · rfl

theorem fetchGraphNeighbors_view (hkeys : KeysWithin scope q.keyIds) {graphScore : Link → ℚ}
    {seedIds : List FragmentId} (hids : ∀ id ∈ seedIds, insideId scope store id = true) :
    fetchGraphNeighbors graphScore (view scope store) q seedIds = fetchGraphNeighbors graphScore store q seedIds := by
  simp only [fetchGraphNeighbors]
  rw [neighborRows_view hids]
  intro f hf
  simp only [Bool.and_eq_true] at hf
  exact inside_of_keyCond hkeys hf.1.1.2

theorem getLinkedFragments_view (hkeys : KeysWithin scope q.keyIds) {fromIds : List FragmentId}
    {relationType : Option RelationType} (hids : ∀ id ∈ fromIds, insideId scope store id = true) :
    getLinkedFragments (view scope store) q fromIds relationType = getLinkedFragments store q fromIds relationType := by
  simp only [getLinkedFragments]
  rw [neighborRows_view hids]
  intro f hf
  simp only [Bool.and_eq_true] at hf
  exact inside_of_keyCond hkeys hf.1.1.2

section Owned
variable {key : KeyId} (hkey : key ∈ scope)
include hkey

theorem inside_of_owner {f : Fragment} (h : f.keyId = some key) : inside scope f = true := by
  rw [inside, outside_eq_false_iff.mpr ⟨key, h, hkey⟩, Bool.not_false]

theorem insideEvent_of_owner {e : CaseEvent} (h : e.keyId = some key) : insideEvent scope e = true :=
  any_contains_iff.mpr ⟨key, h, hkey⟩

theorem searchBySource_view {source agentId : String} :
    searchBySource (view scope store) source agentId (some key) = searchBySource store source agentId (some key) := by
  simp only [searchBySource]
  rw [select_view]
  intro f hf
  simp only [Bool.and_eq_true] at hf
  have houtside := inside_of_ownedBy hkey hf.2
  rw [inside, houtside, Bool.not_false]

theorem caseFragments_view {caseIds : List String} :
    caseFragments (view scope store) caseIds (some key) = caseFragments store caseIds (some key) := by
  simp only [caseFragments]
  rw [select_view]
  intro f hf
  simp only [Bool.and_eq_true, Option.isNone_some, Bool.false_or, decide_eq_true_eq] at hf
  exact inside_of_owner hkey hf.2

theorem fragmentCount_view : fragmentCount (view scope store) (some key) = fragmentCount store (some key) := by
  simp only [fragmentCount]
  rw [select_view]
  intro f hf
  simp only [Bool.and_eq_true, decide_eq_true_eq] at hf
  exact inside_of_owner hkey hf.1

theorem getByCase_view {caseId : String} {eventType : Option EventType} {limit : ℕ} :
    getByCase (view scope store) caseId eventType limit (some key) =
      getByCase store caseId eventType limit (some key) := by
  simp only [getByCase, view]
  rw [filter_visible (fun e _ he => ?_) fun _ _ _ => rfl]
  simp only [Bool.and_eq_true, Option.isNone_some, Bool.false_or, decide_eq_true_eq] at he
  exact insideEvent_of_owner hkey he.2

theorem getEdgesByEvents_view {eventIds : List String} :
    getEdgesByEvents (view scope store) eventIds (some key) = getEdgesByEvents store eventIds (some key) := by
  have howned : ∀ id : String, (view scope store).caseEvents.any (fun e => e.eventId = id && e.keyId = some key) =
      store.caseEvents.any fun e => e.eventId = id && e.keyId = some key := by
    intro id
    refine any_visible (fun e _ he => ?_) fun _ _ _ => rfl
    simp only [Bool.and_eq_true, decide_eq_true_eq] at he
    exact insideEvent_of_owner hkey he.2
  have hinside : ∀ id : String, (store.caseEvents.any fun e => e.eventId = id && e.keyId = some key) = true →
      insideEventId scope store id = true := by
    intro id h
    obtain ⟨e, he, hcond⟩ := List.any_eq_true.mp h
    simp only [Bool.and_eq_true, decide_eq_true_eq] at hcond
    refine List.any_eq_true.mpr ⟨e, he, ?_⟩
    rw [insideEvent_of_owner hkey hcond.2, Bool.and_true]
    exact decide_eq_true hcond.1
  simp only [getEdgesByEvents, howned]
  refine filter_visible (fun edge _ hedge => ?_) fun _ _ _ => rfl
  simp only [Bool.and_eq_true, Option.isNone_some, Bool.false_or] at hedge
  rw [insideEdge, hinside _ hedge.2.1, hinside _ hedge.2.2]
  rfl

theorem getEvidenceByEvent_view {e : CaseEvent} (he : e ∈ store.caseEvents) (howner : e.keyId = some key) :
    getEvidenceByEvent (view scope store) e.eventId (some key) = getEvidenceByEvent store e.eventId (some key) := by
  have hevent : insideEventId scope store e.eventId = true := by
    refine List.any_eq_true.mpr ⟨e, he, ?_⟩
    rw [insideEvent_of_owner hkey howner, Bool.and_true]
    exact decide_eq_true rfl
  simp only [getEvidenceByEvent]
  refine filterMap_visible (fun evidence _ hhidden => ?_) fun evidence _ hvisible => ?_
  · split
    · rename_i hid
      rw [insideEvidence, hid, hevent, Bool.and_true] at hhidden
      rw [Option.map_eq_none_iff, Option.filter_eq_none_iff]
      intro f hf hkeep
      simp only [Option.isNone_some, Bool.false_or, decide_eq_true_eq] at hkeep
      rw [← inside_of_byId hf, inside_of_owner hkey hkeep] at hhidden
      cases hhidden
    · rfl
  · rw [insideEvidence, Bool.and_eq_true] at hvisible
    rw [byId_view_of_inside hvisible.1]

theorem fetchTimeline_view {text : TextMatch} {caller : Caller} {params : HistoryParams}
    (howner : caller.keyId = some key) (hgroups : ∀ member ∈ caller.groups.getD [], member ∈ scope) :
    fetchTimeline text (view scope store) caller params = fetchTimeline text store caller params := by
  simp only [fetchTimeline]
  rw [select_view]
  intro f hf
  simp only [Bool.and_eq_true] at hf
  have hscope := hf.1.1.2
  rw [howner] at hscope
  rw [inside, inside_of_keyScope hkey hgroups hscope, Bool.not_false]

end Owned
end FragmentMemory.TenantView
