import FragmentMemory.MemoryRecaller
import FragmentMemory.SearchProvenance

/-! # The rows of a recall are in the scope of its key

Every query of a search has the key clause of its caller, and the stages after the queries only
select, reorder and mark what the queries found.
-/
namespace FragmentMemory.RecallScope
open ApiKeyStore FragmentTables FragmentReader RecallQueries FragmentSearch MemoryRecaller SearchProvenance
open MemoryRememberer (Caller Caller.groups)

/-- A result row that stems from a stored one under the key clause, and carries its case or none. -/
def Scoped (store : Store) (keyIds : Option (List KeyId)) (f : Fragment) : Prop :=
  ∃ g ∈ store.fragments.rows, keyCond keyIds g = true ∧ f.id = g.id ∧ (f.caseId = g.caseId ∨ f.caseId = none)

/-- How a query shows a stored row: the columns that it does not select are missing. -/
structure Shown (g f : Fragment) : Prop where
  id : f.id = g.id
  createdAt : f.createdAt = g.createdAt
  caseId : f.caseId = g.caseId ∨ f.caseId = none
  sessionId : f.sessionId = g.sessionId ∨ f.sessionId = none

/-- A result row that shows a stored one under the key clause. -/
def Read (store : Store) (keyIds : Option (List KeyId)) (f : Fragment) : Prop :=
  ∃ g ∈ store.fragments.rows, keyCond keyIds g = true ∧ Shown g f

def AllRead (store : Store) (keyIds : Option (List KeyId)) (found : List Hit) : Prop :=
  ∀ hit ∈ found, Read store keyIds hit.row

def AllScoped (store : Store) (keyIds : Option (List KeyId)) (found : List Hit) : Prop :=
  ∀ hit ∈ found, Scoped store keyIds hit.row

variable {store : Store} {keyIds : Option (List KeyId)} {q : SearchQuery} {model : SearchModel}
  {context : SearchContext}

theorem Shown.refl (f : Fragment) : Shown f f := ⟨rfl, rfl, Or.inl rfl, Or.inl rfl⟩

theorem read_of_mem {f : Fragment} (hf : f ∈ store.fragments.rows) (hkey : keyCond keyIds f = true) :
    Read store keyIds f := ⟨f, hf, hkey, Shown.refl f⟩

theorem read_neighborColumns {f : Fragment} (h : Read store keyIds f) :
    Read store keyIds (neighborColumns f) := by
  obtain ⟨g, hg, hkey, hshown⟩ := h
  exact ⟨g, hg, hkey, hshown.id, hshown.createdAt, Or.inr rfl, Or.inr rfl⟩

namespace AllRead

theorem of_rowsAmong {found more : List Hit} (h : AllRead store keyIds more) (hrows : RowsAmong found more) :
    AllRead store keyIds found := by
  intro hit hhit
  obtain ⟨other, hother, hrow⟩ := hrows hit hhit
  rw [← hrow]
  exact h other hother

theorem of_mem {found more : List Hit} (h : AllRead store keyIds more) (hsub : ∀ hit ∈ found, hit ∈ more) :
    AllRead store keyIds found := fun hit hhit => h hit (hsub hit hhit)

theorem append {found more : List Hit} (h : AllRead store keyIds found) (h' : AllRead store keyIds more) :
    AllRead store keyIds (found ++ more) := by
  intro hit hhit
  rcases List.mem_append.mp hhit with hfound | hmore
  · exact h hit hfound
  · exact h' hit hmore

theorem filter {found : List Hit} (h : AllRead store keyIds found) (p : Hit → Bool) :
    AllRead store keyIds (found.filter p) := h.of_mem fun _ hhit => (List.mem_filter.mp hhit).1

theorem hits {rows : List Fragment} (h : ∀ f ∈ rows, Read store keyIds f) :
    AllRead store keyIds (hits rows) := by
  intro hit hhit
  obtain ⟨f, hf, rfl⟩ := List.mem_map.mp hhit
  exact h f hf

theorem allScoped {found : List Hit} (h : AllRead store keyIds found) : AllScoped store keyIds found := by
  intro hit hhit
  obtain ⟨g, hg, hkey, hshown⟩ := h hit hhit
  exact ⟨g, hg, hkey, hshown.id, hshown.caseId⟩

end AllRead

theorem AllScoped.of_mem {found more : List Hit} (h : AllScoped store keyIds more) (hsub : ∀ hit ∈ found, hit ∈ more) :
    AllScoped store keyIds found := fun hit hhit => h hit (hsub hit hhit)

theorem rowCond_key {f : Fragment} (h : q.rowCond f = true) : keyCond q.keyIds f = true := by
  simp only [SearchQuery.rowCond, Bool.and_eq_true] at h
  exact h.1.1.1.2

theorem metadataCond_key {f : Fragment} (h : q.metadataCond f = true) : keyCond q.keyIds f = true := by
  simp only [SearchQuery.metadataCond, Bool.and_eq_true] at h
  exact rowCond_key h.1.1.1.1

theorem read_searchByKeywords {keywords : List String} :
    ∀ f ∈ searchByKeywords store q keywords, Read store q.keyIds f := by
  intro f hf
  have hsorted := (List.mem_insertionSort _).mp (List.mem_of_mem_take hf)
  obtain ⟨hrow, hcond⟩ := List.mem_filter.mp hsorted
  simp only [Bool.and_eq_true] at hcond
  exact read_of_mem hrow (metadataCond_key hcond.1.1.1)

theorem read_searchTopicRows {topic : String} : ∀ f ∈ searchTopicRows store q topic, Read store q.keyIds f := by
  intro f hf
  have hsorted := (List.mem_insertionSort _).mp (List.mem_of_mem_take hf)
  obtain ⟨hrow, hcond⟩ := List.mem_filter.mp hsorted
  simp only [Bool.and_eq_true] at hcond
  exact read_of_mem hrow (metadataCond_key hcond.1)

theorem read_searchByTimeRange : ∀ f ∈ searchByTimeRange store q, Read store q.keyIds f := by
  intro f hf
  have hsorted := (List.mem_insertionSort _).mp (List.mem_of_mem_take hf)
  obtain ⟨hrow, hcond⟩ := List.mem_filter.mp hsorted
  simp only [Bool.and_eq_true] at hcond
  exact read_of_mem hrow (rowCond_key hcond.1)

theorem read_getScopedByIds {ids : List FragmentId} :
    ∀ f ∈ getScopedByIds store q ids, Read store q.keyIds f := by
  intro f hf
  obtain ⟨hrow, hcond⟩ := List.mem_filter.mp ((List.mem_insertionSort _).mp hf)
  simp only [Bool.and_eq_true] at hcond
  exact read_of_mem hrow hcond.2

theorem allRead_searchBySemantic {similarity : Fragment → Option ℚ} {minSimilarity : ℚ} {limit : ℕ}
    {affectOn : Bool} :
    AllRead store q.keyIds (searchBySemantic store q similarity minSimilarity limit affectOn) := by
  intro hit hhit
  obtain ⟨f, hf, rfl⟩ := List.mem_map.mp hhit
  obtain ⟨hrow, hcond⟩ := List.mem_filter.mp ((List.mem_insertionSort _).mp (List.mem_of_mem_take hf))
  simp only [Bool.and_eq_true] at hcond
  exact read_of_mem hrow (rowCond_key hcond.1.1)

/-- The rows that a neighbour query joins are stored rows that its condition admits. -/
theorem mem_neighborRows {ids : List FragmentId} {chosen : Link → Bool} {skipped : FragmentId → Bool}
    {keep : Fragment → Bool} {item : Fragment × Link} (h : item ∈ neighborRows store ids chosen skipped keep) :
    item.1 ∈ store.fragments.rows ∧ keep item.1 = true := by
  have hjoin : ∀ (id : FragmentId) (l : Link),
      (((store.fragments.byId id).filter keep).map fun f => (f, l)) = some item →
        item.1 ∈ store.fragments.rows ∧ keep item.1 = true := by
    intro id l hitem
    obtain ⟨f, hf, rfl⟩ := Option.map_eq_some_iff.mp hitem
    obtain ⟨hfound, hkeep⟩ := Option.filter_eq_some_iff.mp hf
    exact ⟨((byId_eq_some_iff _).mp hfound).1, hkeep⟩
  rcases List.mem_append.mp h with hforward | hbackward
  · obtain ⟨l, -, hl⟩ := List.mem_filterMap.mp hforward
    split at hl
    · exact hjoin _ _ hl
    · cases hl
  · obtain ⟨l, -, hl⟩ := List.mem_filterMap.mp hbackward
    split at hl
    · exact hjoin _ _ hl
    · cases hl

theorem mem_of_mem_distinctOnId {items : List (Fragment × Link)} {item : Fragment × Link}
    (h : item ∈ distinctOnId items) : item ∈ items := by
  induction items with
  | nil => exact h
  | cons first later ih =>
    rcases List.mem_cons.mp h with rfl | hlater
    · exact List.mem_cons_self
    · exact List.mem_cons_of_mem _ (ih (List.mem_filter.mp hlater).1)

theorem read_fetchGraphNeighbors {graphScore : Link → ℚ} {seedIds : List FragmentId} :
    ∀ f ∈ fetchGraphNeighbors graphScore store q seedIds, Read store q.keyIds f := by
  intro f hf
  obtain ⟨item, hitem, rfl⟩ := List.mem_map.mp hf
  have hstrongest := List.mem_of_mem_take ((List.mem_insertionSort _).mp hitem)
  have hdistinct := mem_of_mem_distinctOnId ((List.mem_insertionSort _).mp hstrongest)
  obtain ⟨hrow, hkeep⟩ := mem_neighborRows ((List.mem_insertionSort _).mp hdistinct)
  simp only [Bool.and_eq_true] at hkeep
  exact read_neighborColumns (read_of_mem hrow hkeep.1.1.2)

theorem read_getLinkedFragments {fromIds : List FragmentId} {relationType : Option RelationType} :
    ∀ f ∈ getLinkedFragments store q fromIds relationType, Read store q.keyIds f := by
  intro f hf
  obtain ⟨item, hitem, rfl⟩ := List.mem_map.mp hf
  have hdistinct := mem_of_mem_distinctOnId (List.mem_of_mem_take hitem)
  obtain ⟨hrow, hkeep⟩ := mem_neighborRows ((List.mem_insertionSort _).mp hdistinct)
  simp only [Bool.and_eq_true] at hkeep
  obtain ⟨g, hg, hkey, hshown⟩ := read_neighborColumns (read_of_mem hrow hkeep.1.1.2)
  exact ⟨g, hg, hkey, hshown.id, hshown.createdAt, hshown.caseId, hshown.sessionId⟩

theorem read_searchMetadata : ∀ f ∈ searchMetadata model store q, Read store q.keyIds f := by
  have hkeywords : ∀ keywords : List String,
      ∀ f ∈ (if keywords.isEmpty then [] else searchByKeywords store q keywords), Read store q.keyIds f := by
    intro keywords f hf
    split at hf
    · cases hf
    · exact read_searchByKeywords f hf
  have htopic : ∀ f ∈ q.topic.elim [] (searchTopicRows store q), Read store q.keyIds f := by
    rcases q.topic with _ | topic
    · exact fun _ hf => absurd hf List.not_mem_nil
    · exact read_searchTopicRows
  exact forall_mem_ite htopic (hkeywords _)

theorem allRead_searchL2 {excludeIds : List FragmentId} :
    AllRead store q.keyIds (searchL2 model store q excludeIds) := by
  refine AllRead.hits fun f hf => ?_
  rcases List.mem_append.mp hf with hresult | hfetched
  · exact read_searchMetadata f hresult
  · have hmem := (List.mem_filter.mp hfetched).1
    split at hmem
    · cases hmem
    · exact read_getScopedByIds f hmem

theorem allRead_boost {found : List Hit} (h : AllRead store keyIds found) :
    AllRead store keyIds (found.map (boostAssistant model)) := by
  intro hit hhit
  obtain ⟨other, hother, rfl⟩ := List.mem_map.mp hhit
  obtain ⟨g, hg, hkey, hshown⟩ := h other hother
  simp only [boostAssistant]
  split
  · exact ⟨g, hg, hkey, hshown.id, hshown.createdAt, hshown.caseId, hshown.sessionId⟩
  · exact ⟨g, hg, hkey, hshown⟩

theorem allRead_searchL3 {text : String} {skipMorpheme : Bool} :
    AllRead store q.keyIds (searchL3 model context store q text skipMorpheme) := by
  refine AllRead.filter (AllRead.append ?_ (AllRead.filter ?_ _)) _
  · split
    · exact allRead_boost allRead_searchBySemantic
    · exact allRead_searchBySemantic
  · split
    · exact fun _ h => absurd h List.not_mem_nil
    · exact allRead_searchBySemantic

theorem allRead_temporalResults : AllRead store q.keyIds (temporalResults store q) := by
  simp only [temporalResults]
  rcases q.timeRange with _ | range
  · exact fun _ h => absurd h List.not_mem_nil
  · exact AllRead.hits read_searchByTimeRange

theorem allRead_textHits {text : String} {cached : List Hit} {l1MissIds : List FragmentId}
    (hcached : AllRead store q.keyIds cached) :
    AllRead store q.keyIds (textHits model context store q text cached l1MissIds) := by
  have hgraph : AllRead store q.keyIds (graphResults model store q (searchL2 model store q l1MissIds)) :=
    AllRead.hits fun f hf => read_fetchGraphNeighbors f (List.mem_filter.mp hf).1
  exact (((hcached.append allRead_searchL2).append hgraph).append allRead_searchL3).append
    allRead_temporalResults

theorem allRead_fallbackHits {cached : List Hit} {l1MissIds : List FragmentId}
    (hcached : AllRead store q.keyIds cached) :
    AllRead store q.keyIds (fallbackHits model context store q cached l1MissIds) := by
  refine ((allRead_searchL2.append hcached).append allRead_temporalResults).append ?_
  split
  · exact allRead_searchL3
  · exact fun _ h => absurd h List.not_mem_nil

theorem allRead_executeSearch : AllRead store q.keyIds (executeSearch model context store q).1 := by
  have hcached : ∀ l1 : List FragmentId, AllRead store q.keyIds
      (hits (if l1.isEmpty then [] else tryHotCache context.redisReady store q l1)) := by
    intro l1
    refine AllRead.hits fun f hf => ?_
    split at hf
    · cases hf
    · exact read_getScopedByIds f (List.mem_filter.mp hf).1
  simp only [executeSearch]
  split
  · exact ((allRead_textHits (hcached _)).filter _).of_rowsAmong (rowsAmong_buildTextRRF _ _ _ _)
  · exact (allRead_fallbackHits (hcached _)).of_rowsAmong (rowsAmong_buildFallbackCombined _ _)

/-- The hits of a search show stored rows under the key clause of the search. -/
theorem allRead_search : AllRead store q.keyIds (search model context store q).found :=
  allRead_executeSearch.of_rowsAmong rowsAmong_search

/-- So do the rows that a recall returns over all its pages. -/
theorem allRead_recallRows {context : RecallContext} {caller : Caller} {params : RecallParams} :
    AllRead store caller.groups (recallRows model context store caller params).1 := by
  have hfound : AllRead store caller.groups
      (search model context.toSearchContext store (searchQuery params caller context.now)).found :=
    allRead_search
  have hexpanded : AllRead store caller.groups (appendLinked store (searchQuery params caller context.now) params
      (search model context.toSearchContext store (searchQuery params caller context.now)).found) := by
    simp only [appendLinked]
    split
    · refine hfound.append fun hit hhit => ?_
      obtain ⟨f, hf, rfl⟩ := List.mem_map.mp hhit
      exact read_getLinkedFragments f (List.mem_filter.mp (List.mem_filter.mp hf).1).1
    · exact hfound
  refine hexpanded.of_mem fun hit hhit => ?_
  have hselected := (List.mem_filter.mp (mem_fillWithin hhit)).1
  exact (List.mem_insertionSort _).mp hselected

theorem allScoped_searchL2 {excludeIds : List FragmentId} :
    AllScoped store q.keyIds (searchL2 model store q excludeIds) := allRead_searchL2.allScoped

theorem allScoped_search : AllScoped store q.keyIds (search model context store q).found := allRead_search.allScoped

theorem allScoped_recallRows {context : RecallContext} {caller : Caller} {params : RecallParams} :
    AllScoped store caller.groups (recallRows model context store caller params).1 := allRead_recallRows.allScoped

end FragmentMemory.RecallScope
