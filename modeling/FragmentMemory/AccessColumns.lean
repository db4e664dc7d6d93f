import FragmentMemory.MemoryRecaller

/-! # The access columns in the queries of a search

A recall writes the access count, the time of the last access and the activation of rows.  The queries of a search find
the same rows with other access columns, as long as rows that are read by their ids stay in the order of their last access.
-/
namespace FragmentMemory.AccessColumns
open ApiKeyStore FragmentTables FragmentFactory FragmentReader RecallQueries FragmentSearch

/-- The row with the access columns that the store has for its id. -/
def refreshed (store : Store) (f : Fragment) : Fragment :=
  let row := store.fragments.byId f.id
  { f with
    accessCount := row.elim f.accessCount Fragment.accessCount
    accessedAt := row.elim f.accessedAt Fragment.accessedAt
    emaActivation := row.elim f.emaActivation Fragment.emaActivation }

def refreshedHit (store : Store) (hit : Hit) : Hit := { hit with row := refreshed store hit.row }

def refreshedLink (store : Store) (item : Fragment × Link) : Fragment × Link := (refreshed store item.1, item.2)

/-- The scores that rows have with the access columns of the store. -/
def seenIn (model : SearchModel) (store : Store) : SearchModel :=
  { model with
    similarity := fun text f => model.similarity text (refreshed store f)
    morphemeSimilarity := fun text f => model.morphemeSimilarity text (refreshed store f)
    rankScore := fun anchorTime hit => model.rankScore anchorTime (refreshedHit store hit)
    recallScore := fun q hit => model.recallScore q (refreshedHit store hit)
    rerankScores := fun q rows => model.rerankScores q (rows.map (refreshed store)) }

/-- The rows differ in their access columns at most, and the sets of the index in the hot cache. -/
structure Accessed (first current : Store) : Prop where
  rows : current.fragments.rows = first.fragments.rows.map (refreshed current)
  sets : ∀ key, (∀ space, key ≠ .hot space) → members current key = members first key

/-- The ids of the first layer. -/
def firstLayer (model : SearchModel) (context : SearchContext) (store : Store) (q : SearchQuery) : List FragmentId :=
  (searchL1 model.tools context.redisReady context.recency store q).1

/-- The rows that the first layer names stand in the order of their last access, and the same ones are in the hot cache. -/
structure SameFirstLayer (ids : List FragmentId) (keyIds : Option (List KeyId)) (first current : Store) : Prop where
  order : ∀ f ∈ first.fragments.rows, ∀ g ∈ first.fragments.rows, f.id ∈ ids → g.id ∈ ids →
    byAccess (refreshed current f) (refreshed current g) = byAccess f g
  hot : ∀ id ∈ ids, ∀ space ∈ namespaces keyIds, current.index.contains (.hot space, id) = first.index.contains (.hot space, id)

theorem refreshed_self {store : Store} {f : Fragment} (hf : f ∈ store.fragments.rows) : refreshed store f = f := by
  have hrow : store.fragments.byId f.id = some f := (byId_eq_some_iff _).mpr ⟨hf, rfl⟩
  rw [refreshed, hrow]
  rfl

/-- A store compared with itself. -/
theorem Accessed.refl (store : Store) : Accessed store store where
  rows := by
    have hsame : store.fragments.rows.map (refreshed store) = store.fragments.rows.map id :=
      List.map_congr_left fun f hf => refreshed_self hf
    rw [hsame, List.map_id]
  sets _ _ := rfl

theorem SameFirstLayer.refl (ids : List FragmentId) (keyIds : Option (List KeyId)) (store : Store) :
    SameFirstLayer ids keyIds store store where
  order f hf g hg _ _ := by rw [refreshed_self hf, refreshed_self hg]
  hot _ _ _ _ := rfl

/-- A sort whose order does not notice a map. -/
theorem sorted_map {α β : Type*} {r : α → α → Prop} {s : β → β → Prop} [DecidableRel r] [DecidableRel s] (mark : α → β)
    (hmark : ∀ a b, r a b ↔ s (mark a) (mark b)) (items : List α) :
    (items.map mark).insertionSort s = (items.insertionSort r).map mark :=
  (List.map_insertionSort (r := r) (s := s) mark items fun a _ b _ => hmark a b).symm

theorem distinctOnId_eq (current : Store) (items : List (Fragment × Link)) :
    distinctOnId (items.map (refreshedLink current)) = (distinctOnId items).map (refreshedLink current) := by
  induction items with
  | nil => rfl
  | cons item later ih =>
    simp only [List.map_cons, distinctOnId, ih, List.filter_map]
    rfl

namespace Accessed

variable {first current : Store} (h : Accessed first current)
include h

/-! ## Rows by a condition -/

theorem filter_rows {p cond : Fragment → Bool} (hp : ∀ f, p (refreshed current f) = cond f) :
    current.fragments.rows.filter p = (first.fragments.rows.filter cond).map (refreshed current) := by
  have hpred : p ∘ refreshed current = cond := funext hp
  rw [h.rows, List.filter_map, hpred]

/-- Selected rows in an order, where both read the access columns of now. -/
theorem sorted_rows {p cond : Fragment → Bool} {r order : Fragment → Fragment → Prop} [DecidableRel r]
    [DecidableRel order]
    (hp : ∀ f, p (refreshed current f) = cond f)
    (hr : ∀ f ∈ first.fragments.rows, ∀ g ∈ first.fragments.rows, cond f = true → cond g = true →
      (order f g ↔ r (refreshed current f) (refreshed current g))) :
    (current.fragments.rows.filter p).insertionSort r =
      ((first.fragments.rows.filter cond).insertionSort order).map (refreshed current) := by
  rw [h.filter_rows hp]
  refine (List.map_insertionSort (r := order) (s := r) _ _ fun f hf g hg => ?_).symm
  obtain ⟨hfrow, hfcond⟩ := List.mem_filter.mp hf
  obtain ⟨hgrow, hgcond⟩ := List.mem_filter.mp hg
  exact hr f hfrow g hgrow hfcond hgcond

theorem byId_eq (id : FragmentId) : current.fragments.byId id = (first.fragments.byId id).map (refreshed current) := by
  rcases hfound : first.fragments.byId id with _ | f
  · rw [byId_eq_none_iff] at hfound
    refine (byId_eq_none_iff _).mpr fun g hg => ?_
    rw [h.rows] at hg
    obtain ⟨f, hf, rfl⟩ := List.mem_map.mp hg
    exact hfound f hf
  · obtain ⟨hrow, hid⟩ := (byId_eq_some_iff _).mp hfound
    refine (byId_eq_some_iff _).mpr ⟨?_, hid⟩
    rw [h.rows]
    exact List.mem_map_of_mem hrow

variable (q : SearchQuery)

theorem searchByKeywords_eq (keywords : List String) :
    searchByKeywords current q keywords = (searchByKeywords first q keywords).map (refreshed current) := by
  rw [searchByKeywords, searchByKeywords, List.map_take]
  exact congrArg (List.take 30) (h.sorted_rows (fun _ => rfl) fun _ _ _ _ _ _ => Iff.rfl)

theorem searchTopicRows_eq (topic : String) :
    searchTopicRows current q topic = (searchTopicRows first q topic).map (refreshed current) := by
  rw [searchTopicRows, searchTopicRows, List.map_take]
  exact congrArg (List.take 30) (h.sorted_rows (fun _ => rfl) fun _ _ _ _ _ _ => Iff.rfl)

theorem searchByTimeRange_eq : searchByTimeRange current q = (searchByTimeRange first q).map (refreshed current) := by
  rw [searchByTimeRange, searchByTimeRange, List.map_take]
  exact congrArg (List.take 30) (h.sorted_rows (fun _ => rfl) fun _ _ _ _ _ _ => Iff.rfl)

/-- The nearest rows by a similarity, which sees the access columns of now. -/
theorem searchBySemantic_eq (similarity : Fragment → Option ℚ) (minSimilarity : ℚ) (limit : ℕ) (affectOn : Bool) :
    searchBySemantic current q similarity minSimilarity limit affectOn =
      (searchBySemantic first q (fun f => similarity (refreshed current f)) minSimilarity limit affectOn).map
        (refreshedHit current) := by
  have hnearest := h.sorted_rows
    (p := fun f => q.rowCond f && (!affectOn || q.affectCond f) && (similarity f).any (minSimilarity ≤ ·))
    (r := fun f g => (similarity g).getD 0 ≤ (similarity f).getD 0) (fun _ => rfl) fun _ _ _ _ _ _ => Iff.rfl
  simp only [searchBySemantic, hnearest, ← List.map_take, List.map_map]
  rfl

/-- Rows by their ids, where the condition on their order holds of these ids. -/
theorem getScopedByIds_eq {ids named : List FragmentId} {keyIds : Option (List KeyId)}
    (hnamed : SameFirstLayer named keyIds first current) (hids : ∀ id ∈ ids, id ∈ named) :
    getScopedByIds current q ids = (getScopedByIds first q ids).map (refreshed current) := by
  refine h.sorted_rows (fun _ => rfl) fun f hf g hg hfcond hgcond => ?_
  have hmem : ∀ row : Fragment, (ids.contains row.id && q.agentCond row && (q.includeSuperseded || row.live) &&
      keyCond q.keyIds row) = true → row.id ∈ named := by
    intro row hcond
    simp only [Bool.and_eq_true] at hcond
    exact hids _ (List.contains_iff_mem.mp hcond.1.1.1)
  rw [hnamed.order f hf g hg (hmem f hfcond) (hmem g hgcond)]

/-! ## Neighbours -/

/-- Links are followed to the same rows while the table of links is the same. -/
theorem neighborRows_eq (hlinks : current.links = first.links) (ids : List FragmentId) (chosen : Link → Bool)
    (skipped : FragmentId → Bool) (keep : Fragment → Bool) (hkeep : ∀ f, keep (refreshed current f) = keep f) :
    neighborRows current ids chosen skipped keep =
      (neighborRows first ids chosen skipped keep).map (refreshedLink current) := by
  have hjoin : ∀ (id : FragmentId) (l : Link), (((current.fragments.byId id).filter keep).map fun f => (f, l)) =
      (((first.fragments.byId id).filter keep).map fun f => (f, l)).map (refreshedLink current) := by
    intro id l
    rw [h.byId_eq]
    rcases first.fragments.byId id with _ | f
    · rfl
    · simp only [Option.map_some, Option.filter_some, hkeep]
      split <;> rfl
  simp only [neighborRows, hlinks, hjoin, List.map_append, List.map_filterMap]
  congr 1
  · refine congrArg (fun join => List.filterMap join first.links.rows) (funext fun l => ?_)
    split <;> rfl
  · refine congrArg (fun join => List.filterMap join first.links.rows) (funext fun l => ?_)
    split <;> rfl

theorem fetchGraphNeighbors_eq (hlinks : current.links = first.links) (graphScore : Link → ℚ)
    (seedIds : List FragmentId) :
    fetchGraphNeighbors graphScore current q seedIds =
      (fetchGraphNeighbors graphScore first q seedIds).map (refreshed current) := by
  have hrows := h.neighborRows_eq hlinks seedIds (fun _ => true) seedIds.contains
    (fun f => f.live && keyCond q.keyIds f && q.agentCond f && workspaceCond q.workspace f) fun _ => rfl
  have hdistinct := sorted_map (r := (byIdWeight · ·)) (s := (byIdWeight · ·)) (refreshedLink current) fun _ _ =>
    Iff.rfl
  have hstrongest := sorted_map (r := (byWeightId · ·)) (s := (byWeightId · ·)) (refreshedLink current) fun _ _ =>
    Iff.rfl
  have hscored := sorted_map (r := fun a b => graphScore b.2 ≤ graphScore a.2) (s := fun a b => graphScore b.2 ≤ graphScore a.2)
    (refreshedLink current) fun _ _ => Iff.rfl
  simp only [fetchGraphNeighbors, hrows, hdistinct, distinctOnId_eq, hstrongest, ← List.map_take, hscored, List.map_map]
  rfl

theorem getLinkedFragments_eq (hlinks : current.links = first.links) (fromIds : List FragmentId)
    (relationType : Option RelationType) :
    getLinkedFragments current q fromIds relationType =
      (getLinkedFragments first q fromIds relationType).map (refreshed current) := by
  have hrows := h.neighborRows_eq hlinks fromIds (linkedRelation relationType) (fun _ => false)
    (fun f => (q.includeSuperseded || f.live) && keyCond q.keyIds f && q.agentCond f && workspaceCond q.workspace f)
    fun _ => rfl
  have hsorted := sorted_map (r := (byIdWeightOrder · ·)) (s := (byIdWeightOrder · ·)) (refreshedLink current)
    fun _ _ => Iff.rfl
  simp only [getLinkedFragments, hrows, hsorted, distinctOnId_eq, ← List.map_take, List.map_map]
  rfl

/-! ## The first layer and the hot cache -/

theorem searchL1_eq (tools : TextTools) (ready : Bool) (recency : Option KeyId → FragmentId → ℕ) :
    searchL1 tools ready recency current q = searchL1 tools ready recency first q := by
  have hkeyword : ∀ space word, members current (.keyword space word) = members first (.keyword space word) :=
    fun space word => h.sets _ nofun
  have htopic : ∀ space topic, members current (.topic space topic) = members first (.topic space topic) :=
    fun space topic => h.sets _ nofun
  have htype : ∀ space type, members current (.type space type) = members first (.type space type) :=
    fun space type => h.sets _ nofun
  have hrecent : ∀ space, members current (.recent space) = members first (.recent space) := fun space => h.sets _ nofun
  have hkeywords : ∀ keywords, keywordMembers tools current keywords = keywordMembers tools first keywords := by
    intro keywords
    funext space
    simp only [keywordMembers, hkeyword]
  simp only [searchL1, hkeywords, htopic, htype, hrecent]

theorem tryHotCache_eq {ids : List FragmentId} (hsame : SameFirstLayer ids q.keyIds first current) (ready : Bool) :
    tryHotCache ready current q ids = (tryHotCache ready first q ids).map (refreshed current) := by
  have hids : ∀ id ∈ (ids.take 30).eraseDups, id ∈ ids :=
    fun id hid => List.mem_of_mem_take (List.mem_eraseDups.mp hid)
  have hhot : ((ids.take 30).eraseDups.filter fun id => (namespaces q.keyIds).any fun space =>
      current.index.contains (.hot space, id)) = (ids.take 30).eraseDups.filter fun id =>
        (namespaces q.keyIds).any fun space => first.index.contains (.hot space, id) := by
    refine List.filter_congr fun id hid => ?_
    rw [Bool.eq_iff_iff, List.any_eq_true, List.any_eq_true]
    exact exists_congr fun space => and_congr_right fun hspace => by rw [hsame.hot id (hids id hid) space hspace]
  have hread : ∀ hitIds, (∀ id ∈ hitIds, id ∈ ids) →
      getScopedByIds current q hitIds = (getScopedByIds first q hitIds).map (refreshed current) :=
    fun hitIds hmem => h.getScopedByIds_eq q hsame hmem
  simp only [tryHotCache, hhot]
  rw [hread, List.filter_map]
  · rfl
  · intro id hid
    split at hid
    · exact hids id (List.mem_filter.mp hid).1
    · cases hid

end Accessed

end FragmentMemory.AccessColumns
