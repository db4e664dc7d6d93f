import FragmentMemory.LinkMirror
import FragmentMemory.LinkWrites
import FragmentMemory.RecallScope

/-! # What becomes of an explicit link

One upsert serves the explicit links and the automatic ones: it overwrites the relation and leaves `deleted_at`.
Here is, for every sequence of operations on links, when an explicit link is visible after its creation and
when no automatic link replaces its relation.
-/
namespace FragmentMemory.LinkSurvival
open ApiKeyStore FragmentTables FragmentFactory LinkStore LinkWrites LinkGrowth GraphLinker LinkMirror RecallQueries RecallScope
  MemoryRememberer TransitionRuns UniqueIndexTable

/-- An operation on links: an explicit link, the automatic links of a topic and of a day, a common retrieval and
a reconsolidation. -/
inductive LinkEvent
  | explicit (fromId toId : FragmentId) (relationType : RelationType) (weight : ℚ)
  | related (fromId toId : FragmentId) (weight : ℚ)
  | temporal (fromId toId : FragmentId) (weight : ℚ)
  | coRetrieved (e : FragmentId × FragmentId)
  | reconsolidate (e : FragmentId × FragmentId) (action : ReconsolidateAction) (now : Time)
      (recentlyDecayed : FragmentId × FragmentId → Bool)

def linkEventStep (store : Store) : LinkEvent → Store
  | .explicit fromId toId relationType weight => tryLink store fromId toId relationType weight
  | .related fromId toId weight => tryLink store fromId toId .related weight
  | .temporal fromId toId weight => tryLink store fromId toId .temporal weight
  | .coRetrieved e => coRetrieve store e
  | .reconsolidate e action now recentlyDecayed => reconsolidateLink store e action now recentlyDecayed

/-- The relation of the row with the given ends, deleted or not. -/
def relationAt (store : Store) (e : FragmentId × FragmentId) : Option RelationType :=
  (store.links.holder e).map Link.relationType

/-- The relations that no automatic link is to replace. -/
def Strong (relationType : RelationType) : Prop :=
  relationType ∈ [RelationType.causedBy, .resolvedBy, .supersededBy, .partOf, .contradicts]

instance (relationType : RelationType) : Decidable (Strong relationType) :=
  inferInstanceAs (Decidable (relationType ∈ [RelationType.causedBy, .resolvedBy, .supersededBy, .partOf, .contradicts]))

/-- The conditions that `getLinkedFragments` puts on a linked row. -/
def admits (q : SearchQuery) (f : Fragment) : Bool :=
  (q.includeSuperseded || f.live) && keyCond q.keyIds f && q.agentCond f && workspaceCond q.workspace f

/-- The rows that `getLinkedFragments` joins for one relation, before it drops duplicates and those beyond ten. -/
def linkedRows (store : Store) (q : SearchQuery) (id : FragmentId) (relationType : RelationType) : List (Fragment × Link) :=
  neighborRows store [id] (linkedRelation (some relationType)) (fun _ => false) (admits q)

def distinctRows (store : Store) (q : SearchQuery) (id : FragmentId) (relationType : RelationType) : List (Fragment × Link) :=
  distinctOnId ((linkedRows store q id relationType).insertionSort (byIdWeightOrder · ·))

/-- Every query that admits the row at the end of the link finds the link with the relation, and returns the row
where it finds no more than ten. -/
def Visible (store : Store) (fromId toId : FragmentId) (relationType : RelationType) : Prop :=
  ∀ q, ∀ g ∈ store.fragments.rows, g.id = toId → admits q g = true →
    (∃ l, (g, l) ∈ linkedRows store q fromId relationType ∧ (l.fromId, l.toId) = (fromId, toId) ∧
      l.relationType = relationType) ∧
    ((distinctRows store q fromId relationType).length ≤ 10 →
      toId ∈ (getLinkedFragments store q [fromId] (some relationType)).map Fragment.id)

/-- What an operation does to the explicit links: a new one is visible, and the others keep a strong relation. -/
def Survives (store : Store) : LinkEvent → Prop
  | .explicit fromId toId relationType weight =>
    ∀ next, createLink store fromId toId relationType weight = some next → Visible next fromId toId relationType
  | event => ∀ e relationType, Strong relationType → relationAt store e = some relationType →
    relationAt (linkEventStep store event) e = some relationType

/-- An explicit link is not asked for where a deleted row has its ends, an automatic one not where a strong
relation has them. -/
def Spares (store : Store) : LinkEvent → Prop
  | .explicit fromId toId relationType _ => present store ⟨fromId, toId, relationType⟩ = true →
    (store.links.holder (fromId, toId)).bind Link.deletedAt = none
  | .related fromId toId _ | .temporal fromId toId _ => present store ⟨fromId, toId, .related⟩ = true →
    ∀ relationType, Strong relationType → relationAt store (fromId, toId) ≠ some relationType
  | .coRetrieved _ | .reconsolidate _ _ _ _ => True

/-- An explicit link between the two ends, in this direction. -/
def names (e : FragmentId × FragmentId) : LinkEvent → Bool
  | .explicit fromId toId _ _ => (fromId, toId) = e
  | _ => false

/-- The explicit links in a run: each operation leaves them as it should, and a strong one keeps its relation up
to the next explicit link of its ends. -/
structure ExplicitSurvive (start : Store) (events : List LinkEvent) : Prop where
  steps : StepsMeet linkEventStep Survives start events
  lasting : ∀ before fromId toId relationType weight later rest,
    events = before ++ .explicit fromId toId relationType weight :: (later ++ rest) → Strong relationType →
      (createLink (run linkEventStep start before) fromId toId relationType weight).isSome = true →
      (∀ event ∈ later, names (fromId, toId) event = false) →
        relationAt (run linkEventStep start (before ++ .explicit fromId toId relationType weight :: later))
          (fromId, toId) = some relationType

variable {store : Store}

theorem foldl_run (store : Store) (items : List Fragment) (event : Fragment → LinkEvent) :
    items.foldl (fun current g => linkEventStep current (event g)) store = run linkEventStep store (items.map event) := by
  rw [run, List.foldl_map]

/-- The automatic linkers are runs of these operations, all of them from the fragment. -/
theorem linkTemporalNeighbors_run (store : Store) (f : Fragment) (groupKeyIds : Option (List KeyId)) :
    ∃ events, linkTemporalNeighbors store f groupKeyIds = run linkEventStep store events ∧
      ∀ event ∈ events, ∃ toId weight, event = .temporal f.id toId weight := by
  simp only [linkTemporalNeighbors]
  split
  · exact ⟨[], rfl, fun event hevent => absurd hevent List.not_mem_nil⟩
  · refine ⟨_, foldl_run store _ fun g => .temporal f.id g.id _, fun event hevent => ?_⟩
    obtain ⟨g, -, rfl⟩ := List.mem_map.mp hevent
    exact ⟨_, _, rfl⟩

theorem autoLinkOnRemember_run (store : Store) (f : Fragment) (agentId : String) :
    ∃ events, autoLinkOnRemember store f agentId = run linkEventStep store events ∧
      ∀ event ∈ events, ∃ toId, event = .related f.id toId 1 := by
  simp only [autoLinkOnRemember]
  split
  · exact ⟨[], rfl, fun event hevent => absurd hevent List.not_mem_nil⟩
  · refine ⟨_, foldl_run store _ fun g => .related f.id g.id 1, fun event hevent => ?_⟩
    obtain ⟨g, -, rfl⟩ := List.mem_map.mp hevent
    exact ⟨_, rfl⟩

theorem buildCoRetrievalLinks_run (store : Store) (fragmentIds : List FragmentId) :
    buildCoRetrievalLinks store fragmentIds =
      run linkEventStep store ((orderedPairs (fragmentIds.take 5)).map .coRetrieved) := by
  rw [run, List.foldl_map]
  rfl

theorem relationAt_tryLink (store : Store) (pair : LinkPair) (weight : ℚ) (e : FragmentId × FragmentId) :
    relationAt (tryLink store pair.fromId pair.toId pair.relationType weight) e =
      if present store pair = true ∧ e = ends pair then some pair.relationType else relationAt store e := by
  have hwritten := written_tryLink store pair weight
  by_cases hpresent : present store pair = true
  · rw [List.filter_cons_of_pos hpresent, List.filter_nil] at hwritten
    by_cases hsame : e = ends pair
    · obtain ⟨l, hl, -, other, hother, -, hrelation⟩ := hwritten.written e (List.mem_singleton.mpr hsame)
      rw [if_pos ⟨hpresent, hsame⟩, relationAt, hl, Option.map_some, hrelation, List.mem_singleton.mp hother]
    · have hkept := hwritten.kept e fun hmem => hsame (List.mem_singleton.mp hmem)
      rw [if_neg fun h => hsame h.2, relationAt, hkept, relationAt]
  · rw [List.filter_cons_of_neg hpresent, List.filter_nil] at hwritten
    rw [if_neg fun h => hpresent h.1, relationAt, hwritten.kept e List.not_mem_nil, relationAt]

/-- A common retrieval adds a link or strengthens one. -/
theorem relationAt_coRetrieve {e : FragmentId × FragmentId} {relationType : RelationType}
    (h : relationAt store e = some relationType) (other : FragmentId × FragmentId) :
    relationAt (coRetrieve store other) e = some relationType := by
  simp only [coRetrieve]
  split
  · cases hupsert : store.links.upsert other { fromId := other.1, toId := other.2, relationType := .coRetrieved }
        (fun l => { l with weight := l.weight + 1 }) fun _ => rfl with
    | none => exact h
    | some links =>
      have hrow : other = (({ fromId := other.1, toId := other.2, relationType := .coRetrieved } : Link).fromId,
          ({ fromId := other.1, toId := other.2, relationType := .coRetrieved } : Link).toId) := rfl
      rw [hrow] at hupsert
      obtain ⟨l, hl, hrelation⟩ := Option.map_eq_some_iff.mp h
      show (links.holder e).map Link.relationType = some relationType
      rw [holder_upsertLink hupsert, hl]
      split
      · exact congrArg some hrelation
      · exact congrArg some hrelation
  · exact h

theorem relationAt_reconsolidateLink (store : Store) (ends e : FragmentId × FragmentId) (action : ReconsolidateAction)
    (now : Time) (recentlyDecayed : FragmentId × FragmentId → Bool) :
    relationAt (reconsolidateLink store ends action now recentlyDecayed) e = relationAt store e := by
  have hholder : (reconsolidateLink store ends action now recentlyDecayed).links.holder e =
      (store.links.holder e).map fun l =>
        if decide ((l.fromId, l.toId) = ends) && l.deletedAt.isNone &&
            !(action.limited && recentlyDecayed (l.fromId, l.toId)) then reconsolidated action now l else l :=
    @Table.holder_update _ _ Link.entries _ store.links _ (reconsolidated action now) (fun _ => rfl) e
  rw [relationAt, hholder, Option.map_map, relationAt]
  congr 1
  funext l
  rw [Function.comp_apply]
  split
  · rfl
  · rfl

/-- A link that is not deleted is joined by every query that admits its end. -/
theorem mem_linkedRows {l : Link} (hl : l ∈ store.links.rows) (hlive : l.deletedAt = none) {g : Fragment}
    (hg : g ∈ store.fragments.rows) (hid : g.id = l.toId) {q : SearchQuery} (hadmits : admits q g = true) :
    (g, l) ∈ linkedRows store q l.fromId l.relationType := by
  have hbyId := (byId_eq_some_iff _).mpr ⟨hg, hid⟩
  refine List.mem_append_left _ (List.mem_filterMap.mpr ⟨l, hl, ?_⟩)
  simp only [List.contains_cons, List.contains_nil, beq_self_eq_true, Bool.or_false, Bool.not_false, hlive,
    Option.isNone_none, linkedRelation, decide_true, Bool.and_self, if_true, hbyId, Option.filter_some, hadmits,
    Option.map_some]

/-- The links that a query joins are stored and not deleted. -/
theorem live_of_mem_linkedRows {q : SearchQuery} {id : FragmentId} {relationType : RelationType}
    {item : Fragment × Link}
    (h : item ∈ linkedRows store q id relationType) : item.2 ∈ store.links.rows ∧ item.2.deletedAt = none := by
  have hjoin : ∀ (found : Option Fragment) (l : Link) (chosen : Bool), l ∈ store.links.rows →
      (if chosen && l.deletedAt.isNone && linkedRelation (some relationType) l then found.map fun f => (f, l)
        else none) = some item → item.2 ∈ store.links.rows ∧ item.2.deletedAt = none := by
    intro found l chosen hl hitem
    split at hitem
    · rename_i hcond
      simp only [Bool.and_eq_true, Option.isNone_iff_eq_none] at hcond
      obtain ⟨f, -, rfl⟩ := Option.map_eq_some_iff.mp hitem
      exact ⟨hl, hcond.1.2⟩
    · cases hitem
  rcases List.mem_append.mp h with htowards | hbackwards
  · obtain ⟨l, hl, hitem⟩ := List.mem_filterMap.mp htowards
    exact hjoin _ l _ hl hitem
  · obtain ⟨l, hl, hitem⟩ := List.mem_filterMap.mp hbackwards
    exact hjoin _ l _ hl hitem

theorem id_mem_distinctOnId {items : List (Fragment × Link)} {item : Fragment × Link} (h : item ∈ items) :
    ∃ kept ∈ distinctOnId items, kept.1.id = item.1.id := by
  induction items with
  | nil => cases h
  | cons first later ih =>
    by_cases hsame : item.1.id = first.1.id
    · exact ⟨first, List.mem_cons_self, hsame.symm⟩
    · have hlater : item ∈ later := (List.mem_cons.mp h).resolve_left fun heq => hsame (congrArg (fun x => x.1.id) heq)
      obtain ⟨kept, hkept, hid⟩ := ih hlater
      refine ⟨kept, List.mem_cons_of_mem _ (List.mem_filter.mpr ⟨hkept, ?_⟩), hid⟩
      exact decide_eq_true (hid ▸ hsame)

/-- A joined row is returned where no more than ten rows are. -/
theorem mem_getLinkedFragments {q : SearchQuery} {id : FragmentId} {relationType : RelationType}
    {item : Fragment × Link}
    (h : item ∈ linkedRows store q id relationType) (hfew : (distinctRows store q id relationType).length ≤ 10) :
    item.1.id ∈ (getLinkedFragments store q [id] (some relationType)).map Fragment.id := by
  obtain ⟨kept, hkept, hid⟩ := id_mem_distinctOnId
    ((List.mem_insertionSort (r := fun a b => byIdWeightOrder a b = true)).mpr h)
  have hall : (distinctRows store q id relationType).take 10 = distinctRows store q id relationType :=
    List.take_of_length_le hfew
  have hreturned : getLinkedFragments store q [id] (some relationType) =
      ((distinctRows store q id relationType).take 10).map fun item =>
        { neighborColumns item.1 with isAnchor := false } := rfl
  rw [hreturned, hall]
  exact List.mem_map.mpr ⟨_, List.mem_map_of_mem hkept, hid⟩

/-- A new link is visible exactly when its row was not deleted before. -/
theorem visible_iff {next : Store} {fromId toId : FragmentId} {relationType : RelationType} {weight : ℚ}
    (h : createLink store fromId toId relationType weight = some next) :
    Visible next fromId toId relationType ↔ (store.links.holder (fromId, toId)).bind Link.deletedAt = none := by
  obtain ⟨l, hl, hfrom, hto, hrelation, hdeleted⟩ := createLink_row h
  rw [← hdeleted]
  constructor
  · intro hvisible
    obtain ⟨-, ⟨g, hg⟩, -⟩ := createLink_eq_some h
    have hrow : HasRow next toId := (grows_createLink h).hasRow_iff.mpr ⟨g, (byId_eq_some_iff _).mp hg⟩
    obtain ⟨g', hg', hid⟩ := hrow
    obtain ⟨⟨m, hm, hends, -⟩, -⟩ := hvisible { anchorTime := 0, includeSuperseded := true, includePeerAgents := true }
      g' hg' hid (by simp [admits, keyCond, SearchQuery.agentCond, workspaceCond])
    obtain ⟨hstored, hlive⟩ := live_of_mem_linkedRows hm
    have hentry : (fromId, toId) ∈ m.entries := List.mem_singleton.mpr hends.symm
    have hsame : l = m := next.links.eq_of_entry hl hstored (List.mem_singleton.mpr (by rw [hfrom, hto])) hentry
    rw [hsame]
    exact hlive
  · intro hlive q g hg hid hadmits
    have hjoined := mem_linkedRows hl hlive hg (hid.trans hto.symm) hadmits
    rw [hfrom, hrelation] at hjoined
    refine ⟨⟨l, hjoined, by rw [hfrom, hto], hrelation⟩, fun hfew => ?_⟩
    rw [← hid]
    exact mem_getLinkedFragments hjoined hfew

theorem createLink_isSome_iff (store : Store) (fromId toId : FragmentId) (relationType : RelationType) (weight : ℚ) :
    (createLink store fromId toId relationType weight).isSome = true ↔
    present store ⟨fromId, toId, relationType⟩ = true := by
  constructor
  · intro h
    obtain ⟨next, hnext⟩ := Option.isSome_iff_exists.mp h
    obtain ⟨⟨f, hf⟩, ⟨g, hg⟩, -⟩ := createLink_eq_some hnext
    simp only [present, hf, hg, Option.isSome_some, Bool.and_self]
  · intro h
    simp only [present, Bool.and_eq_true, Option.isSome_iff_exists, byId_eq_some_iff] at h
    obtain ⟨⟨f, hf, hfid⟩, g, hg, hgid⟩ := h
    obtain ⟨next, hnext⟩ := createLink_isSome hf hg hfid hgid relationType weight
    exact Option.isSome_iff_exists.mpr ⟨next, hnext⟩

/-- An automatic link keeps the strong relations exactly when none has its ends. -/
theorem automatic_iff (store : Store) {relationType : RelationType} (hweak : ¬ Strong relationType)
    (fromId toId : FragmentId)
    (weight : ℚ) :
    (∀ e strong, Strong strong → relationAt store e = some strong →
      relationAt (tryLink store fromId toId relationType weight) e = some strong) ↔
    (present store ⟨fromId, toId, relationType⟩ = true → ∀ strong, Strong strong →
      relationAt store (fromId, toId) ≠ some strong) := by
  have hafter := relationAt_tryLink store ⟨fromId, toId, relationType⟩ weight
  constructor
  · intro h hpresent strong hstrong hrelation
    have hkept := h _ strong hstrong hrelation
    rw [hafter, if_pos ⟨hpresent, rfl⟩] at hkept
    have hsame : relationType = strong := Option.some.inj hkept
    exact hweak (hsame ▸ hstrong)
  · intro h e strong hstrong hrelation
    rw [hafter]
    split
    · rename_i hnamed
      have hends : e = (fromId, toId) := hnamed.2
      exact absurd (hends ▸ hrelation) (h hnamed.1 strong hstrong)
    · exact hrelation

theorem survives_iff (store : Store) (event : LinkEvent) : Survives store event ↔ Spares store event := by
  cases event with
  | explicit fromId toId relationType weight =>
    rw [Spares, ← createLink_isSome_iff store fromId toId relationType weight]
    constructor
    · intro h hsome
      obtain ⟨next, hnext⟩ := Option.isSome_iff_exists.mp hsome
      exact (visible_iff hnext).mp (h next hnext)
    · intro h next hnext
      exact (visible_iff hnext).mpr (h (by rw [hnext]; rfl))
  | related fromId toId weight => exact automatic_iff store (by decide) fromId toId weight
  | temporal fromId toId weight => exact automatic_iff store (by decide) fromId toId weight
  | coRetrieved e => exact iff_of_true (fun _ _ _ h => relationAt_coRetrieve h e) trivial
  | reconsolidate e action now recentlyDecayed =>
    refine iff_of_true (fun other relationType _ h => ?_) trivial
    exact (relationAt_reconsolidateLink store e other action now recentlyDecayed).trans h

/-- Operations without an explicit link of the ends keep a strong relation. -/
theorem relationAt_run {e : FragmentId × FragmentId} {relationType : RelationType} (hstrong : Strong relationType)
    {events : List LinkEvent} (hmeet : StepsMeet linkEventStep Survives store events)
    (hunnamed : ∀ event ∈ events, names e event = false) (h : relationAt store e = some relationType) :
    relationAt (run linkEventStep store events) e = some relationType := by
  induction events generalizing store with
  | nil => exact h
  | cons event later ih =>
    refine ih hmeet.2 (fun other hother => hunnamed other (List.mem_cons_of_mem _ hother)) ?_
    have hnow := hmeet.1
    have hother := hunnamed event List.mem_cons_self
    cases event with
    | explicit fromId toId written weight =>
      have hapart : e ≠ (fromId, toId) := fun hsame => of_decide_eq_false hother hsame.symm
      have hafter := relationAt_tryLink store ⟨fromId, toId, written⟩ weight e
      rw [if_neg fun hnamed => hapart hnamed.2] at hafter
      exact hafter.trans h
    | related => exact hnow e relationType hstrong h
    | temporal => exact hnow e relationType hstrong h
    | coRetrieved => exact hnow e relationType hstrong h
    | reconsolidate => exact hnow e relationType hstrong h

theorem stepsMeet_survives_iff (start : Store) (events : List LinkEvent) :
    StepsMeet linkEventStep Survives start events ↔ StepsMeet linkEventStep Spares start events :=
  ⟨StepsMeet.mono fun store event => (survives_iff store event).mp,
    StepsMeet.mono fun store event => (survives_iff store event).mpr⟩

/-- The explicit links survive a run of any operations on links exactly when no explicit link is asked for where
a deleted row has its ends, and no automatic one where a strong relation has them. -/
theorem explicitLinks_survive (start : Store) (events : List LinkEvent) :
    ExplicitSurvive start events ↔ StepsMeet linkEventStep Spares start events := by
  rw [← stepsMeet_survives_iff]
  refine ⟨ExplicitSurvive.steps, fun hsteps => ⟨hsteps, ?_⟩⟩
  intro before fromId toId relationType weight later rest hsplit hstrong hsome hunnamed
  rw [hsplit, stepsMeet_append, ← List.cons_append, stepsMeet_append] at hsteps
  have hpresent := (createLink_isSome_iff _ fromId toId relationType weight).mp hsome
  have hwritten :=
    relationAt_tryLink (run linkEventStep start before) ⟨fromId, toId, relationType⟩ weight (fromId, toId)
  rw [if_pos ⟨hpresent, rfl⟩] at hwritten
  rw [run_append, run_cons]
  exact relationAt_run hstrong hsteps.2.1.2 hunnamed hwritten

section Sample

/-- Two remembered rows of different topics, without a link. -/
def apartStore : Store := run linkStep {} [firstRemembered, secondApart]

/-- An explicit link that is deleted and asked for again. -/
def revived : List LinkEvent :=
  [.explicit "frag-01" "frag-02" .causedBy 1, .reconsolidate ("frag-01", "frag-02") .softDelete 3 fun _ => false,
    .explicit "frag-01" "frag-02" .causedBy 1]

/-- An explicit link and an automatic one of the same ends. -/
def replaced : List LinkEvent := [.explicit "frag-01" "frag-02" .causedBy 1, .related "frag-01" "frag-02" 1]

theorem explicitLinks_lost :
    ¬ ExplicitSurvive apartStore revived ∧ ¬ ExplicitSurvive apartStore replaced := by
  refine ⟨fun h => ?_, fun h => ?_⟩
  · have hspared := ((stepsMeet_survives_iff _ _).mp h.steps).2.2.1
    have hdeleted : present (run linkEventStep apartStore (revived.take 2)) ⟨"frag-01", "frag-02", .causedBy⟩ = true ∧
        ((run linkEventStep apartStore (revived.take 2)).links.holder ("frag-01", "frag-02")).bind Link.deletedAt ≠ none := by
      decide +kernel
    exact hdeleted.2 (hspared hdeleted.1)
  · have hspared := ((stepsMeet_survives_iff _ _).mp h.steps).2.1
    have hstrong : present (run linkEventStep apartStore (replaced.take 1)) ⟨"frag-01", "frag-02", .related⟩ = true ∧
        relationAt (run linkEventStep apartStore (replaced.take 1)) ("frag-01", "frag-02") = some .causedBy := by
      decide +kernel
    exact hspared hstrong.1 .causedBy (by decide) hstrong.2

end Sample

end FragmentMemory.LinkSurvival
