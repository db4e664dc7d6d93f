import FragmentMemory.EpisodeContinuityService
import FragmentMemory.SessionLinker

/-! # The key of what is created

Rows, links and events that the statements of a remember, of a batch and of a reflect add.  A link has no key column, so
it counts for the key of the row at which it starts.  The rows that were there keep their ids and keys.
-/
namespace FragmentMemory.CreatedRows
open ApiKeyStore FragmentTables FragmentWriter FragmentReader FragmentIndex FragmentFactory LinkStore CaseEventStore
  CaseHistory MemoryRememberer RememberLiveness RowPersistence BatchRememberProcessor EpisodeContinuityService
  SessionLinker UniqueIndexTable

/-- The row with the id has the key. -/
def HasKey (keyId : Option KeyId) (store : Store) (id : FragmentId) : Prop :=
  ∃ g ∈ store.fragments.rows, g.id = id ∧ g.keyId = keyId

/-- Everything that is new has the key. -/
structure CreatesUnder (keyId : Option KeyId) (before after : Store) : Prop where
  kept : ∀ f ∈ before.fragments.rows, HasKey f.keyId after f.id
  rows : ∀ g ∈ after.fragments.rows, HasKey g.keyId before g.id ∨ g.keyId = keyId
  links : ∀ l ∈ after.links.rows, (∃ m ∈ before.links.rows, m.fromId = l.fromId ∧ m.toId = l.toId) ∨
    HasKey keyId after l.fromId
  events : ∀ e ∈ after.caseEvents, e ∈ before.caseEvents ∨ e.keyId = keyId

variable {keyId : Option KeyId}

namespace CreatesUnder

theorem hasKey {before after : Store} (h : CreatesUnder keyId before after) {key : Option KeyId} {id : FragmentId}
    (hid : HasKey key before id) : HasKey key after id := by
  obtain ⟨f, hf, rfl, rfl⟩ := hid
  exact h.kept f hf

theorem of_eq {before after : Store} (hfragments : after.fragments = before.fragments)
    (hlinks : after.links = before.links)
    (hevents : after.caseEvents = before.caseEvents) : CreatesUnder keyId before after where
  kept f hf := ⟨f, hfragments ▸ hf, rfl, rfl⟩
  rows g hg := Or.inl ⟨g, hfragments ▸ hg, rfl, rfl⟩
  links l hl := Or.inl ⟨l, hlinks ▸ hl, rfl, rfl⟩
  events _ he := Or.inl (hevents ▸ he)

theorem refl (store : Store) : CreatesUnder keyId store store := of_eq rfl rfl rfl

theorem trans {first second third : Store} (h : CreatesUnder keyId first second)
    (h' : CreatesUnder keyId second third) :
    CreatesUnder keyId first third where
  kept f hf := h'.hasKey (h.kept f hf)
  rows g hg := by
    rcases h'.rows g hg with ⟨f, hf, hid, hkey⟩ | hnew
    · rw [← hid, ← hkey]
      exact h.rows f hf
    · exact Or.inr hnew
  links l hl := by
    rcases h'.links l hl with ⟨m, hm, hfrom, hto⟩ | hnew
    · rcases h.links m hm with ⟨earlier, hearlier, hfrom', hto'⟩ | hnew
      · exact Or.inl ⟨earlier, hearlier, hfrom'.trans hfrom, hto'.trans hto⟩
      · exact Or.inr (hfrom ▸ h'.hasKey hnew)
    · exact Or.inr hnew
  events e he := by
    rcases h'.events e he with hold | hnew
    · exact h.events e hold
    · exact Or.inr hnew

theorem foldl {α : Type*} {items : List α} {op : Store → α → Store} {start : Store}
    (hop : ∀ current, ∀ item ∈ items, CreatesUnder keyId current (op current item)) :
    CreatesUnder keyId start (items.foldl op start) := by
  induction items generalizing start with
  | nil => exact refl start
  | cons item later ih =>
    have hfirst := hop start item List.mem_cons_self
    exact hfirst.trans (ih fun current other hother => hop current other (List.mem_cons_of_mem _ hother))

end CreatesUnder

theorem creates_updateFragments (store : Store) (cond : Fragment → Bool) (change : ColumnUpdate) :
    CreatesUnder keyId store (store.updateFragments cond change) := by
  have hchanged : ∀ f, (if cond f then change.set f else f).id = f.id ∧
      (if cond f then change.set f else f).keyId = f.keyId := by
    intro f
    split
    · exact ⟨change.id_set f, change.keyId_set f⟩
    · exact ⟨rfl, rfl⟩
  refine ⟨fun f hf => ⟨_, updated_mem_updateFragments hf cond change, hchanged f⟩, fun g hg => ?_,
    fun l hl => Or.inl ⟨l, hl, rfl, rfl⟩, fun e he => Or.inl he⟩
  obtain ⟨f, hf, rfl⟩ := (mem_updateFragments_iff store).mp hg
  exact Or.inl ⟨f, hf, (hchanged f).1.symm, (hchanged f).2.symm⟩

theorem creates_updateLinks {store : Store} {cond : Link → Bool} {set : Link → Link}
    (hset : ∀ l, (set l).entries = l.entries) :
    CreatesUnder keyId store { store with links := store.links.update cond set hset } := by
  refine ⟨fun f hf => ⟨f, hf, rfl, rfl⟩, fun g hg => Or.inl ⟨g, hg, rfl, rfl⟩, fun l hl => ?_, fun e he => Or.inl he⟩
  obtain ⟨m, hm, rfl⟩ := (Table.mem_update_iff store.links hset).mp hl
  refine Or.inl ⟨m, hm, ?_⟩
  split
  · have hends := hset m
    simp only [Link.entries, List.cons.injEq, Prod.mk.injEq, and_true] at hends
    exact ⟨hends.1.symm, hends.2.symm⟩
  · exact ⟨rfl, rfl⟩

/-- An upsert of a link that starts at a row of the key. -/
theorem creates_upsertLink {store : Store} {links : LinkTable} {row : Link} {set : Link → Link}
    {hset : ∀ l, (set l).entries = l.entries} {ends : FragmentId × FragmentId} (hfrom : HasKey keyId store row.fromId)
    (h : store.links.upsert ends row set hset = some links) :
    CreatesUnder keyId store { store with links := links } := by
  rcases Table.upsert_cases h with ⟨held, -, rfl⟩ | ⟨-, hinsert⟩
  · exact creates_updateLinks hset
  · refine ⟨fun f hf => ⟨f, hf, rfl, rfl⟩, fun g hg => Or.inl ⟨g, hg, rfl, rfl⟩, fun l hl => ?_, fun e he => Or.inl he⟩
    simp only [Table.rows_insert hinsert, List.mem_append, List.mem_singleton] at hl
    rcases hl with hold | rfl
    · exact Or.inl ⟨l, hold, rfl, rfl⟩
    · exact Or.inr hfrom

theorem creates_createLink {store next : Store} {fromId toId : FragmentId} {relationType : RelationType} {weight : ℚ}
    (hfrom : HasKey keyId store fromId) (h : createLink store fromId toId relationType weight = some next) :
    CreatesUnder keyId store next := by
  obtain ⟨-, -, links, hupsert, rfl⟩ := createLink_eq_some h
  have hlinks := @creates_upsertLink keyId store links
    { fromId := fromId, toId := toId, relationType := relationType, weight := weight } _ _ _ hfrom hupsert
  exact (hlinks.trans (creates_updateFragments _ _ _)).trans (creates_updateFragments _ _ _)

theorem creates_tryLink {store : Store} {fromId toId : FragmentId} {relationType : RelationType} {weight : ℚ}
    (hfrom : HasKey keyId store fromId) : CreatesUnder keyId store (tryLink store fromId toId relationType weight) := by
  rw [tryLink]
  rcases hcreate : createLink store fromId toId relationType weight with _ | next
  · exact CreatesUnder.refl store
  · exact creates_createLink hfrom hcreate

/-- Links from one row of the key to other rows. -/
theorem creates_linkAll {store : Store} {id : FragmentId} (hid : HasKey keyId store id) (found : List Fragment)
    (relationType : RelationType) (weight : Fragment → ℚ) :
    CreatesUnder keyId store (found.foldl (fun current g => tryLink current id g.id relationType (weight g)) store) := by
  induction found generalizing store with
  | nil => exact CreatesUnder.refl store
  | cons g later ih =>
    have hfirst := @creates_tryLink keyId store id g.id relationType (weight g) hid
    exact hfirst.trans (ih (hfirst.hasKey hid))

/-- The upsert of a row of the key, which reports the id of a row of the key. -/
theorem creates_upsertRow {now : Time} {store next : Store} {row : Fragment} {id : FragmentId}
    (hrow : row.keyId = keyId)
    (h : upsertRow now store row = some (next, id)) : CreatesUnder keyId store next ∧ HasKey keyId next id := by
  have hreported := (upsertRow_rows h).1
  rw [hrow] at hreported
  refine ⟨?_, hreported⟩
  rcases upsertRow_cases h with ⟨held, -, -, -, -, rfl⟩ | ⟨-, -, fragments, hinsert, rfl⟩
  · exact creates_updateFragments _ _ _
  · have hrows := Table.rows_insert hinsert
    refine ⟨fun f hf => ⟨f, ?_, rfl, rfl⟩, fun g hg => ?_, fun l hl => Or.inl ⟨l, hl, rfl, rfl⟩, fun e he => Or.inl he⟩
    · simp only [hrows]
      exact List.mem_append_left _ hf
    · simp only [hrows, List.mem_append, List.mem_singleton] at hg
      rcases hg with hold | rfl
      · exact Or.inl ⟨g, hold, rfl, rfl⟩
      · exact Or.inr hrow

/-! ## A remember -/

variable {settings : Settings} {draws : Draws}

theorem creates_afterSearch (store : Store) (found : List Fragment) (callerKey : Option KeyId) :
    CreatesUnder keyId store (afterSearch settings draws store found callerKey) := by
  have hcached : ∀ (ids : List FragmentId) (current : Store), CreatesUnder keyId current
      (ids.foldl (fun current id => cacheFragment settings.redisReady current id callerKey) current) := by
    intro ids current
    refine CreatesUnder.foldl fun middle id _ => CreatesUnder.of_eq cacheFragment_fragments cacheFragment_links ?_
    rw [cacheFragment]
    split <;> rfl
  exact ((creates_updateFragments _ _ _).trans (creates_updateFragments _ _ _)).trans (hcached _ _)

theorem creates_index (store : Store) (f : Fragment) (sessionId : Option String) (callerKey : Option KeyId)
    (ready : Bool)
    (tools : TextTools) : CreatesUnder keyId store (index ready tools store f sessionId callerKey) := by
  refine CreatesUnder.of_eq index_fragments index_links ?_
  rw [index]
  split <;> rfl

theorem creates_checkAssertionConsistency (store : Store) (f : Fragment) (callerKey : Option KeyId) :
    CreatesUnder keyId store (checkAssertionConsistency settings draws store f callerKey) := by
  simp only [checkAssertionConsistency]
  split
  · exact CreatesUnder.refl store
  · split
    · refine CreatesUnder.trans ?_ (creates_updateFragments _ _ _)
      split
      · exact CreatesUnder.foldl fun current g _ => creates_updateLinks _
      · exact CreatesUnder.refl store
    · exact CreatesUnder.refl store

theorem creates_proactiveRecall {store : Store} {f : Fragment} (hid : HasKey keyId store f.id)
    (callerKey : Option KeyId) :
    CreatesUnder keyId store (proactiveRecall settings draws store f callerKey) := by
  simp only [proactiveRecall]
  split
  · exact CreatesUnder.refl store
  · have hsearched := @creates_afterSearch keyId settings draws store
      (searchRows store draws.proactiveRanking "default" callerKey) callerKey
    exact hsearched.trans (creates_linkAll (hsearched.hasKey hid) _ .related fun _ => 1)

/-- What follows the insert links from the row of the fragment. -/
theorem creates_postProcess {store : Store} {f : Fragment} (hid : HasKey keyId store f.id) (caller : Caller) :
    CreatesUnder keyId store (postProcess settings draws store f caller) := by
  have hlinked : CreatesUnder keyId store (linkOwned store f caller.agentId caller.keyId) :=
    creates_linkAll hid _ .related fun _ => 1
  have hchecked := hlinked.trans (@creates_checkAssertionConsistency keyId settings draws _ f caller.keyId)
  have htemporal : ∀ current, HasKey keyId current f.id → CreatesUnder keyId current
      (linkTemporalNeighbors current { f with createdAt := draws.now } caller.groups) := by
    intro current hcurrent
    simp only [linkTemporalNeighbors]
    split
    · exact CreatesUnder.refl current
    · exact creates_linkAll hcurrent _ .temporal _
  have hboth := hchecked.trans (htemporal _ (hchecked.hasKey hid))
  exact hboth.trans (creates_proactiveRecall (hboth.hasKey hid) caller.keyId)

theorem creates_recordEvent (store : Store) (f : Fragment) :
    CreatesUnder keyId store (recordEvent draws store f keyId) := by
  have hframe : EventsOnly store (recordEvent draws store f keyId) := by
    simp only [recordEvent]
    split
    · exact eventsOnly_recordCaseEvent _ _ _ _ _ _
    · exact EventsOnly.refl store
  refine ⟨fun g hg => ⟨g, hframe.fragments ▸ hg, rfl, rfl⟩, fun g hg => Or.inl ⟨g, hframe.fragments ▸ hg, rfl, rfl⟩,
    fun l hl => Or.inl ⟨l, hframe.links ▸ hl, rfl, rfl⟩, fun e he => ?_⟩
  rcases recordStep_cases store ⟨draws, f, keyId⟩ with ⟨hsame, -⟩ | ⟨caseId, eventType, -, -, hevents, -⟩
  · rw [recordStep] at hsame
    rw [hsame] at he
    exact Or.inl he
  · rw [recordStep] at hevents
    rw [hevents, List.mem_append, List.mem_singleton] at he
    rcases he with hold | rfl
    · exact Or.inl hold
    · exact Or.inr rfl

/-- A remember that supersedes nothing creates under the key of its caller. -/
theorem creates_finalizeRemember {store : Store} {f : Fragment} {indexSession : Option String} {caller : Caller}
    {params : RememberParams} (hid : HasKey caller.keyId store f.id) (hnone : params.supersedes = []) :
    CreatesUnder caller.keyId store (finalizeRemember settings draws store f indexSession caller params) := by
  have hindexed := @creates_index caller.keyId store f indexSession f.keyId settings.redisReady settings.tools
  have hprocessed := hindexed.trans (@creates_postProcess caller.keyId settings draws _ f (hindexed.hasKey hid) caller)
  have hsearched :
    ∀ current, CreatesUnder caller.keyId current (searchConflicts settings draws current caller params) := by
    intro current
    simp only [searchConflicts]
    split
    · exact CreatesUnder.refl current
    · exact creates_afterSearch current _ caller.keyId
  have hconflicts := hprocessed.trans (hsearched _)
  have htopic : ∀ current, HasKey caller.keyId current f.id →
      CreatesUnder caller.keyId current (autoLinkOnRemember current f caller.agentId) := by
    intro current hcurrent
    simp only [autoLinkOnRemember]
    split
    · exact CreatesUnder.refl current
    · exact creates_linkAll hcurrent _ .related fun _ => 1
  have hlinked := hconflicts.trans (htopic _ (hconflicts.hasKey hid))
  have hlowered : ∀ current, CreatesUnder caller.keyId current (lowerTier current f params caller.keyId) := by
    intro current
    simp only [lowerTier]
    split
    · exact creates_updateFragments _ _ _
    · exact CreatesUnder.refl current
  simp only [finalizeRemember, supersedeAll, hnone, List.foldl_nil]
  exact (hlinked.trans (hlowered _)).trans (creates_recordEvent _ f)

theorem creates_autoAssignCaseId (store : Store) (params : RememberParams) (caller : Caller) :
    CreatesUnder keyId store (autoAssignCaseId draws store params caller).1 := by
  simp only [autoAssignCaseId]
  split
  · split
    · split
      · exact CreatesUnder.refl store
      · split
        · exact CreatesUnder.refl store
        · split
          · exact CreatesUnder.refl store
          · exact CreatesUnder.foldl fun current id _ => creates_updateFragments _ _ _
    · exact CreatesUnder.refl store
  · exact CreatesUnder.refl store

theorem creates_remember (store : Store) {params : RememberParams} (caller : Caller) (hnone : params.supersedes = []) :
    CreatesUnder caller.keyId store (remember settings draws store params caller).1 := by
  rcases remember_cases settings draws store params caller with
    ⟨accepted, indexSession, haccepted, hstored⟩ | ⟨-, hsame | ⟨found, hsearched⟩⟩
  · obtain ⟨caseId, hbuild, hinsert⟩ := acceptNew_spec haccepted
    have hkey : (prepareInsertRow settings.digests draws.now accepted.fragment).keyId = caller.keyId :=
      (buildFragment_spec hbuild).1
    obtain ⟨hinserted, hid⟩ := creates_upsertRow hkey hinsert
    have hassigned := @creates_autoAssignCaseId caller.keyId draws store params caller
    rw [hstored]
    exact (hassigned.trans hinserted).trans (creates_finalizeRemember hid hnone)
  · rw [hsame]
    exact CreatesUnder.refl store
  · rw [hsearched]
    exact creates_afterSearch store found caller.keyId

/-! ## A batch, links within a session and a milestone -/

variable {digests : Digests} {tools : TextTools} {context : BatchContext}

theorem creates_insertAll {items : List (ℕ × Fragment)} {store next : Store}
    {inserted : List (ℕ × Fragment × FragmentId)} (hitems : ∀ item ∈ items, item.2.keyId = keyId)
    (h : insertAll context store items = some (next, inserted)) :
    CreatesUnder keyId store next ∧ ∀ item ∈ inserted, HasKey keyId next item.2.2 := by
  induction items generalizing store inserted with
  | nil =>
    cases h
    exact ⟨CreatesUnder.refl _, fun item hitem => absurd hitem List.not_mem_nil⟩
  | cons item later ih =>
    obtain ⟨position, f⟩ := item
    simp only [insertAll] at h
    split at h
    · cases h
    · rename_i middle id hupsert
      obtain ⟨⟨done, rest⟩, hlater, hresult⟩ := Option.map_eq_some_iff.mp h
      obtain rfl : done = next := (Prod.mk.inj hresult).1
      have hinserted := (Prod.mk.inj hresult).2
      have hkey : (insertRow context f).keyId = keyId := hitems _ List.mem_cons_self
      obtain ⟨hfirst, hid⟩ := creates_upsertRow hkey hupsert
      obtain ⟨hrest, hids⟩ := ih (fun other hother => hitems other (List.mem_cons_of_mem _ hother)) hlater
      refine ⟨hfirst.trans hrest, fun other hother => ?_⟩
      rw [← hinserted] at hother
      rcases List.mem_cons.mp hother with rfl | hmem
      · exact hrest.hasKey hid
      · exact hids other hmem

theorem creates_indexInserted (store : Store) (inserted : List (ℕ × Fragment × FragmentId))
    (results : List ItemResult) :
    CreatesUnder keyId store (indexInserted tools context store inserted results) := by
  refine CreatesUnder.foldl fun current item _ => ?_
  split
  · exact creates_index _ _ _ _ _ _
  · exact CreatesUnder.refl current

/-- A batch creates under its key, and what it reports are rows of the key. -/
theorem creates_process (store : Store) (items : List (Option BatchItem)) :
    CreatesUnder context.keyId store (process digests tools context store items).1 ∧
      ∀ batch, (process digests tools context store items).2 = .ok batch → ∀ r ∈ batch.results, r.success = true →
        ∀ id, r.id = some id → HasKey context.keyId (process digests tools context store items).1 id := by
  have hvalid := fun r => @mem_validFragments_of_success digests tools context items r
  simp only [process]
  split
  · exact ⟨CreatesUnder.refl store, fun batch hbatch => by cases hbatch⟩
  · split
    · rename_i hempty
      refine ⟨CreatesUnder.refl store, fun batch hbatch r hr hsuccess => ?_⟩
      cases hbatch
      obtain ⟨f, hf⟩ := hvalid r hr hsuccess
      rw [hempty] at hf
      cases hf
    · split
      · refine ⟨CreatesUnder.refl store, fun batch hbatch r hr hsuccess id hid => ?_⟩
        cases hbatch
        have hreported := @success_reported _ (validFragments digests tools context items) 0 [] hvalid rfl
        simp only [recordIds, List.find?_nil, List.map_id_fun', id_eq, List.drop_zero] at hreported
        obtain ⟨item, hitem, -⟩ := hreported r hr hsuccess id hid
        cases hitem
      · split
        · exact ⟨CreatesUnder.refl store, fun batch hbatch => by cases hbatch⟩
        · rename_i next inserted hinsert
          have hkeys : ∀ item ∈ (validFragments digests tools context items).take
              ((remainingSlots context store).getD (validFragments digests tools context items).length),
              item.2.keyId = context.keyId := fun item hitem => (validFragments_spec (List.mem_of_mem_take hitem)).1
          obtain ⟨hinserted, hids⟩ := creates_insertAll hkeys hinsert
          refine ⟨hinserted.trans (creates_indexInserted next inserted _), fun batch hbatch r hr hsuccess id hid => ?_⟩
          cases hbatch
          obtain ⟨item, hitem, rfl⟩ := success_reported hvalid (insertAll_items hinsert) r hr hsuccess id hid
          exact (@creates_indexInserted context.keyId tools context next inserted _).hasKey (hids item hitem)

/-- The pairs of a batch of links that start at rows of the key. -/
theorem creates_insertLinks {pairs : List LinkPair} {store next : Store}
    (hpairs : ∀ pair ∈ pairs, HasKey keyId store pair.fromId) (h : insertLinks store pairs = some next) :
    CreatesUnder keyId store next := by
  induction pairs generalizing store with
  | nil =>
    cases h
    exact CreatesUnder.refl _
  | cons pair later ih =>
    simp only [insertLinks] at h
    split at h
    · obtain ⟨links, hlinks, hnext⟩ := Option.bind_eq_some_iff.mp h
      have hfirst := @creates_upsertLink keyId store links
        { fromId := pair.fromId, toId := pair.toId, relationType := pair.relationType } _ _ _
        (hpairs pair List.mem_cons_self) hlinks
      exact hfirst.trans (ih (fun other hother => hfirst.hasKey (hpairs other (List.mem_cons_of_mem _ hother))) hnext)
    · cases h

theorem creates_createEach {pairs : List LinkPair} {store : Store}
    (hpairs : ∀ pair ∈ pairs, HasKey keyId store pair.fromId) :
    CreatesUnder keyId store (createEach store pairs) := by
  induction pairs generalizing store with
  | nil => exact CreatesUnder.refl store
  | cons pair later ih =>
    have hfirst :=
      @creates_tryLink keyId store pair.fromId pair.toId pair.relationType 1 (hpairs pair List.mem_cons_self)
    exact hfirst.trans (ih fun other hother => hfirst.hasKey (hpairs other (List.mem_cons_of_mem _ hother)))

theorem fromId_of_mem_matchPairs {sources targets : List SessionFragment} {relationType : RelationType}
    {candidate : LinkPair × Bool} (h : candidate ∈ matchPairs tools sources targets relationType) :
    ∃ f ∈ sources, candidate.1.fromId = f.id := by
  obtain ⟨f, hf, hmatch⟩ := List.mem_filterMap.mp h
  obtain ⟨g, -, rfl⟩ := Option.map_eq_some_iff.mp hmatch
  exact ⟨f, hf, rfl⟩

/-- Links within a session start at its fragments. -/
theorem fromId_of_mem_validPairs {store : Store} {fragments : List SessionFragment} {callerKey : Option KeyId}
    {pair : LinkPair}
    (h : pair ∈ validPairs tools store fragments callerKey) : ∃ f ∈ fragments, pair.fromId = f.id := by
  have hauto := (List.perm_insertionSort _ _).mem_iff.mp (List.mem_filter.mp h).1
  obtain ⟨candidate, hcandidate, rfl⟩ := List.mem_map.mp hauto
  rcases List.mem_append.mp (List.mem_filter.mp hcandidate).1 with hcaused | hresolved
  · obtain ⟨f, hf, hid⟩ := fromId_of_mem_matchPairs hcaused
    exact ⟨f, (List.mem_filter.mp hf).1, hid⟩
  · obtain ⟨f, hf, hid⟩ := fromId_of_mem_matchPairs hresolved
    exact ⟨f, (List.mem_filter.mp hf).1, hid⟩

theorem creates_autoLink {store : Store} {fragments : List SessionFragment}
    (hfragments : ∀ f ∈ fragments, HasKey keyId store f.id)
    (callerKey : Option KeyId) :
    CreatesUnder keyId store (autoLinkSessionFragments tools store fragments callerKey).store := by
  have hpairs : ∀ pair ∈ validPairs tools store fragments callerKey, HasKey keyId store pair.fromId := by
    intro pair hpair
    obtain ⟨f, hf, hid⟩ := fromId_of_mem_validPairs hpair
    rw [hid]
    exact hfragments f hf
  simp only [autoLinkSessionFragments]
  rcases hcreated : createLinks store (validPairs tools store fragments callerKey) with _ | next
  · exact creates_createEach hpairs
  · simp only [createLinks] at hcreated
    split at hcreated
    · obtain ⟨inserted, hinserted, rfl⟩ := Option.map_eq_some_iff.mp hcreated
      exact ((creates_insertLinks hpairs hinserted).trans (creates_updateFragments _ _ _)).trans
        (creates_updateFragments _ _ _)
    · cases hcreated

theorem creates_linkEpisodeMilestone (state : Continuity) (params : MilestoneParams) :
    CreatesUnder params.keyId state.store (linkEpisodeMilestone state params).store := by
  by_cases hinserts : inserts state params = true
  · have hevents := (linkEpisodeMilestone_spec hinserts).1
    have hframe : EventsOnly state.store (linkEpisodeMilestone state params).store := by
      have hrow : EventsOnly state.store
          { state.store with caseEvents := state.store.caseEvents ++ [milestoneEvent state.store params] } :=
            ⟨rfl, rfl, rfl⟩
      simp only [linkEpisodeMilestone, if_pos hinserts]
      split
      · split
        · exact hrow.trans (eventsOnly_addEdge _ _)
        · exact hrow
      · exact hrow
    refine ⟨fun g hg => ⟨g, hframe.fragments ▸ hg, rfl, rfl⟩, fun g hg => Or.inl ⟨g, hframe.fragments ▸ hg, rfl, rfl⟩,
      fun l hl => Or.inl ⟨l, hframe.links ▸ hl, rfl, rfl⟩, fun e he => ?_⟩
    rw [hevents, List.mem_append, List.mem_singleton] at he
    rcases he with hold | rfl
    · exact Or.inl hold
    · exact Or.inr rfl
  · rw [linkEpisodeMilestone, if_neg hinserts]
    exact CreatesUnder.refl state.store

end FragmentMemory.CreatedRows
