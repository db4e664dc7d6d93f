import FragmentMemory.RowPersistence

/-! # What linking adds

A link is stored twice, as a row of `fragment_links` and in the `linked_to` arrays of both of its ends.
Here is what the statements of a remember and of the link requests add to the two, in terms of the pairs
that they join; none of them takes anything away, and none of them makes a row live.
-/
namespace FragmentMemory.LinkGrowth
open ApiKeyStore FragmentTables FragmentFactory FragmentWriter FragmentReader FragmentIndex LinkStore CaseEventStore
  MemoryRememberer RememberLiveness RowPersistence UniqueIndexTable

abbrev Ends := List (FragmentId × FragmentId)

def HasRow (store : Store) (id : FragmentId) : Prop := ∃ f ∈ store.fragments.rows, f.id = id

/-- A row of the links that is the other one up to its relation, weight and confidence. -/
structure SameLink (l m : Link) : Prop where
  fromId : m.fromId = l.fromId
  toId : m.toId = l.toId
  deletedAt : m.deletedAt = l.deletedAt

theorem SameLink.refl (l : Link) : SameLink l l := ⟨rfl, rfl, rfl⟩

theorem SameLink.trans {l m n : Link} (h : SameLink l m) (h' : SameLink m n) : SameLink l n :=
  ⟨h'.fromId.trans h.fromId, h'.toId.trans h.toId, h'.deletedAt.trans h.deletedAt⟩

/-- The rows of the links when the pairs are joined. -/
structure LinksGrow (ends : Ends) (before after : LinkTable) : Prop where
  kept : ∀ l ∈ before.rows, ∃ m ∈ after.rows, SameLink l m
  origin : ∀ m ∈ after.rows, (∃ l ∈ before.rows, SameLink l m) ∨ ((m.fromId, m.toId) ∈ ends ∧ m.deletedAt = none)
  joined : ∀ pair ∈ ends, ∃ m ∈ after.rows, (m.fromId, m.toId) = pair

/-- A row when the pairs are joined. -/
structure RowGrows (ends : Ends) (f g : Fragment) : Prop where
  id : g.id = f.id
  live : g.live = true → f.live = true
  linkedTo : ∀ other, other ∈ g.linkedTo ↔ other ∈ f.linkedTo ∨ (f.id, other) ∈ ends ∨ (other, f.id) ∈ ends

/-- The store when the pairs are joined. -/
structure Grows (ends : Ends) (before after : Store) : Prop where
  persists : Persists (RowGrows ends) before after
  covers : ∀ g ∈ after.fragments.rows, ∃ f ∈ before.fragments.rows, RowGrows ends f g
  links : LinksGrow ends before.links after.links
  present : ∀ pair ∈ ends, HasRow before pair.1 ∧ HasRow before pair.2

/-- The store when some pairs are joined. -/
def Gains (before after : Store) : Prop := ∃ ends, Grows ends before after

namespace LinksGrow

theorem refl (links : LinkTable) : LinksGrow [] links links where
  kept l hl := ⟨l, hl, SameLink.refl l⟩
  origin m hm := Or.inl ⟨m, hm, SameLink.refl m⟩
  joined pair hpair := by cases hpair

theorem trans {ends ends' : Ends} {first second third : LinkTable} (h : LinksGrow ends first second)
    (h' : LinksGrow ends' second third) : LinksGrow (ends ++ ends') first third where
  kept l hl := by
    obtain ⟨m, hm, hlm⟩ := h.kept l hl
    obtain ⟨n, hn, hmn⟩ := h'.kept m hm
    exact ⟨n, hn, hlm.trans hmn⟩
  origin n hn := by
    rcases h'.origin n hn with ⟨m, hm, hmn⟩ | ⟨hends, hlive⟩
    · rcases h.origin m hm with ⟨l, hl, hlm⟩ | ⟨hends, hlive⟩
      · exact Or.inl ⟨l, hl, hlm.trans hmn⟩
      · rw [hmn.fromId, hmn.toId, hmn.deletedAt]
        exact Or.inr ⟨List.mem_append_left _ hends, hlive⟩
    · exact Or.inr ⟨List.mem_append_right _ hends, hlive⟩
  joined pair hpair := by
    rcases List.mem_append.mp hpair with hfirst | hsecond
    · obtain ⟨m, hm, hends⟩ := h.joined pair hfirst
      obtain ⟨n, hn, hmn⟩ := h'.kept m hm
      exact ⟨n, hn, by rw [hmn.fromId, hmn.toId, hends]⟩
    · exact h'.joined pair hsecond

/-- An upsert of a link joins its ends. -/
theorem of_upsert {links next : LinkTable} {row : Link} {set : Link → Link}
    {hset : ∀ l, (set l).entries = l.entries} (hdeleted : ∀ l, (set l).deletedAt = l.deletedAt)
    (hrow : row.deletedAt = none)
    (h : links.upsert (row.fromId, row.toId) row set hset = some next) :
    LinksGrow [(row.fromId, row.toId)] links next := by
  have hsame : ∀ l, SameLink l (set l) := by
    intro l
    have hentries := hset l
    simp only [Link.entries, List.cons.injEq, Prod.mk.injEq, and_true] at hentries
    exact ⟨hentries.1, hentries.2, hdeleted l⟩
  rcases Table.upsert_cases h with ⟨held, hheld, rfl⟩ | ⟨-, hinsert⟩
  · have hchanged : ∀ (l : Link) (chosen : Bool), SameLink l (if chosen then set l else l) := by
      intro l chosen
      split
      · exact hsame l
      · exact SameLink.refl l
    refine ⟨fun l hl => ?_, fun m hm => ?_, fun pair hpair => ?_⟩
    · exact ⟨_, (Table.mem_update_iff _ _).mpr ⟨l, hl, rfl⟩, hchanged l _⟩
    · obtain ⟨l, hl, rfl⟩ := (Table.mem_update_iff _ _).mp hm
      exact Or.inl ⟨l, hl, hchanged l _⟩
    · obtain ⟨hmem, hentry⟩ := (Table.holder_eq_some_iff _).mp hheld
      have hends : (row.fromId, row.toId) = (held.fromId, held.toId) := List.mem_singleton.mp hentry
      refine ⟨_, (Table.mem_update_iff _ _).mpr ⟨held, hmem, rfl⟩, ?_⟩
      rw [(hchanged held _).fromId, (hchanged held _).toId, List.mem_singleton.mp hpair, hends]
  · have hrows := Table.rows_insert hinsert
    refine ⟨fun l hl => ?_, fun m hm => ?_, fun pair hpair => ?_⟩
    · rw [hrows]
      exact ⟨l, List.mem_append_left _ hl, SameLink.refl l⟩
    · rw [hrows] at hm
      rcases List.mem_append.mp hm with hold | hnew
      · exact Or.inl ⟨m, hold, SameLink.refl m⟩
      · rw [List.mem_singleton.mp hnew]
        exact Or.inr ⟨List.mem_singleton.mpr rfl, hrow⟩
    · rw [hrows]
      exact ⟨row, List.mem_append_right _ (List.mem_singleton.mpr rfl), (List.mem_singleton.mp hpair).symm⟩

end LinksGrow

theorem RowGrows.refl (f : Fragment) : RowGrows [] f f := ⟨rfl, fun hlive => hlive, fun _ => by simp⟩

theorem RowGrows.trans {ends ends' : Ends} {f g k : Fragment} (h : RowGrows ends f g) (h' : RowGrows ends' g k) :
    RowGrows (ends ++ ends') f k where
  id := h'.id.trans h.id
  live hk := h.live (h'.live hk)
  linkedTo other := by
    rw [h'.linkedTo, h.linkedTo, h.id]
    simp only [List.mem_append]
    tauto

namespace Grows

theorem hasRow_iff {ends : Ends} {before after : Store} (h : Grows ends before after) {id : FragmentId} :
    HasRow after id ↔ HasRow before id := by
  constructor
  · rintro ⟨g, hg, hid⟩
    obtain ⟨f, hf, hfg⟩ := h.covers g hg
    exact ⟨f, hf, hfg.id.symm.trans hid⟩
  · rintro ⟨f, hf, hid⟩
    obtain ⟨g, hg, hfg⟩ := h.persists f hf
    exact ⟨g, hg, hfg.id.trans hid⟩

theorem refl (store : Store) : Grows [] store store where
  persists f hf := ⟨f, hf, RowGrows.refl f⟩
  covers g hg := ⟨g, hg, RowGrows.refl g⟩
  links := LinksGrow.refl _
  present pair hpair := by cases hpair

theorem of_eq {before after : Store} (hfragments : after.fragments = before.fragments)
    (hlinks : after.links = before.links) :
    Grows [] before after := by
  have h := refl before
  exact ⟨fun f hf => ⟨f, hfragments ▸ hf, RowGrows.refl f⟩, fun g hg => ⟨g, hfragments ▸ hg, RowGrows.refl g⟩,
    hlinks ▸ h.links, h.present⟩

theorem trans {ends ends' : Ends} {first second third : Store} (h : Grows ends first second)
    (h' : Grows ends' second third) : Grows (ends ++ ends') first third where
  persists f hf := by
    obtain ⟨g, hg, hfg⟩ := h.persists f hf
    obtain ⟨k, hk, hgk⟩ := h'.persists g hg
    exact ⟨k, hk, hfg.trans hgk⟩
  covers k hk := by
    obtain ⟨g, hg, hgk⟩ := h'.covers k hk
    obtain ⟨f, hf, hfg⟩ := h.covers g hg
    exact ⟨f, hf, hfg.trans hgk⟩
  links := h.links.trans h'.links
  present pair hpair := by
    rcases List.mem_append.mp hpair with hfirst | hsecond
    · exact h.present pair hfirst
    · exact (h'.present pair hsecond).imp h.hasRow_iff.mp h.hasRow_iff.mp

end Grows

namespace Gains

theorem of_eq {before after : Store} (hfragments : after.fragments = before.fragments)
    (hlinks : after.links = before.links) :
    Gains before after := ⟨[], Grows.of_eq hfragments hlinks⟩

theorem refl (store : Store) : Gains store store := ⟨[], Grows.refl store⟩

theorem trans {first second third : Store} (h : Gains first second) (h' : Gains second third) : Gains first third := by
  obtain ⟨ends, hends⟩ := h
  obtain ⟨ends', hends'⟩ := h'
  exact ⟨ends ++ ends', hends.trans hends'⟩

theorem foldl {α : Type*} {items : List α} {op : Store → α → Store} {start : Store}
    (hop : ∀ current, ∀ item ∈ items, Gains current (op current item)) : Gains start (items.foldl op start) := by
  induction items generalizing start with
  | nil => exact refl start
  | cons item later ih =>
    have hfirst := hop start item List.mem_cons_self
    exact hfirst.trans (ih fun current other hother => hop current other (List.mem_cons_of_mem _ hother))

end Gains

/-- An update that neither touches the arrays nor makes a row live. -/
theorem grows_updateFragments {store : Store} {cond : Fragment → Bool} {change : ColumnUpdate}
    (hlinked : ∀ f, (change.set f).linkedTo = f.linkedTo) (hlive : ∀ f, (change.set f).live = true → f.live = true) :
    Grows [] store (store.updateFragments cond change) := by
  have hchanged : ∀ f, RowGrows [] f (if cond f then change.set f else f) := by
    intro f
    split
    · exact ⟨change.id_set f, hlive f, fun other => by simp [hlinked]⟩
    · exact RowGrows.refl f
  refine ⟨fun f hf => ⟨_, updated_mem_updateFragments hf cond change, hchanged f⟩, fun g hg => ?_, LinksGrow.refl _, ?_⟩
  · obtain ⟨f, hf, rfl⟩ := (mem_updateFragments_iff store).mp hg
    exact ⟨f, hf, hchanged f⟩
  · intro pair hpair
    cases hpair

/-- What `linkArray` adds to a row. -/
theorem mem_linkArray {id other : FragmentId} (f : Fragment) (x : FragmentId) :
    x ∈ (if f.id = id && !f.linkedTo.contains other then (appendLinked other).set f else f).linkedTo ↔
      x ∈ f.linkedTo ∨ (f.id = id ∧ x = other) := by
  by_cases hid : f.id = id
  · by_cases hmem : other ∈ f.linkedTo
    · simp only [hid, hmem, List.contains_eq_mem, decide_true, Bool.not_true, Bool.and_false, Bool.false_eq_true,
        if_false, true_and, iff_self_or]
      rintro rfl
      exact hmem
    · simp [hid, hmem, appendLinked]
  · simp [hid]

/-- A link joins its two ends. -/
theorem grows_createLink {store next : Store} {fromId toId : FragmentId} {relationType : RelationType} {weight : ℚ}
    (h : createLink store fromId toId relationType weight = some next) : Grows [(fromId, toId)] store next := by
  obtain ⟨⟨f, hf⟩, ⟨g, hg⟩, links, hupsert, rfl⟩ := createLink_eq_some h
  have hrows : ∀ r : Fragment, RowGrows [(fromId, toId)] r
      (if (if r.id = fromId && !r.linkedTo.contains toId then (appendLinked toId).set r else r).id = toId &&
          !(if r.id = fromId && !r.linkedTo.contains toId then (appendLinked toId).set r else r).linkedTo.contains fromId then
        (appendLinked fromId).set (if r.id = fromId && !r.linkedTo.contains toId then (appendLinked toId).set r else r)
      else (if r.id = fromId && !r.linkedTo.contains toId then (appendLinked toId).set r else r)) := by
    intro r
    have hsame : ∀ (k : Fragment) (id other : FragmentId),
        (if k.id = id && !k.linkedTo.contains other then (appendLinked other).set k else k).id = k.id ∧
        (if k.id = id && !k.linkedTo.contains other then (appendLinked other).set k else k).live = k.live := by
      intro k id other
      split <;> exact ⟨rfl, rfl⟩
    refine ⟨(hsame _ _ _).1.trans (hsame _ _ _).1, fun hlive => ?_, fun other => ?_⟩
    · rwa [(hsame _ _ _).2, (hsame _ _ _).2] at hlive
    · rw [mem_linkArray, mem_linkArray, (hsame _ _ _).1]
      simp only [List.mem_singleton, Prod.mk.injEq]
      tauto
  refine ⟨fun r hr => ?_, fun k hk => ?_, ?_, ?_⟩
  · exact ⟨_, updated_mem_updateFragments (updated_mem_updateFragments hr _ _) _ _, hrows r⟩
  · obtain ⟨middle, hmiddle, rfl⟩ := (mem_updateFragments_iff _).mp hk
    obtain ⟨r, hr, rfl⟩ := (mem_updateFragments_iff _).mp hmiddle
    exact ⟨r, hr, hrows r⟩
  · exact @LinksGrow.of_upsert store.links links
      { fromId := fromId, toId := toId, relationType := relationType, weight := weight } (renewLink relationType weight)
      (fun _ => rfl) (fun _ => rfl) rfl hupsert
  · intro pair hpair
    rw [List.mem_singleton.mp hpair]
    exact ⟨⟨f, (byId_eq_some_iff _).mp hf⟩, ⟨g, (byId_eq_some_iff _).mp hg⟩⟩

theorem gains_tryLink (store : Store) (fromId toId : FragmentId) (relationType : RelationType) (weight : ℚ) :
    Gains store (tryLink store fromId toId relationType weight) := by
  simp only [tryLink]
  cases hcreate : createLink store fromId toId relationType weight with
  | none => exact Gains.refl store
  | some next => exact ⟨_, grows_createLink hcreate⟩

/-- Links from one row to other rows join all of them with it. -/
theorem grows_linkAll {store : Store} {id : FragmentId} (hid : HasRow store id) {found : List Fragment}
    (hfound : ∀ g ∈ found, HasRow store g.id) (relationType : RelationType) (weight : Fragment → ℚ) :
    Grows (found.map fun g => (id, g.id)) store
      (found.foldl (fun current g => tryLink current id g.id relationType (weight g)) store) := by
  induction found generalizing store with
  | nil => exact Grows.refl store
  | cons g later ih =>
    obtain ⟨f, hf, hfid⟩ := hid
    obtain ⟨k, hk, hkid⟩ := hfound g List.mem_cons_self
    obtain ⟨next, hnext⟩ := createLink_isSome hf hk hfid hkid relationType (weight g)
    have hfirst := grows_createLink hnext
    have hlinked : tryLink store id g.id relationType (weight g) = next := by
      rw [tryLink, hnext, Option.getD_some]
    rw [List.foldl_cons, hlinked]
    exact hfirst.trans (ih (hfirst.hasRow_iff.mpr ⟨f, hf, hfid⟩) fun other hother =>
      hfirst.hasRow_iff.mpr (hfound other (List.mem_cons_of_mem _ hother)))

variable {settings : Settings} {draws : Draws}

theorem links_cacheAll (ready : Bool) (ids : List FragmentId) (keyId : Option KeyId) (store : Store) :
    (ids.foldl (fun current id => cacheFragment ready current id keyId) store).links = store.links := by
  induction ids generalizing store with
  | nil => rfl
  | cons id later ih => rw [List.foldl_cons, ih, cacheFragment_links]

theorem gains_afterSearch (store : Store) (found : List Fragment) (keyId : Option KeyId) :
    Gains store (afterSearch settings draws store found keyId) := by
  have hcounted : Gains store (store.updateFragments (fun f => (found.map Fragment.id).contains f.id) (access draws)) :=
    ⟨_, grows_updateFragments (fun _ => rfl) fun _ h => h⟩
  have htouched : Gains store (touchLinked draws.now
      (store.updateFragments (fun f => (found.map Fragment.id).contains f.id) (access draws))
      (found.map Fragment.id) keyId) :=
    hcounted.trans ⟨_, grows_updateFragments (fun _ => rfl) fun _ h => h⟩
  exact htouched.trans (Gains.of_eq (fragments_cacheAll _ _ _ _) (links_cacheAll _ _ _ _))

/-- A reconsolidation that deletes nothing. -/
theorem gains_reconsolidateLinks (store : Store) {action : ReconsolidateAction} (haction : action ≠ .softDelete)
    (now : Time) (recentlyDecayed : FragmentId × FragmentId → Bool) (chosen : Link → Bool) :
    Gains store (reconsolidateLinks store action now recentlyDecayed chosen) := by
  have hchanged : ∀ (l : Link) (selected : Bool),
      SameLink l (if selected then reconsolidated action now l else l) := by
    intro l selected
    split
    · exact ⟨rfl, rfl, if_neg haction⟩
    · exact SameLink.refl l
  refine ⟨[], fun f hf => ⟨f, hf, RowGrows.refl f⟩, fun g hg => ⟨g, hg, RowGrows.refl g⟩, ⟨?_, ?_, ?_⟩, ?_⟩
  · intro l hl
    exact ⟨_, List.mem_map_of_mem hl, hchanged l _⟩
  · intro m hm
    obtain ⟨l, hl, rfl⟩ := List.mem_map.mp hm
    exact Or.inl ⟨l, hl, hchanged l _⟩
  · intro pair hpair
    cases hpair
  · intro pair hpair
    cases hpair

theorem gains_checkAssertionConsistency (store : Store) (f : Fragment) (keyId : Option KeyId) :
    Gains store (checkAssertionConsistency settings draws store f keyId) := by
  have hpatch : ∀ current, Gains current (patchAssertion current f.id .inferred keyId) :=
    fun current => ⟨_, grows_updateFragments (fun _ => rfl) fun _ h => h⟩
  simp only [checkAssertionConsistency]
  split
  · exact Gains.refl store
  · split
    · refine Gains.trans ?_ (hpatch _)
      split
      · exact Gains.foldl fun current g _ => gains_reconsolidateLinks current (by decide) _ _ _
      · exact Gains.refl store
    · exact Gains.refl store

theorem gains_linkAll (store : Store) (id : FragmentId) (found : List Fragment) (relationType : RelationType)
    (weight : Fragment → ℚ) :
    Gains store (found.foldl (fun current g => tryLink current id g.id relationType (weight g)) store) :=
  Gains.foldl fun current g _ => gains_tryLink current id g.id relationType (weight g)

theorem gains_linkTemporalNeighbors (store : Store) (f : Fragment) (groupKeyIds : Option (List KeyId)) :
    Gains store (linkTemporalNeighbors store f groupKeyIds) := by
  simp only [linkTemporalNeighbors]
  split
  · exact Gains.refl store
  · exact gains_linkAll store f.id _ .temporal _

theorem gains_proactiveRecall (store : Store) (f : Fragment) (keyId : Option KeyId) :
    Gains store (proactiveRecall settings draws store f keyId) := by
  simp only [proactiveRecall]
  split
  · exact Gains.refl store
  · exact (gains_afterSearch store _ keyId).trans (gains_linkAll _ f.id _ .related _)

theorem gains_autoLinkOnRemember (store : Store) (f : Fragment) (agentId : String) :
    Gains store (autoLinkOnRemember store f agentId) := by
  simp only [autoLinkOnRemember]
  split
  · exact Gains.refl store
  · exact gains_linkAll store f.id _ .related _

/-- A supersession joins the two rows and makes no row live. -/
theorem gains_supersede (store : Store) (oldId newId : FragmentId) (keyId : Option KeyId) :
    Gains store (supersede draws store oldId newId keyId) := by
  simp only [supersede]
  split
  · exact Gains.refl store
  · rename_i linked hcreate
    exact Gains.trans ⟨_, grows_createLink hcreate⟩
      ⟨_, grows_updateFragments (fun _ => rfl) fun f h => Bool.noConfusion h⟩

theorem gains_supersedeAll (store : Store) (newId : FragmentId) (oldIds : List FragmentId) (keyId : Option KeyId) :
    Gains store (supersedeAll draws store newId oldIds keyId) := by
  refine Gains.foldl fun current oldId _ => ?_
  split
  · exact Gains.refl current
  · exact gains_supersede current oldId newId keyId

theorem gains_recordEvent (store : Store) (f : Fragment) (keyId : Option KeyId) :
    Gains store (recordEvent draws store f keyId) := by
  simp only [recordEvent]
  split
  · rename_i caseId _
    have hevents := eventsOnly_recordCaseEvent draws.now draws.newEventId store f caseId keyId
    exact Gains.of_eq hevents.fragments hevents.links
  · exact Gains.refl store

/-- What follows the insert of a remember joins the new row with the listed rows that the key owns. -/
theorem grows_finalizeRemember (store : Store) {f : Fragment} (hrow : HasRow store f.id) (indexSession : Option String)
    (caller : Caller) (params : RememberParams) :
    ∃ ends, Grows ends store (finalizeRemember settings draws store f indexSession caller params) ∧
      ∀ g ∈ getByIds store f.linkedTo caller.agentId caller.keyId [], (f.id, g.id) ∈ ends := by
  have hindexed :=
    @Grows.of_eq store _ (@index_fragments settings.redisReady settings.tools store f indexSession f.keyId)
    index_links
  generalize hstart : index settings.redisReady settings.tools store f indexSession f.keyId = indexed at hindexed
  have hfound : ∀ g ∈ getByIds indexed f.linkedTo caller.agentId caller.keyId [], HasRow indexed g.id := fun g hg =>
    ⟨g, (mem_getByIds hg).1, rfl⟩
  have howned := grows_linkAll (hindexed.hasRow_iff.mpr hrow) hfound .related fun _ => 1
  generalize hlinkOwned : (getByIds indexed f.linkedTo caller.agentId caller.keyId []).foldl
    (fun current g => tryLink current f.id g.id .related 1) indexed = owned at howned
  have hrest : Gains owned (finalizeRemember settings draws store f indexSession caller params) := by
    simp only [finalizeRemember, postProcess, linkOwned, hstart, hlinkOwned]
    have hchecked := @gains_checkAssertionConsistency settings draws owned f caller.keyId
    have htemporal := hchecked.trans (gains_linkTemporalNeighbors _ { f with createdAt := draws.now } caller.groups)
    have hrecalled := htemporal.trans (@gains_proactiveRecall settings draws _ f caller.keyId)
    have hsearched : ∀ current, Gains current (searchConflicts settings draws current caller params) := by
      intro current
      simp only [searchConflicts]
      split
      · exact Gains.refl current
      · exact gains_afterSearch current _ caller.keyId
    have hlinked := (hrecalled.trans (hsearched _)).trans (gains_autoLinkOnRemember _ f caller.agentId)
    have hsuperseded := hlinked.trans (@gains_supersedeAll draws _ f.id params.supersedes caller.keyId)
    have hlowered : ∀ current, Gains current (lowerTier current f params caller.keyId) := by
      intro current
      simp only [lowerTier]
      split
      · exact ⟨_, grows_updateFragments (fun _ => rfl) fun _ h => h⟩
      · exact Gains.refl current
    exact (hsuperseded.trans (hlowered _)).trans (gains_recordEvent _ f caller.keyId)
  obtain ⟨ends, hends⟩ := hrest
  refine ⟨_, (hindexed.trans howned).trans hends, fun g hg => ?_⟩
  have hsame : indexed.fragments = store.fragments := by
    rw [← hstart, index_fragments]
  simp only [List.nil_append, List.mem_append]
  refine Or.inl (List.mem_map.mpr ⟨g, ?_, rfl⟩)
  simpa only [getByIds, hsame] using hg

/-- An amendment leaves the array and the validity of its row alone. -/
theorem gains_update (digests : Digests) (countTokens : String → ℕ) (now : Time) (store : Store) (id : FragmentId)
    (updates : FragmentUpdates) (keyId : Option KeyId) :
    Gains store (update digests countTokens now store id updates keyId).1 := by
  rcases update_cases countTokens now store id updates keyId with
    hsame | ⟨existing, fragments, hexisting, -, -, hreplace, hupdated⟩
  · rw [hsame]
    exact Gains.refl store
  · rw [hupdated]
    obtain ⟨hmem, hid⟩ := (byId_eq_some_iff _).mp hexisting
    have hrows := Table.rows_replace hreplace
    have hchanged : ∀ f ∈ store.fragments.rows, RowGrows [] f
        (if FragmentEntry.primary id ∈ f.entries then updates.apply digests countTokens now existing else f) := by
      intro f hf
      split
      · rename_i hprimary
        have hsame : f = existing := eq_of_id _ hf hmem ((primary_mem_entries.mp hprimary).symm.trans hid.symm)
        rw [hsame]
        exact ⟨rfl, fun hlive => hlive, fun _ => by simp [FragmentUpdates.apply]⟩
      · exact RowGrows.refl f
    refine ⟨[], fun f hf => ⟨_, ?_, hchanged f hf⟩, fun g hg => ?_, LinksGrow.refl _, fun pair hpair => by cases hpair⟩
    · simp only [hrows]
      exact List.mem_map_of_mem hf
    · simp only [hrows] at hg
      obtain ⟨f, hf, rfl⟩ := List.mem_map.mp hg
      exact ⟨f, hf, hchanged f hf⟩

/-- The multi-row insert joins its pairs in the table of the links. -/
theorem linksGrow_insertLinks {store next : Store} {pairs : List LinkPair} (h : insertLinks store pairs = some next) :
    LinksGrow (pairs.map fun pair => (pair.fromId, pair.toId)) store.links next.links ∧
      next.fragments = store.fragments ∧ ∀ pair ∈ pairs, HasRow store pair.fromId ∧ HasRow store pair.toId := by
  induction pairs generalizing store with
  | nil =>
    cases h
    exact ⟨LinksGrow.refl _, rfl, fun pair hpair => by cases hpair⟩
  | cons pair later ih =>
    simp only [insertLinks] at h
    split at h
    · rename_i hends
      simp only [Bool.and_eq_true, Option.isSome_iff_exists] at hends
      obtain ⟨⟨f, hf⟩, ⟨g, hg⟩⟩ := hends
      obtain ⟨links, hlinks, hnext⟩ := Option.bind_eq_some_iff.mp h
      obtain ⟨hlater, hfragments, hpresent⟩ := ih hnext
      have hfirst := @LinksGrow.of_upsert store.links links
        { fromId := pair.fromId, toId := pair.toId, relationType := pair.relationType } (renewLink pair.relationType 1)
        (fun _ => rfl) (fun _ => rfl) rfl hlinks
      refine ⟨hfirst.trans hlater, hfragments, fun other hother => ?_⟩
      rcases List.mem_cons.mp hother with rfl | hlater'
      · exact ⟨⟨f, (byId_eq_some_iff _).mp hf⟩, ⟨g, (byId_eq_some_iff _).mp hg⟩⟩
      · exact hpresent other hlater'
    · cases h

/-- A row after one of the two batch updates of the arrays. -/
def withPairs (ends : Ends) (f : Fragment) : Fragment :=
  if (ends.map Prod.fst).contains f.id then (aggregateLinked ends).set f else f

theorem withPairs_row (ends : Ends) (f : Fragment) :
    (withPairs ends f).id = f.id ∧ (withPairs ends f).live = f.live ∧
      ∀ other, other ∈ (withPairs ends f).linkedTo ↔ other ∈ f.linkedTo ∨ (f.id, other) ∈ ends := by
  have hpaired : ∀ other, other ∈ pairedWith ends f.id ↔ (f.id, other) ∈ ends := by
    intro other
    simp only [pairedWith, List.mem_map, List.mem_filter, decide_eq_true_eq]
    exact ⟨fun ⟨pair, ⟨hpair, hfirst⟩, hsecond⟩ => hfirst ▸ hsecond ▸ hpair, fun hpair => ⟨_, ⟨hpair, rfl⟩, rfl⟩⟩
  by_cases hlisted : (ends.map Prod.fst).contains f.id
  · rw [withPairs, if_pos hlisted]
    refine ⟨rfl, rfl, fun other => ?_⟩
    rw [← hpaired]
    simp only [aggregateLinked, List.mem_insertionSort, List.mem_dedup, List.mem_append]
  · rw [withPairs, if_neg hlisted]
    refine ⟨rfl, rfl, fun other => (or_iff_left fun hpair => hlisted ?_).symm⟩
    exact List.contains_iff_mem.mpr (List.mem_map.mpr ⟨_, hpair, rfl⟩)

/-- The two updates together write the pairs into the arrays of both of their ends. -/
theorem rowGrows_withPairs (ends : Ends) (f : Fragment) :
    RowGrows ends f (withPairs (ends.map Prod.swap) (withPairs ends f)) := by
  obtain ⟨hid, hlive, hlinked⟩ := withPairs_row ends f
  obtain ⟨hid', hlive', hlinked'⟩ := withPairs_row (ends.map Prod.swap) (withPairs ends f)
  refine ⟨hid'.trans hid, fun h => hlive ▸ hlive' ▸ h, fun other => ?_⟩
  have hswap : (f.id, other) ∈ ends.map Prod.swap ↔ (other, f.id) ∈ ends := by
    rw [List.mem_map]
    exact ⟨fun ⟨pair, hpair, hsame⟩ => by rwa [← Prod.swap_swap pair, hsame] at hpair, fun hpair => ⟨_, hpair, rfl⟩⟩
  rw [hlinked', hlinked, hid, hswap, or_assoc]

/-- A batch of links joins its pairs. -/
theorem grows_createLinks {store next : Store} {pairs : List LinkPair} (h : createLinks store pairs = some next) :
    Grows (pairs.map fun pair => (pair.fromId, pair.toId)) store next := by
  simp only [createLinks] at h
  split at h
  · obtain ⟨inserted, hinserted, rfl⟩ := Option.map_eq_some_iff.mp h
    obtain ⟨hlinks, hfragments, hpresent⟩ := linksGrow_insertLinks hinserted
    refine ⟨fun f hf => ?_, fun g hg => ?_, hlinks, ?_⟩
    · exact ⟨_, updated_mem_updateFragments (updated_mem_updateFragments (hfragments ▸ hf) _ _) _ _,
        rowGrows_withPairs _ f⟩
    · obtain ⟨middle, hmiddle, rfl⟩ := (mem_updateFragments_iff _).mp hg
      obtain ⟨f, hf, rfl⟩ := (mem_updateFragments_iff _).mp hmiddle
      exact ⟨f, hfragments ▸ hf, rowGrows_withPairs _ f⟩
    · rintro ends hends
      obtain ⟨pair, hpair, rfl⟩ := List.mem_map.mp hends
      exact hpresent pair hpair
  · cases h

end FragmentMemory.LinkGrowth
