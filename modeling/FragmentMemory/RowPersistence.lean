import FragmentMemory.PairSteps
import FragmentMemory.RememberLiveness

/-! # What a remember leaves of the rows

Every statement of a remember changes rows in place or adds one.  A relation between a row before and
after that the columns written here respect is therefore kept by the whole remember; only the tier of
the reported row and the rows of the supersessions need a closer look.
-/
namespace FragmentMemory.RowPersistence
open ApiKeyStore FragmentTables FragmentFactory FragmentWriter FragmentIndex LinkStore CaseEventStore
  MemoryRememberer RememberLiveness UniqueIndexTable PairSteps

/-- Every row of the first store is in the second one, up to a relation. -/
def Persists (R : Fragment → Fragment → Prop) (before after : Store) : Prop :=
  ∀ f ∈ before.fragments.rows, ∃ g ∈ after.fragments.rows, R f g

/-- The second store has the rows of the first one, each rewritten up to a relation. -/
def Rewrites (R : Fragment → Fragment → Prop) (before after : Store) : Prop :=
  ∃ rewrite : Fragment → Fragment, after.fragments.rows = before.fragments.rows.map rewrite ∧
    ∀ f ∈ before.fragments.rows, R f (rewrite f)

/-- A relation that the unconditional updates of a remember respect. -/
structure Admits (R : Fragment → Fragment → Prop) : Prop where
  refl : ∀ f, R f f
  trans : ∀ f g h, R f g → R g h → R f h
  linked : ∀ f ids, R f { f with linkedTo := ids }
  accessed : ∀ f count at_ activation, R f { f with accessCount := count, accessedAt := at_, emaActivation := activation }
  asserted : ∀ f status, R f { f with assertionStatus := status }
  cased : ∀ f caseId, R f { f with caseId := caseId }

variable {R : Fragment → Fragment → Prop}

namespace Persists

theorem of_eq (hR : Admits R) {before after : Store} (h : after.fragments = before.fragments) :
    Persists R before after := by
  intro f hf
  exact ⟨f, h ▸ hf, hR.refl f⟩

theorem trans (hR : Admits R) {first second third : Store} (h : Persists R first second)
    (h' : Persists R second third) : Persists R first third := by
  intro f hf
  obtain ⟨g, hg, hfg⟩ := h f hf
  obtain ⟨k, hk, hgk⟩ := h' g hg
  exact ⟨k, hk, hR.trans f g k hfg hgk⟩

theorem foldl {α : Type*} (hR : Admits R) {items : List α} {op : Store → α → Store} {start : Store}
    (hop : ∀ current, ∀ item ∈ items, Persists R current (op current item)) :
    Persists R start (items.foldl op start) := by
  induction items generalizing start with
  | nil => exact of_eq hR rfl
  | cons item later ih =>
    have hfirst := hop start item List.mem_cons_self
    exact hfirst.trans hR (ih fun current other hother => hop current other (List.mem_cons_of_mem _ hother))

end Persists

namespace Rewrites

theorem of_eq (hR : Admits R) {before after : Store} (h : after.fragments = before.fragments) :
    Rewrites R before after :=
  ⟨id, by rw [h, List.map_id], fun f _ => hR.refl f⟩

theorem trans (hR : Admits R) {first second third : Store} (h : Rewrites R first second)
    (h' : Rewrites R second third) : Rewrites R first third := by
  obtain ⟨rewrite, hrows, hrel⟩ := h
  obtain ⟨rewrite', hrows', hrel'⟩ := h'
  refine ⟨rewrite' ∘ rewrite, by rw [hrows', hrows, List.map_map], fun f hf => ?_⟩
  have hmem : rewrite f ∈ second.fragments.rows := by
    rw [hrows]
    exact List.mem_map_of_mem hf
  exact hR.trans _ _ _ (hrel f hf) (hrel' _ hmem)

theorem persists {before after : Store} (h : Rewrites R before after) : Persists R before after := by
  obtain ⟨rewrite, hrows, hrel⟩ := h
  intro f hf
  exact ⟨rewrite f, hrows ▸ List.mem_map_of_mem hf, hrel f hf⟩

/-- Every row afterwards is one from before, rewritten. -/
theorem covers {before after : Store} (h : Rewrites R before after) :
    ∀ g ∈ after.fragments.rows, ∃ f ∈ before.fragments.rows, R f g := by
  obtain ⟨rewrite, hrows, hrel⟩ := h
  intro g hg
  rw [hrows] at hg
  obtain ⟨f, hf, rfl⟩ := List.mem_map.mp hg
  exact ⟨f, hf, hrel f hf⟩

theorem foldl {α : Type*} (hR : Admits R) {items : List α} {op : Store → α → Store} {start : Store}
    (hop : ∀ current, ∀ item ∈ items, Rewrites R current (op current item)) :
    Rewrites R start (items.foldl op start) := by
  induction items generalizing start with
  | nil => exact of_eq hR rfl
  | cons item later ih =>
    have hfirst := hop start item List.mem_cons_self
    exact hfirst.trans hR (ih fun current other hother => hop current other (List.mem_cons_of_mem _ hother))

end Rewrites

theorem rewrites_updateFragments (hR : Admits R) {store : Store} {cond : Fragment → Bool} {change : ColumnUpdate}
    (hset : ∀ f ∈ store.fragments.rows, cond f = true → R f (change.set f)) :
    Rewrites R store (store.updateFragments cond change) := by
  refine ⟨fun f => if cond f then change.set f else f, rfl, fun f hf => ?_⟩
  simp only
  split
  · rename_i hcond
    exact hset f hf hcond
  · exact hR.refl f

theorem rewrites_linkArray (hR : Admits R) (store : Store) (id other : FragmentId) :
    Rewrites R store (linkArray store id other) :=
  rewrites_updateFragments hR fun f _ _ => hR.linked f _

theorem rewrites_createLink (hR : Admits R) {store next : Store} {fromId toId : FragmentId}
    {relationType : RelationType} {weight : ℚ} (h : createLink store fromId toId relationType weight = some next) :
    Rewrites R store next := by
  obtain ⟨-, -, links, -, rfl⟩ := createLink_eq_some h
  have hfirst : Rewrites R store (linkArray { store with links := links } fromId toId) :=
    rewrites_linkArray hR { store with links := links } fromId toId
  exact hfirst.trans hR (rewrites_linkArray hR _ toId fromId)

theorem rewrites_tryLink (hR : Admits R) (store : Store) (fromId toId : FragmentId) (relationType : RelationType)
    (weight : ℚ) : Rewrites R store (tryLink store fromId toId relationType weight) := by
  rw [tryLink]
  rcases hcreate : createLink store fromId toId relationType weight with _ | next
  · exact Rewrites.of_eq hR rfl
  · exact rewrites_createLink hR hcreate

/-- An insert, for a relation that bears the promotion of the row that it meets. -/
theorem persists_insert (hR : Admits R) {digests : Digests} {now : Time} {store next : Store} {f : Fragment}
    {id : FragmentId}
    (hpromote : ∀ g : Fragment, g.keyId = f.keyId → g.contentHash = computeContentHash digests f.content →
      R g ((promote now (prepareInsertRow digests now f)).set g))
    (h : insert digests now store f = some (next, id)) : Persists R store next := by
  rcases upsertRow_cases h with ⟨held, -, -, -, -, rfl⟩ | ⟨-, -, fragments, hinsert, rfl⟩
  · refine (rewrites_updateFragments hR fun g _ hcond => ?_).persists
    have hentry := contentHash_mem_entries.mp (of_decide_eq_true hcond)
    exact hpromote g hentry.1.symm hentry.2.symm
  · intro g hg
    refine ⟨g, ?_, hR.refl g⟩
    simp only [Table.rows_insert hinsert]
    exact List.mem_append_left _ hg

theorem fragments_cacheAll (ready : Bool) (ids : List FragmentId) (keyId : Option KeyId) (store : Store) :
    (ids.foldl (fun current id => cacheFragment ready current id keyId) store).fragments = store.fragments := by
  induction ids generalizing store with
  | nil => rfl
  | cons id later ih => rw [List.foldl_cons, ih, cacheFragment_fragments]

variable {settings : Settings} {draws : Draws}

theorem rewrites_afterSearch (hR : Admits R) (store : Store) (found : List Fragment) (keyId : Option KeyId) :
    Rewrites R store (afterSearch settings draws store found keyId) := by
  have hcounted : Rewrites R store
      (store.updateFragments (fun f => (found.map Fragment.id).contains f.id) (access draws)) :=
    rewrites_updateFragments hR fun f _ _ => hR.accessed f _ _ _
  have htouched : Rewrites R _ (touchLinked draws.now
      (store.updateFragments (fun f => (found.map Fragment.id).contains f.id) (access draws))
      (found.map Fragment.id) keyId) :=
    rewrites_updateFragments hR fun f _ _ => hR.accessed f f.accessCount _ f.emaActivation
  refine (hcounted.trans hR htouched).trans hR (Rewrites.of_eq hR ?_)
  exact fragments_cacheAll _ _ _ _

theorem rewrites_linkAll (hR : Admits R) (store : Store) (id : FragmentId) (found : List Fragment)
    (relationType : RelationType) (weight : Fragment → ℚ) :
    Rewrites R store (found.foldl (fun current g => tryLink current id g.id relationType (weight g)) store) :=
  Rewrites.foldl hR fun current g _ => rewrites_tryLink hR current id g.id relationType (weight g)

theorem rewrites_checkAssertionConsistency (hR : Admits R) (store : Store) (f : Fragment) (keyId : Option KeyId) :
    Rewrites R store (checkAssertionConsistency settings draws store f keyId) := by
  have hpatch : ∀ current, Rewrites R current (patchAssertion current f.id .inferred keyId) :=
    fun current => rewrites_updateFragments hR fun g _ _ => hR.asserted g _
  simp only [checkAssertionConsistency]
  split
  · exact Rewrites.of_eq hR rfl
  · split
    · refine Rewrites.trans hR ?_ (hpatch _)
      split
      · exact Rewrites.foldl hR fun current g _ => Rewrites.of_eq hR rfl
      · exact Rewrites.of_eq hR rfl
    · exact Rewrites.of_eq hR rfl

theorem rewrites_linkTemporalNeighbors (hR : Admits R) (store : Store) (f : Fragment)
    (groupKeyIds : Option (List KeyId)) : Rewrites R store (linkTemporalNeighbors store f groupKeyIds) := by
  simp only [linkTemporalNeighbors]
  split
  · exact Rewrites.of_eq hR rfl
  · exact rewrites_linkAll hR store f.id _ .temporal _

theorem rewrites_proactiveRecall (hR : Admits R) (store : Store) (f : Fragment) (keyId : Option KeyId) :
    Rewrites R store (proactiveRecall settings draws store f keyId) := by
  simp only [proactiveRecall]
  split
  · exact Rewrites.of_eq hR rfl
  · exact (rewrites_afterSearch hR store _ keyId).trans hR (rewrites_linkAll hR _ f.id _ .related _)

theorem rewrites_postProcess (hR : Admits R) (store : Store) (f : Fragment) (caller : Caller) :
    Rewrites R store (postProcess settings draws store f caller) := by
  have hlinked : Rewrites R store (linkOwned store f caller.agentId caller.keyId) :=
    rewrites_linkAll hR store f.id _ .related _
  have hchecked : Rewrites R store (checkAssertionConsistency settings draws
      (linkOwned store f caller.agentId caller.keyId) f caller.keyId) :=
    hlinked.trans hR (rewrites_checkAssertionConsistency hR _ f caller.keyId)
  have htemporal := hchecked.trans hR (rewrites_linkTemporalNeighbors hR _ { f with createdAt := draws.now }
    caller.groups)
  exact htemporal.trans hR (rewrites_proactiveRecall hR _ f caller.keyId)

theorem rewrites_autoLinkOnRemember (hR : Admits R) (store : Store) (f : Fragment) (agentId : String) :
    Rewrites R store (autoLinkOnRemember store f agentId) := by
  simp only [autoLinkOnRemember]
  split
  · exact Rewrites.of_eq hR rfl
  · exact rewrites_linkAll hR store f.id _ .related _

/-- A supersession, for a relation that bears the expiry of the row it names. -/
theorem rewrites_supersede (hR : Admits R) (store : Store) {oldId : FragmentId} (newId : FragmentId)
    (keyId : Option KeyId)
    (hexpire : ∀ f : Fragment, f.id = oldId → f.live = true → R f ((expire draws.now).set f)) :
    Rewrites R store (supersede draws store oldId newId keyId) := by
  simp only [supersede]
  split
  · exact Rewrites.of_eq hR rfl
  · rename_i linked hcreate
    refine (rewrites_createLink hR hcreate).trans hR (rewrites_updateFragments hR fun f _ hcond => ?_)
    simp only [Bool.and_eq_true, decide_eq_true_eq] at hcond
    exact hexpire f hcond.1.1 hcond.1.2

/-- The supersessions of a remember, for a relation that bears the expiry of the rows they name. -/
theorem rewrites_supersedeAll (hR : Admits R) (store : Store) (newId : FragmentId) (oldIds : List FragmentId)
    (keyId : Option KeyId)
    (hexpire : ∀ oldId ∈ oldIds, oldId ≠ newId → ∀ f : Fragment, f.id = oldId → f.live = true →
      R f ((expire draws.now).set f)) :
    Rewrites R store (supersedeAll draws store newId oldIds keyId) := by
  refine Rewrites.foldl hR fun current oldId hmem => ?_
  split
  · exact Rewrites.of_eq hR rfl
  · rename_i hne
    exact rewrites_supersede hR current newId keyId (hexpire oldId hmem hne)

/-- The store of a remember when its supersessions begin. -/
def linkedStore (settings : Settings) (draws : Draws) (store : Store) (f : Fragment) (indexSession : Option String)
    (caller : Caller) (params : RememberParams) : Store :=
  let indexed := index settings.redisReady settings.tools store f indexSession f.keyId
  autoLinkOnRemember (searchConflicts settings draws (postProcess settings draws indexed f caller) caller params) f
    caller.agentId

theorem rewrites_linkedStore (hR : Admits R) (store : Store) (f : Fragment) (indexSession : Option String)
    (caller : Caller) (params : RememberParams) :
    Rewrites R store (linkedStore settings draws store f indexSession caller params) := by
  have hindexed : Rewrites R store (index settings.redisReady settings.tools store f indexSession f.keyId) :=
    Rewrites.of_eq hR index_fragments
  have hprocessed : Rewrites R store (postProcess settings draws
      (index settings.redisReady settings.tools store f indexSession f.keyId) f caller) :=
    hindexed.trans hR (rewrites_postProcess hR _ f caller)
  have hsearched : Rewrites R store (searchConflicts settings draws
      (postProcess settings draws (index settings.redisReady settings.tools store f indexSession f.keyId) f caller)
      caller params) := by
    refine hprocessed.trans hR ?_
    simp only [searchConflicts]
    split
    · exact Rewrites.of_eq hR rfl
    · exact rewrites_afterSearch hR _ _ caller.keyId
  exact hsearched.trans hR (rewrites_autoLinkOnRemember hR _ f caller.agentId)

/-- After the supersessions a remember lowers at most the tier of its row. -/
theorem fragments_finalizeRemember (store : Store) (f : Fragment) (indexSession : Option String) (caller : Caller)
    (params : RememberParams) :
    (finalizeRemember settings draws store f indexSession caller params).fragments =
      (lowerTier (supersedeAll draws (linkedStore settings draws store f indexSession caller params) f.id
        params.supersedes caller.keyId) f params caller.keyId).fragments := by
  simp only [finalizeRemember, recordEvent, linkedStore]
  split
  · exact (eventsOnly_recordCaseEvent _ _ _ _ _ _).fragments
  · rfl

/-- What follows the insert. -/
theorem rewrites_finalizeRemember (hR : Admits R) (store : Store) (f : Fragment) (indexSession : Option String)
    (caller : Caller) (params : RememberParams)
    (hexpire : ∀ oldId ∈ params.supersedes, oldId ≠ f.id → ∀ g : Fragment, g.id = oldId → g.live = true →
      R g ((expire draws.now).set g))
    (hlower : f.importance < 3 / 10 ∧ ¬ params.ttlTierGiven → ∀ g : Fragment, g.id = f.id →
      R g ((setTtlTier .short).set g)) :
    Rewrites R store (finalizeRemember settings draws store f indexSession caller params) := by
  have hlinked : Rewrites R store (linkedStore settings draws store f indexSession caller params) :=
    rewrites_linkedStore hR store f indexSession caller params
  have hsuperseded := hlinked.trans hR (rewrites_supersedeAll hR _ f.id params.supersedes caller.keyId hexpire)
  have hlowered := hsuperseded.trans hR (by
    simp only [lowerTier]
    split
    · rename_i hlow
      refine rewrites_updateFragments hR fun g _ hcond => ?_
      simp only [Bool.and_eq_true, decide_eq_true_eq] at hcond
      exact hlower hlow g hcond.1
    · exact Rewrites.of_eq hR rfl : Rewrites R _ (lowerTier _ f params caller.keyId))
  exact hlowered.trans hR (Rewrites.of_eq hR (fragments_finalizeRemember store f indexSession caller params))

theorem rewrites_autoAssignCaseId (hR : Admits R) (store : Store) (params : RememberParams) (caller : Caller) :
    Rewrites R store (autoAssignCaseId draws store params caller).1 := by
  simp only [autoAssignCaseId]
  split
  · split
    · split
      · exact Rewrites.of_eq hR rfl
      · split
        · exact Rewrites.of_eq hR rfl
        · split
          · exact Rewrites.of_eq hR rfl
          · exact Rewrites.foldl hR fun current id _ => rewrites_updateFragments hR fun f _ _ => hR.cased f _
    · exact Rewrites.of_eq hR rfl
  · exact Rewrites.of_eq hR rfl

/-- A remember keeps every row up to a relation that bears promotions and its two conditional
updates. -/
theorem persists_remember (hR : Admits R) (store : Store) (params : RememberParams) (caller : Caller)
    (hpromote : ∀ accepted, acceptNew settings draws store params caller = .ok accepted →
      ∀ g, R g ((promote draws.now (prepareInsertRow settings.digests draws.now accepted.fragment)).set g))
    (hexpire : ∀ accepted, acceptNew settings draws store params caller = .ok accepted →
      ∀ oldId ∈ params.supersedes, oldId ≠ accepted.id → ∀ g : Fragment, g.id = oldId → g.live = true →
        R g ((expire draws.now).set g))
    (hlower : ∀ accepted, acceptNew settings draws store params caller = .ok accepted →
      accepted.fragment.importance < 3 / 10 ∧ ¬ params.ttlTierGiven → ∀ g : Fragment, g.id = accepted.id →
        R g ((setTtlTier .short).set g)) :
    Persists R store (remember settings draws store params caller).1 := by
  rcases remember_cases settings draws store params caller with
    ⟨accepted, indexSession, haccepted, hstored⟩ | ⟨-, hsame | ⟨found, hsearched⟩⟩
  · obtain ⟨caseId, -, hinsert⟩ := acceptNew_spec haccepted
    have hassigned : Persists R store (autoAssignCaseId draws store params caller).1 :=
      (rewrites_autoAssignCaseId hR store params caller).persists
    have hinserted := hassigned.trans hR (persists_insert hR (fun g _ _ => hpromote accepted haccepted g) hinsert)
    have hfinal : Rewrites R accepted.store (finalizeRemember settings draws accepted.store
        { accepted.fragment with id := accepted.id } indexSession caller params) :=
      rewrites_finalizeRemember hR _ _ _ caller params (hexpire accepted haccepted) (hlower accepted haccepted)
    rw [hstored]
    exact hinserted.trans hR hfinal.persists
  · rw [hsame]
    exact Persists.of_eq hR rfl
  · rw [hsearched]
    exact (rewrites_afterSearch hR store found caller.keyId).persists

end FragmentMemory.RowPersistence
