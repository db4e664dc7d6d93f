import FragmentMemory.RememberLiveness
import FragmentMemory.TenantFrame

/-! # Isolation of a tenant's writes

The queries that pick rows for a tenant filter by its key or its group, so what they lead to stays
inside its scope.  Ids of the request itself reach four statements without such a filter: the stored
`linked_to` array, the link of a supersession, the removal of what points to a deleted row, and the
reconsolidation of the links at the rows of a feedback.
-/
namespace FragmentMemory.TenantWriteIsolation
open ApiKeyStore FragmentTables FragmentFactory FragmentWriter FragmentReader FragmentIndex LinkStore
  CaseEventStore BatchRememberProcessor MemoryRememberer MemoryRequests RememberLiveness TenantFrame
  TransitionRuns UniqueIndexTable JsString

/-- A caller with a key and the members of its group. -/
structure Tenant where
  key : KeyId
  agentId : String := "default"
  groupKeyIds : Option (List KeyId) := none

def Tenant.caller (tenant : Tenant) : Caller where
  agentId := tenant.agentId
  keyId := some tenant.key
  groupKeyIds := tenant.groupKeyIds

def Tenant.scope (tenant : Tenant) : List KeyId := tenant.key :: tenant.groupKeyIds.getD []

variable (settings : Settings) (draws : Draws) {scope : List KeyId} {key : KeyId}

/-- A row that a key owns is inside every scope with the key. -/
theorem inside_of_ownedBy (hkey : key ∈ scope) {f : Fragment} (h : ownedBy (some key) f = true) :
    outside scope f = false := by
  have howner : f.keyId = some key := by simpa [ownedBy] using h
  exact outside_eq_false_iff.mpr ⟨key, howner, hkey⟩

/-- A row that the key clause lets through is inside a scope with the key and the group. -/
theorem inside_of_keyScope (hkey : key ∈ scope) {groups : List KeyId} (hgroups : ∀ member ∈ groups, member ∈ scope)
    {f : Fragment} (h : keyScope (some key) groups f = true) : outside scope f = false := by
  simp only [keyScope, Bool.or_eq_true, decide_eq_true_eq] at h
  rcases h with howner | hmember
  · exact outside_eq_false_iff.mpr ⟨key, howner, hkey⟩
  · obtain ⟨owner, howner, hcontains⟩ := any_contains_iff.mp hmember
    have hin : owner ∈ scope := by
      split at hcontains
      · rw [List.mem_singleton.mp hcontains]
        exact hkey
      · exact hgroups owner hcontains
    exact outside_eq_false_iff.mpr ⟨owner, howner, hin⟩

theorem Tenant.groups_mem_scope (tenant : Tenant) :
    ∀ member ∈ tenant.caller.groups.getD [], member ∈ tenant.scope := by
  intro member hmember
  rcases hgroups : tenant.groupKeyIds with _ | members
  · simp only [Caller.groups, Tenant.caller, hgroups, Option.none_or, Option.map_some, Option.getD_some] at hmember
    simp only [Tenant.scope, List.mem_singleton.mp hmember]
    exact List.mem_cons_self
  · simp only [Caller.groups, Tenant.caller, hgroups, Option.some_or, Option.getD_some] at hmember
    simp only [Tenant.scope, hgroups, Option.getD_some]
    exact List.mem_cons_of_mem _ hmember

/-- An update under the key that leaves the arrays. -/
theorem isolated_ownedUpdate (hkey : key ∈ scope) {store : Store} {cond : Fragment → Bool} {change : ColumnUpdate}
    (hcond : ∀ f, cond f = true → ownedBy (some key) f = true)
    (hlinked : ∀ f, (change.set f).linkedTo = f.linkedTo) :
    Isolated scope store (store.updateFragments cond change) := by
  refine isolated_updateFragments ?_ ?_
  · intro f _ hc
    exact inside_of_ownedBy hkey (hcond f hc)
  · intro f id hid _
    rw [hlinked] at hid
    exact hid

theorem isolated_updateTtlTier (hkey : key ∈ scope) (store : Store) (id : FragmentId) (tier : TtlTier) :
    Isolated scope store (updateTtlTier store id tier (some key)) :=
  isolated_ownedUpdate hkey (fun _ h => ((Bool.and_eq_true _ _).mp h).2) fun _ => rfl

theorem isolated_patchAssertion (hkey : key ∈ scope) (store : Store) (id : FragmentId) (status : AssertionStatus) :
    Isolated scope store (patchAssertion store id status (some key)) :=
  isolated_ownedUpdate hkey (fun _ h => ((Bool.and_eq_true _ _).mp h).2) fun _ => rfl

theorem isolated_updateCaseId (hkey : key ∈ scope) (store : Store) (id : FragmentId) (caseId : String) :
    Isolated scope store (updateCaseId store id caseId (some key)) :=
  isolated_ownedUpdate hkey (fun _ h => ((Bool.and_eq_true _ _).mp h).2) fun _ => rfl

/-- The rows that a search under the key returns. -/
theorem mem_searchRows {store : Store} {ranking : List FragmentId} {agentId : String} {keyId : Option KeyId}
    {f : Fragment} (h : f ∈ searchRows store ranking agentId keyId) :
    f ∈ store.fragments.rows ∧ ownedBy keyId f = true := by
  obtain ⟨hfound, hcond⟩ := List.mem_filter.mp h
  obtain ⟨id, -, hrow⟩ := List.mem_filterMap.mp hfound
  simp only [Bool.and_eq_true] at hcond
  exact ⟨((byId_eq_some_iff _).mp hrow).1, hcond.2⟩

/-- What a search under the key writes. -/
theorem isolated_afterSearch (hkey : key ∈ scope) {store : Store} {found : List Fragment}
    (hfound : ∀ f ∈ found, f ∈ store.fragments.rows ∧ ownedBy (some key) f = true) :
    Isolated scope store (afterSearch settings draws store found (some key)) := by
  have hids : ∀ id ∈ found.map Fragment.id, ¬ OutsideId scope store id := by
    intro id hid
    obtain ⟨f, hf, rfl⟩ := List.mem_map.mp hid
    exact not_outsideId (hfound f hf).1 (inside_of_ownedBy hkey (hfound f hf).2)
  have hcounted : Isolated scope store
      (store.updateFragments (fun f => (found.map Fragment.id).contains f.id) (access draws)) := by
    refine isolated_updateFragments ?_ fun f id hid _ => hid
    intro f hf hcontains
    by_contra houtside
    exact hids f.id (List.contains_iff_mem.mp hcontains) ⟨f, hf, by simpa using houtside, rfl⟩
  have htouched := hcounted.trans (isolated_ownedUpdate hkey
    (by
      intro f hcond
      simp only [Bool.and_eq_true] at hcond
      exact hcond.2) fun _ => rfl :
    Isolated scope _ (touchLinked draws.now
      (store.updateFragments (fun f => (found.map Fragment.id).contains f.id) (access draws))
      (found.map Fragment.id) (some key)))
  refine htouched.trans (Isolated.foldl ?_)
  intro current hcurrent id hid
  have hstart := hids id hid
  exact isolated_cacheFragment (hcurrent.outsideId_iff.not.mpr (htouched.outsideId_iff.not.mpr hstart))

/-- Links from a row inside the scope to the rows of a query that stays inside it. -/
theorem isolated_linkAll {store start : Store} {id : FragmentId} {found : List Fragment}
    {relationType : RelationType} {weight : Fragment → ℚ} (hstart : Isolated scope store start)
    (hid : ¬ OutsideId scope store id)
    (hfound : ∀ g ∈ found, g ∈ store.fragments.rows ∧ outside scope g = false) :
    Isolated scope start (found.foldl (fun current g => tryLink current id g.id relationType (weight g)) start) := by
  refine Isolated.foldl ?_
  intro current hcurrent g hg
  have hboth := hstart.trans hcurrent
  have hgid := not_outsideId (hfound g hg).1 (hfound g hg).2
  exact isolated_tryLink (hboth.outsideId_iff.not.mpr hid) (hboth.outsideId_iff.not.mpr hgid)

theorem isolated_linkOwned (hkey : key ∈ scope) {store : Store} {f : Fragment} {agentId : String}
    (hid : ¬ OutsideId scope store f.id) : Isolated scope store (linkOwned store f agentId (some key)) := by
  refine isolated_linkAll (Isolated.refl store) hid ?_
  intro g hg
  have hspec := mem_getByIds hg
  exact ⟨hspec.1, inside_of_keyScope hkey (by simp) hspec.2.2.2⟩

theorem isolated_quarantineAdjacentLinks {store : Store} {fromId toId : FragmentId}
    (hfrom : ¬ OutsideId scope store fromId) (hto : ¬ OutsideId scope store toId) :
    Isolated scope store (quarantineAdjacentLinks store draws.now draws.recentlyDecayed fromId toId) := by
  refine isolated_updateLinks _ ?_
  intro l _ hcond
  simp only [Bool.and_eq_true, Bool.or_eq_true, decide_eq_true_eq] at hcond
  rcases hcond.1.1.1.1 with hends | hends
  · rw [← hends.1] at hfrom
    rw [← hends.2] at hto
    exact not_or.mpr ⟨hfrom, hto⟩
  · rw [← hends.2] at hfrom
    rw [← hends.1] at hto
    exact not_or.mpr ⟨hto, hfrom⟩

theorem isolated_checkAssertionConsistency (hkey : key ∈ scope) {store : Store} {f : Fragment}
    (hid : ¬ OutsideId scope store f.id) :
    Isolated scope store (checkAssertionConsistency settings draws store f (some key)) := by
  simp only [checkAssertionConsistency]
  split
  · exact Isolated.refl store
  · split
    · split
      · have hquarantined : Isolated scope store (((((store.fragments.rows.filter fun g =>
            g.topic = f.topic && distance g.createdAt draws.now ≤ consistencyWindowMs && g.id ≠ f.id &&
              ownedBy (some key) g && g.live).insertionSort fun g h => h.createdAt ≤ g.createdAt).take 10).filter
                fun g => similarText settings f.content g.content).foldl (fun current g =>
            quarantineAdjacentLinks current draws.now draws.recentlyDecayed f.id g.id) store) := by
          refine Isolated.foldl ?_
          intro current hcurrent g hg
          have hsorted := List.mem_of_mem_take (List.mem_filter.mp hg).1
          obtain ⟨hrow, hcond⟩ := List.mem_filter.mp ((List.mem_insertionSort _).mp hsorted)
          simp only [Bool.and_eq_true] at hcond
          have hgid := not_outsideId hrow (inside_of_ownedBy hkey hcond.1.2)
          exact isolated_quarantineAdjacentLinks draws (hcurrent.outsideId_iff.not.mpr hid)
            (hcurrent.outsideId_iff.not.mpr hgid)
        exact hquarantined.trans (isolated_patchAssertion hkey _ _ _)
      · exact isolated_patchAssertion hkey _ _ _
    · exact Isolated.refl store

theorem isolated_linkTemporalNeighbors {store : Store} {f : Fragment} {groups : List KeyId}
    (hgroups : ∀ member ∈ groups, member ∈ scope) (hid : ¬ OutsideId scope store f.id) :
    Isolated scope store (linkTemporalNeighbors store f (some groups)) := by
  simp only [linkTemporalNeighbors]
  split
  · exact Isolated.refl store
  · refine isolated_linkAll (Isolated.refl store) hid ?_
    intro g hg
    have hsorted := List.mem_of_mem_take hg
    obtain ⟨hrow, hcond⟩ := List.mem_filter.mp ((List.mem_insertionSort _).mp hsorted)
    simp only [Bool.and_eq_true, Option.all_some] at hcond
    obtain ⟨owner, howner, hcontains⟩ := any_contains_iff.mp hcond.2
    exact ⟨hrow, outside_eq_false_iff.mpr ⟨owner, howner, hgroups owner hcontains⟩⟩

theorem isolated_proactiveRecall (hkey : key ∈ scope) {store : Store} {f : Fragment}
    (hid : ¬ OutsideId scope store f.id) :
    Isolated scope store (proactiveRecall settings draws store f (some key)) := by
  simp only [proactiveRecall]
  split
  · exact Isolated.refl store
  · have hsearched : Isolated scope store (afterSearch settings draws store
        (searchRows store draws.proactiveRanking "default" (some key)) (some key)) :=
      isolated_afterSearch settings draws hkey fun g hg => mem_searchRows hg
    refine hsearched.trans (isolated_linkAll hsearched hid ?_)
    intro g hg
    have hspec := mem_searchRows (List.mem_filter.mp hg).1
    exact ⟨hspec.1, inside_of_ownedBy hkey hspec.2⟩

theorem isolated_autoLinkOnRemember (hkey : key ∈ scope) {store : Store} {f : Fragment} (agentId : String)
    (hf : f.keyId = some key) (hid : ¬ OutsideId scope store f.id) :
    Isolated scope store (autoLinkOnRemember store f agentId) := by
  simp only [autoLinkOnRemember, hf]
  split
  · exact Isolated.refl store
  · refine isolated_linkAll (Isolated.refl store) hid ?_
    intro g hg
    have hspec := mem_searchByTopic (List.mem_filter.mp (List.mem_of_mem_take hg)).1
    exact ⟨hspec.1, inside_of_ownedBy hkey hspec.2.2.2⟩

/-- A supersession of a row that is not outside, or of none. -/
theorem isolated_supersede (hkey : key ∈ scope) {store : Store} {oldId newId : FragmentId}
    (hold : ¬ OutsideId scope store oldId) (hnew : ¬ OutsideId scope store newId) :
    Isolated scope store (supersede draws store oldId newId (some key)) := by
  have hlink : Isolated scope store (tryLink store oldId newId .supersededBy 1) :=
    isolated_tryLink hold hnew
  simp only [supersede]
  rcases hcreate : createLink store oldId newId .supersededBy 1 with _ | linked
  · exact Isolated.refl store
  · simp only [tryLink, hcreate, Option.getD_some] at hlink
    refine hlink.trans (isolated_ownedUpdate hkey ?_ fun _ => rfl)
    intro f hcond
    exact ((Bool.and_eq_true _ _).mp hcond).2

theorem isolated_eventsOnly {before after : Store} (h : EventsOnly before after) : Isolated scope before after :=
  Isolated.of_eq h.fragments h.links h.index

/-- The post-processing of a row inside the scope. -/
theorem isolated_postProcess (tenant : Tenant) {store : Store} {f : Fragment}
    (hid : ¬ OutsideId tenant.scope store f.id) :
    Isolated tenant.scope store (postProcess settings draws store f tenant.caller) := by
  have hkey : tenant.key ∈ tenant.scope := List.mem_cons_self
  have hgroups : ∃ groups, tenant.caller.groups = some groups ∧ ∀ member ∈ groups, member ∈ tenant.scope := by
    have hmembers := tenant.groups_mem_scope
    rcases hcaller : tenant.caller.groups with _ | groups
    · rcases hgroup : tenant.groupKeyIds with _ | members <;>
        simp [Caller.groups, Tenant.caller, hgroup] at hcaller
    · rw [hcaller] at hmembers
      exact ⟨groups, rfl, hmembers⟩
  obtain ⟨groups, hcaller, hmembers⟩ := hgroups
  have hlinked : Isolated tenant.scope store (linkOwned store f tenant.agentId (some tenant.key)) :=
    isolated_linkOwned hkey hid
  have hchecked := hlinked.trans
    (isolated_checkAssertionConsistency settings draws hkey
      (hlinked.outsideId_iff.not.mpr hid))
  have htemporal := hchecked.trans
    (isolated_linkTemporalNeighbors (f := { f with createdAt := draws.now }) hmembers
      (hchecked.outsideId_iff.not.mpr hid))
  have hproactive := htemporal.trans
    (isolated_proactiveRecall settings draws hkey
      (htemporal.outsideId_iff.not.mpr hid))
  simp only [postProcess, hcaller]
  exact hproactive

theorem isolated_searchConflicts (tenant : Tenant) (store : Store) (params : RememberParams) :
    Isolated tenant.scope store (searchConflicts settings draws store tenant.caller params) := by
  simp only [searchConflicts]
  split
  · exact Isolated.refl store
  · exact isolated_afterSearch settings draws List.mem_cons_self fun g hg => mem_searchRows hg

theorem isolated_supersedeAll (hkey : key ∈ scope) {store : Store} {newId : FragmentId} {oldIds : List FragmentId}
    (hnew : ¬ OutsideId scope store newId) (hold : ∀ id ∈ oldIds, ¬ OutsideId scope store id) :
    Isolated scope store (supersedeAll draws store newId oldIds (some key)) := by
  refine Isolated.foldl ?_
  intro current hcurrent oldId hmem
  split
  · exact Isolated.refl current
  · exact isolated_supersede draws hkey (hcurrent.outsideId_iff.not.mpr (hold oldId hmem))
      (hcurrent.outsideId_iff.not.mpr hnew)

/-- What follows an insert, for the row that the insert reported. -/
theorem isolated_finalizeRemember (tenant : Tenant) {store : Store} {f : Fragment} {indexSession : Option String}
    {params : RememberParams} (hf : f.keyId = some tenant.key) (hid : ¬ OutsideId tenant.scope store f.id)
    (hsupersedes : ∀ id ∈ params.supersedes, ¬ OutsideId tenant.scope store id) :
    Isolated tenant.scope store
      (finalizeRemember settings draws store f indexSession tenant.caller params) := by
  have hkey : tenant.key ∈ tenant.scope := List.mem_cons_self
  have hindexed : Isolated tenant.scope store
      (index settings.redisReady settings.tools store f indexSession f.keyId) := isolated_index hid
  have hprocessed := hindexed.trans
    (isolated_postProcess settings draws tenant (hindexed.outsideId_iff.not.mpr hid))
  have hsearched := hprocessed.trans (isolated_searchConflicts settings draws tenant _ params)
  have hlinked := hsearched.trans
    (isolated_autoLinkOnRemember hkey tenant.agentId hf (hsearched.outsideId_iff.not.mpr hid))
  have hsuperseded := hlinked.trans
    (isolated_supersedeAll draws hkey (hlinked.outsideId_iff.not.mpr hid)
      fun id hmem => hlinked.outsideId_iff.not.mpr (hsupersedes id hmem))
  have htier : ∀ current : Store,
      Isolated tenant.scope current (lowerTier current f params (some tenant.key)) := by
    intro current
    simp only [lowerTier]
    split
    · exact isolated_updateTtlTier hkey current _ _
    · exact Isolated.refl current
  have hevent : ∀ current : Store,
      Isolated tenant.scope current (recordEvent draws current f (some tenant.key)) := by
    intro current
    simp only [recordEvent]
    split
    · exact isolated_eventsOnly (eventsOnly_recordCaseEvent _ _ _ _ _ _)
    · exact Isolated.refl current
  exact hsuperseded.trans ((htier _).trans (hevent _))

/-- The case assignment of a tenant's remember. -/
theorem isolated_autoAssignCaseId (tenant : Tenant) (store : Store) (params : RememberParams) :
    Isolated tenant.scope store (autoAssignCaseId draws store params tenant.caller).1 := by
  simp only [autoAssignCaseId]
  split
  · split
    · split
      · exact Isolated.refl store
      · split
        · exact Isolated.refl store
        · split
          · exact Isolated.refl store
          · exact Isolated.foldl fun current _ id _ =>
              isolated_updateCaseId List.mem_cons_self current id draws.newCaseId
    · exact Isolated.refl store
  · exact Isolated.refl store

end FragmentMemory.TenantWriteIsolation
