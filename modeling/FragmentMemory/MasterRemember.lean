import FragmentMemory.KeyFrame
import FragmentMemory.RowPersistence

/-! # What a remember of the master reaches

Without a key no query is filtered, so what the master remembers is linked to rows of every key, and
counts accesses of them.  Where the rows that its queries may return have no key, the rows with a key
and their links stay as they are.
-/
namespace FragmentMemory.MasterRemember
open ApiKeyStore FragmentTables FragmentFactory FragmentWriter FragmentReader FragmentIndex LinkStore CaseEventStore
  MemoryRememberer PairSteps RememberLiveness RowPersistence KeyFrame UniqueIndexTable JsString

/-- The keys out of the frame of the master. -/
def keyed (keyId : Option KeyId) : Bool := keyId ≠ none

/-- The rows that the two searches of a remember rank. -/
def rankedIds (draws : Draws) : List FragmentId := draws.conflictRanking ++ draws.proactiveRanking

/-- What the queries of a remember of the master may return has no key: the live rows of the topic, the
live rows of the two rankings and their `co_retrieved` neighbours. -/
structure UnkeyedReach (draws : Draws) (topic : String) (store : Store) : Prop where
  topical : ∀ f ∈ store.fragments.rows, f.live = true → f.topic = topic → f.keyId = none
  ranked : ∀ f ∈ store.fragments.rows, f.live = true → f.id ∈ rankedIds draws → f.keyId = none
  retrieved : ∀ l ∈ store.links.rows, l.relationType = .coRetrieved → ∀ f ∈ store.fragments.rows,
    (l.fromId ∈ rankedIds draws ∧ l.toId = f.id) ∨ (l.toId ∈ rankedIds draws ∧ l.fromId = f.id) → f.keyId = none

instance (draws : Draws) (topic : String) (store : Store) : Decidable (UnkeyedReach draws topic store) :=
  decidable_of_iff
    ((∀ f ∈ store.fragments.rows, f.live = true → f.topic = topic → f.keyId = none) ∧
      (∀ f ∈ store.fragments.rows, f.live = true → f.id ∈ rankedIds draws → f.keyId = none) ∧
      ∀ l ∈ store.links.rows, l.relationType = .coRetrieved → ∀ f ∈ store.fragments.rows,
        (l.fromId ∈ rankedIds draws ∧ l.toId = f.id) ∨ (l.toId ∈ rankedIds draws ∧ l.fromId = f.id) → f.keyId = none)
    ⟨fun h => ⟨h.1, h.2.1, h.2.2⟩, fun h => ⟨h.topical, h.ranked, h.retrieved⟩⟩

theorem keyed_eq_false {keyId : Option KeyId} : keyed keyId = false ↔ keyId = none := by
  simp [keyed]

/-- The reach stays free of keys while the rows with a key stay as they are. -/
theorem UnkeyedReach.of_untouched {draws : Draws} {topic : String} {before after : Store}
    (h : UnkeyedReach draws topic before) (hsame : Untouched keyed before after) : UnkeyedReach draws topic after := by
  have hold : ∀ f ∈ after.fragments.rows, (f ∈ before.fragments.rows → f.keyId = none) → f.keyId = none := by
    intro f hf hbefore
    by_contra hkey
    have hkeyed : keyed f.keyId = true := decide_eq_true hkey
    exact hkey (hbefore ((hsame.mem_iff hkeyed).mp hf))
  refine ⟨fun f hf hlive htopic => ?_, fun f hf hlive hranked => ?_, fun l hl htype f hf hends => ?_⟩
  · exact hold f hf fun hf' => h.topical f hf' hlive htopic
  · exact hold f hf fun hf' => h.ranked f hf' hlive hranked
  · by_contra hkey
    have hkeyed : keyed f.keyId = true := decide_eq_true hkey
    have hf' := (hsame.mem_iff hkeyed).mp hf
    have htouches : TouchesOut keyed before l := by
      rcases hends with ⟨-, hto⟩ | ⟨-, hfrom⟩
      · exact Or.inr ⟨f, hf', hkeyed, hto.symm⟩
      · exact Or.inl ⟨f, hf', hkeyed, hfrom.symm⟩
    exact hkey (h.retrieved l ((hsame.links l htouches).mp hl) htype f hf' hends)

variable {settings : Settings} {draws : Draws} {topic : String}

/-- A row without a key is no row out of the frame. -/
theorem not_keyedId {store : Store} {f : Fragment} (hf : f ∈ store.fragments.rows) (hkey : f.keyId = none) :
    ¬ OutId keyed store f.id :=
  not_outId hf rfl (keyed_eq_false.mpr hkey)

theorem untouched_afterSearch {store : Store} {found : List Fragment} (hreach : UnkeyedReach draws topic store)
    (hfound : ∀ f ∈ found, f ∈ store.fragments.rows ∧ f.live = true ∧ f.id ∈ rankedIds draws) :
    Untouched keyed store (afterSearch settings draws store found none) := by
  have hcounted : Untouched keyed store
      (store.updateFragments (fun f => (found.map Fragment.id).contains f.id) (access draws)) := by
    refine untouched_updateFragments fun f hf hcontains => keyed_eq_false.mpr ?_
    obtain ⟨g, hg, hid⟩ := List.mem_map.mp (List.contains_iff_mem.mp hcontains)
    obtain ⟨hrow, hlive, hranked⟩ := hfound g hg
    rw [← eq_of_id _ hrow hf hid]
    exact hreach.ranked g hrow hlive hranked
  have hranked : ∀ id ∈ found.map Fragment.id, id ∈ rankedIds draws := by
    intro id hid
    obtain ⟨g, hg, rfl⟩ := List.mem_map.mp hid
    exact (hfound g hg).2.2
  have htouched : Untouched keyed
      (store.updateFragments (fun f => (found.map Fragment.id).contains f.id) (access draws))
      (touchLinked draws.now
        (store.updateFragments (fun f => (found.map Fragment.id).contains f.id) (access draws))
        (found.map Fragment.id) none) := by
    refine untouched_updateFragments fun f hf hcond => keyed_eq_false.mpr ?_
    simp only [Bool.and_eq_true, List.contains_iff_mem] at hcond
    obtain ⟨l, hl, hother⟩ := List.mem_filterMap.mp hcond.1.1
    obtain ⟨hlink, htype⟩ := List.mem_filter.mp hl
    refine (hreach.of_untouched hcounted).retrieved l hlink (of_decide_eq_true htype) f hf ?_
    split at hother
    · rename_i hfrom
      exact Or.inl ⟨hranked _ hfrom, Option.some.inj hother⟩
    · split at hother
      · rename_i hto
        exact Or.inr ⟨hranked _ hto, Option.some.inj hother⟩
      · cases hother
  have hcached : ∀ (ids : List FragmentId) (current : Store),
      (ids.foldl (fun current id => cacheFragment settings.redisReady current id none) current).links = current.links := by
    intro ids
    induction ids with
    | nil => exact fun _ => rfl
    | cons id later ih =>
      intro current
      rw [List.foldl_cons, ih, cacheFragment_links]
  exact (hcounted.trans htouched).trans (Untouched.of_eq (fragments_cacheAll _ _ _ _) (hcached _ _))

/-- The rows that a search without a key returns are live rows of its ranking. -/
theorem searchRows_spec {store : Store} {ranking : List FragmentId} {agentId : String} {f : Fragment}
    (h : f ∈ searchRows store ranking agentId none) : f ∈ store.fragments.rows ∧ f.live = true ∧ f.id ∈ ranking := by
  obtain ⟨hfound, hcond⟩ := List.mem_filter.mp h
  obtain ⟨id, hid, hrow⟩ := List.mem_filterMap.mp hfound
  obtain ⟨hmem, hsame⟩ := (byId_eq_some_iff _).mp hrow
  simp only [Bool.and_eq_true] at hcond
  exact ⟨hmem, hcond.1.2, hsame ▸ List.mem_dedup.mp hid⟩

theorem untouched_quarantineAdjacentLinks {store : Store} {fromId toId : FragmentId}
    (hfrom : ¬ OutId keyed store fromId) (hto : ¬ OutId keyed store toId) :
    Untouched keyed store (quarantineAdjacentLinks store draws.now draws.recentlyDecayed fromId toId) := by
  refine untouched_updateLinks _ fun l _ hcond => ?_
  simp only [Bool.and_eq_true, Bool.or_eq_true, decide_eq_true_eq] at hcond
  rcases hcond.1.1.1.1 with hends | hends
  · rw [← hends.1] at hfrom
    rw [← hends.2] at hto
    exact not_or.mpr ⟨hfrom, hto⟩
  · rw [← hends.2] at hfrom
    rw [← hends.1] at hto
    exact not_or.mpr ⟨hto, hfrom⟩

theorem untouched_checkAssertionConsistency {store : Store} {f : Fragment} (hreach : UnkeyedReach draws f.topic store)
    (hid : ¬ OutId keyed store f.id) :
    Untouched keyed store (checkAssertionConsistency settings draws store f none) := by
  have hpatch : ∀ current, Untouched keyed store current →
      Untouched keyed store (patchAssertion current f.id .inferred none) := by
    intro current hcurrent
    refine hcurrent.trans (untouched_updateById (hcurrent.outId_iff.not.mpr hid) fun g hcond => ?_)
    simp only [Bool.and_eq_true, decide_eq_true_eq] at hcond
    exact hcond.1
  simp only [checkAssertionConsistency]
  split
  · exact Untouched.refl store
  · split
    · refine hpatch _ ?_
      split
      · refine Untouched.foldl fun current hcurrent g hg => ?_
        have hsorted := List.mem_of_mem_take (List.mem_filter.mp hg).1
        obtain ⟨hrow, hcond⟩ := List.mem_filter.mp ((List.mem_insertionSort _).mp hsorted)
        simp only [Bool.and_eq_true, decide_eq_true_eq] at hcond
        have hgid := not_keyedId hrow (hreach.topical g hrow hcond.2 hcond.1.1.1.1)
        exact untouched_quarantineAdjacentLinks (hcurrent.outId_iff.not.mpr hid) (hcurrent.outId_iff.not.mpr hgid)
      · exact Untouched.refl store
    · exact Untouched.refl store

theorem untouched_linkTemporalNeighbors {store : Store} {f : Fragment} (hreach : UnkeyedReach draws f.topic store)
    (hid : ¬ OutId keyed store f.id) : Untouched keyed store (linkTemporalNeighbors store f none) := by
  simp only [linkTemporalNeighbors]
  split
  · exact Untouched.refl store
  · refine untouched_linkAll (Untouched.refl store) hid fun g hg => ?_
    have hsorted := List.mem_of_mem_take hg
    obtain ⟨hrow, hcond⟩ := List.mem_filter.mp ((List.mem_insertionSort _).mp hsorted)
    simp only [Bool.and_eq_true, decide_eq_true_eq] at hcond
    exact not_keyedId hrow (hreach.topical g hrow hcond.1.2 hcond.1.1.1.1)

theorem untouched_proactiveRecall {store : Store} {f : Fragment} (hreach : UnkeyedReach draws f.topic store)
    (hid : ¬ OutId keyed store f.id) : Untouched keyed store (proactiveRecall settings draws store f none) := by
  have hranked : ∀ g ∈ searchRows store draws.proactiveRanking "default" none,
      g ∈ store.fragments.rows ∧ g.live = true ∧ g.id ∈ rankedIds draws := by
    intro g hg
    obtain ⟨hrow, hlive, hmem⟩ := searchRows_spec hg
    exact ⟨hrow, hlive, List.mem_append_right _ hmem⟩
  simp only [proactiveRecall]
  split
  · exact Untouched.refl store
  · have hsearched : Untouched keyed store
        (afterSearch settings draws store (searchRows store draws.proactiveRanking "default" none) none) :=
      untouched_afterSearch hreach hranked
    refine hsearched.trans (untouched_linkAll hsearched hid fun g hg => ?_)
    obtain ⟨hrow, hlive, hmem⟩ := hranked g (List.mem_filter.mp hg).1
    exact not_keyedId hrow (hreach.ranked g hrow hlive hmem)

theorem untouched_autoLinkOnRemember {store : Store} {f : Fragment} (agentId : String) (hf : f.keyId = none)
    (hreach : UnkeyedReach draws f.topic store) (hid : ¬ OutId keyed store f.id) :
    Untouched keyed store (autoLinkOnRemember store f agentId) := by
  simp only [autoLinkOnRemember, hf]
  split
  · exact Untouched.refl store
  · refine untouched_linkAll (Untouched.refl store) hid fun g hg => ?_
    obtain ⟨hrow, htopic, hlive, -⟩ := mem_searchByTopic (List.mem_filter.mp (List.mem_of_mem_take hg)).1
    exact not_keyedId hrow (hreach.topical g hrow hlive htopic)

theorem untouched_postProcess {store : Store} {f : Fragment} (hreach : UnkeyedReach draws f.topic store)
    (hid : ¬ OutId keyed store f.id) (hlinked : ∀ id ∈ f.linkedTo, ¬ OutId keyed store id) :
    Untouched keyed store (postProcess settings draws store f masterCaller) := by
  have howned : Untouched keyed store (linkOwned store f masterCaller.agentId none) :=
    untouched_linkAll (Untouched.refl store) hid fun g hg => hlinked g.id (mem_getByIds hg).2.1
  have hchecked : Untouched keyed store (checkAssertionConsistency settings draws
      (linkOwned store f masterCaller.agentId none) f none) :=
    howned.trans (untouched_checkAssertionConsistency (hreach.of_untouched howned) (howned.outId_iff.not.mpr hid))
  have htemporal := hchecked.trans (untouched_linkTemporalNeighbors (f := { f with createdAt := draws.now })
    (hreach.of_untouched hchecked) (hchecked.outId_iff.not.mpr hid))
  exact htemporal.trans (untouched_proactiveRecall (hreach.of_untouched htemporal) (htemporal.outId_iff.not.mpr hid))

theorem untouched_recordEvent (store : Store) (f : Fragment) (keyId : Option KeyId) :
    Untouched keyed store (recordEvent draws store f keyId) := by
  simp only [recordEvent]
  split
  · rename_i caseId _
    have hevents := eventsOnly_recordCaseEvent draws.now draws.newEventId store f caseId keyId
    exact Untouched.of_eq hevents.fragments hevents.links
  · exact Untouched.refl store

/-- What follows the insert, for a request of the master without supersessions. -/
theorem untouched_finalizeRemember {store : Store} {f : Fragment} {indexSession : Option String}
    {params : RememberParams} (hf : f.keyId = none) (hsupersedes : params.supersedes = [])
    (hreach : UnkeyedReach draws f.topic store) (hid : ¬ OutId keyed store f.id)
    (hlinked : ∀ id ∈ f.linkedTo, ¬ OutId keyed store id) :
    Untouched keyed store (finalizeRemember settings draws store f indexSession masterCaller params) := by
  have hindexed : Untouched keyed store (index settings.redisReady settings.tools store f indexSession f.keyId) :=
    Untouched.of_eq index_fragments index_links
  have hprocessed : Untouched keyed store (postProcess settings draws
      (index settings.redisReady settings.tools store f indexSession f.keyId) f masterCaller) := by
    refine hindexed.trans (untouched_postProcess (hreach.of_untouched hindexed) (hindexed.outId_iff.not.mpr hid) ?_)
    exact fun id hmem => hindexed.outId_iff.not.mpr (hlinked id hmem)
  have hsearched : Untouched keyed store (searchConflicts settings draws (postProcess settings draws
      (index settings.redisReady settings.tools store f indexSession f.keyId) f masterCaller) masterCaller params) := by
    refine hprocessed.trans ?_
    simp only [searchConflicts]
    split
    · exact Untouched.refl _
    · refine untouched_afterSearch (hreach.of_untouched hprocessed) fun g hg => ?_
      obtain ⟨hrow, hlive, hmem⟩ := searchRows_spec hg
      exact ⟨hrow, hlive, List.mem_append_left _ hmem⟩
  have hautolinked := hsearched.trans (untouched_autoLinkOnRemember masterCaller.agentId hf
    (hreach.of_untouched hsearched) (hsearched.outId_iff.not.mpr hid))
  have hlowered : ∀ current, Untouched keyed store current →
      Untouched keyed store (lowerTier current f params none) := by
    intro current hcurrent
    simp only [lowerTier]
    split
    · refine hcurrent.trans (untouched_updateById (hcurrent.outId_iff.not.mpr hid) fun g hcond => ?_)
      simp only [Bool.and_eq_true, decide_eq_true_eq] at hcond
      exact hcond.1
    · exact hcurrent
  simp only [finalizeRemember, hsupersedes, supersedeAll, List.foldl_nil]
  exact (hlowered _ hautolinked).trans (untouched_recordEvent _ f none)

theorem buildFragment_topic {params : RememberParams} {caseId : Option String} {caller : Caller} {f : Fragment}
    (h : buildFragment settings draws params caseId caller = .ok f) :
    f.topic = (truthy params.topic).getD "general" := by
  simp only [buildFragment] at h
  cases hcreate : create settings.digests settings.tools draws.newId draws.now (params.factoryParams caseId) with
  | error reason =>
    rw [hcreate] at h
    cases h
  | ok created =>
    rw [hcreate] at h
    cases h
    have htopic := create_topic hcreate
    simp only [RememberParams.factoryParams] at htopic
    simp only [htopic]

/-- The topic under which the audit record of a contradiction is remembered. -/
def auditTopic (topic : String) : String := (truthy (some topic)).getD "contradiction"

theorem truthy_auditTopic (topic : String) : (truthy (some (auditTopic topic))).getD "general" = auditTopic topic := by
  by_cases hempty : topic = ""
  · simp [auditTopic, truthy, Option.filter_some, hempty]
  · simp [auditTopic, truthy, Option.filter_some, hempty]

/-- The audit record of a contradiction between rows without a key. -/
theorem untouched_recordAudit {store : Store} {winner loser : Fragment} {topic reasoning : String}
    (hreach : UnkeyedReach draws (auditTopic topic) store) (hwinner : ¬ OutId keyed store winner.id)
    (hloser : ¬ OutId keyed store loser.id) :
    Untouched keyed store (recordAudit settings draws store winner loser topic reasoning) := by
  have hassign : (autoAssignCaseId draws store (auditParams winner loser topic reasoning) masterCaller).1 = store := rfl
  have hafter : ∀ accepted, acceptNew settings draws store (auditParams winner loser topic reasoning) masterCaller =
      .ok accepted → ∀ indexSession, Untouched keyed store (finalizeRemember settings draws accepted.store
        { accepted.fragment with id := accepted.id } indexSession masterCaller
        (auditParams winner loser topic reasoning)) := by
    intro accepted haccepted indexSession
    obtain ⟨caseId, hbuild, hinsert⟩ := acceptNew_spec haccepted
    obtain ⟨hkey, -, -, hlinkedTo, -⟩ := buildFragment_spec hbuild
    have htopic : accepted.fragment.topic = auditTopic topic :=
      (buildFragment_topic hbuild).trans (truthy_auditTopic topic)
    rw [hassign] at hinsert
    have hrow : keyed (prepareInsertRow settings.digests draws.now accepted.fragment).keyId = false :=
      keyed_eq_false.mpr hkey
    have hinserted : Untouched keyed store accepted.store := untouched_upsertRow hrow hinsert
    refine hinserted.trans (untouched_finalizeRemember hkey rfl ?_ ?_ ?_)
    · rw [htopic]
      exact hreach.of_untouched hinserted
    · obtain ⟨g, hg, hgid, hgkey⟩ := (upsertRow_rows hinsert).1
      exact not_outId hg hgid (keyed_eq_false.mpr (hgkey.trans hkey))
    · intro id hmem
      rw [hlinkedTo] at hmem
      refine hinserted.outId_iff.not.mpr ?_
      rcases List.mem_cons.mp hmem with rfl | hmem
      · exact hwinner
      · rw [List.mem_singleton.mp hmem]
        exact hloser
  simp only [recordAudit, remember]
  split
  · exact Untouched.refl store
  · split
    · split <;> exact Untouched.refl store
    · split
      · exact Untouched.refl store
      · split
        · split
          · exact Untouched.refl store
          · rename_i hdry _ _ _
            cases hdry
        · split
          · exact Untouched.refl store
          · rename_i accepted haccepted
            exact hafter accepted haccepted _

end FragmentMemory.MasterRemember
