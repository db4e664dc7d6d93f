import FragmentMemory.RememberResponse

/-! # The default and the atomic path of a remember

Both paths run the same statements on the tables.  They register the fragment under different sessions
in the index, and they word the response of a stored fragment differently.
-/
namespace FragmentMemory.RememberPaths
open ApiKeyStore FragmentTables FragmentFactory FragmentWriter FragmentReader FragmentIndex LinkStore CaseEventStore
  BatchRememberProcessor MemoryRememberer RememberLiveness RememberResponse JsString ContentUniqueness

def withIndex (store : Store) (index : RedisIndex) : Store := { store with index := index }

/-- A function of the store that the index does not matter to. -/
def IgnoresIndex (op : Store → Store) : Prop :=
  ∀ store index, ∃ after, op (withIndex store index) = withIndex (op store) after

namespace IgnoresIndex

theorem comp {first second : Store → Store} (h : IgnoresIndex first) (h' : IgnoresIndex second) :
    IgnoresIndex fun store => second (first store) := by
  intro store index
  obtain ⟨middle, hfirst⟩ := h store index
  obtain ⟨after, hsecond⟩ := h' (first store) middle
  exact ⟨after, (congrArg second hfirst).trans hsecond⟩

theorem id : IgnoresIndex fun store => store := fun _ index => ⟨index, rfl⟩

theorem foldl {α : Type*} {op : Store → α → Store} (h : ∀ item, IgnoresIndex fun store => op store item)
    (items : List α) : IgnoresIndex fun store => items.foldl op store := by
  induction items with
  | nil => exact id
  | cons item later ih => exact (h item).comp ih

/-- A loop over rows that the tables alone determine. -/
theorem foldl_rows {α : Type*} {op : Store → α → Store} {items : Store → List α}
    (h : ∀ item, IgnoresIndex fun store => op store item)
    (hitems : ∀ store index, items (withIndex store index) = items store) :
    IgnoresIndex fun store => (items store).foldl op store := by
  intro store index
  obtain ⟨after, hafter⟩ := foldl h (items store) store index
  exact ⟨after, (congrArg (fun found => found.foldl op (withIndex store index)) (hitems store index)).trans hafter⟩

/-- A choice that the tables alone determine. -/
theorem ite {cond : Store → Prop} [∀ store, Decidable (cond store)] {first second : Store → Store}
    (hcond : ∀ store index, cond (withIndex store index) ↔ cond store) (h : IgnoresIndex first)
    (h' : IgnoresIndex second) : IgnoresIndex fun store => if cond store then first store else second store := by
  intro store index
  by_cases hholds : cond store
  · simp only [if_pos hholds, if_pos ((hcond store index).mpr hholds)]
    exact h store index
  · simp only [if_neg hholds, if_neg (mt (hcond store index).mp hholds)]
    exact h' store index

end IgnoresIndex

theorem createLink_index (store : Store) (index : RedisIndex) (fromId toId : FragmentId) (relationType : RelationType)
    (weight : ℚ) : createLink (withIndex store index) fromId toId relationType weight =
      (createLink store fromId toId relationType weight).map fun linked => withIndex linked index := by
  have hends : ∀ id, (withIndex store index).fragments.byId id = store.fragments.byId id := fun _ => rfl
  simp only [createLink, hends]
  split
  · rw [Option.map_map]
    rfl
  · rfl

theorem ignoresIndex_tryLink (fromId toId : FragmentId) (relationType : RelationType) (weight : ℚ) :
    IgnoresIndex fun store => tryLink store fromId toId relationType weight := by
  intro store index
  refine ⟨index, ?_⟩
  simp only [tryLink, createLink_index]
  cases createLink store fromId toId relationType weight with
  | none => rfl
  | some linked => rfl

theorem ignoresIndex_updateFragments (cond : Fragment → Bool) (change : ColumnUpdate) :
    IgnoresIndex fun store => store.updateFragments cond change := fun _ index => ⟨index, rfl⟩

theorem ignoresIndex_cacheFragment (ready : Bool) (id : FragmentId) (keyId : Option KeyId) :
    IgnoresIndex fun store => cacheFragment ready store id keyId := by
  intro store index
  cases ready with
  | false => exact ⟨index, rfl⟩
  | true => exact ⟨_, rfl⟩

variable {settings : Settings} {draws : Draws}

theorem ignoresIndex_afterSearch (found : List Fragment) (keyId : Option KeyId) :
    IgnoresIndex fun store => afterSearch settings draws store found keyId := by
  have htouched : IgnoresIndex fun store => touchLinked draws.now store (found.map Fragment.id) keyId :=
    fun _ index => ⟨index, rfl⟩
  have hcounted := (ignoresIndex_updateFragments (fun f => (found.map Fragment.id).contains f.id) (access draws)).comp
    htouched
  exact hcounted.comp (IgnoresIndex.foldl (fun id => ignoresIndex_cacheFragment settings.redisReady id keyId) _)

/-- A search writes what its rows are found to be, and those the tables alone determine. -/
theorem ignoresIndex_search (ranking : List FragmentId) (agentId : String) (keyId : Option KeyId) :
    IgnoresIndex fun store => afterSearch settings draws store (searchRows store ranking agentId keyId) keyId :=
  fun store index => ignoresIndex_afterSearch (searchRows store ranking agentId keyId) keyId store index

theorem ignoresIndex_linkOwned (f : Fragment) (agentId : String) (keyId : Option KeyId) :
    IgnoresIndex fun store => linkOwned store f agentId keyId :=
  IgnoresIndex.foldl_rows (fun g => ignoresIndex_tryLink f.id g.id _ _) fun _ _ => rfl

theorem ignoresIndex_checkAssertionConsistency (f : Fragment) (keyId : Option KeyId) :
    IgnoresIndex fun store => checkAssertionConsistency settings draws store f keyId := by
  have hquarantine : ∀ g : Fragment, IgnoresIndex fun current =>
      quarantineAdjacentLinks current draws.now draws.recentlyDecayed f.id g.id := fun _ _ index => ⟨index, rfl⟩
  have hpatch := ignoresIndex_updateFragments (fun g => g.id = f.id && ownedBy keyId g) (setAssertion .inferred)
  simp only [checkAssertionConsistency]
  refine IgnoresIndex.ite (fun _ _ => Iff.rfl) IgnoresIndex.id (IgnoresIndex.ite (fun _ _ => Iff.rfl) ?_ IgnoresIndex.id)
  refine @IgnoresIndex.comp _ (fun store => patchAssertion store f.id .inferred keyId) ?_ hpatch
  exact IgnoresIndex.ite (fun _ _ => Iff.rfl) (IgnoresIndex.foldl_rows hquarantine fun _ _ => rfl) IgnoresIndex.id

theorem ignoresIndex_linkTemporalNeighbors (f : Fragment) (groupKeyIds : Option (List KeyId)) :
    IgnoresIndex fun store => linkTemporalNeighbors store f groupKeyIds := by
  have hlink : ∀ g : Fragment, IgnoresIndex fun current => tryLink current f.id g.id .temporal
      (max (3 / 10) (1 - (distance g.createdAt f.createdAt : ℚ) / windowMs)) := fun g => ignoresIndex_tryLink _ _ _ _
  simp only [linkTemporalNeighbors]
  exact IgnoresIndex.ite (fun _ _ => Iff.rfl) IgnoresIndex.id (IgnoresIndex.foldl_rows hlink fun _ _ => rfl)

theorem ignoresIndex_proactiveRecall (f : Fragment) (keyId : Option KeyId) :
    IgnoresIndex fun store => proactiveRecall settings draws store f keyId := by
  simp only [proactiveRecall]
  refine IgnoresIndex.ite (fun _ _ => Iff.rfl) IgnoresIndex.id fun store index => ?_
  have hsearch := @ignoresIndex_search settings draws draws.proactiveRanking "default" keyId
  exact (hsearch.comp (IgnoresIndex.foldl (fun g : Fragment => ignoresIndex_tryLink f.id g.id .related 1) _)) store index

theorem ignoresIndex_postProcess (f : Fragment) (caller : Caller) :
    IgnoresIndex fun store => postProcess settings draws store f caller :=
  (((ignoresIndex_linkOwned f caller.agentId caller.keyId).comp
    (ignoresIndex_checkAssertionConsistency f caller.keyId)).comp
      (ignoresIndex_linkTemporalNeighbors { f with createdAt := draws.now } caller.groups)).comp
        (ignoresIndex_proactiveRecall f caller.keyId)

theorem ignoresIndex_searchConflicts (caller : Caller) (params : RememberParams) :
    IgnoresIndex fun store => searchConflicts settings draws store caller params := by
  simp only [searchConflicts]
  exact IgnoresIndex.ite (fun _ _ => Iff.rfl) IgnoresIndex.id
    (ignoresIndex_search draws.conflictRanking caller.agentId caller.keyId)

theorem ignoresIndex_autoLinkOnRemember (f : Fragment) (agentId : String) :
    IgnoresIndex fun store => autoLinkOnRemember store f agentId := by
  have hlink : ∀ g : Fragment, IgnoresIndex fun current => tryLink current f.id g.id .related 1 :=
    fun g => ignoresIndex_tryLink _ _ _ _
  simp only [autoLinkOnRemember]
  exact IgnoresIndex.ite (fun _ _ => Iff.rfl) IgnoresIndex.id (IgnoresIndex.foldl_rows hlink fun _ _ => rfl)

theorem ignoresIndex_supersedeAll (newId : FragmentId) (oldIds : List FragmentId) (keyId : Option KeyId) :
    IgnoresIndex fun store => supersedeAll draws store newId oldIds keyId := by
  refine IgnoresIndex.foldl (fun oldId => ?_) oldIds
  intro store index
  simp only
  split
  · exact ⟨index, rfl⟩
  · simp only [supersede, createLink_index]
    cases createLink store oldId newId .supersededBy 1 with
    | none => exact ⟨index, rfl⟩
    | some linked => exact ⟨index, rfl⟩

theorem ignoresIndex_addEdge (edge : CaseEventEdge) : IgnoresIndex fun store => addEdge store edge := by
  have hadded : IgnoresIndex fun store => { store with caseEventEdges := store.caseEventEdges ++ [edge] } :=
    fun _ index => ⟨index, rfl⟩
  simp only [addEdge]
  exact IgnoresIndex.ite (fun _ _ => Iff.rfl) IgnoresIndex.id hadded

theorem ignoresIndex_witness (event : CaseEvent) : IgnoresIndex fun store => witness store event := by
  have happended : IgnoresIndex fun store => append store event := fun _ index => ⟨index, rfl⟩
  have hevidence : ∀ evidence : Evidence, IgnoresIndex fun store => addEvidence store evidence := by
    intro evidence
    have hadded : IgnoresIndex fun store => { store with evidence := store.evidence ++ [evidence] } :=
      fun _ index => ⟨index, rfl⟩
    simp only [addEvidence]
    exact IgnoresIndex.ite (fun _ _ => Iff.rfl) IgnoresIndex.id hadded
  exact happended.comp (hevidence _)

theorem ignoresIndex_chainToPrevious (eventId caseId : String) (keyId : Option KeyId) :
    IgnoresIndex fun store => chainToPrevious store eventId caseId keyId := by
  intro store index
  have hsame : getByCase (withIndex store index) caseId none 2 keyId = getByCase store caseId none 2 keyId := rfl
  simp only [chainToPrevious, hsame]
  cases (getByCase store caseId none 2 keyId).find? fun e => e.eventId ≠ eventId with
  | none => exact ⟨index, rfl⟩
  | some previous => exact ignoresIndex_addEdge _ store index

theorem ignoresIndex_recordEvent (f : Fragment) (keyId : Option KeyId) :
    IgnoresIndex fun store => recordEvent draws store f keyId := by
  have hresolve : ∀ eventId caseId, IgnoresIndex fun store => resolveErrors store eventId caseId keyId :=
    fun eventId caseId => IgnoresIndex.foldl_rows (fun e : CaseEvent => ignoresIndex_addEdge _) fun _ _ => rfl
  intro store index
  simp only [recordEvent]
  split
  · simp only [recordCaseEvent]
    split
    · exact ⟨index, rfl⟩
    · split
      · exact (((ignoresIndex_witness _).comp (ignoresIndex_chainToPrevious _ _ keyId)).comp (hresolve _ _)) store index
      · exact ((ignoresIndex_witness _).comp (ignoresIndex_chainToPrevious _ _ keyId)) store index
  · exact ⟨index, rfl⟩

theorem ignoresIndex_lowerTier (f : Fragment) (params : RememberParams) (keyId : Option KeyId) :
    IgnoresIndex fun store => lowerTier store f params keyId := by
  simp only [lowerTier]
  exact IgnoresIndex.ite (fun _ _ => Iff.rfl) (fun _ index => ⟨index, rfl⟩) IgnoresIndex.id

/-- What follows the registration in the index does not read it. -/
theorem ignoresIndex_finalize (f : Fragment) (caller : Caller) (params : RememberParams) :
    IgnoresIndex fun store => recordEvent draws (lowerTier (supersedeAll draws (autoLinkOnRemember
      (searchConflicts settings draws (postProcess settings draws store f caller) caller params) f caller.agentId)
        f.id params.supersedes caller.keyId) f params caller.keyId) f caller.keyId :=
  (((((ignoresIndex_postProcess f caller).comp (ignoresIndex_searchConflicts caller params)).comp
    (ignoresIndex_autoLinkOnRemember f caller.agentId)).comp
      (ignoresIndex_supersedeAll f.id params.supersedes caller.keyId)).comp
        (ignoresIndex_lowerTier f params caller.keyId)).comp (ignoresIndex_recordEvent f caller.keyId)

/-- Whatever session it registers the fragment under, the rest of a remember ends in the same tables. -/
theorem finalizeRemember_tables (store : Store) (f : Fragment) (session otherSession : Option String) (caller : Caller)
    (params : RememberParams) :
    (finalizeRemember settings draws store f session caller params).fragments =
        (finalizeRemember settings draws store f otherSession caller params).fragments ∧
      (finalizeRemember settings draws store f session caller params).links =
        (finalizeRemember settings draws store f otherSession caller params).links := by
  have hindexed : ∀ sessionId, ∃ registered,
      index settings.redisReady settings.tools store f sessionId f.keyId = withIndex store registered := by
    intro sessionId
    simp only [index]
    split
    · exact ⟨_, rfl⟩
    · exact ⟨store.index, rfl⟩
  have hfinal : ∀ sessionId, ∃ after, finalizeRemember settings draws store f sessionId caller params =
      withIndex (recordEvent draws (lowerTier (supersedeAll draws (autoLinkOnRemember
        (searchConflicts settings draws (postProcess settings draws store f caller) caller params) f caller.agentId)
          f.id params.supersedes caller.keyId) f params caller.keyId) f caller.keyId) after := by
    intro sessionId
    obtain ⟨registered, hregistered⟩ := hindexed sessionId
    simp only [finalizeRemember, hregistered]
    exact ignoresIndex_finalize f caller params store registered
  obtain ⟨after, hafter⟩ := hfinal session
  obtain ⟨after', hafter'⟩ := hfinal otherSession
  rw [hafter, hafter']
  exact ⟨rfl, rfl⟩

/-- The settings with the flag set and unset. -/
def withAtomic (settings : Settings) (rememberAtomic : Bool) : Settings := { settings with rememberAtomic := rememberAtomic }

/-- The cached quota lets the call through, and the key has a free slot. -/
def HasRoom (draws : Draws) (store : Store) (key : KeyId) : Prop :=
  draws.quotaRefuses = false ∧ ∀ limit, draws.fragmentLimit = some limit → liveCount store key < limit

theorem liveCount_autoAssignCaseId (store : Store) (params : RememberParams) (caller : Caller) (key : KeyId) :
    liveCount (autoAssignCaseId draws store params caller).1 key = liveCount store key := by
  have hcount : ∀ current : Store, liveCount current key = ((current.fragments.rows.map rowView).filter fun view =>
      decide (view.2.1 = some key) && view.2.2.2.1).length := by
    intro current
    rw [List.filter_map, List.length_map]
    rfl
  rw [hcount, hcount, map_autoAssignCaseId]

/-- With room in the quota both paths accept the same. -/
theorem acceptNew_atomic {store : Store} {params : RememberParams} {caller : Caller} {key : KeyId}
    (hkey : caller.keyId = some key) (hroom : HasRoom draws store key) :
    acceptNew (withAtomic settings true) draws store params caller =
      acceptNew (withAtomic settings false) draws store params caller := by
  obtain ⟨hcached, hlimit⟩ := hroom
  have hslot : (draws.fragmentLimit.any fun limit =>
      decide (limit ≤ liveCount (autoAssignCaseId draws store params caller).1 key)) = false := by
    rw [liveCount_autoAssignCaseId]
    cases hfragmentLimit : draws.fragmentLimit with
    | none => rfl
    | some limit =>
      have hfree := hlimit limit hfragmentLimit
      simp only [Option.any_some, decide_eq_false_iff_not]
      omega
  simp only [acceptNew, withAtomic, hkey, quotaRefuses, hcached, hslot, Option.isSome_some, Bool.and_self,
    Bool.not_true,
    Bool.and_true, Bool.and_false, Bool.not_false, Bool.false_eq_true, if_false]
  rfl

theorem truthy_session (params : RememberParams) : truthy params.session = params.session := by
  rcases hsession : truthy params.sessionId with _ | sessionId
  · rw [RememberParams.session, hsession, Option.none_or, truthy_truthy]
  · rw [RememberParams.session, hsession, Option.some_or, ← hsession, truthy_truthy]

theorem buildFragment_sessionId {params : RememberParams} {caseId : Option String} {caller : Caller} {f : Fragment}
    (h : buildFragment settings draws params caseId caller = .ok f) : f.sessionId = params.session := by
  simp only [buildFragment] at h
  rcases hcreate : create settings.digests settings.tools draws.newId draws.now (params.factoryParams caseId) with
    reason | created
  · rw [hcreate] at h
    cases h
  · rw [hcreate] at h
    cases h
    exact (create_sessionId hcreate).trans (truthy_session params)

/-- The effects after the insert are the same functions under the flag. -/
theorem finalizeRemember_withAtomic (store : Store) (f : Fragment) (indexSession : Option String) (caller : Caller)
    (params : RememberParams) : finalizeRemember (withAtomic settings true) draws store f indexSession caller params =
      finalizeRemember (withAtomic settings false) draws store f indexSession caller params := rfl

variable (settings draws)

/-- The call reaches its insert, and the insert succeeds. -/
structure Stores (store : Store) (params : RememberParams) (caller : Caller) : Prop where
  content : params.content.bind contentInputError = none
  permanent : ¬ (params.sessionScope ∧ params.session.isSome)
  fresh : checkIdempotency store params caller.keyId = none
  effective : params.dryRun = false
  accepted : ∃ accepted, acceptNew (withAtomic settings false) draws store params caller = .ok accepted

/-- The flag makes no difference to the call: not to the tables, not to the index, not to the answer. -/
structure SameOutcome (store : Store) (params : RememberParams) (caller : Caller) : Prop where
  fragments : (remember (withAtomic settings true) draws store params caller).1.fragments =
    (remember (withAtomic settings false) draws store params caller).1.fragments
  links : (remember (withAtomic settings true) draws store params caller).1.links =
    (remember (withAtomic settings false) draws store params caller).1.links
  index : ∀ member, member ∈ (remember (withAtomic settings true) draws store params caller).1.index ↔
    member ∈ (remember (withAtomic settings false) draws store params caller).1.index
  answer : answer (withAtomic settings true) draws store params caller =
    answer (withAtomic settings false) draws store params caller

variable {settings draws}

/-- A call that stores goes through the path of its flag. -/
theorem Stores.paths {store : Store} {params : RememberParams} {caller : Caller} {key : KeyId}
    (hkey : caller.keyId = some key) (hroom : HasRoom draws store key) (h : Stores settings draws store params caller) :
    ∃ accepted : Accepted, ∃ f : Fragment, f.sessionId = params.session ∧
      remember (withAtomic settings true) draws store params caller =
        (finalizeRemember (withAtomic settings false) draws accepted.store f f.sessionId caller params,
          .stored accepted.id) ∧
      remember (withAtomic settings false) draws store params caller =
        (finalizeRemember (withAtomic settings false) draws accepted.store f params.sessionId caller params,
          .stored accepted.id) ∧
      answer (withAtomic settings true) draws store params caller =
        .remembered (finalizeRememberResponse (withAtomic settings true) draws accepted.store f caller params) ∧
      answer (withAtomic settings false) draws store params caller =
        .remembered (persistNonAtomicResponse (withAtomic settings false) draws accepted.store f caller params) := by
  obtain ⟨hcontent, hpermanent, hfresh, heffective, accepted, haccepted⟩ := h
  have hatomic := (acceptNew_atomic hkey hroom).trans haccepted
  have hsession : accepted.fragment.sessionId = params.session := by
    obtain ⟨caseId, hbuild, -⟩ := acceptNew_spec haccepted
    exact buildFragment_sessionId hbuild
  have hdry : ¬ params.dryRun = true := by
    rw [heffective]
    exact Bool.false_ne_true
  have hset : ((withAtomic settings true).rememberAtomic && caller.keyId.isSome) = true := by
    rw [hkey]
    rfl
  have hunset : ¬ ((withAtomic settings false).rememberAtomic && caller.keyId.isSome) = true := Bool.false_ne_true
  refine ⟨accepted, { accepted.fragment with id := accepted.id }, hsession, ?_, ?_, ?_, ?_⟩
  · simp only [remember, hcontent, if_neg hpermanent, hfresh, if_neg hdry, hatomic, if_pos hset,
      finalizeRemember_withAtomic]
  · simp only [remember, hcontent, if_neg hpermanent, hfresh, if_neg hdry, haccepted, if_neg hunset]
  · simp only [answer, hcontent, if_neg hpermanent, hfresh, if_neg hdry, hatomic, if_pos hset]
  · simp only [answer, hcontent, if_neg hpermanent, hfresh, if_neg hdry, haccepted, if_neg hunset]

/-- A call that stores nothing does not meet the flag. -/
theorem remember_of_not_stores {store : Store} {params : RememberParams} {caller : Caller} {key : KeyId}
    (hkey : caller.keyId = some key) (hroom : HasRoom draws store key)
    (h : ¬ Stores settings draws store params caller) :
    remember (withAtomic settings true) draws store params caller =
        remember (withAtomic settings false) draws store params caller ∧
      answer (withAtomic settings true) draws store params caller =
        answer (withAtomic settings false) draws store params caller := by
  rcases hcontent : params.content.bind contentInputError with _ | reason
  · by_cases hsession : params.sessionScope ∧ params.session.isSome
    · simp only [remember, answer, hcontent, if_pos hsession]
      exact ⟨rfl, rfl⟩
    · rcases hexisting : checkIdempotency store params caller.keyId with _ | existing
      · by_cases hdry : params.dryRun = true
        · simp only [remember, answer, hcontent, if_neg hsession, hexisting, if_pos hdry]
          exact ⟨rfl, rfl⟩
        · rcases haccepted : acceptNew (withAtomic settings false) draws store params caller with reason | accepted
          · have hatomic := (acceptNew_atomic hkey hroom).trans haccepted
            simp only [remember, answer, hcontent, if_neg hsession, hexisting, if_neg hdry, haccepted, hatomic,
              and_self]
          · exact absurd ⟨hcontent, hsession, hexisting, Bool.eq_false_iff.mpr hdry, accepted, haccepted⟩ h
      · simp only [remember, answer, hcontent, if_neg hsession, hexisting, and_self]
  · simp only [remember, answer, hcontent, and_self]

/-- With room in the quota the flag makes no difference to a call under a key exactly when the call
stores nothing.  The two tables end the same in any case, and so does the index unless the session is
that of the transport. -/
theorem atomic_same_iff (settings : Settings) {store : Store} {params : RememberParams} {caller : Caller} {key : KeyId}
    (hkey : caller.keyId = some key) (hroom : HasRoom draws store key) :
    (SameOutcome settings draws store params caller ↔ ¬ Stores settings draws store params caller) ∧
    (remember (withAtomic settings true) draws store params caller).1.fragments =
      (remember (withAtomic settings false) draws store params caller).1.fragments ∧
    (remember (withAtomic settings true) draws store params caller).1.links =
      (remember (withAtomic settings false) draws store params caller).1.links ∧
    (truthy params.sessionId = params.session →
      (remember (withAtomic settings true) draws store params caller).1.index =
        (remember (withAtomic settings false) draws store params caller).1.index) := by
  by_cases hstores : Stores settings draws store params caller
  · obtain ⟨accepted, f, hf, hatomic, hdefault, hatomicAnswer, hdefaultAnswer⟩ := hstores.paths hkey hroom
    have htables := @finalizeRemember_tables (withAtomic settings false) draws accepted.store f
      f.sessionId params.sessionId caller params
    refine ⟨⟨fun hsame => ?_, fun hnone => absurd hstores hnone⟩, ?_, ?_, fun hsession => ?_⟩
    · have hanswer := hsame.answer
      rw [hatomicAnswer, hdefaultAnswer] at hanswer
      exact absurd (congrArg Response.scope (Answer.remembered.inj hanswer)) nofun
    · rw [hatomic, hdefault]
      exact htables.1
    · rw [hatomic, hdefault]
      exact htables.2
    · have hregistered : index settings.redisReady settings.tools accepted.store f f.sessionId f.keyId =
          index settings.redisReady settings.tools accepted.store f params.sessionId f.keyId := by
        have htruthy : truthy f.sessionId = truthy params.sessionId := by
          rw [hf, truthy_session, hsession]
        simp only [index, indexSets, htruthy]
      rw [hatomic, hdefault]
      simp only [finalizeRemember, withAtomic, hregistered]
  · obtain ⟨hremember, hanswer⟩ := remember_of_not_stores hkey hroom hstores
    rw [hremember]
    refine ⟨iff_of_true ⟨?_, ?_, fun member => ?_, hanswer⟩ hstores, rfl, rfl, fun _ => rfl⟩
    · rw [hremember]
    · rw [hremember]
    · rw [hremember]

def indexedSettings : Settings := { sampleSettings with redisReady := true }

def heldStore : Store :=
  (remember indexedSettings (sampleDraws 1 "frag-01") {} (sampleParams sampleContent []) sampleCaller).1

/-- A remember over a transport session, next to a similar fragment. -/
def transportParams : RememberParams :=
  { sampleParams replacementContent [] with transportSessionId := some "6c1d7a52" }

def similarDraws : Draws :=
  { sampleDraws 2 "frag-02" with
    conflictRanking := ["frag-01"]
    conflictSimilarity := fun _ => 9 / 10 }

/-- A content that the pattern check refuses is answered alike. -/
theorem atomic_same_refused :
    SameOutcome indexedSettings (sampleDraws 1 "frag-01") {} (sampleParams "api" []) sampleCaller := by
  have hroom : HasRoom (sampleDraws 1 "frag-01") {} sampleKey := ⟨rfl, nofun⟩
  have hrefused : (acceptNew (withAtomic indexedSettings false) (sampleDraws 1 "frag-01") {} (sampleParams "api" [])
      sampleCaller).isOk = false := by decide
  refine (atomic_same_iff indexedSettings rfl hroom).1.mpr fun h => ?_
  obtain ⟨accepted, haccepted⟩ := h.accepted
  rw [haccepted] at hrefused
  cases hrefused

def responseOf : Answer → Option Response
  | .remembered response => some response
  | _ => none

/-- A stored fragment is answered with another scope, its conflicts lose their ids, and only the atomic
path registers it under the session of the transport. -/
theorem atomic_differs_stored :
    ¬ SameOutcome indexedSettings similarDraws heldStore transportParams sampleCaller ∧
    (responseOf (answer (withAtomic indexedSettings true) similarDraws heldStore transportParams sampleCaller)).map
      (fun response => (response.scope, response.conflicts)) = some (.persistent, [.potential none none]) ∧
    (responseOf (answer (withAtomic indexedSettings false) similarDraws heldStore transportParams sampleCaller)).map
      (fun response => (response.scope, response.conflicts)) = some (.permanent, [.reported {
        existingId := "frag-01"
        existingContent := sampleContent
        similarity := 9 / 10
        recommendation := "기존 파편(frag-01)을 amend 또는 forget 후 재저장 권장" }]) ∧
    (.session "6c1d7a52", "frag-02") ∈
      (remember (withAtomic indexedSettings true) similarDraws heldStore transportParams sampleCaller).1.index ∧
    (.session "6c1d7a52", "frag-02") ∉
      (remember (withAtomic indexedSettings false) similarDraws heldStore transportParams sampleCaller).1.index := by
  have hatomic : (.session "6c1d7a52", "frag-02") ∈
      (remember (withAtomic indexedSettings true) similarDraws heldStore transportParams sampleCaller).1.index := by
    decide +kernel
  have hdefault : (.session "6c1d7a52", "frag-02") ∉
      (remember (withAtomic indexedSettings false) similarDraws heldStore transportParams sampleCaller).1.index := by
    decide +kernel
  exact ⟨fun h => hdefault ((h.index _).mp hatomic), by decide +kernel, by decide +kernel, hatomic, hdefault⟩

end FragmentMemory.RememberPaths
