import FragmentMemory.EpisodeContinuityService

/-! # The chain of a case

The rememberer and the episode milestones write `preceded_by` edges.  Here is, for every run of the two, which
events are joined to the event before them and which edges lead from the later event to the earlier one.
-/
namespace FragmentMemory.CaseChain
open ApiKeyStore FragmentTables CaseEventStore MemoryRememberer SortedQueries TransitionRuns CaseHistory
  EpisodeContinuityService

/-- A remembered fragment, a milestone, or a restart, which forgets the last events of the agents. -/
inductive CaseOperation
  | remembered (r : CaseRecord)
  | milestone (params : MilestoneParams)
  | restarted

/-- The primary key refuses an event whose id is taken. -/
def caseStep (state : Continuity) : CaseOperation → Continuity
  | .remembered r =>
    if taken state.store r.draws.newEventId then state else { state with store := recordStep state.store r }
  | .milestone params => linkEpisodeMilestone state params
  | .restarted => { state with lastEventByAgent := [] }

/-- The event of a case before the next one. -/
def lastOfCase (store : Store) (caseId : String) : Option CaseEvent :=
  (store.caseEvents.filter fun e => e.caseId = caseId).getLast?

/-- A remembered fragment leaves an event in the case. -/
def LeavesEvent (store : Store) (r : CaseRecord) (caseId : String) : Prop :=
  r.fragment.caseId = some caseId ∧ eventOfFragment r.fragment.type ≠ none ∧ taken store r.draws.newEventId = false

/-- The new `preceded_by` edges lead from an event that is new to one that is not. -/
def LaterToEarlier (before after : Store) : Prop :=
  ∀ edge ∈ after.caseEventEdges, edge ∉ before.caseEventEdges → edge.edgeType = .precededBy →
    taken before edge.fromEventId = false ∧ taken before edge.toEventId = true

/-- The event of a remembered fragment has one `preceded_by` edge, to the event of the case before it. -/
def JoinsPrevious (state : Continuity) : CaseOperation → Prop
  | .remembered r => ∀ caseId previous, LeavesEvent state.store r caseId → lastOfCase state.store caseId = some previous →
    ∀ id, ⟨r.draws.newEventId, id, .precededBy⟩ ∈ (caseStep state (.remembered r)).store.caseEventEdges ↔
      id = previous.eventId
  | .milestone _ | .restarted => True

/-- What an operation does to the chains. -/
def Chains (state : Continuity) (operation : CaseOperation) : Prop :=
  JoinsPrevious state operation ∧ LaterToEarlier state.store (caseStep state operation).store

/-- The event before a remembered one is the only event of the case that its key is shown, up to events that come
after it; a milestone is the first of its agent and key since the last restart. -/
def ChainsSafely (state : Continuity) : CaseOperation → Prop
  | .remembered r => ∀ caseId previous, LeavesEvent state.store r caseId → lastOfCase state.store caseId = some previous →
    Seen r.keyId caseId previous = true ∧ ∀ e ∈ state.store.caseEvents, Seen r.keyId caseId e = true →
      e.eventId ≠ previous.eventId → eventOrder e previous = false
  | .milestone params => inserts state params = true → lastEvent state params = none
  | .restarted => True

/-- What holds in every state: an id names one event, and edges and tracked entries name events. -/
structure WellNamed (state : Continuity) : Prop where
  distinct : (state.store.caseEvents.map CaseEvent.eventId).Nodup
  edges : ∀ edge ∈ state.store.caseEventEdges,
    taken state.store edge.fromEventId = true ∧ taken state.store edge.toEventId = true
  tracked : ∀ entry ∈ state.lastEventByAgent, taken state.store entry.2 = true

theorem taken_iff {store : Store} {id : String} : taken store id = true ↔ ∃ e ∈ store.caseEvents, e.eventId = id := by
  rw [taken, List.contains_iff_mem, List.mem_map]

theorem taken_of_append {before after : Store} {new : CaseEvent} (h : after.caseEvents = before.caseEvents ++ [new])
    {id : String} : taken after id = true ↔ taken before id = true ∨ id = new.eventId := by
  simp only [taken_iff, h, List.mem_append, List.mem_singleton, or_and_right, exists_or, exists_eq_left]
  exact or_congr_right eq_comm

theorem wellNamed_empty : WellNamed {} where
  distinct := List.nodup_nil
  edges edge hedge := by cases hedge
  tracked entry hentry := by cases hentry

/-- The events after a new one whose id is not taken. -/
theorem distinct_append {before after : Store} {new : CaseEvent} (h : after.caseEvents = before.caseEvents ++ [new])
    (hdistinct : (before.caseEvents.map CaseEvent.eventId).Nodup) (hfree : taken before new.eventId = false) :
    (after.caseEvents.map CaseEvent.eventId).Nodup := by
  rw [h, List.map_append, List.nodup_append]
  refine ⟨hdistinct, List.nodup_singleton _, fun id hid other hother hsame => ?_⟩
  rw [List.mem_singleton.mp hother] at hsame
  rw [hsame] at hid
  rw [taken, List.contains_iff_mem.mpr hid] at hfree
  cases hfree

theorem mem_of_find?_getByCase {store : Store} {caseId : String} {limit : ℕ} {keyId : Option KeyId}
    {cond : CaseEvent → Bool}
    {e : CaseEvent} (h : (getByCase store caseId none limit keyId).find? cond = some e) : e ∈ store.caseEvents := by
  have hmem := List.mem_of_mem_take (List.mem_of_find?_eq_some h)
  exact (List.mem_filter.mp ((List.mem_insertionSort _).mp hmem)).1

theorem mem_of_mem_getByCase {store : Store} {caseId : String} {eventType : Option EventType} {limit : ℕ}
    {keyId : Option KeyId} {e : CaseEvent} (h : e ∈ getByCase store caseId eventType limit keyId) :
    e ∈ store.caseEvents :=
  (List.mem_filter.mp ((List.mem_insertionSort _).mp (List.mem_of_mem_take h))).1

theorem WellNamed.step {state : Continuity} (h : WellNamed state) (operation : CaseOperation) :
    WellNamed (caseStep state operation) := by
  cases operation with
  | restarted => exact ⟨h.distinct, h.edges, fun entry hentry => by cases hentry⟩
  | remembered r =>
    simp only [caseStep]
    split
    · exact h
    · rename_i hfree
      rw [Bool.not_eq_true] at hfree
      rcases recordStep_cases state.store r with ⟨hsame, -⟩ | ⟨caseId, eventType, -, -, hevents, hedges⟩
      · rw [hsame]
        exact h
      · have htaken := @taken_of_append _ _ _ hevents
        refine ⟨distinct_append hevents h.distinct hfree, fun edge hedge => ?_, fun entry hentry => ?_⟩
        · rcases (hedges edge).mp hedge with hold | ⟨previous, hprevious, rfl⟩ | ⟨-, e, he, rfl⟩
          · exact ⟨htaken.mpr (Or.inl (h.edges edge hold).1), htaken.mpr (Or.inl (h.edges edge hold).2)⟩
          · exact ⟨htaken.mpr (Or.inr rfl), taken_iff.mpr ⟨previous, mem_of_find?_getByCase hprevious, rfl⟩⟩
          · exact ⟨htaken.mpr (Or.inr rfl), taken_iff.mpr ⟨e, mem_of_mem_getByCase he, rfl⟩⟩
        · exact htaken.mpr (Or.inl (h.tracked entry hentry))
  | milestone params =>
    by_cases hinserts : inserts state params = true
    · obtain ⟨hevents, hedges, htracked⟩ := linkEpisodeMilestone_spec hinserts
      have hfree : taken state.store params.newEventId = false := by
        rw [inserts, Bool.and_eq_true, Bool.not_eq_true'] at hinserts
        exact hinserts.2
      have htaken := @taken_of_append _ _ _ hevents
      refine ⟨distinct_append hevents h.distinct hfree, fun edge hedge => ?_, fun entry hentry => ?_⟩
      · rcases (hedges edge).mp hedge with hold | ⟨previous, hlast, -, rfl⟩
        · exact ⟨htaken.mpr (Or.inl (h.edges edge hold).1), htaken.mpr (Or.inl (h.edges edge hold).2)⟩
        · obtain ⟨entry, hentry, rfl⟩ := Option.map_eq_some_iff.mp hlast
          exact ⟨htaken.mpr (Or.inl (h.tracked entry (List.mem_of_find?_eq_some hentry))), htaken.mpr (Or.inr rfl)⟩
      · rcases htracked entry hentry with hold | hnew
        · exact htaken.mpr (Or.inl (h.tracked entry hold))
        · exact htaken.mpr (Or.inr hnew)
    · simp only [caseStep, linkEpisodeMilestone, hinserts, Bool.false_eq_true, if_false]
      exact h

/-- The events of a case that a key is shown, where the last event of the case is among them. -/
theorem filter_seen {store : Store} {caseId : String} {previous : CaseEvent}
    (h : lastOfCase store caseId = some previous)
    {keyId : Option KeyId} (hseen : Seen keyId caseId previous = true) :
    ∃ front, store.caseEvents.filter (Seen keyId caseId) = front ++ [previous] := by
  obtain ⟨front, hfront⟩ := List.getLast?_eq_some_iff.mp h
  have hboth : store.caseEvents.filter (Seen keyId caseId) =
      (store.caseEvents.filter fun e => e.caseId = caseId).filter (Seen keyId caseId) := by
    rw [List.filter_filter]
    refine List.filter_congr fun e _ => ?_
    simp only [Seen]
    cases decide (e.caseId = caseId) <;> simp
  rw [hboth, hfront, List.filter_append, List.filter_cons_of_pos hseen, List.filter_nil]
  exact ⟨_, rfl⟩

/-- The row that the rememberer takes for the event before a new one. -/
theorem find?_getByCase {store after : Store} {new : CaseEvent} (hevents : after.caseEvents = store.caseEvents ++ [new])
    (hdistinct : (after.caseEvents.map CaseEvent.eventId).Nodup) (previous : CaseEvent)
    (h : lastOfCase store new.caseId = some previous) :
    (getByCase after new.caseId none 2 new.keyId).find? (fun e => e.eventId ≠ new.eventId) = some previous ↔
      Seen new.keyId new.caseId previous = true ∧ ∀ e ∈ store.caseEvents, Seen new.keyId new.caseId e = true →
        e.eventId ≠ previous.eventId → eventOrder e previous = false := by
  have hnewSeen : Seen new.keyId new.caseId new = true := by simp [Seen]
  have hrows : (after.caseEvents.filter fun e => e.caseId = new.caseId && ((none : Option EventType).isNone ||
      (none : Option EventType) = some e.eventType) && (new.keyId.isNone || e.keyId = new.keyId)) =
      store.caseEvents.filter (Seen new.keyId new.caseId) ++ [new] := by
    have hcond : ∀ e, (decide (e.caseId = new.caseId) && ((none : Option EventType).isNone ||
        decide ((none : Option EventType) = some e.eventType)) && (new.keyId.isNone || decide (e.keyId = new.keyId))) =
        Seen new.keyId new.caseId e := fun e => by rw [Option.isNone_none, Bool.true_or, Bool.and_true, Seen]
    simp only [hcond, hevents, List.filter_append, List.filter_cons_of_pos hnewSeen, List.filter_nil]
  have hafterNodup : after.caseEvents.Nodup := hdistinct.of_map _
  have hold : ∀ e ∈ store.caseEvents, e.eventId ≠ new.eventId := by
    rw [hevents, List.map_append, List.nodup_append] at hdistinct
    exact fun e he => hdistinct.2.2 _ (List.mem_map_of_mem he) _ (List.mem_singleton.mpr rfl)
  have hothers : (store.caseEvents.filter (Seen new.keyId new.caseId) ++ [new]).filter (fun e => e.eventId ≠ new.eventId) =
      store.caseEvents.filter (Seen new.keyId new.caseId) := by
    rw [List.filter_append, List.filter_eq_self.mpr fun e he => decide_eq_true (hold e (List.mem_filter.mp he).1)]
    simp
  have : Std.Total fun a b => eventOrder a b = true := ⟨eventOrder_total⟩
  have : IsTrans CaseEvent fun a b => eventOrder a b = true := ⟨eventOrder_trans⟩
  have hperm := List.perm_insertionSort (fun a b => eventOrder a b = true)
    (store.caseEvents.filter (Seen new.keyId new.caseId) ++ [new])
  have hone : (((store.caseEvents.filter (Seen new.keyId new.caseId) ++ [new]).insertionSort (eventOrder · ·)).filter
      fun e => !decide (e.eventId ≠ new.eventId)).length ≤ 1 := by
    rw [(hperm.filter _).length_eq, List.filter_append, List.length_append]
    have hnone : (store.caseEvents.filter (Seen new.keyId new.caseId)).filter
        (fun e => !decide (e.eventId ≠ new.eventId)) = [] := by
      refine List.filter_eq_nil_iff.mpr fun e he => ?_
      simp [hold e (List.mem_filter.mp he).1]
    rw [hnone, List.length_nil, Nat.zero_add]
    exact List.length_filter_le _ [new]
  have hkept := hperm.filter fun e => decide (e.eventId ≠ new.eventId)
  rw [hothers] at hkept
  rw [getByCase, hrows, show min 2 500 = 2 from rfl, find?_take_two hone, ← List.head?_filter]
  by_cases hseen : Seen new.keyId new.caseId previous = true
  · obtain ⟨front, hfront⟩ := filter_seen h hseen
    have hnodup : (front ++ [previous]).Nodup := by
      rw [hevents, List.nodup_append] at hafterNodup
      rw [← hfront]
      exact hafterNodup.1.filter _
    have hstored : ∀ e ∈ front ++ [previous], e ∈ store.caseEvents := fun e he =>
      (List.mem_filter.mp (hfront ▸ he)).1
    have hprevious : previous ∈ store.caseEvents :=
      hstored _ (List.mem_append_right _ (List.mem_singleton.mpr rfl))
    have hids : ∀ e ∈ store.caseEvents, e.eventId = previous.eventId → e = previous := by
      rw [hevents, List.map_append, List.nodup_append] at hdistinct
      exact fun e he => List.inj_on_of_nodup_map hdistinct.1 he hprevious
    rw [hfront] at hkept hperm ⊢
    rw [head_sorted_iff hkept ((List.pairwise_insertionSort _ _).filter _) ?_ hnodup, and_iff_right hseen]
    · constructor
      · intro hfirst e he hshown hother
        have hmem : e ∈ front ++ [previous] := by
          rw [← hfront]
          exact List.mem_filter.mpr ⟨he, hshown⟩
        rcases List.mem_append.mp hmem with hearlier | hsame
        · exact hfirst e hearlier
        · exact absurd (congrArg CaseEvent.eventId (List.mem_singleton.mp hsame)) hother
      · intro hfirst e he
        have hmem : e ∈ store.caseEvents.filter (Seen new.keyId new.caseId) := by
          rw [hfront]
          exact List.mem_append_left _ he
        refine hfirst e (List.mem_filter.mp hmem).1 (List.mem_filter.mp hmem).2 fun hsame => ?_
        have hrepeated := (List.nodup_append.mp hnodup).2.2 e he previous (List.mem_singleton.mpr rfl)
        exact hrepeated (hids e (List.mem_filter.mp hmem).1 hsame)
    · -- Rows that tie keep the order of the table.
      intro y hy hbefore
      have hpair : [y, previous].Sublist (front ++ [previous] ++ [new]) := by
        have hfrontPair : [y, previous].Sublist (front ++ [previous]) :=
          (List.singleton_sublist.mpr hy).append (List.Sublist.refl [previous])
        exact hfrontPair.trans (List.sublist_append_left _ _)
      have hstable : [y, previous].Sublist ((front ++ [previous] ++ [new]).insertionSort fun a b => eventOrder a b = true) :=
        List.sublist_insertionSort (List.pairwise_pair.mpr hbefore) hpair
      have hsorted := hstable.filter fun e => decide (e.eventId ≠ new.eventId)
      have hy' := hold y (hstored y (List.mem_append_left _ hy))
      have hprevious' := hold previous hprevious
      rw [List.filter_eq_self.mpr] at hsorted
      · exact hsorted
      · intro e he
        rcases List.mem_pair.mp he with rfl | rfl
        · exact decide_eq_true hy'
        · exact decide_eq_true hprevious'
  · refine iff_of_false (fun hhead => ?_) fun hboth => hseen hboth.1
    have hmem := hkept.mem_iff.mp (List.mem_of_mem_head? hhead)
    exact hseen (List.mem_filter.mp hmem).2

/-- The edges of a remembered fragment lead back, and to the event before it exactly when the key is shown that
event first. -/
theorem chains_remembered_iff {state : Continuity} (h : WellNamed state) (r : CaseRecord) :
    Chains state (.remembered r) ↔ ChainsSafely state (.remembered r) := by
  by_cases hfree : taken state.store r.draws.newEventId = true
  · have hsame : caseStep state (.remembered r) = state := by simp only [caseStep, hfree, if_true]
    have hnone : ∀ caseId, ¬ LeavesEvent state.store r caseId := by
      intro caseId hleaves
      rw [LeavesEvent, hfree] at hleaves
      exact Bool.noConfusion hleaves.2.2
    refine iff_of_true ⟨fun caseId previous hleaves => absurd hleaves (hnone caseId), ?_⟩ fun caseId previous hleaves =>
      absurd hleaves (hnone caseId)
    rw [hsame]
    exact fun edge hedge hnew => absurd hedge hnew
  · have hstep : (caseStep state (.remembered r)).store = recordStep state.store r := by
      simp only [caseStep, hfree, Bool.false_eq_true, if_false]
    rw [Bool.not_eq_true] at hfree
    rw [Chains, JoinsPrevious, ChainsSafely, hstep]
    rcases recordStep_cases state.store r with ⟨hsame, hnone⟩ | ⟨caseId, eventType, hcase, htype, hevents, hedges⟩
    · have hno : ∀ caseId, ¬ LeavesEvent state.store r caseId := by
        rintro caseId ⟨hcase, htype, -⟩
        rcases hnone with hnone | hnone
        · rw [hnone] at hcase
          cases hcase
        · exact htype hnone
      rw [hsame]
      exact iff_of_true ⟨fun caseId previous hleaves => absurd hleaves (hno caseId), fun edge hedge hnew => absurd hedge hnew⟩
        fun caseId previous hleaves => absurd hleaves (hno caseId)
    · have hback : LaterToEarlier state.store (recordStep state.store r) := by
        intro edge hedge hnew hprecedes
        rcases (hedges edge).mp hedge with hold | ⟨previous, hprevious, rfl⟩ | ⟨-, e, -, rfl⟩
        · exact absurd hold hnew
        · refine ⟨hfree, ?_⟩
          have hstored := taken_iff.mpr ⟨previous, mem_of_find?_getByCase hprevious, rfl⟩
          have hother := List.find?_some hprevious
          exact ((taken_of_append hevents).mp hstored).resolve_right (of_decide_eq_true hother)
        · cases hprecedes
      rw [and_iff_left hback]
      have hdistinct := distinct_append hevents h.distinct hfree
      have hjoin : ∀ id, ⟨r.draws.newEventId, id, .precededBy⟩ ∈ (recordStep state.store r).caseEventEdges ↔
          ∃ found, (getByCase (recordStep state.store r) caseId none 2 r.keyId).find?
            (fun e => e.eventId ≠ r.draws.newEventId) = some found ∧ id = found.eventId := by
        intro id
        rw [hedges]
        constructor
        · rintro (hold | ⟨found, hfound, hedge⟩ | ⟨-, e, -, hedge⟩)
          · have hend := (h.edges _ hold).1
            rw [hfree] at hend
            cases hend
          · exact ⟨found, hfound, congrArg CaseEventEdge.toEventId hedge⟩
          · cases congrArg CaseEventEdge.edgeType hedge
        · rintro ⟨found, hfound, rfl⟩
          exact Or.inr (Or.inl ⟨found, hfound, rfl⟩)
      have heach : ∀ previous, lastOfCase state.store caseId = some previous →
          ((∀ id, ⟨r.draws.newEventId, id, .precededBy⟩ ∈ (recordStep state.store r).caseEventEdges ↔
            id = previous.eventId) ↔
            Seen r.keyId caseId previous = true ∧ ∀ e ∈ state.store.caseEvents, Seen r.keyId caseId e = true →
              e.eventId ≠ previous.eventId → eventOrder e previous = false) := by
        intro previous hlast
        have hfirst :=
          @find?_getByCase state.store (recordStep state.store r) (eventOf state.store r caseId eventType) hevents
          hdistinct previous hlast
        refine Iff.trans ?_ hfirst
        constructor
        · intro hall
          obtain ⟨found, hfound, hid⟩ := (hjoin _).mp ((hall _).mpr rfl)
          have hmem := mem_of_find?_getByCase hfound
          have hstored : previous ∈ (recordStep state.store r).caseEvents := by
            rw [hevents]
            exact List.mem_append_left _ (List.mem_filter.mp (List.mem_of_getLast? hlast)).1
          rw [List.inj_on_of_nodup_map hdistinct hstored hmem hid]
          exact hfound
        · intro hfound id
          rw [hjoin]
          exact ⟨fun ⟨other, hother, hid⟩ => hid.trans (congrArg CaseEvent.eventId (Option.some.inj (hother.symm.trans hfound))),
            fun hid => ⟨previous, hfound, hid⟩⟩
      have hleaves : LeavesEvent state.store r caseId := ⟨hcase, by rw [htype]; exact Option.some_ne_none _, hfree⟩
      have honly : ∀ other, LeavesEvent state.store r other → other = caseId := fun other hother =>
        Option.some.inj (hother.1.symm.trans hcase)
      constructor
      · intro hall other previous hother hlast
        obtain rfl := honly other hother
        exact (heach previous hlast).mp (hall other previous hother hlast)
      · intro hall other previous hother hlast
        obtain rfl := honly other hother
        exact (heach previous hlast).mpr (hall other previous hother hlast)

/-- What an operation does to the chains, and when it does what it should. -/
theorem chains_iff {state : Continuity} (h : WellNamed state) (operation : CaseOperation) :
    Chains state operation ↔ ChainsSafely state operation := by
  cases operation with
  | restarted => exact iff_of_true ⟨trivial, fun edge hedge hnew => absurd hedge hnew⟩ trivial
  | remembered r => exact chains_remembered_iff h r
  | milestone params =>
    rw [Chains, ChainsSafely, JoinsPrevious, true_and]
    by_cases hinserts : inserts state params = true
    · obtain ⟨hevents, hedges, -⟩ := linkEpisodeMilestone_spec hinserts
      have hfree : taken state.store params.newEventId = false := by
        rw [inserts, Bool.and_eq_true, Bool.not_eq_true'] at hinserts
        exact hinserts.2
      rw [imp_iff_right hinserts]
      constructor
      · intro hdirected
        by_contra hsome
        obtain ⟨previous, hlast⟩ := Option.ne_none_iff_exists'.mp hsome
        obtain ⟨entry, hentry, hid⟩ := Option.map_eq_some_iff.mp hlast
        have htracked := h.tracked entry (List.mem_of_find?_eq_some hentry)
        rw [hid] at htracked
        have hother : previous ≠ params.newEventId := by
          intro hsame
          rw [hsame, hfree] at htracked
          cases htracked
        have hmem := (hedges _).mpr (Or.inr ⟨previous, hlast, hother, rfl⟩)
        have hnew : (⟨previous, params.newEventId, .precededBy⟩ : CaseEventEdge) ∉ state.store.caseEventEdges := by
          intro hold
          have hend := (h.edges _ hold).2
          rw [hfree] at hend
          cases hend
        have hend := (hdirected _ hmem hnew rfl).2
        rw [hfree] at hend
        cases hend
      · intro hnone edge hedge hnew
        rcases (hedges edge).mp hedge with hold | ⟨previous, hlast, -⟩
        · exact absurd hold hnew
        · rw [hnone] at hlast
          cases hlast
    · have hsame : caseStep state (.milestone params) = state := by
        simp only [caseStep, linkEpisodeMilestone, hinserts, Bool.false_eq_true, if_false]
      rw [hsame]
      exact iff_of_true (fun edge hedge hnew => absurd hedge hnew) fun hthen => absurd hthen hinserts

/-- The events of every case form one chain, in every run of remembered fragments and milestones, exactly when each
remembered event finds the one before it first and no milestone has another one before it. -/
theorem chains_throughout_iff (operations : List CaseOperation) :
    StepsMeet caseStep Chains {} operations ↔ StepsMeet caseStep ChainsSafely {} operations := by
  constructor
  · exact stepsMeet_of_invariant (I := WellNamed) (fun state operation h hchains => ⟨h.step operation, (chains_iff h operation).mp hchains⟩)
      wellNamed_empty
  · exact stepsMeet_of_invariant (I := WellNamed) (fun state operation h hsafe => ⟨h.step operation, (chains_iff h operation).mpr hsafe⟩)
      wellNamed_empty

section Sample

/-- A decision, an error and a fix of one case. -/
def threeEvents : List CaseOperation :=
  [.remembered (caseRecord 1 "event-01" .decision "case-01"), .remembered (caseRecord 2 "event-02" .error "case-01"),
    .remembered (caseRecord 3 "event-03" .procedure "case-01")]

def sampleMilestone (now : Time) (eventId : String) (fragmentId : FragmentId) : MilestoneParams where
  episodeFragmentId := fragmentId
  agentId := "default"
  keyId := none
  sessionId := some "session-01"
  now := now
  newEventId := eventId

/-- Two episodes of one agent. -/
def twoEpisodes : List CaseOperation :=
  [.milestone (sampleMilestone 1 "event-01" "frag-01"), .milestone (sampleMilestone 2 "event-02" "frag-02")]

/-- The third event of a case is joined to the first one, and the edge of a milestone leads from the earlier event
to the later one. -/
theorem chains_broken :
    ¬ StepsMeet caseStep Chains {} threeEvents ∧ ¬ StepsMeet caseStep Chains {} twoEpisodes := by
  refine ⟨fun h => ?_, fun h => ?_⟩
  · have hwell : WellNamed (run caseStep {} (threeEvents.take 2)) :=
      invariant_run (fun _ operation hwell => hwell.step operation) wellNamed_empty _
    have hsafe := (chains_iff hwell _).mp h.2.2.1
    have hlast : ∃ previous, lastOfCase (run caseStep {} (threeEvents.take 2)).store "case-01" = some previous ∧
        ∃ e ∈ (run caseStep {} (threeEvents.take 2)).store.caseEvents, Seen (some ContentUniqueness.sampleKey) "case-01" e = true ∧
          e.eventId ≠ previous.eventId ∧ eventOrder e previous = true := by
      refine ⟨_, rfl, ?_⟩
      decide
    obtain ⟨previous, hprevious, e, he, hseen, hother, hbefore⟩ := hlast
    have hafter := (hsafe "case-01" previous ⟨rfl, by decide, by decide⟩ hprevious).2 e he hseen hother
    rw [hbefore] at hafter
    cases hafter
  · have hwell : WellNamed (run caseStep {} (twoEpisodes.take 1)) :=
      invariant_run (fun _ operation hwell => hwell.step operation) wellNamed_empty _
    have hsafe := (chains_iff hwell _).mp h.2.1
    have hsecond : inserts (run caseStep {} (twoEpisodes.take 1)) (sampleMilestone 2 "event-02" "frag-02") = true ∧
        lastEvent (run caseStep {} (twoEpisodes.take 1)) (sampleMilestone 2 "event-02" "frag-02") ≠ none := by
      decide
    exact hsecond.2 (hsafe hsecond.1)

end Sample

end FragmentMemory.CaseChain
