import FragmentMemory.ContentUniqueness
import FragmentMemory.HistoryReconstructor
import FragmentMemory.SortedQueries

/-! # The history of a case

`_recordCaseEvent` writes the events of a case and the edges from a fix to its errors; the reconstructor reads
them.  Here is, after every sequence of remembered fragments, which errors it lists as unresolved.
-/
namespace FragmentMemory.CaseHistory
open ApiKeyStore FragmentTables CaseEventStore HistoryReconstructor MemoryRememberer SortedQueries TransitionRuns JsString

/-- A remembered fragment when its event is recorded. -/
structure CaseRecord where
  draws : Draws
  fragment : Fragment
  keyId : Option KeyId

def recordStep (store : Store) (r : CaseRecord) : Store := recordEvent r.draws store r.fragment r.keyId

/-- The event that a fragment of a type with events leaves in a case. -/
def eventOf (store : Store) (r : CaseRecord) (caseId : String) (eventType : EventType) : CaseEvent where
  eventId := r.draws.newEventId
  caseId := caseId
  sessionId := r.fragment.sessionId
  sequenceNo := nextSequenceNo store caseId
  eventType := eventType
  summary := clip r.fragment.content 200
  entityKeys := r.fragment.keywords
  sourceFragmentId := r.fragment.id
  keyId := r.keyId
  createdAt := r.draws.now

/-- An event that a caller of the key is shown. -/
def Seen (keyId : Option KeyId) (caseId : String) (e : CaseEvent) : Bool :=
  e.caseId = caseId && (keyId.isNone || e.keyId = keyId)

section Property
variable (text : TextMatch) (store : Store) (caller : Caller) (params : HistoryParams) (caseId : String)

/-- A fix of the case comes after the event. -/
def FixedLater (e : CaseEvent) : Prop :=
  ∃ fix ∈ store.caseEvents, fix.caseId = caseId ∧ fix.eventType = .fixAttempted ∧ e.sequenceNo < fix.sequenceNo

/-- The history of the case lists an error exactly when no fix of the case comes after it. -/
def HistoryReadsFixes : Prop :=
  ∀ history, reconstruct text store caller { params with caseId := some caseId } = some history →
    ∀ e ∈ store.caseEvents, Seen caller.keyId caseId e = true → e.eventType = .errorObserved →
      (Branch.event e ∈ history.unresolvedBranches ↔ ¬ FixedLater store caseId e)

/-- Among the events that the caller is shown, fewer than a hundred come before this one. -/
def AmongFirst (e : CaseEvent) : Prop :=
  rank eventOrder (store.caseEvents.filter (Seen caller.keyId caseId)) e < 100

instance (e : CaseEvent) : Decidable (FixedLater store caseId e) :=
  inferInstanceAs (Decidable (∃ fix ∈ store.caseEvents, _ ∧ _))

instance (e : CaseEvent) : Decidable (AmongFirst store caller caseId e) := inferInstanceAs (Decidable (_ < _))

end Property

/-- What the statements of the rememberer keep of the case tables: the events of a case are numbered in their
order, and only fixes resolve. -/
structure Recorded (store : Store) : Prop where
  numbered : store.caseEvents.Pairwise fun a b => a.caseId = b.caseId → a.sequenceNo < b.sequenceNo
  resolving : ∀ edge ∈ store.caseEventEdges, edge.edgeType = .resolvedBy →
    ∃ e ∈ store.caseEvents, e.eventId = edge.fromEventId ∧ e.eventType = .fixAttempted

theorem mem_addEdge {store : Store} {edge other : CaseEventEdge} :
    other ∈ (addEdge store edge).caseEventEdges ↔ other ∈ store.caseEventEdges ∨ other = edge := by
  simp only [addEdge]
  split
  · rename_i hmem
    exact ⟨Or.inl, fun h => h.elim id fun hsame => hsame ▸ hmem⟩
  · rw [List.mem_append, List.mem_singleton]

theorem caseEvents_addEdge (store : Store) (edge : CaseEventEdge) :
    (addEdge store edge).caseEvents = store.caseEvents := by
  simp only [addEdge]
  split <;> rfl

/-- An event with its evidence: the row is added and no edge is. -/
theorem witness_spec (store : Store) (event : CaseEvent) :
    (witness store event).caseEvents =
      store.caseEvents ++ [{ event with sequenceNo := nextSequenceNo store event.caseId }] ∧
    (witness store event).caseEventEdges = store.caseEventEdges := by
  simp only [witness, addEvidence]
  split
  · exact ⟨rfl, rfl⟩
  · exact ⟨rfl, rfl⟩

theorem caseEvents_chainToPrevious (store : Store) (eventId caseId : String) (keyId : Option KeyId) :
    (chainToPrevious store eventId caseId keyId).caseEvents = store.caseEvents := by
  simp only [chainToPrevious]
  split
  · exact caseEvents_addEdge store _
  · rfl

theorem mem_chainToPrevious {store : Store} {eventId caseId : String} {keyId : Option KeyId} {edge : CaseEventEdge} :
    edge ∈ (chainToPrevious store eventId caseId keyId).caseEventEdges ↔ edge ∈ store.caseEventEdges ∨
      ∃ previous, (getByCase store caseId none 2 keyId).find? (fun e => e.eventId ≠ eventId) = some previous ∧
        edge = ⟨eventId, previous.eventId, .precededBy⟩ := by
  simp only [chainToPrevious]
  split
  · rename_i previous hfound
    rw [mem_addEdge, hfound]
    simp only [Option.some.injEq, exists_eq_left']
  · rename_i hnone
    rw [hnone]
    simp only [reduceCtorEq, false_and, exists_false, or_false]

/-- The edges from a fix to the given errors. -/
theorem resolve_spec (store : Store) (eventId : String) (errors : List CaseEvent) :
    (errors.foldl (fun current e => addEdge current ⟨eventId, e.eventId, .resolvedBy⟩) store).caseEvents = store.caseEvents ∧
    ∀ edge, edge ∈ (errors.foldl (fun current e => addEdge current ⟨eventId, e.eventId, .resolvedBy⟩) store).caseEventEdges ↔
      edge ∈ store.caseEventEdges ∨ ∃ e ∈ errors, edge = ⟨eventId, e.eventId, .resolvedBy⟩ := by
  induction errors generalizing store with
  | nil => exact ⟨rfl, fun edge => by simp⟩
  | cons e later ih =>
    obtain ⟨hevents, hedges⟩ := ih (addEdge store ⟨eventId, e.eventId, .resolvedBy⟩)
    refine ⟨hevents.trans (caseEvents_addEdge store _), fun edge => ?_⟩
    rw [List.foldl_cons, hedges, mem_addEdge, or_assoc]
    simp only [List.mem_cons, exists_eq_or_imp]

theorem getByCase_congr {store other : Store} (h : store.caseEvents = other.caseEvents) :
    getByCase store = getByCase other := by
  funext caseId eventType limit keyId
  simp only [getByCase, h]

/-- The edges that a new event has in a store with its row. -/
def NewEdge (store : Store) (r : CaseRecord) (caseId : String) (eventType : EventType) (edge : CaseEventEdge) : Prop :=
  (∃ previous, (getByCase store caseId none 2 r.keyId).find? (fun e => e.eventId ≠ r.draws.newEventId) = some previous ∧
    edge = ⟨r.draws.newEventId, previous.eventId, .precededBy⟩) ∨
  (eventType = .fixAttempted ∧ ∃ e ∈ getByCase store caseId (some .errorObserved) 100 r.keyId,
    edge = ⟨r.draws.newEventId, e.eventId, .resolvedBy⟩)

theorem newEdge_congr {store other : Store} (h : store.caseEvents = other.caseEvents) :
    NewEdge store = NewEdge other := by
  funext r caseId eventType edge
  simp only [NewEdge, getByCase_congr h]

/-- The statements after the insert of an event write its edges. -/
theorem edges_spec (store : Store) (r : CaseRecord) (caseId : String) (eventType : EventType) {after : Store}
    (hafter : after = if eventType = .fixAttempted then
        resolveErrors (chainToPrevious store r.draws.newEventId caseId r.keyId) r.draws.newEventId caseId r.keyId
      else chainToPrevious store r.draws.newEventId caseId r.keyId) :
    after.caseEvents = store.caseEvents ∧
      ∀ edge, edge ∈ after.caseEventEdges ↔ edge ∈ store.caseEventEdges ∨ NewEdge store r caseId eventType edge := by
  have hchained := caseEvents_chainToPrevious store r.draws.newEventId caseId r.keyId
  by_cases hfix : eventType = .fixAttempted
  · obtain ⟨hresolved, hedges⟩ :=
      resolve_spec (chainToPrevious store r.draws.newEventId caseId r.keyId) r.draws.newEventId
      (getByCase (chainToPrevious store r.draws.newEventId caseId r.keyId) caseId (some .errorObserved) 100 r.keyId)
    rw [if_pos hfix] at hafter
    rw [hafter]
    refine ⟨hresolved.trans hchained, fun edge => (hedges edge).trans ?_⟩
    rw [mem_chainToPrevious, getByCase_congr hchained, or_assoc, NewEdge, and_iff_right hfix]
  · rw [if_neg hfix] at hafter
    rw [hafter]
    refine ⟨hchained, fun edge => ?_⟩
    rw [mem_chainToPrevious, NewEdge, or_iff_left fun h : eventType = .fixAttempted ∧ _ => hfix h.1]

/-- A remembered fragment leaves no event, or one event and its edges. -/
theorem recordStep_cases (store : Store) (r : CaseRecord) :
    (recordStep store r = store ∧ (r.fragment.caseId = none ∨ eventOfFragment r.fragment.type = none)) ∨
    ∃ caseId eventType, r.fragment.caseId = some caseId ∧
      eventOfFragment r.fragment.type = some eventType ∧
      (recordStep store r).caseEvents = store.caseEvents ++ [eventOf store r caseId eventType] ∧
      ∀ edge, edge ∈ (recordStep store r).caseEventEdges ↔ edge ∈ store.caseEventEdges ∨
        NewEdge (recordStep store r) r caseId eventType edge := by
  cases hcase : r.fragment.caseId with
  | none =>
    refine Or.inl ⟨?_, Or.inl rfl⟩
    simp only [recordStep, recordEvent, hcase]
  | some caseId =>
    cases htype : eventOfFragment r.fragment.type with
    | none =>
      refine Or.inl ⟨?_, Or.inr rfl⟩
      simp only [recordStep, recordEvent, hcase, recordCaseEvent, htype]
    | some eventType =>
      right
      obtain ⟨hevents, hedges⟩ := witness_spec store { eventOf store r caseId eventType with sequenceNo := 0 }
      obtain ⟨hkept, hnew⟩ :=
        @edges_spec (witness store { eventOf store r caseId eventType with sequenceNo := 0 }) r caseId
        eventType (recordStep store r) (by simp only [recordStep, recordEvent, hcase, recordCaseEvent, htype]; rfl)
      refine ⟨caseId, eventType, rfl, rfl, hkept.trans hevents, fun edge => ?_⟩
      rw [hnew, hedges, newEdge_congr hkept]

theorem lt_nextSequenceNo {store : Store} {e : CaseEvent} (h : e ∈ store.caseEvents) :
    e.sequenceNo < nextSequenceNo store e.caseId := by
  have hmax : ∀ (numbers : List ℕ) (n : ℕ), n ∈ numbers → n ≤ numbers.foldr max 0 := by
    intro numbers n hn
    induction numbers with
    | nil => cases hn
    | cons m later ih =>
      rw [List.foldr_cons]
      rcases List.mem_cons.mp hn with rfl | hlater
      · exact le_max_left _ _
      · exact le_trans (ih hlater) (le_max_right _ _)
  have hown : e ∈ store.caseEvents.filter fun other => other.caseId = e.caseId :=
    List.mem_filter.mpr ⟨h, decide_eq_true rfl⟩
  exact hmax _ _ (List.mem_map.mpr ⟨e, hown, rfl⟩)

theorem recorded_empty : Recorded {} where
  numbered := List.Pairwise.nil
  resolving edge hedge := by cases hedge

theorem Recorded.step {store : Store} (h : Recorded store) (r : CaseRecord) : Recorded (recordStep store r) := by
  rcases recordStep_cases store r with ⟨hsame, -⟩ | ⟨caseId, eventType, -, -, hevents, hedges⟩
  · rw [hsame]
    exact h
  · constructor
    · rw [hevents]
      refine List.pairwise_append.mpr ⟨h.numbered, List.pairwise_singleton _ _, fun e he new hnew hcase => ?_⟩
      rw [List.mem_singleton.mp hnew] at hcase ⊢
      have hnext := lt_nextSequenceNo he
      rw [hcase] at hnext
      exact hnext
    · intro edge hedge htype
      rw [hevents]
      rcases (hedges edge).mp hedge with hold | ⟨previous, -, rfl⟩ | ⟨hfix, e, -, rfl⟩
      · obtain ⟨e, he, hfrom⟩ := h.resolving edge hold htype
        exact ⟨e, List.mem_append_left _ he, hfrom⟩
      · cases htype
      · exact ⟨_, List.mem_append_right _ (List.mem_singleton.mpr rfl), rfl, hfix⟩

theorem recorded_run (records : List CaseRecord) : Recorded (run recordStep {} records) :=
  invariant_run (fun _ r h => h.step r) recorded_empty records

theorem eventOrder_iff (a b : CaseEvent) :
    eventOrder a b = true ↔ a.createdAt < b.createdAt ∨ a.createdAt = b.createdAt ∧ a.sequenceNo ≤ b.sequenceNo := by
  simp only [eventOrder, Bool.or_eq_true, Bool.and_eq_true, decide_eq_true_eq]

theorem eventOrder_total (a b : CaseEvent) : eventOrder a b = true ∨ eventOrder b a = true := by
  rw [eventOrder_iff, eventOrder_iff]
  rcases lt_trichotomy a.createdAt b.createdAt with hearlier | hsame | hlater
  · exact Or.inl (Or.inl hearlier)
  · exact (le_total a.sequenceNo b.sequenceNo).imp (fun h => Or.inr ⟨hsame, h⟩) fun h => Or.inr ⟨hsame.symm, h⟩
  · exact Or.inr (Or.inl hlater)

theorem eventOrder_trans (a b c : CaseEvent) (hab : eventOrder a b = true) (hbc : eventOrder b c = true) :
    eventOrder a c = true := by
  rw [eventOrder_iff] at hab hbc ⊢
  rcases hab with hab | ⟨hab, hnumber⟩
  · rcases hbc with hbc | ⟨hbc, -⟩
    · exact Or.inl (lt_trans hab hbc)
    · exact Or.inl (hbc ▸ hab)
  · rcases hbc with hbc | ⟨hbc, hnumber'⟩
    · exact Or.inl (hab ▸ hbc)
    · exact Or.inr ⟨hab.trans hbc, le_trans hnumber hnumber'⟩

/-- Events that come before each other have one number. -/
theorem eventOrder_antisymm {a b : CaseEvent} (hab : eventOrder a b = true) (hba : eventOrder b a = true) :
    a.sequenceNo = b.sequenceNo := by
  rw [eventOrder_iff] at hab hba
  rcases hab with hab | ⟨hsame, hab⟩
  · rcases hba with hba | ⟨hba, -⟩
    · exact absurd hab (lt_asymm hba)
    · exact absurd hba (ne_of_gt hab)
  · rcases hba with hba | ⟨-, hba⟩
    · exact absurd hsame (ne_of_gt hba)
    · exact le_antisymm hab hba

/-- The events of a case that a caller is shown, in the order of the numbers and without repetitions. -/
theorem Recorded.seen {store : Store} (h : Recorded store) (keyId : Option KeyId) (caseId : String) :
    (store.caseEvents.filter (Seen keyId caseId)).Nodup ∧
      ∀ a ∈ store.caseEvents.filter (Seen keyId caseId), ∀ b ∈ store.caseEvents.filter (Seen keyId caseId), a ≠ b →
        eventOrder a b = true → eventOrder b a = false := by
  have hseen : ∀ e ∈ store.caseEvents.filter (Seen keyId caseId), e.caseId = caseId := by
    intro e he
    have hcond := (List.mem_filter.mp he).2
    rw [Seen, Bool.and_eq_true] at hcond
    exact of_decide_eq_true hcond.1
  have hnumbered : (store.caseEvents.filter (Seen keyId caseId)).Pairwise fun a b => a.sequenceNo < b.sequenceNo := by
    refine List.Pairwise.imp_of_mem ?_ (h.numbered.sublist List.filter_sublist)
    exact fun ha hb hless => hless ((hseen _ ha).trans (hseen _ hb).symm)
  have hapart : (store.caseEvents.filter (Seen keyId caseId)).Pairwise fun a b => a.sequenceNo ≠ b.sequenceNo :=
    hnumbered.imp fun hless => Nat.ne_of_lt hless
  refine ⟨hnumbered.imp fun hless heq => Nat.ne_of_lt hless (congrArg CaseEvent.sequenceNo heq), fun a ha b hb hne hab => ?_⟩
  have hsymm : Std.Symm fun a b : CaseEvent => a.sequenceNo ≠ b.sequenceNo := ⟨fun _ _ hxy => hxy.symm⟩
  have hnumbers := hapart.forall ha hb hne
  rw [Bool.eq_false_iff]
  exact fun hba => hnumbers (eventOrder_antisymm hab hba)

theorem mem_getByCase {store : Store} (h : Recorded store) {keyId : Option KeyId} {caseId : String} {limit : ℕ}
    (hlimit : limit ≤ 500) {e : CaseEvent} :
    e ∈ getByCase store caseId none limit keyId ↔ e ∈ store.caseEvents ∧ Seen keyId caseId e = true ∧
      rank eventOrder (store.caseEvents.filter (Seen keyId caseId)) e < limit := by
  have hfound : (store.caseEvents.filter fun e => e.caseId = caseId && ((none : Option EventType).isNone ||
      (none : Option EventType) = some e.eventType) && (keyId.isNone || e.keyId = keyId)) =
      store.caseEvents.filter (Seen keyId caseId) := by
    refine List.filter_congr fun e _ => ?_
    rw [Option.isNone_none, Bool.true_or, Bool.and_true, Seen]
  obtain ⟨hnodup, hanti⟩ := h.seen keyId caseId
  have hquery := mem_take_insertionSort eventOrder_total eventOrder_trans hnodup hanti limit e
  rw [List.mem_filter, and_assoc] at hquery
  rw [getByCase, Nat.min_eq_left hlimit, hfound]
  exact hquery

theorem truthy_case {caseId : String} (hcase : caseId ≠ "") : truthy (some caseId) = some caseId := by
  rw [truthy, Option.filter_some, if_pos (decide_eq_true hcase)]

theorem exists_history (text : TextMatch) (store : Store) (caller : Caller) (params : HistoryParams) {caseId : String}
    (hcase : caseId ≠ "") :
    ∃ history, reconstruct text store caller { params with caseId := some caseId } = some history := by
  simp only [reconstruct, truthy_case hcase, Option.isNone_some, Bool.false_and, Bool.false_eq_true, if_false]
  split
  · exact ⟨_, rfl⟩
  · exact ⟨_, rfl⟩

/-- The unresolved errors of a history. -/
theorem event_mem_unresolved {text : TextMatch} {store : Store} {caller : Caller} {params : HistoryParams}
    {caseId : String}
    (hcase : caseId ≠ "") {history : History}
    (h : reconstruct text store caller { params with caseId := some caseId } = some history) {e : CaseEvent} :
    Branch.event e ∈ history.unresolvedBranches ↔
      e ∈ getByCase store caseId none 100 caller.keyId ∧ e.eventType = .errorObserved ∧
        ∀ edge ∈ getEdgesByEvents store ((getByCase store caseId none 100 caller.keyId).map CaseEvent.eventId) caller.keyId,
          edge.edgeType = .resolvedBy → edge.fromEventId ≠ e.eventId := by
  have htruthy := truthy_case hcase
  have hevents : historyEvents store caller { params with caseId := some caseId } =
      getByCase store caseId none 100 caller.keyId := by
    simp only [historyEvents, htruthy, Option.elim_some]
  simp only [reconstruct, htruthy, Option.isNone_some, Bool.false_and, Bool.false_eq_true, if_false, hevents] at h
  split at h
  · rename_i hempty
    rw [Bool.and_eq_true, List.isEmpty_iff, List.isEmpty_iff] at hempty
    rw [← Option.some.inj h, hempty.2]
    simp
  · have hbranches := congrArg History.unresolvedBranches (Option.some.inj h)
    rw [← hbranches]
    by_cases hnone : (getByCase store caseId none 100 caller.keyId).isEmpty = true
    · rw [List.isEmpty_iff] at hnone
      simp [detectUnresolvedBranches, hnone]
    · simp only [historyDag, hnone, detectUnresolvedBranches, Bool.false_eq_true, if_false, List.mem_append,
        List.mem_map,
        reduceCtorEq, and_false, exists_false, false_or, Branch.event.injEq, exists_eq_right, List.mem_filter,
        Bool.and_eq_true, decide_eq_true_eq, Bool.not_eq_true', List.contains_eq_mem, decide_eq_false_iff_not, not_exists,
        not_and, and_imp]

/-- Every error among the first hundred events is listed: no edge that resolves leads from an error. -/
theorem listed_iff {text : TextMatch} {store : Store} {caller : Caller} {params : HistoryParams} {caseId : String}
    (hrecorded : Recorded store) (hids : (store.caseEvents.map CaseEvent.eventId).Nodup) (hcase : caseId ≠ "")
    {history : History} (h : reconstruct text store caller { params with caseId := some caseId } = some history)
    {e : CaseEvent} (he : e ∈ store.caseEvents) (hseen : Seen caller.keyId caseId e = true)
    (herror : e.eventType = .errorObserved) :
    Branch.event e ∈ history.unresolvedBranches ↔ AmongFirst store caller caseId e := by
  have hopen : ∀ edge ∈ store.caseEventEdges, edge.edgeType = .resolvedBy → edge.fromEventId ≠ e.eventId := by
    intro edge hedge htype hfrom
    obtain ⟨fix, hfix, hid, hfixType⟩ := hrecorded.resolving edge hedge htype
    have hsame := List.inj_on_of_nodup_map hids hfix he (hid.trans hfrom)
    rw [hsame, herror] at hfixType
    cases hfixType
  rw [event_mem_unresolved hcase h,
    mem_getByCase hrecorded (by omega), and_iff_right he, and_iff_right hseen, AmongFirst,
    and_iff_right herror]
  exact and_iff_left fun edge hedge => hopen edge (List.mem_filter.mp hedge).1

/-- The history of a case reads what was written exactly when no error among the first hundred events that the
caller is shown is followed by a fix, and every other error is. -/
theorem historyReadsFixes_iff (text : TextMatch) (records : List CaseRecord) (caller : Caller) (params : HistoryParams)
    (caseId : String) (hcase : caseId ≠ "") (hids : ((run recordStep {} records).caseEvents.map CaseEvent.eventId).Nodup) :
    HistoryReadsFixes text (run recordStep {} records) caller params caseId ↔
      ∀ e ∈ (run recordStep {} records).caseEvents, Seen caller.keyId caseId e = true → e.eventType = .errorObserved →
        (AmongFirst (run recordStep {} records) caller caseId e ↔ ¬ FixedLater (run recordStep {} records) caseId e) := by
  have hlisted := fun history h e he hseen herror =>
    @listed_iff text _ caller params caseId (recorded_run records) hids hcase history h e he hseen herror
  constructor
  · intro hreads e he hseen herror
    obtain ⟨history, h⟩ := exists_history text (run recordStep {} records) caller params hcase
    rw [← hlisted history h e he hseen herror]
    exact hreads history h e he hseen herror
  · intro hcondition history h e he hseen herror
    rw [hlisted history h e he hseen herror]
    exact hcondition e he hseen herror

section Sample
open ContentUniqueness

/-- A fragment of the sample case and the event that it leaves. -/
def caseRecord (now : Time) (eventId : String) (type : FragmentType) (caseId : String) : CaseRecord where
  draws := { now := now, newId := "frag-01", newEventId := eventId }
  fragment := { sampleFragment with type := type, caseId := some caseId }
  keyId := some sampleKey

def sampleText : TextMatch where
  contains text pattern := pattern.toList <:+: text.toList
  toLowerCase := id

/-- A decision and an error of one case, and a fix of another one. -/
def openCase : List CaseRecord :=
  [caseRecord 1 "event-01" .decision "case-01", caseRecord 2 "event-02" .error "case-01",
    caseRecord 3 "event-03" .procedure "case-02"]

theorem openCase_read : HistoryReadsFixes sampleText (run recordStep {} openCase) { keyId := some sampleKey } {} "case-01" :=
  (historyReadsFixes_iff sampleText openCase { keyId := some sampleKey } {} "case-01" (by decide) (by decide +kernel)).mpr
    (by decide +kernel)

/-- An error and its fix. -/
def fixedCase : List CaseRecord :=
  [caseRecord 1 "event-01" .error "case-01", caseRecord 2 "event-02" .procedure "case-01"]

/-- The fix is written and the error is listed all the same. -/
theorem fixedCase_unread :
    ¬ HistoryReadsFixes sampleText (run recordStep {} fixedCase) { keyId := some sampleKey } {} "case-01" := by
  have hevents : ∃ e ∈ (run recordStep {} fixedCase).caseEvents, Seen (some sampleKey) "case-01" e = true ∧
      e.eventType = .errorObserved ∧ AmongFirst (run recordStep {} fixedCase) { keyId := some sampleKey } "case-01" e ∧
      FixedLater (run recordStep {} fixedCase) "case-01" e := by
    decide +kernel
  obtain ⟨e, he, hseen, herror, hfirst, hfixed⟩ := hevents
  obtain ⟨history, h⟩ := exists_history sampleText (run recordStep {} fixedCase) { keyId := some sampleKey } {}
    (by decide : "case-01" ≠ "")
  intro hreads
  have hlisted := (listed_iff (recorded_run fixedCase) (by decide +kernel) (by decide) h he hseen herror).mpr hfirst
  exact (hreads history h e he hseen herror).mp hlisted hfixed

end Sample

end FragmentMemory.CaseHistory
