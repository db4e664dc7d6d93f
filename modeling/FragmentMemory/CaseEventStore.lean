import FragmentMemory.LinkStore

/-! # Case events

`CaseEventStore`: the events of a case, the edges between them and the fragments that witness them,
and the reward that a verification propagates to those fragments.
-/
namespace FragmentMemory.CaseEventStore
open ApiKeyStore FragmentTables FragmentWriter

/-- The events of a case, whatever their keys, number the next one. -/
def nextSequenceNo (store : Store) (caseId : String) : ℕ :=
  ((store.caseEvents.filter fun e => e.caseId = caseId).map fun e => e.sequenceNo + 1).foldr max 0

def append (store : Store) (event : CaseEvent) : Store :=
  let numbered := { event with sequenceNo := nextSequenceNo store event.caseId }
  { store with caseEvents := store.caseEvents ++ [numbered] }

def addEdge (store : Store) (edge : CaseEventEdge) : Store :=
  if edge ∈ store.caseEventEdges then store
  else { store with caseEventEdges := store.caseEventEdges ++ [edge] }

def addEvidence (store : Store) (evidence : Evidence) : Store :=
  if evidence ∈ store.evidence then store
  else { store with evidence := store.evidence ++ [evidence] }

/-- `ORDER BY created_at ASC, sequence_no ASC`. -/
def eventOrder (a b : CaseEvent) : Bool :=
  a.createdAt < b.createdAt || (a.createdAt = b.createdAt && a.sequenceNo ≤ b.sequenceNo)

def getByCase (store : Store) (caseId : String) (eventType : Option EventType) (limit : ℕ)
    (keyId : Option KeyId) : List CaseEvent :=
  let found := store.caseEvents.filter fun e =>
    e.caseId = caseId && (eventType.isNone || eventType = some e.eventType) &&
      (keyId.isNone || e.keyId = keyId)
  (found.insertionSort (eventOrder · ·)).take (min limit 500)

/-- `FRAG_TO_EVENT`. -/
def eventOfFragment : FragmentType → Option EventType
  | .error => some .errorObserved
  | .decision => some .decisionCommitted
  | .procedure => some .fixAttempted
  | _ => none

/-- An event with the fragment that produced it. -/
def witness (store : Store) (event : CaseEvent) : Store :=
  addEvidence (append store event) ⟨event.sourceFragmentId, event.eventId, .producedBy⟩

/-- `preceded_by`: the first of the two oldest events of the case that is not the event itself. -/
def chainToPrevious (store : Store) (eventId caseId : String) (keyId : Option KeyId) : Store :=
  match (getByCase store caseId none 2 keyId).find? fun e => e.eventId ≠ eventId with
  | some previous => addEdge store ⟨eventId, previous.eventId, .precededBy⟩
  | none => store

/-- `resolved_by`: from a fix to the errors of its case. -/
def resolveErrors (store : Store) (eventId caseId : String) (keyId : Option KeyId) : Store :=
  (getByCase store caseId (some .errorObserved) 100 keyId).foldl
    (fun current e => addEdge current ⟨eventId, e.eventId, .resolvedBy⟩) store

/-- `_recordCaseEvent`. -/
def recordCaseEvent (now : Time) (eventId : String) (store : Store) (f : Fragment) (caseId : String)
    (keyId : Option KeyId) : Store :=
  match eventOfFragment f.type with
  | none => store
  | some eventType =>
    let event : CaseEvent := {
      eventId := eventId
      caseId := caseId
      sessionId := f.sessionId
      sequenceNo := 0
      eventType := eventType
      summary := JsString.clip f.content 200
      entityKeys := f.keywords
      sourceFragmentId := f.id
      keyId := keyId
      createdAt := now }
    let chained := chainToPrevious (witness store event) eventId caseId keyId
    if eventType = .fixAttempted then resolveErrors chained eventId caseId keyId else chained

def adjustImportance (delta : ℚ) : ColumnUpdate where
  set f := { f with importance := min 1 (max 0 (f.importance + delta)) }
  entries_set _ := rfl

/-- `CaseRewardBackprop.backprop`. -/
def backprop (enabled : Bool) (store : Store) (caseId : String) (eventType : EventType)
    (keyId : Option KeyId) : Store :=
  let delta? : Option ℚ := match eventType with
    | .verificationPassed => some (15 / 100)
    | .verificationFailed => some (-10 / 100)
    | _ => none
  match enabled, delta? with
  | true, some delta =>
    let witnesses := store.evidence.filter fun evidence =>
      store.caseEvents.any fun e => e.eventId = evidence.eventId && e.caseId = caseId
    store.updateFragments (fun f => witnesses.any (fun evidence => evidence.fragmentId = f.id) && ownedBy keyId f)
      (adjustImportance delta)
  | _, _ => store

/-- Only the tables of the case events differ. -/
structure EventsOnly (before after : Store) : Prop where
  fragments : after.fragments = before.fragments
  links : after.links = before.links
  index : after.index = before.index

namespace EventsOnly

theorem refl (store : Store) : EventsOnly store store := ⟨rfl, rfl, rfl⟩

theorem trans {first second third : Store} (h : EventsOnly first second) (h' : EventsOnly second third) :
    EventsOnly first third :=
  ⟨h'.fragments.trans h.fragments, h'.links.trans h.links, h'.index.trans h.index⟩

theorem foldl {α : Type*} {items : List α} {op : Store → α → Store}
    (hop : ∀ current, ∀ item ∈ items, EventsOnly current (op current item)) (start : Store) :
    EventsOnly start (items.foldl op start) := by
  induction items generalizing start with
  | nil => exact refl start
  | cons item later ih =>
    have hfirst := hop start item List.mem_cons_self
    exact hfirst.trans (ih (fun current other hother => hop current other (List.mem_cons_of_mem _ hother)) _)

end EventsOnly

theorem eventsOnly_addEdge (store : Store) (edge : CaseEventEdge) : EventsOnly store (addEdge store edge) := by
  simp only [addEdge]
  split <;> exact ⟨rfl, rfl, rfl⟩

theorem eventsOnly_addEvidence (store : Store) (evidence : Evidence) :
    EventsOnly store (addEvidence store evidence) := by
  simp only [addEvidence]
  split <;> exact ⟨rfl, rfl, rfl⟩

theorem eventsOnly_append (store : Store) (event : CaseEvent) : EventsOnly store (append store event) := ⟨rfl, rfl, rfl⟩

/-- The event of a fragment changes neither rows nor links nor the index. -/
theorem eventsOnly_recordCaseEvent (now : Time) (eventId : String) (store : Store) (f : Fragment) (caseId : String)
    (keyId : Option KeyId) : EventsOnly store (recordCaseEvent now eventId store f caseId keyId) := by
  have hwitness : ∀ event, EventsOnly store (witness store event) := fun event =>
    (eventsOnly_append store event).trans (eventsOnly_addEvidence _ _)
  have hchain : ∀ current : Store, EventsOnly current (chainToPrevious current eventId caseId keyId) := by
    intro current
    simp only [chainToPrevious]
    split
    · exact eventsOnly_addEdge current _
    · exact EventsOnly.refl current
  have hresolve : ∀ current : Store, EventsOnly current (resolveErrors current eventId caseId keyId) := fun current =>
    EventsOnly.foldl (fun middle e _ => eventsOnly_addEdge middle _) current
  simp only [recordCaseEvent]
  split
  · exact EventsOnly.refl store
  · split
    · exact (hwitness _).trans ((hchain _).trans (hresolve _))
    · exact (hwitness _).trans (hchain _)

end FragmentMemory.CaseEventStore
