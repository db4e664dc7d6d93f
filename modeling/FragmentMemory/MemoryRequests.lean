import FragmentMemory.MemoryRememberer

/-! # The writing requests of a caller

`amend` and `forget` of `MemoryRememberer`, `link` of `MemoryLinker`, `tool_feedback`, and the store
after each of the six writing requests.
-/
namespace FragmentMemory.MemoryRequests
open ApiKeyStore FragmentTables FragmentFactory FragmentWriter FragmentReader FragmentIndex LinkStore
  CaseEventStore BatchRememberProcessor MemoryRememberer

structure AmendParams where
  id : FragmentId
  updates : FragmentUpdates
  groupKeyIds : Option (List KeyId) := none
  dryRun : Bool := false

structure LinkParams where
  fromId : FragmentId
  toId : FragmentId
  relationType : Option RelationType := none
  weight : Option ℚ := none
  dryRun : Bool := false

inductive ForgetTarget
  | id (id : FragmentId)
  | topic (topic : String)

structure ForgetParams where
  target : ForgetTarget
  force : Bool := false
  dryRun : Bool := false

structure FeedbackParams where
  fragmentIds : List FragmentId := []
  relevant : Bool

variable (settings : Settings) (draws : Draws)

/-- The event that a changed assertion status is recorded as. -/
def verificationEvent : AssertionStatus → Option EventType
  | .verified => some .verificationPassed
  | .rejected => some .verificationFailed
  | _ => none

/-- The event of an amendment, its evidence and the reward it propagates. -/
def recordVerification (store : Store) (existing : Fragment) (status : Option AssertionStatus)
    (keyId : Option KeyId) : Store :=
  match status.bind verificationEvent, existing.caseId with
  | some eventType, some caseId =>
    if status = some existing.assertionStatus then store
    else
      let event : CaseEvent := {
        eventId := draws.newEventId
        caseId := caseId
        sessionId := existing.sessionId
        sequenceNo := 0
        eventType := eventType
        summary := JsString.clip existing.content 200
        entityKeys := existing.keywords
        sourceFragmentId := existing.id
        keyId := keyId
        createdAt := draws.now }
      let rewarded := backprop settings.caseBackprop (append store event) caseId eventType keyId
      addEvidence rewarded ⟨existing.id, draws.newEventId, .producedBy⟩
  | _, _ => store

/-- The recording of a verification changes importances and no other column, and nothing in the index. -/
theorem recordVerification_view {β : Type*} (view : Fragment → β)
    (hview : ∀ f importance, view { f with importance := importance } = view f) (store : Store) (existing : Fragment)
    (status : Option AssertionStatus) (keyId : Option KeyId) :
    (recordVerification settings draws store existing status keyId).index = store.index ∧
      (recordVerification settings draws store existing status keyId).fragments.rows.map view =
        store.fragments.rows.map view := by
  have hbackprop : ∀ (current : Store) (caseId : String) (eventType : EventType),
      (backprop settings.caseBackprop current caseId eventType keyId).index = current.index ∧
        (backprop settings.caseBackprop current caseId eventType keyId).fragments.rows.map view =
          current.fragments.rows.map view := by
    intro current caseId eventType
    simp only [backprop]
    split
    · exact ⟨rfl, map_updateFragments current view fun f => hview f _⟩
    · exact ⟨rfl, rfl⟩
  simp only [recordVerification]
  split
  · split
    · exact ⟨rfl, rfl⟩
    · have hevidence := fun current evidence => eventsOnly_addEvidence current evidence
      rw [(hevidence _ _).index, (hevidence _ _).fragments]
      exact hbackprop _ _ _
  · exact ⟨rfl, rfl⟩

/-- `amend`.  The row is read in the scope of the group, or of the group the parameters name, and
updated under the caller's key. -/
def amend (store : Store) (params : AmendParams) (caller : Caller) : Store :=
  let groups := (caller.groupKeyIds.or params.groupKeyIds).getD []
  match getById store params.id caller.agentId caller.keyId groups with
  | none => store
  | some existing =>
    if params.dryRun then store
    else
      let updates := { params.updates with
        keywords := params.updates.keywords.map (normalizeKeywords settings.tools) }
      let outcome := update settings.digests settings.tools.countTokens draws.now store params.id updates
        caller.keyId
      let reindex := fun (result : Fragment) =>
        let removed := deindex settings.redisReady settings.tools outcome.1 existing existing.keyId
        let indexed := index settings.redisReady settings.tools removed result none existing.keyId
        recordVerification settings draws indexed existing params.updates.assertionStatus caller.keyId
      match outcome.2 with
      | .unchanged result => reindex result
      | .updated result => reindex result
      | .missing => outcome.1
      | .merged _ => outcome.1
      | .failed => outcome.1

/-- `forget`, by id in the scope of the group and deleting under the caller's key, or by topic. -/
def forget (store : Store) (params : ForgetParams) (caller : Caller) : Store :=
  if params.dryRun then store
  else match params.target with
    | .id id =>
      match getById store id caller.agentId caller.keyId (caller.groups.getD []) with
      | none => store
      | some f =>
        if f.ttlTier = .permanent ∧ ¬ params.force then store
        else (delete (deindex settings.redisReady settings.tools store f f.keyId) f.id caller.keyId).1
    | .topic topic =>
      let deleted := deleteByTopic store topic caller.agentId caller.keyId params.force
      deleted.2.1.foldl
        (fun current f => deindex settings.redisReady settings.tools current f f.keyId) deleted.1

/-- `MemoryLinker.link`. -/
def link (store : Store) (params : LinkParams) (caller : Caller) : Store :=
  let groups := caller.groups.getD []
  match getById store params.fromId caller.agentId caller.keyId groups,
      getById store params.toId caller.agentId caller.keyId groups with
  | some _, some target =>
    if params.dryRun then store
    else
      let relationType := params.relationType.getD .related
      match createLink store params.fromId params.toId relationType (params.weight.getD 1) with
      | none => store
      | some linked =>
        if relationType = .resolvedBy ∧ target.type = .error ∧ 5 / 10 < target.importance then
          (update settings.digests settings.tools.countTokens draws.now linked params.toId
            { importance := some (5 / 10) } caller.keyId).1
        else linked
  | _, _ => store

def adjustActivation (delta : ℚ) : ColumnUpdate where
  set f := { f with emaActivation := some (min 1 (max 0 (f.emaActivation.getD (5 / 10) + delta))) }
  entries_set _ := rfl

/-- `tool_toolFeedback`: the activation of the listed rows under the caller's key, and, with
reconsolidation on, the weight of every link at one of them. -/
def toolFeedback (store : Store) (params : FeedbackParams) (caller : Caller) : Store :=
  let delta : ℚ := if params.relevant then 1 / 10 else -15 / 100
  let adjusted := store.updateFragments
    (fun f => params.fragmentIds.contains f.id && ownedBy caller.keyId f) (adjustActivation delta)
  if settings.reconsolidation then
    reconsolidateLinks adjusted (if params.relevant then .reinforce else .decay) draws.now
      draws.recentlyDecayed fun l => params.fragmentIds.any l.touches
  else adjusted

inductive Request
  | remember (params : RememberParams)
  | batchRemember (context : BatchContext) (items : List (Option BatchItem))
  | amend (params : AmendParams)
  | link (params : LinkParams)
  | forget (params : ForgetParams)
  | toolFeedback (params : FeedbackParams)

/-- The store after a request of a caller; a batch runs in the caller's name. -/
def requestStep (store : Store) (caller : Caller) : Request → Store
  | .remember params => (remember settings draws store params caller).1
  | .batchRemember context items =>
    let own := { context with
      keyId := caller.keyId
      agentId := caller.agentId
      redisReady := settings.redisReady }
    (process settings.digests settings.tools own store items).1
  | .amend params => amend settings draws store params caller
  | .link params => link settings draws store params caller
  | .forget params => forget settings store params caller
  | .toolFeedback params => toolFeedback settings draws store params caller

end FragmentMemory.MemoryRequests
