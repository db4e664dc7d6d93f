import FragmentMemory.CaseHistory

/-! # Milestones of episodes

`EpisodeContinuityService.linkEpisodeMilestone`: the milestone event of an episode and the edge that joins it to
the milestone before it of the same agent and key.
-/
namespace FragmentMemory.EpisodeContinuityService
open ApiKeyStore FragmentTables CaseEventStore CaseHistory

/-- The case tables with the idempotency keys of the milestones, and `lastEventByAgent`, the oldest entry
first. -/
structure Continuity where
  store : Store := {}
  milestones : List String := []
  lastEventByAgent : List (String × String) := []

def maxTrackedAgents : ℕ := 1000

/-- `rememberLastEvent`. -/
def rememberLastEvent (tracked : List (String × String)) (agentKey eventId : String) : List (String × String) :=
  let renewed := tracked.filter (fun entry => entry.1 ≠ agentKey) ++ [(agentKey, eventId)]
  if maxTrackedAgents < renewed.length then renewed.drop 1 else renewed

def agentKeyOf (agentId : String) (keyId : Option KeyId) : String :=
  agentId ++ ":" ++ keyId.elim "master" Subtype.val

def idempotencyKeyOf (agentId : String) (sessionId : Option String) (episodeFragmentId : FragmentId) : String :=
  "milestone:" ++ agentId ++ ":" ++ sessionId.getD "unknown" ++ ":" ++ episodeFragmentId

/-- Whether the primary key refuses an event id. -/
def taken (store : Store) (eventId : String) : Bool := (store.caseEvents.map CaseEvent.eventId).contains eventId

structure MilestoneParams where
  episodeFragmentId : FragmentId
  agentId : String
  keyId : Option KeyId
  sessionId : Option String
  now : Time
  newEventId : String

/-- The row of a milestone; its number is the column's default. -/
def milestoneEvent (store : Store) (params : MilestoneParams) : CaseEvent where
  eventId := params.newEventId
  caseId := params.sessionId.getD "unknown"
  sessionId := params.sessionId
  sequenceNo := 0
  eventType := .milestoneReached
  summary := (store.fragments.byId params.episodeFragmentId).elim "" fun f => String.ofList (f.content.toList.take 200)
  entityKeys := []
  sourceFragmentId := params.episodeFragmentId
  keyId := params.keyId
  createdAt := params.now

/-- Whether the insert of the milestone adds a row. -/
def inserts (state : Continuity) (params : MilestoneParams) : Bool :=
  params.episodeFragmentId ≠ "" &&
    !state.milestones.contains (idempotencyKeyOf params.agentId params.sessionId params.episodeFragmentId) &&
    !taken state.store params.newEventId

/-- `lastEventByAgent.get`. -/
def lastEvent (state : Continuity) (params : MilestoneParams) : Option String :=
  (state.lastEventByAgent.find? fun entry => entry.1 = agentKeyOf params.agentId params.keyId).map Prod.snd

/-- `linkEpisodeMilestone`. -/
def linkEpisodeMilestone (state : Continuity) (params : MilestoneParams) : Continuity :=
  if inserts state params then
    let inserted := { state.store with caseEvents := state.store.caseEvents ++ [milestoneEvent state.store params] }
    { store := match lastEvent state params with
        | some previous =>
          if previous ≠ params.newEventId then addEdge inserted ⟨previous, params.newEventId, .precededBy⟩ else inserted
        | none => inserted
      milestones := state.milestones ++ [idempotencyKeyOf params.agentId params.sessionId params.episodeFragmentId]
      lastEventByAgent := rememberLastEvent state.lastEventByAgent (agentKeyOf params.agentId params.keyId)
        params.newEventId }
  else state

/-- The row and the edge of a milestone. -/
theorem linkEpisodeMilestone_spec {state : Continuity} {params : MilestoneParams} (h : inserts state params = true) :
    (linkEpisodeMilestone state params).store.caseEvents =
      state.store.caseEvents ++ [milestoneEvent state.store params] ∧
    (∀ edge, edge ∈ (linkEpisodeMilestone state params).store.caseEventEdges ↔ edge ∈ state.store.caseEventEdges ∨
      ∃ previous, lastEvent state params = some previous ∧ previous ≠ params.newEventId ∧
        edge = ⟨previous, params.newEventId, .precededBy⟩) ∧
    ∀ entry ∈ (linkEpisodeMilestone state params).lastEventByAgent,
      entry ∈ state.lastEventByAgent ∨ entry.2 = params.newEventId := by
  rw [linkEpisodeMilestone, if_pos h]
  refine ⟨?_, fun edge => ?_, fun entry hentry => ?_⟩
  · cases lastEvent state params with
    | none => rfl
    | some previous =>
      simp only
      split
      · exact caseEvents_addEdge _ _
      · rfl
  · cases hlast : lastEvent state params with
    | none => simp
    | some previous =>
      simp only [Option.some.injEq, exists_eq_left']
      split
      · rename_i hother
        rw [mem_addEdge, and_iff_right hother]
      · rename_i hsame
        exact (or_iff_left fun hnew => hsame hnew.1).symm
  · have hrenewed : entry ∈ state.lastEventByAgent.filter (fun entry => entry.1 ≠ agentKeyOf params.agentId params.keyId) ++
        [(agentKeyOf params.agentId params.keyId, params.newEventId)] := by
      simp only [rememberLastEvent] at hentry
      split at hentry
      · exact List.mem_of_mem_drop hentry
      · exact hentry
    rcases List.mem_append.mp hrenewed with hold | hnew
    · exact Or.inl (List.mem_filter.mp hold).1
    · exact Or.inr (congrArg Prod.snd (List.mem_singleton.mp hnew))

end FragmentMemory.EpisodeContinuityService
