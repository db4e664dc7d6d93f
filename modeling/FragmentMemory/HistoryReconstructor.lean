import FragmentMemory.MemoryRecaller

/-! # Reconstruction of a history

`HistoryReconstructor.reconstruct`: the timeline of a case or an entity, the events of the case with
their edges and evidence, and the causal chains over the links at the timeline.
-/
namespace FragmentMemory.HistoryReconstructor
open ApiKeyStore FragmentTables FragmentReader CaseEventStore RecallQueries JsString
open MemoryRememberer (Caller Caller.groups)

structure HistoryParams where
  caseId : Option String := none
  entity : Option String := none
  since : Option Time := none
  until_ : Option Time := none
  query : Option String := none
  limit : ℕ := 100
  workspace : Option String := none

/-- Text matching of the database: a case-insensitive substring, and lower case. -/
structure TextMatch where
  contains : String → String → Bool
  toLowerCase : String → String

variable (text : TextMatch)

/-- The rows of the case, or those whose topic or keywords name the entity. -/
def timelineScope (params : HistoryParams) (f : Fragment) : Bool :=
  match truthy params.caseId, truthy params.entity with
  | some caseId, _ => f.caseId = some caseId
  | none, some entity => text.contains f.topic entity || f.keywords.contains (text.toLowerCase entity)
  | none, none => false

/-- `_fetchTimelineParameterized`; the upper bound is inclusive here. -/
def fetchTimeline (store : Store) (caller : Caller) (params : HistoryParams) : List Fragment :=
  let found := store.fragments.rows.filter fun f =>
    timelineScope text params f && params.since.all (· ≤ f.createdAt) && params.until_.all (f.createdAt ≤ ·) &&
      (truthy params.query).all (text.contains f.content ·) &&
      keyScope caller.keyId (caller.groups.getD []) f && workspaceCond (truthy params.workspace) f && f.live
  (found.insertionSort fun f g => f.createdAt ≤ g.createdAt).take (min params.limit 500)

/-- `getEdgesByEvents`: with a key, both events of an edge are the key's. -/
def getEdgesByEvents (store : Store) (eventIds : List String) (keyId : Option KeyId) : List CaseEventEdge :=
  let owned := fun id : String => store.caseEvents.any fun e => e.eventId = id && e.keyId = keyId
  store.caseEventEdges.filter fun edge =>
    (eventIds.contains edge.fromEventId || eventIds.contains edge.toEventId) &&
      (keyId.isNone || (owned edge.fromEventId && owned edge.toEventId))

/-- `getEvidenceByEvent`: the rows that witness an event, with a key only the key's. -/
def getEvidenceByEvent (store : Store) (eventId : String) (keyId : Option KeyId) : List (Fragment × EvidenceKind) :=
  store.evidence.filterMap fun evidence =>
    if evidence.eventId = eventId then
      ((store.fragments.byId evidence.fragmentId).filter fun f => keyId.isNone || f.keyId = keyId).map
        fun f => (f, evidence.kind)
    else none

/-- `_fetchLinks`.  This query has no key clause. -/
def fetchLinks (store : Store) (ids : List FragmentId) : List Link :=
  store.links.rows.filter fun l => (ids.contains l.fromId || ids.contains l.toId) && l.deletedAt.isNone

/-- An edge of a causal chain, between fragments or between events. -/
structure CausalEdge where
  fromId : String
  toId : String
  deriving DecidableEq

def causalLink (l : Link) : Bool := l.relationType = .causedBy || l.relationType = .resolvedBy

def causalEdges (links : List Link) (eventDag : List CaseEventEdge) : List CausalEdge :=
  (links.filter causalLink).map (fun l => ⟨l.fromId, l.toId⟩) ++
    (eventDag.filter fun edge => edge.edgeType = .causedBy || edge.edgeType = .resolvedBy).map
      fun edge => ⟨edge.fromEventId, edge.toEventId⟩

/-- The breadth-first walk from the queued ids; each id is visited once, and the walk ends when the
queue is empty, after at most one round for each entry that is ever queued. -/
def walk (edges : List CausalEdge) : ℕ → List String → List String → List String
  | 0, visited, _ => visited
  | _, visited, [] => visited
  | rounds + 1, visited, current :: queue =>
    if visited.contains current then walk edges rounds visited queue
    else
      let seen := visited ++ [current]
      let next := (edges.filter fun edge => edge.fromId = current && !seen.contains edge.toId).map CausalEdge.toId
      walk edges rounds seen (queue ++ next)

/-- What a walk can still do: a round for each queued id and each edge of an unvisited id. -/
def pendingRounds (edges : List CausalEdge) (visited queue : List String) : ℕ :=
  queue.length + (edges.filter fun edge => !visited.contains edge.fromId).length

/-- The edges of a visited id pay for the ids that the visit queues. -/
theorem queued_le_edges {visited : List String} {current : String} (hnew : visited.contains current = false)
    (edges : List CausalEdge) :
    (edges.filter fun edge => edge.fromId = current && !(visited ++ [current]).contains edge.toId).length +
      (edges.filter fun edge => !(visited ++ [current]).contains edge.fromId).length ≤
    (edges.filter fun edge => !visited.contains edge.fromId).length := by
  have hseen : (visited ++ [current]).contains current = true := by simp
  induction edges with
  | nil => rfl
  | cons edge later ih =>
    by_cases hfrom : edge.fromId = current
    · simp only [List.filter_cons, hfrom, hnew, hseen, decide_true, Bool.true_and, Bool.not_true, Bool.not_false,
        Bool.false_eq_true, if_false, if_true, List.length_cons]
      split
      · simp only [List.length_cons]
        omega
      · omega
    · have hsame : (visited ++ [current]).contains edge.fromId = visited.contains edge.fromId := by
        simp [hfrom]
      simp only [List.filter_cons, hfrom, decide_false, Bool.false_and, Bool.false_eq_true, if_false, hsame]
      split
      · simp only [List.length_cons]
        omega
      · exact ih

/-- A walk with enough rounds has come to its end. -/
theorem walk_stable {edges : List CausalEdge} {rounds : ℕ} {visited queue : List String}
    (h : pendingRounds edges visited queue ≤ rounds) :
    walk edges (rounds + 1) visited queue = walk edges rounds visited queue := by
  induction rounds generalizing visited queue with
  | zero =>
    have hqueue : queue = [] := by
      simp only [pendingRounds] at h
      exact List.length_eq_zero_iff.mp (by omega)
    rw [hqueue]
    rfl
  | succ rounds ih =>
    cases queue with
    | nil => rfl
    | cons current later =>
      simp only [pendingRounds, List.length_cons] at h
      rw [walk, walk]
      split
      · refine ih ?_
        simp only [pendingRounds]
        omega
      · rename_i hnew
        have hqueued := queued_le_edges (by simpa using hnew) edges
        refine ih ?_
        simp only [pendingRounds, List.length_append, List.length_map]
        omega

/-- The walk of a chain has enough rounds. -/
theorem pendingRounds_root (edges : List CausalEdge) (rootId : String) :
    pendingRounds edges [] [rootId] ≤ edges.length + 1 := by
  have hedges := List.length_filter_le (fun edge : CausalEdge => !([] : List String).contains edge.fromId) edges
  simp only [pendingRounds, List.length_singleton]
  omega

structure CausalChain where
  rootId : String
  chain : List Fragment
  isResolved : Bool
  deriving DecidableEq

/-- `_buildCausalChains`: one chain for each source of an edge that is no target, of the timeline rows
on its walk. -/
def buildCausalChains (timeline : List Fragment) (edges : List CausalEdge) : List CausalChain :=
  let targets := edges.map CausalEdge.toId
  let roots := (edges.map CausalEdge.fromId).eraseDups.filter fun id => !targets.contains id
  let chains := roots.map fun rootId =>
    let chain := (walk edges (edges.length + 1) [] [rootId]).filterMap fun id => timeline.find? fun f => f.id = id
    { rootId := rootId
      chain := chain
      isResolved := chain.any fun f => f.resolutionStatus = some .resolved }
  chains.filter fun chain => !chain.chain.isEmpty

inductive Branch
  | fragment (f : Fragment)
  | event (e : CaseEvent)
  deriving DecidableEq

def Branch.label : Branch → String
  | .fragment f => f.content
  | .event e => e.summary

/-- `_detectUnresolvedBranches`. -/
def detectUnresolvedBranches (timeline : List Fragment) (chains : List CausalChain) (events : List CaseEvent)
    (eventDag : List CaseEventEdge) : List Branch :=
  let resolved := (chains.filter CausalChain.isResolved).flatMap fun chain => chain.chain.map Fragment.id
  let fixed := (eventDag.filter fun edge => edge.edgeType = .resolvedBy).map CaseEventEdge.fromEventId
  (timeline.filter fun f => f.resolutionStatus = some .open_ && !resolved.contains f.id).map .fragment ++
    (events.filter fun e => e.eventType = .errorObserved && !fixed.contains e.eventId).map .event

/-- The figures of `_buildSummary` and the labels of the first three open branches. -/
structure Summary where
  total : ℕ
  first : Option Time
  last : Option Time
  chains : ℕ
  resolved : ℕ
  unresolved : ℕ
  labels : List String
  deriving DecidableEq

def buildSummary (timeline : List Fragment) (chains : List CausalChain) (branches : List Branch) : Summary where
  total := timeline.length
  first := timeline.head?.map Fragment.createdAt
  last := timeline.getLast?.map Fragment.createdAt
  chains := chains.length
  resolved := chains.countP CausalChain.isResolved
  unresolved := branches.length
  labels := (branches.take 3).map fun branch => clip branch.label 60

structure History where
  orderedTimeline : List Fragment
  causalChains : List CausalChain
  unresolvedBranches : List Branch
  supportingFragments : List Fragment
  caseEvents : List (CaseEvent × List (Fragment × EvidenceKind))
  eventDag : List CaseEventEdge
  summary : Option Summary
  deriving DecidableEq

/-- The events of the case, and with them their edges and the rows that witness them. -/
def historyEvents (store : Store) (caller : Caller) (params : HistoryParams) : List CaseEvent :=
  (truthy params.caseId).elim [] fun caseId => getByCase store caseId none 100 caller.keyId

def historyDag (store : Store) (caller : Caller) (events : List CaseEvent) : List CaseEventEdge :=
  if events.isEmpty then [] else getEdgesByEvents store (events.map CaseEvent.eventId) caller.keyId

def witnessedEvents (store : Store) (caller : Caller) (events : List CaseEvent) :
    List (CaseEvent × List (Fragment × EvidenceKind)) :=
  events.map fun e => (e, getEvidenceByEvent store e.eventId caller.keyId)

/-- The chains over the links at the timeline and the edges of the case. -/
def historyChains (store : Store) (timeline : List Fragment) (eventDag : List CaseEventEdge) : List CausalChain :=
  let links := if timeline.isEmpty then [] else fetchLinks store (timeline.map Fragment.id)
  buildCausalChains timeline (causalEdges links eventDag)

/-- `reconstruct`; none when neither a case nor an entity is named. -/
def reconstruct (store : Store) (caller : Caller) (params : HistoryParams) : Option History :=
  if (truthy params.caseId).isNone && (truthy params.entity).isNone then none
  else
    let timeline := fetchTimeline text store caller params
    let events := historyEvents store caller params
    let eventDag := historyDag store caller events
    if timeline.isEmpty && events.isEmpty then
      some ⟨[], [], [], [], [], [], none⟩
    else
      let chains := historyChains store timeline eventDag
      let branches := detectUnresolvedBranches timeline chains events eventDag
      let chained := chains.flatMap fun chain => chain.chain.map Fragment.id
      some {
        orderedTimeline := timeline
        causalChains := chains
        unresolvedBranches := branches
        supportingFragments := timeline.filter fun f => !chained.contains f.id
        caseEvents := witnessedEvents store caller events
        eventDag := eventDag
        summary := some (buildSummary timeline chains branches) }

end FragmentMemory.HistoryReconstructor
