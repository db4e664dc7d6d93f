import FragmentMemory.FragmentSearch
import FragmentMemory.MemoryRememberer

/-! # Recall

`MemoryRecaller.recall` with `CaseRecall.buildCaseTriples` and the hints of
`RecallSuggestionEngine`, and the response that `tool_recall` assembles from them.
-/
namespace FragmentMemory.MemoryRecaller
open ApiKeyStore FragmentTables FragmentReader CaseEventStore RecallQueries FragmentSearch JsString
open MemoryRememberer (Caller Caller.groups)

inductive Depth | highLevel | toolLevel deriving DecidableEq

def Depth.types : Depth → List FragmentType
  | .highLevel => [.decision, .episode]
  | .toolLevel => [.procedure, .error, .fact]

structure RecallParams where
  keywords : List String := []
  topic : Option String := none
  type : Option FragmentType := none
  text : Option String := none
  contextText : Option String := none
  tokenBudget : Option ℕ := none
  limit : Option ℕ := none
  minImportance : Option ℚ := none
  includeSuperseded : Bool := false
  includeLinks : Bool := true
  linkRelationType : Option RelationType := none
  includeContext : Bool := false
  includeKeyName : Bool := false
  includePeerAgents : Bool := false
  timeRange : Option TimeRange := none
  anchorTime : Option Time := none
  threshold : Option ℚ := none
  depth : Option Depth := none
  excludeSeen : Bool := true
  sessionId : Option String := none
  workspace : Option String := none
  defaultWorkspace : Option String := none
  isAnchor : Option Bool := none
  caseId : Option String := none
  resolutionStatus : Option ResolutionStatus := none
  phase : Option String := none
  affect : Option (List Affect) := none
  pageSize : Option ℕ := none
  /-- The decoded cursor: an offset and the anchor time of the first page. -/
  cursor : Option (ℕ × Time) := none
  caseMode : Bool := false
  maxCases : Option ℕ := none

/-- What a recall meets outside the tables: the search's surroundings, the clock, the ids already
injected into the session, the matching queries of the key in the last five minutes and the names of
the keys. -/
structure RecallContext extends SearchContext where
  now : Time
  seenIds : List FragmentId := []
  repeatedQueries : ℕ := 0
  keyName : KeyId → Option String := fun _ => none

/-- A zero counts as missing. -/
def positive (value : Option ℕ) : Option ℕ := value.filter (· ≠ 0)

/-- The query that `recall` passes to the search. -/
def searchQuery (params : RecallParams) (caller : Caller) (now : Time) : SearchQuery where
  keywords := params.keywords
  topic := truthy params.topic
  type := params.type
  text := params.text
  tokenBudget := (positive params.tokenBudget).getD 1000
  minImportance := params.minImportance
  includeSuperseded := params.includeSuperseded
  timeRange := params.timeRange
  anchorTime := (params.cursor.map Prod.snd).getD (params.anchorTime.getD now)
  agentId := caller.agentId
  keyIds := caller.groups
  workspace := params.workspace.or params.defaultWorkspace
  isAnchor := params.isAnchor
  caseId := truthy params.caseId
  resolutionStatus := params.resolutionStatus
  phase := truthy params.phase
  affect := params.affect
  includePeerAgents := params.includePeerAgents

structure CaseEventView where
  eventType : EventType
  summary : String
  createdAt : Time
  deriving DecidableEq

structure CaseTriple where
  caseId : String
  goal : Option String
  outcome : Option String
  resolutionStatus : ResolutionStatus
  events : List CaseEventView
  fragmentCount : ℕ
  relevanceScore : ℕ
  deriving DecidableEq

/-- Cases of the rows in order of appearance, the most frequent first. -/
def topCases (found : List Fragment) (maxCases : ℕ) : List String :=
  let ids := found.filterMap fun f => truthy f.caseId
  ((ids.eraseDups.insertionSort fun a b => ids.count b ≤ ids.count a).take (min maxCases 10))

/-- The rows of the cases under the caller's own key, the most important of each case first. -/
def caseFragments (store : Store) (caseIds : List String) (keyId : Option KeyId) : List Fragment :=
  let found := store.fragments.rows.filter fun f =>
    f.caseId.any caseIds.contains && f.live && (keyId.isNone || f.keyId = keyId)
  found.insertionSort fun f g =>
    f.caseId.getD "" < g.caseId.getD "" || (f.caseId = g.caseId && g.importance ≤ f.importance)

/-- The events of the cases.  This query has no key clause. -/
def caseEventsOf (store : Store) (caseIds : List String) : List CaseEvent :=
  let found := store.caseEvents.filter fun e => caseIds.contains e.caseId
  found.insertionSort fun a b => a.caseId < b.caseId || (a.caseId = b.caseId && a.sequenceNo ≤ b.sequenceNo)

/-- A resolved case stands before the others, and a more relevant one before a less relevant. -/
def byResolution (a b : CaseTriple) : Bool :=
  let aResolved := a.resolutionStatus = .resolved
  let bResolved := b.resolutionStatus = .resolved
  (aResolved && !bResolved) || (aResolved = bResolved && b.relevanceScore ≤ a.relevanceScore)

/-- `buildCaseTriples`. -/
def buildCaseTriples (store : Store) (found : List Fragment) (keyId : Option KeyId) (maxCases : ℕ) :
    List CaseTriple :=
  let caseIds := topCases found maxCases
  let rows := caseFragments store caseIds keyId
  let events := caseEventsOf store caseIds
  let triples := caseIds.map fun caseId =>
    let own := rows.filter fun f => f.caseId = some caseId
    { caseId := caseId
      goal := own.findSome? fun f => truthy f.goal
      outcome := own.findSome? fun f => truthy f.outcome
      resolutionStatus := (own.findSome? Fragment.resolutionStatus).getD .open_
      events := ((events.filter fun e => e.caseId = caseId).map fun e =>
        { eventType := e.eventType, summary := clip e.summary 120, createdAt := e.createdAt }).take 20
      fragmentCount := own.length
      relevanceScore := found.countP fun f => f.caseId = some caseId }
  triples.insertionSort (byResolution · ·)

inductive Suggestion
  | repeatQuery (count : ℕ) (caseId : Option String) (startId : Option FragmentId)
  | emptyResult
  | largeLimit (limit : ℕ)
  | noTypeFilter (total : ℕ)
  deriving DecidableEq

/-- The case id that most rows carry, the first of those tied. -/
def mostFrequentCase (found : List Fragment) : Option String := (topCases found 1).head?

/-- Live rows under one key, or without one. -/
def fragmentCount (store : Store) (keyId : Option KeyId) : ℕ :=
  (store.fragments.rows.filter fun f => f.keyId = keyId && f.live).length

/-- `RecallSuggestionEngine.suggest`. -/
def suggest (context : RecallContext) (store : Store) (params : RecallParams) (keyId : Option KeyId)
    (found : List Fragment) : Option Suggestion :=
  let limit := params.limit.getD 0
  if params.keywords ≠ [] && params.keywords ≠ [""] && 3 ≤ context.repeatedQueries then
    let caseId := mostFrequentCase found
    some (.repeatQuery context.repeatedQueries caseId
      (if caseId.isSome then none else found.head?.map Fragment.id))
  else if found.isEmpty && (truthy params.contextText).isNone then some .emptyResult
  else if 50 ≤ limit && (positive params.tokenBudget).isNone then some (.largeLimit limit)
  else if params.type.isNone && 100 < fragmentCount store keyId then
    some (.noTypeFilter (fragmentCount store keyId))
  else none

structure RecallResult where
  found : List Hit
  totalTokens : ℕ
  searchPath : List String
  totalCount : ℕ
  hasMore : Bool
  cases : Option (List CaseTriple)
  suggestion : Option Suggestion

variable (model : SearchModel) (context : RecallContext)

/-- The one-hop expansion of a recall; a row found already is not repeated. -/
def appendLinked (store : Store) (q : SearchQuery) (params : RecallParams) (found : List Hit) : List Hit :=
  if params.includeLinks && !found.isEmpty then
    let linked := (getLinkedFragments store q (found.map Hit.id) params.linkRelationType).filter fun f =>
      q.agentCond f && workspaceCond q.workspace f && (params.includeSuperseded || f.live)
    found ++ (linked.filter fun f => !(found.map Hit.id).contains f.id).map fun f => { row := f, linked := true }
  else found

/-- The final ranking: keyword coverage of a lexical search first, then the recall score. -/
def rankFinal (q : SearchQuery) (keywords : List String) (found : List Hit) : List Hit :=
  let coverage := fun hit : Hit => textKeywordCoverage model hit.row keywords
  found.insertionSort fun a b => coverage b < coverage a ||
    (coverage a = coverage b && model.recallScore q b ≤ model.recallScore q a)

/-- The filters after the ranking: threshold, depth and the ids already seen. -/
def selectFinal (params : RecallParams) (found : List Hit) : List Hit :=
  found.filter fun hit =>
    params.threshold.all (fun threshold => hit.similarity.all (threshold ≤ ·)) &&
      (params.type.isSome || params.depth.all fun depth => depth.types.contains hit.row.type) &&
      !(params.excludeSeen && (truthy params.sessionId).isSome && context.seenIds.contains hit.id)

/-- The rows that a recall returns over all its pages. -/
def recallRows (store : Store) (caller : Caller) (params : RecallParams) : List Hit × List String :=
  let q := searchQuery params caller context.now
  let result := search model context.toSearchContext store q
  let expanded := appendLinked store q params result.found
  let ranked := rankFinal model q result.lexicalKeywords expanded
  (fillWithin model q.tokenBudget (selectFinal context params ranked) 0, result.searchPath)

/-- `recall`, without what it writes. -/
def «recall» (store : Store) (caller : Caller) (params : RecallParams) : RecallResult :=
  let (all, searchPath) := recallRows model context store caller params
  let offset := (params.cursor.map Prod.fst).getD 0
  let pageSize := min ((positive params.pageSize).getD 20) 50
  let page := (all.drop offset).take pageSize
  let rows := page.map Hit.row
  { found := page
    totalTokens := totalCost model page
    searchPath := searchPath
    totalCount := all.length
    hasMore := offset + pageSize < all.length
    cases := if params.caseMode then
        some (buildCaseTriples store rows caller.keyId ((positive params.maxCases).getD 5))
      else none
    suggestion := if params.caseMode then none else suggest context store params caller.keyId rows }

inductive Hint
  | noResults
  | contradictionPending
  | staleResults (count : ℕ)
  | considerContext
  deriving DecidableEq

/-- A fragment of a response; a found row carries its key and the key's name when they are asked for. -/
structure RecallEntry where
  fragment : Fragment
  similarity : Option ℚ
  ageDays : ℕ
  linked : List Preview
  nearby : List (FragmentId × String × FragmentType × Time)
  keyName : Option (Option KeyId × Option String)
  deriving DecidableEq

inductive RecallResponse
  | cases (cases : List CaseTriple) (searchPath : List String) (hint : Option Hint)
  | fragments (entries : List RecallEntry) (totalTokens : ℕ) (searchPath : List String) (hint : Option Hint)
      (suggestion : Option Suggestion)
  deriving DecidableEq

def dayMs : ℕ := 86400000

/-- `buildRecallHint`. -/
def buildRecallHint (entries : List RecallEntry) (contradictionPending includeContext : Bool) : Option Hint :=
  let stale := entries.countP fun entry => 30 < entry.ageDays
  if entries.isEmpty then some .noResults
  else if contradictionPending then some .contradictionPending
  else if 0 < stale then some (.staleResults stale)
  else if 5 ≤ entries.length && !includeContext then some .considerContext
  else none

/-- Up to three rows of the same session within half an hour. -/
def nearbyContext (store : Store) (caller : Caller) (f : Fragment) :
    List (FragmentId × String × FragmentType × Time) :=
  (truthy f.sessionId).elim [] fun sessionId =>
    let rows := (searchBySource store ("session:" ++ sessionId) caller.agentId caller.keyId).filter fun g =>
      g.id ≠ f.id && LinkStore.distance g.createdAt f.createdAt < 1800000
    (rows.take 3).map fun g => (g.id, g.content, g.type, g.createdAt)

/-- `enrichWithKeyNames`: the key of a row by its id, and the name of the key. -/
def keyNameOf (store : Store) (id : FragmentId) : Option (Option KeyId × Option String) :=
  (store.fragments.byId id).map fun f => (f.keyId, f.keyId.bind context.keyName)

/-- A found row as `tool_recall` returns it. -/
def recallEntry (store : Store) (caller : Caller) (params : RecallParams) (hit : Hit) : RecallEntry where
  fragment := hit.row
  similarity := hit.similarity
  ageDays := (context.now - hit.row.createdAt) / dayMs
  linked := fetchLinkedFragments store hit.id
  nearby := if params.includeContext then nearbyContext store caller hit.row else []
  keyName := if params.includeKeyName && !hit.linked then keyNameOf context store hit.id else none

/-- `tool_recall`. -/
def toolRecall (store : Store) (caller : Caller) (params : RecallParams) : RecallResponse :=
  let result := «recall» model context store caller params
  match result.cases with
  | some cases => .cases cases result.searchPath (buildRecallHint [] false params.includeContext)
  | none =>
    let entries := result.found.map (recallEntry context store caller params)
    let pending := hasPendingContradictions store (result.found.map Hit.id)
    .fragments entries result.totalTokens result.searchPath
      (buildRecallHint entries pending params.includeContext) result.suggestion

end FragmentMemory.MemoryRecaller
