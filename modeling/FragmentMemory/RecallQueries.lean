import FragmentMemory.FragmentIndex
import FragmentMemory.LinkStore

/-! # The queries of a recall

The searches of `FragmentReader`, the sets that `FragmentIndex` reads, the neighbours of
`GraphNeighborSearch` and `LinkStore.getLinkedFragments`, and the two lookups by fragment id that
`tool_recall` adds to a response.  Similarities and link scores are floating point and given.
-/
namespace FragmentMemory.RecallQueries
open ApiKeyStore FragmentTables FragmentFactory FragmentWriter FragmentReader FragmentIndex LinkStore

structure TimeRange where
  since : Option Time := none
  until_ : Option Time := none

def TimeRange.covers (range : TimeRange) (t : Time) : Bool :=
  range.since.all (· ≤ t) && range.until_.all (t < ·)

/-- The normalized query of `_buildSearchQuery`. -/
structure SearchQuery where
  keywords : List String := []
  topic : Option String := none
  type : Option FragmentType := none
  text : Option String := none
  tokenBudget : ℕ := 1000
  minImportance : Option ℚ := none
  includeSuperseded : Bool := false
  timeRange : Option TimeRange := none
  anchorTime : Time
  agentId : String := "default"
  keyIds : Option (List KeyId) := none
  workspace : Option String := none
  isAnchor : Option Bool := none
  caseId : Option String := none
  resolutionStatus : Option ResolutionStatus := none
  phase : Option String := none
  affect : Option (List Affect) := none
  includePeerAgents : Bool := false

/-- A search result: the row and the marks that the layers leave on it. -/
structure Hit where
  row : Fragment
  similarity : Option ℚ := none
  rrfScore : Option ℚ := none
  rerankerScore : Option ℚ := none
  kwExact : Bool := false
  kwSupplement : Bool := false
  linked : Bool := false
  deriving DecidableEq

def Hit.id (hit : Hit) : FragmentId := hit.row.id

def SearchQuery.agentCond (q : SearchQuery) (f : Fragment) : Bool := q.includePeerAgents || agentScope q.agentId f

/-- `key_id = ANY(…)`, absent for a null key. -/
def keyCond (keyIds : Option (List KeyId)) (f : Fragment) : Bool :=
  keyIds.all fun members => f.keyId.any members.contains

def workspaceCond (workspace : Option String) (f : Fragment) : Bool :=
  workspace.all fun name => f.workspace.isNone || f.workspace = some name

/-- The conditions that every SQL search puts on a row. -/
def SearchQuery.rowCond (q : SearchQuery) (f : Fragment) : Bool :=
  q.agentCond f && keyCond q.keyIds f && workspaceCond (JsString.truthy q.workspace) f &&
    (q.includeSuperseded || f.live) && q.timeRange.all (·.covers f.createdAt)

def SearchQuery.narrativeCond (q : SearchQuery) (f : Fragment) : Bool :=
  q.caseId.all (fun id => f.caseId = some id) &&
    q.resolutionStatus.all (fun status => f.resolutionStatus = some status) &&
    q.phase.all fun phase => f.phase = some phase

/-- An empty list of affects is no condition of the SQL searches. -/
def SearchQuery.affectCond (q : SearchQuery) (f : Fragment) : Bool :=
  q.affect.all fun affects => affects.isEmpty || affects.contains f.affect

/-- `SearchScope.applyTo`. -/
def SearchQuery.applyScope (q : SearchQuery) (f : Fragment) : Bool :=
  q.agentCond f && workspaceCond q.workspace f && q.narrativeCond f &&
    q.affect.all fun affects => affects.contains f.affect

/-- The conditions that the keyword and the topic search share; a zero floor is replaced. -/
def SearchQuery.metadataCond (q : SearchQuery) (f : Fragment) : Bool :=
  q.rowCond f && q.type.all (f.type = ·) && (q.minImportance.filter (· ≠ 0)).getD (1 / 10) ≤ f.importance &&
    q.narrativeCond f && q.affectCond f

def keywordScore (keywords : List String) (f : Fragment) : ℕ := (f.keywords.filter keywords.contains).length

def byKeywordScore (keywords : List String) (f g : Fragment) : Bool :=
  keywordScore keywords g < keywordScore keywords f ||
    (keywordScore keywords f = keywordScore keywords g && byImportance f g)

def searchByKeywords (store : Store) (q : SearchQuery) (keywords : List String) : List Fragment :=
  let found := store.fragments.rows.filter fun f =>
    q.metadataCond f && f.keywords.any keywords.contains && q.topic.all (f.topic = ·) &&
      q.isAnchor.all (f.isAnchor = ·)
  (found.insertionSort (byKeywordScore keywords · ·)).take 30

def searchTopicRows (store : Store) (q : SearchQuery) (topic : String) : List Fragment :=
  let found := store.fragments.rows.filter fun f => q.metadataCond f && f.topic = topic
  (found.insertionSort (byImportance · ·)).take 30

/-- `searchBySemantic` with the similarity of each row to the query vector, none for a row that is
not embedded.  The morpheme search does not look at the affect. -/
def searchBySemantic (store : Store) (q : SearchQuery) (similarity : Fragment → Option ℚ) (minSimilarity : ℚ)
    (limit : ℕ) (affectOn : Bool) : List Hit :=
  let found := store.fragments.rows.filter fun f =>
    q.rowCond f && (!affectOn || q.affectCond f) && (similarity f).any (minSimilarity ≤ ·)
  let nearest := found.insertionSort fun f g => (similarity g).getD 0 ≤ (similarity f).getD 0
  (nearest.take limit).map fun f => { row := f, similarity := similarity f }

def searchByTimeRange (store : Store) (q : SearchQuery) : List Fragment :=
  let found := store.fragments.rows.filter fun f => q.rowCond f && q.narrativeCond f
  (found.insertionSort fun f g => g.createdAt ≤ f.createdAt).take 30

/-- `accessed_at DESC NULLS LAST`. -/
def laterAccess : Option Time → Option Time → Bool
  | some a, some b => b ≤ a
  | none, some _ => false
  | _, none => true

/-- `ORDER BY importance DESC, accessed_at DESC NULLS LAST`. -/
def byAccess (f g : Fragment) : Bool :=
  g.importance < f.importance || (f.importance = g.importance && laterAccess f.accessedAt g.accessedAt)

/-- `_getScopedByIds`. -/
def getScopedByIds (store : Store) (q : SearchQuery) (ids : List FragmentId) : List Fragment :=
  let found := store.fragments.rows.filter fun f =>
    ids.contains f.id && q.agentCond f && (q.includeSuperseded || f.live) && keyCond q.keyIds f
  found.insertionSort (byAccess · ·)

/-- `searchBySource`: live rows of one source under the caller's own key. -/
def searchBySource (store : Store) (source agentId : String) (keyId : Option KeyId) : List Fragment :=
  let found := store.fragments.rows.filter fun f =>
    f.source = some source && agentScope agentId f && f.live && ownedBy keyId f
  (found.insertionSort (byImportance · ·)).take 5

/-- `keyNsList`. -/
def namespaces (keyIds : Option (List KeyId)) : List (Option KeyId) :=
  match keyIds with
  | none => [none]
  | some members => members.map some

/-- `SMEMBERS`. -/
def members (store : Store) (key : IndexSet) : List FragmentId :=
  (store.index.filter fun member => member.1 = key).map Prod.snd

/-- The intersection of the keyword sets, or their union when it has fewer than three members. -/
def keywordMembers (tools : TextTools) (store : Store) (keywords : List String) (namespace_ : Option KeyId) :
    List FragmentId :=
  let sets := keywords.map fun word => members store (.keyword namespace_ (tools.toLowerCase word))
  let common := (sets.headD []).filter fun id => sets.all (·.contains id)
  if common.length < 3 && 1 < sets.length then sets.flatten.eraseDups else common

/-- Lookups in the namespaces of the caller; each id is kept once. -/
def unionFromNamespaces (keyIds : Option (List KeyId)) (fetch : Option KeyId → List FragmentId) :
    List FragmentId :=
  ((namespaces keyIds).flatMap fetch).eraseDups

/-- `_searchL1`: the ids and whether they are only the recent ones.  The recency sets are ordered by
the time of their members, which is given. -/
def searchL1 (tools : TextTools) (ready : Bool) (recency : Option KeyId → FragmentId → ℕ) (store : Store)
    (q : SearchQuery) : List FragmentId × Bool :=
  if (JsString.truthy q.text).isSome && q.keywords.isEmpty && q.topic.isNone then ([], false)
  else if !ready then ([], true)
  else
    let byKeywords := if q.keywords.isEmpty then [] else
      unionFromNamespaces q.keyIds (keywordMembers tools store q.keywords)
    let byTopic := q.topic.elim [] fun topic =>
      unionFromNamespaces q.keyIds fun space => members store (.topic space topic)
    let byType := q.type.elim [] fun type =>
      unionFromNamespaces q.keyIds fun space => members store (.type space type)
    match [byKeywords, byTopic, byType].filter (!·.isEmpty) with
    | [] =>
      let recent := unionFromNamespaces q.keyIds fun space =>
        ((members store (.recent space)).insertionSort fun a b => recency space b ≤ recency space a).take 20
      (recent.take 20, true)
    | first :: others => (first.filter fun id => others.all (·.contains id), false)

/-- `_tryHotCache`: cached ids only name candidates, whose rows are read again. -/
def tryHotCache (ready : Bool) (store : Store) (q : SearchQuery) (ids : List FragmentId) : List Fragment :=
  let hitIds := if ready then (ids.take 30).eraseDups.filter fun id =>
      (namespaces q.keyIds).any fun space => store.index.contains (.hot space, id)
    else []
  (getScopedByIds store q hitIds).filter fun f =>
    f.content ≠ "" && (q.includeSuperseded || f.live) && q.applyScope f

/-- The rows at the other ends of the links at the given ids, with their links. -/
def neighborRows (store : Store) (ids : List FragmentId) (chosen : Link → Bool) (skipped : FragmentId → Bool)
    (keep : Fragment → Bool) : List (Fragment × Link) :=
  let towards := store.links.rows.filterMap fun l =>
    if ids.contains l.fromId && !skipped l.toId && l.deletedAt.isNone && chosen l then
      ((store.fragments.byId l.toId).filter keep).map fun f => (f, l)
    else none
  let backwards := store.links.rows.filterMap fun l =>
    if ids.contains l.toId && !skipped l.fromId && l.deletedAt.isNone && chosen l then
      ((store.fragments.byId l.fromId).filter keep).map fun f => (f, l)
    else none
  towards ++ backwards

/-- `DISTINCT ON (id)` of a sorted result. -/
def distinctOnId : List (Fragment × Link) → List (Fragment × Link)
  | [] => []
  | first :: later => first :: (distinctOnId later).filter fun item => item.1.id ≠ first.1.id

/-- The columns of a neighbour: the narrative and session columns are not selected. -/
def neighborColumns (f : Fragment) : Fragment :=
  { f with
    sessionId := none
    caseId := none
    goal := none
    outcome := none
    phase := none
    resolutionStatus := none
    assertionStatus := .observed
    contextSummary := none }

def byIdWeight (a b : Fragment × Link) : Bool :=
  a.1.id < b.1.id || (a.1.id = b.1.id && b.2.weight ≤ a.2.weight)

def byWeightId (a b : Fragment × Link) : Bool :=
  b.2.weight < a.2.weight || (a.2.weight = b.2.weight && a.1.id ≤ b.1.id)

/-- `fetchGraphNeighbors`: the ten neighbours with the strongest links, ordered by their scores. -/
def fetchGraphNeighbors (graphScore : Link → ℚ) (store : Store) (q : SearchQuery) (seedIds : List FragmentId) :
    List Fragment :=
  let keep := fun f : Fragment => f.live && keyCond q.keyIds f && q.agentCond f && workspaceCond q.workspace f
  let found := neighborRows store seedIds (fun _ => true) seedIds.contains keep
  let distinct := distinctOnId (found.insertionSort (byIdWeight · ·))
  let strongest := (distinct.insertionSort (byWeightId · ·)).take 10
  (strongest.insertionSort fun a b => graphScore b.2 ≤ graphScore a.2).map fun item => neighborColumns item.1

def relationOrder : RelationType → ℕ
  | .resolvedBy => 1
  | .causedBy => 2
  | _ => 3

/-- `ORDER BY id, link_weight DESC, relation_order`. -/
def byIdWeightOrder (a b : Fragment × Link) : Bool :=
  a.1.id < b.1.id || (a.1.id = b.1.id && (b.2.weight < a.2.weight ||
    (a.2.weight = b.2.weight && relationOrder a.2.relationType ≤ relationOrder b.2.relationType)))

/-- The relation that `getLinkedFragments` follows: the one asked for or its four defaults. -/
def linkedRelation (relationType : Option RelationType) (l : Link) : Bool :=
  match relationType with
  | some wanted => l.relationType = wanted
  | none => [RelationType.causedBy, .resolvedBy, .related, .coRetrieved].contains l.relationType

/-- `getLinkedFragments`. -/
def getLinkedFragments (store : Store) (q : SearchQuery) (fromIds : List FragmentId)
    (relationType : Option RelationType) : List Fragment :=
  let keep := fun f : Fragment =>
    (q.includeSuperseded || f.live) && keyCond q.keyIds f && q.agentCond f && workspaceCond q.workspace f
  let found := neighborRows store fromIds (linkedRelation relationType) (fun _ => false) keep
  ((distinctOnId (found.insertionSort (byIdWeightOrder · ·))).take 10).map fun item =>
    { neighborColumns item.1 with isAnchor := false }

/-- A linked fragment in a response. -/
structure Preview where
  id : FragmentId
  relationType : RelationType
  preview : String
  deriving DecidableEq

/-- The live rows at the three strongest links from a row.  This query has no key clause. -/
def strongestLinked (store : Store) (id : FragmentId) : List (Fragment × Link) :=
  let found := store.links.rows.filterMap fun l =>
    if l.fromId = id && l.deletedAt.isNone then
      ((store.fragments.byId l.toId).filter Fragment.live).map fun f => (f, l)
    else none
  (found.insertionSort fun a b => b.2.weight ≤ a.2.weight).take 3

/-- `fetchLinkedFragments` for one row. -/
def fetchLinkedFragments (store : Store) (id : FragmentId) : List Preview :=
  (strongestLinked store id).map fun item =>
    { id := item.2.toId
      relationType := item.2.relationType
      preview := String.ofList (item.1.content.toList.take 60) }

/-- `hasPendingContradictions`: a `contradicts` link at one of the rows whose other end is live. -/
def hasPendingContradictions (store : Store) (ids : List FragmentId) : Bool :=
  !ids.isEmpty && store.links.rows.any fun l =>
    l.relationType = .contradicts && (ids.contains l.fromId || ids.contains l.toId) &&
      (store.fragments.byId (if ids.contains l.fromId then l.toId else l.fromId)).any Fragment.live

end FragmentMemory.RecallQueries
