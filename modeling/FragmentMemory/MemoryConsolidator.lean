import FragmentMemory.ContradictionDetector

/-! # Consolidation by similarity

`MemoryConsolidator._semanticDedup`, the compression of `ConsolidatorGC`, and the automatic stages
that treat pairs of fragments, in any order.
-/
namespace FragmentMemory.MemoryConsolidator
open ApiKeyStore FragmentTables MemoryRememberer PairSteps GraphLinker ContradictionDetector TransitionRuns

variable (embeddings : Embeddings) (now : Time)

/-- `MEMORY_CONFIG.dedup` and `MEMORY_CONFIG.compress`, the age in milliseconds. -/
structure ConsolidationConfig where
  batchSize : ℕ := 100
  minFragments : ℕ := 5
  ageMs : ℕ := 30 * 86400000
  minGroup : ℕ := 3

/-- The embedded live rows of a topic, the newest first. -/
def topicFragments (store : Store) (topic : String) : List Fragment :=
  (store.fragments.rows.filter fun f => f.topic = topic && embeddings.embedded f.id && f.live).insertionSort
    fun f g => g.createdAt ≤ f.createdAt

/-- The topics with enough embedded live rows, the largest first. -/
def dedupTopics (config : ConsolidationConfig) (store : Store) : List String :=
  let topics := ((store.fragments.rows.filter fun f => embeddings.embedded f.id && f.live).map Fragment.topic).eraseDups
  let size := fun topic => (topicFragments embeddings store topic).length
  ((topics.filter fun topic => config.minFragments ≤ size topic).insertionSort
    fun a b => size b ≤ size a).take config.batchSize

/-- The three nearest live rows of the topic. -/
def nearestNeighbors (store : Store) (f : Fragment) : List Fragment :=
  (bySimilarity embeddings f (store.fragments.rows.filter fun g =>
    g.topic = f.topic && g.id ≠ f.id && embeddings.embedded g.id && g.live)).take 3

variable {settings : Settings} {start : Store}

/-- The state of `_semanticDedup`: the fragments that it has dropped are not looked at again. -/
structure Dedup (settings : Settings) (start : Store) where
  journal : Journal settings start
  processed : List FragmentId := []

/-- The loop body over the neighbours of a row. -/
def mergeNeighbor (frag : Fragment) (dedup : Dedup settings start) (candidate : Fragment) : Dedup settings start :=
  if embeddings.similarity frag.id candidate.id < 92 / 100 || candidate.isAnchor ||
      dedup.processed.contains candidate.id then dedup
  else
    { journal := dedup.journal.perform (.merge now frag candidate)
      processed := dedup.processed ++ [(droppedOf frag candidate).id] }

/-- The turn of a row. -/
def dedupFragment (dedup : Dedup settings start) (frag : Fragment) : Dedup settings start :=
  if frag.isAnchor || dedup.processed.contains frag.id then dedup
  else (nearestNeighbors embeddings dedup.journal.store frag).foldl (mergeNeighbor embeddings now frag) dedup

def dedupTopic (dedup : Dedup settings start) (topic : String) : Dedup settings start :=
  (topicFragments embeddings dedup.journal.store topic).foldl (dedupFragment embeddings now) dedup

/-- `_semanticDedup`. -/
def semanticDedup (config : ConsolidationConfig) (journal : Journal settings start) : Journal settings start :=
  ((dedupTopics embeddings config journal.store).foldl (dedupTopic embeddings now) { journal := journal }).journal

/-- The rows that a compression may touch. -/
def compressible (config : ConsolidationConfig) (f : Fragment) : Bool :=
  f.accessedAt.any (· + config.ageMs < now) && f.importance < 5 / 10 && !f.isAnchor && f.live &&
    embeddings.embedded f.id

/-- `_queryCompressCandidates`. -/
def compressCandidates (config : ConsolidationConfig) (store : Store) : List Fragment :=
  (store.fragments.rows.filter (compressible embeddings now config)).insertionSort
    fun f g => f.topic < g.topic || (f.topic = g.topic && g.importance ≤ f.importance)

/-- The ten nearest compressible rows of the topic. -/
def compressNeighbors (config : ConsolidationConfig) (store : Store) (f : Fragment) : List Fragment :=
  (bySimilarity embeddings f (store.fragments.rows.filter fun g =>
    g.topic = f.topic && g.id ≠ f.id && compressible embeddings now config g)).take 10

/-- The neighbours that join a group: those not yet assigned, up to the first that is not similar
enough or finds the group full. -/
def joinGroup (frag : Fragment) (assigned : List FragmentId) : List Fragment → List Fragment → List Fragment
  | group, [] => group
  | group, neighbor :: later =>
    if assigned.contains neighbor.id || (group.map Fragment.id).contains neighbor.id then
      joinGroup frag assigned group later
    else if embeddings.similarity frag.id neighbor.id < 80 / 100 then group
    else if 10 ≤ group.length then group
    else joinGroup frag assigned (group ++ [neighbor]) later

/-- One row of `_buildCompressionGroups`, with the rows assigned so far and the groups. -/
def groupFragment (config : ConsolidationConfig) (store : Store) (state : List FragmentId × List (List Fragment))
    (frag : Fragment) : List FragmentId × List (List Fragment) :=
  if state.1.contains frag.id then state
  else
    let group := joinGroup embeddings frag state.1 [frag] (compressNeighbors embeddings now config store frag)
    (state.1 ++ group.map Fragment.id, if config.minGroup ≤ group.length then state.2 ++ [group] else state.2)

/-- `_buildCompressionGroups`; its batches of twenty only run the queries side by side. -/
def compressionGroups (config : ConsolidationConfig) (store : Store) : List (List Fragment) :=
  let rows := (compressCandidates embeddings now config store).filter fun f => f.topic ≠ ""
  let topics := (rows.map Fragment.topic).eraseDups
  let large := topics.filter fun topic => config.minGroup ≤ (rows.filter fun f => f.topic = topic).length
  large.flatMap fun topic => ((rows.filter fun f => f.topic = topic).foldl
    (groupFragment embeddings now config store) ([], [])).2

/-- A group in the order of `_commitCompressionGroups`: the most important fragment is kept. -/
def compressionStep (group : List Fragment) : Option PairStep :=
  match group.insertionSort fun f g => g.importance ≤ f.importance with
  | [] => none
  | keeper :: others => some (.compress now keeper others)

/-- `compressOldFragments`. -/
def compressOldFragments (config : ConsolidationConfig) (journal : Journal settings start) : Journal settings start :=
  journal.performAll ((compressionGroups embeddings now config journal.store).filterMap (compressionStep now))

/-- The automatic stages that treat pairs, each with what it meets outside the tables. -/
inductive Stage
  | detectContradictions (services : Services)
  | processPendingContradictions (services : Services)
  | detectSupersessions (services : Services)
  | semanticDedup (embeddings : Embeddings) (now : Time) (config : ConsolidationConfig)
  | compressOldFragments (embeddings : Embeddings) (now : Time) (config : ConsolidationConfig)
  | embeddingReady (embeddings : Embeddings) (now : Time) (id : FragmentId)
  | retroLink (embeddings : Embeddings) (now : Time) (batchSize : ℕ)
  | resetCheckedPairs

/-- The journal of the stages run so far and the state of the detector. -/
structure Consolidation (settings : Settings) (start : Store) where
  journal : Journal settings start
  detector : Detector

def begin (settings : Settings) (start : Store) (detector : Detector) : Consolidation settings start where
  journal := Journal.empty settings start
  detector := detector

def runStage (state : Consolidation settings start) : Stage → Consolidation settings start
  | .detectContradictions services =>
    let detection := ContradictionDetector.detectContradictions services state.journal state.detector
    { journal := detection.journal, detector := detection.detector }
  | .processPendingContradictions services =>
    let (journal, detector) := ContradictionDetector.processPendingContradictions services state.journal state.detector
    { journal := journal, detector := detector }
  | .detectSupersessions services =>
    { state with journal := ContradictionDetector.detectSupersessions services state.journal }
  | .semanticDedup embeddings now config =>
    { state with journal := MemoryConsolidator.semanticDedup embeddings now config state.journal }
  | .compressOldFragments embeddings now config =>
    { state with journal := MemoryConsolidator.compressOldFragments embeddings now config state.journal }
  | .embeddingReady embeddings now id => { state with journal := onEmbeddingReady embeddings now state.journal id }
  | .retroLink embeddings now batchSize =>
    { state with journal := GraphLinker.retroLink embeddings now state.journal batchSize }
  | .resetCheckedPairs => { state with detector := ContradictionDetector.resetCheckedPairs state.detector }

end FragmentMemory.MemoryConsolidator
