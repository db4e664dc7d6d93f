import FragmentMemory.GraphLinker

/-! # Contradictions and supersessions

`ContradictionDetector`: the incremental detection with its checkpoint, the queue of pending pairs
and the detection of supersessions.  What a classifier or a language model answers is given, and may
differ from call to call.
-/
namespace FragmentMemory.ContradictionDetector
open ApiKeyStore FragmentTables MemoryRememberer PairSteps GraphLinker TransitionRuns

/-- An entry of the queue `frag:pending_contradictions`. -/
structure PendingPair where
  idA : FragmentId
  idB : FragmentId
  contentA : String
  contentB : String
  deriving DecidableEq

/-- What the detector keeps outside the tables: the pairs checked in this cycle, the queue and the
stored checkpoint. -/
structure Detector where
  checkedPairs : List (FragmentId × FragmentId) := []
  pending : List PendingPair := []
  lastCheckAt : Option Time := none

/-- The answer of the classifier, with its confidence to three digits. -/
structure NliResult where
  contradicts : Bool
  needsEscalation : Bool
  confidence : String

/-- The answer of the language model. -/
structure Verdict where
  holds : Bool
  reasoning : String

/-- The services of one call; the number is that of the pair checks before the question.  A verdict
that is missing stands for a call that failed. -/
structure Services where
  embeddings : Embeddings
  redisReady : Bool := true
  nli : ℕ → String → String → Option NliResult := fun _ _ _ => none
  cliAvailable : Bool := true
  contradiction : ℕ → String → String → Option Verdict := fun _ _ _ => none
  supersession : ℕ → String → String → Option Verdict := fun _ _ _ => none
  draws : ℕ → Draws
  now : Time

def MAX_CONTRADICTION_DEPTH : ℕ := 3

def orderedPair (idA idB : FragmentId) : FragmentId × FragmentId := if idA < idB then (idA, idB) else (idB, idA)

/-- `_acquirePairCheck`: none when the pair has been checked often enough. -/
def acquirePairCheck (detector : Detector) (idA idB : FragmentId) : Option Detector :=
  if MAX_CONTRADICTION_DEPTH ≤ detector.checkedPairs.count (orderedPair idA idB) then none
  else some { detector with checkedPairs := detector.checkedPairs ++ [orderedPair idA idB] }

/-- `resetCheckedPairs`. -/
def resetCheckedPairs (detector : Detector) : Detector := { detector with checkedPairs := [] }

variable (services : Services)

/-- `askGeminiContradiction`: a failed call counts as a verdict without contradiction. -/
def askGeminiContradiction (check : ℕ) (contentA contentB : String) : Verdict :=
  (services.contradiction check contentA contentB).getD ⟨false, "Gemini CLI 응답 파싱 실패"⟩

/-- `askGeminiSupersession`. -/
def askGeminiSupersession (check : ℕ) (contentA contentB : String) : Verdict :=
  (services.supersession check contentA contentB).getD ⟨false, "Gemini CLI 응답 파싱 실패"⟩

/-- The checkpoint as it is read. -/
def readCheckpoint (detector : Detector) : Option Time := if services.redisReady then detector.lastCheckAt else none

/-- Embedded rows after the checkpoint. -/
def eligible (detector : Detector) (f : Fragment) : Bool :=
  services.embeddings.embedded f.id && (readCheckpoint services detector).all (· < f.createdAt)

/-- The rows that a call looks at: the twenty newest of those eligible, live or not. -/
def newFragments (store : Store) (detector : Detector) : List Fragment :=
  ((store.fragments.rows.filter (eligible services detector)).insertionSort
    fun f g => g.createdAt ≤ f.createdAt).take 20

/-- The candidates of a row: the three most similar of its topic and key that no `contradicts` link
joins to it, live or not. -/
def contradictionCandidates (store : Store) (f : Fragment) : List Fragment :=
  let joined := fun g : Fragment => store.links.rows.any fun l =>
    ((l.fromId = f.id && l.toId = g.id) || (l.fromId = g.id && l.toId = f.id)) && l.relationType = .contradicts
  (bySimilarity services.embeddings f (store.fragments.rows.filter fun g =>
    g.id ≠ f.id && g.topic = f.topic && services.embeddings.embedded g.id && g.keyId = f.keyId &&
      85 / 100 < services.embeddings.similarity f.id g.id && !joined g)).take 3

variable {settings : Settings} {start : Store}

/-- The state of a call of `detectContradictions`; the pairs that it has judged to contradict each other
are kept for the record. -/
structure Detection (settings : Settings) (start : Store) where
  journal : Journal settings start
  detector : Detector
  classified : List (Fragment × Fragment) := []
  found : ℕ := 0
  nliResolved : ℕ := 0
  nliSkipped : ℕ := 0
  latestProcessed : Option Time := none

namespace Detection

def processed (detection : Detection settings start) (f : Fragment) : Detection settings start :=
  { detection with latestProcessed :=
      if detection.latestProcessed.all (· < f.createdAt) then some f.createdAt else detection.latestProcessed }

/-- `resolveContradiction` on a candidate, whose `key_id` the query does not select. -/
def resolve (detection : Detection settings start) (check : ℕ) (newFrag candidate : Fragment) (reasoning : String) :
    Detection settings start :=
  { detection with
    journal := detection.journal.resolveContradiction (services.draws check) newFrag candidate none newFrag.topic
      reasoning
    classified := detection.classified ++ [(newFrag, candidate)]
    found := detection.found + 1 }

/-- `flagPotentialContradiction`. -/
def flag (detection : Detection settings start) (newFrag candidate : Fragment) : Detection settings start :=
  if services.redisReady then
    { detection with detector := { detection.detector with
        pending := detection.detector.pending ++ [⟨newFrag.id, candidate.id, newFrag.content, candidate.content⟩] } }
  else detection

/-- A pair that the classifier leaves open. -/
def escalate (detection : Detection settings start) (check : ℕ) (newFrag candidate : Fragment) :
    Detection settings start :=
  if services.cliAvailable then
    let verdict := askGeminiContradiction services check newFrag.content candidate.content
    let decided := if verdict.holds then detection.resolve services check newFrag candidate verdict.reasoning
      else detection
    decided.processed newFrag
  else if 92 / 100 < services.embeddings.similarity newFrag.id candidate.id then
    detection.flag services newFrag candidate
  else detection

/-- The loop body over the candidates. -/
def examine (newFrag : Fragment) (detection : Detection settings start) (candidate : Fragment) :
    Detection settings start :=
  match acquirePairCheck detection.detector newFrag.id candidate.id with
  | none => detection
  | some detector =>
    let check := detection.detector.checkedPairs.length
    let acquired := { detection with detector := detector }
    match services.nli check newFrag.content candidate.content with
    | some ⟨true, false, confidence⟩ =>
      let resolved := acquired.resolve services check newFrag candidate ("NLI contradiction (conf=" ++ confidence ++ ")")
      { resolved with nliResolved := resolved.nliResolved + 1 }.processed newFrag
    | some ⟨false, false, _⟩ => { acquired with nliSkipped := acquired.nliSkipped + 1 }.processed newFrag
    | _ => acquired.escalate services check newFrag candidate

/-- The loop body over the new rows. -/
def examineAll (detection : Detection settings start) (newFrag : Fragment) : Detection settings start :=
  (contradictionCandidates services detection.journal.store newFrag).foldl (examine services newFrag) detection

end Detection

/-- `detectContradictions` before the checkpoint is stored. -/
def detectionOf (journal : Journal settings start) (detector : Detector) : Detection settings start :=
  (newFragments services journal.store detector).foldl (Detection.examineAll services)
    { journal := journal, detector := detector }

/-- `updateContradictionTimestamp`. -/
def updateCheckpoint (detector : Detector) (latestProcessed : Option Time) : Detector :=
  if services.redisReady && latestProcessed.isSome then { detector with lastCheckAt := latestProcessed }
  else detector

/-- `detectContradictions`. -/
def detectContradictions (journal : Journal settings start) (detector : Detector) : Detection settings start :=
  let detection := detectionOf services journal detector
  { detection with detector := updateCheckpoint services detection.detector detection.latestProcessed }

/-- The pairs that `detectSupersessions` selects: both live, of one topic, type and key, without a
link. -/
def supersessionPairs (store : Store) : List (Fragment × Fragment) :=
  let unlinked := fun a b : Fragment => !store.links.rows.any fun l =>
    (l.fromId = a.id && l.toId = b.id) || (l.fromId = b.id && l.toId = a.id)
  let similar := fun a b : Fragment =>
    70 / 100 ≤ services.embeddings.similarity a.id b.id && services.embeddings.similarity a.id b.id ≤ 85 / 100
  let pairs := store.fragments.rows.flatMap fun a => (store.fragments.rows.filter fun b =>
      a.topic = b.topic && a.type = b.type && a.id < b.id && a.keyId = b.keyId &&
        services.embeddings.embedded a.id && services.embeddings.embedded b.id && a.live && b.live &&
        similar a b && unlinked a b).map fun b => (a, b)
  (pairs.insertionSort fun p q =>
    services.embeddings.similarity q.1.id q.2.id ≤ services.embeddings.similarity p.1.id p.2.id).take 10

/-- The older fragment of a pair, the second when neither is. -/
def supersessionStep (now : Time) (pair : Fragment × Fragment) : PairStep :=
  if pair.1.createdAt < pair.2.createdAt then .supersede now pair.1 pair.2 else .supersede now pair.2 pair.1

/-- `detectSupersessions`. -/
def detectSupersessions (journal : Journal settings start) : Journal settings start :=
  if services.cliAvailable then
    let judged := (supersessionPairs services journal.store).zipIdx.filter fun (pair, i) =>
      (askGeminiSupersession services i pair.1.content pair.2.content).holds
    journal.performAll (judged.map fun (pair, _) => supersessionStep services.now pair)
  else journal

/-- A turn of `processPendingContradictions`.  The entry is off the queue before it is judged. -/
def processPending (state : Journal settings start × Detector) : Journal settings start × Detector :=
  match state.2.pending with
  | [] => state
  | entry :: later =>
    let popped := { state.2 with pending := later }
    match acquirePairCheck popped entry.idA entry.idB with
    | none => (state.1, popped)
    | some acquired =>
      let check := popped.checkedPairs.length
      let verdict := askGeminiContradiction services check entry.contentA entry.contentB
      match state.1.store.fragments.byId entry.idA, state.1.store.fragments.byId entry.idB with
      | some fragA, some fragB =>
        if verdict.holds then
          (state.1.resolveContradiction (services.draws check) fragA fragB fragB.keyId "" verdict.reasoning, acquired)
        else (state.1, acquired)
      | _, _ => (state.1, acquired)

/-- `processPendingContradictions`: at most ten entries. -/
def processPendingContradictions (journal : Journal settings start) (detector : Detector) :
    Journal settings start × Detector :=
  if services.cliAvailable && services.redisReady then (processPending services)^[10] (journal, detector)
  else (journal, detector)

end FragmentMemory.ContradictionDetector
