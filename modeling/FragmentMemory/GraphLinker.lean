import FragmentMemory.PairSteps

/-! # Linking by similarity

`GraphLinker.linkFragment`, its call on the `embedding_ready` event and `retroLink`, both without a
key.
-/
namespace FragmentMemory.GraphLinker
open ApiKeyStore FragmentTables FragmentReader MemoryRememberer PairSteps TransitionRuns

variable (embeddings : Embeddings) (now : Time)

/-- `ORDER BY similarity DESC` of the rows that a query of one fragment selects. -/
def bySimilarity (f : Fragment) (found : List Fragment) : List Fragment :=
  found.insertionSort fun g h => embeddings.similarity f.id h.id ≤ embeddings.similarity f.id g.id

/-- The rows that both queries of the linker look at. -/
def sameTopic (keyId : Option KeyId) (groupKeyIds : List KeyId) (f g : Fragment) : Bool :=
  g.id ≠ f.id && g.topic = f.topic && embeddings.embedded g.id && keyScope keyId groupKeyIds g

/-- The query of the gate: the most similar live row. -/
def nearestDuplicate (store : Store) (keyId : Option KeyId) (groupKeyIds : List KeyId) (f : Fragment) :
    Option Fragment :=
  (bySimilarity embeddings f (store.fragments.rows.filter fun g =>
    sameTopic embeddings keyId groupKeyIds f g && g.live && 90 / 100 ≤ embeddings.similarity f.id g.id)).head?

/-- The query of the candidates: the three most similar rows, live or not. -/
def linkCandidates (store : Store) (keyId : Option KeyId) (groupKeyIds : List KeyId) (f : Fragment) :
    List Fragment :=
  (bySimilarity embeddings f (store.fragments.rows.filter fun g =>
    sameTopic embeddings keyId groupKeyIds f g && 70 / 100 < embeddings.similarity f.id g.id)).take 3

/-- The type of the link from a candidate to the new fragment. -/
def relationOf (newFrag existing : Fragment) : RelationType :=
  if newFrag.type = existing.type && 85 / 100 < embeddings.similarity newFrag.id existing.id &&
      existing.createdAt < newFrag.createdAt then .supersededBy
  else if newFrag.type = .error && existing.type = .error &&
      ("[해결됨]".toList <:+: newFrag.content.toList || "resolved".toList <:+: newFrag.content.toList) then .resolvedBy
  else .related

/-- `linkFragment`: the pairs that it treats. -/
def linkFragment (store : Store) (id : FragmentId) (keyId : Option KeyId) (groupKeyIds : List KeyId) :
    List PairStep :=
  match (store.fragments.byId id).filter fun f => embeddings.embedded f.id with
  | none => []
  | some f =>
    match (nearestDuplicate embeddings store keyId groupKeyIds f).filter
        fun g => 95 / 100 ≤ embeddings.similarity f.id g.id with
    | some existing => [.duplicate now f existing]
    | none => (linkCandidates embeddings store keyId groupKeyIds f).map fun g =>
        .relate now f g (relationOf embeddings f g)

/-- Embedded rows without links, the newest first. -/
def isolatedRows (store : Store) (batchSize : ℕ) : List Fragment :=
  let found := store.fragments.rows.filter fun f =>
    embeddings.embedded f.id && f.linkedTo.isEmpty && !store.links.rows.any (·.touches f.id)
  (found.insertionSort fun f g => g.createdAt ≤ f.createdAt).take batchSize

/-- One pair of `buildCoRetrievalLinks`; what the insert throws is ignored. -/
def coRetrieve (store : Store) (ends : FragmentId × FragmentId) : Store :=
  if (store.fragments.byId ends.1).isSome && (store.fragments.byId ends.2).isSome then
    let row := { fromId := ends.1, toId := ends.2, relationType := .coRetrieved }
    (store.links.upsert ends row (fun l => { l with weight := l.weight + 1 }) fun _ => rfl).elim store
      fun links => { store with links := links }
  else store

/-- The pairs of a list in its order. -/
def orderedPairs : List FragmentId → List (FragmentId × FragmentId)
  | [] => []
  | id :: later => later.map (fun other => (id, other)) ++ orderedPairs later

/-- `buildCoRetrievalLinks`.  The arrays of the rows are left alone. -/
def buildCoRetrievalLinks (store : Store) (fragmentIds : List FragmentId) : Store :=
  (orderedPairs (fragmentIds.take 5)).foldl coRetrieve store

variable {settings : Settings} {start : Store}

/-- The `embedding_ready` handler. -/
def onEmbeddingReady (journal : Journal settings start) (id : FragmentId) : Journal settings start :=
  journal.performAll (linkFragment embeddings now journal.store id none [])

/-- `retroLink`. -/
def retroLink (journal : Journal settings start) (batchSize : ℕ) : Journal settings start :=
  (isolatedRows embeddings journal.store batchSize).foldl
    (fun current f => onEmbeddingReady embeddings now current f.id) journal

end FragmentMemory.GraphLinker
