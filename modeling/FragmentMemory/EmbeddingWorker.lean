import FragmentMemory.FragmentReader
import FragmentMemory.InterleavedRuns
import FragmentMemory.SortedQueries

/-! # The embedding worker

`generateBatchEmbeddings` and the runs of `EmbeddingWorker`: a run reads rows without a vector, asks the
embedding service in chunks, row by row or not at all when the cache has every vector, and writes each vector
where the row still has the content that was read and no vector.  Vectors are taken at the precision at which
cache and column keep them.
-/
namespace FragmentMemory.EmbeddingWorker
open ApiKeyStore FragmentTables FragmentFactory FragmentWriter FragmentReader InterleavedRuns

/-- The embedding service, remote or in this process.  A remote response lists one vector for each input, with
its index. -/
structure EmbeddingService (Vec : Type) where
  inProcess : Bool
  model : String → Vec
  normalizeL2 : Vec → Vec
  respond : List String → List (ℕ × Vec)
  indexed : ∀ batch, (respond batch).Perm ((batch.map model).mapIdx Prod.mk)

variable {Vec : Type} (service : EmbeddingService Vec)

/-- The normalised vector of a text. -/
def EmbeddingService.embedding (text : String) : Vec := service.normalizeL2 (service.model text)

/-- `generateEmbedding`: the first vector of the response. -/
def generateEmbedding (text : String) : Option Vec :=
  if service.inProcess then some (service.embedding text)
  else (service.respond [text]).head?.map fun item => service.normalizeL2 item.2

/-- `texts.slice(i, i + batchSize)` for every start of a batch. -/
def batches (batchSize : ℕ) (texts : List String) : List (List String) :=
  if _h : texts = [] ∨ batchSize = 0 then []
  else texts.take batchSize :: batches batchSize (texts.drop batchSize)
termination_by texts.length
decreasing_by
  have hopen : texts ≠ [] ∧ batchSize ≠ 0 := not_or.mp _h
  have hlength := List.length_pos_iff.mpr hopen.1
  rw [List.length_drop]
  omega

/-- The vectors of one call: the response sorted by index. -/
def embedBatch (batch : List String) : List Vec :=
  if service.inProcess then batch.map service.embedding
  else ((service.respond batch).insertionSort fun a b => a.1 ≤ b.1).map fun item => service.normalizeL2 item.2

/-- `generateBatchEmbeddings`. -/
def generateBatchEmbeddings (texts : List String) : List Vec := (batches 100 texts).flatMap (embedBatch service)

/-- A row as the worker has read it. -/
structure WorkRow where
  id : FragmentId
  content : String
  deriving DecidableEq

/-- Which rows a run reads: those of queued ids, or the most important ones. -/
inductive Source
  | queued (ids : List FragmentId)
  | orphans (limit : ℕ)

/-- A chunk for one call of the service, or one row in its nth attempt. -/
inductive Task
  | chunk (rows : List WorkRow)
  | one (row : WorkRow) (attempt : ℕ)

def Task.rows : Task → List WorkRow
  | .chunk rows => rows
  | .one row _ => [row]

/-- Where a run stands, with the tasks that are left. -/
inductive Stage (Vec : Type)
  | selecting (source : Source)
  | working (tasks : List Task)
  | calling (task : Task) (later : List Task)
  | writing (task : Task) (vecs : List Vec) (later : List Task)

/-- An amendment, a search that fills the cache, or a numbered run of the worker. -/
inductive Process (Vec : Type)
  | amending (id : FragmentId) (updates : FragmentUpdates) (keyId : Option KeyId)
  | searching (text : String)
  | worker (run : ℕ) (stage : Stage Vec)
  | finished

/-- The tables with the `embedding` column, the vector cache and the `embedding_ready` events by run. -/
structure Database (Vec : Type) where
  store : Store := {}
  embedding : FragmentId → Option Vec := fun _ => none
  cache : List (String × Vec) := []
  events : List (ℕ × FragmentId) := []

/-- How the service answers: with vectors, by naming an input it refuses, or not at all. -/
inductive Reply | vectors | invalidInput (index : ℕ) | failed

/-- What a step meets: the clock, the texts for which the cache answers, the answer of the service, and
whether a statement throws. -/
structure Circumstances where
  now : Time := 0
  cacheAnswers : String → Bool := fun _ => true
  reply : Reply := .vectors
  fails : Bool := false

structure Config where
  digests : Digests
  countTokens : String → ℕ
  cacheKeyText : String → String
  retryLimit : ℕ := 3

def byteCap : ℕ := 256 * 1024

def countCap : ℕ := 200

/-- The chunks of `_embedMany`; the second argument is the open chunk with its bytes. -/
def splitChunks : List WorkRow → List WorkRow → ℕ → List (List WorkRow)
  | [], chunk, _ => if chunk.isEmpty then [] else [chunk]
  | row :: later, chunk, bytes =>
    let rowBytes := row.content.utf8ByteSize
    if !chunk.isEmpty && (byteCap < bytes + rowBytes || countCap ≤ chunk.length) then
      chunk :: splitChunks later [row] rowBytes
    else splitChunks later (chunk ++ [row]) (bytes + rowBytes)

/-- `_embedMany` up to its chunks. -/
def embedMany (rows : List WorkRow) : List Task :=
  (splitChunks (rows.filter fun row => JsString.trim row.content ≠ "") [] 0).map .chunk

/-- The rows without a vector that a run reads. -/
def select (db : Database Vec) : Source → List WorkRow
  | .queued ids => (db.store.fragments.rows.filter fun f => ids.contains f.id && (db.embedding f.id).isNone).map
      fun f => ⟨f.id, f.content⟩
  | .orphans limit => (((db.store.fragments.rows.filter fun f => (db.embedding f.id).isNone).insertionSort
      (byImportance · ·)).take limit).map fun f => ⟨f.id, f.content⟩

/-- `EmbeddingCache.get`. -/
def cached (circumstances : Circumstances) (db : Database Vec) (text : String) : Option Vec :=
  if circumstances.cacheAnswers text then (db.cache.find? fun entry => entry.1 = text).map Prod.snd else none

/-- The rows that an update of vectors reaches, each with its vector. -/
def persisted (db : Database Vec) (entries : List (WorkRow × Vec)) : List (FragmentId × Vec) :=
  db.store.fragments.rows.filterMap fun f =>
    if (db.embedding f.id).isNone then
      (entries.find? fun entry => entry.1.id = f.id && entry.1.content = f.content).map fun entry => (f.id, entry.2)
    else none

/-- `UPDATE … SET embedding … WHERE id AND content AND embedding IS NULL RETURNING id`, with its events. -/
def persist (db : Database Vec) (run : ℕ) (entries : List (WorkRow × Vec)) : Database Vec :=
  let written := persisted db entries
  { db with
    embedding := fun id => ((written.find? fun entry => entry.1 = id).map Prod.snd).or (db.embedding id)
    events := db.events ++ written.map fun entry => (run, entry.1) }

variable (config : Config)

/-- The transaction of an amendment: with the content goes the vector. -/
def amendRow (circumstances : Circumstances) (db : Database Vec) (id : FragmentId) (updates : FragmentUpdates)
    (keyId : Option KeyId) : Database Vec :=
  match update config.digests config.countTokens circumstances.now db.store id updates keyId with
  | (next, .updated _) =>
    { db with
      store := next
      embedding := fun other => if other = id && updates.content.isSome then none else db.embedding other }
  | _ => db

/-- The next attempt for a row, or the dead letter. -/
def retry (row : WorkRow) (attempt : ℕ) (later : List Task) : List Task :=
  if attempt < config.retryLimit then .one row (attempt + 1) :: later else later

/-- The vectors that the service gives for a task. -/
def serviceVectors : Task → Option (List Vec)
  | .chunk rows => some (generateBatchEmbeddings service (rows.map fun row => config.cacheKeyText row.content))
  | .one row _ => (generateEmbedding service (config.cacheKeyText row.content)).map fun vec => [vec]

/-- What is left when the service gives no vectors. -/
def afterRefusal (task : Task) (refused : Option ℕ) (later : List Task) : List Task :=
  match task, refused with
  | .chunk rows, some index =>
    let remaining := rows.eraseIdx index
    if remaining.isEmpty then later else .chunk remaining :: later
  | .chunk rows, none => rows.map (fun row => .one row 1) ++ later
  | .one row attempt, _ => retry config row attempt later

/-- The next statement or call of a run. -/
def workerStep (circumstances : Circumstances) (db : Database Vec) (run : ℕ) : Stage Vec → Database Vec × Process Vec
  | .selecting source =>
    if circumstances.fails then (db, .finished)
    else (db, .worker run (.working (embedMany (select db source))))
  | .working [] => (db, .finished)
  | .working (task :: later) =>
    match task.rows.mapM fun row => cached circumstances db (config.cacheKeyText row.content) with
    | some vecs => (db, .worker run (.writing task vecs later))
    | none => (db, .worker run (.calling task later))
  | .calling task later =>
    match circumstances.reply, serviceVectors service config task with
    | .vectors, some vecs =>
      let texts := task.rows.map fun row => config.cacheKeyText row.content
      ({ db with cache := texts.zip vecs ++ db.cache }, .worker run (.writing task vecs later))
    | .invalidInput index, _ => (db, .worker run (.working (afterRefusal config task (some index) later)))
    | _, _ => (db, .worker run (.working (afterRefusal config task none later)))
  | .writing task vecs later =>
    if circumstances.fails then
      match task with
      | .chunk _ => (db, .finished)
      | .one row attempt => (db, .worker run (.working (retry config row attempt later)))
    else (persist db run (task.rows.zip vecs), .worker run (.working later))

def advance (circumstances : Circumstances) (db : Database Vec) : Process Vec → Database Vec × Process Vec
  | .amending id updates keyId =>
    (if circumstances.fails then db else amendRow config circumstances db id updates keyId, .finished)
  | .searching text =>
    match generateEmbedding service text with
    | some vec => ({ db with cache := (text, vec) :: db.cache }, .finished)
    | none => (db, .finished)
  | .worker run stage => workerStep service config circumstances db run stage
  | .finished => (db, .finished)

abbrev Processes (Vec : Type) := Pool (Database Vec) (Process Vec)

def embeddingStep (pool : Processes Vec) (event : ℕ × Circumstances) : Processes Vec :=
  pool.step (advance service config) event

/-- What is started: an amendment, a search or a run of the worker. -/
inductive Start
  | amend (id : FragmentId) (updates : FragmentUpdates) (keyId : Option KeyId)
  | search (text : String)
  | run (source : Source)

/-- The processes before their first steps; a run is numbered by its place. -/
def starting (db : Database Vec) (starts : List Start) : Processes Vec where
  shared := db
  threads := starts.mapIdx fun i start =>
    match start with
    | .amend id updates keyId => .amending id updates keyId
    | .search text => .searching text
    | .run source => .worker i (.selecting source)

variable {service}

theorem flatten_batches (batchSize : ℕ) (hsize : 0 < batchSize) (texts : List String) :
    (batches batchSize texts).flatten = texts := by
  fun_induction batches batchSize texts with
  | case1 texts h =>
    rcases h with hempty | hzero
    · rw [hempty]
      rfl
    · omega
  | case2 texts h ih => rw [List.flatten_cons, ih, List.take_append_drop]

/-- The sorted response is the one in the order of the inputs. -/
theorem embedBatch_eq (batch : List String) : embedBatch service batch = batch.map service.embedding := by
  simp only [embedBatch]
  split
  · rfl
  · rw [SortedQueries.insertionSort_indexed (service.indexed batch)]
    refine List.ext_getElem (by simp) fun i _ _ => ?_
    simp only [List.getElem_map, List.getElem_mapIdx, EmbeddingService.embedding]

theorem generateBatchEmbeddings_eq (texts : List String) :
    generateBatchEmbeddings service texts = texts.map service.embedding := by
  have hbatches := flatten_batches 100 (by omega) texts
  have hmap : generateBatchEmbeddings service texts = (batches 100 texts).flatMap fun batch =>
    batch.map service.embedding :=
    List.flatMap_congr fun batch _ => embedBatch_eq batch
  rw [hmap]
  conv_rhs => rw [← hbatches]
  rw [List.map_flatten, List.flatMap_def]

theorem generateEmbedding_eq (text : String) : generateEmbedding service text = some (service.embedding text) := by
  simp only [generateEmbedding]
  split
  · rfl
  · have hone : service.respond [text] = [(0, service.model text)] := List.perm_singleton.mp (service.indexed [text])
    rw [hone]
    rfl

end FragmentMemory.EmbeddingWorker
