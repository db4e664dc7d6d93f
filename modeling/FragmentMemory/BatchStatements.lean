import FragmentMemory.BatchRememberProcessor
import FragmentMemory.GreedyChunks

/-! # The statements of a batch

`BatchRememberProcessor.process` statement by statement: the two quota checks, each of which reads
the store at its own time, the chunks of the multi-row `INSERT` and the bookkeeping by position.
When nothing happens between the checks, this is the batch as one transition.
-/
namespace FragmentMemory.BatchStatements
open ApiKeyStore FragmentTables FragmentFactory FragmentWriter FragmentIndex BatchRememberProcessor GreedyChunks

def maxRowsChunk : ℕ := 500

def maxBytesChunk : ℕ := 256 * 1024

def itemBytes (item : ℕ × Fragment) : ℕ := item.2.content.utf8ByteSize

def itemHash (item : ℕ × Fragment) : String := item.2.contentHash

/-- `currentChunk` with its `currentBytes` and `currentHashes`. -/
structure OpenChunk where
  chunk : List (ℕ × Fragment)
  bytes : ℕ
  hashes : List String
  bytes_eq : bytes = (chunk.map itemBytes).sum
  hashes_eq : hashes = chunk.map itemHash

def OpenChunk.empty : OpenChunk := ⟨[], 0, [], rfl, rfl⟩

def OpenChunk.push (current : OpenChunk) (item : ℕ × Fragment) : OpenChunk where
  chunk := current.chunk ++ [item]
  bytes := current.bytes + itemBytes item
  hashes := current.hashes ++ [itemHash item]
  bytes_eq := by rw [current.bytes_eq, List.map_append, List.sum_append, List.map_singleton, List.sum_singleton]
  hashes_eq := by rw [current.hashes_eq, List.map_append, List.map_singleton]

/-- Whether the item starts a new statement. -/
def OpenChunk.closes (current : OpenChunk) (item : ℕ × Fragment) : Bool :=
  let wouldExceedBytes := !current.chunk.isEmpty && maxBytesChunk < current.bytes + itemBytes item
  let wouldExceedRows := decide (maxRowsChunk ≤ current.chunk.length)
  let repeatsConflictTarget := current.hashes.contains (itemHash item)
  wouldExceedBytes || wouldExceedRows || repeatsConflictTarget

/-- The chunks of the valid fragments; the open chunk comes first. -/
def splitChunks : OpenChunk → List (ℕ × Fragment) → List (List (ℕ × Fragment))
  | current, [] => if current.chunk.isEmpty then [] else [current.chunk]
  | current, item :: later =>
    if current.closes item then current.chunk :: splitChunks (OpenChunk.empty.push item) later
    else splitChunks (current.push item) later

/-- `results[index] = …` for the items of a list one after another. -/
def amendResults {α : Type*} (position : α → ℕ) (amend : α → ItemResult → ItemResult) (items : List α)
    (results : List ItemResult) : List ItemResult :=
  items.foldl (fun current item => current.modify (position item) (amend item)) results

def refuse (r : ItemResult) : ItemResult :=
  { r with success := false, error := some "fragment_limit_exceeded", id := none }

/-- `_checkQuotaPhaseA` and `_checkQuotaPhaseB`: the fragments that remain and the results, or the
answer of a batch that is refused as a whole. -/
def checkQuota (remaining : Option ℕ) (totalCount : ℕ) (valid : List (ℕ × Fragment)) (results : List ItemResult) :
    Except BatchResult (List (ℕ × Fragment) × List ItemResult) :=
  match remaining with
  | none => .ok (valid, results)
  | some 0 => .error {
      results := amendResults Prod.fst (fun _ => refuse) valid results
      inserted := 0
      skipped := totalCount
      rejectedByQuota := some valid.length }
  | some slots =>
    if slots < valid.length then
      .ok (valid.take slots, amendResults Prod.fst (fun _ => refuse) (valid.drop slots) results)
    else .ok (valid, results)

variable (digests : Digests) (tools : TextTools) (context : BatchContext)

/-- The conflict target of a row. -/
def conflictTarget (item : ℕ × Fragment) : FragmentEntry := .contentHash item.2.keyId item.2.contentHash

/-- One multi-row `INSERT … RETURNING id`: the statement throws when it meets a conflict target
twice. -/
def insertChunk (store : Store) (chunk : List (ℕ × Fragment)) : Option (Store × List FragmentId) :=
  if (chunk.map conflictTarget).Nodup then
    (insertAll context store chunk).map fun done => (done.1, done.2.map fun item => item.2.2)
  else none

/-- `results[index].id = rows[i]?.id || fragment.id`. -/
def recordChunk (chunk : List (ℕ × Fragment)) (ids : List FragmentId) (results : List ItemResult) : List ItemResult :=
  amendResults (fun entry => entry.1.1) (fun entry r => { r with id := some (ids[entry.2]?.getD entry.1.2.id) })
    chunk.zipIdx results

/-- The statements of a transaction with `results` and `insertedCount`. -/
def insertChunks : Store → List ItemResult → ℕ → List (List (ℕ × Fragment)) → Option (Store × List ItemResult × ℕ)
  | store, results, insertedCount, [] => some (store, results, insertedCount)
  | store, results, insertedCount, chunk :: later =>
    match insertChunk context store chunk with
    | none => none
    | some (next, ids) =>
      insertChunks next (recordChunk chunk ids results) (insertedCount + chunk.length) later

/-- Phase C over the fragments that went through the transaction. -/
def indexReported (store : Store) (valid : List (ℕ × Fragment)) (results : List ItemResult) : Store :=
  valid.foldl (fun current item =>
    if results.any fun r => r.success && r.id = some item.2.id then
      index context.redisReady tools current item.2 none context.keyId
    else current) store

/-- The statements of phase B and what follows the commit. -/
def insertValid (store : Store) (totalCount : ℕ) (valid : List (ℕ × Fragment)) (results : List ItemResult) :
    Store × Except String BatchResult :=
  match insertChunks context store results 0 (splitChunks .empty valid) with
  | none => (store, .error "insert failed")
  | some (next, results, insertedCount) =>
    (indexReported tools context next valid results,
      .ok { results := results, inserted := insertedCount, skipped := totalCount - insertedCount })

/-- The synchronous path.  Phase A reads the limit and the count of the key as they are in `earlier`;
the transaction starts on `store`. -/
def processSync (earlierLimit : Option ℕ) (earlier store : Store) (items : List (Option BatchItem)) :
    Store × Except String BatchResult :=
  match argumentError items with
  | some reason => (store, .error reason)
  | none =>
    let results := items.zipIdx.map fun (item, position) =>
      itemResult position (prepareItem digests tools context position item)
    let valid := validFragments digests tools context items
    if valid = [] then (store, .ok { results := results, inserted := 0, skipped := items.length })
    else
      match checkQuota (remainingSlots { context with fragmentLimit := earlierLimit } earlier) items.length valid results with
      | .error refused => (store, .ok refused)
      | .ok (valid, results) =>
        match checkQuota (remainingSlots context store) items.length valid results with
        | .error refused => (store, .ok refused)
        | .ok (valid, results) => insertValid tools context store items.length valid results

/-- The splitting loop is the greedy one: bytes and hashes are those of the open chunk. -/
theorem splitChunks_eq (current : OpenChunk) (items : List (ℕ × Fragment)) :
    splitChunks current items = splitFrom (fun chunk item =>
      !chunk.isEmpty && maxBytesChunk < (chunk.map itemBytes).sum + itemBytes item ||
        maxRowsChunk ≤ chunk.length || (chunk.map itemHash).contains (itemHash item)) current.chunk items := by
  induction items generalizing current with
  | nil => rfl
  | cons item later ih =>
    simp only [splitChunks, splitFrom, OpenChunk.closes, ← current.bytes_eq, ← current.hashes_eq, ih]
    rfl

theorem flatten_splitChunks (items : List (ℕ × Fragment)) : (splitChunks .empty items).flatten = items := by
  rw [splitChunks_eq, flatten_splitFrom]
  rfl

/-- The limits of a statement. -/
structure WithinLimits (chunk : List (ℕ × Fragment)) : Prop where
  hashes : (chunk.map itemHash).Nodup
  rows : chunk.length ≤ maxRowsChunk
  bytes : (chunk.map itemBytes).sum ≤ maxBytesChunk ∨ chunk.length = 1

theorem withinLimits_splitChunks (items : List (ℕ × Fragment)) :
    ∀ chunk ∈ splitChunks .empty items, chunk ≠ [] ∧ WithinLimits chunk := by
  rw [splitChunks_eq]
  apply forall_splitFrom
  · intro item
    rfl
  · intro item
    have hbound : 1 ≤ maxRowsChunk := by decide
    exact ⟨List.cons_ne_nil _ _, List.nodup_singleton _, hbound, Or.inr rfl⟩
  · rintro chunk item ⟨hfilled, hwithin⟩ hcloses
    simp only [Bool.or_eq_false_iff, Bool.and_eq_false_iff, decide_eq_false_iff_not, not_le, not_lt] at hcloses
    obtain ⟨⟨hbytes, hrows⟩, hrepeat⟩ := hcloses
    refine ⟨by simp, ?_, ?_, Or.inl ?_⟩
    · rw [List.map_append, List.map_singleton, ← List.concat_eq_append, List.nodup_concat]
      refine ⟨fun hmem => ?_, hwithin.hashes⟩
      rw [List.contains_iff_mem.mpr hmem] at hrepeat
      cases hrepeat
    · rw [List.length_append, List.length_singleton]
      exact hrows
    · rw [List.map_append, List.sum_append, List.map_singleton, List.sum_singleton]
      rcases hbytes with hempty | hbytes
      · rw [Bool.not_eq_false', List.isEmpty_iff] at hempty
        exact absurd hempty hfilled
      · exact hbytes
  · intro hempty
    exact absurd rfl hempty

end FragmentMemory.BatchStatements
