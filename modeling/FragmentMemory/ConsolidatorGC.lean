import FragmentMemory.FragmentGC
import Mathlib.Data.Rat.Floor

/-! # Splitting and purging

`ConsolidatorGC`: the purge of stale reflections and the split of long fragments, whose items a language
model supplies.
-/
namespace FragmentMemory.ConsolidatorGC
open ApiKeyStore FragmentTables FragmentFactory FragmentWriter LinkStore JsString FragmentGC

/-- `MEMORY_CONFIG.reflectionPolicy`. -/
structure ReflectionPolicy where
  maxAgeDays : ℕ := 30
  maxImportance : ℚ := 55 / 100
  keepPerType : ℕ := 5
  maxDeletePerCycle : ℕ := 30

/-- The rank of a reflection within its type, from one. -/
def reflectionRank (store : Store) (f : Fragment) : ℕ :=
  let peers := store.fragments.rows.filter fun g => g.topic = "session_reflect" && g.type = f.type
  ((peers.insertionSort (FragmentReader.byImportance · ·)).map Fragment.id).idxOf f.id + 1

/-- The reflections that a purge deletes. -/
def staleReflections (policy : ReflectionPolicy) (now : Time) (store : Store) : List Fragment :=
  (store.fragments.rows.filter fun f =>
    f.topic = "session_reflect" && policy.keepPerType < reflectionRank store f && f.importance < policy.maxImportance &&
      olderThan now policy.maxAgeDays f.createdAt && !f.isAnchor && f.ttlTier ≠ .permanent).take policy.maxDeletePerCycle

/-- `purgeStaleReflections`. -/
def purgeStaleReflections (policy : ReflectionPolicy) (now : Time) (store : Store) : Store :=
  let ids := (staleReflections policy now store).map Fragment.id
  store.deleteFragments fun f => ids.contains f.id

/-- `MEMORY_CONFIG.fragmentSplit`. -/
structure SplitPolicy where
  lengthThreshold : ℕ := 300
  batchSize : ℕ := 10
  minItems : ℕ := 2
  maxItems : ℕ := 8
  excludeMetaTopics : List String := ["session_reflect", "consolidation", "reflection"]

/-- What a split meets outside the tables: the items that the language model returns for a fragment,
none when it fails; the ids of the children; and the fragments that failed a short while ago. -/
structure SplitServices where
  cliAvailable : Bool := true
  items : FragmentId → Option (List String)
  newId : FragmentId → ℕ → FragmentId
  failedLately : FragmentId → Bool := fun _ => false
  now : Time

/-- `_querySplitCandidates`. -/
def splitCandidates (policy : SplitPolicy) (services : SplitServices) (store : Store) : List Fragment :=
  let found := store.fragments.rows.filter fun f =>
    policy.lengthThreshold < f.content.toList.length && f.live && !f.isAnchor && !splitSource f &&
      !services.failedLately f.id && !policy.excludeMetaTopics.contains f.topic
  (found.insertionSort fun f g => g.content.toList.length ≤ f.content.toList.length).take policy.batchSize

/-- `PRONOUN_PREFIXES`. -/
def pronounPrefixes : List String :=
  ["이 ", "그 ", "저 ", "해당 ", "이로 인해", "그로 인해", "이것", "그것", "위 ", "아래 "]

def isHangul (c : Char) : Bool := 0xAC00 ≤ c.toNat && c.toNat ≤ 0xD7A3

def isHanOrKana (c : Char) : Bool :=
  (0x3040 ≤ c.toNat && c.toNat ≤ 0x30FF) || (0x4E00 ≤ c.toNat && c.toNat ≤ 0x9FFF)

/-- `isAcceptableSplitChild`. -/
def isAcceptableSplitChild (text : String) : Bool :=
  let trimmed := trim text
  20 ≤ utf16Length trimmed && !trimmed.toList.any (fun c => c.toNat = 0xFFFD) &&
    !(trimmed.toList.any isHangul && trimmed.toList.any isHanOrKana) &&
    !pronounPrefixes.any (startsWith trimmed)

/-- `clampChildImportance`. -/
def clampChildImportance (parentImportance : ℚ) (childType : FragmentType) : Option ℚ :=
  let capped : ℚ := ⌊parentImportance * (7 / 10) * 100 + 1 / 2⌋ / 100
  if childType = .fact && capped < 4 / 10 then none else some capped

/-- `_gateSplitChildren`. -/
def gateSplitChildren (policy : SplitPolicy) (items : List String) (f : Fragment) : List (String × ℚ) :=
  ((items.take policy.maxItems).map trim).filterMap fun text =>
    if isAcceptableSplitChild text then
      (clampChildImportance f.importance f.type).map fun importance => (text, importance)
    else none

variable (digests : Digests)

/-- The fragment of a child, as `_commitSplit` hands it to the writer. -/
def splitChild (services : SplitServices) (parent : Fragment) (position : ℕ) (child : String × ℚ) : Fragment where
  id := services.newId parent.id position
  content := child.1
  topic := parent.topic
  type := parent.type
  importance := child.2
  contentHash := ""
  source := some ("split:" ++ parent.id)
  ttlTier := .warm
  agentId := (truthy (some parent.agentId)).getD "default"
  estimatedTokens := (utf16Length child.1 + 3) / 4
  keyId := parent.keyId
  createdAt := services.now

/-- The insert of a child, with the ids that the inserts have reported so far; one that throws ends them. -/
def insertChild (services : SplitServices) (parent : Fragment) (state : Store × Option (List FragmentId))
    (child : (String × ℚ) × ℕ) : Store × Option (List FragmentId) :=
  match state.2 with
  | none => state
  | some ids =>
    match insert digests services.now state.1 (splitChild services parent child.2 child.1) with
    | none => (state.1, none)
    | some (next, id) => (next, some (ids ++ [id]))

/-- The inserts of the children. -/
def insertChildren (services : SplitServices) (parent : Fragment) (store : Store) (accepted : List (String × ℚ)) :
    Store × Option (List FragmentId) :=
  accepted.zipIdx.foldl (insertChild digests services parent) (store, some [])

/-- The end of a split parent. -/
def retireParent (now : Time) : ColumnUpdate where
  set f := { f with
    validTo := some now
    importance := max (2 / 10) (f.importance * (3 / 10))
    ttlTier := .cold }
  entries_set _ := rfl

/-- `_commitSplit`; with a database every insert reports an id. -/
def commitSplit (services : SplitServices) (store : Store) (parent : Fragment) (accepted : List (String × ℚ)) : Store :=
  match insertChildren digests services parent store accepted with
  | (inserted, none) => inserted
  | (inserted, some ids) =>
    let chained := (ids.zip (ids.drop 1)).foldl (fun current pair => tryLink current pair.1 pair.2 .related 1) inserted
    let linked := ids.foldl (fun current id => tryLink current id parent.id .partOf 1) chained
    linked.updateFragments (fun f => f.id = parent.id) (retireParent services.now)

/-- `_processFragmentSplit`. -/
def processFragmentSplit (policy : SplitPolicy) (services : SplitServices) (store : Store) (parent : Fragment) : Store :=
  match services.items parent.id with
  | none => store
  | some items =>
    let accepted := gateSplitChildren policy items parent
    if items.length < policy.minItems || accepted.length < policy.minItems then store
    else commitSplit digests services store parent accepted

/-- `splitLongFragments`. -/
def splitLongFragments (policy : SplitPolicy) (services : SplitServices) (store : Store) : Store :=
  if services.cliAvailable then
    (splitCandidates policy services store).foldl (processFragmentSplit digests policy services) store
  else store

end FragmentMemory.ConsolidatorGC
