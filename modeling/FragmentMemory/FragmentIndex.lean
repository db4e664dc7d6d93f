import FragmentMemory.FragmentFactory

/-! # The Redis inverted index

`FragmentIndex.index`, `deindex` and `cacheFragment` on the sets of a key namespace.
-/
namespace FragmentMemory.FragmentIndex
open ApiKeyStore FragmentTables FragmentFactory

/-- `SADD` of one id to several sets. -/
def addAll (index : RedisIndex) (sets : List IndexSet) (id : FragmentId) : RedisIndex :=
  index ++ (sets.filter fun key => !index.contains (key, id)).dedup.map fun key => (key, id)

/-- `SREM` of one id from several sets. -/
def removeAll (index : RedisIndex) (sets : List IndexSet) (id : FragmentId) : RedisIndex :=
  index.filter fun member => !(member.2 = id && sets.contains member.1)

/-- The words under which a fragment is registered: its keywords and the terms of its content. -/
def indexWords (tools : TextTools) (f : Fragment) : List String :=
  let explicit := f.keywords.map tools.toLowerCase
  let terms := if f.content = "" then [] else tools.extractKeywords f.content 8
  explicit ++ terms.filter fun term => !explicit.contains term

def indexSets (tools : TextTools) (f : Fragment) (sessionId : Option String) (keyId : Option KeyId) :
    List IndexSet :=
  (indexWords tools f).map (IndexSet.keyword keyId) ++
    [.topic keyId f.topic, .type keyId f.type, .recent keyId] ++
    (JsString.truthy sessionId).toList.map IndexSet.session

/-- `index`: a no-op while Redis is not ready. -/
def index (ready : Bool) (tools : TextTools) (store : Store) (f : Fragment) (sessionId : Option String)
    (keyId : Option KeyId) : Store :=
  if ready then { store with index := addAll store.index (indexSets tools f sessionId keyId) f.id }
  else store

/-- The sets from which `deindex` removes a fragment; an empty topic is none. -/
def deindexSets (tools : TextTools) (f : Fragment) (keyId : Option KeyId) : List IndexSet :=
  f.keywords.map (fun word => IndexSet.keyword keyId (tools.toLowerCase word)) ++
    (JsString.truthy (some f.topic)).toList.map (IndexSet.topic keyId) ++ [.type keyId f.type, .recent keyId, .hot keyId]

/-- `deindex` removes the stored keywords only: terms of the content stay registered. -/
def deindex (ready : Bool) (tools : TextTools) (store : Store) (f : Fragment) (keyId : Option KeyId) :
    Store :=
  if ready then { store with index := removeAll store.index (deindexSets tools f keyId) f.id }
  else store

def cacheFragment (ready : Bool) (store : Store) (id : FragmentId) (keyId : Option KeyId) : Store :=
  if ready then { store with index := addAll store.index [.hot keyId] id } else store

@[simp] theorem index_fragments {ready : Bool} {tools : TextTools} {store : Store} {f : Fragment}
    {sessionId : Option String} {keyId : Option KeyId} :
    (index ready tools store f sessionId keyId).fragments = store.fragments := by
  cases ready <;> rfl

@[simp] theorem index_links {ready : Bool} {tools : TextTools} {store : Store} {f : Fragment}
    {sessionId : Option String} {keyId : Option KeyId} :
    (index ready tools store f sessionId keyId).links = store.links := by
  cases ready <;> rfl

@[simp] theorem deindex_fragments {ready : Bool} {tools : TextTools} {store : Store} {f : Fragment}
    {keyId : Option KeyId} : (deindex ready tools store f keyId).fragments = store.fragments := by
  cases ready <;> rfl

@[simp] theorem deindex_links {ready : Bool} {tools : TextTools} {store : Store} {f : Fragment}
    {keyId : Option KeyId} : (deindex ready tools store f keyId).links = store.links := by
  cases ready <;> rfl

@[simp] theorem cacheFragment_fragments {ready : Bool} {store : Store} {id : FragmentId}
    {keyId : Option KeyId} : (cacheFragment ready store id keyId).fragments = store.fragments := by
  cases ready <;> rfl

@[simp] theorem cacheFragment_links {ready : Bool} {store : Store} {id : FragmentId}
    {keyId : Option KeyId} : (cacheFragment ready store id keyId).links = store.links := by
  cases ready <;> rfl

theorem mem_addAll {index : RedisIndex} {sets : List IndexSet} {id : FragmentId} {set : IndexSet} :
    (set, id) ∈ addAll index sets id ↔ (set, id) ∈ index ∨ set ∈ sets := by
  simp only [addAll, List.mem_append, List.mem_map, List.mem_dedup, List.mem_filter, Prod.mk.injEq, and_true,
    exists_eq_right, Bool.not_eq_true', List.contains_eq_mem, decide_eq_false_iff_not]
  by_cases hmem : (set, id) ∈ index
  · simp [hmem]
  · simp [hmem]

/-- Members of other fragments are neither added nor removed. -/
theorem mem_addAll_of_ne {index : RedisIndex} {sets : List IndexSet} {id : FragmentId}
    {member : IndexSet × FragmentId} (h : member.2 ≠ id) : member ∈ addAll index sets id ↔ member ∈ index := by
  simp only [addAll, List.mem_append, List.mem_map]
  constructor
  · rintro (hold | ⟨key, -, rfl⟩)
    · exact hold
    · exact absurd rfl h
  · exact Or.inl

theorem mem_removeAll_of_ne {index : RedisIndex} {sets : List IndexSet} {id : FragmentId}
    {member : IndexSet × FragmentId} (h : member.2 ≠ id) :
    member ∈ removeAll index sets id ↔ member ∈ index := by
  simp [removeAll, h]

end FragmentMemory.FragmentIndex
