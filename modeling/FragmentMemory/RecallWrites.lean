import FragmentMemory.AccessColumns
import FragmentMemory.GraphLinker

/-! # What a recall writes

A search counts the accesses of what it finds, touches the rows that were retrieved together with it and fills the hot
cache.  A recall in a session links the first rows of its page, and the context of a request spreads activation.
-/
namespace FragmentMemory.RecallWrites
open ApiKeyStore FragmentTables FragmentIndex RecallQueries FragmentSearch MemoryRecaller GraphLinker AccessColumns JsString
open MemoryRememberer (Caller Caller.groups Draws access touch)

/-- The surroundings of one call: a relative time range is parsed anew by each of them, the activation is computed from
the time since its last change, and the spread of a context may reach some rows. -/
structure RecallCall where
  context : RecallContext
  timeRange : Option TimeRange := none
  activation : Fragment → ℚ := fun _ => 0
  activated : List FragmentId := []

/-- `incrementAccess` with `noEma`. -/
def countAccess (now : Time) : ColumnUpdate where
  set f := { f with
    accessCount := f.accessCount + 1
    accessedAt := some now }
  entries_set _ := rfl

/-- The update of `drainQueue`. -/
def spreadActivation (now : Time) : ColumnUpdate where
  set f := { f with
    accessCount := f.accessCount + 1
    accessedAt := some now
    emaActivation := some (min 1 (f.emaActivation.getD 0 + 1 / 10)) }
  entries_set _ := rfl

/-- `touchLinked` for the keys of a search. -/
def touchLinked (now : Time) (store : Store) (ids : List FragmentId) (keyIds : Option (List KeyId)) : Store :=
  let linked := (store.links.rows.filter fun l => l.relationType = .coRetrieved).filterMap fun l =>
    if ids.contains l.fromId then some l.toId
    else if ids.contains l.toId then some l.fromId else none
  store.updateFragments (fun f => linked.contains f.id && !ids.contains f.id && keyCond keyIds f) (touch now)

/-- `_cacheFragments`; the namespace of a list of keys is refused. -/
def cacheFragments (ready : Bool) (store : Store) (ids : List FragmentId) (keyIds : Option (List KeyId)) : Store :=
  match keyIds with
  | none => ids.foldl (fun current id => cacheFragment ready current id none) store
  | some _ => store

variable (model : SearchModel)

/-- What a search writes about the rows that it has found. -/
def afterSearch (call : RecallCall) (store : Store) (q : SearchQuery) : Store :=
  let context := call.context.toSearchContext
  let ids := (search model context store q).found.map Hit.id
  let l1IsFallback := (searchL1 model.tools context.redisReady context.recency store q).2
  let counted := store.updateFragments (fun f => ids.contains f.id)
    (if l1IsFallback then countAccess call.context.now
      else access { now := call.context.now, newId := "", activation := call.activation })
  cacheFragments context.redisReady (touchLinked call.context.now counted ids q.keyIds) ids q.keyIds

/-- What a recall writes, with the links among the rows of its page. -/
def afterRecall (call : RecallCall) (store : Store) (caller : Caller) (params : RecallParams) : Store :=
  let searched := afterSearch model call store (searchQuery params caller call.context.now)
  let spread := searched.updateFragments (fun f => call.activated.contains f.id) (spreadActivation call.context.now)
  if !params.caseMode && (truthy params.sessionId).isSome then
    buildCoRetrievalLinks spread ((MemoryRecaller.recall model call.context store caller params).found.map Hit.id)
  else spread

/-! ## The access columns alone -/

/-- A row without its access columns. -/
def bare (f : Fragment) : Fragment := { f with accessCount := 0, accessedAt := none, emaActivation := none }

/-- The rows are the same but for their access columns, and so are the sets of the index but for the hot cache. -/
structure SameBare (before after : Store) : Prop where
  rows : after.fragments.rows.map bare = before.fragments.rows.map bare
  sets : ∀ key, (∀ space, key ≠ .hot space) → members after key = members before key

theorem SameBare.refl (store : Store) : SameBare store store := ⟨rfl, fun _ _ => rfl⟩

theorem SameBare.trans {first second third : Store} (h : SameBare first second) (h' : SameBare second third) :
    SameBare first third :=
  ⟨h'.rows.trans h.rows, fun key hkey => (h'.sets key hkey).trans (h.sets key hkey)⟩

theorem sameBare_updateFragments (store : Store) (cond : Fragment → Bool) {change : ColumnUpdate}
    (hchange : ∀ f, bare (change.set f) = bare f) : SameBare store (store.updateFragments cond change) :=
  ⟨map_updateFragments store bare hchange, fun _ _ => rfl⟩

theorem sameBare_cacheFragment (ready : Bool) (store : Store) (id : FragmentId) (keyId : Option KeyId) :
    SameBare store (cacheFragment ready store id keyId) := by
  refine ⟨by rw [cacheFragment_fragments], fun key hkey => ?_⟩
  simp only [cacheFragment]
  split
  · have hother : (((([IndexSet.hot keyId].filter fun set => !store.index.contains (set, id)).dedup.map fun set =>
        (set, id)).filter fun member => member.1 = key)) = [] := by
      refine List.filter_eq_nil_iff.mpr fun member hmember => ?_
      obtain ⟨set, hset, rfl⟩ := List.mem_map.mp hmember
      have hhot := List.mem_singleton.mp (List.mem_filter.mp (List.mem_dedup.mp hset)).1
      simp only [decide_eq_true_eq, hhot]
      exact fun heq => hkey keyId heq.symm
    simp only [members, addAll, List.filter_append, hother, List.append_nil]
  · rfl

/-- A link between two rows leaves the rows and the index alone. -/
theorem coRetrieve_keeps (store : Store) (ends : FragmentId × FragmentId) :
    (coRetrieve store ends).fragments = store.fragments ∧ (coRetrieve store ends).index = store.index := by
  simp only [coRetrieve]
  split
  · rcases store.links.upsert ends { fromId := ends.1, toId := ends.2, relationType := .coRetrieved }
      (fun l => { l with weight := l.weight + 1 }) fun _ => rfl with _ | links
    · exact ⟨rfl, rfl⟩
    · exact ⟨rfl, rfl⟩
  · exact ⟨rfl, rfl⟩

theorem buildCoRetrievalLinks_keeps (store : Store) (ids : List FragmentId) :
    (buildCoRetrievalLinks store ids).fragments = store.fragments ∧
    (buildCoRetrievalLinks store ids).index = store.index := by
  rw [buildCoRetrievalLinks]
  induction orderedPairs (ids.take 5) generalizing store with
  | nil => exact ⟨rfl, rfl⟩
  | cons ends later ih =>
    obtain ⟨hfragments, hindex⟩ := coRetrieve_keeps store ends
    obtain ⟨hlater, hlater'⟩ := ih (coRetrieve store ends)
    exact ⟨hlater.trans hfragments, hlater'.trans hindex⟩

theorem SameBare.foldl {α : Type*} {items : List α} {op : Store → α → Store}
    (hop : ∀ current item, SameBare current (op current item))
    (store : Store) : SameBare store (items.foldl op store) := by
  induction items generalizing store with
  | nil => exact SameBare.refl store
  | cons item later ih => exact (hop store item).trans (ih _)

theorem sameBare_afterSearch (call : RecallCall) (store : Store) (q : SearchQuery) :
    SameBare store (afterSearch model call store q) := by
  have hcounted : ∀ cond : Fragment → Bool, ∀ fallback : Bool, SameBare store (store.updateFragments cond
      (if fallback then countAccess call.context.now
        else access { now := call.context.now, newId := "", activation := call.activation })) := by
    intro cond fallback
    cases fallback <;> exact sameBare_updateFragments store cond fun _ => rfl
  have hcached : ∀ (current : Store) (ready : Bool) (ids : List FragmentId) (keyIds : Option (List KeyId)),
      SameBare current (cacheFragments ready current ids keyIds) := by
    intro current ready ids keyIds
    cases keyIds with
    | none => exact SameBare.foldl (fun middle id => sameBare_cacheFragment ready middle id none) current
    | some _ => exact SameBare.refl current
  simp only [afterSearch]
  exact ((hcounted _ _).trans (sameBare_updateFragments _ _ fun _ => rfl)).trans (hcached _ _ _ _)

/-- A recall writes access columns, the hot cache and links. -/
theorem sameBare_afterRecall (call : RecallCall) (store : Store) (caller : Caller) (params : RecallParams) :
    SameBare store (afterRecall model call store caller params) := by
  have hspread :
    SameBare store ((afterSearch model call store (searchQuery params caller call.context.now)).updateFragments
      (fun f => call.activated.contains f.id) (spreadActivation call.context.now)) :=
    (sameBare_afterSearch model call store _).trans (sameBare_updateFragments _ _ fun _ => rfl)
  simp only [afterRecall]
  split
  · obtain ⟨hfragments, hindex⟩ := buildCoRetrievalLinks_keeps ((afterSearch model call store
      (searchQuery params caller call.context.now)).updateFragments (fun f => call.activated.contains f.id)
        (spreadActivation call.context.now)) ((MemoryRecaller.recall model call.context store caller params).found.map Hit.id)
    exact hspread.trans ⟨by rw [hfragments], fun key _ => by rw [members, hindex]; rfl⟩
  · exact hspread

/-- A row is the row that is bare alike with access columns of its own. -/
theorem eq_of_bare {f g : Fragment} (h : bare f = bare g) :
    f = { g with accessCount := f.accessCount, accessedAt := f.accessedAt, emaActivation := f.emaActivation } := by
  have hcolumns := congrArg (fun row => { row with
    accessCount := f.accessCount, accessedAt := f.accessedAt, emaActivation := f.emaActivation }) h
  exact hcolumns

/-- Such a store has the rows of the first one with access columns of its own. -/
theorem SameBare.accessed {first current : Store} (h : SameBare first current) : Accessed first current := by
  refine ⟨?_, h.sets⟩
  have hlength : current.fragments.rows.length = first.fragments.rows.length := by
    have hlengths := congrArg List.length h.rows
    simpa only [List.length_map] using hlengths
  refine List.ext_getElem (by rw [hlength, List.length_map]) fun i hi hi' => ?_
  rw [List.length_map] at hi'
  have hbare : bare current.fragments.rows[i] = bare first.fragments.rows[i] := by
    have hitem := congrArg (fun rows => rows[i]?) h.rows
    simpa only [List.getElem?_map, List.getElem?_eq_getElem hi, List.getElem?_eq_getElem hi', Option.map_some,
      Option.some.injEq] using hitem
  have hid : current.fragments.rows[i].id = first.fragments.rows[i].id := by
    have hids := congrArg Fragment.id hbare
    exact hids
  have hrow : current.fragments.byId first.fragments.rows[i].id = some current.fragments.rows[i] :=
    (byId_eq_some_iff _).mpr ⟨List.getElem_mem hi, hid⟩
  rw [List.getElem_map, refreshed, hrow]
  exact eq_of_bare hbare

end FragmentMemory.RecallWrites
