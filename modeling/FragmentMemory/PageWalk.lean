import FragmentMemory.AccessedRanking
import FragmentMemory.RecallWrites

/-! # The pages of a recall

A client follows `nextCursor` until there is no more.  Each page is a recall of its own: it searches and ranks anew what
the calls before it have left, and cuts its page out of that.  The cursor holds an offset and the time of the ranking.
-/
namespace FragmentMemory.PageWalk
open ApiKeyStore FragmentTables RecallQueries FragmentSearch MemoryRecaller RecallScope DistinctHits AccessColumns AccessedRanking
  RecallWrites TransitionRuns JsString
open MemoryRememberer (Caller Caller.groups)

def pageSize (params : RecallParams) : ℕ := min ((positive params.pageSize).getD 20) 50

/-- The request of a page, with the time range that it is parsed to at the call. -/
def request (params : RecallParams) (cursor : Option (ℕ × Time)) (call : RecallCall) : RecallParams :=
  { params with timeRange := call.timeRange, cursor := cursor }

/-- The cursor that the answer to a request carries; a request in case mode gets none. -/
def nextCursor (call : RecallCall) (params : RecallParams) (result : RecallResult) : Option (ℕ × Time) :=
  if !params.caseMode && result.hasMore then
    some ((params.cursor.map Prod.fst).getD 0 + pageSize params,
      (params.cursor.map Prod.snd).getD (params.anchorTime.getD call.context.now))
  else none

structure Walk where
  store : Store
  cursor : Option (ℕ × Time) := none
  pages : List RecallResult := []
  ended : Bool := false

/-- What the pages so far have returned. -/
def Walk.returned (walk : Walk) : List FragmentId := walk.pages.flatMap fun page => page.found.map Hit.id

variable (model : SearchModel) (caller : Caller) (params : RecallParams)

/-- One page, unless the last one has ended the walk. -/
def nextPage (walk : Walk) (call : RecallCall) : Walk :=
  if walk.ended then walk
  else
    let query := request params walk.cursor call
    let result := MemoryRecaller.recall model call.context walk.store caller query
    let cursor := nextCursor call query result
    { store := afterRecall model call walk.store caller query
      cursor := cursor
      pages := walk.pages ++ [result]
      ended := cursor.isNone }

/-- The walk of a first call and later ones. -/
def walkOf (store : Store) (first : RecallCall) (later : List RecallCall) : Walk :=
  run (nextPage model caller params) { store := store } (first :: later)

/-- The ranked, filtered and budgeted list that the first call computes. -/
def listOf (store : Store) (first : RecallCall) : List Hit :=
  (recallRows model first.context store caller (request params none first)).1

/-- The pages are the list of the first call in its order, cut into pieces. -/
structure PagesPartition (store : Store) (first : RecallCall) (later : List RecallCall) : Prop where
  initial : (walkOf model caller params store first later).returned <+: (listOf model caller params store first).map Hit.id
  once : (walkOf model caller params store first later).returned.Nodup
  complete : (walkOf model caller params store first later).ended = true →
    (walkOf model caller params store first later).returned = (listOf model caller params store first).map Hit.id
  counted : ∀ page ∈ (walkOf model caller params store first later).pages,
    page.totalCount = (listOf model caller params store first).length
  ends : (listOf model caller params store first).length ≤ later.length →
    (walkOf model caller params store first later).ended = true

/-- The query of the first call. -/
def firstQuery (first : RecallCall) : SearchQuery := searchQuery (request params none first) caller first.context.now

/-- A later call meets what its search reads as the first call has met it: the time range, the surroundings, the scores of
the rows, the order and the hot cache of what the first layer names, and the links where they are read. -/
structure Undisturbed (store : Store) (first : RecallCall) (walk : Walk) (call : RecallCall) : Prop where
  range : call.timeRange = first.timeRange
  surroundings : call.context.toSearchContext = first.context.toSearchContext
  seen : call.context.seenIds = first.context.seenIds
  scores : seenIn model walk.store = seenIn model store
  layer : SameFirstLayer (firstLayer model first.context.toSearchContext store (firstQuery caller params first)) caller.groups
    store walk.store
  links : ReadsLinks model (firstQuery caller params first) params → walk.store.links = store.links

/-- The request asks for fragments, and its later pages are undisturbed. -/
def Steady (store : Store) (first : RecallCall) (walk : Walk) (call : RecallCall) : Prop :=
  params.caseMode = false ∧ (walk.cursor.isSome = true → Undisturbed model caller params store first walk call)

variable {model caller params}

theorem pageSize_pos : 0 < pageSize params := by
  have hgiven : 0 < (positive params.pageSize).getD 20 := by
    rcases hsize : positive params.pageSize with _ | size
    · exact Nat.succ_pos 19
    · exact Nat.pos_of_ne_zero (of_decide_eq_true (Option.filter_eq_some_iff.mp hsize).2)
  exact Nat.lt_min.mpr ⟨hgiven, Nat.succ_pos 49⟩

/-- The query of a later page is that of the first one, as its cursor holds the time of the ranking. -/
theorem searchQuery_later {first call : RecallCall} (hrange : call.timeRange = first.timeRange) (offset : ℕ) :
    searchQuery (request params (some (offset, (firstQuery caller params first).anchorTime)) call) caller call.context.now =
      firstQuery caller params first := by
  simp only [firstQuery, searchQuery, request, hrange]
  rfl

/-- An undisturbed page is cut from the list of the first call. -/
theorem ids_later {store : Store} {first call : RecallCall} {walk : Walk} (hbare : SameBare store walk.store)
    (h : Undisturbed model caller params store first walk call) (offset : ℕ) :
    (recallRows model call.context walk.store caller
        (request params (some (offset, (firstQuery caller params first).anchorTime)) call)).1.map Hit.id =
      (listOf model caller params store first).map Hit.id := by
  have hquery := @searchQuery_later caller params first call h.range offset
  have hrows : (recallRows model call.context walk.store caller
      (request params (some (offset, (firstQuery caller params first).anchorTime)) call)).1 =
        (recallRows model first.context walk.store caller (request params none first)).1 := by
    have hselect : ∀ found, selectFinal call.context
        (request params (some (offset, (firstQuery caller params first).anchorTime)) call) found =
          selectFinal first.context (request params none first) found := by
      intro found
      simp only [selectFinal, h.seen]
      rfl
    simp only [recallRows, hquery, h.surroundings, hselect]
    rfl
  rw [hrows, listOf]
  exact ids_recallRows hbare.accessed h.layer h.links h.scores

/-- Where a walk stands after its first page: it has returned the pages up to its offset, and has ended at the end of the
list alone. -/
structure Paging (model : SearchModel) (caller : Caller) (params : RecallParams) (store : Store) (first : RecallCall)
    (walk : Walk) : Prop where
  bare : SameBare store walk.store
  returned : walk.returned =
    ((listOf model caller params store first).map Hit.id).take (walk.pages.length * pageSize params)
  counted : ∀ page ∈ walk.pages, page.totalCount = (listOf model caller params store first).length
  more : walk.ended = false → walk.pages.length * pageSize params < (listOf model caller params store first).length ∧
    walk.cursor = some (walk.pages.length * pageSize params, (firstQuery caller params first).anchorTime)
  done : walk.ended = true →
    (listOf model caller params store first).length ≤ walk.pages.length * pageSize params ∧ walk.cursor = none

theorem nextPage_open {walk : Walk} (hopen : walk.ended = false) (call : RecallCall) :
    nextPage model caller params walk call =
      { store := afterRecall model call walk.store caller (request params walk.cursor call)
        cursor := nextCursor call (request params walk.cursor call)
          (MemoryRecaller.recall model call.context walk.store caller (request params walk.cursor call))
        pages :=
          walk.pages ++ [MemoryRecaller.recall model call.context walk.store caller (request params walk.cursor call)]
        ended := (nextCursor call (request params walk.cursor call)
          (MemoryRecaller.recall model call.context walk.store caller (request params walk.cursor call))).isNone } := by
  rw [nextPage, if_neg (by rw [hopen]; exact Bool.false_ne_true)]

theorem count_page (pages : List RecallResult) (page : RecallResult) :
    (pages ++ [page]).length * pageSize params = pages.length * pageSize params + pageSize params := by
  rw [List.length_append, List.length_singleton, Nat.add_mul, Nat.one_mul]

/-- One more page of a list with the ids of the first one. -/
theorem paging_next {store : Store} {first call : RecallCall} {walk : Walk} (hcase : params.caseMode = false)
    (hopen : walk.ended = false) (hbare : SameBare store walk.store)
    (hreturned : walk.returned =
      ((listOf model caller params store first).map Hit.id).take (walk.pages.length * pageSize params))
    (hcounted : ∀ page ∈ walk.pages, page.totalCount = (listOf model caller params store first).length)
    (hoffset : (walk.cursor.map Prod.fst).getD 0 = walk.pages.length * pageSize params)
    (hanchor : (walk.cursor.map Prod.snd).getD (params.anchorTime.getD call.context.now) =
      (firstQuery caller params first).anchorTime)
    (hids : (recallRows model call.context walk.store caller (request params walk.cursor call)).1.map Hit.id =
      (listOf model caller params store first).map Hit.id) :
    Paging model caller params store first (nextPage model caller params walk call) := by
  set result :=
    MemoryRecaller.recall model call.context walk.store caller (request params walk.cursor call) with hresult
  have hlength : (recallRows model call.context walk.store caller (request params walk.cursor call)).1.length =
      (listOf model caller params store first).length := by
    have hlengths := congrArg List.length hids
    simpa only [List.length_map] using hlengths
  have hpage : result.found.map Hit.id = (((listOf model caller params store first).map Hit.id).drop
      (walk.pages.length * pageSize params)).take (pageSize params) := by
    rw [← hids, ← hoffset, ← List.map_drop, ← List.map_take]
    rfl
  have htotal : result.totalCount = (listOf model caller params store first).length := hlength
  have hmore : result.hasMore = decide (walk.pages.length * pageSize params + pageSize params <
      (listOf model caller params store first).length) := by
    rw [← hlength, ← hoffset]
    rfl
  have hcursor : nextCursor call (request params walk.cursor call) result =
      if walk.pages.length * pageSize params + pageSize params < (listOf model caller params store first).length then
        some (walk.pages.length * pageSize params + pageSize params, (firstQuery caller params first).anchorTime)
      else none := by
    have hfragments : (request params walk.cursor call).caseMode = false := hcase
    rw [nextCursor, hfragments, hmore]
    simp only [Bool.not_false, Bool.true_and, decide_eq_true_eq, request, hoffset, hanchor]
    rfl
  rw [nextPage_open hopen, ← hresult, hcursor]
  refine ⟨hbare.trans (sameBare_afterRecall model call _ caller _), ?_, ?_, ?_, ?_⟩
  · simp only [Walk.returned, List.flatMap_append, List.flatMap_singleton, count_page, hpage]
    rw [List.take_add, ← hreturned]
    rfl
  · intro page hpage
    rcases List.mem_append.mp hpage with hold | hnew
    · exact hcounted page hold
    · rw [List.mem_singleton.mp hnew]
      exact htotal
  · intro hended
    simp only [count_page]
    split at hended
    · rename_i hlt
      rw [if_pos hlt]
      exact ⟨hlt, rfl⟩
    · cases hended
  · intro hended
    simp only [count_page]
    split at hended
    · cases hended
    · rename_i hlt
      rw [if_neg hlt]
      exact ⟨Nat.not_lt.mp hlt, rfl⟩

theorem paging_first {store : Store} {first : RecallCall} (hcase : params.caseMode = false) :
    Paging model caller params store first (nextPage model caller params { store := store } first) := by
  refine paging_next hcase rfl (SameBare.refl store) ?_ (fun page hpage => absurd hpage List.not_mem_nil) ?_ rfl rfl
  · simp only [List.length_nil, Nat.zero_mul, List.take_zero]
    rfl
  · exact (Nat.zero_mul _).symm

theorem paging_step {store : Store} {first : RecallCall} (walk : Walk) (call : RecallCall)
    (h : Paging model caller params store first walk) (hsteady : Steady model caller params store first walk call) :
    Paging model caller params store first (nextPage model caller params walk call) := by
  rcases hended : walk.ended with _ | _
  · obtain ⟨-, hcursor⟩ := h.more hended
    have hundisturbed := hsteady.2 (by rw [hcursor]; rfl)
    refine paging_next hsteady.1 hended h.bare h.returned h.counted ?_ ?_ ?_
    · rw [hcursor]
      rfl
    · rw [hcursor]
      rfl
    · rw [hcursor]
      exact ids_later h.bare hundisturbed _
  · rw [nextPage, if_pos hended]
    exact h

/-- A walk that has not ended has taken a page at every call. -/
theorem pages_of_open {walk : Walk} {calls : List RecallCall}
    (hopen : (run (nextPage model caller params) walk calls).ended = false) :
    (run (nextPage model caller params) walk calls).pages.length = walk.pages.length + calls.length := by
  have hstays : ∀ (later : List RecallCall) (stopped : Walk), stopped.ended = true →
      run (nextPage model caller params) stopped later = stopped := by
    intro later
    induction later with
    | nil => exact fun _ _ => rfl
    | cons call later ih =>
      intro stopped hstopped
      rw [run_cons, nextPage, if_pos hstopped]
      exact ih stopped hstopped
  induction calls generalizing walk with
  | nil => rfl
  | cons call later ih =>
    rcases hended : walk.ended with _ | _
    · have hone : (nextPage model caller params walk call).pages.length = walk.pages.length + 1 := by
        rw [nextPage_open hended, List.length_append, List.length_singleton]
      rw [run_cons] at hopen ⊢
      rw [ih hopen, hone, List.length_cons]
      omega
    · rw [hstays (call :: later) walk hended, hended] at hopen
      cases hopen

theorem paging_walk {store : Store} {first : RecallCall} {later : List RecallCall}
    (h : StepsMeet (nextPage model caller params) (Steady model caller params store first) { store := store }
      (first :: later)) : Paging model caller params store first (walkOf model caller params store first later) :=
  invariant_run_of_meets paging_step (paging_first h.1.1) h.2

/-- The pages of a walk whose later calls are undisturbed. -/
theorem pages_partition (model : SearchModel) (caller : Caller) (params : RecallParams) (store : Store) (first : RecallCall)
    (later : List RecallCall)
    (h : StepsMeet (nextPage model caller params) (Steady model caller params store first) { store := store }
      (first :: later)) :
    ∀ earlier, earlier <+: later → PagesPartition model caller params store first earlier := by
  intro earlier hearlier
  obtain ⟨rest, rfl⟩ := hearlier
  have hpaging := paging_walk (stepsMeet_append.mp (show StepsMeet _ _ _ ((first :: earlier) ++ rest) from h)).1
  have hdistinct : ((listOf model caller params store first).map Hit.id).Nodup :=
    distinct_recallRows model first.context store caller (request params none first)
  refine ⟨?_, ?_, ?_, hpaging.counted, ?_⟩
  · rw [hpaging.returned]
    exact List.take_prefix _ _
  · rw [hpaging.returned]
    exact hdistinct.sublist (List.take_sublist _ _)
  · intro hended
    rw [hpaging.returned, List.take_of_length_le]
    rw [List.length_map]
    exact (hpaging.done hended).1
  · intro hlength
    by_contra hopen
    rw [Bool.not_eq_true] at hopen
    have hpages : (walkOf model caller params store first earlier).pages.length = 0 + (first :: earlier).length :=
      pages_of_open hopen
    have hmore := (hpaging.more hopen).1
    rw [hpages, List.length_cons] at hmore
    have hsize := Nat.le_mul_of_pos_right (0 + (earlier.length + 1)) (@pageSize_pos params)
    omega

/-! ## Every walk ends -/

/-- A recall returns no more than there are rows. -/
theorem length_recallRows_le (context : RecallContext) (store : Store) (query : RecallParams) :
    (recallRows model context store caller query).1.length ≤ store.fragments.rows.length := by
  have hdistinct := distinct_recallRows model context store caller query
  have hrows : (recallRows model context store caller query).1.map Hit.id ⊆ store.fragments.rows.map Fragment.id := by
    intro id hid
    obtain ⟨hit, hhit, rfl⟩ := List.mem_map.mp hid
    obtain ⟨f, hf, -, hfid, -⟩ := @allScoped_recallRows store model context caller query hit hhit
    rw [Hit.id, hfid]
    exact List.mem_map_of_mem hf
  have hlength := (List.subperm_of_subset hdistinct hrows).length_le
  simpa only [List.length_map] using hlength

/-- An open walk has an offset within the rows. -/
structure Within (params : RecallParams) (store : Store) (walk : Walk) : Prop where
  bare : SameBare store walk.store
  offset : walk.ended = false → (walk.cursor.map Prod.fst).getD 0 = walk.pages.length * pageSize params
  bound : walk.ended = false → walk.pages = [] ∨ walk.pages.length * pageSize params < store.fragments.rows.length

theorem within_step (store : Store) (walk : Walk) (call : RecallCall) (h : Within params store walk) :
    Within params store (nextPage model caller params walk call) := by
  rcases hended : walk.ended with _ | _
  · set result :=
      MemoryRecaller.recall model call.context walk.store caller (request params walk.cursor call) with hresult
    have hoffset := h.offset hended
    have hlength : result.totalCount ≤ store.fragments.rows.length := by
      have hrows := congrArg List.length h.bare.rows
      simp only [List.length_map] at hrows
      rw [← hrows]
      exact length_recallRows_le call.context walk.store (request params walk.cursor call)
    have hcursor : (nextCursor call (request params walk.cursor call) result).isNone = false →
        ((nextCursor call (request params walk.cursor call) result).map Prod.fst).getD 0 =
            walk.pages.length * pageSize params + pageSize params ∧
          walk.pages.length * pageSize params + pageSize params < result.totalCount := by
      intro hsome
      simp only [nextCursor] at hsome ⊢
      split
      · rename_i hmore
        have hless := of_decide_eq_true (Bool.and_eq_true_iff.mp hmore).2
        rw [← hoffset]
        exact ⟨rfl, hless⟩
      · rename_i hmore
        rw [if_neg hmore] at hsome
        cases hsome
    rw [nextPage_open hended, ← hresult]
    refine ⟨h.bare.trans (sameBare_afterRecall model call _ caller _), fun hopen => ?_, fun hopen => Or.inr ?_⟩
    · simp only [count_page]
      exact (hcursor hopen).1
    · simp only [count_page]
      exact Nat.lt_of_lt_of_le (hcursor hopen).2 hlength
  · rw [nextPage, if_pos hended]
    exact h

/-- Whatever the calls write, a walk ends within as many pages as there are rows. -/
theorem walk_ends (store : Store) (first : RecallCall) (later : List RecallCall)
    (h : store.fragments.rows.length ≤ later.length) : (walkOf model caller params store first later).ended = true := by
  by_contra hopen
  rw [Bool.not_eq_true] at hopen
  have hstart : Within params store { store := store } :=
    ⟨SameBare.refl store, fun _ => (Nat.zero_mul _).symm, fun _ => Or.inl rfl⟩
  have hwithin : Within params store (walkOf model caller params store first later) :=
    invariant_run (within_step store) hstart (first :: later)
  have hpages : (walkOf model caller params store first later).pages.length = 0 + (first :: later).length :=
    pages_of_open hopen
  rcases hwithin.bound hopen with hnone | hbound
  · rw [hnone, List.length_cons] at hpages
    cases hpages
  · rw [hpages, List.length_cons] at hbound
    have hsize := Nat.le_mul_of_pos_right (0 + (later.length + 1)) (@pageSize_pos params)
    omega

end FragmentMemory.PageWalk
