import FragmentMemory.HistoryReconstructor

/-! # Coverage of the causal chains

`_buildCausalChains` walks from each id that a causal edge leaves and none enters.  A walk visits what the edges
reach from its root, so a fragment is on a chain exactly when such a root reaches it; the fragments behind a cycle that
nothing outside leads to are on none.
-/
namespace FragmentMemory.CausalChains
open FragmentTables CaseEventStore HistoryReconstructor

/-- A fragment of a chain with its `_chain_position`. -/
structure ChainNode where
  fragment : Fragment
  position : ℕ
  deriving DecidableEq

structure Chain where
  rootId : String
  chain : List ChainNode
  length : ℕ
  isResolved : Bool
  deriving DecidableEq

/-- `fragMap`; of two fragments with one id the later one is in the map. -/
def fragMap (fragments : List Fragment) (id : String) : Option Fragment :=
  fragments.reverse.find? fun f => f.id = id

/-- The variables of the breadth-first walk from one root. -/
structure Traversal where
  chain : List ChainNode
  visited : List String
  queue : List String

/-- The chain after a visit; an id off the timeline adds nothing. -/
def pushNode (fragments : List Fragment) (chain : List ChainNode) (current : String) : List ChainNode :=
  match fragMap fragments current with
  | none => chain
  | some f => chain ++ [⟨f, chain.length⟩]

/-- One round of the `while` loop. -/
def Traversal.round (fragments : List Fragment) (edges : List CausalEdge) (state : Traversal) : Traversal :=
  match state.queue with
  | [] => state
  | current :: queue =>
    if state.visited.contains current then { state with queue := queue }
    else
      let seen := state.visited ++ [current]
      let next := (edges.filter fun edge => edge.fromId = current && !seen.contains edge.toId).map CausalEdge.toId
      ⟨pushNode fragments state.chain current, seen, queue ++ next⟩

/-- The walk of a root; its queue is empty after at most one round for the root and one for each edge. -/
def traverse (fragments : List Fragment) (edges : List CausalEdge) (rootId : String) : Traversal :=
  (Traversal.round fragments edges)^[edges.length + 1] ⟨[], [], [rootId]⟩

/-- The sources of causal edges that are no target. -/
def roots (edges : List CausalEdge) : List String :=
  (edges.map CausalEdge.fromId).eraseDups.filter fun id => !(edges.map CausalEdge.toId).contains id

def chainFrom (fragments : List Fragment) (edges : List CausalEdge) (rootId : String) : Chain :=
  let chain := (traverse fragments edges rootId).chain
  { rootId := rootId
    chain := chain
    length := chain.length
    isResolved := chain.any fun node => node.fragment.resolutionStatus = some .resolved }

/-- `_buildCausalChains` over the links and the edges between events. -/
def buildCausalChains (fragments : List Fragment) (links : List Link) (eventDag : List CaseEventEdge) : List Chain :=
  let edges := causalEdges links eventDag
  ((roots edges).map (chainFrom fragments edges)).filter fun chain => !chain.chain.isEmpty

variable {fragments : List Fragment} {edges : List CausalEdge} {rootId : String}

/-! ## One walk -/

theorem fragMap_id {id : String} {f : Fragment} (h : fragMap fragments id = some f) : f.id = id := by
  have hid := List.find?_some h
  exact of_decide_eq_true hid

theorem isSome_fragMap {f : Fragment} (hf : f ∈ fragments) : (fragMap fragments f.id).isSome = true := by
  rw [fragMap, List.find?_isSome]
  exact ⟨f, List.mem_reverse.mpr hf, decide_eq_true rfl⟩

/-- An edge from one id to the next. -/
def Leads (edges : List CausalEdge) (id next : String) : Prop := ⟨id, next⟩ ∈ edges

/-- What the rounds keep. -/
structure Walked (fragments : List Fragment) (edges : List CausalEdge) (rootId : String) (state : Traversal) : Prop where
  once : state.visited.Nodup
  nodes : state.chain.map (fun node => node.fragment) = state.visited.filterMap (fragMap fragments)
  positions : state.chain.map (fun node => node.position) = List.range state.chain.length
  root : rootId ∈ state.visited ∨ rootId ∈ state.queue
  reached : ∀ id, id ∈ state.visited ∨ id ∈ state.queue → Relation.ReflTransGen (Leads edges) rootId id
  closed : ∀ id next, Leads edges id next → id ∈ state.visited → next ∈ state.visited ∨ next ∈ state.queue

theorem walked_start : Walked fragments edges rootId ⟨[], [], [rootId]⟩ where
  once := List.nodup_nil
  nodes := rfl
  positions := rfl
  root := Or.inr (List.mem_singleton.mpr rfl)
  reached id hid := by
    rcases hid with hvisited | hqueued
    · exact absurd hvisited List.not_mem_nil
    · rw [List.mem_singleton.mp hqueued]
  closed id next _ hvisited := absurd hvisited List.not_mem_nil

theorem pushNode_nodes (chain : List ChainNode) (current : String) :
    (pushNode fragments chain current).map (fun node => node.fragment) =
      chain.map (fun node => node.fragment) ++ [current].filterMap (fragMap fragments) := by
  rw [pushNode]
  cases hfound : fragMap fragments current with
  | none => simp [hfound]
  | some f => simp [hfound]

theorem pushNode_positions {chain : List ChainNode}
    (h : chain.map (fun node => node.position) = List.range chain.length) (current : String) :
    (pushNode fragments chain current).map (fun node => node.position) =
      List.range (pushNode fragments chain current).length := by
  rw [pushNode]
  cases fragMap fragments current with
  | none => exact h
  | some f =>
    rw [List.map_append, h, List.length_append, List.length_singleton, List.range_succ]
    rfl

/-- The ids that the visit of an id queues. -/
def followers (edges : List CausalEdge) (visited : List String) (current : String) : List String :=
  (edges.filter fun edge => edge.fromId = current && !(visited ++ [current]).contains edge.toId).map CausalEdge.toId

theorem mem_followers {visited : List String} {current next : String} :
    next ∈ followers edges visited current ↔ Leads edges current next ∧ next ∉ visited ++ [current] := by
  constructor
  · intro hnext
    obtain ⟨edge, hedge, rfl⟩ := List.mem_map.mp hnext
    obtain ⟨hmem, hcond⟩ := List.mem_filter.mp hedge
    rw [Bool.and_eq_true, decide_eq_true_eq, Bool.not_eq_true', ← Bool.not_eq_true, List.contains_iff_mem] at hcond
    refine ⟨?_, hcond.2⟩
    rw [Leads, ← hcond.1]
    exact hmem
  · intro hnext
    refine List.mem_map.mpr ⟨⟨current, next⟩, List.mem_filter.mpr ⟨hnext.1, ?_⟩, rfl⟩
    rw [Bool.and_eq_true, decide_eq_true_eq, Bool.not_eq_true', ← Bool.not_eq_true, List.contains_iff_mem]
    exact ⟨rfl, hnext.2⟩

theorem round_seen {chain : List ChainNode} {visited queue : List String} {current : String}
    (h : visited.contains current = true) :
    Traversal.round fragments edges ⟨chain, visited, current :: queue⟩ = ⟨chain, visited, queue⟩ := by
  simp only [Traversal.round, h, if_true]

theorem round_new {chain : List ChainNode} {visited queue : List String} {current : String}
    (h : visited.contains current = false) :
    Traversal.round fragments edges ⟨chain, visited, current :: queue⟩ =
      ⟨pushNode fragments chain current, visited ++ [current], queue ++ followers edges visited current⟩ := by
  simp only [Traversal.round, h, Bool.false_eq_true, if_false, followers]

theorem Walked.round {state : Traversal} (h : Walked fragments edges rootId state) :
    Walked fragments edges rootId (state.round fragments edges) := by
  obtain ⟨chain, visited, queue⟩ := state
  cases queue with
  | nil => exact h
  | cons current queue =>
    have hcurrent := h.reached current (Or.inr (List.mem_cons_self))
    by_cases hseen : visited.contains current = true
    · have hvisited : current ∈ visited := List.contains_iff_mem.mp hseen
      have hdrop : ∀ id, id ∈ visited ∨ id ∈ current :: queue → id ∈ visited ∨ id ∈ queue := by
        intro id hid
        rcases hid with hold | hqueued
        · exact Or.inl hold
        · rcases List.mem_cons.mp hqueued with rfl | hlater
          · exact Or.inl hvisited
          · exact Or.inr hlater
      rw [round_seen hseen]
      refine ⟨h.once, h.nodes, h.positions, hdrop rootId h.root, ?_, ?_⟩
      · intro id hid
        exact h.reached id (hid.imp_right (List.mem_cons_of_mem current))
      · intro id next hedge hid
        exact hdrop next (h.closed id next hedge hid)
    · have hnew : current ∉ visited := fun hmem => hseen (List.contains_iff_mem.mpr hmem)
      rw [round_new (Bool.eq_false_of_not_eq_true hseen)]
      refine ⟨?_, ?_, pushNode_positions h.positions current, ?_, ?_, ?_⟩
      · exact List.nodup_append.mpr ⟨h.once, List.nodup_singleton _, fun a ha b hb => by
          rw [List.mem_singleton.mp hb]
          exact ne_of_mem_of_not_mem ha hnew⟩
      · rw [pushNode_nodes, h.nodes, List.filterMap_append]
      · rcases h.root with hold | hqueued
        · exact Or.inl (List.mem_append_left _ hold)
        · rcases List.mem_cons.mp hqueued with rfl | hlater
          · exact Or.inl (List.mem_append_right _ (List.mem_singleton.mpr rfl))
          · exact Or.inr (List.mem_append_left _ hlater)
      · intro id hid
        rcases hid with hvisited | hqueued
        · rcases List.mem_append.mp hvisited with hold | hnow
          · exact h.reached id (Or.inl hold)
          · rw [List.mem_singleton.mp hnow]
            exact hcurrent
        · rcases List.mem_append.mp hqueued with hlater | hnext
          · exact h.reached id (Or.inr (List.mem_cons_of_mem _ hlater))
          · exact hcurrent.tail (mem_followers.mp hnext).1
      · intro id next hedge hid
        by_cases hdone : next ∈ visited ++ [current]
        · exact Or.inl hdone
        · rcases List.mem_append.mp hid with hold | hnow
          · rcases h.closed id next hedge hold with hvisited | hqueued
            · exact Or.inl (List.mem_append_left _ hvisited)
            · rcases List.mem_cons.mp hqueued with rfl | hlater
              · exact absurd (List.mem_append_right _ (List.mem_singleton.mpr rfl)) hdone
              · exact Or.inr (List.mem_append_left _ hlater)
          · rw [List.mem_singleton.mp hnow] at hedge
            exact Or.inr (List.mem_append_right _ (mem_followers.mpr ⟨hedge, hdone⟩))

theorem walked_rounds (rounds : ℕ) :
    Walked fragments edges rootId ((Traversal.round fragments edges)^[rounds] ⟨[], [], [rootId]⟩) := by
  induction rounds with
  | zero => exact walked_start
  | succ rounds ih =>
    rw [Function.iterate_succ_apply']
    exact ih.round

/-- Each round uses up a queued id or the edges of an id that was not visited before. -/
theorem queue_rounds {rounds : ℕ} {state : Traversal} (h : pendingRounds edges state.visited state.queue ≤ rounds) :
    ((Traversal.round fragments edges)^[rounds] state).queue = [] := by
  induction rounds generalizing state with
  | zero =>
    simp only [pendingRounds] at h
    have hlength : state.queue.length = 0 := by omega
    exact List.length_eq_zero_iff.mp hlength
  | succ rounds ih =>
    obtain ⟨chain, visited, queue⟩ := state
    cases queue with
    | nil =>
      have hdone : Traversal.round fragments edges ⟨chain, visited, []⟩ = ⟨chain, visited, []⟩ := rfl
      rw [Function.iterate_fixed hdone]
    | cons current queue =>
      rw [Function.iterate_succ_apply]
      refine ih ?_
      simp only [pendingRounds, List.length_cons] at h
      by_cases hseen : visited.contains current = true
      · rw [round_seen hseen]
        simp only [pendingRounds]
        omega
      · have hnew : visited.contains current = false := Bool.eq_false_of_not_eq_true hseen
        have hqueued := queued_le_edges hnew edges
        rw [round_new hnew]
        simp only [pendingRounds, followers, List.length_append, List.length_map]
        omega

/-- The walk ends: its queue is empty after the rounds it is given. -/
theorem queue_traverse : (traverse fragments edges rootId).queue = [] :=
  queue_rounds (pendingRounds_root edges rootId)

/-- The walk of a root visits what the edges reach from it. -/
theorem mem_visited_traverse {id : String} :
    id ∈ (traverse fragments edges rootId).visited ↔ Relation.ReflTransGen (Leads edges) rootId id := by
  have hwalked : Walked fragments edges rootId (traverse fragments edges rootId) := walked_rounds _
  have hqueue : (traverse fragments edges rootId).queue = [] := queue_traverse
  constructor
  · intro hvisited
    exact hwalked.reached id (Or.inl hvisited)
  · intro hreached
    induction hreached with
    | refl => exact hwalked.root.resolve_right (by rw [hqueue]; exact List.not_mem_nil)
    | tail _ hedge ih => exact (hwalked.closed _ _ hedge ih).resolve_right (by rw [hqueue]; exact List.not_mem_nil)

/-! ## The chains -/

/-- The fragment with the id is on one of the chains. -/
def OnChain (chains : List Chain) (id : String) : Prop :=
  ∃ chain ∈ chains, ∃ node ∈ chain.chain, node.fragment.id = id

/-- The id is reached along causal edges from one that no causal edge enters. -/
def FromRoot (edges : List CausalEdge) (id : String) : Prop :=
  ∃ rootId ∈ roots edges, Relation.ReflTransGen (Leads edges) rootId id

theorem mem_chainFrom {f : Fragment} (hf : f ∈ fragments) :
    (∃ node ∈ (chainFrom fragments edges rootId).chain, node.fragment.id = f.id) ↔
      Relation.ReflTransGen (Leads edges) rootId f.id := by
  have hnodes : (chainFrom fragments edges rootId).chain.map (fun node => node.fragment) =
      (traverse fragments edges rootId).visited.filterMap (fragMap fragments) := (walked_rounds _).nodes
  rw [← @mem_visited_traverse fragments edges rootId f.id]
  constructor
  · intro hnode
    obtain ⟨node, hnode, hid⟩ := hnode
    have hmem := List.mem_map_of_mem (f := fun node : ChainNode => node.fragment) hnode
    rw [hnodes] at hmem
    obtain ⟨id, hvisited, hfound⟩ := List.mem_filterMap.mp hmem
    rw [← hid, fragMap_id hfound]
    exact hvisited
  · intro hvisited
    obtain ⟨found, hfound⟩ := Option.isSome_iff_exists.mp (isSome_fragMap hf)
    have hmem := List.mem_filterMap.mpr ⟨f.id, hvisited, hfound⟩
    rw [← hnodes] at hmem
    obtain ⟨node, hnode, hfragment⟩ := List.mem_map.mp hmem
    refine ⟨node, hnode, ?_⟩
    rw [hfragment, fragMap_id hfound]

/-- A fragment of the timeline is on a chain exactly when a root reaches it. -/
theorem onChain_iff {links : List Link} {eventDag : List CaseEventEdge} {f : Fragment} (hf : f ∈ fragments) :
    OnChain (buildCausalChains fragments links eventDag) f.id ↔ FromRoot (causalEdges links eventDag) f.id := by
  constructor
  · intro hon
    obtain ⟨chain, hchain, hnode⟩ := hon
    obtain ⟨rootId, hroot, rfl⟩ := List.mem_map.mp (List.mem_filter.mp hchain).1
    exact ⟨rootId, hroot, (mem_chainFrom hf).mp hnode⟩
  · intro hfrom
    obtain ⟨rootId, hroot, hreached⟩ := hfrom
    have hnode := (@mem_chainFrom fragments _ rootId f hf).mpr hreached
    refine ⟨_, List.mem_filter.mpr ⟨List.mem_map.mpr ⟨rootId, hroot, rfl⟩, ?_⟩, hnode⟩
    obtain ⟨node, hnode, -⟩ := hnode
    cases hchain : (chainFrom fragments (causalEdges links eventDag) rootId).chain with
    | nil =>
      rw [hchain] at hnode
      exact absurd hnode List.not_mem_nil
    | cons first later => rfl

/-- The fragment ids of a chain are those that the walk visits and the timeline has, so none is repeated. -/
theorem nodup_chainFrom : ((chainFrom fragments edges rootId).chain.map fun node => node.fragment.id).Nodup := by
  have hwalked : Walked fragments edges rootId (traverse fragments edges rootId) := walked_rounds _
  have hids : (chainFrom fragments edges rootId).chain.map (fun node => node.fragment.id) =
      (traverse fragments edges rootId).visited.filter fun id => (fragMap fragments id).isSome := by
    have hnodes : (chainFrom fragments edges rootId).chain.map (fun node => node.fragment) =
        (traverse fragments edges rootId).visited.filterMap (fragMap fragments) := hwalked.nodes
    have hsplit : (chainFrom fragments edges rootId).chain.map (fun node => node.fragment.id) =
        ((chainFrom fragments edges rootId).chain.map fun node => node.fragment).map Fragment.id := by
      rw [List.map_map]
      rfl
    rw [hsplit, hnodes, List.map_filterMap]
    induction (traverse fragments edges rootId).visited with
    | nil => rfl
    | cons id later ih =>
      cases hfound : fragMap fragments id with
      | none => simp [hfound, ih]
      | some f => simp [hfound, ih, fragMap_id hfound]
  rw [hids]
  exact hwalked.once.filter _

/-- The id is an end of a `caused_by` or `resolved_by` link. -/
def CausalEnd (links : List Link) (id : String) : Prop :=
  ∃ l ∈ links, causalLink l = true ∧ (l.fromId = id ∨ l.toId = id)

/-- The chains cover the causal fragments of the timeline; each has its fragments once and numbered from zero, and its
walk ends. -/
structure ChainsCover (fragments : List Fragment) (links : List Link) (eventDag : List CaseEventEdge) : Prop where
  covers : ∀ f ∈ fragments, CausalEnd links f.id → OnChain (buildCausalChains fragments links eventDag) f.id
  once : ∀ chain ∈ buildCausalChains fragments links eventDag, (chain.chain.map fun node => node.fragment.id).Nodup
  numbered : ∀ chain ∈ buildCausalChains fragments links eventDag,
    chain.chain.map (fun node => node.position) = List.range chain.chain.length
  ends : ∀ rootId, (traverse fragments (causalEdges links eventDag) rootId).queue = []

/-- The chains cover the timeline exactly when its causal fragments are reached from roots, which leaves out those whose
every way back along causal edges runs into a cycle or a self-loop. -/
theorem chainsCover_iff (fragments : List Fragment) (links : List Link) (eventDag : List CaseEventEdge) :
    ChainsCover fragments links eventDag ↔
      ∀ f ∈ fragments, CausalEnd links f.id → FromRoot (causalEdges links eventDag) f.id := by
  constructor
  · intro h f hf hend
    exact (onChain_iff hf).mp (h.covers f hf hend)
  · intro h
    refine ⟨fun f hf hend => (onChain_iff hf).mpr (h f hf hend), ?_, ?_, fun rootId => queue_traverse⟩
    · intro chain hchain
      obtain ⟨rootId, -, rfl⟩ := List.mem_map.mp (List.mem_filter.mp hchain).1
      exact nodup_chainFrom
    · intro chain hchain
      obtain ⟨rootId, -, rfl⟩ := List.mem_map.mp (List.mem_filter.mp hchain).1
      exact (walked_rounds _).positions

/-- An error and the procedure that resolved it, which names the error as its cause. -/
def mutualRows : List Fragment :=
  let row : Fragment :=
    { id := "frag-01", content := "deploy fails with exit code 137", topic := "deploy", keywords := []
      importance := 5 / 10, type := .error, contentHash := "", keyId := none, createdAt := 0 }
  [row, { row with id := "frag-02", content := "raise the memory limit of the runner", type := .procedure }]

def mutualLinks : List Link :=
  [{ fromId := "frag-01", toId := "frag-02", relationType := .resolvedBy },
    { fromId := "frag-02", toId := "frag-01", relationType := .causedBy }]

theorem mutual_links_unchained : ¬ ChainsCover mutualRows mutualLinks [] := by
  intro h
  have hnone : buildCausalChains mutualRows mutualLinks [] = [] := by decide
  have hend : ∃ f ∈ mutualRows, ∃ l ∈ mutualLinks, causalLink l = true ∧ (l.fromId = f.id ∨ l.toId = f.id) := by
    decide
  obtain ⟨f, hf, hlink⟩ := hend
  obtain ⟨chain, hchain, -⟩ := h.covers f hf hlink
  rw [hnone] at hchain
  exact absurd hchain List.not_mem_nil

/-! ## The chains of a history -/

/-- The ids that the rounds visit are those of the walk without nodes. -/
theorem visited_rounds (rounds : ℕ) (state : Traversal) :
    ((Traversal.round fragments edges)^[rounds] state).visited = walk edges rounds state.visited state.queue := by
  induction rounds generalizing state with
  | zero => rfl
  | succ rounds ih =>
    obtain ⟨chain, visited, queue⟩ := state
    rw [Function.iterate_succ_apply, ih]
    cases queue with
    | nil => cases rounds <;> rfl
    | cons current queue =>
      cases hseen : visited.contains current with
      | true =>
        rw [round_seen hseen]
        simp only [walk, hseen, if_true]
      | false =>
        rw [round_new hseen]
        simp only [walk, hseen, Bool.false_eq_true, if_false, followers]

/-- With distinct ids it does not matter which of the rows of an id the map keeps. -/
theorem fragMap_eq_find (hdistinct : (fragments.map Fragment.id).Nodup) (id : String) :
    fragMap fragments id = fragments.find? fun f => f.id = id := by
  cases hfound : fragments.find? fun f => f.id = id with
  | none =>
    rw [fragMap, List.find?_eq_none]
    intro f hf
    exact List.find?_eq_none.mp hfound f (List.mem_reverse.mp hf)
  | some f =>
    have hf : f ∈ fragments := List.mem_of_find?_eq_some hfound
    have hid : f.id = id := by simpa using List.find?_some hfound
    obtain ⟨kept, hkept⟩ := Option.isSome_iff_exists.mp (isSome_fragMap hf)
    rw [hid] at hkept
    have hmem : kept ∈ fragments := List.mem_reverse.mp (List.mem_of_find?_eq_some hkept)
    rw [hkept, List.inj_on_of_nodup_map hdistinct hmem hf ((fragMap_id hkept).trans hid.symm)]

/-- A chain without its positions. -/
def Chain.plain (chain : Chain) : CausalChain :=
  ⟨chain.rootId, chain.chain.map fun node => node.fragment, chain.isResolved⟩

theorem plain_chainFrom (hdistinct : (fragments.map Fragment.id).Nodup) :
    (chainFrom fragments edges rootId).plain.chain =
      (walk edges (edges.length + 1) [] [rootId]).filterMap fun id => fragments.find? fun f => f.id = id := by
  have hnodes : (traverse fragments edges rootId).chain.map (fun node => node.fragment) =
      (traverse fragments edges rootId).visited.filterMap (fragMap fragments) := (walked_rounds _).nodes
  have hvisited : (traverse fragments edges rootId).visited = walk edges (edges.length + 1) [] [rootId] :=
    visited_rounds _ _
  have hlookup : fragMap fragments = fun id => fragments.find? fun f => f.id = id :=
    funext fun id => fragMap_eq_find hdistinct id
  rw [← hvisited, ← hlookup]
  exact hnodes

/-- On a timeline of distinct rows the chains are those that a history returns, with their positions. -/
theorem buildCausalChains_history (links : List Link) (eventDag : List CaseEventEdge)
    (hdistinct : (fragments.map Fragment.id).Nodup) :
    (buildCausalChains fragments links eventDag).map Chain.plain =
      HistoryReconstructor.buildCausalChains fragments (causalEdges links eventDag) := by
  have hchain := fun rootId => @plain_chainFrom fragments (causalEdges links eventDag) rootId hdistinct
  simp only [buildCausalChains, HistoryReconstructor.buildCausalChains, List.filter_map, List.map_map]
  have hkept : ((fun chain : Chain => !chain.chain.isEmpty) ∘ chainFrom fragments (causalEdges links eventDag)) =
      fun rootId =>
        !((walk (causalEdges links eventDag) ((causalEdges links eventDag).length + 1) [] [rootId]).filterMap
        fun id => fragments.find? fun f => f.id = id).isEmpty := by
    funext rootId
    rw [← hchain rootId, Chain.plain, List.isEmpty_map]
    rfl
  rw [hkept]
  refine List.map_congr_left fun rootId _ => ?_
  have hresolved : (chainFrom fragments (causalEdges links eventDag) rootId).isResolved =
      (chainFrom fragments (causalEdges links eventDag) rootId).plain.chain.any
        fun f => f.resolutionStatus = some .resolved := by
    rw [Chain.plain, List.any_map]
    rfl
  rw [Function.comp_apply, ← hchain rootId, ← hresolved]
  rfl

end FragmentMemory.CausalChains
