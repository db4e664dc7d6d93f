import FragmentMemory.GraphNeighborSearch
import FragmentMemory.KeywordExtraction
import FragmentMemory.RecallWrites
import Mathlib.Data.List.Flatten

/-! # Spreading activation

`activateByContext` and the queue behind it: a call finds its seeds, spreads to their neighbours and queues the ids
of both, and `drainQueue` applies the batches of the queue one after another.  A step runs up to the next `await`;
between its steps anything else may happen to the store.
-/
namespace FragmentMemory.SpreadingActivation
open ApiKeyStore FragmentTables JsString KeywordExtraction NeighborQueries GraphNeighborSearch TransitionRuns
  UniqueIndexTable
open RecallWrites (spreadActivation)

/-- The arguments of `activateByContext`. -/
structure ContextCall where
  contextText : String
  agentId : String
  keyId : Option KeyId
  sessionId : Option String := none

def ContextCall.cacheKey (call : ContextCall) : String :=
  call.agentId ++ ":" ++ (call.keyId.map Subtype.val).getD "master" ++ ":" ++ call.sessionId.getD "anon"

def ContextCall.keyArgument (call : ContextCall) : KeyArgument := call.keyId.elim .master fun key => .one key.val

/-- What a call waits for: the query of its seeds, with the set of seen ids that it holds, or that of the
neighbours. -/
inductive Stage
  | querying (seen : ℕ)
  | spreading (seedIds : List FragmentId)
  | finished

/-- An entry of `activationQueue`, with the call that has pushed it. -/
structure Batch where
  ids : List FragmentId
  call : ContextCall

/-- The sets of `ACTIVATION_CACHE` are objects that a call holds on to: the cache has their numbers.  `running` is the
batch whose `UPDATE` is awaited, and there is one exactly while `queueRunning` is set.  What was pushed and what was
drained is kept for the statements. -/
structure State where
  store : Store
  cache : String → Option ℕ := fun _ => none
  sets : List (List FragmentId) := []
  calls : List (ContextCall × Stage) := []
  activationQueue : List Batch := []
  running : Option Batch := none
  immediates : ℕ := 0
  pushed : List Batch := []
  drained : List Batch := []

inductive Event
  | call (arguments : ContextCall)
  | seeds (i : ℕ) (order : List FragmentId)
  /-- The query of the neighbours, with the scores that order them; none when it throws. -/
  | neighbors (i : ℕ) (graphScore : Option (Link → ℚ))
  | immediate
  | updated (now : Time) (succeeds : Bool)
  /-- The timer that deletes a key of the cache. -/
  | expire (cacheKey : String)
  | outside (store : Store)

variable (toLowerCase : String → String)

def keywords (call : ContextCall) : List String := extractKeywords toLowerCase call.contextText 8

def seedMatches (call : ContextCall) (f : Fragment) : Bool :=
  f.keywords.any (keywords toLowerCase call).contains && decide (f.agentId = call.agentId) &&
    (call.keyId.isNone || decide (f.keyId = call.keyId)) && f.live

/-- `SELECT DISTINCT … LIMIT 10`, the rows in the order in which the query comes upon them. -/
def seedRows (store : Store) (call : ContextCall) (order : List FragmentId) : List FragmentId :=
  (((order.filterMap store.fragments.byId).filter (seedMatches toLowerCase call)).map Fragment.id).dedup.take 10

/-- The set of a key of the cache, a new one where there is none. -/
def State.lookup (state : State) (cacheKey : String) : ℕ × State :=
  match state.cache cacheKey with
  | some seen => (seen, state)
  | none => (state.sets.length, { state with
      cache := Function.update state.cache cacheKey (some state.sets.length)
      sets := state.sets ++ [[]] })

/-- Up to the query of the seeds. -/
def State.enter (state : State) (call : ContextCall) : State :=
  if trim call.contextText = "" then { state with calls := state.calls ++ [(call, .finished)] }
  else
    let found := state.lookup call.cacheKey
    let stage := if (keywords toLowerCase call).isEmpty then .finished else .querying found.1
    { found.2 with calls := state.calls ++ [(call, stage)] }

/-- The seeds that the set has not seen yet are marked in it. -/
def State.draw (state : State) (i : ℕ) (order : List FragmentId) : State :=
  match state.calls[i]? with
  | some (call, .querying seen) =>
    let members := state.sets[seen]?.getD []
    let seedIds := (seedRows toLowerCase state.store call order).filter fun id => !members.contains id
    if seedIds.isEmpty then { state with calls := state.calls.set i (call, .finished) }
    else { state with
      sets := state.sets.set seen (members ++ seedIds)
      calls := state.calls.set i (call, .spreading seedIds) }
  | some (_, .spreading _) | some (_, .finished) | none => state

/-- The ids of the activated neighbours. -/
def neighborIds (store : Store) (graphScore : Option (Link → ℚ)) (call : ContextCall) (seedIds : List FragmentId) :
    List FragmentId :=
  let activated := graphScore.elim [] fun score =>
    fetchGraphNeighbors score store seedIds 10 call.agentId call.keyArgument
  (activated.map fun hit => hit.row.id).filter (· ≠ "")

/-- The batch of the seeds and their neighbours, and a drain for the next turn of the loop. -/
def State.spread (state : State) (i : ℕ) (graphScore : Option (Link → ℚ)) : State :=
  match state.calls[i]? with
  | some (call, .spreading seedIds) =>
    let allIds := seedIds ++ neighborIds state.store graphScore call seedIds
    let finished := state.calls.set i (call, .finished)
    if allIds.isEmpty then { state with calls := finished }
    else { state with
      calls := finished
      activationQueue := state.activationQueue ++ [⟨allIds, call⟩]
      pushed := state.pushed ++ [⟨allIds, call⟩]
      immediates := state.immediates + 1 }
  | some (_, .querying _) | some (_, .finished) | none => state

/-- The loop of `drainQueue` up to its `await`. -/
def State.shift (state : State) : List Batch → State
  | [] => { state with activationQueue := [], running := none }
  | batch :: later =>
    if batch.ids.isEmpty then state.shift later
    else { state with activationQueue := later, running := some batch }

/-- `drainQueue`, called by the event loop. -/
def State.drainQueue (state : State) : State :=
  if state.immediates = 0 then state
  else
    let woken := { state with immediates := state.immediates - 1 }
    if woken.running.isSome then woken else woken.shift woken.activationQueue

/-- The `UPDATE` of a batch ends, whatever it did, and the loop goes on. -/
def State.update (state : State) (now : Time) (succeeds : Bool) : State :=
  match state.running with
  | none => state
  | some batch =>
    let store := if succeeds then state.store.updateFragments (fun f => batch.ids.contains f.id) (spreadActivation now)
      else state.store
    { state with store := store, drained := state.drained ++ [batch] }.shift state.activationQueue

def step (state : State) : Event → State
  | .call arguments => state.enter toLowerCase arguments
  | .seeds i order => state.draw toLowerCase i order
  | .neighbors i graphScore => state.spread i graphScore
  | .immediate => state.drainQueue
  | .updated now succeeds => state.update now succeeds
  | .expire cacheKey => { state with cache := Function.update state.cache cacheKey none }
  | .outside store => { state with store := store }

def Event.isUpdate : Event → Bool
  | .updated _ _ => true
  | .call _ | .seeds _ _ | .neighbors _ _ | .immediate | .expire _ | .outside _ => false

/-! ## What a step does -/

/-- A call enters without seeds. -/
theorem enter_eq (state : State) (call : ContextCall) : ∃ cache sets stage,
    state.enter toLowerCase call =
      { state with cache := cache, sets := sets, calls := state.calls ++ [(call, stage)] } ∧
    ∀ seedIds, stage ≠ .spreading seedIds := by
  have hlookup : ∃ cache sets, (state.lookup call.cacheKey).2 = { state with cache := cache, sets := sets } := by
    rw [State.lookup]
    split
    · exact ⟨state.cache, state.sets, rfl⟩
    · exact ⟨_, _, rfl⟩
  obtain ⟨cache, sets, hfound⟩ := hlookup
  simp only [State.enter]
  split
  · exact ⟨state.cache, state.sets, .finished, rfl, fun _ => Stage.noConfusion⟩
  · refine ⟨cache, sets, _, by rw [hfound], fun seedIds => ?_⟩
    split <;> exact Stage.noConfusion

/-- The seeds of a call are rows of its query. -/
theorem draw_eq (state : State) (i : ℕ) (order : List FragmentId) : ∃ sets calls,
    state.draw toLowerCase i order = { state with sets := sets, calls := calls } ∧
    ∀ call seedIds, (call, Stage.spreading seedIds) ∈ calls → (call, Stage.spreading seedIds) ∈ state.calls ∨
      ∀ id ∈ seedIds, id ∈ seedRows toLowerCase state.store call order := by
  simp only [State.draw]
  split
  · split
    · refine ⟨state.sets, _, rfl, fun call seedIds h => ?_⟩
      rcases List.mem_or_eq_of_mem_set h with hold | hnew
      · exact Or.inl hold
      · simp at hnew
    · refine ⟨_, _, rfl, fun call seedIds h => ?_⟩
      rcases List.mem_or_eq_of_mem_set h with hold | hnew
      · exact Or.inl hold
      · simp only [Prod.mk.injEq, Stage.spreading.injEq] at hnew
        rw [hnew.1, hnew.2]
        exact Or.inr fun id hid => (List.mem_filter.mp hid).1
  all_goals exact ⟨state.sets, state.calls, rfl, fun _ _ h => Or.inl h⟩

/-- What spreads ends as the batch that is pushed, if there is one. -/
theorem spread_eq (state : State) (i : ℕ) (graphScore : Option (Link → ℚ)) : ∃ calls,
    (∀ call seedIds, (call, Stage.spreading seedIds) ∈ calls → (call, Stage.spreading seedIds) ∈ state.calls) ∧
    (state.spread i graphScore = { state with calls := calls } ∨
      ∃ call seedIds batch, (call, Stage.spreading seedIds) ∈ state.calls ∧ batch.ids ≠ [] ∧
        batch = ⟨seedIds ++ neighborIds state.store graphScore call seedIds, call⟩ ∧
        state.spread i graphScore = { state with
          calls := calls
          activationQueue := state.activationQueue ++ [batch]
          pushed := state.pushed ++ [batch]
          immediates := state.immediates + 1 }) := by
  simp only [State.spread]
  split
  · rename_i call seedIds hcall
    refine ⟨state.calls.set i (call, .finished), fun other others hmem => ?_, ?_⟩
    · rcases List.mem_or_eq_of_mem_set hmem with hold | hnew
      · exact hold
      · simp at hnew
    · split
      · exact Or.inl rfl
      · rename_i hids
        exact Or.inr ⟨call, seedIds, _, List.mem_of_getElem? hcall, by simpa using hids, rfl, rfl⟩
  all_goals exact ⟨state.calls, fun _ _ h => h, Or.inl rfl⟩

/-- The loop takes batches out of the queue, and is at work unless it has emptied it. -/
theorem shift_eq (state : State) (queue : List Batch) : ∃ later running, state.shift queue =
    { state with activationQueue := later, running := running } ∧ (running = none → later = []) := by
  induction queue with
  | nil => exact ⟨[], none, rfl, fun _ => rfl⟩
  | cons batch later ih =>
    rw [State.shift]
    split
    · exact ih
    · exact ⟨later, some batch, rfl, fun h => by cases h⟩

/-- A drain that is due leaves the loop at work, or an empty queue; one that finds another at work changes nothing. -/
theorem drainQueue_eq (state : State) : ∃ later running immediates, state.drainQueue =
      { state with activationQueue := later, running := running, immediates := immediates } ∧
    (state.running.isSome = true → running = state.running) ∧ (running = none → later = [] ∨ immediates = 0) := by
  simp only [State.drainQueue]
  split
  · rename_i hnone
    exact ⟨_, _, _, rfl, fun _ => rfl, fun _ => Or.inr hnone⟩
  · split
    · rename_i hrunning
      exact ⟨_, _, _, rfl, fun _ => rfl, fun hidle => by simp [hidle] at hrunning⟩
    · rename_i hidle
      obtain ⟨later, running, hshift, hemptied⟩ :=
        shift_eq { state with immediates := state.immediates - 1 } state.activationQueue
      exact ⟨later, running, _, hshift, fun hrunning => absurd hrunning hidle, fun hnone => Or.inl (hemptied hnone)⟩

/-- An update that ends is that of the batch at work, and the loop goes on. -/
theorem update_eq (state : State) (now : Time) (succeeds : Bool) :
    (state.running = none ∧ state.update now succeeds = state) ∨ ∃ batch later running, state.running = some batch ∧
      state.update now succeeds = { state with
        store := if succeeds then state.store.updateFragments (fun f => batch.ids.contains f.id) (spreadActivation now)
          else state.store
        drained := state.drained ++ [batch]
        activationQueue := later
        running := running } ∧ (running = none → later = []) := by
  rcases hrunning : state.running with _ | batch
  · exact Or.inl ⟨rfl, by rw [State.update, hrunning]⟩
  · simp only [State.update, hrunning]
    obtain ⟨later, running, hshift⟩ := shift_eq { state with
      store := if succeeds then state.store.updateFragments (fun f => batch.ids.contains f.id) (spreadActivation now)
        else state.store
      running := some batch
      drained := state.drained ++ [batch] } state.activationQueue
    exact Or.inr ⟨batch, later, running, rfl, hshift⟩

/-! ## The queue -/

/-- No batch is empty, none is lost and none is taken out of turn; a batch that waits has a drain at work or on its
way. -/
structure Queued (state : State) : Prop where
  filled : ∀ batch ∈ state.pushed, batch.ids ≠ []
  fifo : state.pushed = state.drained ++ state.running.toList ++ state.activationQueue
  woken : state.activationQueue ≠ [] → state.running.isSome = true ∨ 0 < state.immediates

theorem queued_shift {state : State} {queue : List Batch} (hfilled : ∀ batch ∈ state.pushed, batch.ids ≠ [])
    (hfifo : state.pushed = state.drained ++ queue) : Queued (state.shift queue) := by
  cases queue with
  | nil => exact ⟨hfilled, by simpa [State.shift] using hfifo, fun h => absurd rfl h⟩
  | cons batch later =>
    have hbatch : batch.ids ≠ [] := hfilled batch (by simp [hfifo])
    rw [State.shift, if_neg (by simpa using hbatch)]
    exact ⟨hfilled, by simpa using hfifo, fun _ => Or.inl rfl⟩

/-- What a step leaves: a queue, all that was pushed, and a loop that is at work until everything is drained. -/
structure Advances (state next : State) (updates : ℕ) : Prop where
  queued : Queued next
  pushed : state.pushed <+: next.pushed
  drained : state.drained.length ≤ next.drained.length
  working : state.running.isSome = true → state.drained.length + updates ≤ next.drained.length ∧
    (next.running.isSome = true ∨ next.drained = next.pushed)

theorem advances_step {state : State} (h : Queued state) (event : Event) :
    Advances state (step toLowerCase state event) (if event.isUpdate then 1 else 0) := by
  have hidle : ∀ store cache sets calls,
      Advances state { state with store := store, cache := cache, sets := sets, calls := calls } 0 := fun _ _ _ _ =>
    ⟨⟨h.filled, h.fifo, h.woken⟩, List.prefix_rfl, le_rfl, fun hrunning => ⟨le_rfl, Or.inl hrunning⟩⟩
  cases event with
  | call arguments =>
    obtain ⟨cache, sets, stage, henter, -⟩ := enter_eq toLowerCase state arguments
    rw [step, henter]
    exact hidle _ _ _ _
  | seeds i order =>
    obtain ⟨sets, calls, hdrawn, -⟩ := draw_eq toLowerCase state i order
    rw [step, hdrawn]
    exact hidle _ _ _ _
  | neighbors i graphScore =>
    rw [step]
    obtain ⟨calls, -, heq | ⟨call, seedIds, batch, -, hids, -, heq⟩⟩ := spread_eq state i graphScore
    · rw [heq]
      exact hidle _ _ _ _
    · rw [heq]
      refine ⟨⟨fun other hother => ?_, by simp only [h.fifo, List.append_assoc], fun _ => Or.inr (Nat.succ_pos _)⟩,
        List.prefix_append _ _, le_rfl, fun hrunning => ⟨le_rfl, Or.inl hrunning⟩⟩
      rcases List.mem_append.mp hother with hold | hnew
      · exact h.filled other hold
      · exact List.mem_singleton.mp hnew ▸ hids
  | immediate =>
    have hqueued : Queued state.drainQueue := by
      simp only [State.drainQueue]
      split
      · exact h
      · split
        · rename_i hrunning
          exact ⟨h.filled, h.fifo, fun _ => Or.inl hrunning⟩
        · rename_i hidle
          have hnone : state.running = none := by simpa using hidle
          exact queued_shift h.filled (by simpa [hnone] using h.fifo)
    obtain ⟨later, running, immediates, heq, hkept, -⟩ := drainQueue_eq state
    rw [heq] at hqueued
    rw [step, heq]
    exact ⟨hqueued, List.prefix_rfl, le_rfl, fun hrunning => ⟨le_rfl, Or.inl ((hkept hrunning).symm ▸ hrunning)⟩⟩
  | updated now succeeds =>
    rw [step]
    rcases update_eq state now succeeds with ⟨hnone, heq⟩ | ⟨batch, later, running, hrunning, heq, hemptied⟩
    · rw [heq]
      exact ⟨h, List.prefix_rfl, le_rfl, fun hrunning => by simp [hnone] at hrunning⟩
    · have hqueued : Queued (state.update now succeeds) := by
        simp only [State.update, hrunning]
        exact queued_shift h.filled (by simpa [hrunning] using h.fifo)
      rw [heq] at hqueued ⊢
      refine ⟨hqueued, List.prefix_rfl, by simp, fun _ => ⟨by simp [Event.isUpdate], ?_⟩⟩
      rcases running with _ | next
      · exact Or.inr (by simpa [hemptied rfl] using hqueued.fifo.symm)
      · exact Or.inl rfl
  | expire cacheKey => exact hidle _ _ _ _
  | outside store => exact hidle _ _ _ _

theorem queued_run (store : Store) (events : List Event) :
    Queued (run (step toLowerCase) { store := store } events) := by
  refine invariant_run (I := Queued) (fun _ event h => (advances_step toLowerCase h event).queued) ?_ events
  exact ⟨by simp, rfl, fun h => absurd rfl h⟩

/-! ## The drain -/

variable {toLowerCase}

/-- The batches that are not drained. -/
def State.waiting (state : State) : ℕ := state.running.toList.length + state.activationQueue.length

/-- The loop is at work until the first batches are drained. -/
structure Draining (first : List Batch) (state : State) : Prop where
  queued : Queued state
  known : first <+: state.pushed
  busy : state.running.isSome = true ∨ first.length ≤ state.drained.length

/-- Each update that ends drains a batch. -/
theorem drained_run {first : List Batch} {state : State} (h : Draining first state) (later : List Event)
    (hcount : first.length ≤ state.drained.length + later.countP Event.isUpdate) :
    first <+: (run (step toLowerCase) state later).drained := by
  induction later generalizing state with
  | nil =>
    have hdrained : state.drained <+: state.pushed := by
      rw [h.queued.fifo, List.append_assoc]
      exact List.prefix_append _ _
    exact List.prefix_of_prefix_length_le h.known hdrained hcount
  | cons event later ih =>
    have hnext := advances_step toLowerCase h.queued event
    have hknown := h.known.trans hnext.pushed
    rw [List.countP_cons] at hcount
    rcases h.busy with hrunning | hdone
    · obtain ⟨hgrown, hworking⟩ := hnext.working hrunning
      exact ih ⟨hnext.queued, hknown, hworking.imp_right fun hall => by rw [hall]; exact hknown.length_le⟩ (by omega)
    · have hgrown := hdone.trans hnext.drained
      exact ih ⟨hnext.queued, hknown, Or.inr hgrown⟩ (by omega)

/-- The batches are drained in the order of their pushes, one at a time and each once, and what waits has a drain at
work or on its way; as soon as the loop has called it and an update has ended for each batch that waits, whether it
fails or not and whatever else happens, every batch is drained. -/
structure Delivered (toLowerCase : String → String) (state : State) : Prop where
  fifo : state.pushed = state.drained ++ state.running.toList ++ state.activationQueue
  woken : state.activationQueue ≠ [] → state.running.isSome = true ∨ 0 < state.immediates
  ends : ∀ later : List Event, state.waiting ≤ later.countP Event.isUpdate →
    state.pushed <+: (run (step toLowerCase) state (.immediate :: later)).drained

/-- Whatever the calls, the timers, the updates and other writes do. -/
theorem run_delivered (toLowerCase : String → String) (store : Store) (events : List Event) :
    Delivered toLowerCase (run (step toLowerCase) { store := store } events) := by
  have hqueued := queued_run toLowerCase store events
  generalize run (step toLowerCase) { store := store } events = state at hqueued ⊢
  refine ⟨hqueued.fifo, hqueued.woken, fun later hcount => ?_⟩
  have hlength := congrArg List.length hqueued.fifo
  have hnext := (advances_step toLowerCase hqueued .immediate).queued
  rw [run_cons]
  obtain ⟨waiting, running, immediates, heq, -, hemptied⟩ := drainQueue_eq state
  rw [step, heq] at hnext ⊢
  have hbusy : running.isSome = true ∨ state.pushed.length ≤ state.drained.length := by
    rcases running with _ | batch
    · have hempty : waiting = [] := by
        by_contra hwaiting
        have hwoken := hnext.woken hwaiting
        have hnone := (hemptied rfl).resolve_left hwaiting
        simp [hnone] at hwoken
      have hall : state.pushed = state.drained := by simpa [hempty] using hnext.fifo
      exact Or.inr (le_of_eq (congrArg List.length hall))
    · exact Or.inl rfl
  refine drained_run ⟨hnext, List.prefix_rfl, hbusy⟩ later ?_
  have hlength : state.pushed.length = state.drained.length + state.waiting := by
    rw [hqueued.fifo, List.append_assoc, List.length_append, List.length_append, State.waiting]
  calc state.pushed.length = state.drained.length + state.waiting := hlength
    _ ≤ state.drained.length + later.countP Event.isUpdate := Nat.add_le_add_left hcount _

/-! ## Whose fragments are activated -/

/-- Every row has the key that its id was given to. -/
def Keeps (owner : FragmentId → Option KeyId) (store : Store) : Prop := ∀ f ∈ store.fragments.rows, f.keyId = owner f.id

/-- The ids of a tenant are ids of its key. -/
def Owned (owner : FragmentId → Option KeyId) (call : ContextCall) (ids : List FragmentId) : Prop :=
  ∀ key, call.keyId = some key → ∀ id ∈ ids, owner id = some key

/-- No id changes its key, whoever writes. -/
def KeepsOutside (owner : FragmentId → Option KeyId) (_ : State) : Event → Prop
  | .outside store => Keeps owner store
  | .call _ | .seeds _ _ | .neighbors _ _ | .immediate | .updated _ _ | .expire _ => True

/-- What is drawn, queued or at work belongs to the key of its call. -/
structure Confined (owner : FragmentId → Option KeyId) (state : State) : Prop where
  rows : Keeps owner state.store
  seeds : ∀ call seedIds, (call, Stage.spreading seedIds) ∈ state.calls → Owned owner call seedIds
  batches : ∀ batch ∈ state.pushed, Owned owner batch.call batch.ids

variable {owner : FragmentId → Option KeyId}

theorem owned_seedRows {store : Store} (h : Keeps owner store) (call : ContextCall) (order : List FragmentId) :
    Owned owner call (seedRows toLowerCase store call order) := by
  intro key hkey id hid
  obtain ⟨f, hf, rfl⟩ := List.mem_map.mp (List.mem_dedup.mp (List.mem_of_mem_take hid))
  obtain ⟨hfound, hmatches⟩ := List.mem_filter.mp hf
  obtain ⟨found, -, hbyId⟩ := List.mem_filterMap.mp hfound
  have hstored := ((byId_eq_some_iff _).mp hbyId).1
  simp only [seedMatches, hkey, Option.isNone_some, Bool.false_or, Bool.and_eq_true, decide_eq_true_eq] at hmatches
  rw [← h f hstored]
  exact hmatches.1.2

theorem owned_neighborIds {store : Store} (h : Keeps owner store) (graphScore : Option (Link → ℚ)) (call : ContextCall)
    (seedIds : List FragmentId) : Owned owner call (neighborIds store graphScore call seedIds) := by
  intro key hkey id hid
  cases graphScore with
  | none => cases hid
  | some score =>
    obtain ⟨hit, hhit, rfl⟩ := List.mem_map.mp (List.mem_filter.mp hid).1
    obtain ⟨f, l, hjoined, rfl, -⟩ :=
      (fetchGraphNeighbors_strongest score store seedIds 10 call.agentId call.keyArgument {}).ofStrongestLink hit hhit
    have hkept := hjoined.kept
    simp only [admits, Bool.and_eq_true, ContextCall.keyArgument, hkey, Option.elim_some, effectiveKeyId, keyFilter,
      Option.all_some] at hkept
    have hrow := h f hjoined.stored
    rcases hf : f.keyId with _ | found
    · simp [hf] at hkept
    · have hsame : found = key := by simpa [hf, Subtype.ext_iff] using hkept.1.1.2
      rw [hf, hsame] at hrow
      exact hrow.symm

theorem keeps_spreadActivation {store : Store} (h : Keeps owner store) (cond : Fragment → Bool) (now : Time) :
    Keeps owner (store.updateFragments cond (spreadActivation now)) := by
  intro f hf
  obtain ⟨before, hbefore, rfl⟩ := (mem_updateFragments_iff store).mp hf
  have hrow := h before hbefore
  split
  · rw [(spreadActivation now).keyId_set, (spreadActivation now).id_set]
    exact hrow
  · exact hrow

theorem confined_step (state : State) (event : Event) (h : Confined owner state)
    (hevent : KeepsOutside owner state event) : Confined owner (step toLowerCase state event) := by
  cases event with
  | call arguments =>
    obtain ⟨cache, sets, stage, henter, hstage⟩ := enter_eq toLowerCase state arguments
    rw [step, henter]
    refine ⟨h.rows, fun call seedIds hmem => ?_, h.batches⟩
    rcases List.mem_append.mp hmem with hold | hnew
    · exact h.seeds call seedIds hold
    · exact absurd (Prod.mk.inj (List.mem_singleton.mp hnew)).2.symm (hstage seedIds)
  | seeds i order =>
    obtain ⟨sets, calls, hdrawn, hcalls⟩ := draw_eq toLowerCase state i order
    rw [step, hdrawn]
    refine ⟨h.rows, fun call seedIds hmem => ?_, h.batches⟩
    rcases hcalls call seedIds hmem with hold | hrows
    · exact h.seeds call seedIds hold
    · exact fun key hkey id hid => owned_seedRows h.rows call order key hkey id (hrows id hid)
  | neighbors i graphScore =>
    rw [step]
    obtain ⟨calls, hcalls, heq | ⟨call, seedIds, batch, hcall, -, hbatch, heq⟩⟩ := spread_eq state i graphScore
    · rw [heq]
      exact ⟨h.rows, fun call seedIds hmem => h.seeds call seedIds (hcalls call seedIds hmem), h.batches⟩
    · rw [heq]
      refine ⟨h.rows, fun call seedIds hmem => h.seeds call seedIds (hcalls call seedIds hmem),
        fun other hother => ?_⟩
      rcases List.mem_append.mp hother with hold | hnew
      · exact h.batches other hold
      · rw [List.mem_singleton.mp hnew, hbatch]
        intro key hkey id hid
        rcases List.mem_append.mp hid with hseed | hneighbor
        · exact h.seeds call seedIds hcall key hkey id hseed
        · exact owned_neighborIds h.rows graphScore call seedIds key hkey id hneighbor
  | immediate =>
    obtain ⟨later, running, immediates, heq, -⟩ := drainQueue_eq state
    rw [step, heq]
    exact ⟨h.rows, h.seeds, h.batches⟩
  | updated now succeeds =>
    rw [step]
    rcases update_eq state now succeeds with ⟨-, heq⟩ | ⟨batch, later, running, -, heq, -⟩
    · rw [heq]
      exact h
    · rw [heq]
      cases succeeds with
      | true => exact ⟨keeps_spreadActivation h.rows _ now, h.seeds, h.batches⟩
      | false => exact ⟨h.rows, h.seeds, h.batches⟩
  | expire cacheKey => exact ⟨h.rows, h.seeds, h.batches⟩
  | outside store => exact ⟨hevent, h.seeds, h.batches⟩

/-- The update of a tenant's batch leaves every row of another key or of the master as it was, although the statement
itself names no key. -/
def TenantUpdates (state : State) : Prop :=
  ∀ batch key, state.running = some batch → batch.call.keyId = some key → ∀ now succeeds f,
    f ∈ (state.update now succeeds).store.fragments.rows ↔ ∃ before ∈ state.store.fragments.rows,
      f = before ∧ (succeeds = false ∨ before.id ∉ batch.ids) ∨
      succeeds = true ∧ before.id ∈ batch.ids ∧ before.keyId = some key ∧ f = (spreadActivation now).set before

/-- In every run in which no one gives a fragment to another key. -/
theorem run_confined {store : Store} {events : List Event} (hstart : Keeps owner store)
    (hevents : StepsMeet (step toLowerCase) (KeepsOutside owner) { store := store } events) :
    TenantUpdates (run (step toLowerCase) { store := store } events) := by
  have hqueued := queued_run toLowerCase store events
  have hconfined : Confined owner (run (step toLowerCase) { store := store } events) :=
    invariant_run_of_meets confined_step ⟨hstart, by simp, by simp⟩ hevents
  generalize run (step toLowerCase) { store := store } events = state at hqueued hconfined ⊢
  intro batch key hrunning hkey now succeeds f
  have hpushed : batch ∈ state.pushed := by simp [hqueued.fifo, hrunning]
  rcases update_eq state now succeeds with ⟨hidle, -⟩ | ⟨found, later, next, hfound, heq, -⟩
  · rw [hidle] at hrunning
    cases hrunning
  rw [heq]
  obtain rfl : batch = found := Option.some.inj (hrunning.symm.trans hfound)
  cases succeeds with
  | false => simp
  | true =>
    simp only [if_true, mem_updateFragments_iff]
    refine exists_congr fun before => and_congr_right fun hbefore => ?_
    by_cases hmem : before.id ∈ batch.ids
    · have howner : before.keyId = some key := by
        rw [hconfined.rows before hbefore]
        exact hconfined.batches batch hpushed key hkey before.id hmem
      simp [hmem, howner]
    · simp [hmem]

/-- The key of a tenant. -/
def tenantKey : KeyId := ⟨"4b7e02d9-8c31-4a6f-9d05-e2f18b3c7a60", by decide⟩

/-- A fragment of the tenant. -/
def noted : Fragment where
  id := "note"
  content := "deploy by hand"
  topic := "ops"
  keywords := ["deploy"]
  type := .fact
  importance := 1 / 2
  contentHash := "0a"
  keyId := some tenantKey
  createdAt := 0

def notedStore : Store := { fragments := (Table.empty.insert noted).getD Table.empty }

/-- A recall of the tenant that speaks of it, up to the update. -/
def spokenRun : List Event :=
  [.call { contextText := "deploy", agentId := "default", keyId := some tenantKey }, .seeds 0 ["note"],
    .neighbors 0 none, .immediate]

theorem run_confined_noted : TenantUpdates (run (step id) { store := notedStore } spokenRun) := by
  have hstart : Keeps (fun _ => some tenantKey) notedStore := by
    intro f hf
    rw [List.mem_singleton.mp hf]
    rfl
  exact run_confined hstart ⟨trivial, trivial, trivial, trivial, trivial⟩

end FragmentMemory.SpreadingActivation
