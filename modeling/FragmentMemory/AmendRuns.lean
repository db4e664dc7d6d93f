import FragmentMemory.DryRuns

/-! # Amendments of one fragment side by side

`MemoryRememberer.amend` in its atomic steps: the read, the transaction of the writer, the pipeline that
takes the fragment out of the index and the one that registers it.  The index goes by the snapshot of
the read, the row by the one that the transaction locks.
-/
namespace FragmentMemory.AmendRuns
open ApiKeyStore FragmentTables FragmentFactory FragmentWriter FragmentReader FragmentIndex CaseEventStore
  MemoryRememberer MemoryRequests DryRuns InterleavedRuns TransitionRuns UniqueIndexTable

/-- A call on the fragment. -/
structure AmendCall where
  updates : FragmentUpdates
  groupKeyIds : Option (List KeyId) := none
  caller : Caller

def AmendCall.params (call : AmendCall) (id : FragmentId) : AmendParams where
  id := id
  updates := call.updates
  groupKeyIds := call.groupKeyIds

/-- Where a call stands.  A transaction that goes through draws the next ticket. -/
inductive Stage
  | reading
  | updating (existing : Fragment)
  | deindexing (ticket : ℕ) (existing result : Fragment)
  | indexing (ticket : ℕ) (existing result : Fragment)
  | finished
  deriving DecidableEq

structure Thread where
  call : AmendCall
  stage : Stage := .reading

def Thread.ticket (thread : Thread) : Option ℕ :=
  match thread.stage with
  | .deindexing ticket _ _ | .indexing ticket _ _ => some ticket
  | .reading | .updating _ | .finished => none

/-- The pipeline of the earliest ticket that has not run. -/
inductive Turn
  | deindex (ticket : ℕ)
  | index (ticket : ℕ)
  deriving DecidableEq

def Turn.ticket : Turn → ℕ
  | .deindex ticket | .index ticket => ticket

/-- The store with a record of what has happened: the versions of the row in the order in which they were
committed, the first of which is the one in the index at the start, and the pipeline that is due. -/
structure Shared where
  store : Store
  versions : List Fragment
  due : Turn := .deindex 1

variable (settings : Settings) (id : FragmentId)

/-- The transaction of a call. -/
def transact (now : Time) (store : Store) (call : AmendCall) : Store × UpdateResult :=
  update settings.digests settings.tools.countTokens now store id (normalizedUpdates settings call.updates)
    call.caller.keyId

/-- The row that the transaction hands on to the index. -/
def UpdateResult.row : UpdateResult → Option Fragment
  | .unchanged result | .updated result => some result
  | .missing | .merged _ | .failed => none

/-- The next step of a call. -/
def advance (draws : Draws) (shared : Shared) (thread : Thread) : Shared × Thread :=
  let call := thread.call
  match thread.stage with
  | .reading =>
    match amendedRow shared.store (call.params id) call.caller with
    | none => (shared, { thread with stage := .finished })
    | some existing => (shared, { thread with stage := .updating existing })
  | .updating existing =>
    let outcome := transact settings id draws.now shared.store call
    match UpdateResult.row outcome.2 with
    | none => ({ shared with store := outcome.1 }, { thread with stage := .finished })
    | some result =>
      ({ shared with store := outcome.1, versions := shared.versions ++ [result] },
        { thread with stage := .deindexing shared.versions.length existing result })
  | .deindexing ticket existing result =>
    ({ shared with
        store := deindex true settings.tools shared.store existing existing.keyId
        due := .index ticket },
      { thread with stage := .indexing ticket existing result })
  | .indexing ticket existing result =>
    let indexed := FragmentIndex.index true settings.tools shared.store result none existing.keyId
    ({ shared with
        store := recordVerification settings draws indexed existing call.updates.assertionStatus call.caller.keyId
        due := .deindex (ticket + 1) },
      { thread with stage := .finished })
  | .finished => (shared, thread)

/-- Calls that have not begun, on a fragment that is registered under its row. -/
def start (store : Store) (row : Fragment) (calls : List AmendCall) : Pool Shared Thread where
  shared := { store := store, versions := [row] }
  threads := calls.map fun call => { call := call }

/-- The sets of the keywords, the topic and the type of a row. -/
def rowSets (f : Fragment) : List IndexSet :=
  f.keywords.map (fun word => IndexSet.keyword f.keyId (settings.tools.toLowerCase word)) ++
    [.topic f.keyId f.topic, .type f.keyId f.type]

/-- A call on its own, with one clock throughout, is the request. -/
theorem run_alone (draws : Draws) (store : Store) (row : Fragment) (call : AmendCall)
    (hready : settings.redisReady = true) :
    (run (Pool.step (advance settings id)) (start store row [call])
      [(0, draws), (0, draws), (0, draws), (0, draws)]).shared.store =
      amend settings draws store (call.params id) call.caller := by
  have hgroups : amendedRow store (call.params id) call.caller = getById store id call.caller.agentId call.caller.keyId
      ((call.caller.groupKeyIds.or call.groupKeyIds).getD []) := rfl
  simp only [run_cons, run_nil, start, List.map_cons, List.map_nil, Pool.step, List.getElem?_cons_zero, advance]
  rw [amend]
  rcases hfound : amendedRow store (call.params id) call.caller with _ | existing
  · have hnone := hgroups.symm.trans hfound
    simp only [AmendCall.params] at hnone ⊢
    simp only [hnone, List.set_cons_zero, List.getElem?_cons_zero]
  · have hsome := hgroups.symm.trans hfound
    rcases houtcome : transact settings id draws.now store call with ⟨next, result⟩
    have hupdate : update settings.digests settings.tools.countTokens draws.now store id
        (normalizedUpdates settings call.updates) call.caller.keyId = (next, result) := houtcome
    simp only [normalizedUpdates] at hupdate
    simp only [AmendCall.params] at hsome ⊢
    simp only [hsome, hupdate, houtcome, hready, List.set_cons_zero, List.getElem?_cons_zero, Bool.false_eq_true,
      if_false]
    cases result <;> rfl

end FragmentMemory.AmendRuns
