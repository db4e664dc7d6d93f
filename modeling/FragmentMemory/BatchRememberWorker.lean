import FragmentMemory.FragmentTables
import FragmentMemory.RedisLists
import FragmentMemory.TransitionRuns

/-! # The worker of asynchronous batches

`BatchRememberWorker` over the Redis lists of its queue: the waiting jobs, those in processing and the dead
letters.  Every Redis command is a step of its own, after which the process may crash.  The status hash of a
job is neither read here nor able to fail a step.
-/
namespace FragmentMemory.BatchRememberWorker
open FragmentTables RedisLists TransitionRuns

/-- What `_enqueueAsync` asks to be processed. -/
structure Job (Params : Type) where
  jobId : String
  params : Params

/-- The object that is serialised into a list: of a waiting job or of a dead letter. -/
structure Envelope (Params : Type) where
  job : Job Params
  retryCount : ℕ := 0
  queuedAt : Option Time := none
  lastError : Option String := none
  deadAt : Option Time := none

/-- `JSON.stringify` and `JSON.parse`; the lists may hold values that do not parse. -/
structure JsonCodec (Raw Params : Type) where
  stringify : Envelope Params → Raw
  parse : Raw → Option (Envelope Params)
  parse_stringify : ∀ envelope, parse (stringify envelope) = some envelope

/-- `queue:<name>`, `queue:<name>:processing` and `queue:<name>:dead`. -/
structure Lists (Raw : Type) where
  queue : List Raw := []
  processing : List Raw := []
  dead : List Raw := []

/-- Where the worker stands: stopped or crashed, in the loop of `requeueProcessing`, before its next pop, in
`process`, before the push of a failed job, or before the acknowledgement. -/
inductive Worker (Raw Params : Type)
  | down
  | recovering
  | polling
  | working (raw : Raw) (envelope : Envelope Params)
  | disposing (raw : Raw) (envelope : Envelope Params) (error : String)
  | acking (raw : Raw)

/-- The lists and the worker, with the jobs whose enqueue has succeeded and those whose `process` call has
completed. -/
structure System (Raw Params : Type) where
  lists : Lists Raw := {}
  worker : Worker Raw Params := .down
  accepted : List (Job Params) := []
  completed : List (Job Params) := []

/-- An enqueue, the next Redis command of the worker, the end of a `process` call with its error if it throws,
a crash, or a restart. -/
inductive Event (Params : Type)
  | enqueue (job : Job Params) (now : Time) (delivery : Delivery)
  | command (now : Time) (delivery : Delivery)
  | processed (error : Option String)
  | crash
  | restart

variable {Raw Params : Type} [DecidableEq Raw] (codec : JsonCodec Raw Params) (retryLimit : ℕ)

/-- `pushToQueue`. -/
def pushToQueue (lists : Lists Raw) (envelope : Envelope Params) (now : Time) (delivery : Delivery) : Lists Raw :=
  if delivery.executed then
    { lists with queue := lpush lists.queue (codec.stringify { envelope with queuedAt := some now }) }
  else lists

/-- `pushToQueueDead`. -/
def pushToQueueDead (lists : Lists Raw) (envelope : Envelope Params) (now : Time) (delivery : Delivery) : Lists Raw :=
  if delivery.executed then
    { lists with dead := lpush lists.dead (codec.stringify { envelope with deadAt := some now }) }
  else lists

/-- One turn of the loop in `requeueProcessing`: the loop ends when nothing is moved or the command throws. -/
def requeueTurn (lists : Lists Raw) (delivery : Delivery) : Lists Raw × Worker Raw Params :=
  let moved := rpoplpush lists.processing lists.queue
  let after := if delivery.executed then { lists with processing := moved.2.1, queue := moved.2.2 } else lists
  (after, if delivery = .answered ∧ moved.1.isSome then .recovering else .polling)

/-- `popFromQueueReliable`: a value that does not parse stays in processing. -/
def popTurn (lists : Lists Raw) (delivery : Delivery) : Lists Raw × Worker Raw Params :=
  let moved := rpoplpush lists.queue lists.processing
  let after := if delivery.executed then { lists with queue := moved.2.1, processing := moved.2.2 } else lists
  (after, match delivery, moved.1 with
    | .answered, some raw =>
      match codec.parse raw with
      | some envelope => .working raw envelope
      | none => .polling
    | _, _ => .polling)

/-- The disposition of a failed job: back to the queue, or to the dead letters.  Unless the push is answered,
the job is not acknowledged. -/
def dispose (lists : Lists Raw) (raw : Raw) (envelope : Envelope Params) (error : String) (now : Time)
    (delivery : Delivery) : Lists Raw × Worker Raw Params :=
  let after := if envelope.retryCount < retryLimit then
      pushToQueue codec lists { job := envelope.job, retryCount := envelope.retryCount + 1 } now delivery
    else pushToQueueDead codec lists { job := envelope.job, retryCount := envelope.retryCount, lastError := some error }
      now delivery
  (after, if delivery = .answered then .acking raw else .polling)

/-- `ackQueueItem`. -/
def ackTurn (lists : Lists Raw) (raw : Raw) (delivery : Delivery) : Lists Raw × Worker Raw Params :=
  (if delivery.executed then { lists with processing := lrem lists.processing raw } else lists, .polling)

/-- The next Redis command of the worker; a stopped worker and one in `process` have none. -/
def command (now : Time) (delivery : Delivery) (lists : Lists Raw) :
    Worker Raw Params → Lists Raw × Worker Raw Params
  | .recovering => requeueTurn lists delivery
  | .polling => popTurn codec lists delivery
  | .disposing raw envelope error => dispose codec retryLimit lists raw envelope error now delivery
  | .acking raw => ackTurn lists raw delivery
  | worker => (lists, worker)

def step (system : System Raw Params) : Event Params → System Raw Params
  | .enqueue job now delivery =>
    { system with
      lists := pushToQueue codec system.lists { job := job } now delivery
      accepted := if delivery = .answered then job :: system.accepted else system.accepted }
  | .command now delivery =>
    let after := command codec retryLimit now delivery system.lists system.worker
    { system with lists := after.1, worker := after.2 }
  | .processed error =>
    match system.worker, error with
    | .working raw envelope, none =>
      { system with worker := .acking raw, completed := envelope.job :: system.completed }
    | .working raw envelope, some reason => { system with worker := .disposing raw envelope reason }
    | _, _ => system
  | .crash => { system with worker := .down }
  | .restart =>
    match system.worker with
    | .down => { system with worker := .recovering }
    | _ => system

end FragmentMemory.BatchRememberWorker
