import FragmentMemory.LiveCounts
import FragmentMemory.LockedRuns

/-! # The quota under concurrent transactions

`_rememberAtomic` and phase B of `BatchRememberProcessor.process`, statement by statement: both lock the
row of their key, count its live fragments under the lock, and upsert in the same transaction.  What a
transaction has written is its own until it commits; a statement reads the committed rows under them.
-/
namespace FragmentMemory.QuotaTransactions
open ApiKeyStore FragmentTables FragmentFactory FragmentWriter BatchRememberProcessor LiveCounts LockedRuns
  TransitionRuns
open ContentUniqueness (sampleKey sampleDigests sampleFragment sampleBatch)

/-- What a transaction is to insert: one fragment, or the items of a batch that passed phase A. -/
inductive Job
  | rememberAtomic (now : Time) (fragment : Fragment)
  | batchRemember (context : BatchContext) (validFragments : List (ℕ × Fragment))

/-- How far a transaction has come.  The key row is locked in the phases between. -/
inductive Phase
  | idle
  | begun
  | locked (fragmentLimit : ℕ)
  | inserting (written rest : List Fragment)
  | committed
  | rolledBack
  deriving DecidableEq

structure Writer where
  job : Job
  phase : Phase := .idle

def Writer.holdsLock (writer : Writer) : Bool :=
  match writer.phase with
  | .locked _ | .inserting _ _ => true
  | .idle | .begun | .committed | .rolledBack => false

/-- How a statement ends.  A failure sends the transaction to its `ROLLBACK`. -/
inductive Reply | ok | error deriving DecidableEq

variable (digests : Digests) (fragmentLimit : Option ℕ) (keyId : KeyId)

def Job.now : Job → Time
  | .rememberAtomic now _ => now
  | .batchRemember context _ => context.now

def Job.rows : Job → List Fragment
  | .rememberAtomic now f => [prepareInsertRow digests now f]
  | .batchRemember context valid => valid.map fun item => insertRow context item.2

/-- The rows that the count leaves to insert; none when the transaction is rolled back.  A batch drops
its items beyond the free slots. -/
def Job.admission (limit count : ℕ) (job : Job) : Option (List Fragment) :=
  match job with
  | .rememberAtomic _ _ => if limit ≤ count then none else some (job.rows digests)
  | .batchRemember _ _ =>
    if limit - count = 0 then none else some ((job.rows digests).take (limit - count))

/-- The next statement of a writer.  An open transaction keeps the locks on the rows that it wrote, so
replaying its upserts over the rows committed since gives what it sees. -/
def advance (reply : Reply) (store : Store) (writer : Writer) : Store × Writer :=
  match reply, writer.phase with
  | _, .committed => (store, writer)
  | _, .rolledBack => (store, writer)
  | .error, _ => (store, { writer with phase := .rolledBack })
  | .ok, .idle => (store, { writer with phase := .begun })
  | .ok, .begun =>
    match fragmentLimit with
    | none => (store, { writer with phase := .inserting [] (writer.job.rows digests) })
    | some limit => (store, { writer with phase := .locked limit })
  | .ok, .locked limit =>
    match writer.job.admission digests limit (liveCount store keyId) with
    | none => (store, { writer with phase := .rolledBack })
    | some rows => (store, { writer with phase := .inserting [] rows })
  | .ok, .inserting written (row :: rest) =>
    match upsertAll writer.job.now store (written ++ [row]) with
    | none => (store, { writer with phase := .rolledBack })
    | some _ => (store, { writer with phase := .inserting (written ++ [row]) rest })
  | .ok, .inserting written [] =>
    match upsertAll writer.job.now store written with
    | none => (store, { writer with phase := .rolledBack })
    | some next => (next, { writer with phase := .committed })

abbrev Database := Monitor Store Writer

/-- A committed store and any number of writers that have not begun. -/
def initial (store : Store) (jobs : ℕ → Job) : Database := Monitor.start store fun writer => { job := jobs writer }

/-- The database after a statement of a writer, or after the commit of another one. -/
def step (database : Database) (event : Event Store Reply) : Database :=
  database.step (advance digests fragmentLimit keyId) Writer.holdsLock event

/-- Other writers add no live row of the key. -/
def OthersAddNone (database : Database) (event : Event Store Reply) : Prop :=
  database.OutsideOnly (AddsNone keyId) event

variable {digests fragmentLimit keyId}

/-- What the transaction that holds the lock can rely on: committed rows and the rows of its own
stay within the limit. -/
def Reserved (keyId : KeyId) (limit : ℕ) (store : Store) (writer : Writer) : Prop :=
  match writer.phase with
  | .locked read => read = limit
  | .inserting written rest => liveCount store keyId + written.length + rest.length ≤ limit
  | _ => True

/-- The count leaves no more rows than there are free slots. -/
theorem length_admission {job : Job} {limit count : ℕ} {rows : List Fragment}
    (h : job.admission digests limit count = some rows) : count + rows.length ≤ limit := by
  cases job with
  | rememberAtomic now f =>
    simp only [Job.admission, Job.rows] at h
    split at h
    · cases h
    · cases h
      rw [List.length_singleton]
      omega
  | batchRemember context valid =>
    simp only [Job.admission] at h
    split at h
    · cases h
    · have htaken := List.length_take_le (limit - count) ((Job.batchRemember context valid).rows digests)
      rw [Option.some.inj h] at htaken
      omega

theorem phase_of_holdsLock {writer : Writer} (h : writer.holdsLock = true) :
    (∃ read, writer.phase = .locked read) ∨ ∃ written rest, writer.phase = .inserting written rest := by
  cases hphase : writer.phase <;> simp_all [Writer.holdsLock]

/-- A statement outside the lock reads and writes no fragment; the one that takes the lock reads the limit. -/
theorem advance_outside (reply : Reply) (store : Store) {writer : Writer} (h : writer.holdsLock = false) :
    (advance digests fragmentLimit keyId reply store writer).1 = store ∧
      ∀ limit, fragmentLimit = some limit →
        (advance digests fragmentLimit keyId reply store writer).2.holdsLock = true →
          Reserved keyId limit store (advance digests fragmentLimit keyId reply store writer).2 := by
  obtain ⟨job, phase⟩ := writer
  cases reply <;> cases phase <;> cases fragmentLimit <;> simp_all [advance, Writer.holdsLock, Reserved]

/-- A statement under the lock keeps the limit and what is reserved. -/
theorem advance_locked {limit : ℕ} (reply : Reply) {store : Store} {writer : Writer}
    (hstore : liveCount store keyId ≤ limit) (hreserved : Reserved keyId limit store writer)
    (h : writer.holdsLock = true) :
    liveCount (advance digests fragmentLimit keyId reply store writer).1 keyId ≤ limit ∧
      Reserved keyId limit (advance digests fragmentLimit keyId reply store writer).1
        (advance digests fragmentLimit keyId reply store writer).2 := by
  obtain ⟨job, phase⟩ := writer
  rcases phase_of_holdsLock h with ⟨read, rfl⟩ | ⟨written, rest, rfl⟩
  · have hread : read = limit := hreserved
    subst hread
    cases reply with
    | error => exact ⟨hstore, trivial⟩
    | ok =>
      simp only [advance]
      split
      · exact ⟨hstore, trivial⟩
      · rename_i rows hadmission
        have hlength := length_admission hadmission
        refine ⟨hstore, ?_⟩
        simp only [Reserved, List.length_nil]
        omega
  · have hfits : liveCount store keyId + written.length + rest.length ≤ limit := hreserved
    cases reply with
    | error => exact ⟨hstore, trivial⟩
    | ok =>
      cases rest with
      | nil =>
        simp only [advance]
        split
        · exact ⟨hstore, trivial⟩
        · rename_i next hcommit
          have hgrown := @liveCount_upsertAll_le keyId _ _ _ _ hcommit
          refine ⟨?_, trivial⟩
          simp only [List.length_nil] at hfits ⊢
          omega
      | cons row later =>
        simp only [advance]
        split
        · exact ⟨hstore, trivial⟩
        · refine ⟨hstore, ?_⟩
          simp only [Reserved, List.length_append, List.length_cons, List.length_nil] at hfits ⊢
          omega

theorem reserved_of_addsNone {limit : ℕ} {store next : Store} (h : AddsNone keyId store next) {writer : Writer}
    (hreserved : Reserved keyId limit store writer) : Reserved keyId limit next writer := by
  have hcount := h.liveCount_le
  obtain ⟨job, phase⟩ := writer
  cases phase with
  | inserting written rest =>
    simp only [Reserved] at hreserved ⊢
    omega
  | _ => exact hreserved

/-- The transactions keep to the discipline of the lock: the limit is the invariant, and what the holder
has reserved is its assertion. -/
theorem protocol (limit : ℕ) : Monitor.Protocol (advance digests (some limit) keyId) Writer.holdsLock
    (fun store => liveCount store keyId ≤ limit) (Reserved keyId limit) (AddsNone keyId) where
  idle reply store _ h := (advance_outside reply store h).1
  enter reply store _ _ h hlocked := (advance_outside reply store h).2 limit rfl hlocked
  within reply _ _ hstore hreserved h :=
    have hkept := advance_locked reply hstore hreserved h
    ⟨hkept.1, fun _ => hkept.2⟩
  outside _ _ hstore h := ⟨h.liveCount_le.trans hstore, fun _ => reserved_of_addsNone h⟩

/-- However the transactions interleave, the key keeps to its limit as long as no other writer adds live
rows of it. -/
theorem limit_kept {limit : ℕ} {store : Store} (hstart : liveCount store keyId ≤ limit) (jobs : ℕ → Job)
    {events : List (Event Store Reply)}
    (hothers : StepsMeet (step digests (some limit) keyId) (OthersAddNone keyId) (initial store jobs) events) :
    liveCount (run (step digests (some limit) keyId) (initial store jobs) events).shared keyId ≤ limit := by
  have hinitial : (initial store jobs).Holds Writer.holdsLock (fun current => liveCount current keyId ≤ limit)
      (Reserved keyId limit) := Monitor.holds_start hstart fun _ => rfl
  have hrun := Monitor.holds_run (protocol limit) hinitial hothers
  exact hrun.shared

/-- The clients of the samples: a remember, and a batch of one item. -/
def sampleJobs (writer : ℕ) : Job :=
  if writer = 0 then .rememberAtomic 1 sampleFragment
  else .batchRemember sampleBatch [(0, { sampleFragment with id := "frag-02", contentHash := "c0ffee" })]

/-- A batch that begins while a remember holds the lock waits for it, and is refused afterwards. -/
theorem limit_kept_waiting :
    liveCount (run (step sampleDigests (some 1) sampleKey) (initial {} sampleJobs)
      [.turn 0 .ok, .turn 1 .ok, .turn 0 .ok, .turn 1 .ok, .turn 0 .ok, .turn 0 .ok, .turn 0 .ok, .turn 1 .ok,
        .turn 1 .ok, .turn 1 .ok]).shared sampleKey ≤ 1 :=
  limit_kept (Nat.zero_le 1) sampleJobs
    ⟨trivial, trivial, trivial, trivial, trivial, trivial, trivial, trivial, trivial, trivial, trivial⟩

/-- The statements after the count, with nothing in between. -/
theorem inserts_alone {job : Job} {store next : Store} (rest : List Fragment) (written : List Fragment)
    (hcommit : upsertAll job.now store (written ++ rest) = some next) :
    Monitor.alone (advance digests fragmentLimit keyId) (List.replicate (rest.length + 1) .ok)
      (store, { job := job, phase := .inserting written rest }) = (next, { job := job, phase := .committed }) := by
  induction rest generalizing written with
  | nil =>
    rw [List.append_nil] at hcommit
    simp only [Monitor.alone, List.length_nil, List.replicate, List.foldl_cons, List.foldl_nil, advance, hcommit]
  | cons row later ih =>
    rw [List.append_cons] at hcommit
    obtain ⟨inserted, hinserted⟩ : ∃ inserted, upsertAll job.now store (written ++ [row]) = some inserted := by
      rw [upsertAll_append] at hcommit
      obtain ⟨inserted, hinserted, -⟩ := Option.bind_eq_some_iff.mp hcommit
      exact ⟨inserted, hinserted⟩
    have hrest := ih (written ++ [row]) hcommit
    simp only [Monitor.alone, List.length_cons, List.replicate_succ, List.foldl_cons, advance, hinserted] at hrest ⊢
    exact hrest

/-- A transaction that meets no other commits what it was admitted to insert. -/
theorem commits_alone {store next : Store} {jobs : ℕ → Job} {writer limit : ℕ} {rows : List Fragment}
    (hadmission : (jobs writer).admission digests limit (liveCount store keyId) = some rows)
    (hcommit : upsertAll (jobs writer).now store rows = some next) :
    (run (step digests (some limit) keyId) (initial store jobs)
      ((List.replicate (rows.length + 4) .ok).map (Event.turn writer))).shared = next := by
  have hbegin : Monitor.alone (advance digests (some limit) keyId) [.ok, .ok, .ok] (store, { job := jobs writer }) =
      (store, { job := jobs writer, phase := .inserting [] rows }) := by
    simp only [Monitor.alone, List.foldl_cons, List.foldl_nil, advance, hadmission]
  have hturns : List.replicate (rows.length + 4) Reply.ok =
      [.ok, .ok, .ok] ++ List.replicate (rows.length + 1) Reply.ok := rfl
  have halone := (@Monitor.run_alone _ _ _ (advance digests (some limit) keyId) Writer.holdsLock writer
    (List.replicate (rows.length + 4) .ok) (initial store jobs) fun _ hholder => nomatch hholder).1
  refine halone.trans ?_
  have hinserts := @inserts_alone digests (some limit) keyId (jobs writer) store next rows [] hcommit
  rw [Monitor.alone] at hbegin hinserts
  rw [hturns, Monitor.alone, List.foldl_append]
  simp only [initial, Monitor.start, hbegin, hinserts]

/-- So a remember that has a free slot ends in the store of its insert. -/
theorem rememberAtomic_alone {store next : Store} {jobs : ℕ → Job} {writer limit : ℕ} {now : Time} {f : Fragment}
    {id : FragmentId} (hjob : jobs writer = .rememberAtomic now f) (hslot : liveCount store keyId < limit)
    (hinsert : insert digests now store f = some (next, id)) :
    (run (step digests (some limit) keyId) (initial store jobs)
      ((List.replicate 5 .ok).map (Event.turn writer))).shared = next := by
  have hadmission :
    (jobs writer).admission digests limit (liveCount store keyId) = some [prepareInsertRow digests now f] := by
    simp only [hjob, Job.admission, Job.rows, if_neg (Nat.not_le.mpr hslot)]
  have hupsert : upsertRow now store (prepareInsertRow digests now f) = some (next, id) := hinsert
  have hcommit : upsertAll (jobs writer).now store [prepareInsertRow digests now f] = some next := by
    simp only [hjob, Job.now, upsertAll, hupsert, Option.bind_some]
  have halone := commits_alone hadmission hcommit
  simp only [List.length_singleton, Nat.reduceAdd] at halone
  exact halone

/-- And a batch in the store of the multi-row insert of the items that its free slots leave. -/
theorem batchRemember_alone {store next : Store} {jobs : ℕ → Job} {writer limit : ℕ} {context : BatchContext}
    {valid : List (ℕ × Fragment)} {inserted : List (ℕ × Fragment × FragmentId)}
    (hjob : jobs writer = .batchRemember context valid) (hslot : liveCount store keyId < limit)
    (hinsert : insertAll context store (valid.take (limit - liveCount store keyId)) = some (next, inserted)) :
    (run (step digests (some limit) keyId) (initial store jobs)
      ((List.replicate ((valid.take (limit - liveCount store keyId)).length + 4) .ok).map (Event.turn writer))).shared =
        next := by
  have hadmission : (jobs writer).admission digests limit (liveCount store keyId) =
      some ((valid.take (limit - liveCount store keyId)).map fun item => insertRow context item.2) := by
    have hpositive : limit - liveCount store keyId ≠ 0 := by omega
    simp only [hjob, Job.admission, Job.rows, if_neg hpositive, List.map_take]
  have hcommit : upsertAll (jobs writer).now store
      ((valid.take (limit - liveCount store keyId)).map fun item => insertRow context item.2) = some next := by
    simp only [hjob, Job.now, upsertAll_insertAll, hinsert, Option.map_some]
  have halone := commits_alone hadmission hcommit
  rw [List.length_map] at halone
  exact halone

end FragmentMemory.QuotaTransactions
