import FragmentMemory.LinkStore
import FragmentMemory.TransitionRuns

/-! # ReconsolidationEngine

Calls of `reconsolidate` in one process, interleaved statement by statement with each other, with the clock
and with the transactions of others.  Every statement may fail, which leaves the tables as they are.  A call
holds the lock of its row from the SELECT to the end of its transaction, and the two maps of the module are
read and written between the statements.
-/
namespace FragmentMemory.ReconsolidationEngine
open ApiKeyStore FragmentTables LinkStore TransitionRuns

def RATE_LIMIT_MS : ℕ := 60000

/-- The serial id of a link. -/
abbrev LinkId := ℕ

def actionName : ReconsolidateAction → String
  | .reinforce => "reinforce"
  | .decay => "decay"
  | .quarantine => "quarantine"
  | .restore => "restore"
  | .softDelete => "soft_delete"

/-- The arguments of a call. -/
structure Call where
  linkId : LinkId
  action : ReconsolidateAction
  triggeredBy : Option String := none
  keyId : Option KeyId := none

/-- The columns of the locked SELECT. -/
structure Values where
  weight : ℚ
  confidence : ℚ

def valuesOf (l : Link) : Values := { weight := l.weight, confidence := l.confidence }

/-- The object that a call returns. -/
structure Row where
  id : LinkId
  newWeight : ℚ
  newConfidence : ℚ
  oldWeight : ℚ
  oldConfidence : ℚ
  deriving DecidableEq

/-- What `RETURNING` gives of the updated link, with the values of the SELECT. -/
def rowOf (id : LinkId) (previous : Values) (written : Link) : Row where
  id := id
  newWeight := written.weight
  newConfidence := written.confidence
  oldWeight := previous.weight
  oldConfidence := previous.confidence

/-- A row of `link_reconsolidations`. -/
structure Audit where
  linkId : LinkId
  action : ReconsolidateAction
  oldWeight : ℚ
  newWeight : ℚ
  oldConfidence : ℚ
  newConfidence : ℚ
  reason : String
  triggeredBy : Option String
  keyId : Option KeyId
  deriving DecidableEq

def auditOf (call : Call) (row : Row) : Audit where
  linkId := call.linkId
  action := call.action
  oldWeight := row.oldWeight
  newWeight := row.newWeight
  oldConfidence := row.oldConfidence
  newConfidence := row.newConfidence
  reason := call.triggeredBy.getD (actionName call.action)
  triggeredBy := call.triggeredBy
  keyId := call.keyId

inductive Outcome
  | null
  | threw
  | row (row : Row)
  deriving DecidableEq

/-- Where a call is: the statement that it waits for and what its transaction holds.  The updated link and
the audit row are private to the transaction until it commits. -/
inductive Phase
  | connecting
  | beginning
  | selecting
  | updating (previous : Values)
  | inserting (row : Row) (written : Link)
  | committing (row : Row) (written : Link) (audit : Audit)
  /-- The database has committed, and the answer is on its way. -/
  | acknowledged (row : Row)
  | rollingBack (thrown : Bool)
  | settled (outcome : Outcome) (returnedAt : Time)

/-- Before the COMMIT. -/
def Phase.undecided : Phase → Bool
  | .acknowledged _ | .settled _ _ => false
  | _ => true

/-- Before the call returns. -/
def Phase.unsettled : Phase → Bool
  | .settled _ _ => false
  | _ => true

structure Entry where
  call : Call
  startedAt : Time
  phase : Phase

structure State where
  now : Time
  links : LinkId → Option Link
  audits : List Audit
  /-- The row locks, by the call whose transaction has them. -/
  locks : LinkId → Option ℕ
  lastDecayAt : LinkId → Option Time
  pendingDecay : LinkId → Bool
  calls : ℕ → Option Entry

/-- The process after its start. -/
def idle (now : Time) (links : LinkId → Option Link) (audits : List Audit) : State where
  now := now
  links := links
  audits := audits
  locks := fun _ => none
  lastDecayAt := fun _ => none
  pendingDecay := fun _ => false
  calls := fun _ => none

inductive Event
  | tick (elapsed : ℕ)
  /-- A transaction of others writes or deletes a row. -/
  | other (id : LinkId) (link : Option Link)
  | start (i : ℕ) (call : Call)
  /-- The statement that a call waits for succeeds, at the given time of the database. -/
  | succeeds (i : ℕ) (time : Time)
  | fails (i : ℕ)

def Event.caller : Event → Option ℕ
  | .tick _ | .other _ _ => none
  | .start i _ | .succeeds i _ | .fails i => some i

namespace State

/-- The row under `WHERE id = $1 AND deleted_at IS NULL`. -/
def liveLink (s : State) (id : LinkId) : Option Link := (s.links id).filter fun l => l.deletedAt.isNone

/-- The check at the start of a limited call. -/
def heldBack (s : State) (id : LinkId) : Bool :=
  s.pendingDecay id || (s.lastDecayAt id).any fun last => s.now - last < RATE_LIMIT_MS

def enter (s : State) (i : ℕ) (call : Call) (phase : Phase) : State :=
  { s with calls := Function.update s.calls i (some { call := call, startedAt := s.now, phase := phase }) }

def letIn (s : State) (i : ℕ) (call : Call) : State :=
  { s.enter i call .connecting with
    pendingDecay := if call.action.limited then Function.update s.pendingDecay call.linkId true else s.pendingDecay }

def start (s : State) (i : ℕ) (call : Call) : State :=
  if (s.calls i).isSome then s
  else if call.action.limited && s.heldBack call.linkId then s.enter i call (.settled .null s.now)
  else s.letIn i call

/-- The call waits for its next statement. -/
def advance (s : State) (i : ℕ) (entry : Entry) (phase : Phase) : State :=
  { s with calls := Function.update s.calls i (some { entry with phase := phase }) }

/-- The end of a transaction gives up its lock. -/
def release (s : State) (i : ℕ) (id : LinkId) : LinkId → Option ℕ :=
  if s.locks id = some i then Function.update s.locks id none else s.locks

/-- The call returns or throws, past its `finally`. -/
def settle (s : State) (i : ℕ) (entry : Entry) (outcome : Outcome) : State :=
  { s with
    locks := s.release i entry.call.linkId
    pendingDecay :=
      if entry.call.action.limited then Function.update s.pendingDecay entry.call.linkId false else s.pendingDecay
    calls := Function.update s.calls i (some { entry with phase := .settled outcome s.now }) }

/-- `SELECT … FOR UPDATE`; it waits while another transaction has the lock. -/
def select (s : State) (i : ℕ) (entry : Entry) : State :=
  if (s.locks entry.call.linkId).isSome then s
  else match s.liveLink entry.call.linkId with
    | none => s.advance i entry (.rollingBack false)
    | some l => { s.advance i entry (.updating (valuesOf l)) with
        locks := Function.update s.locks entry.call.linkId (some i) }

/-- `UPDATE … RETURNING`. -/
def update (s : State) (i : ℕ) (entry : Entry) (previous : Values) (time : Time) : State :=
  match s.liveLink entry.call.linkId with
  | none => s.advance i entry (.rollingBack false)
  | some l =>
    let written := reconsolidated entry.call.action time l
    s.advance i entry (.inserting (rowOf entry.call.linkId previous written) written)

/-- The COMMIT makes the link and the audit row visible and gives up the lock. -/
def commit (s : State) (i : ℕ) (entry : Entry) (row : Row) (written : Link) (audit : Audit) : State :=
  { s.advance i entry (.acknowledged row) with
    links := Function.update s.links entry.call.linkId (some written)
    audits := s.audits ++ [audit]
    locks := s.release i entry.call.linkId }

/-- The code after the COMMIT. -/
def finish (s : State) (i : ℕ) (entry : Entry) (row : Row) : State :=
  { s.settle i entry (.row row) with
    lastDecayAt :=
      if entry.call.action.limited then Function.update s.lastDecayAt entry.call.linkId (some s.now)
      else s.lastDecayAt }

def succeed (s : State) (i : ℕ) (entry : Entry) (time : Time) : State :=
  match entry.phase with
  | .connecting => s.advance i entry .beginning
  | .beginning => s.advance i entry .selecting
  | .selecting => s.select i entry
  | .updating previous => s.update i entry previous time
  | .inserting row written => s.advance i entry (.committing row written (auditOf entry.call row))
  | .committing row written audit => s.commit i entry row written audit
  | .acknowledged row => s.finish i entry row
  | .rollingBack thrown => s.settle i entry (if thrown then .threw else .null)
  | .settled _ _ => s

/-- A failed statement is followed by a ROLLBACK, after the connection is there.  A ROLLBACK that fails on the
way to null is followed by the one of the `catch`. -/
def fail (s : State) (i : ℕ) (entry : Entry) : State :=
  match entry.phase with
  | .connecting => s.settle i entry .threw
  | .beginning | .selecting | .updating _ | .inserting _ _ | .committing _ _ _ => s.advance i entry (.rollingBack true)
  | .rollingBack false => s.advance i entry (.rollingBack true)
  | .rollingBack true => s.settle i entry .threw
  | .acknowledged _ | .settled _ _ => s

end State

def step (s : State) : Event → State
  | .tick elapsed => { s with now := s.now + elapsed }
  | .other id link =>
    if (s.locks id).isSome then s else { s with links := Function.update s.links id link }
  | .start i call => s.start i call
  | .succeeds i time => (s.calls i).elim s fun entry => s.succeed i entry time
  | .fails i => (s.calls i).elim s fun entry => s.fail i entry

/-! ## What a step can do -/

/-- The link of a call has the values of the row that the call is about to write. -/
def Computed (s : State) (call : Call) (row : Row) (written : Link) : Prop :=
  ∃ old time, s.liveLink call.linkId = some old ∧ written = reconsolidated call.action time old ∧
    row = rowOf call.linkId (valuesOf old) written

/-- What a transaction relies on: it has the lock of its row, and the row is as it was read. -/
def Accurate (s : State) (i : ℕ) (entry : Entry) : Prop :=
  match entry.phase with
  | .updating previous => s.locks entry.call.linkId = some i ∧
      ∃ l, s.liveLink entry.call.linkId = some l ∧ previous = valuesOf l
  | .inserting row written => s.locks entry.call.linkId = some i ∧ Computed s entry.call row written
  | .committing row written audit => s.locks entry.call.linkId = some i ∧ Computed s entry.call row written ∧
      audit = auditOf entry.call row
  | _ => True

/-- The steps of a state, with the call that takes them. -/
inductive Moves (s : State) : Option ℕ → State → Prop
  | same (caller : Option ℕ) : Moves s caller s
  | time (elapsed : ℕ) : Moves s none { s with now := s.now + elapsed }
  | other (id : LinkId) (link : Option Link) (hfree : s.locks id = none) :
      Moves s none { s with links := Function.update s.links id link }
  | rejected (i : ℕ) (call : Call) (hnew : s.calls i = none) :
      Moves s (some i) (s.enter i call (.settled .null s.now))
  | admitted (i : ℕ) (call : Call) (hnew : s.calls i = none)
      (hfree : call.action.limited = true → s.heldBack call.linkId = false) : Moves s (some i) (s.letIn i call)
  | advanced (i : ℕ) (entry : Entry) (next : Phase) (locks : LinkId → Option ℕ) (hcall : s.calls i = some entry)
      (hundecided : entry.phase.undecided = true) (hnext : next.undecided = true)
      (hlocks : ∀ id j, s.locks id = some j → locks id = some j)
      (haccurate : Accurate s i entry →
        Accurate { s.advance i entry next with locks := locks } i { entry with phase := next }) :
      Moves s (some i) { s.advance i entry next with locks := locks }
  | wrote (i : ℕ) (entry : Entry) (row : Row) (written : Link) (audit : Audit) (hcall : s.calls i = some entry)
      (hphase : entry.phase = .committing row written audit) : Moves s (some i) (s.commit i entry row written audit)
  | returned (i : ℕ) (entry : Entry) (row : Row) (hcall : s.calls i = some entry)
      (hphase : entry.phase = .acknowledged row) : Moves s (some i) (s.finish i entry row)
  | failed (i : ℕ) (entry : Entry) (outcome : Outcome) (hcall : s.calls i = some entry)
      (hundecided : entry.phase.undecided = true) (houtcome : ∀ row, outcome ≠ .row row) :
      Moves s (some i) (s.settle i entry outcome)

variable {s s' : State} {caller : Option ℕ} {i j : ℕ} {entry : Entry}

theorem undecided_of_eq {phase : Phase} (h : entry.phase = phase) (hphase : phase.undecided = true) :
    entry.phase.undecided = true := by
  rw [h]
  exact hphase

/-- An advance that takes no lock. -/
theorem Moves.plain (hcall : s.calls i = some entry) (hundecided : entry.phase.undecided = true) {next : Phase}
    (hnext : next.undecided = true)
    (haccurate : Accurate s i entry → Accurate (s.advance i entry next) i { entry with phase := next }) :
    Moves s (some i) (s.advance i entry next) :=
  .advanced i entry next s.locks hcall hundecided hnext (fun _ _ h => h) haccurate

theorem moves_start (s : State) (i : ℕ) (call : Call) : Moves s (some i) (s.start i call) := by
  rw [State.start]
  cases hnew : s.calls i with
  | some entry => exact .same _
  | none =>
    simp only [Option.isSome_none, Bool.false_eq_true, if_false]
    split
    · exact .rejected i call hnew
    · rename_i hfree
      refine .admitted i call hnew fun hlimited => ?_
      rw [hlimited, Bool.true_and, Bool.not_eq_true] at hfree
      exact hfree

theorem moves_select (hcall : s.calls i = some entry) (hphase : entry.phase = .selecting) :
    Moves s (some i) (s.select i entry) := by
  have hundecided : entry.phase.undecided = true := undecided_of_eq hphase rfl
  rw [State.select]
  split
  · exact .same _
  · rename_i hfree
    rw [Option.not_isSome_iff_eq_none] at hfree
    cases hlink : s.liveLink entry.call.linkId with
    | none => exact .plain hcall hundecided rfl fun _ => trivial
    | some l =>
      refine .advanced i entry _ _ hcall hundecided rfl ?_ fun _ => ⟨Function.update_self _ _ _, l, hlink, rfl⟩
      intro id j hheld
      have hne : id ≠ entry.call.linkId := by
        rintro rfl
        rw [hfree] at hheld
        cases hheld
      rw [Function.update_of_ne hne, hheld]

theorem moves_update (hcall : s.calls i = some entry) {previous : Values} (hphase : entry.phase = .updating previous)
    (time : Time) : Moves s (some i) (s.update i entry previous time) := by
  have hundecided : entry.phase.undecided = true := undecided_of_eq hphase rfl
  rw [State.update]
  cases hlink : s.liveLink entry.call.linkId with
  | none => exact .plain hcall hundecided rfl fun _ => trivial
  | some l =>
    refine .plain hcall hundecided rfl fun haccurate => ?_
    rw [Accurate, hphase] at haccurate
    obtain ⟨hlock, read, hread, rfl⟩ := haccurate
    obtain rfl : read = l := Option.some.inj (hread.symm.trans hlink)
    exact ⟨hlock, read, time, hlink, rfl, rfl⟩

theorem moves_succeed (hcall : s.calls i = some entry) (time : Time) : Moves s (some i) (s.succeed i entry time) := by
  rw [State.succeed]
  cases hphase : entry.phase with
  | connecting => exact .plain hcall (undecided_of_eq hphase rfl) rfl fun _ => trivial
  | beginning => exact .plain hcall (undecided_of_eq hphase rfl) rfl fun _ => trivial
  | selecting => exact moves_select hcall hphase
  | updating previous => exact moves_update hcall hphase time
  | inserting row written =>
    refine .plain hcall (undecided_of_eq hphase rfl) rfl fun haccurate => ?_
    rw [Accurate, hphase] at haccurate
    exact ⟨haccurate.1, haccurate.2, rfl⟩
  | committing row written audit => exact .wrote i entry row written audit hcall hphase
  | acknowledged row => exact .returned i entry row hcall hphase
  | rollingBack thrown =>
    refine .failed i entry _ hcall (undecided_of_eq hphase rfl) fun row => ?_
    cases thrown <;> simp
  | settled outcome returnedAt => exact .same _

theorem moves_fail (hcall : s.calls i = some entry) : Moves s (some i) (s.fail i entry) := by
  have hadvance : entry.phase.undecided = true → Moves s (some i) (s.advance i entry (.rollingBack true)) :=
    fun hundecided => .plain hcall hundecided rfl fun _ => trivial
  have hsettle : entry.phase.undecided = true → Moves s (some i) (s.settle i entry .threw) :=
    fun hundecided => .failed i entry .threw hcall hundecided fun _ => by simp
  rw [State.fail]
  cases hphase : entry.phase with
  | connecting => exact hsettle (undecided_of_eq hphase rfl)
  | rollingBack thrown =>
    cases thrown with
    | false => exact hadvance (undecided_of_eq hphase rfl)
    | true => exact hsettle (undecided_of_eq hphase rfl)
  | acknowledged row => exact .same _
  | settled outcome returnedAt => exact .same _
  | _ => exact hadvance (undecided_of_eq hphase rfl)

theorem moves_step (s : State) (event : Event) : Moves s event.caller (step s event) := by
  cases event with
  | tick elapsed => exact .time elapsed
  | other id link =>
    simp only [step]
    split
    · exact .same _
    · rename_i hfree
      exact .other id link (Option.not_isSome_iff_eq_none.mp hfree)
  | start i call => exact moves_start s i call
  | succeeds i time =>
    cases hcall : s.calls i with
    | none =>
      simp only [step, hcall]
      exact .same _
    | some entry =>
      simp only [step, hcall]
      exact moves_succeed hcall time
  | fails i =>
    cases hcall : s.calls i with
    | none =>
      simp only [step, hcall]
      exact .same _
    | some entry =>
      simp only [step, hcall]
      exact moves_fail hcall

/-- The end of one transaction leaves the locks of the others. -/
theorem release_of_ne {id held : LinkId} (h : s.locks held = some j) (hj : j ≠ i) : s.release i id held = some j := by
  rw [State.release]
  split
  · rename_i hown
    have hne : held ≠ id := by
      rintro rfl
      exact hj (Option.some.inj (h.symm.trans hown))
    rw [Function.update_of_ne hne, h]
  · exact h

/-! ## The transactions -/

/-- A transaction keeps what it relies on while its row and the lock on it stay. -/
theorem Accurate.congr (h : Accurate s i entry)
    (hkept : s.locks entry.call.linkId = some i →
      s'.locks entry.call.linkId = some i ∧ s'.links entry.call.linkId = s.links entry.call.linkId) :
    Accurate s' i entry := by
  have hlive : s.locks entry.call.linkId = some i → s'.liveLink entry.call.linkId = s.liveLink entry.call.linkId := by
    intro hlock
    rw [State.liveLink, State.liveLink, (hkept hlock).2]
  have hcomputed : ∀ {row written}, s.locks entry.call.linkId = some i → Computed s entry.call row written →
      Computed s' entry.call row written := by
    intro row written hlock hcomputed
    obtain ⟨old, time, hold, hwritten, hrow⟩ := hcomputed
    exact ⟨old, time, (hlive hlock).trans hold, hwritten, hrow⟩
  simp only [Accurate] at h ⊢
  split
  · rename_i previous hphase
    simp only [hphase] at h
    obtain ⟨hlock, l, hl, hprevious⟩ := h
    exact ⟨(hkept hlock).1, l, (hlive hlock).trans hl, hprevious⟩
  · rename_i row written hphase
    simp only [hphase] at h
    exact ⟨(hkept h.1).1, hcomputed h.1 h.2⟩
  · rename_i row written audit hphase
    simp only [hphase] at h
    exact ⟨(hkept h.1).1, hcomputed h.1 h.2.1, h.2.2⟩
  · trivial

/-- Every transaction has what it relies on. -/
def AllAccurate (s : State) : Prop := ∀ i entry, s.calls i = some entry → Accurate s i entry

theorem AllAccurate.moves (h : AllAccurate s) (hmoves : Moves s caller s') : AllAccurate s' := by
  intro j found hfound
  cases hmoves with
  | same => exact h j found hfound
  | time elapsed => exact (h j found hfound).congr fun hlock => ⟨hlock, rfl⟩
  | other id link hfree =>
    refine (h j found hfound).congr fun hlock => ⟨hlock, Function.update_of_ne ?_ _ _⟩
    rintro rfl
    rw [hfree] at hlock
    cases hlock
  | rejected i call hnew =>
    rcases eq_or_of_update hfound with ⟨rfl, rfl⟩ | ⟨-, hold⟩
    · trivial
    · exact (h j found hold).congr fun hlock => ⟨hlock, rfl⟩
  | admitted i call hnew hfree =>
    rcases eq_or_of_update hfound with ⟨rfl, rfl⟩ | ⟨-, hold⟩
    · trivial
    · exact (h j found hold).congr fun hlock => ⟨hlock, rfl⟩
  | advanced i entry next locks hcall hundecided hnext hlocks haccurate =>
    rcases eq_or_of_update hfound with ⟨rfl, rfl⟩ | ⟨-, hold⟩
    · exact haccurate (h j entry hcall)
    · exact (h j found hold).congr fun hlock => ⟨hlocks _ _ hlock, rfl⟩
  | wrote i entry row written audit hcall hphase =>
    rcases eq_or_of_update hfound with ⟨rfl, rfl⟩ | ⟨hj, hold⟩
    · trivial
    · have hown := h i entry hcall
      rw [Accurate, hphase] at hown
      refine (h j found hold).congr fun hlock => ⟨release_of_ne hlock hj, Function.update_of_ne ?_ _ _⟩
      intro hsame
      rw [hsame, hown.1] at hlock
      exact hj (Option.some.inj hlock).symm
  | returned i entry row hcall hphase =>
    rcases eq_or_of_update hfound with ⟨rfl, rfl⟩ | ⟨hj, hold⟩
    · trivial
    · exact (h j found hold).congr fun hlock => ⟨release_of_ne hlock hj, rfl⟩
  | failed i entry outcome hcall hundecided houtcome =>
    rcases eq_or_of_update hfound with ⟨rfl, rfl⟩ | ⟨hj, hold⟩
    · trivial
    · exact (h j found hold).congr fun hlock => ⟨release_of_ne hlock hj, rfl⟩

theorem allAccurate_run (now : Time) (links : LinkId → Option Link) (audits : List Audit) (events : List Event) :
    AllAccurate (run step (idle now links audits) events) := by
  apply invariant_run
  · intro state event h
    exact h.moves (moves_step state event)
  · intro i entry hentry
    cases hentry

end FragmentMemory.ReconsolidationEngine
