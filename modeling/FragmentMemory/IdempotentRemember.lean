import FragmentMemory.InterleavedRuns
import FragmentMemory.RememberLiveness

/-! # Remember calls that carry one idempotency key

A call looks its idempotency key up among the live rows, and inserts when it finds none.  The insert
yields to the row with the same content hash, and it is refused when another row, live or not, carries
the key.  Calls are interleaved statement by statement with each other and with any other statement on
the fragments.
-/
namespace FragmentMemory.IdempotentRemember
open ApiKeyStore FragmentTables FragmentFactory FragmentWriter FragmentReader BatchRememberProcessor MemoryRememberer
  RememberLiveness JsString ContentUniqueness TransitionRuns InterleavedRuns UniqueIndexTable

structure Call where
  params : RememberParams
  caller : Caller

inductive CallOutcome
  | returned (id : FragmentId)
  | simulated
  | failed
  | uniqueViolation
  deriving DecidableEq

/-- What is left of a call, and the connection over which everything else is executed. -/
inductive CallRun
  | lookup (call : Call)
  | insertNew (call : Call)
  | answered (outcome : CallOutcome)
  | others

/-- A statement of anything else on the fragments: the insert of another request, a change of columns
without unique index (an expiry, a deduplication, an access), an amendment, a removal. -/
inductive Statement
  | upsert (now : Time) (row : Fragment)
  | update (cond : Fragment → Bool) (change : ColumnUpdate)
  | amend (now : Time) (id : FragmentId) (updates : FragmentUpdates)
  | remove (cond : Fragment → Bool)

/-- The input of a step: what the next statement of a call meets outside the table, with the case that
its queries have found, or the other statement to execute. -/
inductive StepInput
  | call (draws : Draws) (caseId : Option String)
  | statement (statement : Statement)

variable (settings : Settings)

/-- A statement that throws changes nothing. -/
def Statement.apply (store : Store) : Statement → Store
  | .upsert now row => ((upsertRow now store row).map Prod.fst).getD store
  | .update cond change => store.updateFragments cond change
  | .amend now id updates =>
    match store.fragments.byId id with
    | none => store
    | some existing =>
      let row := updates.apply settings.digests settings.tools.countTokens now existing
      match store.fragments.replace (.primary id) row with
      | some fragments => { store with fragments := fragments }
      | none => store
  | .remove cond => store.deleteFragments cond

/-- `remember` up to the lookup of the idempotency key. -/
def lookup (draws : Draws) (store : Store) (call : Call) : CallRun :=
  match call.params.content.bind contentInputError with
  | some _ => .answered .failed
  | none =>
    if call.params.sessionScope ∧ call.params.session.isSome then
      match create settings.digests settings.tools draws.newId draws.now
          { call.params.toFragmentParams with sessionId := call.params.session } with
      | .error _ => .answered .failed
      | .ok f => .answered (.returned f.id)
    else match checkIdempotency store call.params call.caller.keyId with
      | some existing => .answered (.returned existing.id)
      | none => if call.params.dryRun then .answered .simulated else .insertNew call

/-- The fragment that reaches the unique indexes: the quota, the checks of the content, the policy gate
and the constraint on the importance let it through. -/
def admitted (draws : Draws) (store : Store) (call : Call) (caseId : Option String) : Option Fragment :=
  if (!(settings.rememberAtomic && call.caller.keyId.isSome)) && draws.quotaRefuses then none
  else
    match buildFragment settings draws call.params caseId call.caller with
    | .error _ => none
    | .ok f =>
      if draws.hardGateBlocks && call.caller.keyId.isSome then none
      else if quotaRefuses settings draws store call.caller.keyId then none
      else if checkImportance (prepareInsertRow settings.digests draws.now f).importance then some f else none

/-- The rest of `remember` up to its insert. -/
def insertNew (draws : Draws) (store : Store) (call : Call) (caseId : Option String) : Store × CallOutcome :=
  match admitted settings draws store call caseId with
  | none => (store, .failed)
  | some f =>
    match insert settings.digests draws.now store f with
    | some (next, id) => (next, .returned id)
    | none => (store, .uniqueViolation)

def advance (input : StepInput) (store : Store) (thread : CallRun) : Store × CallRun :=
  match input, thread with
  | .call draws _, .lookup call => (store, lookup settings draws store call)
  | .call draws caseId, .insertNew call =>
    let inserted := insertNew settings draws store call caseId
    (inserted.1, .answered inserted.2)
  | .statement statement, .others => (statement.apply settings store, .others)
  | _, thread => (store, thread)

/-- The calls over the store, next to everything else. -/
def startCalls (store : Store) (calls : List Call) : Pool Store CallRun where
  shared := store
  threads := calls.map .lookup ++ [.others]

def runCalls : Pool Store CallRun → List (ℕ × StepInput) → Pool Store CallRun := run (Pool.step (advance settings))

/-- Every call that has succeeded has returned this id. -/
def AllReturned (threads : List CallRun) (id : FragmentId) : Prop := ∀ other, .answered (.returned other) ∈ threads → other = id

/-- All calls that have succeeded returned one id, and none failed at a unique index. -/
structure Coherent (threads : List CallRun) : Prop where
  sameId : ∀ id, .answered (.returned id) ∈ threads → AllReturned threads id
  noViolation : .answered .uniqueViolation ∉ threads

/-- The key is idempotent: besides, one row at most carries it. -/
structure Idempotent (keyId : Option KeyId) (idempotencyKey : String) (pool : Pool Store CallRun) : Prop where
  coherent : Coherent pool.threads
  oneRow : ∀ f ∈ pool.shared.fragments.rows, ∀ g ∈ pool.shared.fragments.rows, f.keyId = keyId → g.keyId = keyId →
    f.idempotencyKey = some idempotencyKey → g.idempotencyKey = some idempotencyKey → f = g

/-- A lookup that answers the call finds the row that the calls before it returned; a session fragment
is a new one. -/
def AgreesLookup (draws : Draws) (store : Store) (threads : List CallRun) (call : Call) : Prop :=
  call.params.content.bind contentInputError = none →
    if call.params.sessionScope ∧ call.params.session.isSome then
      ∀ f, create settings.digests settings.tools draws.newId draws.now
        { call.params.toFragmentParams with sessionId := call.params.session } = .ok f → AllReturned threads f.id
    else ∀ existing, checkIdempotency store call.params call.caller.keyId = some existing → AllReturned threads existing.id

/-- An insert yields to the row that the calls before it returned; where no row holds its content hash,
no call has returned another id and no row holds another of its index entries. -/
def AgreesInsert (draws : Draws) (store : Store) (threads : List CallRun) (f : Fragment) : Prop :=
  match store.fragments.holder (.contentHash f.keyId (computeContentHash settings.digests f.content)) with
  | some held => AllReturned threads held.id
  | none => AllReturned threads f.id ∧
      Table.Fits Fragment.entries store.fragments.rows (prepareInsertRow settings.digests draws.now f)

/-- The condition on a step of a call in the state before it. -/
def Agrees (pool : Pool Store CallRun) (event : ℕ × StepInput) : Prop :=
  ∀ draws caseId, event.2 = .call draws caseId →
    (∀ call, pool.threads[event.1]? = some (.lookup call) → AgreesLookup settings draws pool.shared pool.threads call) ∧
    (∀ call, pool.threads[event.1]? = some (.insertNew call) →
      ∀ f, admitted settings draws pool.shared call caseId = some f → AgreesInsert settings draws pool.shared pool.threads f)

variable {settings}

/-- The statements of the case assignment, one after the other. -/
theorem exists_assignStatements (draws : Draws) (store : Store) (params : RememberParams) (caller : Caller) :
    ∃ statements : List Statement, statements.foldl (fun current statement => statement.apply settings current) store =
      (autoAssignCaseId draws store params caller).1 := by
  have hupdates : ∀ (ids : List FragmentId) (current : Store),
      (ids.map fun id => Statement.update (fun f => f.id = id && f.live && ownedBy caller.keyId f)
        (setCaseId draws.newCaseId)).foldl (fun current statement => statement.apply settings current) current =
      ids.foldl (fun current id => updateCaseId current id draws.newCaseId caller.keyId) current := by
    intro ids
    induction ids with
    | nil => exact fun _ => rfl
    | cons id later ih => exact fun current => ih _
  simp only [autoAssignCaseId]
  split
  · split
    · split
      · exact ⟨[], rfl⟩
      · split
        · exact ⟨[], rfl⟩
        · split
          · exact ⟨[], rfl⟩
          · exact ⟨_, hupdates _ store⟩
    · exact ⟨[], rfl⟩
  · exact ⟨[], rfl⟩

theorem admitted_of_acceptNew {draws : Draws} {store : Store} {call : Call} {accepted : Accepted}
    (h : acceptNew settings draws store call.params call.caller = .ok accepted) :
    insertNew settings draws (autoAssignCaseId draws store call.params call.caller).1 call
      (autoAssignCaseId draws store call.params call.caller).2 = (accepted.store, .returned accepted.id) := by
  simp only [acceptNew] at h
  split at h
  · cases h
  · rename_i hquota
    split at h
    · cases h
    · rename_i f hbuild
      split at h
      · cases h
      · rename_i hgate
        split at h
        · cases h
        · rename_i hlimit
          split at h
          · cases h
          · rename_i next id hinsert
            cases h
            have hcheck : checkImportance (prepareInsertRow settings.digests draws.now f).importance = true := by
              by_contra hnot
              simp only [FragmentWriter.insert, upsertRow, if_neg hnot] at hinsert
              cases hinsert
            simp only [insertNew, admitted, if_neg hquota, hbuild, if_neg hgate, if_neg hlimit, if_pos hcheck, hinsert]

/-- Other statements leave a call where it is. -/
theorem runCalls_others (statements : List Statement) (store : Store) (thread : CallRun) :
    runCalls settings ⟨store, [thread, .others]⟩ (statements.map fun statement => (1, .statement statement)) =
      ⟨statements.foldl (fun current statement => statement.apply settings current) store, [thread, .others]⟩ := by
  induction statements generalizing store with
  | nil => rfl
  | cons statement later ih => exact ih _

/-- With nothing but its own statements in between, a call reports what `remember` reports. -/
theorem runCalls_alone {draws : Draws} {store : Store} {call : Call} {id : FragmentId}
    (h : acceptedId (remember settings draws store call.params call.caller).2 = some id) :
    ∃ schedule, runCalls settings (startCalls store [call]) schedule =
      ⟨insertedStore settings draws store call.params call.caller, [.answered (.returned id), .others]⟩ := by
  simp only [remember] at h
  rcases hcontent : call.params.content.bind contentInputError with _ | reason
  · rw [hcontent] at h
    by_cases hsession : call.params.sessionScope ∧ call.params.session.isSome
    · simp only [if_pos hsession] at h
      split at h <;> cases h
    · simp only [if_neg hsession] at h
      rcases hexisting : checkIdempotency store call.params call.caller.keyId with _ | existing
      · simp only [hexisting] at h
        by_cases hdry : call.params.dryRun = true
        · simp only [if_pos hdry] at h
          split at h <;> cases h
        · simp only [if_neg hdry] at h
          rcases haccepted : acceptNew settings draws store call.params call.caller with reason | accepted
          · rw [haccepted] at h
            cases h
          · rw [haccepted] at h
            cases h
            obtain ⟨statements, hstatements⟩ := @exists_assignStatements settings draws store call.params call.caller
            have hlookup : lookup settings draws store call = .insertNew call := by
              simp only [lookup, hcontent, if_neg hsession, hexisting, if_neg hdry]
            refine ⟨(0, .call draws none) :: (statements.map fun statement => (1, .statement statement)) ++
              [(0, .call draws (autoAssignCaseId draws store call.params call.caller).2)], ?_⟩
            have hfirst : (startCalls store [call]).step (advance settings) (0, .call draws none) =
                ⟨store, [.insertNew call, .others]⟩ := by
              rw [← hlookup]
              rfl
            have hothers := @runCalls_others settings statements store (.insertNew call)
            have hinserted : insertedStore settings draws store call.params call.caller = accepted.store := by
              simp only [insertedStore, hexisting, haccepted, Option.isSome_none, Bool.false_eq_true, if_false]
            rw [runCalls] at hothers ⊢
            rw [List.cons_append, run_cons, hfirst, run_append, hothers, hstatements, hinserted]
            have hlast := admitted_of_acceptNew haccepted
            rw [run_cons, run_nil, Pool.step]
            simp only [List.getElem?_cons_zero, advance, hlast, List.set_cons_zero]
      · simp only [hexisting] at h
        cases h
        have hlookup : lookup settings draws store call = .answered (.returned existing.id) := by
          simp only [lookup, hcontent, if_neg hsession, hexisting]
        refine ⟨[(0, .call draws none)], ?_⟩
        rw [insertedStore, hexisting, Option.isSome_some, if_pos rfl, ← hlookup]
        rfl
  · rw [hcontent] at h
    cases h

theorem mem_answered_set {threads : List CallRun} {i : ℕ} {thread next : CallRun} (h : threads[i]? = some thread)
    (hopen : ∀ outcome, thread ≠ .answered outcome) (outcome : CallOutcome) :
    .answered outcome ∈ threads.set i next ↔ .answered outcome ∈ threads ∨ next = .answered outcome := by
  obtain ⟨hlt, hthread⟩ := List.getElem?_eq_some_iff.mp h
  constructor
  · intro hmem
    rcases List.mem_or_eq_of_mem_set hmem with hold | hnew
    · exact Or.inl hold
    · exact Or.inr hnew.symm
  · rintro (hold | hnew)
    · obtain ⟨j, hj, hanswered⟩ := List.mem_iff_getElem.mp hold
      have hne : i ≠ j := by
        rintro rfl
        exact hopen outcome (hthread.symm.trans hanswered)
      refine List.mem_iff_getElem.mpr ⟨j, by rwa [List.length_set], ?_⟩
      rw [List.getElem_set_ne hne, hanswered]
    · refine List.mem_iff_getElem.mpr ⟨i, by rwa [List.length_set], ?_⟩
      rw [List.getElem_set_self, hnew]

/-- What the next state of a call must not do to the coherence of the answers. -/
def AnswerAgrees (threads : List CallRun) : CallRun → Prop
  | .answered (.returned id) => AllReturned threads id
  | .answered .uniqueViolation => False
  | _ => True

theorem coherent_set {threads : List CallRun} {i : ℕ} {thread next : CallRun} (h : threads[i]? = some thread)
    (hopen : ∀ outcome, thread ≠ .answered outcome) :
    Coherent (threads.set i next) ↔ Coherent threads ∧ AnswerAgrees threads next := by
  have hmem := @mem_answered_set threads i thread next h hopen
  constructor
  · rintro ⟨hsame, hnone⟩
    have hold : ∀ {outcome}, .answered outcome ∈ threads → .answered outcome ∈ threads.set i next :=
      fun hanswered => (hmem _).mpr (Or.inl hanswered)
    refine ⟨⟨fun id hid other hother => hsame id (hold hid) other (hold hother), fun hviolation => hnone (hold hviolation)⟩, ?_⟩
    cases next with
    | answered outcome =>
      cases outcome with
      | returned id => exact fun other hother => hsame id ((hmem _).mpr (Or.inr rfl)) other (hold hother)
      | uniqueViolation => exact hnone ((hmem _).mpr (Or.inr rfl))
      | _ => trivial
    | _ => trivial
  · rintro ⟨⟨hsame, hnone⟩, hagrees⟩
    refine ⟨fun id hid other hother => ?_, fun hmemViolation => ?_⟩
    · rcases (hmem _).mp hid with hold | rfl
      · rcases (hmem _).mp hother with hotherOld | rfl
        · exact hsame id hold other hotherOld
        · exact (hagrees id hold).symm
      · rcases (hmem _).mp hother with hother | hother
        · exact hagrees other hother
        · cases hother
          rfl
    · rcases (hmem _).mp hmemViolation with hold | rfl
      · exact hnone hold
      · exact hagrees

/-- The answer of a lookup. -/
theorem lookup_agrees (draws : Draws) (store : Store) (threads : List CallRun) (call : Call) :
    AnswerAgrees threads (lookup settings draws store call) ↔ AgreesLookup settings draws store threads call := by
  rcases hcontent : call.params.content.bind contentInputError with _ | reason
  · by_cases hsession : call.params.sessionScope ∧ call.params.session.isSome
    · rcases hcreate : create settings.digests settings.tools draws.newId draws.now
          { call.params.toFragmentParams with sessionId := call.params.session } with reason | f
      · simp only [lookup, AgreesLookup, hcontent, if_pos hsession, hcreate, AnswerAgrees]
        refine iff_of_true trivial ?_
        rintro - _ ⟨⟩
      · simp only [lookup, AgreesLookup, hcontent, if_pos hsession, hcreate, AnswerAgrees]
        constructor
        · rintro h - g ⟨⟩
          exact h
        · exact fun h => h trivial f rfl
    · rcases hexisting : checkIdempotency store call.params call.caller.keyId with _ | existing
      · simp only [lookup, AgreesLookup, hcontent, if_neg hsession, hexisting]
        refine iff_of_true ?_ (by rintro - _ ⟨⟩)
        by_cases hdry : call.params.dryRun = true
        · rw [if_pos hdry]
          trivial
        · rw [if_neg hdry]
          trivial
      · simp only [lookup, AgreesLookup, hcontent, if_neg hsession, hexisting, AnswerAgrees]
        constructor
        · rintro h - g ⟨⟩
          exact h
        · exact fun h => h trivial existing rfl
  · simp only [lookup, AgreesLookup, hcontent, AnswerAgrees]
    refine iff_of_true trivial ?_
    rintro ⟨⟩

theorem admitted_spec {draws : Draws} {store : Store} {call : Call} {caseId : Option String} {f : Fragment}
    (h : admitted settings draws store call caseId = some f) :
    buildFragment settings draws call.params caseId call.caller = .ok f ∧
      checkImportance (prepareInsertRow settings.digests draws.now f).importance = true := by
  simp only [admitted] at h
  split at h
  · cases h
  · split at h
    · cases h
    · rename_i built hbuild
      split at h
      · cases h
      · split at h
        · cases h
        · split at h
          · rename_i hcheck
            cases h
            exact ⟨hbuild, hcheck⟩
          · cases h

/-- The insert of an admitted fragment: it yields to the row with its hash, or needs free entries. -/
theorem insert_admitted {digests : Digests} {now : Time} (store : Store) {f : Fragment}
    (hcheck : checkImportance (prepareInsertRow digests now f).importance = true) :
    (insert digests now store f).map Prod.snd =
      match store.fragments.holder (.contentHash f.keyId (computeContentHash digests f.content)) with
      | some held => some held.id
      | none => if Table.Fits Fragment.entries store.fragments.rows (prepareInsertRow digests now f) then some f.id
        else none := by
  have harbiter : FragmentEntry.contentHash (prepareInsertRow digests now f).keyId
      (prepareInsertRow digests now f).contentHash = .contentHash f.keyId (computeContentHash digests f.content) := rfl
  simp only [FragmentWriter.insert, upsertRow, if_pos hcheck, Table.upsert, harbiter]
  cases store.fragments.holder (.contentHash f.keyId (computeContentHash digests f.content)) with
  | some held => rfl
  | none =>
    simp only [Table.insert]
    split
    · rfl
    · rfl

/-- The answer of an insert. -/
theorem insertNew_agrees (draws : Draws) (store : Store) (threads : List CallRun) (call : Call)
    (caseId : Option String) :
    AnswerAgrees threads (.answered (insertNew settings draws store call caseId).2) ↔
      ∀ f, admitted settings draws store call caseId = some f → AgreesInsert settings draws store threads f := by
  rcases hadmitted : admitted settings draws store call caseId with _ | f
  · simp only [insertNew, hadmitted, AnswerAgrees]
    refine iff_of_true trivial ?_
    rintro _ ⟨⟩
  · have hinsert := insert_admitted store (admitted_spec hadmitted).2
    have hsingle : (∀ g, some f = some g → AgreesInsert settings draws store threads g) ↔
        AgreesInsert settings draws store threads f := by
      constructor
      · exact fun h => h f rfl
      · rintro h _ ⟨⟩
        exact h
    rw [hsingle]
    simp only [insertNew, hadmitted, AgreesInsert]
    rcases hresult : FragmentWriter.insert settings.digests draws.now store f with _ | ⟨next, id⟩
    · rw [hresult] at hinsert
      simp only [AnswerAgrees]
      revert hinsert
      cases store.fragments.holder (.contentHash f.keyId (computeContentHash settings.digests f.content)) with
      | some held => exact fun h => by cases h
      | none =>
        intro hinsert
        simp only at hinsert ⊢
        split at hinsert
        · cases hinsert
        · rename_i hfits
          exact iff_of_false id fun h => hfits h.2
    · rw [hresult] at hinsert
      simp only [AnswerAgrees]
      revert hinsert
      cases store.fragments.holder (.contentHash f.keyId (computeContentHash settings.digests f.content)) with
      | some held =>
        rintro ⟨⟩
        exact Iff.rfl
      | none =>
        intro hinsert
        simp only at hinsert ⊢
        split at hinsert
        · rename_i hfits
          cases hinsert
          exact (and_iff_left hfits).symm
        · cases hinsert

theorem agrees_lookup {pool : Pool Store CallRun} {i : ℕ} {draws : Draws} {caseId : Option String} {call : Call}
    (h : pool.threads[i]? = some (.lookup call)) :
    Agrees settings pool (i, .call draws caseId) ↔ AgreesLookup settings draws pool.shared pool.threads call := by
  constructor
  · exact fun hagrees => (hagrees draws caseId rfl).1 call h
  · rintro hagrees _ _ ⟨⟩
    refine ⟨fun other hother => ?_, fun other hother => ?_⟩
    · rw [h] at hother
      cases hother
      exact hagrees
    · rw [h] at hother
      cases hother

theorem agrees_insertNew {pool : Pool Store CallRun} {i : ℕ} {draws : Draws} {caseId : Option String} {call : Call}
    (h : pool.threads[i]? = some (.insertNew call)) :
    Agrees settings pool (i, .call draws caseId) ↔
      ∀ f, admitted settings draws pool.shared call caseId = some f →
        AgreesInsert settings draws pool.shared pool.threads f := by
  constructor
  · exact fun hagrees => (hagrees draws caseId rfl).2 call h
  · rintro hagrees _ _ ⟨⟩
    refine ⟨fun other hother => ?_, fun other hother => ?_⟩
    · rw [h] at hother
      cases hother
    · rw [h] at hother
      cases hother
      exact hagrees

/-- Nothing is asked where no call takes a step. -/
theorem agrees_of_not_call {pool : Pool Store CallRun} {event : ℕ × StepInput}
    (h : ∀ call, pool.threads[event.1]? ≠ some (.lookup call) ∧ pool.threads[event.1]? ≠ some (.insertNew call)) :
    Agrees settings pool event :=
  fun _ _ _ => ⟨fun call hcall => absurd hcall (h call).1, fun call hcall => absurd hcall (h call).2⟩

/-- A step keeps the answers coherent exactly when it meets the condition. -/
theorem coherent_step (pool : Pool Store CallRun) (event : ℕ × StepInput) :
    Coherent (pool.step (advance settings) event).threads ↔ Coherent pool.threads ∧ Agrees settings pool event := by
  obtain ⟨i, input⟩ := event
  rcases Pool.step_cases (advance settings) pool (i, input) with ⟨hnone, hsame⟩ |
    ⟨thread, hthread, -, -, hthreads⟩
  · have hagrees : Agrees settings pool (i, input) := by
      refine agrees_of_not_call fun call => ?_
      rw [hnone]
      exact ⟨nofun, nofun⟩
    rw [hsame, and_iff_left hagrees]
  · have hsilent : (advance settings input pool.shared thread).2 = thread → Agrees settings pool (i, input) →
        (Coherent (pool.step (advance settings) (i, input)).threads ↔
          Coherent pool.threads ∧ Agrees settings pool (i, input)) := by
      intro hunchanged hagrees
      obtain ⟨hlt, rfl⟩ := List.getElem?_eq_some_iff.mp hthread
      rw [hthreads, hunchanged, List.set_getElem_self, and_iff_left hagrees]
    have hidle : (∀ call, thread ≠ .lookup call ∧ thread ≠ .insertNew call) → Agrees settings pool (i, input) := by
      refine fun h => agrees_of_not_call fun call => ?_
      rw [hthread]
      exact ⟨fun hsome => (h call).1 (Option.some.inj hsome), fun hsome => (h call).2 (Option.some.inj hsome)⟩
    cases input with
    | statement statement =>
      have hagrees : Agrees settings pool (i, .statement statement) := fun _ _ h => by cases h
      cases thread with
      | _ => exact hsilent rfl hagrees
    | call draws caseId =>
      cases thread with
      | lookup call => rw [hthreads, coherent_set hthread nofun, advance, lookup_agrees, agrees_lookup hthread]
      | insertNew call =>
        rw [hthreads, coherent_set hthread nofun, advance, insertNew_agrees, agrees_insertNew hthread]
      | answered outcome => exact hsilent rfl (hidle fun _ => ⟨nofun, nofun⟩)
      | others => exact hsilent rfl (hidle fun _ => ⟨nofun, nofun⟩)

/-- No call has been answered at the start. -/
theorem coherent_startCalls (store : Store) (calls : List Call) : Coherent (startCalls store calls).threads := by
  have hnone : ∀ outcome, .answered outcome ∉ (startCalls store calls).threads := by
    intro outcome hmem
    rcases List.mem_append.mp hmem with hcall | hothers
    · obtain ⟨call, -, hcall⟩ := List.mem_map.mp hcall
      cases hcall
    · cases List.mem_singleton.mp hothers
  exact ⟨fun id hid => absurd hid (hnone _), hnone _⟩

/-- The unique index leaves one row of the key with the idempotency key. -/
theorem eq_of_idempotencyKey (store : Store) {f g : Fragment} (hf : f ∈ store.fragments.rows)
    (hg : g ∈ store.fragments.rows) {keyId : Option KeyId} {idempotencyKey : String} (hfKey : f.keyId = keyId)
    (hgKey : g.keyId = keyId) (hfIdem : f.idempotencyKey = some idempotencyKey)
    (hgIdem : g.idempotencyKey = some idempotencyKey) : f = g := by
  have hentry : ∀ h : Fragment, h.keyId = keyId → h.idempotencyKey = some idempotencyKey →
      FragmentEntry.idempotency keyId idempotencyKey ∈ h.entries := by
    intro h hkey hidem
    simp only [Fragment.entries, hkey, hidem, Option.map_some, Option.toList_some, List.mem_cons, true_or, or_true]
  exact store.fragments.eq_of_entry hf hg (hentry f hfKey hfIdem) (hentry g hgKey hgIdem)

theorem idempotent_of_coherent {keyId : Option KeyId} {idempotencyKey : String} {pool : Pool Store CallRun}
    (h : Coherent pool.threads) : Idempotent keyId idempotencyKey pool :=
  ⟨h, fun _ hf _ hg hfKey hgKey hfIdem hgIdem => eq_of_idempotencyKey _ hf hg hfKey hgKey hfIdem hgIdem⟩

section SameContent

variable (settings) (keyId : Option KeyId) (idempotencyKey hash : String)

/-- Every row with the idempotency key holds the content. -/
def KeyedContent (store : Store) : Prop :=
  ∀ f ∈ store.fragments.rows, f.keyId = keyId → f.idempotencyKey = some idempotencyKey → f.contentHash = hash

/-- The row of the id holds the content. -/
def HoldsContent (store : Store) (id : FragmentId) : Prop :=
  ∃ f ∈ store.fragments.rows, f.id = id ∧ f.keyId = keyId ∧ f.contentHash = hash

/-- A permanent remember of the content with the idempotency key. -/
structure SameRequest (call : Call) : Prop where
  keyId : call.caller.keyId = keyId
  idempotencyKey : call.params.idempotencyKey = some idempotencyKey
  content : computeContentHash settings.digests (requestContent settings call.params) = hash
  permanent : ¬ (call.params.sessionScope ∧ call.params.session.isSome)

/-- A statement writes no row with the idempotency key, and neither gives the row of the content another
one nor removes it.  It may expire it. -/
def StatementSpares (store : Store) : Statement → Prop
  | .upsert _ row => ¬ (row.keyId = keyId ∧ row.idempotencyKey = some idempotencyKey)
  | .update _ _ => True
  | .amend _ id updates => ∀ f ∈ store.fragments.rows, f.id = id → f.keyId = keyId → f.contentHash = hash →
      ∀ content ∈ updates.content, computeContentHash settings.digests content = hash
  | .remove cond => ∀ f ∈ store.fragments.rows, f.keyId = keyId → f.contentHash = hash → cond f = false

/-- Generated ids are new, and the statements of everything else spare the row of the content. -/
def SparesContent : StepInput → Store → CallRun → Prop
  | .call draws _, store, .insertNew _ => ∀ f ∈ store.fragments.rows, f.id ≠ draws.newId
  | .call _ _, _, _ => True
  | .statement statement, store, _ => StatementSpares settings keyId idempotencyKey hash store statement

instance (store : Store) (statement : Statement) :
    Decidable (StatementSpares settings keyId idempotencyKey hash store statement) :=
  match statement with
  | .upsert _ row => inferInstanceAs (Decidable (¬ (row.keyId = keyId ∧ row.idempotencyKey = some idempotencyKey)))
  | .update _ _ => isTrue trivial
  | .amend _ id updates => inferInstanceAs (Decidable (∀ f ∈ store.fragments.rows, f.id = id → f.keyId = keyId →
      f.contentHash = hash → ∀ content ∈ updates.content, computeContentHash settings.digests content = hash))
  | .remove cond => inferInstanceAs (Decidable (∀ f ∈ store.fragments.rows, f.keyId = keyId → f.contentHash = hash →
      cond f = false))

instance (input : StepInput) (store : Store) (thread : CallRun) :
    Decidable (SparesContent settings keyId idempotencyKey hash input store thread) :=
  match input, thread with
  | .call draws _, .insertNew _ => inferInstanceAs (Decidable (∀ f ∈ store.fragments.rows, f.id ≠ draws.newId))
  | .call _ _, .lookup _ | .call _ _, .answered _ | .call _ _, .others => isTrue trivial
  | .statement statement, .lookup _ | .statement statement, .insertNew _ | .statement statement, .answered _
  | .statement statement, .others =>
    inferInstanceAs (Decidable (StatementSpares settings keyId idempotencyKey hash store statement))

/-- What a call knows. -/
def Bound (store : Store) : CallRun → Prop
  | .lookup call => SameRequest settings keyId idempotencyKey hash call
  | .insertNew call => SameRequest settings keyId idempotencyKey hash call
  | .answered (.returned id) => HoldsContent keyId hash store id
  | .answered .uniqueViolation => False
  | _ => True

/-- A change of the rows that the calls do not notice. -/
structure Preserves (before after : Store) : Prop where
  keyed : KeyedContent keyId idempotencyKey hash before → KeyedContent keyId idempotencyKey hash after
  holds : ∀ id, HoldsContent keyId hash before id → HoldsContent keyId hash after id

variable {settings keyId idempotencyKey hash}

theorem idempotencyKey_set (change : ColumnUpdate) (f : Fragment) :
    (change.set f).idempotencyKey = f.idempotencyKey := by
  have hentries := change.entries_set f
  simp only [Fragment.entries, List.cons.injEq, change.keyId_set] at hentries
  have hkeys := congrArg List.head? hentries.2.2
  rw [Option.head?_toList, Option.head?_toList] at hkeys
  exact Option.map_injective (fun _ _ h => (FragmentEntry.idempotency.inj h).2) hkeys

theorem preserves_updateFragments (store : Store) (cond : Fragment → Bool) (change : ColumnUpdate) :
    Preserves keyId idempotencyKey hash store (store.updateFragments cond change) := by
  have hview : ∀ f, (if cond f then change.set f else f).id = f.id ∧
    (if cond f then change.set f else f).keyId = f.keyId ∧
      (if cond f then change.set f else f).contentHash = f.contentHash ∧
      (if cond f then change.set f else f).idempotencyKey = f.idempotencyKey := by
    intro f
    split
    · exact ⟨change.id_set f, change.keyId_set f, change.contentHash_set f, idempotencyKey_set change f⟩
    · exact ⟨rfl, rfl, rfl, rfl⟩
  constructor
  · intro h g hg hkey hidem
    obtain ⟨f, hf, rfl⟩ := (mem_updateFragments_iff store).mp hg
    obtain ⟨-, hfKey, hfHash, hfIdem⟩ := hview f
    rw [hfHash]
    exact h f hf (hfKey ▸ hkey) (hfIdem ▸ hidem)
  · rintro id ⟨f, hf, hid, hkey, hhash⟩
    obtain ⟨hfId, hfKey, hfHash, -⟩ := hview f
    exact ⟨_, updated_mem_updateFragments hf cond change, hfId.trans hid, hfKey.trans hkey, hfHash.trans hhash⟩

theorem preserves_insert {store : Store} {row : Fragment} {fragments : FragmentTable}
    (h : store.fragments.insert row = some fragments)
    (hrow : row.keyId = keyId → row.idempotencyKey = some idempotencyKey → row.contentHash = hash) :
    Preserves keyId idempotencyKey hash store { store with fragments := fragments } := by
  have hrows := Table.rows_insert h
  constructor
  · intro hkeyed f hf hkey hidem
    rw [hrows] at hf
    rcases List.mem_append.mp hf with hold | hnew
    · exact hkeyed f hold hkey hidem
    · cases List.mem_singleton.mp hnew
      exact hrow hkey hidem
  · rintro id ⟨f, hf, hfields⟩
    refine ⟨f, ?_, hfields⟩
    rw [hrows]
    exact List.mem_append_left _ hf

/-- The statements of everything else. -/
theorem preserves_apply {store : Store} {statement : Statement} (hkeyed : KeyedContent keyId idempotencyKey hash store)
    (h : StatementSpares settings keyId idempotencyKey hash store statement) :
    Preserves keyId idempotencyKey hash store (statement.apply settings store) := by
  cases statement with
  | upsert now row =>
    rw [Statement.apply]
    rcases hupsert : upsertRow now store row with _ | ⟨next, id⟩
    · exact ⟨fun h => h, fun _ h => h⟩
    · rcases upsertRow_cases hupsert with ⟨held, -, -, -, -, rfl⟩ | ⟨-, -, fragments, hinsert, rfl⟩
      · exact preserves_updateFragments store _ _
      · exact preserves_insert hinsert fun hkey hidem => absurd ⟨hkey, hidem⟩ h
  | update cond change => exact preserves_updateFragments store cond change
  | amend now id updates =>
    rcases hexisting : store.fragments.byId id with _ | existing
    · simp only [Statement.apply, hexisting]
      exact ⟨fun h => h, fun _ h => h⟩
    · obtain ⟨hmem, hid⟩ := (byId_eq_some_iff store.fragments).mp hexisting
      rcases hreplace : store.fragments.replace (.primary id)
          (updates.apply settings.digests settings.tools.countTokens now existing) with _ | fragments
      · simp only [Statement.apply, hexisting, hreplace]
        exact ⟨fun h => h, fun _ h => h⟩
      · simp only [Statement.apply, hexisting, hreplace]
        have hrows := Table.rows_replace hreplace
        have hkept : existing.keyId = keyId → existing.contentHash = hash →
            (updates.apply settings.digests settings.tools.countTokens now existing).contentHash = hash := by
          intro hkey hhash
          have hcontent := h existing hmem hid hkey hhash
          cases hupdate : updates.content with
          | none => simp only [FragmentUpdates.apply, hupdate, Option.map_none, Option.getD_none, hhash]
          | some content =>
            simp only [FragmentUpdates.apply, hupdate, Option.map_some, Option.getD_some]
            exact hcontent content hupdate
        constructor
        · intro _ g hg hkey hidem
          simp only [hrows] at hg
          obtain ⟨f, hf, rfl⟩ := List.mem_map.mp hg
          split at hkey
          · rename_i hentry
            simp only [if_pos hentry] at hidem ⊢
            exact hkept hkey (hkeyed existing hmem hkey hidem)
          · rename_i hentry
            simp only [if_neg hentry] at hidem ⊢
            exact hkeyed f hf hkey hidem
        · rintro other ⟨f, hf, hfid, hkey, hhash⟩
          refine ⟨if FragmentEntry.primary id ∈ f.entries then
            updates.apply settings.digests settings.tools.countTokens now existing else f, ?_, ?_⟩
          · simp only [hrows]
            exact List.mem_map_of_mem hf
          · split
            · rename_i hentry
              have hrow : f = existing := eq_of_id _ hf hmem ((primary_mem_entries.mp hentry).symm.trans hid.symm)
              subst hrow
              exact ⟨hfid, hkey, hkept hkey hhash⟩
            · exact ⟨hfid, hkey, hhash⟩
  | remove cond =>
    constructor
    · intro hkeyed f hf
      exact hkeyed f (List.mem_filter.mp hf).1
    · rintro id ⟨f, hf, hid, hkey, hhash⟩
      refine ⟨f, List.mem_filter.mpr ⟨hf, ?_⟩, hid, hkey, hhash⟩
      rw [h f hf hkey hhash]
      rfl

theorem buildFragment_idempotencyKey {draws : Draws} {params : RememberParams} {caseId : Option String}
    {caller : Caller}
    {f : Fragment} (h : buildFragment settings draws params caseId caller = .ok f) :
    f.idempotencyKey = params.idempotencyKey := by
  simp only [buildFragment] at h
  rcases hcreate : create settings.digests settings.tools draws.newId draws.now (params.factoryParams caseId) with
    reason | created
  · rw [hcreate] at h
    cases h
  · rw [hcreate] at h
    cases h
    have hkey := create_idempotencyKey hcreate
    simp only [RememberParams.factoryParams] at hkey
    exact hkey

/-- The new row of the content finds its entries free. -/
theorem fits_of_keyedContent {store : Store} {row : Fragment} (hkeyed : KeyedContent keyId idempotencyKey hash store)
    (hrow : row.keyId = keyId ∧ row.contentHash = hash ∧ row.idempotencyKey = some idempotencyKey)
    (hfresh : ∀ f ∈ store.fragments.rows, f.id ≠ row.id)
    (hfree : store.fragments.holder (.contentHash row.keyId row.contentHash) = none) :
    Table.Fits Fragment.entries store.fragments.rows row := by
  obtain ⟨hkey, hhash, hidem⟩ := hrow
  have hnone := (Table.holder_eq_none_iff _).mp hfree
  intro other hother entry hentry hmem
  cases entry with
  | primary id =>
    rw [primary_mem_entries] at hentry hmem
    exact hfresh other hother (hentry.symm.trans hmem)
  | contentHash otherKey otherHash =>
    obtain ⟨rfl, rfl⟩ := contentHash_mem_entries.mp hmem
    exact hnone other hother hentry
  | idempotency otherKey key =>
    obtain ⟨hrowKey, hrowIdem⟩ := idempotency_mem_entries.mp hmem
    obtain ⟨hotherKey, hotherIdem⟩ := idempotency_mem_entries.mp hentry
    have hsame : key = idempotencyKey := Option.some.inj (hrowIdem.symm.trans hidem)
    have hotherRow : other.keyId = keyId := hotherKey.trans (hrowKey.symm.trans hkey)
    have hotherHash := hkeyed other hother hotherRow (hsame ▸ hotherIdem)
    refine hnone other hother (contentHash_mem_entries.mpr ⟨?_, ?_⟩)
    · rw [hkey, hotherRow]
    · rw [hhash, hotherHash]

/-- The lookup finds only rows with the content. -/
theorem bound_lookup {store : Store} {call : Call} (hkeyed : KeyedContent keyId idempotencyKey hash store)
    (h : SameRequest settings keyId idempotencyKey hash call) (draws : Draws) :
    Bound settings keyId idempotencyKey hash store (lookup settings draws store call) := by
  rcases hcontent : call.params.content.bind contentInputError with _ | reason
  · rcases hexisting : checkIdempotency store call.params call.caller.keyId with _ | existing
    · simp only [lookup, hcontent, if_neg h.permanent, hexisting]
      by_cases hdry : call.params.dryRun = true
      · rw [if_pos hdry]
        trivial
      · rw [if_neg hdry]
        exact h
    · simp only [lookup, hcontent, if_neg h.permanent, hexisting]
      obtain ⟨key, hkey, hfound⟩ := Option.bind_eq_some_iff.mp hexisting
      have hsame : key = idempotencyKey := by
        rw [h.idempotencyKey, truthy] at hkey
        exact (Option.some.inj (Option.filter_eq_some_iff.mp hkey).1).symm
      have hcond := List.find?_some (by exact hfound)
      simp only [Bool.and_eq_true, decide_eq_true_eq] at hcond
      have hrow := hcond.1.2.trans h.keyId
      have hmem := List.mem_of_find?_eq_some hfound
      exact ⟨existing, hmem, rfl, hrow, hkeyed existing hmem hrow (hsame ▸ hcond.1.1)⟩
  · simp only [lookup, hcontent]
    trivial

/-- The insert yields to the row with the content, or adds it. -/
theorem bound_insertNew {store : Store} {call : Call} (hkeyed : KeyedContent keyId idempotencyKey hash store)
    (h : SameRequest settings keyId idempotencyKey hash call) {draws : Draws}
    (hfresh : ∀ f ∈ store.fragments.rows, f.id ≠ draws.newId) (caseId : Option String) :
    Preserves keyId idempotencyKey hash store (insertNew settings draws store call caseId).1 ∧
      Bound settings keyId idempotencyKey hash (insertNew settings draws store call caseId).1
        (.answered (insertNew settings draws store call caseId).2) := by
  rcases hadmitted : admitted settings draws store call caseId with _ | f
  · simp only [insertNew, hadmitted]
    exact ⟨⟨fun h => h, fun _ h => h⟩, trivial⟩
  · obtain ⟨hbuild, hcheck⟩ := admitted_spec hadmitted
    have hbuilt := buildFragment_spec hbuild
    have hrowKey : (prepareInsertRow settings.digests draws.now f).keyId = keyId := hbuilt.1.trans h.keyId
    have hrowHash : (prepareInsertRow settings.digests draws.now f).contentHash = hash := by
      simp only [prepareInsertRow, hbuilt.2.2.2.2, h.content]
    have hrowIdem : (prepareInsertRow settings.digests draws.now f).idempotencyKey = some idempotencyKey :=
      (buildFragment_idempotencyKey hbuild).trans h.idempotencyKey
    rcases hinsert : FragmentWriter.insert settings.digests draws.now store f with _ | ⟨next, id⟩
    · have hnone := insert_admitted store hcheck
      rw [hinsert] at hnone
      rcases hheld : store.fragments.holder (.contentHash f.keyId (computeContentHash settings.digests f.content)) with
        _ | held
      · have hrowFresh : ∀ g ∈ store.fragments.rows, g.id ≠ (prepareInsertRow settings.digests draws.now f).id := by
          intro g hg
          rw [show (prepareInsertRow settings.digests draws.now f).id = draws.newId from hbuilt.2.2.1]
          exact hfresh g hg
        have hfits := fits_of_keyedContent hkeyed ⟨hrowKey, hrowHash, hrowIdem⟩ hrowFresh hheld
        rw [hheld] at hnone
        simp only [Option.map_none, if_pos hfits] at hnone
        cases hnone
      · rw [hheld] at hnone
        cases hnone
    · simp only [insertNew, hadmitted, hinsert]
      rcases upsertRow_cases hinsert with ⟨held, hheld, hheldKey, hheldHash, rfl, rfl⟩ | ⟨-, rfl, fragments, hrow, rfl⟩
      · have hpreserves := @preserves_updateFragments keyId idempotencyKey hash store
          (fun g => decide (FragmentEntry.contentHash (prepareInsertRow settings.digests draws.now f).keyId
            (prepareInsertRow settings.digests draws.now f).contentHash ∈ g.entries))
          (promote draws.now (prepareInsertRow settings.digests draws.now f))
        exact ⟨hpreserves,
          hpreserves.holds held.id ⟨held, hheld, rfl, hheldKey.trans hrowKey, hheldHash.trans hrowHash⟩⟩
      · refine ⟨preserves_insert hrow fun _ _ => hrowHash, ?_⟩
        refine ⟨_, ?_, rfl, hrowKey, hrowHash⟩
        rw [Table.rows_insert hrow]
        exact List.mem_append_right _ (List.mem_singleton.mpr rfl)

theorem holdsContent_bound {before after : Store} (h : Preserves keyId idempotencyKey hash before after)
    {thread : CallRun}
    (hbound : Bound settings keyId idempotencyKey hash before thread) :
    Bound settings keyId idempotencyKey hash after thread := by
  cases thread with
  | answered outcome =>
    cases outcome with
    | returned id => exact h.holds id hbound
    | _ => exact hbound
  | _ => exact hbound

/-- A step that spares the content preserves it, and the acting call learns no other row. -/
theorem bound_advance {input : StepInput} {store : Store} {thread : CallRun}
    (hkeyed : KeyedContent keyId idempotencyKey hash store) (hbound : Bound settings keyId idempotencyKey hash store thread)
    (h : SparesContent settings keyId idempotencyKey hash input store thread) :
    Preserves keyId idempotencyKey hash store (advance settings input store thread).1 ∧
      Bound settings keyId idempotencyKey hash (advance settings input store thread).1
        (advance settings input store thread).2 := by
  have hsame : Preserves keyId idempotencyKey hash store store := ⟨fun h => h, fun _ h => h⟩
  cases input with
  | call draws caseId =>
    cases thread with
    | lookup call => exact ⟨hsame, bound_lookup hkeyed hbound draws⟩
    | insertNew call => exact bound_insertNew hkeyed hbound h caseId
    | answered outcome => exact ⟨hsame, hbound⟩
    | others => exact ⟨hsame, trivial⟩
  | statement statement =>
    cases thread with
    | others => exact ⟨preserves_apply hkeyed h, trivial⟩
    | lookup call => exact ⟨hsame, hbound⟩
    | insertNew call => exact ⟨hsame, hbound⟩
    | answered outcome => exact ⟨hsame, hbound⟩

end SameContent

/-- Calls that carry one idempotency key return one id, none of them fails at a unique index and one row
carries the key exactly when each step of a call meets the condition.  Calls of one permanent content
meet it as long as the row of the content is neither removed nor given another content. -/
theorem idempotent_iff (settings : Settings) (store : Store) (calls : List Call) (keyId : Option KeyId)
    (idempotencyKey : String) (schedule : List (ℕ × StepInput)) :
    (Idempotent keyId idempotencyKey (runCalls settings (startCalls store calls) schedule) ↔
      StepsMeet (Pool.step (advance settings)) (Agrees settings) (startCalls store calls) schedule) ∧
    ∀ hash, KeyedContent keyId idempotencyKey hash store →
      (∀ call ∈ calls, SameRequest settings keyId idempotencyKey hash call) →
      StepsMeet (Pool.step (advance settings)) (ActsOnly (SparesContent settings keyId idempotencyKey hash))
        (startCalls store calls) schedule →
      Idempotent keyId idempotencyKey (runCalls settings (startCalls store calls) schedule) := by
  have hstart := coherent_startCalls store calls
  refine ⟨?_, fun hash hkeyed hcalls hmeet => idempotent_of_coherent ?_⟩
  · rw [← and_iff_right (b := StepsMeet (Pool.step (advance settings)) (Agrees settings) (startCalls store calls) schedule)
      hstart]
    have hstep : ∀ (pool : Pool Store CallRun) event, Coherent (pool.step (advance settings) event).threads ↔
        Coherent pool.threads ∧ Agrees settings pool event := coherent_step
    have hrun : Coherent (runCalls settings (startCalls store calls) schedule).threads ↔
        Coherent (startCalls store calls).threads ∧ StepsMeet (Pool.step (advance settings)) (Agrees settings)
          (startCalls store calls) schedule :=
      run_iff_stepsMeet (I := fun pool : Pool Store CallRun => Coherent pool.threads) hstep _ schedule
    exact ⟨fun h => hrun.mp h.coherent, fun h => idempotent_of_coherent (hrun.mpr h)⟩
  · have hbound : (startCalls store calls).Holds (KeyedContent keyId idempotencyKey hash)
        (Bound settings keyId idempotencyKey hash) := by
      refine ⟨hkeyed, fun thread hthread => ?_⟩
      rcases List.mem_append.mp hthread with hmem | hothers
      · obtain ⟨call, hcall, rfl⟩ := List.mem_map.mp hmem
        exact hcalls call hcall
      · cases List.mem_singleton.mp hothers
        trivial
    have hown : ∀ input shared thread, KeyedContent keyId idempotencyKey hash shared →
        Bound settings keyId idempotencyKey hash shared thread →
        SparesContent settings keyId idempotencyKey hash input shared thread →
        KeyedContent keyId idempotencyKey hash (advance settings input shared thread).1 ∧
          Bound settings keyId idempotencyKey hash (advance settings input shared thread).1
            (advance settings input shared thread).2 := by
      intro input shared thread hkeyed hthread hspares
      have hnext := bound_advance hkeyed hthread hspares
      exact ⟨hnext.1.keyed hkeyed, hnext.2⟩
    have hother : ∀ input shared thread other, KeyedContent keyId idempotencyKey hash shared →
        Bound settings keyId idempotencyKey hash shared thread →
        SparesContent settings keyId idempotencyKey hash input shared thread →
        Bound settings keyId idempotencyKey hash shared other →
        Bound settings keyId idempotencyKey hash (advance settings input shared thread).1 other := by
      intro input shared thread other hkeyed hthread hspares hbound
      exact holdsContent_bound (bound_advance hkeyed hthread hspares).1 hbound
    have hfinal := Pool.holds_run hown hother hbound hmeet
    refine ⟨fun id hid other hother => ?_, fun hviolation => hfinal.threads _ hviolation⟩
    obtain ⟨f, hf, hfid, hfKey, hfHash⟩ := hfinal.threads _ hid
    obtain ⟨g, hg, hgid, hgKey, hgHash⟩ := hfinal.threads _ hother
    rw [← hfid, ← hgid, eq_of_contentHash _ hf hg (hfKey.trans hgKey.symm) (hfHash.trans hgHash.symm)]

def outcomeOf : CallRun → Option CallOutcome
  | .answered outcome => some outcome
  | _ => none

theorem answered_mem_of_outcome {threads : List CallRun} {outcome : CallOutcome}
    (h : some outcome ∈ threads.map outcomeOf) : .answered outcome ∈ threads := by
  obtain ⟨thread, hthread, houtcome⟩ := List.mem_map.mp h
  cases thread with
  | answered other =>
    cases houtcome
    exact hthread
  | _ => cases houtcome

/-- A call of the sample tenant under the idempotency key `retry-1`. -/
def retryCall (content : String) : Call where
  params := { sampleParams content [] with idempotencyKey := some "retry-1" }
  caller := sampleCaller

def callStep (i : ℕ) (now : Time) (newId : FragmentId) : ℕ × StepInput := (i, .call (sampleDraws now newId) none)

/-- Both calls look the key up before either inserts. -/
def bothLookUp : List (ℕ × StepInput) :=
  [callStep 0 1 "frag-01", callStep 1 1 "frag-02", callStep 0 2 "frag-01", callStep 1 2 "frag-02"]

/-- The second call follows the first. -/
def followUp (between : List (ℕ × StepInput)) : List (ℕ × StepInput) :=
  [callStep 0 2 "frag-01", callStep 0 2 "frag-01"] ++ between ++ [callStep 1 3 "frag-02", callStep 1 3 "frag-02"]

/-- Two concurrent requests of one content return one id. -/
theorem idempotent_bothLookUp :
    Idempotent (some sampleKey) "retry-1"
      (runCalls sampleSettings (startCalls {} [retryCall sampleContent, retryCall sampleContent]) bothLookUp) := by
  have hrequest : ∀ call ∈ [retryCall sampleContent, retryCall sampleContent],
      SameRequest sampleSettings (some sampleKey) "retry-1"
        "77dcdc41cdc3789120882cbf0383cede824aa0a0220f3d57b8b36bd33415aa8f" call := by
    intro call hcall
    have hcall : call = retryCall sampleContent := by
      simpa only [List.mem_cons, List.not_mem_nil, or_false, or_self] using hcall
    subst hcall
    exact ⟨rfl, rfl, by decide, by decide⟩
  refine (idempotent_iff sampleSettings {} _ (some sampleKey) "retry-1" bothLookUp).2 _ ?_ hrequest (by decide +kernel)
  exact fun _ hf => absurd hf List.not_mem_nil

/-- Different contents: two lookups before the inserts, or an expiry between the calls, end in a
violation of the unique index; and a content that the key holds without the idempotency key leaves the
next call a row of its own. -/
theorem idempotency_broken :
    ¬ Idempotent (some sampleKey) "retry-1"
      (runCalls sampleSettings (startCalls {} [retryCall sampleContent, retryCall replacementContent]) bothLookUp) ∧
    ¬ Idempotent (some sampleKey) "retry-1"
      (runCalls sampleSettings (startCalls {} [retryCall sampleContent, retryCall replacementContent])
        (followUp [(2, .statement (.update (fun f => f.id = "frag-01" && f.live) (expire 2)))])) ∧
    ¬ Idempotent (some sampleKey) "retry-1"
      (runCalls sampleSettings
        (startCalls (remember sampleSettings (sampleDraws 1 "frag-00") {} (sampleParams sampleContent []) sampleCaller).1
          [retryCall sampleContent, retryCall replacementContent]) (followUp [])) := by
  refine ⟨fun h => ?_, fun h => ?_, fun h => ?_⟩
  · exact h.coherent.noViolation (answered_mem_of_outcome (by decide +kernel))
  · exact h.coherent.noViolation (answered_mem_of_outcome (by decide +kernel))
  · have hfirst := h.coherent.sameId "frag-00" (answered_mem_of_outcome (by decide +kernel)) "frag-02"
      (answered_mem_of_outcome (by decide +kernel))
    exact absurd hfirst (by decide)

end FragmentMemory.IdempotentRemember
