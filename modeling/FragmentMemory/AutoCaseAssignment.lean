import FragmentMemory.IdempotentRemember

/-! # Remember calls that take their case from the incident

`_autoAssignCaseId` is a lookup of the case of the session and topic, for a procedure or a decision a query
for the errors without looking at their case, and a backfill of these errors that nobody waits for.  The
insert follows much later.  Here a remember is taken apart into these statements, so that calls interleave.
-/
namespace FragmentMemory.AutoCaseAssignment
open ApiKeyStore FragmentTables FragmentFactory FragmentWriter FragmentReader MemoryRememberer JsString InterleavedRuns
open IdempotentRemember (Call lookup insertNew CallRun CallOutcome)

/-- One `updateCaseId` of a backfill that has not run yet. -/
structure Backfill where
  id : FragmentId
  caseId : String
  keyId : Option KeyId

/-- Where a remember stands: before its checks, before the lookup of the case, before the query for errors,
before its insert, or among the effects after it. -/
inductive Stage
  | starting (call : Call)
  | lookingUp (call : Call)
  | searching (call : Call) (sessionId topic : String)
  | inserting (call : Call) (caseId : Option String)
  | finishing
  | done

/-- A call with the backfills that it has left running. -/
structure Remembering where
  stage : Stage
  backfills : List Backfill := []

/-- A column update of the effects after an insert: none of them writes what decides the case of a row. -/
structure CaseNeutral extends ColumnUpdate where
  caseId_set : ∀ f, (set f).caseId = f.caseId
  sessionId_set : ∀ f, (set f).sessionId = f.sessionId
  topic_set : ∀ f, (set f).topic = f.topic
  type_set : ∀ f, (set f).type = f.type

/-- The next statement of the call itself, an effect after its insert, or a backfill that it has left. -/
inductive StepInput
  | proceed (draws : Draws)
  | effect (cond : Fragment → Bool) (change : CaseNeutral)
  | backfill (place : ℕ)

variable (settings : Settings)

/-- The lookup of `_autoAssignCaseId`, with its guards. -/
def lookupCase (draws : Draws) (store : Store) (call : Call) : Stage :=
  match truthy call.params.caseId, call.params.session, truthy call.params.topic, call.params.type with
  | none, some sessionId, some topic, some type =>
    if type = .error ∨ type = .procedure ∨ type = .decision then
      match findCaseIdBySessionTopic store sessionId topic call.caller.keyId (call.caller.groups.getD []) with
      | some caseId => .inserting call (some caseId)
      | none => if type = .error then .inserting call (some draws.newCaseId) else .searching call sessionId topic
    else .inserting call call.params.caseId
  | _, _, _, _ => .inserting call call.params.caseId

/-- The errors that the call backfills when its lookup has found no case. -/
def errorsFound (store : Store) (call : Call) (sessionId topic : String) : List FragmentId :=
  findErrorFragmentsBySessionTopic store sessionId topic call.caller.keyId (call.caller.groups.getD [])

/-- The query for errors of `_autoAssignCaseId`. -/
def searchErrors (draws : Draws) (store : Store) (call : Call) (sessionId topic : String) : Remembering :=
  let errors := errorsFound store call sessionId topic
  if errors = [] then { stage := .inserting call call.params.caseId }
  else
    { stage := .inserting call (some draws.newCaseId)
      backfills := errors.map fun id => ⟨id, draws.newCaseId, call.caller.keyId⟩ }

/-- `remember` up to its next statement. -/
def proceed (draws : Draws) (store : Store) : Stage → Store × Remembering
  | .starting call =>
    match lookup settings draws store call with
    | .insertNew call => (store, ⟨.lookingUp call, []⟩)
    | _ => (store, ⟨.done, []⟩)
  | .lookingUp call =>
    if (!(settings.rememberAtomic && call.caller.keyId.isSome)) && draws.quotaRefuses then (store, ⟨.done, []⟩)
    else (store, ⟨lookupCase draws store call, []⟩)
  | .searching call sessionId topic => (store, searchErrors draws store call sessionId topic)
  | .inserting call caseId =>
    match insertNew settings { draws with quotaRefuses := false } store call caseId with
    | (next, .returned _) => (next, ⟨.finishing, []⟩)
    | (next, _) => (next, ⟨.done, []⟩)
  | .finishing | .done => (store, ⟨.done, []⟩)

def advance (input : StepInput) (store : Store) (thread : Remembering) : Store × Remembering :=
  match input with
  | .proceed draws =>
    let next := proceed settings draws store thread.stage
    (next.1, { next.2 with backfills := thread.backfills ++ next.2.backfills })
  | .effect cond change =>
    match thread.stage with
    | .finishing => (store.updateFragments cond change.toColumnUpdate, thread)
    | _ => (store, thread)
  | .backfill place =>
    match thread.backfills[place]? with
    | none => (store, thread)
    | some pending => (updateCaseId store pending.id pending.caseId pending.keyId,
        { thread with backfills := thread.backfills.eraseIdx place })

abbrev Calls := Pool Store Remembering

def callStep (pool : Calls) (event : ℕ × StepInput) : Calls := pool.step (advance settings) event

/-- The calls over the store before their first statements. -/
def startingCalls (store : Store) (calls : List Call) : Calls where
  shared := store
  threads := calls.map fun call => { stage := .starting call }

variable {settings}

/-- Backfills one after the other, from the first. -/
theorem run_backfills (pool : Calls) (stage : Stage) (pending : List Backfill)
    (hthreads : pool.threads = [⟨stage, pending⟩]) :
    TransitionRuns.run (callStep settings) pool (List.replicate pending.length (0, .backfill 0)) =
      ⟨pending.foldl (fun current b => updateCaseId current b.id b.caseId b.keyId) pool.shared, [⟨stage, []⟩]⟩ := by
  induction pending generalizing pool with
  | nil =>
    cases pool
    simp only at hthreads
    rw [hthreads]
    rfl
  | cons b later ih =>
    have hstep :
      callStep settings pool (0, .backfill 0) = ⟨updateCaseId pool.shared b.id b.caseId b.keyId, [⟨stage, later⟩]⟩ := by
      simp only [callStep, Pool.step, hthreads, List.getElem?_cons_zero, advance, List.eraseIdx_cons_zero,
        List.set_cons_zero]
    rw [List.length_cons, List.replicate_succ, TransitionRuns.run_cons, hstep, ih _ rfl, List.foldl_cons]

/-- The lookup and the query for errors are those of `autoAssignCaseId`. -/
theorem autoAssignCaseId_staged (draws : Draws) (store : Store) (call : Call) :
    (∃ caseId, lookupCase draws store call = .inserting call caseId ∧
      autoAssignCaseId draws store call.params call.caller = (store, caseId)) ∨
    ∃ sessionId topic, lookupCase draws store call = .searching call sessionId topic ∧
      ((errorsFound store call sessionId topic = [] ∧
          autoAssignCaseId draws store call.params call.caller = (store, call.params.caseId)) ∨
        (errorsFound store call sessionId topic ≠ [] ∧ autoAssignCaseId draws store call.params call.caller =
          ((errorsFound store call sessionId topic).foldl
            (fun current id => updateCaseId current id draws.newCaseId call.caller.keyId) store, some draws.newCaseId))) := by
  rcases hcase : truthy call.params.caseId with _ | given
  · rcases hsession : call.params.session with _ | sessionId
    · exact Or.inl ⟨call.params.caseId, by simp only [lookupCase, hcase, hsession], by simp only [autoAssignCaseId, hcase, hsession]⟩
    · rcases htopic : truthy call.params.topic with _ | topic
      · exact Or.inl ⟨call.params.caseId, by simp only [lookupCase, hcase, hsession, htopic],
          by simp only [autoAssignCaseId, hcase, hsession, htopic]⟩
      · rcases htype : call.params.type with _ | type
        · exact Or.inl ⟨call.params.caseId, by simp only [lookupCase, hcase, hsession, htopic, htype],
            by simp only [autoAssignCaseId, hcase, hsession, htopic, htype]⟩
        · simp only [lookupCase, autoAssignCaseId, hcase, hsession, htopic, htype, errorsFound]
          by_cases hauto : type = .error ∨ type = .procedure ∨ type = .decision
          · simp only [if_pos hauto]
            rcases findCaseIdBySessionTopic store sessionId topic call.caller.keyId (call.caller.groups.getD []) with _ | caseId
            · by_cases herror : type = .error
              · simp only [if_pos herror]
                exact Or.inl ⟨_, rfl, rfl⟩
              · simp only [if_neg herror]
                refine Or.inr ⟨sessionId, topic, rfl, ?_⟩
                by_cases hnone : findErrorFragmentsBySessionTopic store sessionId topic call.caller.keyId
                    (call.caller.groups.getD []) = []
                · exact Or.inl ⟨hnone, if_pos hnone⟩
                · exact Or.inr ⟨hnone, if_neg hnone⟩
            · exact Or.inl ⟨_, rfl, rfl⟩
          · simp only [if_neg hauto]
            exact Or.inl ⟨_, rfl, rfl⟩
  · exact Or.inl ⟨call.params.caseId, by simp only [lookupCase, hcase], by simp only [autoAssignCaseId, hcase]⟩

theorem insertNew_checked {draws : Draws} {store : Store} {call : Call} {accepted : Accepted}
    (h : acceptNew settings draws store call.params call.caller = .ok accepted) :
    insertNew settings { draws with quotaRefuses := false } (autoAssignCaseId draws store call.params call.caller).1 call
      (autoAssignCaseId draws store call.params call.caller).2 = (accepted.store, .returned accepted.id) := by
  have hchecked :
    acceptNew settings { draws with quotaRefuses := false } store call.params call.caller = .ok accepted := by
    cases hquota : draws.quotaRefuses with
    | false =>
      have hsame : { draws with quotaRefuses := false } = draws := by rw [← hquota]
      rw [hsame]
      exact h
    | true =>
      cases hatomic : settings.rememberAtomic && call.caller.keyId.isSome with
      | false =>
        simp only [acceptNew, hatomic, hquota, Bool.not_false, Bool.and_self, if_true] at h
        cases h
      | true =>
        obtain ⟨hsetting, hkey⟩ := Bool.and_eq_true_iff.mp hatomic
        obtain ⟨key, hkey⟩ := Option.isSome_iff_exists.mp hkey
        simp only [acceptNew, quotaRefuses, hkey, hsetting] at h ⊢
        exact h
  exact IdempotentRemember.admitted_of_acceptNew hchecked

/-- A call that nothing interrupts, with its backfills before its insert, stores what `remember` stores. -/
theorem run_alone {draws : Draws} {store : Store} {call : Call} {accepted : Accepted}
    (h : acceptNew settings draws store call.params call.caller = .ok accepted) :
    ∃ schedule, TransitionRuns.run (callStep settings) ⟨store, [⟨.lookingUp call, []⟩]⟩ schedule =
      ⟨accepted.store, [⟨.finishing, []⟩]⟩ := by
  have hinsert := insertNew_checked h
  have hquota : ((!(settings.rememberAtomic && call.caller.keyId.isSome)) && draws.quotaRefuses) = false := by
    by_contra hrefused
    rw [Bool.not_eq_false] at hrefused
    simp only [acceptNew, hrefused, if_true] at h
    cases h
  have hlookup : callStep settings ⟨store, [⟨.lookingUp call, []⟩]⟩ (0, .proceed draws) =
      ⟨store, [⟨lookupCase draws store call, []⟩]⟩ := by
    simp only [callStep, Pool.step, List.getElem?_cons_zero, advance, proceed, hquota, Bool.false_eq_true, if_false,
      List.append_nil, List.set_cons_zero]
  have hlast : ∀ (current : Store) (caseId : Option String),
      insertNew settings { draws with quotaRefuses := false } current call caseId = (accepted.store, .returned accepted.id) →
      callStep settings ⟨current, [⟨.inserting call caseId, []⟩]⟩ (0, .proceed draws) =
        ⟨accepted.store, [⟨.finishing, []⟩]⟩ := by
    intro current caseId hstored
    simp only [callStep, Pool.step, List.getElem?_cons_zero, advance, proceed, hstored, List.append_nil,
      List.set_cons_zero]
  have hdirect : ∀ caseId, lookupCase draws store call = .inserting call caseId →
      autoAssignCaseId draws store call.params call.caller = (store, caseId) →
      ∃ schedule, TransitionRuns.run (callStep settings) ⟨store, [⟨.lookingUp call, []⟩]⟩ schedule =
        ⟨accepted.store, [⟨.finishing, []⟩]⟩ := by
    intro caseId hstage hassigned
    rw [hassigned] at hinsert
    refine ⟨[(0, .proceed draws), (0, .proceed draws)], ?_⟩
    rw [TransitionRuns.run_cons, hlookup, hstage, TransitionRuns.run_cons, hlast store caseId hinsert]
    rfl
  rcases autoAssignCaseId_staged draws store call with ⟨caseId, hstage, hassigned⟩ | ⟨sessionId, topic, hstage, hassigned⟩
  · exact hdirect caseId hstage hassigned
  · have hsearch : callStep settings ⟨store, [⟨lookupCase draws store call, []⟩]⟩ (0, .proceed draws) =
        ⟨store, [searchErrors draws store call sessionId topic]⟩ := by
      rw [hstage]
      simp only [callStep, Pool.step, List.getElem?_cons_zero, advance, proceed, List.nil_append, List.set_cons_zero]
    rcases hassigned with ⟨hnone, hassigned⟩ | ⟨hsome, hassigned⟩
    · rw [hassigned] at hinsert
      refine ⟨[(0, .proceed draws), (0, .proceed draws), (0, .proceed draws)], ?_⟩
      rw [TransitionRuns.run_cons, hlookup, TransitionRuns.run_cons, hsearch, searchErrors, if_pos hnone,
        TransitionRuns.run_cons, hlast store _ hinsert]
      rfl
    · rw [hassigned] at hinsert
      let pending := (errorsFound store call sessionId topic).map fun id =>
        (⟨id, draws.newCaseId, call.caller.keyId⟩ : Backfill)
      refine ⟨(0, .proceed draws) :: (0, .proceed draws) :: (List.replicate pending.length (0, .backfill 0) ++ [(0, .proceed draws)]), ?_⟩
      rw [TransitionRuns.run_cons, hlookup, TransitionRuns.run_cons, hsearch, searchErrors, if_neg hsome,
        TransitionRuns.run_append, run_backfills _ _ pending rfl, List.foldl_map, TransitionRuns.run_cons, hlast _ _ hinsert]
      rfl

end FragmentMemory.AutoCaseAssignment
