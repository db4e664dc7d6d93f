import FragmentMemory.AutoCaseAssignment
import FragmentMemory.ForgetOutcome
import FragmentMemory.RowPersistence

/-! # One automatic case for an incident

The errors, procedures and decisions of one key, session and topic are to end up in one case.  The case ids
that rows hold, that calls are about to insert and that backfills are about to write are called carried.  A
call that draws a new case id must find nothing carried, since its lookup sees committed live rows only.
-/
namespace FragmentMemory.IncidentCases
open ApiKeyStore FragmentTables FragmentFactory FragmentWriter FragmentReader MemoryRememberer JsString
  TransitionRuns InterleavedRuns AutoCaseAssignment RowPersistence UniqueIndexTable
open IdempotentRemember (Call lookup insertNew admitted admitted_spec)

/-- The key with the keys whose rows it reads, the session and the topic. -/
structure Incident where
  keyId : Option KeyId
  groupKeyIds : List KeyId := []
  sessionId : String
  topic : String

/-- The rows of the incident that the key reads, expired ones included. -/
def Incident.covers (incident : Incident) (f : Fragment) : Bool :=
  f.sessionId = some incident.sessionId && f.topic = incident.topic && keyScope incident.keyId incident.groupKeyIds f

/-- A remember of the incident that leaves its case to the assignment. -/
structure Joins (incident : Incident) (call : Call) : Prop where
  key : call.caller.keyId = incident.keyId
  groups : call.caller.groups.getD [] = incident.groupKeyIds
  session : call.params.session = some incident.sessionId
  topic : truthy call.params.topic = some incident.topic
  type : call.params.type = some .error ∨ call.params.type = some .procedure ∨ call.params.type = some .decision
  noCase : truthy call.params.caseId = none

/-- The incident has one case: no two rows hold different ones, and a procedure or a decision shares its case
with another row. -/
structure OneCase (incident : Incident) (store : Store) : Prop where
  same : ∀ f ∈ store.fragments.rows, ∀ g ∈ store.fragments.rows, incident.covers f = true → incident.covers g = true →
    ∀ c c', f.caseId = some c → g.caseId = some c' → c = c'
  shared : ∀ f ∈ store.fragments.rows, incident.covers f = true → f.type ≠ .error → ∀ c, f.caseId = some c →
    ∃ g ∈ store.fragments.rows, incident.covers g = true ∧ g.caseId = some c ∧ g.id ≠ f.id

/-- The case that a call is about to insert. -/
def stageCases : Stage → List String
  | .inserting _ caseId => (truthy caseId).toList
  | .starting _ | .lookingUp _ | .searching _ _ _ | .finishing | .done => []

def cases_ (thread : Remembering) : List String := stageCases thread.stage ++ thread.backfills.map Backfill.caseId

def rowCases (incident : Incident) (store : Store) : List String :=
  (store.fragments.rows.filter incident.covers).filterMap Fragment.caseId

/-- The case ids that are held or on their way. -/
def carried (incident : Incident) (pool : Calls) : List String :=
  rowCases incident pool.shared ++ pool.threads.flatMap cases_

/-- A statement of a call is coordinated with the others: an error that finds no case among the live rows finds
nothing carried; a procedure or a decision that finds errors does so too, and one of them is in its reach; and a
backfill in reach of its row finds it live. -/
def Coordinates (incident : Incident) (pool : Calls) (input : StepInput) (thread : Remembering) : Prop :=
  match input, thread.stage with
  | .proceed _, .lookingUp call => call.params.type = some .error →
      (∀ f ∈ pool.shared.fragments.rows, incident.covers f = true → f.live = true → f.caseId = none) →
      carried incident pool = []
  | .proceed _, .searching call sessionId topic => errorsFound pool.shared call sessionId topic ≠ [] →
      carried incident pool = [] ∧ ∃ f ∈ pool.shared.fragments.rows,
        f.id ∈ errorsFound pool.shared call sessionId topic ∧ ownedBy call.caller.keyId f = true
  | .backfill place, _ => ∀ pending ∈ thread.backfills[place]?, ∀ f ∈ pool.shared.fragments.rows,
      f.id = pending.id → ownedBy pending.keyId f = true → f.live = true
  | _, _ => True

def Coordinated (incident : Incident) (pool : Calls) (event : ℕ × StepInput) : Prop :=
  ∀ thread ∈ pool.threads[event.1]?, Coordinates incident pool event.2 thread

/-- No backfill is left. -/
def BackfillsRun (pool : Calls) : Prop := ∀ thread ∈ pool.threads, thread.backfills = []

/-- A row that keeps what decides its case. -/
structure SameCase (f g : Fragment) : Prop where
  id : g.id = f.id
  keyId : g.keyId = f.keyId
  sessionId : g.sessionId = f.sessionId
  topic : g.topic = f.topic
  type : g.type = f.type
  caseId : g.caseId = f.caseId

def StageJoins (incident : Incident) : Stage → Prop
  | .starting call | .lookingUp call | .inserting call _ => Joins incident call
  | .searching call sessionId topic => Joins incident call ∧ sessionId = incident.sessionId ∧ topic = incident.topic
  | .finishing | .done => True

/-- What one statement of a call of the incident does. -/
inductive Move (incident : Incident) (store : Store) (thread : Remembering) : StepInput → Store → Remembering → Prop
  | quiet {input next stage} (hrows : Rewrites SameCase store next)
      (hstage : stageCases stage = [] ∨ stage = thread.stage) (hjoins : StageJoins incident stage) :
      Move incident store thread input next ⟨stage, thread.backfills⟩
  | found {draws call f caseId} (hstage : thread.stage = .lookingUp call) (hf : f ∈ store.fragments.rows)
      (hcovers : incident.covers f = true) (hcase : f.caseId = some caseId) (hjoins : Joins incident call) :
      Move incident store thread (.proceed draws) store ⟨.inserting call (some caseId), thread.backfills⟩
  | drawn {draws call} (hstage : thread.stage = .lookingUp call) (htype : call.params.type = some .error)
      (hnone : ∀ f ∈ store.fragments.rows, incident.covers f = true → f.live = true → f.caseId = none)
      (hjoins : Joins incident call) :
      Move incident store thread (.proceed draws) store ⟨.inserting call (some draws.newCaseId), thread.backfills⟩
  | searched {draws call} (hstage : thread.stage = .searching call incident.sessionId incident.topic)
      (hsome : errorsFound store call incident.sessionId incident.topic ≠ []) (hjoins : Joins incident call) :
      Move incident store thread (.proceed draws) store ⟨.inserting call (some draws.newCaseId), thread.backfills ++
        (errorsFound store call incident.sessionId incident.topic).map fun id => ⟨id, draws.newCaseId, call.caller.keyId⟩⟩
  | inserted {draws call caseId next row} (hstage : thread.stage = .inserting call caseId)
      (hrows : next.fragments.rows = store.fragments.rows ++ [row]) (hnew : ∀ f ∈ store.fragments.rows, f.id ≠ row.id)
      (hcase : row.caseId = truthy caseId) (htype : row.type = call.params.type.getD .fact) (hjoins : Joins incident call) :
      Move incident store thread (.proceed draws) next ⟨.finishing, thread.backfills⟩
  | backfilled {place pending} (hpending : thread.backfills[place]? = some pending) :
      Move incident store thread (.backfill place) (updateCaseId store pending.id pending.caseId pending.keyId)
        ⟨thread.stage, thread.backfills.eraseIdx place⟩

theorem SameCase.refl (f : Fragment) : SameCase f f := ⟨rfl, rfl, rfl, rfl, rfl, rfl⟩

section Rows
variable {incident : Incident} {f g : Fragment}

theorem covers_congr (hsession : g.sessionId = f.sessionId) (htopic : g.topic = f.topic) (hkey : g.keyId = f.keyId) :
    incident.covers g = incident.covers f := by
  simp only [Incident.covers, keyScope, hsession, htopic, hkey]

theorem SameCase.covers (h : SameCase f g) : incident.covers g = incident.covers f :=
  covers_congr h.sessionId h.topic h.keyId

theorem mem_rowCases {store : Store} {c : String} :
    c ∈ rowCases incident store ↔ ∃ f ∈ store.fragments.rows, incident.covers f = true ∧ f.caseId = some c := by
  simp only [rowCases, List.mem_filterMap, List.mem_filter, and_assoc]

theorem mem_carried {pool : Calls} {c : String} :
    c ∈ carried incident pool ↔ c ∈ rowCases incident pool.shared ∨ ∃ thread ∈ pool.threads, c ∈ cases_ thread := by
  simp only [carried, List.mem_append, List.mem_flatMap]

theorem rewrites_refl (store : Store) : Rewrites SameCase store store :=
  ⟨id, (List.map_id _).symm, fun f _ => SameCase.refl f⟩

theorem rewrites_update (store : Store) (cond : Fragment → Bool) {change : ColumnUpdate}
    (hset : ∀ f, SameCase f (change.set f)) : Rewrites SameCase store (store.updateFragments cond change) := by
  refine ⟨fun f => if cond f then change.set f else f, rfl, fun f _ => ?_⟩
  simp only
  split
  · exact hset f
  · exact SameCase.refl f

end Rows

variable {settings : Settings} {incident : Incident}

/-- The case and the type of the fragment that a remember builds. -/
theorem buildFragment_case {draws : Draws} {params : RememberParams} {caseId : Option String} {caller : Caller}
    {f : Fragment}
    (h : buildFragment settings draws params caseId caller = .ok f) :
    f.caseId = truthy caseId ∧ f.type = params.type.getD .fact := by
  simp only [buildFragment] at h
  rcases hcreate :
    create settings.digests settings.tools draws.newId draws.now (params.factoryParams caseId) with reason | built
  · rw [hcreate] at h
    cases h
  · rw [hcreate] at h
    cases h
    simp only [create] at hcreate
    split at hcreate
    · cases hcreate
    · split at hcreate
      · cases hcreate
      · cases hcreate
        exact ⟨rfl, rfl⟩

/-- An insert adds one row, or it leaves every row with its case. -/
theorem insertNew_rows (draws : Draws) (store : Store) (call : Call) (caseId : Option String) :
    Rewrites SameCase store (insertNew settings draws store call caseId).1 ∨
    ∃ next row, insertNew settings draws store call caseId = (next, .returned row.id) ∧
      next.fragments.rows = store.fragments.rows ++ [row] ∧ (∀ f ∈ store.fragments.rows, f.id ≠ row.id) ∧
      row.caseId = truthy caseId ∧ row.type = call.params.type.getD .fact := by
  simp only [insertNew]
  rcases hadmitted : admitted settings draws store call caseId with _ | f
  · exact Or.inl (rewrites_refl store)
  · rcases hinsert : FragmentWriter.insert settings.digests draws.now store f with _ | ⟨next, id⟩
    · simp only [hinsert]
      exact Or.inl (rewrites_refl store)
    · simp only [hinsert]
      rcases upsertRow_cases hinsert with ⟨held, -, -, -, -, rfl⟩ | ⟨-, hid, fragments, hrow, rfl⟩
      · exact Or.inl (rewrites_update store _ fun g => ⟨rfl, rfl, rfl, rfl, rfl, rfl⟩)
      · have hrows := Table.rows_insert hrow
        have hbuilt := buildFragment_case (admitted_spec hadmitted).1
        refine Or.inr ⟨{ store with fragments := fragments }, prepareInsertRow settings.digests draws.now f, ?_, hrows,
          fun g hg hsame => ?_, ?_, hbuilt.2⟩
        · rw [hid]
        · have hdisjoint := fragments.disjoint
          rw [hrows, List.pairwise_append] at hdisjoint
          exact hdisjoint.2.2 g hg _ (List.mem_singleton.mpr rfl) (primary_mem_entries.mpr rfl)
            (primary_mem_entries.mpr hsame)
        · simp only [prepareInsertRow, hbuilt.1, truthy_truthy]

/-- The row that the lookup of the case finds. -/
theorem found_of_findCaseId {store : Store} {call : Call} {caseId : String} (hjoins : Joins incident call)
    (h : findCaseIdBySessionTopic store incident.sessionId incident.topic call.caller.keyId (call.caller.groups.getD []) =
      some caseId) :
    ∃ f ∈ store.fragments.rows, incident.covers f = true ∧ f.caseId = some caseId := by
  obtain ⟨f, hfound, hcase⟩ := Option.bind_eq_some_iff.mp h
  have hcond := List.find?_some (by exact hfound)
  simp only [Bool.and_eq_true] at hcond
  refine ⟨f, List.mem_of_find?_eq_some hfound, ?_, hcase⟩
  rw [Incident.covers, ← hjoins.key, ← hjoins.groups, hcond.1.1.1.1, hcond.1.1.1.2, hcond.2]
  rfl

theorem none_of_findCaseId {store : Store} {call : Call} (hjoins : Joins incident call)
    (h : findCaseIdBySessionTopic store incident.sessionId incident.topic call.caller.keyId (call.caller.groups.getD []) =
      none) :
    ∀ f ∈ store.fragments.rows, incident.covers f = true → f.live = true → f.caseId = none := by
  intro f hf hcovers hlive
  by_contra hcase
  have hsome : f.caseId.isSome = true := Option.isSome_iff_ne_none.mpr hcase
  rw [Incident.covers, ← hjoins.key, ← hjoins.groups, Bool.and_eq_true, Bool.and_eq_true] at hcovers
  rcases hfound : store.fragments.rows.find? (fun f =>
      f.sessionId = some incident.sessionId && f.topic = incident.topic && f.caseId.isSome && f.live &&
        keyScope call.caller.keyId (call.caller.groups.getD []) f) with _ | g
  · have hnot := List.find?_eq_none.mp hfound f hf
    rw [hcovers.1.1, hcovers.1.2, hcovers.2, hsome, hlive] at hnot
    exact hnot rfl
  · rw [findCaseIdBySessionTopic, hfound] at h
    have hcond := List.find?_some (by exact hfound)
    simp only [Bool.and_eq_true] at hcond
    have hnone : g.caseId = none := h
    rw [hnone] at hcond
    exact absurd hcond.1.1.2 Bool.false_ne_true

theorem lookup_insertNew {draws : Draws} {store : Store} {call other : Call}
    (h : lookup settings draws store call = .insertNew other) : other = call := by
  simp only [lookup] at h
  split at h
  · cases h
  · split at h
    · split at h <;> cases h
    · split at h
      · cases h
      · split at h
        · cases h
        · exact (IdempotentRemember.CallRun.insertNew.inj h).symm

/-- Every statement of a call of the incident is one of the moves. -/
theorem move_advance (input : StepInput) (store : Store) (thread : Remembering)
    (hjoins : StageJoins incident thread.stage) :
    Move incident store thread input (advance settings input store thread).1 (advance settings input store thread).2 := by
  cases input with
  | effect cond change =>
    simp only [advance]
    split
    · refine .quiet (rewrites_update store cond fun f => ?_) (Or.inr rfl) hjoins
      exact ⟨change.id_set f, change.keyId_set f, change.sessionId_set f, change.topic_set f, change.type_set f,
        change.caseId_set f⟩
    · exact .quiet (rewrites_refl store) (Or.inr rfl) hjoins
  | backfill place =>
    simp only [advance]
    rcases hpending : thread.backfills[place]? with _ | pending
    · exact .quiet (rewrites_refl store) (Or.inr rfl) hjoins
    · exact .backfilled hpending
  | proceed draws =>
    obtain ⟨stage, backfills⟩ := thread
    have hdone : Move incident store ⟨stage, backfills⟩ (.proceed draws) store ⟨.done, backfills⟩ :=
      .quiet (rewrites_refl store) (Or.inl rfl) trivial
    cases stage with
    | starting call =>
      simp only [advance, proceed]
      split
      · rename_i other hlookup
        rw [lookup_insertNew hlookup]
        simp only [List.append_nil]
        exact .quiet (rewrites_refl store) (Or.inl rfl) hjoins
      · simp only [List.append_nil]
        exact hdone
    | lookingUp call =>
      have hcall : Joins incident call := hjoins
      simp only [advance, proceed]
      split
      · simp only [List.append_nil]
        exact hdone
      · simp only [List.append_nil]
        rcases hfound : findCaseIdBySessionTopic store incident.sessionId incident.topic call.caller.keyId
            (call.caller.groups.getD []) with _ | caseId
        · have hsearching : Move incident store ⟨.lookingUp call, backfills⟩ (.proceed draws) store
              ⟨.searching call incident.sessionId incident.topic, backfills⟩ :=
            .quiet (rewrites_refl store) (Or.inl rfl) ⟨hcall, rfl, rfl⟩
          rcases hcall.type with htype | htype | htype
          · simp only [lookupCase, hcall.noCase, hcall.session, hcall.topic, htype, hfound, true_or, if_true]
            exact .drawn rfl htype (none_of_findCaseId hcall hfound) hcall
          · simp only [lookupCase, hcall.noCase, hcall.session, hcall.topic, htype, hfound, reduceCtorEq, or_false,
              or_true,
              if_true, if_false]
            exact hsearching
          · simp only [lookupCase, hcall.noCase, hcall.session, hcall.topic, htype, hfound, reduceCtorEq, or_true,
              if_true,
              if_false]
            exact hsearching
        · obtain ⟨f, hf, hcovers, hcase⟩ := found_of_findCaseId hcall hfound
          have hstage : lookupCase draws store call = .inserting call (some caseId) := by
            rcases hcall.type with htype | htype | htype <;>
              simp only [lookupCase, hcall.noCase, hcall.session, hcall.topic, htype, hfound, true_or, or_true, if_true]
          rw [hstage]
          exact .found rfl hf hcovers hcase hcall
    | searching call sessionId topic =>
      obtain ⟨hcall, rfl, rfl⟩ := hjoins
      simp only [advance, proceed, searchErrors]
      by_cases hnone : errorsFound store call incident.sessionId incident.topic = []
      · rw [if_pos hnone]
        simp only [List.append_nil]
        refine .quiet (rewrites_refl store) (Or.inl ?_) hcall
        simp only [stageCases, hcall.noCase, Option.toList_none]
      · rw [if_neg hnone]
        exact .searched rfl hnone hcall
    | inserting call caseId =>
      simp only [advance, proceed]
      rcases @insertNew_rows settings { draws with quotaRefuses := false } store call caseId with
        hrows | ⟨next, row, hinsert, hrows, hnew, hcase, htype⟩
      · rcases hinsert : insertNew settings { draws with quotaRefuses := false } store call caseId with ⟨next, outcome⟩
        rw [hinsert] at hrows
        cases outcome with
        | returned id =>
          simp only [List.append_nil]
          exact .quiet hrows (Or.inl rfl) trivial
        | simulated | failed | uniqueViolation =>
          simp only [List.append_nil]
          exact .quiet hrows (Or.inl rfl) trivial
      · simp only [hinsert, List.append_nil]
        exact .inserted rfl hrows hnew hcase htype hjoins
    | finishing | done =>
      simp only [advance, proceed, List.append_nil]
      exact hdone

/-- A row that holds a case, or to which a backfill in its reach is about to write it. -/
structure Supports (incident : Incident) (pool : Calls) (c : String) (g : Fragment) : Prop where
  row : g ∈ pool.shared.fragments.rows
  covers : incident.covers g = true
  holds : g.caseId = some c ∨
    ∃ thread ∈ pool.threads, ∃ b ∈ thread.backfills, b.id = g.id ∧ b.caseId = c ∧ ownedBy b.keyId g = true

/-- The invariant of coordinated runs: at most one case is carried, what will be shared is supported, and
backfills are those of errors. -/
structure Agreeing (incident : Incident) (pool : Calls) : Prop where
  joins : ∀ thread ∈ pool.threads, StageJoins incident thread.stage
  one : ∀ c ∈ carried incident pool, ∀ c' ∈ carried incident pool, c = c'
  shared : ∀ f ∈ pool.shared.fragments.rows, incident.covers f = true → f.type ≠ .error → ∀ c, f.caseId = some c →
    ∃ g, Supports incident pool c g ∧ g.id ≠ f.id
  backed : ∀ thread ∈ pool.threads, ∀ call caseId c, thread.stage = .inserting call caseId → truthy caseId = some c →
    call.params.type ≠ some .error → ∃ g, Supports incident pool c g
  errors : ∀ thread ∈ pool.threads, ∀ b ∈ thread.backfills, ∃ f ∈ pool.shared.fragments.rows, f.id = b.id ∧ f.type = .error ∧
    incident.covers f = true

section Step
variable {pool : Calls} {i : ℕ} {thread : Remembering} {next : Store} {last : Remembering}

/-- What is carried after a step comes from the rows, from the acting call or from another one. -/
theorem carried_after {P : String → Prop} (hrows : ∀ c ∈ rowCases incident next, P c) (hlast : ∀ c ∈ cases_ last, P c)
    (hold : ∀ c ∈ carried incident pool, P c) : ∀ c ∈ carried incident ⟨next, pool.threads.set i last⟩, P c := by
  intro c hc
  rcases mem_carried.mp hc with hrow | ⟨other, hother, hcase⟩
  · exact hrows c hrow
  · rcases List.mem_or_eq_of_mem_set hother with hmem | rfl
    · exact hold c (mem_carried.mpr (Or.inr ⟨other, hmem, hcase⟩))
    · exact hlast c hcase

/-- A row that keeps its place in the incident, and a case if it has one. -/
structure KeepsCase (f g : Fragment) : Prop where
  id : g.id = f.id
  keyId : g.keyId = f.keyId
  covers : ∀ incident : Incident, incident.covers g = incident.covers f
  type : g.type = f.type
  caseId : ∀ c, f.caseId = some c → g.caseId = some c

theorem SameCase.keepsCase {f g : Fragment} (h : SameCase f g) : KeepsCase f g :=
  ⟨h.id, h.keyId, fun _ => h.covers, h.type, fun _ hcase => h.caseId.trans hcase⟩

/-- Support survives a step that keeps the cases of the rows, and in which a backfill that ends has been run. -/
theorem supports_after {c : String} {g : Fragment} (hthread : pool.threads[i]? = some thread)
    (hrows : ∀ f ∈ pool.shared.fragments.rows, ∃ g ∈ next.fragments.rows, KeepsCase f g)
    (hkept : ∀ b ∈ thread.backfills, b ∈ last.backfills ∨ ∀ g ∈ next.fragments.rows, g.id = b.id →
      ownedBy b.keyId g = true → g.caseId = some b.caseId)
    (h : Supports incident pool c g) : ∃ g', Supports incident ⟨next, pool.threads.set i last⟩ c g' ∧ g'.id = g.id := by
  have hplace : i < pool.threads.length := (List.getElem?_eq_some_iff.mp hthread).1
  obtain ⟨g', hg', hkeeps⟩ := hrows g h.row
  have howned : ∀ keyId, ownedBy keyId g' = ownedBy keyId g := fun keyId => by simp only [ownedBy, hkeeps.keyId]
  refine ⟨g', ⟨hg', (hkeeps.covers incident).trans h.covers, ?_⟩, hkeeps.id⟩
  rcases h.holds with hholds | ⟨other, hother, b, hb, hbid, hbcase, hbowned⟩
  · exact Or.inl (hkeeps.caseId c hholds)
  · rw [← hkeeps.id] at hbid
    rw [← howned] at hbowned
    rcases mem_set_of_mem hthread hother last with rfl | hmem
    · rcases hkept b hb with hstays | hrun
      · exact Or.inr ⟨last, List.mem_set hplace last, b, hstays, hbid, hbcase, hbowned⟩
      · exact Or.inl (hbcase ▸ hrun g' hg' hbid.symm hbowned)
    · exact Or.inr ⟨other, hmem, b, hb, hbid, hbcase, hbowned⟩

/-- The invariant after a step, from what the step does to the rows and to the acting call. -/
theorem agreeing_after (h : Agreeing incident pool) (hthread : pool.threads[i]? = some thread)
    (hrows : ∀ f ∈ pool.shared.fragments.rows, ∃ g ∈ next.fragments.rows, KeepsCase f g)
    (hkept : ∀ b ∈ thread.backfills, b ∈ last.backfills ∨ ∀ g ∈ next.fragments.rows, g.id = b.id →
      ownedBy b.keyId g = true → g.caseId = some b.caseId)
    (hjoins : StageJoins incident last.stage)
    (hone : ∀ c ∈ carried incident ⟨next, pool.threads.set i last⟩, ∀ c' ∈ carried incident ⟨next, pool.threads.set i last⟩, c = c')
    (hshared : ∀ f ∈ next.fragments.rows, incident.covers f = true → f.type ≠ .error → ∀ c, f.caseId = some c →
      ∃ g, Supports incident pool c g ∧ g.id ≠ f.id)
    (hbacked : ∀ call caseId c, last.stage = .inserting call caseId → truthy caseId = some c →
      call.params.type ≠ some .error → ∃ g, Supports incident ⟨next, pool.threads.set i last⟩ c g)
    (herrors : ∀ b ∈ last.backfills, ∃ f ∈ pool.shared.fragments.rows, f.id = b.id ∧ f.type = .error ∧
      incident.covers f = true) :
    Agreeing incident ⟨next, pool.threads.set i last⟩ where
  joins other hother := by
    rcases List.mem_or_eq_of_mem_set hother with hmem | rfl
    · exact h.joins other hmem
    · exact hjoins
  one := hone
  shared f hf hcovers htype c hcase := by
    obtain ⟨g, hsupports, hne⟩ := hshared f hf hcovers htype c hcase
    obtain ⟨g', hafter, hid⟩ := supports_after hthread hrows hkept hsupports
    exact ⟨g', hafter, hid ▸ hne⟩
  backed other hother call caseId c hstage hcase htype := by
    rcases List.mem_or_eq_of_mem_set hother with hmem | rfl
    · obtain ⟨g, hsupports⟩ := h.backed other hmem call caseId c hstage hcase htype
      obtain ⟨g', hafter, -⟩ := supports_after hthread hrows hkept hsupports
      exact ⟨g', hafter⟩
    · exact hbacked call caseId c hstage hcase htype
  errors other hother b hb := by
    have hbefore : ∃ f ∈ pool.shared.fragments.rows, f.id = b.id ∧ f.type = .error ∧ incident.covers f = true := by
      rcases List.mem_or_eq_of_mem_set hother with hmem | rfl
      · exact h.errors other hmem b hb
      · exact herrors b hb
    obtain ⟨f, hf, hid, htype, hcovers⟩ := hbefore
    obtain ⟨g, hg, hkeeps⟩ := hrows f hf
    exact ⟨g, hg, hkeeps.id.trans hid, hkeeps.type.trans htype, (hkeeps.covers incident).trans hcovers⟩

theorem case_mem_carried {f : Fragment} {c : String} (hf : f ∈ pool.shared.fragments.rows)
    (hcovers : incident.covers f = true)
    (hcase : f.caseId = some c) : c ∈ carried incident pool :=
  mem_carried.mpr (Or.inl (mem_rowCases.mpr ⟨f, hf, hcovers, hcase⟩))

theorem backfill_mem_carried {b : Backfill} (hmem : thread ∈ pool.threads) (hb : b ∈ thread.backfills) :
    b.caseId ∈ carried incident pool :=
  mem_carried.mpr (Or.inr ⟨thread, hmem, List.mem_append_right _ (List.mem_map_of_mem hb)⟩)

/-- A step that draws no case id carries no new one. -/
theorem one_after (h : Agreeing incident pool) (hrows : ∀ c ∈ rowCases incident next, c ∈ carried incident pool)
    (hlast : ∀ c ∈ cases_ last, c ∈ carried incident pool) :
    ∀ c ∈ carried incident ⟨next, pool.threads.set i last⟩, ∀ c' ∈ carried incident ⟨next, pool.threads.set i last⟩, c = c' := by
  have hsubset := @carried_after incident pool i next last (· ∈ carried incident pool) hrows hlast fun _ hc => hc
  exact fun c hc c' hc' => h.one c (hsubset c hc) c' (hsubset c' hc')

/-- A step of a call that draws a case id when nothing is carried carries that id alone. -/
theorem one_after_draw {caseId : String} (hnothing : carried incident pool = [])
    (hlast : ∀ c ∈ cases_ last, c = caseId) :
    ∀ c ∈ carried incident ⟨pool.shared, pool.threads.set i last⟩,
      ∀ c' ∈ carried incident ⟨pool.shared, pool.threads.set i last⟩, c = c' := by
  have hnone : ∀ c, c ∉ carried incident pool := fun c => by rw [hnothing]; exact List.not_mem_nil
  have honly := @carried_after incident pool i pool.shared last (· = caseId)
    (fun c hc => absurd (mem_carried.mpr (Or.inl hc)) (hnone c)) hlast fun c hc => absurd hc (hnone c)
  exact fun c hc c' hc' => (honly c hc).trans (honly c' hc').symm

theorem sameRows : ∀ f ∈ pool.shared.fragments.rows, ∃ g ∈ pool.shared.fragments.rows, KeepsCase f g :=
  fun f hf => ⟨f, hf, (SameCase.refl f).keepsCase⟩

theorem rowCases_carried : ∀ c ∈ rowCases incident pool.shared, c ∈ carried incident pool :=
  fun _ hc => mem_carried.mpr (Or.inl hc)

theorem cases_carried (hmem : thread ∈ pool.threads) : ∀ c ∈ cases_ thread, c ∈ carried incident pool :=
  fun _ hc => mem_carried.mpr (Or.inr ⟨thread, hmem, hc⟩)

theorem backfills_carried (hmem : thread ∈ pool.threads) :
    ∀ c ∈ thread.backfills.map Backfill.caseId, c ∈ carried incident pool :=
  fun c hc => cases_carried hmem c (List.mem_append_right _ hc)

/-- A statement that leaves the cases alone. -/
theorem agreeing_quiet {stage : Stage} (h : Agreeing incident pool) (hthread : pool.threads[i]? = some thread)
    (hrows : Rewrites SameCase pool.shared next) (hstage : stageCases stage = [] ∨ stage = thread.stage)
    (hjoins : StageJoins incident stage) : Agreeing incident ⟨next, pool.threads.set i ⟨stage, thread.backfills⟩⟩ := by
  have hmem : thread ∈ pool.threads := List.mem_of_getElem? hthread
  have hkeeps : ∀ f ∈ pool.shared.fragments.rows, ∃ g ∈ next.fragments.rows, KeepsCase f g := by
    intro f hf
    obtain ⟨g, hg, hsame⟩ := hrows.persists f hf
    exact ⟨g, hg, hsame.keepsCase⟩
  have hkept : ∀ b ∈ thread.backfills, b ∈ thread.backfills ∨ ∀ g ∈ next.fragments.rows, g.id = b.id →
      ownedBy b.keyId g = true → g.caseId = some b.caseId := fun b hb => Or.inl hb
  have hnextCases : ∀ c ∈ rowCases incident next, c ∈ carried incident pool := by
    intro c hc
    obtain ⟨g, hg, hcovers, hcase⟩ := mem_rowCases.mp hc
    obtain ⟨f, hf, hsame⟩ := hrows.covers g hg
    exact case_mem_carried hf (hsame.covers.symm.trans hcovers) (hsame.caseId.symm.trans hcase)
  refine agreeing_after h hthread hkeeps hkept hjoins (one_after h hnextCases fun c hc => ?_) ?_ ?_ (h.errors thread hmem)
  · rcases List.mem_append.mp hc with hown | hpending
    · rcases hstage with hempty | rfl
      · rw [hempty] at hown
        cases hown
      · exact cases_carried hmem c (List.mem_append_left _ hown)
    · exact backfills_carried hmem c hpending
  · intro g hg hcovers htype c hcase
    obtain ⟨f, hf, hsame⟩ := hrows.covers g hg
    obtain ⟨other, hsupports, hne⟩ := h.shared f hf (hsame.covers.symm.trans hcovers) (hsame.type ▸ htype) c
      (hsame.caseId.symm.trans hcase)
    exact ⟨other, hsupports, hsame.id ▸ hne⟩
  · intro call caseId c hlast hcase htype
    rcases hstage with hempty | rfl
    · have hlast' : stage = .inserting call caseId := hlast
      rw [hlast', stageCases, hcase] at hempty
      cases hempty
    · obtain ⟨g, hsupports⟩ := h.backed thread hmem call caseId c hlast hcase htype
      obtain ⟨g', hafter, -⟩ := supports_after hthread hkeeps hkept hsupports
      exact ⟨g', hafter⟩

/-- A lookup that finds the case of the incident. -/
theorem agreeing_found {call : Call} {f : Fragment} {found : String} (h : Agreeing incident pool)
    (hthread : pool.threads[i]? = some thread) (hf : f ∈ pool.shared.fragments.rows) (hcovers : incident.covers f = true)
    (hcase : f.caseId = some found) (hjoins : Joins incident call) :
    Agreeing incident ⟨pool.shared, pool.threads.set i ⟨.inserting call (some found), thread.backfills⟩⟩ := by
  have hmem : thread ∈ pool.threads := List.mem_of_getElem? hthread
  refine agreeing_after h hthread sameRows (fun b hb => Or.inl hb) hjoins (one_after h rowCases_carried fun c hc => ?_) h.shared ?_
    (h.errors thread hmem)
  · rcases List.mem_append.mp hc with hown | hpending
    · have hsame : c = found := by
        simp only [stageCases, Option.mem_toList] at hown
        exact (Option.some.inj (truthy_eq_some hown)).symm
      exact hsame ▸ case_mem_carried hf hcovers hcase
    · exact backfills_carried hmem c hpending
  · intro other caseId c hlast htruthy htype
    obtain ⟨-, rfl⟩ := Stage.inserting.inj hlast
    have hsame := Option.some.inj (truthy_eq_some htruthy)
    exact ⟨f, hf, hcovers, Or.inl (hsame ▸ hcase)⟩

/-- An error that draws a case id when nothing is carried. -/
theorem agreeing_drawn {call : Call} {caseId : String} (h : Agreeing incident pool)
    (hthread : pool.threads[i]? = some thread) (hnothing : carried incident pool = [])
    (htype : call.params.type = some .error) (hjoins : Joins incident call) :
    Agreeing incident ⟨pool.shared, pool.threads.set i ⟨.inserting call (some caseId), thread.backfills⟩⟩ := by
  have hmem : thread ∈ pool.threads := List.mem_of_getElem? hthread
  refine agreeing_after h hthread sameRows (fun b hb => Or.inl hb) hjoins
    (@one_after_draw _ _ _ _ caseId hnothing fun c hc => ?_) h.shared ?_ (h.errors thread hmem)
  · rcases List.mem_append.mp hc with hown | hpending
    · simp only [stageCases, Option.mem_toList] at hown
      exact (Option.some.inj (truthy_eq_some hown)).symm
    · have hcarried : c ∈ carried incident pool := backfills_carried hmem c hpending
      rw [hnothing] at hcarried
      cases hcarried
  · intro other _ c hlast _ hother
    obtain ⟨rfl, -⟩ := Stage.inserting.inj hlast
    exact absurd htype hother

/-- A procedure or a decision that draws a case id for the errors it has found. -/
theorem agreeing_searched {call : Call} {caseId : String} {f : Fragment} (h : Agreeing incident pool)
    (hthread : pool.threads[i]? = some thread) (hnothing : carried incident pool = [])
    (hf : f ∈ pool.shared.fragments.rows) (howned : ownedBy call.caller.keyId f = true)
    (hfound : f.id ∈ errorsFound pool.shared call incident.sessionId incident.topic) (hjoins : Joins incident call) :
    Agreeing incident ⟨pool.shared, pool.threads.set i ⟨.inserting call (some caseId), thread.backfills ++
      (errorsFound pool.shared call incident.sessionId incident.topic).map fun id =>
        ⟨id, caseId, call.caller.keyId⟩⟩⟩ := by
  have hmem : thread ∈ pool.threads := List.mem_of_getElem? hthread
  have herror : ∀ id ∈ errorsFound pool.shared call incident.sessionId incident.topic,
      ∃ g ∈ pool.shared.fragments.rows, g.id = id ∧ g.type = .error ∧ incident.covers g = true := by
    intro id hid
    obtain ⟨g, hg, rfl⟩ := List.mem_map.mp hid
    obtain ⟨hrow, hcond⟩ := List.mem_filter.mp (List.mem_of_mem_take hg)
    simp only [Bool.and_eq_true, decide_eq_true_eq] at hcond
    refine ⟨g, hrow, rfl, hcond.1.1.2, ?_⟩
    rw [Incident.covers, ← hjoins.key, ← hjoins.groups, hcond.2, hcond.1.1.1.1, hcond.1.1.1.2]
    simp only [decide_true, Bool.and_self]
  refine agreeing_after h hthread sameRows (fun b hb => Or.inl (List.mem_append_left _ hb)) hjoins
    (@one_after_draw _ _ _ _ caseId hnothing fun c hc => ?_) h.shared ?_ fun b hb => ?_
  · rcases List.mem_append.mp hc with hown | hpending
    · simp only [stageCases, Option.mem_toList] at hown
      exact (Option.some.inj (truthy_eq_some hown)).symm
    · rw [List.map_append, List.mem_append] at hpending
      rcases hpending with hold | hnew
      · have hcarried : c ∈ carried incident pool := backfills_carried hmem c hold
        rw [hnothing] at hcarried
        cases hcarried
      · simp only [List.map_map, List.mem_map, Function.comp_apply] at hnew
        obtain ⟨id, -, rfl⟩ := hnew
        rfl
  · intro other _ c hlast htruthy _
    obtain ⟨-, rfl⟩ := Stage.inserting.inj hlast
    have hsame := Option.some.inj (truthy_eq_some htruthy)
    obtain ⟨g, hg, hid, -, hcovers⟩ := herror f.id hfound
    rw [eq_of_id pool.shared.fragments hg hf hid] at hcovers
    refine ⟨f, hf, hcovers,
      Or.inr ⟨_, List.mem_set (List.getElem?_eq_some_iff.mp hthread).1 _, ⟨f.id, caseId, call.caller.keyId⟩, ?_, rfl, hsame, howned⟩⟩
    exact List.mem_append_right _ (List.mem_map.mpr ⟨f.id, hfound, rfl⟩)
  · rcases List.mem_append.mp hb with hold | hnew
    · exact h.errors thread hmem b hold
    · obtain ⟨id, hid, rfl⟩ := List.mem_map.mp hnew
      exact herror id hid

/-- The insert of a row that the call carries the case of. -/
theorem agreeing_inserted {call : Call} {caseId : Option String} {row : Fragment} (h : Agreeing incident pool)
    (hthread : pool.threads[i]? = some thread) (hstage : thread.stage = .inserting call caseId)
    (hrows : next.fragments.rows = pool.shared.fragments.rows ++ [row])
    (hnew : ∀ f ∈ pool.shared.fragments.rows, f.id ≠ row.id) (hcase : row.caseId = truthy caseId)
    (htype : row.type = call.params.type.getD .fact) :
    Agreeing incident ⟨next, pool.threads.set i ⟨.finishing, thread.backfills⟩⟩ := by
  have hmem : thread ∈ pool.threads := List.mem_of_getElem? hthread
  have hkeeps : ∀ f ∈ pool.shared.fragments.rows, ∃ g ∈ next.fragments.rows, KeepsCase f g := by
    intro f hf
    exact ⟨f, hrows ▸ List.mem_append_left _ hf, (SameCase.refl f).keepsCase⟩
  have hrow : ∀ c, row.caseId = some c → c ∈ carried incident pool := by
    intro c hc
    refine cases_carried hmem c (List.mem_append_left _ ?_)
    rw [hstage, stageCases, ← hcase, hc]
    exact List.mem_singleton.mpr rfl
  have hnextCases : ∀ c ∈ rowCases incident next, c ∈ carried incident pool := by
    intro c hc
    obtain ⟨g, hg, hcovers, hgcase⟩ := mem_rowCases.mp hc
    rw [hrows] at hg
    rcases List.mem_append.mp hg with hold | hlast
    · exact case_mem_carried hold hcovers hgcase
    · rw [List.mem_singleton.mp hlast] at hgcase
      exact hrow c hgcase
  refine agreeing_after h hthread hkeeps (fun b hb => Or.inl hb) trivial (one_after h hnextCases fun c hc => backfills_carried hmem c hc) ?_ ?_
    (h.errors thread hmem)
  · intro g hg hcovers hgtype c hgcase
    rw [hrows] at hg
    rcases List.mem_append.mp hg with hold | hlast
    · exact h.shared g hold hcovers hgtype c hgcase
    · rw [List.mem_singleton.mp hlast] at hgtype hgcase ⊢
      have hcall : call.params.type ≠ some .error := by
        intro herror
        rw [htype, herror] at hgtype
        exact hgtype rfl
      obtain ⟨other, hsupports⟩ := h.backed thread hmem call caseId c hstage (hcase.symm.trans hgcase) hcall
      exact ⟨other, hsupports, hnew other hsupports.row⟩
  · intro other _ c hlast
    cases hlast

/-- A backfill that finds its row live. -/
theorem agreeing_backfilled {place : ℕ} {pending : Backfill} (h : Agreeing incident pool)
    (hthread : pool.threads[i]? = some thread) (hpending : thread.backfills[place]? = some pending)
    (hlive : ∀ f ∈ pool.shared.fragments.rows, f.id = pending.id → ownedBy pending.keyId f = true → f.live = true) :
    Agreeing incident ⟨updateCaseId pool.shared pending.id pending.caseId pending.keyId,
      pool.threads.set i ⟨thread.stage, thread.backfills.eraseIdx place⟩⟩ := by
  have hmem : thread ∈ pool.threads := List.mem_of_getElem? hthread
  have hb : pending ∈ thread.backfills := List.mem_of_getElem? hpending
  obtain ⟨errorRow, herrorRow, herrorId, herrorType, herrorCovers⟩ := h.errors thread hmem pending hb
  have hitsRow : ∀ f ∈ pool.shared.fragments.rows, f.id = pending.id → f = errorRow := fun f hf hid =>
    eq_of_id pool.shared.fragments hf herrorRow (hid.trans herrorId.symm)
  let written : Fragment → Bool := fun f => f.id = pending.id && f.live && ownedBy pending.keyId f
  have hwritten : ∀ f, written f = true → f.id = pending.id := by
    intro f hcond
    simp only [written, Bool.and_eq_true, decide_eq_true_eq] at hcond
    exact hcond.1.1
  have hafter : ∀ g, g ∈ (updateCaseId pool.shared pending.id pending.caseId pending.keyId).fragments.rows ↔
      ∃ f ∈ pool.shared.fragments.rows, g = if written f then (setCaseId pending.caseId).set f else f :=
    fun g => mem_updateFragments_iff pool.shared
  have hkeeps : ∀ f ∈ pool.shared.fragments.rows,
      ∃ g ∈ (updateCaseId pool.shared pending.id pending.caseId pending.keyId).fragments.rows, KeepsCase f g := by
    intro f hf
    refine ⟨_, (hafter _).mpr ⟨f, hf, rfl⟩, ?_⟩
    split
    · rename_i hcond
      refine ⟨rfl, rfl, fun _ => rfl, rfl, fun c hcase => ?_⟩
      have hcovers : incident.covers f = true := hitsRow f hf (hwritten f hcond) ▸ herrorCovers
      exact congrArg some (h.one _ (backfill_mem_carried hmem hb) _ (case_mem_carried hf hcovers hcase))
    · exact (SameCase.refl f).keepsCase
  have hkept : ∀ b ∈ thread.backfills, b ∈ thread.backfills.eraseIdx place ∨
      ∀ g ∈ (updateCaseId pool.shared pending.id pending.caseId pending.keyId).fragments.rows, g.id = b.id →
        ownedBy b.keyId g = true → g.caseId = some b.caseId := by
    intro b hmemb
    obtain ⟨j, hj⟩ := List.mem_iff_getElem?.mp hmemb
    by_cases hplace : j = place
    · right
      rw [hplace, hpending] at hj
      obtain rfl := Option.some.inj hj
      intro g hg hid howned
      obtain ⟨f, hf, rfl⟩ := (hafter g).mp hg
      by_cases hcond : written f = true
      · rw [if_pos hcond]
        rfl
      · rw [if_neg hcond] at hid howned
        refine absurd ?_ hcond
        simp only [written, hid, hlive f hf hid howned, howned, decide_true, Bool.and_self]
    · exact Or.inl (List.mem_eraseIdx_iff_getElem?.mpr ⟨j, hplace, hj⟩)
  have hnextCases : ∀ c ∈ rowCases incident (updateCaseId pool.shared pending.id pending.caseId pending.keyId),
      c ∈ carried incident pool := by
    intro c hc
    obtain ⟨g, hg, hcovers, hcase⟩ := mem_rowCases.mp hc
    obtain ⟨f, hf, rfl⟩ := (hafter g).mp hg
    by_cases hcond : written f = true
    · rw [if_pos hcond] at hcase
      exact Option.some.inj hcase ▸ backfill_mem_carried hmem hb
    · rw [if_neg hcond] at hcovers hcase
      exact case_mem_carried hf hcovers hcase
  refine agreeing_after h hthread hkeeps hkept (h.joins thread hmem) (one_after h hnextCases fun c hc => ?_) ?_ ?_ ?_
  · rcases List.mem_append.mp hc with hown | hpendings
    · exact cases_carried hmem c (List.mem_append_left _ hown)
    · obtain ⟨b, hmemb, rfl⟩ := List.mem_map.mp hpendings
      exact backfill_mem_carried hmem (List.mem_of_mem_eraseIdx hmemb)
  · intro g hg hcovers htype c hcase
    obtain ⟨f, hf, rfl⟩ := (hafter g).mp hg
    by_cases hcond : written f = true
    · rw [if_pos hcond] at htype
      have herror : f.type = .error := by rw [hitsRow f hf (hwritten f hcond), herrorType]
      exact absurd herror htype
    · rw [if_neg hcond] at hcovers htype hcase ⊢
      exact h.shared f hf hcovers htype c hcase
  · intro call caseId c hstage hcase htype
    obtain ⟨g, hsupports⟩ := h.backed thread hmem call caseId c hstage hcase htype
    obtain ⟨g', hafter', -⟩ :=
      @supports_after incident pool i thread _ ⟨thread.stage, thread.backfills.eraseIdx place⟩ c g
      hthread hkeeps hkept hsupports
    exact ⟨g', hafter'⟩
  · exact fun b hmemb => h.errors thread hmem b (List.mem_of_mem_eraseIdx hmemb)

theorem agreeing_move {input : StepInput} (h : Agreeing incident pool) (hthread : pool.threads[i]? = some thread)
    (hcoordinates : Coordinates incident pool input thread)
    (hmove : Move incident pool.shared thread input next last) : Agreeing incident ⟨next, pool.threads.set i last⟩ := by
  cases hmove with
  | quiet hrows hstage hjoins => exact agreeing_quiet h hthread hrows hstage hjoins
  | found hstage hf hcovers hcase hjoins => exact agreeing_found h hthread hf hcovers hcase hjoins
  | drawn hstage htype hnone hjoins =>
    simp only [Coordinates, hstage] at hcoordinates
    exact agreeing_drawn h hthread (hcoordinates htype hnone) htype hjoins
  | searched hstage hsome hjoins =>
    simp only [Coordinates, hstage] at hcoordinates
    obtain ⟨hnothing, f, hf, hfound, howned⟩ := hcoordinates hsome
    exact agreeing_searched h hthread hnothing hf howned hfound hjoins
  | inserted hstage hrows hnew hcase htype hjoins => exact agreeing_inserted h hthread hstage hrows hnew hcase htype
  | backfilled hpending =>
    simp only [Coordinates] at hcoordinates
    exact agreeing_backfilled h hthread hpending (hcoordinates _ hpending)

end Step

theorem agreeing_step (pool : Calls) (event : ℕ × StepInput) (h : Agreeing incident pool)
    (hcoordinated : Coordinated incident pool event) : Agreeing incident (callStep settings pool event) := by
  rcases Pool.step_cases (advance settings) pool event with ⟨-, hsame⟩ | ⟨thread, hthread, hmem, hshared, hthreads⟩
  · rw [callStep, hsame]
    exact h
  · have hstep : callStep settings pool event = ⟨(advance settings event.2 pool.shared thread).1,
        pool.threads.set event.1 (advance settings event.2 pool.shared thread).2⟩ := by
      rw [callStep, ← hshared, ← hthreads]
    rw [hstep]
    exact agreeing_move h hthread (hcoordinated thread hthread) (move_advance event.2 pool.shared thread (h.joins thread hmem))

theorem agreeing_startingCalls {store : Store} {calls : List Call} (hstart : OneCase incident store)
    (hjoins : ∀ call ∈ calls, Joins incident call) : Agreeing incident (startingCalls store calls) := by
  have hstarting : ∀ thread ∈ (startingCalls store calls).threads, ∃ call ∈ calls, thread = ⟨.starting call, []⟩ := by
    intro thread hthread
    obtain ⟨call, hcall, rfl⟩ := List.mem_map.mp hthread
    exact ⟨call, hcall, rfl⟩
  have hcarried : ∀ c ∈ carried incident (startingCalls store calls), c ∈ rowCases incident store := by
    intro c hc
    rcases mem_carried.mp hc with hrow | ⟨thread, hthread, hcase⟩
    · exact hrow
    · obtain ⟨call, -, rfl⟩ := hstarting thread hthread
      cases hcase
  constructor
  · intro thread hthread
    obtain ⟨call, hcall, rfl⟩ := hstarting thread hthread
    exact hjoins call hcall
  · intro c hc c' hc'
    obtain ⟨f, hf, hcovers, hcase⟩ := mem_rowCases.mp (hcarried c hc)
    obtain ⟨g, hg, hcovers', hcase'⟩ := mem_rowCases.mp (hcarried c' hc')
    exact hstart.same f hf g hg hcovers hcovers' c c' hcase hcase'
  · intro f hf hcovers htype c hcase
    obtain ⟨g, hg, hgcovers, hgcase, hne⟩ := hstart.shared f hf hcovers htype c hcase
    exact ⟨g, ⟨hg, hgcovers, Or.inl hgcase⟩, hne⟩
  · intro thread hthread call caseId c hstage
    obtain ⟨call, -, rfl⟩ := hstarting thread hthread
    cases hstage
  · intro thread hthread b hb
    obtain ⟨call, -, rfl⟩ := hstarting thread hthread
    cases hb

/-- When no backfill is left, the incident has one case. -/
theorem oneCase_of_agreeing {pool : Calls} (h : Agreeing incident pool) (hrun : BackfillsRun pool) :
    OneCase incident pool.shared where
  same f hf g hg hcovers hcovers' c c' hcase hcase' :=
    h.one c (case_mem_carried hf hcovers hcase) c' (case_mem_carried hg hcovers' hcase')
  shared f hf hcovers htype c hcase := by
    obtain ⟨g, hsupports, hne⟩ := h.shared f hf hcovers htype c hcase
    rcases hsupports.holds with hholds | ⟨thread, hthread, b, hb, -⟩
    · exact ⟨g, hsupports.row, hsupports.covers, hholds, hne⟩
    · rw [hrun thread hthread] at hb
      cases hb

/-- In every interleaving of calls of an incident whose statements are coordinated, the incident has one case
whenever no backfill is left. -/
theorem oneCase_run (settings : Settings) (incident : Incident) (store : Store) (calls : List Call)
    (hstart : OneCase incident store) (hjoins : ∀ call ∈ calls, Joins incident call) (schedule : List (ℕ × StepInput))
    (hcoordinated : StepsMeet (callStep settings) (Coordinated incident) (startingCalls store calls) schedule)
    (hrun : BackfillsRun (run (callStep settings) (startingCalls store calls) schedule)) :
    OneCase incident (run (callStep settings) (startingCalls store calls) schedule).shared :=
  oneCase_of_agreeing (invariant_run_of_meets (I := fun pool : Calls => Agreeing incident pool) (fun pool event h hstep => agreeing_step pool event h hstep)
    (agreeing_startingCalls hstart hjoins) hcoordinated) hrun

section Sample
open RememberLiveness (sampleSettings sampleDraws sampleParams replacementContent)
open ContentUniqueness (sampleKey sampleContent)
open ForgetOutcome (peerKey peerFragment groupCaller)

instance (incident : Incident) (pool : Calls) (input : StepInput) (thread : Remembering) :
    Decidable (Coordinates incident pool input thread) :=
  match input, thread with
  | .proceed _, ⟨.lookingUp call, _⟩ => inferInstanceAs (Decidable (call.params.type = some .error →
      (∀ f ∈ pool.shared.fragments.rows, incident.covers f = true → f.live = true → f.caseId = none) →
      carried incident pool = []))
  | .proceed _, ⟨.searching call sessionId topic, _⟩ => inferInstanceAs (Decidable (
      errorsFound pool.shared call sessionId topic ≠ [] → carried incident pool = [] ∧
      ∃ f ∈ pool.shared.fragments.rows, f.id ∈ errorsFound pool.shared call sessionId topic ∧
        ownedBy call.caller.keyId f = true))
  | .proceed _, ⟨.starting _, _⟩ | .proceed _, ⟨.inserting _ _, _⟩ | .proceed _, ⟨.finishing, _⟩ | .proceed _, ⟨.done, _⟩
  | .effect _ _, _ => inferInstanceAs (Decidable True)
  | .backfill place, thread => inferInstanceAs (Decidable (∀ pending ∈ thread.backfills[place]?,
      ∀ f ∈ pool.shared.fragments.rows, f.id = pending.id → ownedBy pending.keyId f = true → f.live = true))

instance (incident : Incident) (pool : Calls) (event : ℕ × StepInput) : Decidable (Coordinated incident pool event) :=
  inferInstanceAs (Decidable (∀ thread ∈ pool.threads[event.1]?, Coordinates incident pool event.2 thread))

instance (pool : Calls) : Decidable (BackfillsRun pool) :=
  decidable_of_iff (∀ thread ∈ pool.threads, thread.backfills.isEmpty = true) (by simp [BackfillsRun])

theorem oneCase_of_noCase {store : Store} (h : ∀ f ∈ store.fragments.rows, f.caseId = none) :
    OneCase incident store where
  same f hf _ _ _ _ c _ hcase := by
    rw [h f hf] at hcase
    cases hcase
  shared f hf _ _ c hcase := by
    rw [h f hf] at hcase
    cases hcase

def sampleIncident : Incident where
  keyId := some sampleKey
  groupKeyIds := [sampleKey, peerKey]
  sessionId := "session-01"
  topic := "deploy"

def sampleCall (content : String) (type : FragmentType) : Call where
  params := { sampleParams content [] with type := some type, sessionId := some "session-01" }
  caller := groupCaller sampleKey

/-- A statement of a call, with the ids that it would draw. -/
def statement (call : ℕ) (id caseId : String) : ℕ × StepInput := (call, .proceed { sampleDraws 1 id with newCaseId := caseId })

theorem joins_sampleCall {content : String} {type : FragmentType}
    (htype : some type = some .error ∨ some type = some .procedure ∨ some type = some .decision) :
    Joins sampleIncident (sampleCall content type) :=
  ⟨rfl, rfl, rfl, rfl, htype, rfl⟩

/-- A store with one error of the incident that has no case. -/
def errorOf (keyId : KeyId) : Store :=
  let row := { peerFragment with
    keyId := some keyId
    type := .error
    topic := "deploy"
    sessionId := some "session-01" }
  { fragments := (Table.empty.insert row).getD Table.empty }

def decisionCall : Call := sampleCall sampleContent .decision

/-- The decision finds the error, and its backfill runs before its insert. -/
def alone : List (ℕ × StepInput) :=
  [statement 0 "frag-01" "case-01", statement 0 "frag-01" "case-01", statement 0 "frag-01" "case-01", (0, .backfill 0),
    statement 0 "frag-01" "case-01"]

theorem oneCase_alone : OneCase sampleIncident
    (run (callStep sampleSettings) (startingCalls (errorOf sampleKey) [decisionCall]) alone).shared :=
  oneCase_run sampleSettings sampleIncident (errorOf sampleKey) [decisionCall]
    (oneCase_of_noCase (by decide))
    (fun call hcall => List.mem_singleton.mp hcall ▸ joins_sampleCall (Or.inr (Or.inr rfl))) alone (by decide +kernel)
    (by decide +kernel)

/-- Two errors that both look for a case before either is inserted. -/
def errorCalls : List Call := [sampleCall sampleContent .error, sampleCall replacementContent .error]

def racing : List (ℕ × StepInput) :=
  [statement 0 "frag-01" "case-01", statement 1 "frag-02" "case-02", statement 0 "frag-01" "case-01",
    statement 1 "frag-02" "case-02", statement 0 "frag-01" "case-01", statement 1 "frag-02" "case-02"]

/-- Two concurrent errors of one incident get two cases; and a decision that finds an error of another key of its
group, which its backfill does not reach, keeps a case that no other row has. -/
theorem incident_split :
    (OneCase sampleIncident {} ∧ (∀ call ∈ errorCalls, Joins sampleIncident call) ∧
      BackfillsRun (run (callStep sampleSettings) (startingCalls {} errorCalls) racing) ∧
      ¬ OneCase sampleIncident (run (callStep sampleSettings) (startingCalls {} errorCalls) racing).shared) ∧
    OneCase sampleIncident (errorOf peerKey) ∧ Joins sampleIncident decisionCall ∧
      BackfillsRun (run (callStep sampleSettings) (startingCalls (errorOf peerKey) [decisionCall]) alone) ∧
      ¬ OneCase sampleIncident (run (callStep sampleSettings) (startingCalls (errorOf peerKey) [decisionCall]) alone).shared := by
  have hjoins : ∀ call ∈ errorCalls, Joins sampleIncident call := by
    intro call hcall
    simp only [errorCalls, List.mem_cons, List.not_mem_nil, or_false] at hcall
    rcases hcall with rfl | rfl <;> exact joins_sampleCall (Or.inl rfl)
  have htwo : ∃ f ∈ (run (callStep sampleSettings) (startingCalls {} errorCalls) racing).shared.fragments.rows,
      ∃ g ∈ (run (callStep sampleSettings) (startingCalls {} errorCalls) racing).shared.fragments.rows,
        sampleIncident.covers f = true ∧ sampleIncident.covers g = true ∧ f.caseId = some "case-01" ∧
          g.caseId = some "case-02" := by
    decide +kernel
  have halone :
    ∃ f ∈ (run (callStep sampleSettings) (startingCalls (errorOf peerKey) [decisionCall]) alone).shared.fragments.rows,
      sampleIncident.covers f = true ∧ f.type ≠ .error ∧ f.caseId = some "case-01" ∧
        ∀ g ∈ (run (callStep sampleSettings) (startingCalls (errorOf peerKey) [decisionCall]) alone).shared.fragments.rows,
          g.caseId = some "case-01" → g.id = f.id := by
    decide +kernel
  refine ⟨⟨oneCase_of_noCase (by decide), hjoins, by decide +kernel, fun h => ?_⟩, oneCase_of_noCase (by decide +kernel),
    joins_sampleCall (Or.inr (Or.inr rfl)), by decide +kernel, fun h => ?_⟩
  · obtain ⟨f, hf, g, hg, hcovers, hcovers', hcase, hcase'⟩ := htwo
    exact absurd (h.same f hf g hg hcovers hcovers' _ _ hcase hcase') (by decide)
  · obtain ⟨f, hf, hcovers, htype, hcase, honly⟩ := halone
    obtain ⟨g, hg, -, hgcase, hne⟩ := h.shared f hf hcovers htype _ hcase
    exact hne (honly g hg hgcase)

end Sample

end FragmentMemory.IncidentCases
