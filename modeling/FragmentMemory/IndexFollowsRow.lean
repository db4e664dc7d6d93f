import FragmentMemory.AmendRuns

/-! # The index after amendments side by side

The pipelines of an amendment are computed from two rows: they remove what the snapshot had and add what
the transaction returned.  The index ends up with the row as long as the removed snapshot has what the
transaction replaced, and the pipelines run in the order of their transactions.
-/
namespace FragmentMemory.IndexFollowsRow
open ApiKeyStore FragmentTables FragmentFactory FragmentWriter FragmentReader FragmentIndex CaseEventStore
  MemoryRememberer MemoryRequests DryRuns InterleavedRuns TransitionRuns UniqueIndexTable AmendRuns ContentUniqueness
  RememberLiveness ForgetOutcome

variable (settings : Settings) (id : FragmentId)

/-- The index has the fragment under the keywords, the topic and the type of its row, and under none that
only another version had. -/
def Follows (shared : Shared) : Prop := ∀ row ∈ shared.store.fragments.byId id,
  (∀ set ∈ rowSets settings row, (set, id) ∈ shared.store.index) ∧
  ∀ version ∈ shared.versions, ∀ set ∈ rowSets settings version, set ∉ rowSets settings row →
    (set, id) ∉ shared.store.index

/-- What the snapshot and the row have to do with the version that replaces the row: the snapshot's removal
covers what the new version lacks, and no term of the new content is a set that only an earlier version
had. -/
def Succeeds (shared : Shared) (existing row result : Fragment) : Prop :=
  (∀ set ∈ rowSets settings row, set ∈ rowSets settings result ∨
    set ∈ deindexSets settings.tools existing existing.keyId) ∧
  ∀ version ∈ shared.versions, ∀ set ∈ rowSets settings version,
    set ∈ indexSets settings.tools result none result.keyId → set ∈ rowSets settings result

/-- The condition on one step. -/
def InStep (draws : Draws) (shared : Shared) (thread : Thread) : Prop :=
  match thread.stage with
  | .updating existing =>
    ∀ row ∈ shared.store.fragments.byId id,
      ∀ result ∈ UpdateResult.row (transact settings id draws.now shared.store thread.call).2,
        Succeeds settings shared existing row result
  | .deindexing ticket _ _ => shared.due = .deindex ticket
  | .indexing ticket _ _ => shared.due = .index ticket
  | .reading | .finished => True

def Finished (pool : Pool Shared Thread) : Prop := ∀ thread ∈ pool.threads, thread.stage = .finished

instance (shared : Shared) : Decidable (Follows settings id shared) :=
  inferInstanceAs (Decidable (∀ row ∈ shared.store.fragments.byId id, _ ∧ _))

instance (shared : Shared) (existing row result : Fragment) : Decidable (Succeeds settings shared existing row result) :=
  inferInstanceAs (Decidable (_ ∧ _))

instance (draws : Draws) (shared : Shared) (thread : Thread) : Decidable (InStep settings id draws shared thread) := by
  unfold InStep
  split <;> infer_instance

instance (pool : Pool Shared Thread) : Decidable (Finished pool) :=
  inferInstanceAs (Decidable (∀ thread ∈ pool.threads, _))

section Transactions

variable {settings} {id}

/-- The columns that the index is computed from, content apart. -/
def columns (f : Fragment) : FragmentId × Option KeyId × List String × String × FragmentType :=
  (f.id, f.keyId, f.keywords, f.topic, f.type)

theorem rowSets_eq_of_columns {f g : Fragment} (h : columns f = columns g) :
    rowSets settings f = rowSets settings g := by
  simp only [columns, Prod.mk.injEq] at h
  obtain ⟨-, hkey, hkeywords, htopic, htype⟩ := h
  rw [rowSets, rowSets, hkey, hkeywords, htopic, htype]

/-- Statements that leave the columns leave them in the row of an id. -/
theorem byId_of_columns {before after : FragmentTable} (h : after.rows.map columns = before.rows.map columns)
    {f : Fragment} (hf : after.byId id = some f) : ∃ g, before.byId id = some g ∧ columns g = columns f := by
  obtain ⟨hmem, hid⟩ := (byId_eq_some_iff _).mp hf
  have hcolumns : columns f ∈ before.rows.map columns := h ▸ List.mem_map_of_mem hmem
  obtain ⟨g, hg, hsame⟩ := List.mem_map.mp hcolumns
  have hgid : g.id = f.id := (Prod.mk.inj hsame).1
  exact ⟨g, (byId_eq_some_iff _).mpr ⟨hg, hgid.trans hid⟩, hsame⟩

/-- The outcomes of a transaction: nothing is written, or the row with the id is replaced. -/
theorem transact_cases (now : Time) (store : Store) (call : AmendCall) :
    (transact settings id now store call).1.index = store.index ∧
    ((transact settings id now store call).1 = store ∧
        (∀ result, UpdateResult.row (transact settings id now store call).2 = some result →
          store.fragments.byId id = some result) ∨
      ∃ row result, store.fragments.byId id = some row ∧
        UpdateResult.row (transact settings id now store call).2 = some result ∧
        (transact settings id now store call).1.fragments.byId id = some result ∧ result.keyId = row.keyId) := by
  rcases hexisting : store.fragments.byId id with _ | existing
  · simp only [transact, update, hexisting]
    exact ⟨trivial, Or.inl ⟨trivial, fun result hresult => absurd hresult.symm (Option.some_ne_none result)⟩⟩
  · simp only [transact, update, hexisting]
    split
    · exact ⟨rfl, Or.inl ⟨rfl, fun result hresult => absurd hresult.symm (Option.some_ne_none result)⟩⟩
    · split
      · exact ⟨rfl, Or.inl ⟨rfl, fun result hresult => absurd hresult.symm (Option.some_ne_none result)⟩⟩
      · split
        · exact ⟨rfl, Or.inl ⟨rfl, fun _ hresult => hresult⟩⟩
        · split
          · rename_i fragments hreplace
            split
            · refine ⟨rfl, Or.inr ⟨existing, _, rfl, rfl, ?_, rfl⟩⟩
              obtain ⟨hmem, hid⟩ := (byId_eq_some_iff _).mp hexisting
              rw [byId_eq_some_iff]
              refine ⟨?_, hid⟩
              rw [Table.rows_replace hreplace]
              exact List.mem_map.mpr ⟨existing, hmem, if_pos (primary_mem_entries.mpr hid.symm)⟩
            · exact ⟨rfl, Or.inl ⟨rfl, fun result hresult => absurd hresult.symm (Option.some_ne_none result)⟩⟩
          · exact ⟨rfl, Or.inl ⟨rfl, fun result hresult => absurd hresult.symm (Option.some_ne_none result)⟩⟩

end Transactions

section Invariant

variable (key : Option KeyId)

/-- What the index holds of the versions whose pipelines have run. -/
def DueHolds (shared : Shared) : Turn → Prop
  | .deindex ticket => 1 ≤ ticket ∧ ∃ last, shared.versions[ticket - 1]? = some last ∧
      (∀ set ∈ rowSets settings last, (set, id) ∈ shared.store.index) ∧
      ∀ version ∈ shared.versions.take ticket, ∀ set ∈ rowSets settings version, set ∉ rowSets settings last →
        (set, id) ∉ shared.store.index
  | .index ticket => 1 ≤ ticket ∧ ∃ next, shared.versions[ticket]? = some next ∧
      ∀ version ∈ shared.versions.take ticket, ∀ set ∈ rowSets settings version, set ∉ rowSets settings next →
        (set, id) ∉ shared.store.index

/-- The row has the columns of the last version, and the index is as far as the pipelines are. -/
structure Consistent (shared : Shared) : Prop where
  row : ∃ row last, shared.store.fragments.byId id = some row ∧ row.keyId = key ∧
    shared.versions.getLast? = some last ∧ columns row = columns last
  due : DueHolds settings id shared shared.due

/-- A call that holds a ticket. -/
structure Ticketed (shared : Shared) (ticket : ℕ) (existing result : Fragment) : Prop where
  positive : 1 ≤ ticket
  existing_id : existing.id = id
  existing_key : existing.keyId = key
  result_id : result.id = id
  result_key : result.keyId = key
  version : shared.versions[ticket]? = some result
  covers : ∃ before, shared.versions[ticket - 1]? = some before ∧ ∀ set ∈ rowSets settings before,
    set ∈ rowSets settings result ∨ set ∈ deindexSets settings.tools existing existing.keyId
  terms : ∀ version ∈ shared.versions.take ticket, ∀ set ∈ rowSets settings version,
    set ∈ indexSets settings.tools result none result.keyId → set ∈ rowSets settings result

def Asserts (shared : Shared) (thread : Thread) : Prop :=
  match thread.stage with
  | .updating existing => existing.id = id ∧ existing.keyId = key
  | .deindexing ticket existing result | .indexing ticket existing result =>
    Ticketed settings id key shared ticket existing result
  | .reading | .finished => True

/-- Every version whose pipelines have not run belongs to a call that is under way. -/
def Pending (pool : Pool Shared Thread) : Prop := ∀ ticket, pool.shared.due.ticket ≤ ticket →
  ticket < pool.shared.versions.length → ∃ thread ∈ pool.threads, thread.ticket = some ticket

variable {settings id key}

theorem take_of_initial {α : Type*} {xs ys : List α} (h : xs <+: ys) {n : ℕ} (hn : n ≤ xs.length) :
    ys.take n = xs.take n := by
  obtain ⟨later, rfl⟩ := h
  exact List.take_append_of_le_length hn

theorem getElem?_of_initial {α : Type*} {xs ys : List α} (h : xs <+: ys) {n : ℕ} {x : α} (hx : xs[n]? = some x) :
    ys[n]? = some x := by
  obtain ⟨later, rfl⟩ := h
  rw [List.getElem?_append_left (List.getElem?_eq_some_iff.mp hx).1, hx]

/-- More versions break nothing that a call under way relies on. -/
theorem asserts_mono {shared next : Shared} (h : shared.versions <+: next.versions) {thread : Thread}
    (hthread : Asserts settings id key shared thread) : Asserts settings id key next thread := by
  have hticketed : ∀ {ticket existing result}, Ticketed settings id key shared ticket existing result →
      Ticketed settings id key next ticket existing result := by
    intro ticket existing result hold
    obtain ⟨before, hbefore, hcovers⟩ := hold.covers
    have hlength : ticket ≤ shared.versions.length := le_of_lt (List.getElem?_eq_some_iff.mp hold.version).1
    refine { hold with
      version := getElem?_of_initial h hold.version
      covers := ⟨before, getElem?_of_initial h hbefore, hcovers⟩
      terms := ?_ }
    rw [take_of_initial h hlength]
    exact hold.terms
  obtain ⟨call, stage⟩ := thread
  cases stage with
  | deindexing ticket existing result => exact hticketed hthread
  | indexing ticket existing result => exact hticketed hthread
  | reading | finished => trivial
  | updating existing => exact hthread

/-- Versions that are committed later change nothing about the pipelines that have run. -/
theorem dueHolds_mono {shared next : Shared} (h : shared.versions <+: next.versions)
    (hindex : next.store.index = shared.store.index) {due : Turn} (hdue : DueHolds settings id shared due) :
    DueHolds settings id next due := by
  cases due with
  | deindex ticket =>
    obtain ⟨hpositive, last, hlast, hin, hout⟩ := hdue
    have hlength : ticket ≤ shared.versions.length := by
      have hbound := (List.getElem?_eq_some_iff.mp hlast).1
      omega
    refine ⟨hpositive, last, getElem?_of_initial h hlast, ?_, ?_⟩
    · rw [hindex]
      exact hin
    · rw [hindex, take_of_initial h hlength]
      exact hout
  | index ticket =>
    obtain ⟨hpositive, following, hfollowing, hout⟩ := hdue
    have hlength : ticket ≤ shared.versions.length := le_of_lt (List.getElem?_eq_some_iff.mp hfollowing).1
    refine ⟨hpositive, following, getElem?_of_initial h hfollowing, ?_⟩
    rw [hindex, take_of_initial h hlength]
    exact hout

/-- The removal by the snapshot clears what the next version lacks. -/
theorem dueHolds_deindex {shared : Shared} {ticket : ℕ} {existing result : Fragment}
    (hthread : Ticketed settings id key shared ticket existing result)
    (hdue : DueHolds settings id shared (.deindex ticket)) :
    DueHolds settings id
      { shared with store := deindex true settings.tools shared.store existing existing.keyId, due := .index ticket }
      (.index ticket) := by
  obtain ⟨hpositive, last, hlast, -, hout⟩ := hdue
  obtain ⟨before, hbefore, hcovers⟩ := hthread.covers
  obtain rfl := Option.some.inj (hlast.symm.trans hbefore)
  refine ⟨hpositive, result, hthread.version, fun version hversion set hset hlacks hmem => ?_⟩
  have hremoved : (set, id) ∈ shared.store.index ∧
      (¬ id = existing.id ∨ set ∉ deindexSets settings.tools existing existing.keyId) := by
    simpa [deindex, removeAll] using hmem
  by_cases hlastHas : set ∈ rowSets settings last
  · rcases hcovers set hlastHas with hkept | hcleared
    · exact hlacks hkept
    · rcases hremoved.2 with hother | hkept
      · exact hother hthread.existing_id.symm
      · exact hkept hcleared
  · exact hout version hversion set hset hlastHas hremoved.1

theorem rowSets_subset_indexSets {f : Fragment} {set : IndexSet} (h : set ∈ rowSets settings f) :
    set ∈ indexSets settings.tools f none f.keyId := by
  simp only [rowSets, List.mem_append, List.mem_map, List.mem_cons, List.not_mem_nil, or_false] at h
  simp only [indexSets, indexWords, List.mem_append, List.mem_map, List.mem_cons]
  rcases h with ⟨word, hword, rfl⟩ | rfl | rfl
  · exact Or.inl (Or.inl ⟨_, Or.inl ⟨word, hword, rfl⟩, rfl⟩)
  · exact Or.inl (Or.inr (Or.inl rfl))
  · exact Or.inl (Or.inr (Or.inr (Or.inl rfl)))

/-- The registration of a version after the removal of the one before it. -/
theorem dueHolds_index {shared next : Shared} {ticket : ℕ} {existing result : Fragment}
    (hthread : Ticketed settings id key shared ticket existing result)
    (hdue : DueHolds settings id shared (.index ticket)) (hversions : next.versions = shared.versions)
    (hindex : next.store.index = addAll shared.store.index (indexSets settings.tools result none result.keyId) id) :
    DueHolds settings id next (.deindex (ticket + 1)) := by
  obtain ⟨-, following, hfollowing, hout⟩ := hdue
  obtain rfl := Option.some.inj (hfollowing.symm.trans hthread.version)
  refine ⟨Nat.le_add_left 1 ticket, following, by rw [hversions]; exact hfollowing, fun set hset => ?_, ?_⟩
  · rw [hindex, mem_addAll]
    exact Or.inr (rowSets_subset_indexSets hset)
  · intro version hversion set hset hlacks hmem
    rw [hindex, mem_addAll] at hmem
    rw [hversions, List.take_add_one, hfollowing, List.mem_append, Option.toList_some, List.mem_singleton] at hversion
    rcases hversion with hearlier | rfl
    · rcases hmem with hold | hterm
      · exact hout version hearlier set hset hlacks hold
      · exact hlacks (hthread.terms version hearlier set hset hterm)
    · exact hlacks hset

/-- What a transaction leaves when it hands a row on, and when it does not. -/
theorem transact_row {now : Time} {store : Store} {call : AmendCall} {row : Fragment}
    (hrow : store.fragments.byId id = some row) :
    (UpdateResult.row (transact settings id now store call).2 = none ∧
        (transact settings id now store call).1.fragments.byId id = some row) ∨
      ∃ result, UpdateResult.row (transact settings id now store call).2 = some result ∧
        (transact settings id now store call).1.fragments.byId id = some result ∧ result.keyId = row.keyId := by
  rcases (@transact_cases settings id now store call).2 with ⟨hstore, hunchanged⟩ | ⟨existing, result, hexisting, hresult, hnext, hkey⟩
  · rcases hresult : UpdateResult.row (transact settings id now store call).2 with _ | result
    · exact Or.inl ⟨rfl, by rw [hstore]; exact hrow⟩
    · have hsame := hunchanged result hresult
      obtain rfl := Option.some.inj (hrow.symm.trans hsame)
      exact Or.inr ⟨row, rfl, by rw [hstore]; exact hrow, rfl⟩
  · obtain rfl := Option.some.inj (hrow.symm.trans hexisting)
    exact Or.inr ⟨result, hresult, hnext, hkey⟩

/-- A call that has committed a version holds its ticket. -/
theorem ticketed_commit {shared next : Shared} {existing row result last : Fragment}
    (hexisting : existing.id = id ∧ existing.keyId = key) (hresult : result.id = id ∧ result.keyId = key)
    (hlast : shared.versions.getLast? = some last) (hcolumns : columns row = columns last)
    (hsucceeds : Succeeds settings shared existing row result) (hversions : next.versions = shared.versions ++ [result]) :
    Ticketed settings id key next shared.versions.length existing result := by
  have hfilled : 1 ≤ shared.versions.length := by
    cases hempty : shared.versions with
    | nil =>
      rw [hempty] at hlast
      cases hlast
    | cons first later => exact Nat.le_add_left 1 later.length
  refine ⟨hfilled, hexisting.1, hexisting.2, hresult.1, hresult.2, ?_, ⟨last, ?_, ?_⟩, ?_⟩
  · rw [hversions, List.getElem?_append_right le_rfl, Nat.sub_self]
    rfl
  · rw [hversions, List.getElem?_append_left (by omega), ← List.getLast?_eq_getElem?, hlast]
  · rw [← rowSets_eq_of_columns hcolumns]
    exact hsucceeds.1
  · rw [hversions, List.take_left]
    exact hsucceeds.2

/-- The acting call keeps the invariant and its own assertion. -/
theorem consistent_advance (draws : Draws) (shared : Shared) (thread : Thread)
    (hshared : Consistent settings id key shared)
    (hthread : Asserts settings id key shared thread) (hstep : InStep settings id draws shared thread) :
    Consistent settings id key (advance settings id draws shared thread).1 ∧
      Asserts settings id key (advance settings id draws shared thread).1 (advance settings id draws shared thread).2 := by
  obtain ⟨call, stage⟩ := thread
  obtain ⟨row, last, hrow, hkey, hlast, hcolumns⟩ := hshared.row
  cases stage with
  | reading =>
    simp only [advance]
    rcases hfound : amendedRow shared.store (call.params id) call.caller with _ | existing
    · exact ⟨hshared, trivial⟩
    · have hexisting : shared.store.fragments.byId id = some existing := (Option.filter_eq_some_iff.mp hfound).1
      obtain rfl := Option.some.inj (hrow.symm.trans hexisting)
      exact ⟨hshared, ((byId_eq_some_iff _).mp hrow).2, hkey⟩
  | updating existing =>
    have hindex := (@transact_cases settings id draws.now shared.store call).1
    simp only [advance]
    rcases @transact_row settings id draws.now shared.store call row hrow with ⟨hnone, hnext⟩ | ⟨result, hresult, hnext, hsame⟩
    · simp only [hnone]
      refine ⟨⟨⟨row, last, hnext, hkey, hlast, hcolumns⟩, ?_⟩, trivial⟩
      have hversions : shared.versions <+:
          ({ shared with store := (transact settings id draws.now shared.store call).1 } : Shared).versions :=
        List.prefix_refl _
      exact dueHolds_mono hversions hindex hshared.due
    · have hsucceeds : Succeeds settings shared existing row result := hstep row hrow result hresult
      have hids : result.id = id ∧ result.keyId = key := ⟨((byId_eq_some_iff _).mp hnext).2, hsame.trans hkey⟩
      simp only [hresult]
      refine ⟨⟨⟨result, result, hnext, hids.2, List.getLast?_concat, rfl⟩, ?_⟩, ?_⟩
      · exact dueHolds_mono (List.prefix_append _ _) hindex hshared.due
      · exact ticketed_commit hthread hids hlast hcolumns hsucceeds rfl
  | deindexing ticket existing result =>
    have hdue : shared.due = .deindex ticket := hstep
    have hheld := hshared.due
    rw [hdue] at hheld
    refine ⟨⟨⟨row, last, ?_, hkey, hlast, hcolumns⟩, dueHolds_deindex hthread hheld⟩, ?_⟩
    · simp only [advance, deindex_fragments]
      exact hrow
    · have hheldThread : Asserts settings id key shared ⟨call, .indexing ticket existing result⟩ := hthread
      have hversions : shared.versions <+:
          (advance settings id draws shared ⟨call, .deindexing ticket existing result⟩).1.versions := List.prefix_refl _
      exact asserts_mono hversions hheldThread
  | indexing ticket existing result =>
    have hdue : shared.due = .index ticket := hstep
    have hheld := hshared.due
    rw [hdue] at hheld
    have hsame : existing.keyId = result.keyId := hthread.existing_key.trans hthread.result_key.symm
    obtain ⟨hindex, hrows⟩ := recordVerification_view settings draws columns (fun _ _ => rfl)
      (FragmentIndex.index true settings.tools shared.store result none existing.keyId) existing call.updates.assertionStatus
      call.caller.keyId
    rw [index_fragments] at hrows
    have hregistered : (advance settings id draws shared ⟨call, .indexing ticket existing result⟩).1.store.index =
        addAll shared.store.index (indexSets settings.tools result none result.keyId) id := by
      rw [← hthread.result_id, ← hsame]
      exact hindex
    refine ⟨⟨?_, dueHolds_index hthread hheld rfl hregistered⟩, trivial⟩
    obtain ⟨kept, hkept, hkeptColumns⟩ := byId_of_columns hrows.symm hrow
    have hkeptKey : kept.keyId = row.keyId := (Prod.mk.inj (Prod.mk.inj hkeptColumns).2).1
    exact ⟨kept, last, hkept, hkeptKey.trans hkey, hlast, hkeptColumns.trans hcolumns⟩
  | finished => exact ⟨hshared, trivial⟩

/-- No step takes a version away. -/
theorem versions_advance (draws : Draws) (shared : Shared) (thread : Thread) :
    shared.versions <+: (advance settings id draws shared thread).1.versions := by
  obtain ⟨call, stage⟩ := thread
  cases stage with
  | reading =>
    simp only [advance]
    split <;> exact List.prefix_refl _
  | updating existing =>
    simp only [advance]
    split
    · exact List.prefix_refl _
    · exact List.prefix_append _ _
  | deindexing ticket existing result | indexing ticket existing result | finished => exact List.prefix_refl _

/-- What the step of a call does to the tickets: it draws the next one, gives its own up when its pipelines
have run, or leaves them. -/
theorem ticket_advance {draws : Draws} {shared : Shared} {thread : Thread}
    (hstep : InStep settings id draws shared thread) :
    (shared.versions.length < (advance settings id draws shared thread).1.versions.length →
      (advance settings id draws shared thread).1.versions.length = shared.versions.length + 1 ∧
        (advance settings id draws shared thread).2.ticket = some shared.versions.length) ∧
    (∀ ticket, thread.ticket = some ticket → (advance settings id draws shared thread).2.ticket = some ticket ∨
      ticket < (advance settings id draws shared thread).1.due.ticket) ∧
    shared.due.ticket ≤ (advance settings id draws shared thread).1.due.ticket := by
  obtain ⟨call, stage⟩ := thread
  cases stage with
  | reading =>
    simp only [advance]
    split <;> simp [Thread.ticket]
  | updating existing =>
    simp only [advance]
    split <;> simp [Thread.ticket]
  | deindexing ticket existing result =>
    have hdue : shared.due = .deindex ticket := hstep
    simp [advance, Thread.ticket, Turn.ticket, hdue]
  | indexing ticket existing result =>
    have hdue : shared.due = .index ticket := hstep
    simp [advance, Thread.ticket, Turn.ticket, hdue]
  | finished => simp [advance, Thread.ticket]

/-- A step of the pool keeps a call under way for every version whose pipelines have not run. -/
theorem pending_step {pool : Pool Shared Thread} {event : ℕ × Draws} (h : Pending pool)
    (hstep : ActsOnly (InStep settings id) pool event) : Pending (pool.step (advance settings id) event) := by
  rcases Pool.step_cases (advance settings id) pool event with ⟨-, hnone⟩ | ⟨thread, hthread, hmem, hshared, hthreads⟩
  · rw [hnone]
    exact h
  · obtain ⟨hdrawn, hown, hdue⟩ := ticket_advance (hstep thread hthread)
    have hlonger := (@versions_advance settings id event.2 pool.shared thread).length_le
    have hacting : (advance settings id event.2 pool.shared thread).2 ∈
        (pool.step (advance settings id) event).threads := by
      rw [hthreads]
      exact List.mem_set (List.getElem?_eq_some_iff.mp hthread).1 _
    intro ticket hnext hbound
    rw [hshared] at hnext hbound
    by_cases hcommitted : ticket < pool.shared.versions.length
    · obtain ⟨other, hother, hticket⟩ := h ticket (hdue.trans hnext) hcommitted
      rcases mem_set_of_mem hthread hother (advance settings id event.2 pool.shared thread).2 with rfl | hkept
      · rcases hown ticket hticket with hheld | hrun
        · exact ⟨_, hacting, hheld⟩
        · omega
      · rw [← hthreads] at hkept
        exact ⟨other, hkept, hticket⟩
    · obtain ⟨hlength, hnew⟩ := hdrawn (by omega)
      have hticket : ticket = pool.shared.versions.length := by omega
      rw [hticket]
      exact ⟨_, hacting, hnew⟩

/-- When all calls have finished, the index is that of the last version. -/
theorem follows_of_finished {pool : Pool Shared Thread}
    (h : pool.Holds (Consistent settings id key) (Asserts settings id key)) (hpending : Pending pool)
    (hfinished : Finished pool) : Follows settings id pool.shared := by
  have hnone : ∀ ticket, pool.shared.due.ticket ≤ ticket → ¬ ticket < pool.shared.versions.length := by
    intro ticket hdue hbound
    obtain ⟨thread, hthread, hticket⟩ := hpending ticket hdue hbound
    simp only [Thread.ticket, hfinished thread hthread, reduceCtorEq] at hticket
  obtain ⟨⟨row, last, hrow, -, hlast, hcolumns⟩, hdueHolds⟩ := h.shared
  intro other hother
  obtain rfl := Option.some.inj (hrow.symm.trans hother)
  have hsets := @rowSets_eq_of_columns settings _ _ hcolumns
  cases hdue : pool.shared.due with
  | deindex ticket =>
    rw [hdue] at hdueHolds hnone
    obtain ⟨hpositive, current, hcurrent, hin, hout⟩ := hdueHolds
    have hbound := (List.getElem?_eq_some_iff.mp hcurrent).1
    have hlength : pool.shared.versions.length = ticket := by
      have hall := hnone ticket le_rfl
      omega
    have hsame : current = last := by
      rw [List.getLast?_eq_getElem?, hlength, hcurrent] at hlast
      exact Option.some.inj hlast
    rw [hsets, ← hsame]
    refine ⟨hin, fun version hversion => hout version ?_⟩
    rw [← hlength, List.take_length]
    exact hversion
  | index ticket =>
    rw [hdue] at hdueHolds hnone
    obtain ⟨-, next, hnext, -⟩ := hdueHolds
    exact absurd (List.getElem?_eq_some_iff.mp hnext).1 (hnone ticket le_rfl)

end Invariant

/-- In every interleaving in which each transaction replaces what its snapshot removes and the pipelines run in
the order of their transactions, the index follows the row once all calls have finished. -/
theorem index_follows_row (settings : Settings) (id : FragmentId) (store : Store) (row : Fragment) (calls : List AmendCall)
    (schedule : List (ℕ × Draws)) (hrow : store.fragments.byId id = some row)
    (hregistered : ∀ set ∈ rowSets settings row, (set, id) ∈ store.index)
    (hmeet : StepsMeet (Pool.step (advance settings id)) (ActsOnly (InStep settings id)) (start store row calls) schedule) :
    Finished (run (Pool.step (advance settings id)) (start store row calls) schedule) →
      Follows settings id (run (Pool.step (advance settings id)) (start store row calls) schedule).shared := by
  have hstart : (start store row calls).Holds (Consistent settings id row.keyId) (Asserts settings id row.keyId) := by
    refine ⟨⟨⟨row, row, hrow, rfl, rfl, rfl⟩, le_rfl, row, rfl, hregistered, ?_⟩, ?_⟩
    · intro version hversion set hset hlacks
      rw [List.mem_singleton.mp hversion] at hset
      exact absurd hset hlacks
    · intro thread hthread
      obtain ⟨call, -, rfl⟩ := List.mem_map.mp hthread
      trivial
  have hpending : Pending (start store row calls) := by
    intro ticket hdue hbound
    have hone : 1 ≤ ticket := hdue
    have hlength : ticket < 1 := hbound
    omega
  have hrun := invariant_run_of_meets
    (I := fun pool => pool.Holds (Consistent settings id row.keyId) (Asserts settings id row.keyId) ∧ Pending pool)
    (fun pool event h hstep => ⟨Pool.holds_step consistent_advance (fun draws shared thread other _ _ _ hother =>
      asserts_mono (versions_advance draws shared thread) hother) pool event h.1 hstep, pending_step h.2 hstep⟩)
    ⟨hstart, hpending⟩ hmeet
  exact fun hfinished => follows_of_finished hrun.1 hrun.2 hfinished

def routeFragment : Fragment := { sampleFragment with keywords := ["network"] }

/-- The fragment of a route and its registration. -/
def routeStore : Store :=
  FragmentIndex.index true sampleTools { fragments := ⟨[routeFragment], List.pairwise_singleton _ _⟩ } routeFragment none
    (some sampleKey)

def rerouting (keyword : String) : AmendCall where
  updates := { keywords := some [keyword] }
  caller := sampleCaller

def clock : Draws := sampleDraws 2 "frag-02"

theorem index_follows_row_sequential :
    Follows readySettings "frag-01" (run (Pool.step (advance readySettings "frag-01"))
      (start routeStore routeFragment [rerouting "gateway", rerouting "router"])
      [(0, clock), (0, clock), (0, clock), (0, clock), (1, clock), (1, clock), (1, clock), (1, clock)]).shared :=
  index_follows_row readySettings "frag-01" routeStore routeFragment [rerouting "gateway", rerouting "router"] _ rfl
    (by decide +kernel) (by decide +kernel) (by decide +kernel)

/-- Both calls read the row before either amends it: the second takes the first version out of the index once
more, and the version between stays registered. -/
theorem replaced_version_stays :
    Finished (run (Pool.step (advance readySettings "frag-01"))
      (start routeStore routeFragment [rerouting "gateway", rerouting "router"])
      [(0, clock), (1, clock), (0, clock), (0, clock), (0, clock), (1, clock), (1, clock), (1, clock)]) ∧
    ¬ Follows readySettings "frag-01" (run (Pool.step (advance readySettings "frag-01"))
      (start routeStore routeFragment [rerouting "gateway", rerouting "router"])
      [(0, clock), (1, clock), (0, clock), (0, clock), (0, clock), (1, clock), (1, clock), (1, clock)]).shared := by
  decide +kernel

end FragmentMemory.IndexFollowsRow
