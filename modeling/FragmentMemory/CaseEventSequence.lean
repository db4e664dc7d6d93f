import FragmentMemory.CaseHistory
import FragmentMemory.InterleavedRuns

/-! # The numbers of case events

`CaseEventStore.append` is a transaction: `created_at` is the time at which it begins, the number is one more than
the largest committed one, and neither a lock nor a unique index orders two appends.  Here is what holds of the
numbers in every interleaving of appends.
-/
namespace FragmentMemory.CaseEventSequence
open ApiKeyStore FragmentTables CaseEventStore CaseHistory TransitionRuns InterleavedRuns

/-- The committed tables and the clock of the database. -/
structure Database where
  store : Store := {}
  clock : Time := 0

/-- What is left of an append: its `BEGIN`, the query for the number, or the insert with its `COMMIT`. -/
inductive Appending
  | waiting (event : CaseEvent)
  | begun (event : CaseEvent)
  | numbered (event : CaseEvent)
  | done

/-- The time that has passed at a step, and whether the transaction is rolled back there. -/
structure Tick where
  elapsed : ℕ := 0
  fails : Bool := false

/-- The insert as it is committed. -/
def commit (store : Store) (event : CaseEvent) : Store := { store with caseEvents := store.caseEvents ++ [event] }

/-- The next statement of an append, which sees the rows committed before it. -/
def advance (tick : Tick) (db : Database) (thread : Appending) : Database × Appending :=
  let now := { db with clock := db.clock + tick.elapsed }
  if tick.fails then (now, .done)
  else match thread with
    | .waiting event => (now, .begun { event with createdAt := now.clock })
    | .begun event => (now, .numbered { event with sequenceNo := nextSequenceNo db.store event.caseId })
    | .numbered event => ({ now with store := commit db.store event }, .done)
    | .done => (now, .done)

abbrev Appends := Pool Database Appending

def appendStep (pool : Appends) (event : ℕ × Tick) : Appends := pool.step advance event

/-- The appends of some events before the first step. -/
def starting (events : List CaseEvent) : Appends := { shared := {}, threads := events.map .waiting }

def caseRows (store : Store) (caseId : String) : List CaseEvent := store.caseEvents.filter fun e => e.caseId = caseId

/-- Every number below a committed one is committed. -/
def NoGaps (store : Store) (caseId : String) : Prop :=
  ∀ e ∈ caseRows store caseId, ∀ n < e.sequenceNo, ∃ earlier ∈ caseRows store caseId, earlier.sequenceNo = n

/-- The numbers of a case are distinct, run from zero, and follow the order of `getByCase`. -/
structure Sequenced (store : Store) (caseId : String) : Prop where
  distinct : ((caseRows store caseId).map CaseEvent.sequenceNo).Nodup
  counted : ∀ n, n ∈ (caseRows store caseId).map CaseEvent.sequenceNo ↔ n < (caseRows store caseId).length
  ordered : ∀ a ∈ caseRows store caseId, ∀ b ∈ caseRows store caseId, eventOrder a b = true → a.sequenceNo ≤ b.sequenceNo

/-- An append of the case that commits has the next number and has begun after those that are committed. -/
def CommitsInTurn (caseId : String) (tick : Tick) (db : Database) (thread : Appending) : Prop :=
  ∀ event, thread = .numbered event → tick.fails = false → event.caseId = caseId →
    event.sequenceNo = nextSequenceNo db.store caseId ∧ ∀ e ∈ caseRows db.store caseId, e.createdAt ≤ event.createdAt

/-- An append of the case is under way. -/
def UnderWay (caseId : String) : Appending → Prop
  | .begun event | .numbered event => event.caseId = caseId
  | .waiting _ | .done => False

/-- No append of the case begins while another one is under way. -/
def BeginsAlone (caseId : String) (pool : Appends) (event : ℕ × Tick) : Prop :=
  ∀ row, pool.threads[event.1]? = some (.waiting row) → row.caseId = caseId →
    ∀ thread ∈ pool.threads, ¬ UnderWay caseId thread

theorem mem_caseRows {store : Store} {caseId : String} {e : CaseEvent} :
    e ∈ caseRows store caseId ↔ e ∈ store.caseEvents ∧ e.caseId = caseId := by
  rw [caseRows, List.mem_filter, decide_eq_true_eq]

theorem caseRows_commit (store : Store) (event : CaseEvent) (caseId : String) :
    caseRows (commit store event) caseId = if event.caseId = caseId then caseRows store caseId ++ [event]
      else caseRows store caseId := by
  simp only [caseRows, commit, List.filter_append]
  by_cases hcase : event.caseId = caseId
  · simp only [List.filter_cons, List.filter_nil, hcase, decide_true, if_true]
  · simp only [List.filter_cons, List.filter_nil, hcase, decide_false, Bool.false_eq_true, if_false, List.append_nil]

/-- The numbers below the next one are those up to a committed one. -/
theorem lt_nextSequenceNo_iff {store : Store} {caseId : String} {n : ℕ} :
    n < nextSequenceNo store caseId ↔ ∃ e ∈ caseRows store caseId, n ≤ e.sequenceNo := by
  have hmax : ∀ rows : List CaseEvent, n < (rows.map fun e => e.sequenceNo + 1).foldr max 0 ↔
    ∃ e ∈ rows, n ≤ e.sequenceNo := by
    intro rows
    induction rows with
    | nil => simp
    | cons e later ih =>
      rw [List.map_cons, List.foldr_cons, lt_max_iff, ih, Nat.lt_succ_iff]
      simp only [List.mem_cons, exists_eq_or_imp]
  exact hmax (caseRows store caseId)

theorem NoGaps.committed {store : Store} {caseId : String} (h : NoGaps store caseId) {n : ℕ} :
    n < nextSequenceNo store caseId ↔ n ∈ (caseRows store caseId).map CaseEvent.sequenceNo := by
  rw [lt_nextSequenceNo_iff, List.mem_map]
  constructor
  · rintro ⟨e, he, hn⟩
    rcases Nat.lt_or_eq_of_le hn with hless | hsame
    · exact h e he n hless
    · exact ⟨e, he, hsame.symm⟩
  · rintro ⟨e, he, rfl⟩
    exact ⟨e, he, le_refl _⟩

theorem nextSequenceNo_commit_le (store : Store) (event : CaseEvent) (caseId : String) :
    nextSequenceNo store caseId ≤ nextSequenceNo (commit store event) caseId := by
  by_contra hless
  obtain ⟨e, he, hn⟩ := lt_nextSequenceNo_iff.mp (Nat.lt_of_not_le hless)
  have hkept : e ∈ caseRows (commit store event) caseId := by
    rw [caseRows_commit]
    split
    · exact List.mem_append_left _ he
    · exact he
  exact absurd (lt_nextSequenceNo_iff.mpr ⟨e, hkept, hn⟩) (lt_irrefl _)

section Commit
variable {store : Store} {event : CaseEvent} {caseId : String}

/-- An event of another case changes nothing. -/
theorem caseRows_commit_other (hcase : event.caseId ≠ caseId) :
    caseRows (commit store event) caseId = caseRows store caseId := by
  rw [caseRows_commit, if_neg hcase]

theorem NoGaps.commit (h : NoGaps store caseId) (hnumber : event.sequenceNo ≤ nextSequenceNo store event.caseId) :
    NoGaps (commit store event) caseId := by
  by_cases hcase : event.caseId = caseId
  · rw [NoGaps, caseRows_commit, if_pos hcase]
    intro e he n hn
    rcases List.mem_append.mp he with hold | hnew
    · obtain ⟨earlier, hearlier, hn'⟩ := h e hold n hn
      exact ⟨earlier, List.mem_append_left _ hearlier, hn'⟩
    · rw [List.mem_singleton.mp hnew] at hn
      rw [hcase] at hnumber
      obtain ⟨earlier, hearlier, hn'⟩ := List.mem_map.mp (h.committed.mp (lt_of_lt_of_le hn hnumber))
      exact ⟨earlier, List.mem_append_left _ hearlier, hn'⟩
  · rw [NoGaps, caseRows_commit_other hcase]
    exact h

theorem Sequenced.next (h : Sequenced store caseId) (hgaps : NoGaps store caseId) :
    nextSequenceNo store caseId = (caseRows store caseId).length := by
  have hsame : ∀ n, n < nextSequenceNo store caseId ↔ n < (caseRows store caseId).length := fun n => by
    rw [hgaps.committed, h.counted]
  exact eq_of_forall_lt_iff hsame

/-- A commit keeps the numbers in sequence exactly when it has the next number and no committed event is younger. -/
theorem sequenced_commit_iff (h : Sequenced store caseId) (hgaps : NoGaps store caseId)
    (hnumber : event.sequenceNo ≤ nextSequenceNo store caseId) (hcase : event.caseId = caseId) :
    Sequenced (commit store event) caseId ↔
      event.sequenceNo = nextSequenceNo store caseId ∧ ∀ e ∈ caseRows store caseId, e.createdAt ≤ event.createdAt := by
  have hrows : caseRows (commit store event) caseId = caseRows store caseId ++ [event] := by
    rw [caseRows_commit, if_pos hcase]
  have hnew : event ∈ caseRows (commit store event) caseId := by
    rw [hrows]
    exact List.mem_append_right _ (List.mem_singleton.mpr rfl)
  have hold : ∀ e ∈ caseRows store caseId, e ∈ caseRows (commit store event) caseId := by
    rw [hrows]
    exact fun e he => List.mem_append_left _ he
  have hless : ∀ e ∈ caseRows store caseId, e.sequenceNo < nextSequenceNo store caseId := fun e he =>
    lt_nextSequenceNo_iff.mpr ⟨e, he, le_refl _⟩
  constructor
  · intro hafter
    have hnext : event.sequenceNo = nextSequenceNo store caseId := by
      refine le_antisymm hnumber (Nat.le_of_not_lt fun hlower => ?_)
      have hdistinct := hafter.distinct
      rw [hrows, List.map_append, List.nodup_append] at hdistinct
      exact hdistinct.2.2 _ (hgaps.committed.mp hlower) _ (List.mem_singleton.mpr rfl) rfl
    refine ⟨hnext, fun e he => Nat.le_of_not_lt fun hyounger => ?_⟩
    have hbefore := hafter.ordered event hnew e (hold e he) ((eventOrder_iff event e).mpr (Or.inl hyounger))
    rw [hnext] at hbefore
    exact absurd (hless e he) (Nat.not_lt_of_le hbefore)
  · rintro ⟨hnext, hyoungest⟩
    constructor
    · rw [hrows, List.map_append, List.nodup_append]
      refine ⟨h.distinct, List.nodup_singleton _, fun n hn m hm hsame => ?_⟩
      obtain ⟨e, he, rfl⟩ := List.mem_map.mp hn
      have hlast : m = event.sequenceNo := List.mem_singleton.mp hm
      exact absurd (hsame.trans (hlast.trans hnext)) (Nat.ne_of_lt (hless e he))
    · intro n
      rw [hrows, List.map_append, List.mem_append, h.counted, List.length_append, List.map_singleton,
        List.mem_singleton,
        hnext, h.next hgaps, List.length_singleton]
      omega
    · intro a ha b hb hab
      rw [hrows] at ha hb
      rcases List.mem_append.mp ha with haOld | haNew
      · rcases List.mem_append.mp hb with hbOld | hbNew
        · exact h.ordered a haOld b hbOld hab
        · rw [List.mem_singleton.mp hbNew, hnext]
          exact le_of_lt (hless a haOld)
      · rw [List.mem_singleton.mp haNew] at hab ⊢
        rcases List.mem_append.mp hb with hbOld | hbNew
        · rcases (eventOrder_iff event b).mp hab with hearlier | ⟨-, hbelow⟩
          · exact absurd hearlier (Nat.not_lt_of_le (hyoungest b hbOld))
          · exact hbelow
        · rw [List.mem_singleton.mp hbNew]

end Commit

/-- What holds of the tables in every interleaving. -/
structure Kept (db : Database) : Prop where
  gaps : ∀ caseId, NoGaps db.store caseId
  past : ∀ e ∈ db.store.caseEvents, e.createdAt ≤ db.clock

/-- What holds of an append under way: it has begun in the past, and its number has been the next one. -/
def Reads (db : Database) : Appending → Prop
  | .waiting _ | .done => True
  | .begun event => event.createdAt ≤ db.clock
  | .numbered event => event.createdAt ≤ db.clock ∧ event.sequenceNo ≤ nextSequenceNo db.store event.caseId

theorem advance_own (tick : Tick) (db : Database) (thread : Appending) (h : Kept db) (hreads : Reads db thread) :
    Kept (advance tick db thread).1 ∧ Reads (advance tick db thread).1 (advance tick db thread).2 := by
  have hpast : ∀ e ∈ db.store.caseEvents, e.createdAt ≤ db.clock + tick.elapsed := fun e he =>
    le_trans (h.past e he) (Nat.le_add_right _ _)
  simp only [advance]
  split
  · exact ⟨⟨h.gaps, hpast⟩, trivial⟩
  · cases thread with
    | waiting event => exact ⟨⟨h.gaps, hpast⟩, le_refl _⟩
    | begun event => exact ⟨⟨h.gaps, hpast⟩, le_trans hreads (Nat.le_add_right _ _), le_refl _⟩
    | numbered event =>
      refine ⟨⟨fun caseId => (h.gaps caseId).commit hreads.2, fun e he => ?_⟩, trivial⟩
      rcases List.mem_append.mp he with hold | hnew
      · exact hpast e hold
      · rw [List.mem_singleton.mp hnew]
        exact le_trans hreads.1 (Nat.le_add_right _ _)
    | done => exact ⟨⟨h.gaps, hpast⟩, trivial⟩

theorem advance_other (tick : Tick) (db : Database) (thread other : Appending) (hreads : Reads db other) :
    Reads (advance tick db thread).1 other := by
  have hclock : db.clock ≤ (advance tick db thread).1.clock := by
    simp only [advance]
    split
    · exact Nat.le_add_right _ _
    · cases thread <;> exact Nat.le_add_right _ _
  have hnext : ∀ caseId, nextSequenceNo db.store caseId ≤ nextSequenceNo (advance tick db thread).1.store caseId := by
    intro caseId
    simp only [advance]
    split
    · exact le_refl _
    · cases thread with
      | numbered event => exact nextSequenceNo_commit_le db.store event caseId
      | waiting | begun | done => exact le_refl _
  cases other with
  | waiting | done => trivial
  | begun event => exact le_trans hreads hclock
  | numbered event => exact ⟨le_trans hreads.1 hclock, le_trans hreads.2 (hnext event.caseId)⟩

theorem kept_step (pool : Appends) (event : ℕ × Tick) (h : pool.Holds Kept Reads) :
    (appendStep pool event).Holds Kept Reads :=
  @Pool.holds_step _ _ _ advance Kept Reads (fun _ _ _ => True)
    (fun tick db thread hdb hthread _ => advance_own tick db thread hdb hthread)
    (fun tick db thread other _ _ _ hother => advance_other tick db thread other hother) pool event h fun _ _ => trivial

theorem kept_starting (events : List CaseEvent) : (starting events).Holds Kept Reads where
  shared := ⟨fun caseId e he => absurd (mem_caseRows.mp he).1 List.not_mem_nil, fun e he => absurd he List.not_mem_nil⟩
  threads thread hthread := by
    obtain ⟨event, -, rfl⟩ := List.mem_map.mp hthread
    trivial

theorem sequenced_empty (caseId : String) : Sequenced {} caseId where
  distinct := List.nodup_nil
  counted n := by simp [caseRows]
  ordered a ha := by cases ha

/-- What one statement does to the rows of a case: only the commit of an append of the case changes them. -/
theorem advance_caseRows (tick : Tick) (db : Database) (thread : Appending) (caseId : String) :
    (caseRows (advance tick db thread).1.store caseId = caseRows db.store caseId ∧
      nextSequenceNo (advance tick db thread).1.store caseId = nextSequenceNo db.store caseId ∧
      ∀ event, thread = .numbered event → tick.fails = false → event.caseId ≠ caseId) ∨
    ∃ event, thread = .numbered event ∧ tick.fails = false ∧ event.caseId = caseId ∧
      (advance tick db thread).1.store = commit db.store event := by
  simp only [advance]
  split
  · rename_i hfails
    exact Or.inl ⟨rfl, rfl, fun event _ hcommits => Bool.noConfusion (hfails.symm.trans hcommits)⟩
  · rename_i hfails
    rw [Bool.not_eq_true] at hfails
    cases thread with
    | numbered event =>
      by_cases hcase : event.caseId = caseId
      · exact Or.inr ⟨event, rfl, hfails, hcase, rfl⟩
      · have hrows : caseRows (commit db.store event) caseId = caseRows db.store caseId := caseRows_commit_other hcase
        refine Or.inl ⟨hrows, ?_, fun other hother _ => Appending.numbered.inj hother ▸ hcase⟩
        exact eq_of_forall_lt_iff fun n => by rw [lt_nextSequenceNo_iff, lt_nextSequenceNo_iff, hrows]
    | waiting | begun | done => exact Or.inl ⟨rfl, rfl, fun event hother => by cases hother⟩

theorem sequenced_congr {store other : Store} {caseId : String} (h : caseRows store caseId = caseRows other caseId) :
    Sequenced store caseId ↔ Sequenced other caseId := by
  constructor
  · rintro ⟨hdistinct, hcounted, hordered⟩
    rw [h] at hdistinct hcounted hordered
    exact ⟨hdistinct, hcounted, hordered⟩
  · rintro ⟨hdistinct, hcounted, hordered⟩
    rw [← h] at hdistinct hcounted hordered
    exact ⟨hdistinct, hcounted, hordered⟩

/-- A step keeps the numbers in sequence exactly when an append of the case that it commits is in turn. -/
theorem sequenced_step_iff (caseId : String) (pool : Appends) (event : ℕ × Tick) (h : pool.Holds Kept Reads)
    (hsequenced : Sequenced pool.shared.store caseId) :
    Sequenced (appendStep pool event).shared.store caseId ↔ ActsOnly (CommitsInTurn caseId) pool event := by
  rcases Pool.step_cases advance pool event with ⟨hnone, hsame⟩ | ⟨thread, hthread, hmem, hshared, -⟩
  · rw [appendStep, hsame]
    refine iff_of_true hsequenced fun thread hthread => ?_
    rw [hnone] at hthread
    cases hthread
  · have hacts : ActsOnly (CommitsInTurn caseId) pool event ↔ CommitsInTurn caseId event.2 pool.shared thread := by
      constructor
      · exact fun hall => hall thread hthread
      · intro honly other hother
        rw [hthread] at hother
        exact Option.some.inj hother ▸ honly
    rw [appendStep, hshared, hacts]
    rcases advance_caseRows event.2 pool.shared thread caseId with ⟨hrows, -, hother⟩ | ⟨row, rfl, hfails, hcase, hcommit⟩
    · rw [sequenced_congr hrows]
      refine iff_of_true hsequenced fun row hrow hfails hcase => ?_
      exact absurd hcase (hother row hrow hfails)
    · have hnumber := (h.threads _ hmem).2
      rw [hcase] at hnumber
      rw [hcommit, sequenced_commit_iff hsequenced (h.shared.gaps caseId) hnumber hcase, CommitsInTurn]
      constructor
      · intro hturn other hsame _ _
        obtain rfl := Appending.numbered.inj hsame
        exact hturn
      · exact fun hall => hall row rfl hfails hcase

/-- What is in turn for an append of the case that is under way. -/
def InTurn (caseId : String) (store : Store) : Appending → Prop
  | .waiting _ | .done => True
  | .begun event => ∀ e ∈ caseRows store caseId, e.createdAt ≤ event.createdAt
  | .numbered event => event.sequenceNo = nextSequenceNo store caseId ∧
    ∀ e ∈ caseRows store caseId, e.createdAt ≤ event.createdAt

/-- At most one append of the case is under way, and it is in turn. -/
structure OneAtATime (caseId : String) (pool : Appends) : Prop where
  unique : ∀ (i j : ℕ) (first second : Appending), pool.threads[i]? = some first → pool.threads[j]? = some second → UnderWay caseId first →
    UnderWay caseId second → i = j
  turn : ∀ thread ∈ pool.threads, UnderWay caseId thread → InTurn caseId pool.shared.store thread

theorem oneAtATime_starting (caseId : String) (events : List CaseEvent) : OneAtATime caseId (starting events) := by
  have hwaiting : ∀ thread ∈ (starting events).threads, ¬ UnderWay caseId thread := by
    intro thread hthread
    obtain ⟨event, -, rfl⟩ := List.mem_map.mp hthread
    exact not_false
  refine ⟨fun i j first second hfirst _ hunder => ?_, fun thread hthread hunder => absurd hunder (hwaiting thread hthread)⟩
  exact absurd hunder (hwaiting first (List.mem_of_getElem? hfirst))

/-- A statement of an append that begins alone, or has begun, leaves it in turn. -/
theorem inTurn_advance {caseId : String} {tick : Tick} {db : Database} {thread : Appending} (h : Kept db)
    (hturn : UnderWay caseId thread → InTurn caseId db.store thread)
    (hunder : UnderWay caseId (advance tick db thread).2) :
    InTurn caseId (advance tick db thread).1.store (advance tick db thread).2 := by
  simp only [advance] at hunder ⊢
  split at hunder
  · exact hunder.elim
  · rename_i hfails
    rw [if_neg hfails]
    cases thread with
    | waiting event =>
      exact fun e he => le_trans (h.past e (mem_caseRows.mp he).1) (Nat.le_add_right _ _)
    | begun event =>
      have hcase : event.caseId = caseId := hunder
      exact ⟨congrArg (nextSequenceNo db.store) hcase, hturn hcase⟩
    | numbered event => exact hunder.elim
    | done => exact hunder.elim

theorem underWay_advance {caseId : String} {tick : Tick} {db : Database} {thread : Appending}
    (hunder : UnderWay caseId (advance tick db thread).2) :
    UnderWay caseId thread ∨ ∃ row, thread = .waiting row ∧ row.caseId = caseId := by
  simp only [advance] at hunder
  split at hunder
  · exact hunder.elim
  · cases thread with
    | waiting event => exact Or.inr ⟨event, rfl, hunder⟩
    | begun event => exact Or.inl hunder
    | numbered event => exact hunder.elim
    | done => exact hunder.elim

theorem inTurn_congr {caseId : String} {store other : Store} (hrows : caseRows store caseId = caseRows other caseId)
    (hnext : nextSequenceNo store caseId = nextSequenceNo other caseId) (thread : Appending) :
    InTurn caseId store thread ↔ InTurn caseId other thread := by
  cases thread with
  | waiting | done => exact Iff.rfl
  | begun event => rw [InTurn, InTurn, hrows]
  | numbered event => rw [InTurn, InTurn, hrows, hnext]

theorem OneAtATime.step {caseId : String} {pool : Appends} {event : ℕ × Tick} (h : OneAtATime caseId pool)
    (hkept : pool.Holds Kept Reads) (halone : BeginsAlone caseId pool event) :
    OneAtATime caseId (appendStep pool event) := by
  rcases Pool.step_cases advance pool event with ⟨-, hsame⟩ | ⟨thread, hthread, hmem, hshared, hthreads⟩
  · rw [appendStep, hsame]
    exact h
  · have hplace : event.1 < pool.threads.length := (List.getElem?_eq_some_iff.mp hthread).1
    have hafter : ∀ j : ℕ, (appendStep pool event).threads[j]? =
        if event.1 = j then some (advance event.2 pool.shared thread).2 else pool.threads[j]? := by
      intro j
      rw [appendStep, hthreads, List.getElem?_set]
      by_cases hj : event.1 = j
      · rw [if_pos hj, if_pos hj, if_pos (hj ▸ hplace)]
      · rw [if_neg hj, if_neg hj]
    -- When the acting append is under way after its statement, no other one is.
    have honly : UnderWay caseId (advance event.2 pool.shared thread).2 → ∀ (j : ℕ) (other : Appending), event.1 ≠ j →
        pool.threads[j]? = some other → ¬ UnderWay caseId other := by
      intro hunder j other hj hother hunderOther
      rcases underWay_advance hunder with hbefore | ⟨row, hrow, hcase⟩
      · exact hj (h.unique event.1 j thread other hthread hother hbefore hunderOther)
      · exact halone row (hrow ▸ hthread) hcase other (List.mem_of_getElem? hother) hunderOther
    constructor
    · intro i j first second hfirst hsecond hunderFirst hunderSecond
      rw [hafter] at hfirst hsecond
      by_cases hi : event.1 = i
      · by_cases hj : event.1 = j
        · exact hi.symm.trans hj
        · rw [if_pos hi] at hfirst
          rw [if_neg hj] at hsecond
          rw [← Option.some.inj hfirst] at hunderFirst
          exact absurd hunderSecond (honly hunderFirst j second hj hsecond)
      · rw [if_neg hi] at hfirst
        by_cases hj : event.1 = j
        · rw [if_pos hj] at hsecond
          rw [← Option.some.inj hsecond] at hunderSecond
          exact absurd hunderFirst (honly hunderSecond i first hi hfirst)
        · rw [if_neg hj] at hsecond
          exact h.unique i j first second hfirst hsecond hunderFirst hunderSecond
    · intro other hother hunder
      obtain ⟨j, hj⟩ := List.mem_iff_getElem?.mp hother
      rw [hafter] at hj
      have hturn : InTurn caseId (advance event.2 pool.shared thread).1.store other := by
        split at hj
        · rw [← Option.some.inj hj] at hunder ⊢
          exact inTurn_advance hkept.shared (h.turn thread hmem) hunder
        · rename_i hapart
          rcases advance_caseRows event.2 pool.shared thread caseId with ⟨hrows, hnext, -⟩ | ⟨row, rfl, -, hcase, -⟩
          · exact (inTurn_congr hrows hnext other).mpr (h.turn other (List.mem_of_getElem? hj) hunder)
          · exact absurd (h.unique event.1 j _ other hthread hj hcase hunder) hapart
      rw [appendStep, hshared]
      exact hturn

/-- An append that begins alone commits in turn. -/
theorem OneAtATime.commits {caseId : String} {pool : Appends} (h : OneAtATime caseId pool) (event : ℕ × Tick) :
    ActsOnly (CommitsInTurn caseId) pool event := by
  rintro thread hthread row rfl - hcase
  exact h.turn _ (List.mem_of_getElem? hthread) hcase

section Sample

instance (caseId : String) (thread : Appending) : Decidable (UnderWay caseId thread) :=
  match thread with
  | .begun event | .numbered event => inferInstanceAs (Decidable (event.caseId = caseId))
  | .waiting _ | .done => inferInstanceAs (Decidable False)

instance (caseId : String) (pool : Appends) (event : ℕ × Tick) : Decidable (BeginsAlone caseId pool event) :=
  match hthread : pool.threads[event.1]? with
  | some (.waiting row) => decidable_of_iff (row.caseId = caseId → ∀ thread ∈ pool.threads, ¬ UnderWay caseId thread) (by
      simp only [BeginsAlone, hthread, Option.some.injEq, Appending.waiting.injEq]
      exact ⟨fun h other hsame => hsame ▸ h, fun h => h row rfl⟩)
  | some (.begun row) => isTrue (by simp [BeginsAlone, hthread])
  | some (.numbered row) => isTrue (by simp [BeginsAlone, hthread])
  | some .done => isTrue (by simp [BeginsAlone, hthread])
  | none => isTrue (by simp [BeginsAlone, hthread])

/-- Two errors of one case. -/
def twoErrors : List CaseEvent :=
  [eventOf {} (caseRecord 0 "event-01" .error "case-01") "case-01" .errorObserved,
    eventOf {} (caseRecord 0 "event-02" .error "case-01") "case-01" .errorObserved]

/-- One append after the other. -/
def inTurn : List (ℕ × Tick) := [(0, {}), (0, {}), (0, {}), (1, {}), (1, {}), (1, {})]

/-- Both appends read the number before either of them commits. -/
def overlapping : List (ℕ × Tick) := [(0, {}), (1, {}), (0, {}), (1, {}), (0, {}), (1, {})]

/-- The append that begins first commits last. -/
def overtaken : List (ℕ × Tick) := [(0, {}), (1, { elapsed := 1 }), (1, {}), (1, {}), (0, {}), (0, {})]

end Sample

end FragmentMemory.CaseEventSequence
