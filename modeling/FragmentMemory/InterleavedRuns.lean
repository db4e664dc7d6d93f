import FragmentMemory.TransitionRuns

/-! # Interleaved runs of threads over a shared state

A thread is what is left of a program.  A schedule names the thread that takes the next step and the
input of that step, so every interleaving of the programs is a schedule.  An invariant of the shared
state is kept together with an assertion of each thread that the steps of the others do not break.
-/
namespace FragmentMemory.InterleavedRuns
open TransitionRuns

/-- A shared state and the threads that run over it. -/
structure Pool (σ π : Type*) where
  shared : σ
  threads : List π

variable {σ π τ : Type*} (advance : τ → σ → π → σ × π)

/-- The next step of the thread with an index; an index without a thread changes nothing. -/
def Pool.step (pool : Pool σ π) (event : ℕ × τ) : Pool σ π :=
  match pool.threads[event.1]? with
  | none => pool
  | some thread =>
    let next := advance event.2 pool.shared thread
    { shared := next.1, threads := pool.threads.set event.1 next.2 }

/-- The thread that takes the next step meets a condition on its input and the shared state. -/
def Acts (condition : τ → σ → π → Prop) (pool : Pool σ π) (event : ℕ × τ) : Prop :=
  ∃ thread, pool.threads[event.1]? = some thread ∧ condition event.2 pool.shared thread

/-- The thread that takes the next step, if any, meets a condition on its input and the shared state. -/
def ActsOnly (condition : τ → σ → π → Prop) (pool : Pool σ π) (event : ℕ × τ) : Prop :=
  ∀ thread, pool.threads[event.1]? = some thread → condition event.2 pool.shared thread

instance (condition : τ → σ → π → Prop) [∀ input shared thread, Decidable (condition input shared thread)]
    (pool : Pool σ π) (event : ℕ × τ) : Decidable (ActsOnly condition pool event) :=
  match h : pool.threads[event.1]? with
  | none => isTrue (by simp [ActsOnly, h])
  | some thread => decidable_of_iff (condition event.2 pool.shared thread) (by simp [ActsOnly, h])

/-- An invariant of the shared state with an assertion of every thread. -/
structure Pool.Holds (invariant : σ → Prop) (assertion : σ → π → Prop) (pool : Pool σ π) : Prop where
  shared : invariant pool.shared
  threads : ∀ thread ∈ pool.threads, assertion pool.shared thread

theorem Pool.step_cases (pool : Pool σ π) (event : ℕ × τ) :
    (pool.threads[event.1]? = none ∧ pool.step advance event = pool) ∨
    ∃ thread, pool.threads[event.1]? = some thread ∧ thread ∈ pool.threads ∧
      (pool.step advance event).shared = (advance event.2 pool.shared thread).1 ∧
      (pool.step advance event).threads = pool.threads.set event.1 (advance event.2 pool.shared thread).2 := by
  rcases hthread : pool.threads[event.1]? with _ | thread
  · left
    simp only [Pool.step, hthread, and_self]
  · right
    simp only [Pool.step, hthread]
    exact ⟨thread, rfl, List.mem_of_getElem? hthread, rfl, rfl⟩

/-- A thread stays among the threads, unless it is the one that is replaced. -/
theorem mem_set_of_mem {threads : List π} {i : ℕ} {thread other : π} (h : threads[i]? = some thread)
    (hother : other ∈ threads)
    (next : π) : other = thread ∨ other ∈ threads.set i next := by
  obtain ⟨j, hj⟩ := List.mem_iff_getElem?.mp hother
  by_cases hsame : i = j
  · left
    rw [← hsame, h] at hj
    exact (Option.some.inj hj).symm
  · right
    refine List.mem_of_getElem? (i := j) ?_
    rw [List.getElem?_set_ne hsame, hj]

/-- What the threads have, after one of them has more. -/
theorem perm_flatMap_set {β : Type*} {threads : List π} {i : ℕ} {thread next : π} {property : π → List β}
    {more : List β}
    (h : threads[i]? = some thread) (hnext : property next = property thread ++ more) :
    ((threads.set i next).flatMap property).Perm (threads.flatMap property ++ more) := by
  induction threads generalizing i with
  | nil => cases h
  | cons first others ih =>
    cases i with
    | zero =>
      obtain rfl : first = thread := Option.some.inj h
      rw [List.set_cons_zero, List.flatMap_cons, hnext, List.flatMap_cons, List.append_assoc, List.append_assoc]
      exact List.perm_append_comm.append_left _
    | succ j =>
      rw [List.set_cons_succ, List.flatMap_cons, List.flatMap_cons, List.append_assoc]
      exact (ih h).append_left _

variable {advance}

/-- A step keeps the invariant and all assertions, when the acting thread keeps the invariant and its own
assertion and breaks none of another thread. -/
theorem Pool.holds_step {invariant : σ → Prop} {assertion : σ → π → Prop} {condition : τ → σ → π → Prop}
    (hown : ∀ input shared thread, invariant shared → assertion shared thread → condition input shared thread →
      invariant (advance input shared thread).1 ∧
        assertion (advance input shared thread).1 (advance input shared thread).2)
    (hother : ∀ input shared thread other, invariant shared → assertion shared thread → condition input shared thread →
      assertion shared other → assertion (advance input shared thread).1 other)
    (pool : Pool σ π) (event : ℕ × τ) (h : pool.Holds invariant assertion)
    (hcondition : ActsOnly condition pool event) : (pool.step advance event).Holds invariant assertion := by
  rcases Pool.step_cases advance pool event with ⟨-, hnone⟩ | ⟨thread, hthread, hmem, hshared, hthreads⟩
  · rw [hnone]
    exact h
  · have hown' := hown event.2 pool.shared thread h.shared (h.threads thread hmem) (hcondition thread hthread)
    refine ⟨hshared ▸ hown'.1, fun other hotherMem => ?_⟩
    rw [hshared]
    rw [hthreads] at hotherMem
    rcases List.mem_or_eq_of_mem_set hotherMem with hold | hnew
    · exact hother event.2 pool.shared thread other h.shared (h.threads thread hmem) (hcondition thread hthread)
        (h.threads other hold)
    · exact hnew ▸ hown'.2

/-- A shared property that every step of a thread keeps, a step of the pool keeps. -/
theorem Pool.shared_step {I : σ → Prop} (hstep : ∀ input shared thread, I shared →
      I (advance input shared thread).1)
    (pool : Pool σ π) (event : ℕ × τ) (h : I pool.shared) : I (pool.step advance event).shared := by
  rcases Pool.step_cases advance pool event with ⟨-, hnone⟩ | ⟨thread, -, -, hshared, -⟩
  · rw [hnone]
    exact h
  · rw [hshared]
    exact hstep event.2 pool.shared thread h

/-- A thread after a step is the one that acted, advanced, or another one as it was. -/
theorem Pool.getElem?_step {pool : Pool σ π} {event : ℕ × τ} {j : ℕ} {next : π}
    (h : (pool.step advance event).threads[j]? = some next) :
    (j = event.1 ∧ ∃ thread, pool.threads[event.1]? = some thread ∧ next = (advance event.2 pool.shared thread).2) ∨
      (j ≠ event.1 ∧ pool.threads[j]? = some next) := by
  rcases Pool.step_cases advance pool event with ⟨hnone, hsame⟩ | ⟨thread, hthread, -, -, hthreads⟩
  · rw [hsame] at h
    refine Or.inr ⟨?_, h⟩
    rintro rfl
    rw [hnone] at h
    cases h
  · rw [hthreads] at h
    by_cases hj : event.1 = j
    · subst hj
      rw [List.getElem?_set_self (List.getElem?_eq_some_iff.mp hthread).1] at h
      exact Or.inl ⟨rfl, thread, hthread, (Option.some.inj h).symm⟩
    · rw [List.getElem?_set_ne hj] at h
      exact Or.inr ⟨Ne.symm hj, h⟩

/-- What every advance of a thread keeps, the thread with an index has after a schedule. -/
theorem Pool.thread_run {P : π → Prop} (hkeep : ∀ input shared thread, P thread → P (advance input shared thread).2)
    {pool : Pool σ π} {j : ℕ} {thread : π} (h : pool.threads[j]? = some thread) (hP : P thread) (schedule : List (ℕ × τ)) :
    ∃ last, (run (Pool.step advance) pool schedule).threads[j]? = some last ∧ P last := by
  induction schedule generalizing pool thread with
  | nil => exact ⟨thread, h, hP⟩
  | cons event later ih =>
    rw [run_cons]
    rcases Pool.step_cases advance pool event with ⟨-, hsame⟩ | ⟨acting, hacting, -, -, hthreads⟩
    · rw [hsame]
      exact ih h hP
    · by_cases hj : event.1 = j
      · subst hj
        obtain rfl : acting = thread := Option.some.inj (hacting.symm.trans h)
        have hnext : (pool.step advance event).threads[event.1]? = some (advance event.2 pool.shared acting).2 := by
          rw [hthreads, List.getElem?_set_self (List.getElem?_eq_some_iff.mp h).1]
        exact ih hnext (hkeep _ _ _ hP)
      · have hnext : (pool.step advance event).threads[j]? = some thread := by
          rw [hthreads, List.getElem?_set_ne hj, h]
        exact ih hnext hP

/-- No two threads have the property. -/
def Pool.AtMostOne (property : π → Prop) (pool : Pool σ π) : Prop :=
  ∀ (i j : ℕ) (first second : π), pool.threads[i]? = some first → pool.threads[j]? = some second → property first →
    property second → i = j

/-- A step keeps the property with one thread, when a thread takes it on only if no other one has it. -/
theorem Pool.AtMostOne.step {property : π → Prop} {pool : Pool σ π} {event : ℕ × τ} (h : pool.AtMostOne property)
    (htake : ∀ thread, pool.threads[event.1]? = some thread → property (advance event.2 pool.shared thread).2 →
      property thread ∨ ∀ (j : ℕ) (other : π), pool.threads[j]? = some other → j ≠ event.1 → ¬ property other) :
    (pool.step advance event).AtMostOne property := by
  have hacting : ∀ {j other next}, (∃ thread, pool.threads[event.1]? = some thread ∧
      next = (advance event.2 pool.shared thread).2) → property next → j ≠ event.1 → pool.threads[j]? = some other →
        ¬ property other := by
    rintro j other next ⟨thread, hthread, rfl⟩ hnext hj hother hproperty
    rcases htake thread hthread hnext with hheld | hfree
    · exact hj (h j event.1 other thread hother hthread hproperty hheld)
    · exact hfree j other hother hj hproperty
  intro i j first second hi hj hfirst hsecond
  rcases Pool.getElem?_step hi with ⟨rfl, hactsFirst⟩ | ⟨hiOther, hiOld⟩
  · rcases Pool.getElem?_step hj with ⟨rfl, -⟩ | ⟨hjOther, hjOld⟩
    · rfl
    · exact absurd hsecond (hacting hactsFirst hfirst hjOther hjOld)
  · rcases Pool.getElem?_step hj with ⟨rfl, hactsSecond⟩ | ⟨hjOther, hjOld⟩
    · exact absurd hfirst (hacting hactsSecond hsecond hiOther hiOld)
    · exact h i j first second hiOld hjOld hfirst hsecond

/-- The invariant and the assertions after a whole schedule. -/
theorem Pool.holds_run {invariant : σ → Prop} {assertion : σ → π → Prop} {condition : τ → σ → π → Prop}
    (hown : ∀ input shared thread, invariant shared → assertion shared thread → condition input shared thread →
      invariant (advance input shared thread).1 ∧
        assertion (advance input shared thread).1 (advance input shared thread).2)
    (hother : ∀ input shared thread other, invariant shared → assertion shared thread → condition input shared thread →
      assertion shared other → assertion (advance input shared thread).1 other)
    {start : Pool σ π} (hstart : start.Holds invariant assertion) {schedule : List (ℕ × τ)}
    (hmeet : StepsMeet (Pool.step advance) (ActsOnly condition) start schedule) :
    (run (Pool.step advance) start schedule).Holds invariant assertion :=
  invariant_run_of_meets (I := Pool.Holds invariant assertion)
    (fun pool event h hcondition => Pool.holds_step hown hother pool event h hcondition) hstart hmeet

end FragmentMemory.InterleavedRuns
