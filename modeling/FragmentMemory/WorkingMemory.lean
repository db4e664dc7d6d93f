import FragmentMemory.BudgetTrim
import FragmentMemory.FragmentTables
import FragmentMemory.InterleavedRuns
import FragmentMemory.JsString
import Mathlib.Tactic.NormNum

/-! # Working memory of a session

`FragmentIndex.addToWorkingMemory` in its Redis commands on the list of one session.  A call that finds the list over
its token limit deletes it and pushes the survivors, so what another call pushes between its `LRANGE` and its `DEL`
is gone.
-/
namespace FragmentMemory.WorkingMemory
open BudgetTrim FragmentTables InterleavedRuns TransitionRuns

/-- An entry of the list. -/
structure WorkingItem where
  id : FragmentId
  content : String
  type : FragmentType
  topic : String
  importance : ℚ
  estimatedTokens : ℕ
  addedAt : Time
  deriving DecidableEq

/-- `WM_MAX_TOKENS`. -/
def wmMaxTokens : ℕ := 500

/-- The entry of a fragment. -/
def workingItem (now : Time) (f : Fragment) : WorkingItem where
  id := f.id
  content := f.content
  type := f.type
  topic := f.topic
  importance := if f.importance = 0 then 5 / 10 else f.importance
  estimatedTokens := if f.estimatedTokens = 0 then (JsString.utf16Length f.content + 3) / 4 else f.estimatedTokens
  addedAt := now

/-- Items that the trim leaves. -/
def shielded (item : WorkingItem) : Bool := 8 / 10 < item.importance

/-- What `_enforceWmBudget` keeps of a list, and what it removes. -/
def enforceWmBudget (items : List WorkingItem) : List WorkingItem × List WorkingItem :=
  let totalToks := total WorkingItem.estimatedTokens items
  if totalToks ≤ wmMaxTokens then (items, [])
  else trim wmMaxTokens WorkingItem.estimatedTokens shielded totalToks items

/-- `addToWorkingMemory`, with no other call at the same time. -/
def addToWorkingMemory (items : List WorkingItem) (item : WorkingItem) : List WorkingItem :=
  (enforceWmBudget (items ++ [item])).1

/-- The token-limit rule, on the list with its new item. -/
abbrev Budgeted (items survivors evicted : List WorkingItem) : Prop :=
  Trimmed wmMaxTokens WorkingItem.estimatedTokens shielded items survivors evicted

theorem budgeted_enforceWmBudget (items : List WorkingItem) :
    Budgeted items (enforceWmBudget items).1 (enforceWmBudget items).2 := by
  simp only [enforceWmBudget]
  split
  · rename_i hfits
    exact trimmed_of_le hfits
  · exact trimmed_trim items

/-! ## Calls side by side -/

/-- The next command of a call: `RPUSH`, `EXPIRE`, `LRANGE`, and for a trim `DEL`, one `RPUSH` for each survivor and
`EXPIRE`. -/
inductive Stage
  | pushing
  | expiring
  | reading
  | deleting (remaining : List WorkingItem)
  | repushing (remaining : List WorkingItem)
  | finished
  deriving DecidableEq

/-- A call with its item, and what its trim has removed. -/
structure Thread where
  item : WorkingItem
  stage : Stage := .pushing
  evicted : List WorkingItem := []
  deriving DecidableEq

def advance (_ : Unit) (items : List WorkingItem) (thread : Thread) : List WorkingItem × Thread :=
  match thread.stage with
  | .pushing => (items ++ [thread.item], { thread with stage := .expiring })
  | .expiring => (items, { thread with stage := .reading })
  | .reading =>
    let trimmed := enforceWmBudget items
    (items, { thread with
      stage := if trimmed.2 = [] then .finished else .deleting trimmed.1
      evicted := thread.evicted ++ trimmed.2 })
  | .deleting remaining => ([], { thread with stage := .repushing remaining })
  | .repushing (item :: rest) => (items ++ [item], { thread with stage := .repushing rest })
  | .repushing [] => (items, { thread with stage := .finished })
  | .finished => (items, thread)

/-- Calls that have not begun, over a list. -/
def start (items added : List WorkingItem) : Pool (List WorkingItem) Thread where
  shared := items
  threads := added.map fun item => { item := item }

/-- The next command pushes an item. -/
def Pushes (thread : Thread) : Prop :=
  match thread.stage with
  | .pushing | .repushing (_ :: _) => True
  | _ => False

/-- The call has read the list and is about to delete it. -/
def Deletes (thread : Thread) : Prop :=
  match thread.stage with
  | .deleting _ => True
  | _ => False

instance (thread : Thread) : Decidable (Pushes thread) := by
  unfold Pushes
  split <;> infer_instance

instance (thread : Thread) : Decidable (Deletes thread) := by
  unfold Deletes
  split <;> infer_instance

/-- No item is pushed while a call that has read the list is about to delete it. -/
def Undisturbed (pool : Pool (List WorkingItem) Thread) (event : ℕ × Unit) : Prop :=
  ∀ thread ∈ pool.threads[event.1]?, Pushes thread → ∀ other ∈ pool.threads, ¬ Deletes other

instance (pool : Pool (List WorkingItem) Thread) (event : ℕ × Unit) : Decidable (Undisturbed pool event) :=
  inferInstanceAs (Decidable (∀ thread ∈ pool.threads[event.1]?, Pushes thread → ∀ other ∈ pool.threads, ¬ Deletes other))

/-- What the call still has to push again. -/
def waiting (thread : Thread) : List WorkingItem :=
  match thread.stage with
  | .deleting remaining | .repushing remaining => remaining
  | _ => []

/-- The call has pushed its item. -/
def Pushed (thread : Thread) : Prop := thread.stage ≠ .pushing

/-- An item is in the list, is pushed again later, or was removed by a trim. -/
def Accounted (pool : Pool (List WorkingItem) Thread) (item : WorkingItem) : Prop :=
  item ∈ pool.shared ∨ ∃ thread ∈ pool.threads, item ∈ waiting thread ∨ item ∈ thread.evicted

/-- Every item is accounted for, and a call that is about to delete the list has seen all of it. -/
structure Kept (items : List WorkingItem) (pool : Pool (List WorkingItem) Thread) : Prop where
  before : ∀ item ∈ items, Accounted pool item
  added : ∀ thread ∈ pool.threads, Pushed thread → Accounted pool thread.item
  seen : ∀ thread ∈ pool.threads, Deletes thread → ∀ item ∈ pool.shared, item ∈ waiting thread ∨ item ∈ thread.evicted

/-- Once all calls are through, every item of the list before them and every item added is in the list or was evicted. -/
def NothingLost (items : List WorkingItem) (pool : Pool (List WorkingItem) Thread) : Prop :=
  (∀ thread ∈ pool.threads, thread.stage = .finished) →
    ∀ item, item ∈ items ∨ (∃ thread ∈ pool.threads, thread.item = item) →
      item ∈ pool.shared ∨ ∃ thread ∈ pool.threads, item ∈ thread.evicted

theorem advance_item (items : List WorkingItem) (thread : Thread) : (advance () items thread).2.item = thread.item := by
  unfold advance
  split <;> rfl

/-- Only a push adds to the list. -/
theorem mem_of_mem_advance {items : List WorkingItem} {thread : Thread} (hquiet : ¬ Pushes thread) {item : WorkingItem}
    (h : item ∈ (advance () items thread).1) : item ∈ items := by
  unfold advance at h
  unfold Pushes at hquiet
  split at h
  all_goals rename_i hstage; simp only [hstage, not_true_eq_false] at hquiet
  all_goals first | exact h | exact absurd h List.not_mem_nil

/-- A command loses no item of the list and none that its call holds, if the call has seen the list it deletes. -/
theorem accounted_advance {items : List WorkingItem} {thread : Thread} {item : WorkingItem}
    (hseen : Deletes thread → item ∈ items → item ∈ waiting thread ∨ item ∈ thread.evicted)
    (h : item ∈ items ∨ item ∈ waiting thread ∨ item ∈ thread.evicted) :
    item ∈ (advance () items thread).1 ∨ item ∈ waiting (advance () items thread).2 ∨
      item ∈ (advance () items thread).2.evicted := by
  obtain ⟨own, stage, evicted⟩ := thread
  cases stage with
  | pushing | expiring | finished =>
    simp only [advance, waiting, List.mem_append, List.not_mem_nil, false_or] at h ⊢
    tauto
  | reading =>
    simp only [advance, waiting, List.mem_append, List.not_mem_nil, false_or] at h ⊢
    tauto
  | deleting remaining =>
    simp only [advance, waiting, List.not_mem_nil, false_or]
    rcases h with hlisted | hheld
    · exact hseen trivial hlisted
    · exact hheld
  | repushing remaining =>
    cases remaining with
    | nil => exact h
    | cons first rest =>
      simp only [advance, waiting, List.mem_append, List.mem_cons, List.not_mem_nil, or_false] at h ⊢
      tauto

/-- A call that is about to delete the list has just read it, or was about to do so before. -/
theorem seen_advance {items : List WorkingItem} {thread : Thread} (h : Deletes (advance () items thread).2)
    {item : WorkingItem} (hitem : item ∈ (advance () items thread).1) :
    item ∈ waiting (advance () items thread).2 ∨ item ∈ (advance () items thread).2.evicted := by
  obtain ⟨own, stage, evicted⟩ := thread
  cases stage with
  | reading =>
    simp only [advance] at h hitem ⊢
    by_cases hnone : (enforceWmBudget items).2 = []
    · simp only [Deletes, if_pos hnone] at h
    · simp only [waiting, if_neg hnone, List.mem_append]
      rcases (budgeted_enforceWmBudget items).mem hitem with hkept | hevicted
      · exact Or.inl hkept
      · exact Or.inr (Or.inr hevicted)
  | repushing remaining => cases remaining <;> exact h.elim
  | pushing | expiring | deleting _ | finished => exact h.elim

/-- A call that has pushed its item had done so before, or puts the item into the list now. -/
theorem pushed_advance {items : List WorkingItem} {thread : Thread} :
    Pushed thread ∨ thread.item ∈ (advance () items thread).1 := by
  by_cases hstage : thread.stage = .pushing
  · right
    simp only [advance, hstage, List.mem_append, List.mem_singleton, or_true]
  · exact Or.inl hstage

theorem accounted_step {pool : Pool (List WorkingItem) Thread} {event : ℕ × Unit} {items : List WorkingItem}
    (hkept : Kept items pool) {item : WorkingItem} (h : Accounted pool item) :
    Accounted (pool.step advance event) item := by
  rcases Pool.step_cases advance pool event with ⟨-, hsame⟩ | ⟨thread, hthread, hmem, hshared, hthreads⟩
  · rw [hsame]
    exact h
  have hnext : (advance event.2 pool.shared thread).2 ∈ (pool.step advance event).threads := by
    rw [hthreads]
    exact List.mem_set (List.getElem?_eq_some_iff.mp hthread).1 _
  have hacting : item ∈ pool.shared ∨ item ∈ waiting thread ∨ item ∈ thread.evicted →
      Accounted (pool.step advance event) item := by
    intro hheld
    rcases accounted_advance (fun hdeletes hlisted => hkept.seen thread hmem hdeletes item hlisted) hheld with hlisted | hlater
    · exact Or.inl (hshared ▸ hlisted)
    · exact Or.inr ⟨_, hnext, hlater⟩
  rcases h with hlisted | ⟨other, hother, hheld⟩
  · exact hacting (Or.inl hlisted)
  · rcases mem_set_of_mem hthread hother (advance event.2 pool.shared thread).2 with rfl | hstays
    · exact hacting (Or.inr hheld)
    · exact Or.inr ⟨other, hthreads ▸ hstays, hheld⟩

theorem kept_step {items : List WorkingItem} (pool : Pool (List WorkingItem) Thread) (event : ℕ × Unit)
    (hkept : Kept items pool) (hundisturbed : Undisturbed pool event) : Kept items (pool.step advance event) := by
  have hstep := fun {item} => @accounted_step pool event items hkept item
  rcases Pool.step_cases advance pool event with ⟨-, hsame⟩ | ⟨thread, hthread, hmem, hshared, hthreads⟩
  · rw [hsame]
    exact hkept
  refine ⟨fun item hitem => hstep (hkept.before item hitem), fun next hnext hpushed => ?_, fun next hnext hdeletes item hitem => ?_⟩
  · rw [hthreads] at hnext
    rcases List.mem_or_eq_of_mem_set hnext with hold | rfl
    · exact hstep (hkept.added next hold hpushed)
    · rw [advance_item]
      rcases pushed_advance with hbefore | hlisted
      · exact hstep (hkept.added thread hmem hbefore)
      · exact Or.inl (hshared ▸ hlisted)
  · rw [hshared] at hitem
    rw [hthreads] at hnext
    rcases List.mem_or_eq_of_mem_set hnext with hold | rfl
    · have hquiet : ¬ Pushes thread := fun hpushes => hundisturbed thread hthread hpushes next hold hdeletes
      exact hkept.seen next hold hdeletes item (mem_of_mem_advance hquiet hitem)
    · exact seen_advance hdeletes hitem

theorem kept_start (items added : List WorkingItem) : Kept items (start items added) := by
  have hpushing : ∀ thread ∈ (start items added).threads, thread.stage = .pushing := by
    intro thread hthread
    obtain ⟨item, -, rfl⟩ := List.mem_map.mp hthread
    rfl
  refine ⟨fun item hitem => Or.inl hitem, fun thread hthread hpushed => absurd (hpushing thread hthread) hpushed,
    fun thread hthread hdeletes => ?_⟩
  simp only [Deletes, hpushing thread hthread] at hdeletes

theorem nothingLost_of_kept {items : List WorkingItem} {pool : Pool (List WorkingItem) Thread} (h : Kept items pool) :
    NothingLost items pool := by
  intro hfinished item hitem
  have haccounted : Accounted pool item := by
    rcases hitem with hbefore | ⟨thread, hthread, rfl⟩
    · exact h.before item hbefore
    · refine h.added thread hthread fun hpushing => ?_
      rw [hfinished thread hthread] at hpushing
      cases hpushing
  rcases haccounted with hlisted | ⟨thread, hthread, hwaiting | hevicted⟩
  · exact Or.inl hlisted
  · simp only [waiting, hfinished thread hthread, List.not_mem_nil] at hwaiting
  · exact Or.inr ⟨thread, hthread, hevicted⟩

/-- The pushes of a trim, one after the other. -/
theorem run_repushing (item : WorkingItem) (evicted remaining items : List WorkingItem) :
    run (Pool.step advance) ⟨items, [⟨item, .repushing remaining, evicted⟩]⟩ (List.replicate (remaining.length + 1) (0, ())) =
      ⟨items ++ remaining, [⟨item, .finished, evicted⟩]⟩ := by
  induction remaining generalizing items with
  | nil =>
    rw [List.append_nil]
    rfl
  | cons first rest ih =>
    rw [List.length_cons, List.replicate_succ, run_cons]
    have hnext := ih (items ++ [first])
    rw [List.append_assoc, List.singleton_append] at hnext
    exact hnext

/-- The commands of a call with no other one at the same time. -/
theorem add_alone (items : List WorkingItem) (item : WorkingItem) :
    ∃ count, run (Pool.step advance) (start items [item]) (List.replicate count (0, ())) =
      ⟨addToWorkingMemory items item, [⟨item, .finished, (enforceWmBudget (items ++ [item])).2⟩]⟩ := by
  have hread : run (Pool.step advance) (start items [item]) (List.replicate 3 (0, ())) =
      ⟨items ++ [item], [⟨item, if (enforceWmBudget (items ++ [item])).2 = [] then .finished else
        .deleting (enforceWmBudget (items ++ [item])).1, (enforceWmBudget (items ++ [item])).2⟩]⟩ := rfl
  by_cases hnone : (enforceWmBudget (items ++ [item])).2 = []
  · refine ⟨3, ?_⟩
    have hall := (budgeted_enforceWmBudget (items ++ [item])).order.eq_of_length_le
    have hperm := (budgeted_enforceWmBudget (items ++ [item])).all.length_eq
    rw [hnone, List.append_nil] at hperm
    rw [hread, if_pos hnone, addToWorkingMemory, hall hperm.ge]
  · refine ⟨3 + (1 + ((enforceWmBudget (items ++ [item])).1.length + 1)), ?_⟩
    rw [List.replicate_add, run_append, hread, if_neg hnone, List.replicate_add, run_append]
    exact run_repushing item _ (enforceWmBudget (items ++ [item])).1 []

/-- Calls side by side lose nothing while no item is pushed between the `LRANGE` and the `DEL` of a trim, and calls one
after the other follow the token-limit rule. -/
theorem working_memory_keeps (items : List WorkingItem) :
    (∀ added schedule, StepsMeet (Pool.step advance) Undisturbed (start items added) schedule →
      ∀ earlier, earlier <+: schedule → NothingLost items (run (Pool.step advance) (start items added) earlier)) ∧
    ∀ before item, Budgeted (run addToWorkingMemory items before ++ [item]) (run addToWorkingMemory items (before ++ [item]))
      (enforceWmBudget (run addToWorkingMemory items before ++ [item])).2 := by
  refine ⟨fun added schedule hmeets earlier hearlier => ?_, fun before item => ?_⟩
  · exact nothingLost_of_kept (invariant_throughout kept_step (kept_start items added) hmeets hearlier)
  · rw [run_append]
    exact budgeted_enforceWmBudget (run addToWorkingMemory items before ++ [item])

def noteItem (id : FragmentId) (estimatedTokens : ℕ) : WorkingItem where
  id := id
  content := "Port 8443 is proxied."
  type := .fact
  topic := "gateway"
  importance := 5 / 10
  estimatedTokens := estimatedTokens
  addedAt := 1

/-- A trim that is through before the other call begins. -/
theorem working_memory_keeps_in_turn :
    NothingLost [noteItem "frag-01" 490] (run (Pool.step advance) (start [noteItem "frag-01" 490]
      [noteItem "frag-02" 20, noteItem "frag-03" 30]) (List.replicate 6 (0, ()) ++ List.replicate 3 (1, ()))) :=
  (working_memory_keeps [noteItem "frag-01" 490]).1 [noteItem "frag-02" 20, noteItem "frag-03" 30]
    (List.replicate 6 (0, ()) ++ List.replicate 3 (1, ())) (by decide +kernel) _ List.prefix_rfl

/-- The second call pushes its item after the first one has read the list and before it deletes it. -/
theorem working_memory_loses :
    ¬ ∀ items added schedule, NothingLost items (run (Pool.step advance) (start items added) schedule) := by
  intro h
  have hlost := h [noteItem "frag-01" 490] [noteItem "frag-02" 20, noteItem "frag-03" 30]
    (List.replicate 3 (0, ()) ++ [(1, ())] ++ List.replicate 3 (0, ()) ++ List.replicate 2 (1, ())) (by decide +kernel)
    (noteItem "frag-03" 30) (Or.inr (by decide +kernel))
  exact absurd hlost (by decide +kernel)

end FragmentMemory.WorkingMemory
