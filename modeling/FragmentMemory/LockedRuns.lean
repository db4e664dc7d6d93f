import FragmentMemory.TransitionRuns

/-! # Threads that take turns under one lock

Any number of threads run over a shared state, each at the phase that it has reached.  Phases are
critical or not.  A turn that would enter a critical phase while another thread holds the lock changes
nothing: the thread waits.  The surroundings may change the shared state between any two turns.

What the shared state satisfies while nobody is inside, and what the holder relies on inside, hold in
every schedule once the code of a single thread keeps them.
-/
namespace FragmentMemory.LockedRuns
open TransitionRuns

/-- A shared state, the thread that holds the lock, and the phases of the threads. -/
structure Monitor (σ π : Type*) where
  shared : σ
  holder : Option ℕ
  threads : ℕ → π

inductive Event (σ τ : Type*)
  | turn (thread : ℕ) (input : τ)
  | outside (next : σ)

variable {σ π τ : Type*} (advance : τ → σ → π → σ × π) (critical : π → Bool)

namespace Monitor

def start (shared : σ) (threads : ℕ → π) : Monitor σ π := { shared := shared, holder := none, threads := threads }

def step (monitor : Monitor σ π) : Event σ τ → Monitor σ π
  | .outside next => { monitor with shared := next }
  | .turn thread input =>
    let next := advance input monitor.shared (monitor.threads thread)
    if critical next.2 && monitor.holder.any fun other => other ≠ thread then monitor
    else {
      shared := next.1
      holder := if critical next.2 then some thread else monitor.holder.filter fun other => other ≠ thread
      threads := Function.update monitor.threads thread next.2 }

/-- The surroundings keep to a condition on their changes of the shared state. -/
def OutsideOnly (condition : σ → σ → Prop) (monitor : Monitor σ π) : Event σ τ → Prop
  | .outside next => condition monitor.shared next
  | .turn _ _ => True

/-- An invariant of the shared state, and an assertion of the thread inside, which alone holds the lock. -/
structure Holds (invariant : σ → Prop) (assertion : σ → π → Prop) (monitor : Monitor σ π) : Prop where
  shared : invariant monitor.shared
  alone : ∀ thread, critical (monitor.threads thread) = true → monitor.holder = some thread
  inside : ∀ thread, critical (monitor.threads thread) = true → assertion monitor.shared (monitor.threads thread)

/-- What the code of a thread and the surroundings have to keep. -/
structure Protocol (invariant : σ → Prop) (assertion : σ → π → Prop) (condition : σ → σ → Prop) : Prop where
  /-- A thread outside leaves the shared state as it is. -/
  idle : ∀ input shared thread, critical thread = false → (advance input shared thread).1 = shared
  enter : ∀ input shared thread, invariant shared → critical thread = false →
    critical (advance input shared thread).2 = true → assertion shared (advance input shared thread).2
  within : ∀ input shared thread, invariant shared → assertion shared thread → critical thread = true →
    invariant (advance input shared thread).1 ∧ (critical (advance input shared thread).2 = true →
      assertion (advance input shared thread).1 (advance input shared thread).2)
  outside : ∀ shared next, invariant shared → condition shared next →
    invariant next ∧ ∀ thread, assertion shared thread → assertion next thread

variable {advance critical} {invariant : σ → Prop} {assertion : σ → π → Prop} {condition : σ → σ → Prop}

theorem holds_start {shared : σ} {threads : ℕ → π} (hshared : invariant shared)
    (houtside : ∀ thread, critical (threads thread) = false) :
    (start shared threads).Holds critical invariant assertion where
  shared := hshared
  alone thread hcritical := by
    have hfalse : critical (threads thread) = true := hcritical
    rw [houtside thread] at hfalse
    cases hfalse
  inside thread hcritical := by
    have hfalse : critical (threads thread) = true := hcritical
    rw [houtside thread] at hfalse
    cases hfalse

/-- A turn that does not wait, with the thread that takes it free to be inside. -/
theorem step_turn_cases (monitor : Monitor σ π) (thread : ℕ) (input : τ) :
    monitor.step advance critical (.turn thread input) = monitor ∨
    ((critical (advance input monitor.shared (monitor.threads thread)).2 = true →
        ∀ other, monitor.holder = some other → other = thread) ∧
      monitor.step advance critical (.turn thread input) =
        { shared := (advance input monitor.shared (monitor.threads thread)).1
          holder := if critical (advance input monitor.shared (monitor.threads thread)).2 then some thread
            else monitor.holder.filter fun other => other ≠ thread
          threads :=
            Function.update monitor.threads thread (advance input monitor.shared (monitor.threads thread)).2 }) := by
  simp only [step]
  split
  · exact Or.inl rfl
  · rename_i hfree
    refine Or.inr ⟨fun hcritical other hholder => ?_, rfl⟩
    simp only [hcritical, hholder, Option.any_some, Bool.true_and, decide_eq_true_eq, not_not] at hfree
    exact hfree

/-- A step of any event keeps the invariant, the lock and the assertion of the thread inside. -/
theorem holds_step (hprotocol : Protocol advance critical invariant assertion condition) (monitor : Monitor σ π)
    (event : Event σ τ) (h : monitor.Holds critical invariant assertion)
    (hcondition : OutsideOnly condition monitor event) :
    (monitor.step advance critical event).Holds critical invariant assertion := by
  cases event with
  | outside next =>
    obtain ⟨hnext, hkept⟩ := hprotocol.outside monitor.shared next h.shared hcondition
    exact ⟨hnext, h.alone, fun thread hcritical => hkept _ (h.inside thread hcritical)⟩
  | turn thread input =>
    rcases step_turn_cases monitor thread input with hwait | ⟨hfree, hstep⟩
    · rw [hwait]
      exact h
    · rw [hstep]
      by_cases hbefore : critical (monitor.threads thread) = true
      · -- the holder acts: nobody else is inside
        have hholder := h.alone thread hbefore
        have hwithin := hprotocol.within input _ _ h.shared (h.inside thread hbefore) hbefore
        have hothers : ∀ other, other ≠ thread → critical (monitor.threads other) = false := by
          intro other hne
          by_contra hinside
          have hother := h.alone other (Bool.of_not_eq_false hinside)
          exact hne (Option.some.inj (hother.symm.trans hholder))
        refine ⟨hwithin.1, fun other hcritical => ?_, fun other hcritical => ?_⟩
        · by_cases hsame : other = thread
          · subst hsame
            simp only [Function.update_self] at hcritical
            simp only [hcritical, if_true]
          · simp only [Function.update_of_ne hsame, hothers other hsame] at hcritical
            cases hcritical
        · by_cases hsame : other = thread
          · subst hsame
            simp only [Function.update_self] at hcritical ⊢
            exact hwithin.2 hcritical
          · simp only [Function.update_of_ne hsame, hothers other hsame] at hcritical
            cases hcritical
      · have hbefore : critical (monitor.threads thread) = false := Bool.of_not_eq_true hbefore
        have hidle := hprotocol.idle input monitor.shared _ hbefore
        have hothers : ∀ other, other ≠ thread → critical (monitor.threads other) = true →
            critical (advance input monitor.shared (monitor.threads thread)).2 = false := by
          intro other hne hinside
          by_contra henters
          exact hne (hfree (Bool.of_not_eq_false henters) other (h.alone other hinside))
        refine ⟨hidle.symm ▸ h.shared, fun other hcritical => ?_, fun other hcritical => ?_⟩
        · by_cases hsame : other = thread
          · subst hsame
            simp only [Function.update_self] at hcritical
            simp only [hcritical, if_true]
          · simp only [Function.update_of_ne hsame] at hcritical
            simp only [hothers other hsame hcritical, Bool.false_eq_true, if_false, h.alone other hcritical,
              Option.filter_some, ne_eq, hsame, not_false_eq_true, decide_true, if_true]
        · simp only [hidle]
          by_cases hsame : other = thread
          · subst hsame
            simp only [Function.update_self] at hcritical ⊢
            exact hprotocol.enter input _ _ h.shared hbefore hcritical
          · simp only [Function.update_of_ne hsame] at hcritical ⊢
            exact h.inside other hcritical

/-- The invariant holds after every schedule whose surroundings keep to their condition. -/
theorem holds_run (hprotocol : Protocol advance critical invariant assertion condition) {monitor : Monitor σ π}
    (hstart : monitor.Holds critical invariant assertion) {events : List (Event σ τ)}
    (hmeet : StepsMeet (step advance critical) (OutsideOnly condition) monitor events) :
    (run (step advance critical) monitor events).Holds critical invariant assertion :=
  invariant_run_of_meets (I := Holds critical invariant assertion)
    (fun current event h hcondition => holds_step hprotocol current event h hcondition) hstart hmeet

/-- The program of one thread with nothing in between. -/
def alone (advance : τ → σ → π → σ × π) : List τ → σ × π → σ × π :=
  fun inputs start => inputs.foldl (fun current input => advance input current.1 current.2) start

/-- While no other thread holds the lock, the turns of one thread run its program. -/
theorem run_alone {thread : ℕ} (inputs : List τ) (monitor : Monitor σ π)
    (hfree : ∀ other, monitor.holder = some other → other = thread) :
    (run (step advance critical) monitor (inputs.map (Event.turn thread))).shared =
        (alone advance inputs (monitor.shared, monitor.threads thread)).1 ∧
      (run (step advance critical) monitor (inputs.map (Event.turn thread))).threads thread =
        (alone advance inputs (monitor.shared, monitor.threads thread)).2 := by
  induction inputs generalizing monitor with
  | nil => exact ⟨rfl, rfl⟩
  | cons input later ih =>
    have hnotOther : monitor.holder.any (fun other => decide (other ≠ thread)) = false := by
      cases hholder : monitor.holder with
      | none => rfl
      | some other =>
        have hsame := hfree other hholder
        simp only [Option.any_some, hsame, ne_eq, not_true_eq_false, decide_false]
    have hstep : (monitor.step advance critical (.turn thread input)).shared =
          (advance input monitor.shared (monitor.threads thread)).1 ∧
        (monitor.step advance critical (.turn thread input)).threads thread =
          (advance input monitor.shared (monitor.threads thread)).2 ∧
        ∀ other, (monitor.step advance critical (.turn thread input)).holder = some other → other = thread := by
      simp only [step, hnotOther, Bool.and_false, Bool.false_eq_true, if_false, Function.update_self, true_and]
      intro other hother
      split at hother
      · exact (Option.some.inj hother).symm
      · exact hfree other (Option.filter_eq_some_iff.mp hother).1
    obtain ⟨hshared, hthread, hholder⟩ := hstep
    have hrest := ih (monitor.step advance critical (.turn thread input)) hholder
    rw [hshared, hthread] at hrest
    exact hrest

end Monitor
end FragmentMemory.LockedRuns
