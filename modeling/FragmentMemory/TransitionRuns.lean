import Mathlib.Data.List.Basic

/-! # Runs of a deterministic transition function

Invariants are proved for one step and carried to whole runs.  A step may be asked to meet a
condition in the state before it, and a run may be asked whether an event has happened in it.
-/
namespace FragmentMemory.TransitionRuns

variable {σ ε : Type*} (step : σ → ε → σ)

/-- The state after a list of events. -/
def run (start : σ) (events : List ε) : σ := events.foldl step start

/-- Every event of the run meets the condition in the state before it. -/
def StepsMeet (condition : σ → ε → Prop) : σ → List ε → Prop
  | _, [] => True
  | state, event :: later => condition state event ∧ StepsMeet condition (step state event) later

/-- Some event of the run has the property in the state before it. -/
def Happens (property : σ → ε → Prop) : σ → List ε → Prop
  | _, [] => False
  | state, event :: later => property state event ∨ Happens property (step state event) later

instance decidableHappens (property : σ → ε → Prop) [∀ state event, Decidable (property state event)] :
    ∀ (state : σ) (events : List ε), Decidable (Happens step property state events)
  | _, [] => inferInstanceAs (Decidable False)
  | state, event :: later =>
    have := decidableHappens property (step state event) later
    inferInstanceAs (Decidable (property state event ∨ Happens step property (step state event) later))

instance decidableStepsMeet (condition : σ → ε → Prop) [∀ state event, Decidable (condition state event)] :
    ∀ (state : σ) (events : List ε), Decidable (StepsMeet step condition state events)
  | _, [] => inferInstanceAs (Decidable True)
  | state, event :: later =>
    have := decidableStepsMeet condition (step state event) later
    inferInstanceAs (Decidable (condition state event ∧ StepsMeet step condition (step state event) later))

/-- The states that some run from the start reaches. -/
def Reachable (start state : σ) : Prop := ∃ events, run step start events = state

@[simp] theorem run_nil (start : σ) : run step start [] = start := rfl

@[simp] theorem run_cons (start : σ) (event : ε) (later : List ε) :
    run step start (event :: later) = run step (step start event) later := rfl

theorem run_append (start : σ) (before after : List ε) :
    run step start (before ++ after) = run step (run step start before) after :=
  List.foldl_append

variable {step}

theorem StepsMeet.mono {condition weaker : σ → ε → Prop}
    (h : ∀ state event, condition state event → weaker state event) {start : σ} {events : List ε}
    (hmeet : StepsMeet step condition start events) : StepsMeet step weaker start events := by
  induction events generalizing start with
  | nil => trivial
  | cons event later ih => exact ⟨h _ _ hmeet.1, ih hmeet.2⟩

/-- The condition on one list of events after another. -/
theorem stepsMeet_append {condition : σ → ε → Prop} {start : σ} {before after : List ε} :
    StepsMeet step condition start (before ++ after) ↔
      StepsMeet step condition start before ∧ StepsMeet step condition (run step start before) after := by
  induction before generalizing start with
  | nil => simp [StepsMeet]
  | cons first later ih => simp only [List.cons_append, StepsMeet, run_cons, ih, and_assoc]

/-- The condition on a list of events with one more at its end. -/
theorem stepsMeet_concat {condition : σ → ε → Prop} {start : σ} {events : List ε} {event : ε} :
    StepsMeet step condition start (events ++ [event]) ↔
      StepsMeet step condition start events ∧ condition (run step start events) event := by
  rw [stepsMeet_append, StepsMeet, StepsMeet, and_true]

/-- What happens in a list of events with one more at its end. -/
theorem happens_concat {property : σ → ε → Prop} {start : σ} {events : List ε} {event : ε} :
    Happens step property start (events ++ [event]) ↔
      Happens step property start events ∨ property (run step start events) event := by
  induction events generalizing start with
  | nil => simp [Happens]
  | cons first later ih => simp only [List.cons_append, Happens, run_cons, ih, or_assoc]

theorem stepsMeet_of_forall {condition : σ → ε → Prop} (h : ∀ state event, condition state event) (start : σ)
    (events : List ε) : StepsMeet step condition start events := by
  induction events generalizing start with
  | nil => trivial
  | cons event later ih => exact ⟨h start event, ih _⟩

/-- Two conditions that the steps of a run meet. -/
theorem StepsMeet.and {condition other : σ → ε → Prop} {start : σ} {events : List ε}
    (h : StepsMeet step condition start events) (h' : StepsMeet step other start events) :
    StepsMeet step (fun state event => condition state event ∧ other state event) start events := by
  induction events generalizing start with
  | nil => trivial
  | cons event later ih => exact ⟨⟨h.1, h'.1⟩, ih h.2 h'.2⟩

/-- What every step of a run excludes does not happen in it. -/
theorem StepsMeet.not_happens {condition property : σ → ε → Prop} {start : σ} {events : List ε}
    (h : StepsMeet step condition start events) (hexclude : ∀ state event, condition state event →
      ¬ property state event) :
    ¬ Happens step property start events := by
  induction events generalizing start with
  | nil => exact id
  | cons event later ih =>
    rintro (hnow | hlater)
    · exact hexclude _ _ h.1 hnow
    · exact ih h.2 hlater

/-- An invariant of every step holds after every run. -/
theorem invariant_run {I : σ → Prop}
    (hstep : ∀ state event, I state → I (step state event))
    {start : σ} (hstart : I start) (events : List ε) : I (run step start events) := by
  induction events generalizing start with
  | nil => exact hstart
  | cons event later ih => exact ih (hstep _ _ hstart)

theorem invariant_reachable {I : σ → Prop}
    (hstep : ∀ state event, I state → I (step state event))
    {start state : σ} (hstart : I start) (h : Reachable step start state) : I state := by
  obtain ⟨events, rfl⟩ := h
  exact invariant_run hstep hstart events

/-- An invariant of the steps that meet a condition holds after every run of such steps. -/
theorem invariant_run_of_meets {I : σ → Prop} {condition : σ → ε → Prop}
    (hstep : ∀ state event, I state → condition state event → I (step state event))
    {start : σ} (hstart : I start) {events : List ε}
    (hmeet : StepsMeet step condition start events) : I (run step start events) := by
  induction events generalizing start with
  | nil => exact hstart
  | cons event later ih => exact ih (hstep _ _ hstart hmeet.1) hmeet.2

/-- Such an invariant holds in every state of the run. -/
theorem invariant_throughout {I : σ → Prop} {condition : σ → ε → Prop}
    (hstep : ∀ state event, I state → condition state event → I (step state event))
    {start : σ} (hstart : I start) {events : List ε}
    (hmeet : StepsMeet step condition start events) {earlier : List ε} (hearlier : earlier <+: events) :
    I (run step start earlier) := by
  obtain ⟨later, rfl⟩ := hearlier
  exact invariant_run_of_meets hstep hstart (stepsMeet_append.mp hmeet).1

/-- What no step breaks without an event still holds after a run in which the event never happens. -/
theorem invariant_run_unless {I : σ → Prop} {condition property : σ → ε → Prop}
    (hstep : ∀ state event, I state → condition state event → ¬ property state event →
      I (step state event))
    {start : σ} (hstart : I start) {events : List ε}
    (hmeet : StepsMeet step condition start events) (hnever : ¬ Happens step property start events) :
    I (run step start events) := by
  induction events generalizing start with
  | nil => exact hstart
  | cons event later ih =>
    rw [Happens, not_or] at hnever
    exact ih (hstep _ _ hstart hmeet.1 hnever.1) hmeet.2 hnever.2

/-- What an invariant and a condition give for one step, every step of a run of such steps has. -/
theorem stepsMeet_of_invariant {I : σ → Prop} {condition property : σ → ε → Prop}
    (hstep : ∀ state event, I state → condition state event → I (step state event) ∧ property state event)
    {start : σ} (hstart : I start) {events : List ε} (hmeet : StepsMeet step condition start events) :
    StepsMeet step property start events := by
  induction events generalizing start with
  | nil => trivial
  | cons event later ih =>
    obtain ⟨hnext, hproperty⟩ := hstep _ _ hstart hmeet.1
    exact ⟨hproperty, ih hnext hmeet.2⟩

/-- What never happens in a run, no step of it meets. -/
theorem stepsMeet_of_not_happens {property : σ → ε → Prop} {start : σ} {events : List ε}
    (h : ¬ Happens step property start events) : StepsMeet step (fun state event => ¬ property state event) start events := by
  induction events generalizing start with
  | nil => trivial
  | cons event later ih =>
    rw [Happens, not_or] at h
    exact ⟨h.1, ih h.2⟩

/-- What a step establishes once and every later step keeps, holds at the end. -/
theorem established_of_happens {property : σ → ε → Prop} {established : σ → Prop}
    (hset : ∀ state event, property state event → established (step state event))
    (hkeep : ∀ state event, established state → established (step state event)) {start : σ} {events : List ε}
    (h : Happens step property start events) : established (run step start events) := by
  induction events generalizing start with
  | nil => exact h.elim
  | cons event later ih =>
    rcases h with hnow | hlater
    · exact invariant_run hkeep (hset _ _ hnow) later
    · exact ih hlater

/-- The parties of a state after one of them has changed. -/
theorem eq_or_of_update {ι β : Type*} [DecidableEq ι] {parties : ι → Option β} {i j : ι} {next found : β}
    (h : Function.update parties i (some next) j = some found) :
    (j = i ∧ found = next) ∨ (j ≠ i ∧ parties j = some found) := by
  by_cases hj : j = i
  · subst hj
    rw [Function.update_self] at h
    exact Or.inl ⟨rfl, (Option.some.inj h).symm⟩
  · rw [Function.update_of_ne hj] at h
    exact Or.inr ⟨hj, h⟩

/-- What holds at the end of a run and not at its start, some step of the run brings about. -/
theorem exists_step_of_run {P : σ → Prop} {start : σ} (hstart : ¬ P start) {events : List ε}
    (h : P (run step start events)) : ∃ before event after, events = before ++ event :: after ∧
      ¬ P (run step start before) ∧ P (step (run step start before) event) := by
  induction events generalizing start with
  | nil => exact absurd h hstart
  | cons event later ih =>
    by_cases hnow : P (step start event)
    · exact ⟨[], event, later, rfl, hstart, hnow⟩
    · obtain ⟨before, other, after, hevents, hbefore, hafter⟩ := ih hnow h
      exact ⟨event :: before, other, after, by rw [hevents, List.cons_append], hbefore, hafter⟩

/-- A property that a step keeps exactly when it meets a condition, a run keeps exactly when all its
steps do. -/
theorem run_iff_stepsMeet {I : σ → Prop} {condition : σ → ε → Prop}
    (hstep : ∀ state event, I (step state event) ↔ I state ∧ condition state event) (start : σ)
    (events : List ε) : I (run step start events) ↔ I start ∧ StepsMeet step condition start events := by
  induction events generalizing start with
  | nil => exact (and_iff_left trivial).symm
  | cons event later ih => rw [run_cons, ih, hstep, and_assoc, StepsMeet]

/-- A property that a step with a precondition keeps exactly when it meets a condition holds in every
state of a run of such steps exactly when all of them meet the condition. -/
theorem throughout_iff_stepsMeet_of_meets {I : σ → Prop} {precondition condition : σ → ε → Prop}
    (hstep : ∀ state event, I state → precondition state event → (I (step state event) ↔ condition state event))
    {start : σ} (hI : I start) {events : List ε} (hmeets : StepsMeet step precondition start events) :
    (∀ earlier, earlier <+: events → I (run step start earlier)) ↔ StepsMeet step condition start events := by
  induction events generalizing start with
  | nil =>
    refine ⟨fun _ => trivial, fun _ earlier hearlier => ?_⟩
    rw [List.prefix_nil.mp hearlier]
    exact hI
  | cons event later ih =>
    constructor
    · intro h
      have hnext : I (step start event) := h [event] (List.prefix_append [event] later)
      refine ⟨(hstep _ _ hI hmeets.1).mp hnext, (ih hnext hmeets.2).mp fun earlier hearlier => ?_⟩
      exact h (event :: earlier) (List.cons_prefix_cons.mpr ⟨rfl, hearlier⟩)
    · rintro ⟨hcondition, hlater⟩ earlier hearlier
      have hnext := (hstep _ _ hI hmeets.1).mpr hcondition
      cases earlier with
      | nil => exact hI
      | cons other rest =>
        obtain ⟨rfl, hrest⟩ := List.cons_prefix_cons.mp hearlier
        exact (ih hnext hmeets.2).mpr hlater rest hrest

/-- The same where the precondition is an invariant of every step. -/
theorem throughout_iff_stepsMeet {I W : σ → Prop} {condition : σ → ε → Prop}
    (hkept : ∀ state event, W state → W (step state event))
    (hstep : ∀ state event, W state → I state → (I (step state event) ↔ condition state event)) {start : σ}
    (hW : W start) (hI : I start) (events : List ε) :
    (∀ earlier, earlier <+: events → I (run step start earlier)) ↔ StepsMeet step condition start events := by
  have hany : StepsMeet step (fun _ _ => True) start events := stepsMeet_of_forall (fun _ _ => trivial) start events
  have hmeets : StepsMeet step (fun state _ => W state) start events :=
    stepsMeet_of_invariant (fun state event hstate _ => ⟨hkept state event hstate, hstate⟩) hW hany
  exact throughout_iff_stepsMeet_of_meets (fun state event hstate hW => hstep state event hW hstate) hI hmeets

/-- The conditions on a component of the state that the steps treat on its own. -/
theorem stepsMeet_component {τ : Type*} {inner : τ → ε → τ} {view : σ → τ} {condition : τ → ε → Prop}
    (hview : ∀ state event, view (step state event) = inner (view state) event) (start : σ) (events : List ε) :
    StepsMeet step (fun state event => condition (view state) event) start events ↔
      StepsMeet inner condition (view start) events := by
  induction events generalizing start with
  | nil => exact Iff.rfl
  | cons event later ih => rw [StepsMeet, StepsMeet, ih, hview]

end FragmentMemory.TransitionRuns
