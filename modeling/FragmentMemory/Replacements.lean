import FragmentMemory.TransitionRuns
import Mathlib.Logic.Relation
import Mathlib.Data.List.Induction

/-! # Replacements in a run

A step may retire active elements in favour of others.  When no step does so in favour of an element
that is not active itself, an active element is reachable from every retired one.
-/
namespace FragmentMemory.Replacements
open TransitionRuns Relation

variable {σ ε α : Type*} (step : σ → ε → σ) (active : σ → α → Prop) (replaces : σ → ε → α → α → Prop)

/-- Some event of the run has replaced the first element by the second. -/
def Replaced (start : σ) (events : List ε) (x w : α) : Prop :=
  Happens step (fun state event => replaces state event x w) start events

/-- An active element is reachable from every replaced one, no two elements replace each other, and
whatever replaces an element is active when it does. -/
structure ReplacementLaw (start : σ) (events : List ε) : Prop where
  survivors : ∀ x w, Replaced step replaces start events x w →
    ∃ s, ReflTransGen (Replaced step replaces start events) x s ∧ active (run step start events) s
  asymmetric : ∀ x w, Replaced step replaces start events x w → ¬ Replaced step replaces start events w x
  winners : StepsMeet step (fun state event => ∀ x w, replaces state event x w → active state w) start events

/-- What a condition has to give for every step of a run. -/
structure Lawful (retired : σ → α → Prop) (condition : σ → ε → Prop) : Prop where
  winner : ∀ state event x w, condition state event → replaces state event x w →
    active state w ∧ active (step state event) w
  loser : ∀ state event x w, replaces state event x w → retired (step state event) x
  replaced : ∀ state event x, active state x → active (step state event) x ∨ ∃ w, replaces state event x w
  stays : ∀ state event x, retired state x → retired (step state event) x
  retired_not_active : ∀ state x, retired state x → ¬ active state x

variable {step active replaces} {retired : σ → α → Prop} {condition : σ → ε → Prop}

/-- Every replaced element is retired at the end of the run. -/
theorem retired_of_replaced (h : Lawful step active replaces retired condition) {start : σ} {events : List ε} {x w : α}
    (hreplaced : Replaced step replaces start events x w) : retired (run step start events) x := by
  induction events using List.reverseRecOn with
  | nil => exact absurd hreplaced id
  | append_singleton earlier event ih =>
    rw [run_append]
    rcases happens_concat.mp hreplaced with hbefore | hnow
    · exact h.stays _ _ _ (ih hbefore)
    · exact h.loser _ _ _ _ hnow

/-- A run of steps that meet the condition. -/
theorem replacementLaw (h : Lawful step active replaces retired condition) {start : σ} {events : List ε}
    (hmeet : StepsMeet step condition start events) : ReplacementLaw step active replaces start events := by
  induction events using List.reverseRecOn with
  | nil => exact ⟨fun _ _ h => absurd h id, fun _ _ h => absurd h id, trivial⟩
  | append_singleton earlier event ih =>
    obtain ⟨hearlier, hcondition⟩ := stepsMeet_concat.mp hmeet
    obtain ⟨hsurvivors, hasymmetric, hwinners⟩ := ih hearlier
    have hgrows : ∀ x w, Replaced step replaces start earlier x w →
        Replaced step replaces start (earlier ++ [event]) x w := fun x w hold => happens_concat.mpr (Or.inl hold)
    have hrun : run step start (earlier ++ [event]) = step (run step start earlier) event := run_append _ _ _ _
    refine ⟨fun x w hreplaced => ?_, fun x w hreplaced hback => ?_, ?_⟩
    · rw [hrun]
      rcases happens_concat.mp hreplaced with hbefore | hnow
      · obtain ⟨s, hpath, hactive⟩ := hsurvivors x w hbefore
        have hpath' := ReflTransGen.mono hgrows x s hpath
        -- the survivor so far is active still or replaced by this step
        rcases h.replaced _ event s hactive with hstays | ⟨next, hnext⟩
        · exact ⟨s, hpath', hstays⟩
        · exact ⟨next, hpath'.tail (happens_concat.mpr (Or.inr hnext)), (h.winner _ _ _ _ hcondition hnext).2⟩
      · exact ⟨w, ReflTransGen.single hreplaced, (h.winner _ _ _ _ hcondition hnow).2⟩
    · rcases happens_concat.mp hreplaced with hbefore | hnow
      · rcases happens_concat.mp hback with hbackBefore | hbackNow
        · exact hasymmetric x w hbefore hbackBefore
        · exact h.retired_not_active _ _ (retired_of_replaced h hbefore) (h.winner _ _ _ _ hcondition hbackNow).1
      · rcases happens_concat.mp hback with hbackBefore | hbackNow
        · exact h.retired_not_active _ _ (retired_of_replaced h hbackBefore) (h.winner _ _ _ _ hcondition hnow).1
        · exact h.retired_not_active _ _ (h.loser _ _ _ _ hnow) (h.winner _ _ _ _ hcondition hbackNow).2
    · exact stepsMeet_concat.mpr ⟨hwinners, fun x w hnow => (h.winner _ _ _ _ hcondition hnow).1⟩

end FragmentMemory.Replacements
