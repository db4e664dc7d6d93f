import Mathlib.Data.List.Sort
import Mathlib.Data.List.TakeWhile

/-! # Times in a window that moves on

A list of times in their order is cut at its front as the window moves.  Nothing is lost of any later window.
-/
namespace FragmentMemory.SlidingWindow

variable {τ : Type*} [LinearOrder τ]

/-- The times up to the cutoff are taken from the front. -/
def prune (cutoff : τ) (times : List τ) : List τ := times.dropWhile (· ≤ cutoff)

/-- The times after the cutoff. -/
def after (cutoff : τ) (times : List τ) : List τ := times.filter (cutoff < ·)

theorem prune_eq_after {times : List τ} (h : times.Pairwise (· ≤ ·)) (cutoff : τ) :
    prune cutoff times = after cutoff times := by
  induction times with
  | nil => rfl
  | cons time later ih =>
    obtain ⟨hfirst, hlater⟩ := List.pairwise_cons.mp h
    by_cases hold : time ≤ cutoff
    · rw [prune, List.dropWhile_cons_of_pos (by simpa using hold), after, List.filter_cons_of_neg (by simpa using hold)]
      exact ih hlater
    · have hall : ∀ other ∈ time :: later, decide (cutoff < other) = true := by
        intro other hother
        rw [decide_eq_true_eq]
        rcases List.mem_cons.mp hother with rfl | hlater'
        · exact lt_of_not_ge hold
        · exact (lt_of_not_ge hold).trans_le (hfirst other hlater')
      rw [prune, List.dropWhile_cons_of_neg (by simpa using hold), after, List.filter_eq_self.mpr hall]

theorem after_after {first second : τ} (h : first ≤ second) (times : List τ) :
    after second (after first times) = after second times := by
  rw [after, after, after, List.filter_filter]
  refine List.filter_congr fun time _ => ?_
  rw [Bool.and_eq_left_iff_imp]
  intro hlater
  rw [decide_eq_true_eq] at hlater ⊢
  exact h.trans_lt hlater

theorem after_append (cutoff : τ) (times more : List τ) :
    after cutoff (times ++ more) = after cutoff times ++ after cutoff more :=
  List.filter_append times more

theorem after_singleton {cutoff time : τ} (h : cutoff < time) : after cutoff [time] = [time] := by
  rw [after, List.filter_cons_of_pos (by simpa using h), List.filter_nil]

theorem pairwise_after {times : List τ} (h : times.Pairwise (· ≤ ·)) (cutoff : τ) :
    (after cutoff times).Pairwise (· ≤ ·) :=
  h.filter _

end FragmentMemory.SlidingWindow
