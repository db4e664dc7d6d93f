import Mathlib.Algebra.Order.Group.Nat
import Mathlib.Algebra.BigOperators.Group.List.Basic
import Mathlib.Algebra.GroupWithZero.Nat

/-! # Selections that fit a budget

Two ways to take items in order under a budget: stop at the first that does not fit, or skip it and go on.  A budget is
a property of totals that smaller totals inherit.
-/
namespace FragmentMemory.FittingSelection

variable {α : Type*} (cost : α → ℕ) (fits : ℕ → Prop) [DecidablePred fits]

def total (items : List α) : ℕ := (items.map cost).sum

/-- Items up to the first one that does not fit. -/
def takeFitting : ℕ → List α → List α
  | _, [] => []
  | used, x :: later => if fits (used + cost x) then x :: takeFitting (used + cost x) later else []

/-- Items that fit when their turn comes. -/
def fillFitting : ℕ → List α → List α
  | _, [] => []
  | used, x :: later =>
    if fits (used + cost x) then x :: fillFitting (used + cost x) later else fillFitting used later

variable {cost fits}

@[simp] theorem total_nil : total cost ([] : List α) = 0 := rfl

@[simp] theorem total_cons (x : α) (items : List α) : total cost (x :: items) = cost x + total cost items :=
  List.sum_cons

@[simp] theorem total_append (items more : List α) : total cost (items ++ more) = total cost items + total cost more := by
  rw [total, List.map_append, List.sum_append]
  rfl

theorem total_perm {items other : List α} (h : items.Perm other) : total cost items = total cost other :=
  (h.map cost).sum_eq

/-! ## The longest start that fits -/

/-- The longest start of a list whose total fits. -/
structure LongestFitting (cost : α → ℕ) (fits : ℕ → Prop) (items picked : List α) : Prop where
  initial : picked <+: items
  fits_total : fits (total cost picked)
  longest : ∀ longer, longer <+: items → fits (total cost longer) → longer <+: picked

theorem takeFitting_initial (used : ℕ) (items : List α) : takeFitting cost fits used items <+: items := by
  induction items generalizing used with
  | nil => exact List.prefix_rfl
  | cons x later ih =>
    rw [takeFitting]
    split
    · exact List.cons_prefix_cons.mpr ⟨rfl, ih _⟩
    · exact List.nil_prefix

theorem fits_takeFitting {used : ℕ} (hused : fits used) (items : List α) :
    fits (used + total cost (takeFitting cost fits used items)) := by
  induction items generalizing used with
  | nil => exact hused
  | cons x later ih =>
    rw [takeFitting]
    split
    · rename_i hfits
      rw [total_cons, ← Nat.add_assoc]
      exact ih hfits
    · exact hused

/-- With what was used before, every start that fits is taken. -/
theorem prefix_takeFitting (hdown : ∀ m n, m ≤ n → fits n → fits m) {used : ℕ} {items longer : List α}
    (hlonger : longer <+: items) (hfits : fits (used + total cost longer)) :
    longer <+: takeFitting cost fits used items := by
  induction items generalizing used longer with
  | nil => exact hlonger
  | cons x later ih =>
    cases longer with
    | nil => exact List.nil_prefix
    | cons y others =>
      obtain ⟨rfl, hothers⟩ := List.cons_prefix_cons.mp hlonger
      rw [total_cons, ← Nat.add_assoc] at hfits
      have hfirst : fits (used + cost y) := hdown _ _ (Nat.le_add_right _ _) hfits
      rw [takeFitting, if_pos hfirst]
      exact List.cons_prefix_cons.mpr ⟨rfl, ih hothers hfits⟩

theorem longest_takeFitting (hdown : ∀ m n, m ≤ n → fits n → fits m) (hnone : fits 0) (items : List α) :
    LongestFitting cost fits items (takeFitting cost fits 0 items) where
  initial := takeFitting_initial 0 items
  fits_total := Nat.zero_add (total cost (takeFitting cost fits 0 items)) ▸ fits_takeFitting hnone items
  longest _ hlonger hfits := prefix_takeFitting hdown hlonger ((Nat.zero_add _).symm ▸ hfits)

/-- An item is taken when everything up to it fits. -/
theorem mem_takeFitting_iff (hdown : ∀ m n, m ≤ n → fits n → fits m) (hnone : fits 0) {before after : List α} {x : α}
    (hfirst : x ∉ before) : x ∈ takeFitting cost fits 0 (before ++ x :: after) ↔ fits (total cost before + cost x) := by
  have hlongest := @longest_takeFitting _ cost _ _ hdown hnone (before ++ x :: after)
  have hupTo : before ++ [x] <+: before ++ x :: after := ⟨after, by rw [List.append_assoc, List.singleton_append]⟩
  have htotal : total cost (before ++ [x]) = total cost before + cost x := by simp
  constructor
  · intro hx
    have hinitial := hlongest.initial
    rcases List.prefix_or_prefix_of_prefix hinitial hupTo with hshort | hlong
    · rcases List.prefix_concat_iff.mp hshort with heq | hbefore
      · rw [← htotal, ← heq]
        exact hlongest.fits_total
      · exact absurd (hbefore.subset hx) hfirst
    · rw [← htotal]
      obtain ⟨more, hmore⟩ := hlong
      refine hdown _ _ ?_ hlongest.fits_total
      rw [← hmore, total_append (before ++ [x]) more]
      exact Nat.le_add_right _ _
  · intro hfits
    rw [← htotal] at hfits
    exact (hlongest.longest _ hupTo hfits).subset (List.mem_append_right _ List.mem_cons_self)

/-! ## All that fit in turn -/

theorem fillFitting_sublist (used : ℕ) (items : List α) : List.Sublist (fillFitting cost fits used items) items := by
  induction items generalizing used with
  | nil => exact List.Sublist.refl _
  | cons x later ih =>
    rw [fillFitting]
    split
    · exact (ih _).cons_cons x
    · exact (ih used).cons x

theorem fits_fillFitting {used : ℕ} (hused : fits used) (items : List α) :
    fits (used + total cost (fillFitting cost fits used items)) := by
  induction items generalizing used with
  | nil => exact hused
  | cons x later ih =>
    rw [fillFitting]
    split
    · rename_i hfits
      rw [total_cons, ← Nat.add_assoc]
      exact ih hfits
    · exact ih hused

/-- A selection goes on from what its first part has used. -/
theorem fillFitting_append (used : ℕ) (items more : List α) :
    fillFitting cost fits used (items ++ more) = fillFitting cost fits used items ++
      fillFitting cost fits (used + total cost (fillFitting cost fits used items)) more := by
  induction items generalizing used with
  | nil => rfl
  | cons x later ih =>
    rw [List.cons_append, fillFitting, fillFitting]
    split
    · rw [ih, total_cons, List.cons_append, Nat.add_assoc]
    · exact ih used

/-- An item that is left out did not fit when its turn came. -/
theorem not_fits_in_turn {used : ℕ} {before after : List α} {x : α}
    (hout : x ∉ fillFitting cost fits used (before ++ x :: after)) :
    ¬ fits (used + total cost (fillFitting cost fits used before) + cost x) := by
  intro hfits
  rw [fillFitting_append, fillFitting, if_pos hfits] at hout
  exact hout (List.mem_append_right _ List.mem_cons_self)

/-- An item that is left out does not fit in what is left in the end. -/
theorem not_fits_of_left_out (hdown : ∀ m n, m ≤ n → fits n → fits m) {used : ℕ} {items : List α} {x : α}
    (hx : x ∈ items) (hout : x ∉ fillFitting cost fits used items) :
    ¬ fits (used + total cost (fillFitting cost fits used items) + cost x) := by
  obtain ⟨before, after, rfl⟩ := List.append_of_mem hx
  have hturn := not_fits_in_turn hout
  refine fun hfits => hturn (hdown _ _ ?_ hfits)
  rw [fillFitting_append, total_append]
  omega

/-! ## Other items and other budgets -/

variable {β : Type*} {fits' : ℕ → Prop} [DecidablePred fits']

theorem total_map (g : β → α) (items : List β) : total cost (items.map g) = total (fun x => cost (g x)) items := by
  rw [total, List.map_map]
  rfl

theorem takeFitting_map (hsame : ∀ n, fits n ↔ fits' n) (g : β → α) (used : ℕ) (items : List β) :
    takeFitting cost fits used (items.map g) = (takeFitting (fun x => cost (g x)) fits' used items).map g := by
  induction items generalizing used with
  | nil => rfl
  | cons x later ih =>
    rw [List.map_cons, takeFitting, takeFitting]
    by_cases hfits : fits (used + cost (g x))
    · rw [if_pos hfits, if_pos ((hsame _).mp hfits), ih, List.map_cons]
    · rw [if_neg hfits, if_neg fun h => hfits ((hsame _).mpr h), List.map_nil]

theorem fillFitting_map (hsame : ∀ n, fits n ↔ fits' n) (g : β → α) (used : ℕ) (items : List β) :
    fillFitting cost fits used (items.map g) = (fillFitting (fun x => cost (g x)) fits' used items).map g := by
  induction items generalizing used with
  | nil => rfl
  | cons x later ih =>
    rw [List.map_cons, fillFitting, fillFitting]
    by_cases hfits : fits (used + cost (g x))
    · rw [if_pos hfits, if_pos ((hsame _).mp hfits), ih, List.map_cons]
    · rw [if_neg hfits, if_neg fun h => hfits ((hsame _).mpr h), ih]

end FragmentMemory.FittingSelection
