import Mathlib.Data.List.Perm.Basic
import Mathlib.Algebra.GroupWithZero.Nat

/-! # Trimming a queue to a weight limit

The oldest items go first, shielded items stay, and the trim stops as soon as the rest fits.
-/
namespace FragmentMemory.BudgetTrim

variable {α : Type*} (limit : ℕ) (weight : α → ℕ) (shielded : α → Bool)

def total (items : List α) : ℕ := (items.map weight).sum

/-- What survives and what is evicted, from the oldest item on and with the weight that is left. -/
def trim : ℕ → List α → List α × List α
  | _, [] => ([], [])
  | left, item :: rest =>
    if left ≤ limit then (item :: rest, [])
    else if shielded item then
      let later := trim left rest
      (item :: later.1, later.2)
    else
      let later := trim (left - weight item) rest
      (later.1, item :: later.2)

/-- The survivors fit or are shielded and keep their order, and the evicted items are the shortest sequence of
unshielded items, the oldest first, after which the trim can stop. -/
structure Trimmed (items survivors evicted : List α) : Prop where
  fits : total weight survivors ≤ limit ∨ ∀ item ∈ survivors, shielded item = true
  order : survivors.Sublist items
  all : (survivors ++ evicted).Perm items
  oldest : evicted <+: items.filter fun item => !shielded item
  needed : ∀ shorter, shorter <+: evicted → shorter ≠ evicted → limit + total weight shorter < total weight items

variable {limit weight shielded}

@[simp] theorem total_nil : total weight ([] : List α) = 0 := rfl

@[simp] theorem total_cons (item : α) (rest : List α) : total weight (item :: rest) = weight item + total weight rest := by
  simp only [total, List.map_cons, List.sum_cons]

/-- The invariant of the loop: the weight that is left is that of the items to come and of those kept before. -/
theorem trim_spec (kept : ℕ) (items : List α) :
    (kept + total weight (trim limit weight shielded (kept + total weight items) items).1 ≤ limit ∨
        ∀ item ∈ (trim limit weight shielded (kept + total weight items) items).1, shielded item = true) ∧
      (trim limit weight shielded (kept + total weight items) items).1.Sublist items ∧
      ((trim limit weight shielded (kept + total weight items) items).1 ++
        (trim limit weight shielded (kept + total weight items) items).2).Perm items ∧
      (trim limit weight shielded (kept + total weight items) items).2 <+: items.filter (fun item => !shielded item) ∧
      ∀ shorter, shorter <+: (trim limit weight shielded (kept + total weight items) items).2 →
        shorter ≠ (trim limit weight shielded (kept + total weight items) items).2 →
        limit + total weight shorter < kept + total weight items := by
  induction items generalizing kept with
  | nil =>
    refine ⟨Or.inr nofun, List.Sublist.refl _, List.Perm.refl _, List.prefix_rfl, fun shorter hshorter hne => ?_⟩
    exact absurd (List.prefix_nil.mp hshorter) hne
  | cons item rest ih =>
    by_cases hstops : kept + total weight (item :: rest) ≤ limit
    · simp only [trim, if_pos hstops]
      refine ⟨Or.inl hstops, List.Sublist.refl _, by simp, List.nil_prefix, fun shorter hshorter hne => ?_⟩
      exact absurd (List.prefix_nil.mp hshorter) hne
    · rcases hshielded : shielded item with _ | _
      · have hleft : kept + total weight (item :: rest) - weight item = kept + total weight rest := by
          rw [total_cons]
          omega
        simp only [trim, if_neg hstops, hshielded, Bool.false_eq_true, if_false, hleft]
        obtain ⟨hfits, horder, hall, holdest, hneeded⟩ := ih kept
        refine ⟨hfits, horder.cons item, ?_, ?_, fun shorter hshorter hne => ?_⟩
        · exact List.perm_middle.trans (hall.cons item)
        · rw [List.filter_cons_of_pos (by simp [hshielded])]
          exact List.cons_prefix_cons.mpr ⟨rfl, holdest⟩
        · cases shorter with
          | nil =>
            rw [total_nil]
            omega
          | cons first others =>
            obtain ⟨rfl, hothers⟩ := List.cons_prefix_cons.mp hshorter
            have hlater := hneeded others hothers fun hsame => hne (by rw [hsame])
            rw [total_cons, total_cons]
            omega
      · have hleft : kept + total weight (item :: rest) = kept + weight item + total weight rest := by
          rw [total_cons]
          omega
        simp only [trim, if_neg hstops, hshielded, if_true]
        rw [hleft]
        obtain ⟨hfits, horder, hall, holdest, hneeded⟩ := ih (kept + weight item)
        refine ⟨?_, horder.cons_cons item, hall.cons item, ?_, hneeded⟩
        · rcases hfits with hlight | hprotected
          · left
            rw [total_cons]
            omega
          · right
            intro other hother
            rcases List.mem_cons.mp hother with rfl | hlater
            · exact hshielded
            · exact hprotected other hlater
        · rw [List.filter_cons_of_neg (by simp [hshielded])]
          exact holdest

theorem trimmed_trim (items : List α) :
    Trimmed limit weight shielded items (trim limit weight shielded (total weight items) items).1
      (trim limit weight shielded (total weight items) items).2 := by
  have hspec := @trim_spec α limit weight shielded 0 items
  simp only [Nat.zero_add] at hspec
  exact ⟨hspec.1, hspec.2.1, hspec.2.2.1, hspec.2.2.2.1, hspec.2.2.2.2⟩

/-- Nothing is evicted from a queue that fits. -/
theorem trimmed_of_le {items : List α} (h : total weight items ≤ limit) :
    Trimmed limit weight shielded items items [] where
  fits := Or.inl h
  order := List.Sublist.refl items
  all := by rw [List.append_nil]
  oldest := List.nil_prefix
  needed := fun shorter hshorter hne => absurd (List.prefix_nil.mp hshorter) hne

theorem Trimmed.mem {items survivors evicted : List α} (h : Trimmed limit weight shielded items survivors evicted)
    {item : α}
    (hitem : item ∈ items) : item ∈ survivors ∨ item ∈ evicted :=
  List.mem_append.mp (h.all.mem_iff.mpr hitem)

end FragmentMemory.BudgetTrim
