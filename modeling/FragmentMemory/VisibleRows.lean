import Mathlib.Data.List.Sort

/-! # Queries on the visible part of a list

A list of rows and the part of it that an observer may see.  A selection or a join whose condition
admits visible rows only has the same result on the part, a stable sort of the part is the part of
the sort, and a page is the same when all of it is visible.
-/
namespace FragmentMemory.VisibleRows

variable {α β : Type*} {visible : α → Bool} {xs : List α}

/-- A join that finds nothing for a hidden row. -/
theorem filterMap_visible {f g : α → Option β} (hhidden : ∀ x ∈ xs, visible x = false → f x = none)
    (hsame : ∀ x ∈ xs, visible x = true → g x = f x) : (xs.filter visible).filterMap g = xs.filterMap f := by
  induction xs with
  | nil => rfl
  | cons x later ih =>
    have hlater := ih (fun y hy => hhidden y (List.mem_cons_of_mem x hy))
      fun y hy => hsame y (List.mem_cons_of_mem x hy)
    rcases hx : visible x with _ | _
    · have hnone := hhidden x List.mem_cons_self hx
      rw [List.filter_cons_of_neg (by simp [hx]), List.filterMap_cons_none hnone, hlater]
    · have heq := hsame x List.mem_cons_self hx
      rw [List.filter_cons_of_pos hx, List.filterMap_cons, List.filterMap_cons, heq, hlater]

/-- A selection of visible rows. -/
theorem filter_visible {p q : α → Bool} (hvisible : ∀ x ∈ xs, p x = true → visible x = true)
    (hsame : ∀ x ∈ xs, visible x = true → q x = p x) : (xs.filter visible).filter q = xs.filter p := by
  rw [List.filter_filter]
  refine List.filter_congr fun x hx => ?_
  rcases hv : visible x with _ | _
  · rcases hp : p x with _ | _
    · rw [Bool.and_false]
    · rw [hvisible x hx hp] at hv
      cases hv
  · rw [hsame x hx hv, Bool.and_true]

/-- The existence of a visible row. -/
theorem any_visible {p q : α → Bool} (hvisible : ∀ x ∈ xs, p x = true → visible x = true)
    (hsame : ∀ x ∈ xs, visible x = true → q x = p x) : (xs.filter visible).any q = xs.any p := by
  rw [Bool.eq_iff_iff, List.any_eq_true, List.any_eq_true]
  constructor
  · rintro ⟨x, hx, hq⟩
    obtain ⟨hmem, hv⟩ := List.mem_filter.mp hx
    rw [hsame x hmem hv] at hq
    exact ⟨x, hmem, hq⟩
  · rintro ⟨x, hx, hp⟩
    have hv := hvisible x hx hp
    exact ⟨x, List.mem_filter.mpr ⟨hx, hv⟩, by rw [hsame x hx hv, hp]⟩

/-- A page of the visible rows, when the page of all the rows is visible. -/
theorem take_visible {count : ℕ} (h : ∀ x ∈ xs.take count, visible x = true) :
    (xs.filter visible).take count = xs.take count := by
  induction xs generalizing count with
  | nil => rfl
  | cons x later ih =>
    cases count with
    | zero => rfl
    | succ count =>
      rw [List.take_succ_cons] at h
      have hx := h x List.mem_cons_self
      rw [List.filter_cons_of_pos hx, List.take_succ_cons, List.take_succ_cons]
      rw [ih fun y hy => h y (List.mem_cons_of_mem x hy)]

/-- In a sorted list a row that may not come after another one comes before it. -/
theorem pair_sublist_of_sorted {r : α → α → Prop} {x y : α} (hsorted : xs.Pairwise r) (hx : x ∈ xs) (hy : y ∈ xs)
    (hxy : ¬ r y x) (hne : x ≠ y) :
    [x, y].Sublist xs := by
  induction xs with
  | nil => exact absurd hx List.not_mem_nil
  | cons z later ih =>
    obtain ⟨hz, hlater⟩ := List.pairwise_cons.mp hsorted
    rcases List.mem_cons.mp hx with rfl | hxlater
    · exact (List.singleton_sublist.mpr (List.mem_of_ne_of_mem hne.symm hy)).cons_cons x
    · rcases List.mem_cons.mp hy with rfl | hylater
      · exact absurd (hz x hxlater) hxy
      · exact (ih hlater hxlater hylater).cons z

section Sorting
variable {r : α → α → Prop} [DecidableRel r] [IsTrans α r]

/-- The insertion of a row into a sorted list, seen through the visible rows. -/
theorem filter_orderedInsert {x : α} (hsorted : xs.Pairwise r) :
    (xs.orderedInsert r x).filter visible =
      if visible x then (xs.filter visible).orderedInsert r x else xs.filter visible := by
  induction xs with
  | nil =>
    rcases hx : visible x with _ | _
    · simp [hx]
    · simp [hx]
  | cons y later ih =>
    obtain ⟨hy, hlater⟩ := List.pairwise_cons.mp hsorted
    by_cases hxy : r x y
    · rw [List.orderedInsert_cons_of_le r later hxy, List.filter_cons]
      split
      · have hall : ∀ z ∈ (y :: later).filter visible, r x z := by
          intro z hz
          rcases List.mem_cons.mp (List.mem_filter.mp hz).1 with rfl | hz
          · exact hxy
          · exact Trans.trans hxy (hy z hz)
        cases hvisible : (y :: later).filter visible with
        | nil => rfl
        | cons z rest =>
          rw [hvisible] at hall
          exact (List.orderedInsert_cons_of_le r rest (hall z List.mem_cons_self)).symm
      · rfl
    · rw [List.orderedInsert_of_not_le r later hxy, List.filter_cons, List.filter_cons, ih hlater]
      split
      · split
        · exact (List.orderedInsert_of_not_le r _ hxy).symm
        · rfl
      · rfl

/-- A stable sort of the visible rows is what a sort of all the rows shows of them. -/
theorem insertionSort_visible [Std.Total r] :
    (xs.filter visible).insertionSort r = (xs.insertionSort r).filter visible := by
  induction xs with
  | nil => rfl
  | cons x later ih =>
    rw [List.insertionSort_cons, filter_orderedInsert (List.pairwise_insertionSort r later), List.filter_cons]
    split
    · rw [List.insertionSort_cons, ih]
    · exact ih

/-- A stable sort leaves the rows that are tied with each other in their order. -/
theorem pair_sublist_of_tied [Std.Total r] {x y : α} (hxy : r x y) (hyx : r y x)
    (h : [x, y].Sublist (xs.insertionSort r)) : [x, y].Sublist xs := by
  have hrefl : r x x := Trans.trans hxy hyx
  have htied : ((xs.filter fun z => r x z ∧ r z x)).Pairwise r := by
    refine List.pairwise_of_forall_mem_list fun a ha b hb => ?_
    have hax := of_decide_eq_true (List.mem_filter.mp ha).2
    have hxb := of_decide_eq_true (List.mem_filter.mp hb).2
    exact Trans.trans hax.2 hxb.1
  have hpair := h.filter fun z => r x z ∧ r z x
  rw [← insertionSort_visible, htied.insertionSort_eq] at hpair
  have hboth : [x, y].filter (fun z => r x z ∧ r z x) = [x, y] := by
    simp [hrefl, hxy, hyx]
  rw [hboth] at hpair
  exact hpair.trans List.filter_sublist

end Sorting
end FragmentMemory.VisibleRows
