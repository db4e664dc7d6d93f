import Mathlib.Data.List.Perm.Basic
import Mathlib.Data.List.Sort

/-! # Queries with an order and a limit

`ORDER BY … LIMIT n` keeps a row exactly when fewer than `n` rows come before it, and the newest row comes first
only when every other row comes after it.
-/
namespace FragmentMemory.SortedQueries

variable {α : Type*} [DecidableEq α] {before : α → α → Bool}

/-- How many other rows come before a row. -/
def rank (before : α → α → Bool) (rows : List α) (x : α) : ℕ := (rows.filter fun y => before y x && y ≠ x).length

theorem rank_perm {rows other : List α} (h : rows.Perm other) (x : α) : rank before rows x = rank before other x :=
  (h.filter _).length_eq

/-- The rank of a row in sorted rows is its place. -/
theorem rank_sorted {front back : List α} {x : α} (hsorted : (front ++ x :: back).Pairwise fun a b => before a b = true)
    (hnodup : (front ++ x :: back).Nodup)
    (hanti : ∀ a ∈ front ++ x :: back, ∀ b ∈ front ++ x :: back, a ≠ b → before a b = true → before b a = false) :
    rank before (front ++ x :: back) x = front.length := by
  obtain ⟨-, hback, hfront⟩ := List.pairwise_append.mp hsorted
  obtain ⟨-, hbackNodup, hapart⟩ := List.nodup_append.mp hnodup
  have hx : x ∈ front ++ x :: back := List.mem_append_right _ List.mem_cons_self
  have hkept : front.filter (fun y => before y x && y ≠ x) = front := by
    refine List.filter_eq_self.mpr fun y hy => ?_
    have hne : y ≠ x := hapart y hy x List.mem_cons_self
    rw [hfront y hy x List.mem_cons_self, Bool.true_and]
    exact decide_eq_true hne
  have hdropped : (x :: back).filter (fun y => before y x && y ≠ x) = [] := by
    refine List.filter_eq_nil_iff.mpr fun y hy => ?_
    rcases List.mem_cons.mp hy with rfl | hlater
    · simp
    · have hne : x ≠ y := fun hsame => (List.nodup_cons.mp hbackNodup).1 (hsame ▸ hlater)
      have hforth := (List.pairwise_cons.mp hback).1 y hlater
      have hnot := hanti x hx y (List.mem_append_right _ hy) hne hforth
      rw [hnot, Bool.false_and]
      exact Bool.false_ne_true
  rw [rank, List.filter_append, hkept, hdropped, List.append_nil]

/-- `ORDER BY … LIMIT n`. -/
theorem mem_take_insertionSort (htotal : ∀ a b, before a b = true ∨ before b a = true)
    (htrans : ∀ a b c, before a b = true → before b c = true → before a c = true) {rows : List α} (hnodup : rows.Nodup)
    (hanti : ∀ a ∈ rows, ∀ b ∈ rows, a ≠ b → before a b = true → before b a = false) (n : ℕ) (x : α) :
    x ∈ (rows.insertionSort (before · ·)).take n ↔ x ∈ rows ∧ rank before rows x < n := by
  have hperm := List.perm_insertionSort (before · ·) rows
  have : Std.Total fun a b => before a b = true := ⟨htotal⟩
  have : IsTrans α fun a b => before a b = true := ⟨htrans⟩
  have hsorted := List.pairwise_insertionSort (fun a b => before a b = true) rows
  rw [← rank_perm hperm, ← hperm.mem_iff]
  have hsortedNodup := hperm.nodup_iff.mpr hnodup
  have hsortedAnti : ∀ a ∈ rows.insertionSort (before · ·), ∀ b ∈ rows.insertionSort (before · ·), a ≠ b →
      before a b = true → before b a = false := fun a ha b hb => hanti a (hperm.mem_iff.mp ha) b (hperm.mem_iff.mp hb)
  by_cases hx : x ∈ rows.insertionSort (before · ·)
  · rw [and_iff_right hx]
    obtain ⟨front, back, hsplit⟩ := List.append_of_mem hx
    rw [hsplit] at hsorted hsortedNodup hsortedAnti ⊢
    rw [rank_sorted hsorted hsortedNodup hsortedAnti]
    by_cases hplace : front.length < n
    · refine iff_of_true ?_ hplace
      obtain ⟨more, hmore⟩ := Nat.exists_eq_add_of_lt hplace
      rw [List.take_append, List.mem_append]
      have hcount : n - front.length = more + 1 := by omega
      rw [hcount, List.take_succ_cons]
      exact Or.inr List.mem_cons_self
    · refine iff_of_false (fun hmem => ?_) hplace
      rw [List.take_append, Nat.sub_eq_zero_of_le (Nat.le_of_not_lt hplace), List.take_zero, List.append_nil] at hmem
      have hapart := (List.nodup_append.mp hsortedNodup).2.2
      exact hapart x (List.mem_of_mem_take hmem) x List.mem_cons_self rfl
  · exact iff_of_false (fun hmem => hx (List.mem_of_mem_take hmem)) fun h => hx h.1

omit [DecidableEq α] in
/-- The last row of a table is the first of a stable order exactly when no other row comes before it. -/
theorem head_sorted_iff {front sorted : List α} {x : α} (hperm : sorted.Perm (front ++ [x]))
    (hsorted : sorted.Pairwise fun a b => before a b = true)
    (hstable : ∀ y ∈ front, before y x = true → [y, x].Sublist sorted) (hnodup : (front ++ [x]).Nodup) :
    sorted.head? = some x ↔ ∀ y ∈ front, before y x = false := by
  have hapart : ∀ y ∈ front, y ≠ x := fun y hy =>
    (List.nodup_append.mp hnodup).2.2 y hy x (List.mem_singleton.mpr rfl)
  constructor
  · intro hhead y hy
    obtain ⟨later, rfl⟩ := List.head?_eq_some_iff.mp hhead
    rw [Bool.eq_false_iff]
    intro hbefore
    have hpair := hstable y hy hbefore
    have hlater : [y, x].Sublist later := by
      cases hpair with
      | cons _ h => exact h
      | cons_cons _ h => exact absurd rfl (hapart x hy)
    have hagain : x ∈ later := hlater.subset (List.mem_cons_of_mem _ List.mem_cons_self)
    exact (List.nodup_cons.mp (hperm.nodup_iff.mpr hnodup)).1 hagain
  · intro hfirst
    cases sorted with
    | nil => exact absurd hperm.symm.length_eq (by simp)
    | cons head later =>
      refine congrArg some ?_
      by_contra hother
      have hhead : head ∈ front := by
        have hmem := hperm.mem_iff.mp List.mem_cons_self
        exact (List.mem_append.mp hmem).resolve_right fun h => hother (List.mem_singleton.mp h)
      have hx : x ∈ later := by
        have hmem : x ∈ head :: later := hperm.mem_iff.mpr (List.mem_append_right _ (List.mem_singleton.mpr rfl))
        exact (List.mem_cons.mp hmem).resolve_left fun h => hother h.symm
      have hbefore := (List.pairwise_cons.mp hsorted).1 x hx
      rw [hfirst head hhead] at hbefore
      cases hbefore

omit [DecidableEq α] in
/-- Where at most one row fails a condition, the first two rows hold the first one that meets it. -/
theorem find?_take_two {cond : α → Bool} {rows : List α} (hone : (rows.filter fun x => !cond x).length ≤ 1) :
    (rows.take 2).find? cond = rows.find? cond := by
  match rows with
  | [] => rfl
  | [x] => rfl
  | x :: y :: later =>
    rw [List.take_succ_cons, List.take_succ_cons, List.take_zero, List.find?_cons, List.find?_cons, List.find?_cons,
      List.find?_cons]
    cases hx : cond x with
    | true => rfl
    | false =>
      cases hy : cond y with
      | true => rfl
      | false =>
        simp only [List.filter_cons, hx, hy, Bool.not_false, if_true, List.length_cons] at hone
        omega

/-- Items that arrive with their indexes in any order are put back into their order by sorting. -/
theorem insertionSort_indexed {β : Type*} {items : List β} {reply : List (ℕ × β)}
    (h : reply.Perm (items.mapIdx Prod.mk)) :
    (reply.insertionSort fun a b => a.1 ≤ b.1) = items.mapIdx Prod.mk := by
  let byIndex : ℕ × β → ℕ × β → Prop := fun a b => a.1 ≤ b.1
  have htotal : Std.Total byIndex := ⟨fun a b => Nat.le_total a.1 b.1⟩
  have htrans : IsTrans (ℕ × β) byIndex := ⟨fun _ _ _ hab hbc => Nat.le_trans hab hbc⟩
  have hindexed : (items.mapIdx Prod.mk).Pairwise fun a b => a.1 < b.1 := by
    refine List.pairwise_iff_getElem.mpr fun i j hi hj hij => ?_
    rw [List.getElem_mapIdx, List.getElem_mapIdx]
    exact hij
  have hperm : (reply.insertionSort fun a b => a.1 ≤ b.1).Perm (items.mapIdx Prod.mk) :=
    (List.perm_insertionSort byIndex reply).trans h
  refine List.Perm.eq_of_pairwise (fun a b ha hb hab hba => ?_) (List.pairwise_insertionSort byIndex reply)
    (hindexed.imp Nat.le_of_lt) hperm
  obtain ⟨i, hi, hia⟩ := List.mem_mapIdx.mp (hperm.mem_iff.mp ha)
  obtain ⟨j, hj, hjb⟩ := List.mem_mapIdx.mp hb
  have hsame : i = j := by
    rw [← hia, ← hjb] at hab hba
    exact Nat.le_antisymm hab hba
  subst hsame
  exact hia.symm.trans hjb

end FragmentMemory.SortedQueries
