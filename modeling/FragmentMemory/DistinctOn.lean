import Mathlib.Data.List.Sort

/-! # The first row of each key

`DISTINCT ON (key)` of sorted rows keeps the first row of each key.  A limit after it keeps the rows with the
smallest keys where the rows are sorted by key first, and the rows that come first where they are sorted again.
-/
namespace FragmentMemory.DistinctOn

variable {α κ : Type*} (key : α → κ) {rows : List α}

section
variable [DecidableEq κ]

def distinctOn : List α → List α
  | [] => []
  | first :: later => first :: (distinctOn later).filter fun x => key x ≠ key first

theorem distinctOn_sublist (rows : List α) : List.Sublist (distinctOn key rows) rows := by
  induction rows with
  | nil => exact List.Sublist.refl _
  | cons first later ih => exact (List.filter_sublist.trans ih).cons_cons first

theorem nodup_distinctOn (rows : List α) : ((distinctOn key rows).map key).Nodup := by
  induction rows with
  | nil => exact List.nodup_nil
  | cons first later ih =>
    rw [distinctOn, List.map_cons, List.nodup_cons]
    refine ⟨fun hmem => ?_, List.Nodup.sublist (List.filter_sublist.map _) ih⟩
    obtain ⟨x, hx, hsame⟩ := List.mem_map.mp hmem
    exact of_decide_eq_true (List.mem_filter.mp hx).2 hsame

/-- Every key keeps a row. -/
theorem exists_mem_distinctOn {x : α} (hx : x ∈ rows) : ∃ y ∈ distinctOn key rows, key y = key x := by
  induction rows with
  | nil => cases hx
  | cons first later ih =>
    by_cases hsame : key x = key first
    · exact ⟨first, List.mem_cons_self, hsame.symm⟩
    · have hlater : x ∈ later := (List.mem_cons.mp hx).resolve_left fun h => hsame (congrArg key h)
      obtain ⟨y, hy, hkey⟩ := ih hlater
      have hother : key y ≠ key first := fun h => hsame (hkey.symm.trans h)
      exact ⟨y, List.mem_cons_of_mem _ (List.mem_filter.mpr ⟨hy, decide_eq_true hother⟩), hkey⟩

variable {key}

/-- The row that a key keeps comes before the others of that key. -/
theorem distinctOn_first {before : α → α → Prop} (hsorted : rows.Pairwise before) {x y : α}
    (hx : x ∈ distinctOn key rows) (hy : y ∈ rows) (hkey : key y = key x) : y = x ∨ before x y := by
  induction rows with
  | nil => cases hx
  | cons first later ih =>
    obtain ⟨hfirst, hlater⟩ := List.pairwise_cons.mp hsorted
    rcases List.mem_cons.mp hx with rfl | hkept
    · rcases List.mem_cons.mp hy with hsame | hbehind
      · exact Or.inl hsame
      · exact Or.inr (hfirst y hbehind)
    · obtain ⟨hx', hother⟩ := List.mem_filter.mp hkept
      rcases List.mem_cons.mp hy with rfl | hbehind
      · exact absurd hkey.symm (of_decide_eq_true hother)
      · exact ih hlater hx' hbehind

end

/-! ## Orders and limits -/

/-- An order that compares ranks sorts by them. -/
theorem sorted_of_rank (β : Type*) [LinearOrder β] {before : α → α → Bool} {rank : α → β}
    (h : ∀ a b, before a b = true ↔ rank a ≤ rank b) (rows : List α) :
    (rows.insertionSort (before · ·)).Pairwise fun a b => before a b = true := by
  have htotal : Std.Total fun a b => before a b = true :=
    ⟨fun a b => (le_total (rank a) (rank b)).imp (h a b).mpr (h b a).mpr⟩
  have htrans : IsTrans α fun a b => before a b = true :=
    ⟨fun a b c hab hbc => (h a c).mpr (((h a b).mp hab).trans ((h b c).mp hbc))⟩
  exact List.pairwise_insertionSort (fun a b => before a b = true) rows

/-- Rows within a limit come before those beyond it. -/
theorem take_before {before : α → α → Prop} (hsorted : rows.Pairwise before) {n : ℕ} {x y : α} (hx : x ∈ rows.take n)
    (hy : y ∈ rows) (hout : y ∉ rows.take n) : before x y := by
  rw [← List.take_append_drop n rows] at hsorted hy
  have hbeyond : y ∈ rows.drop n := (List.mem_append.mp hy).resolve_left hout
  exact (List.pairwise_append.mp hsorted).2.2 x hx y hbeyond

/-- Rows are left out of a full answer only. -/
theorem length_take_of_left_out {n : ℕ} {y : α} (hy : y ∈ rows) (hout : y ∉ rows.take n) :
    (rows.take n).length = n := by
  rcases Nat.le_total n rows.length with hle | hge
  · exact List.length_take_of_le hle
  · rw [List.take_of_length_le hge] at hout
    exact absurd hy hout

variable [LinearOrder κ]

/-- A key is among the first `n` of sorted keys exactly when fewer than `n` are smaller. -/
theorem mem_take_iff {keys : List κ} (hsorted : keys.Pairwise (· < ·)) (n : ℕ) (k : κ) :
    k ∈ keys.take n ↔ k ∈ keys ∧ (keys.filter (· < k)).length < n := by
  induction keys generalizing n with
  | nil => simp
  | cons first later ih =>
    obtain ⟨hfirst, hlater⟩ := List.pairwise_cons.mp hsorted
    cases n with
    | zero => simp
    | succ n =>
      rw [List.take_succ_cons, List.mem_cons, List.mem_cons, ih hlater n]
      by_cases hk : k = first
      · subst hk
        have hnone : (k :: later).filter (· < k) = [] := by
          refine List.filter_eq_nil_iff.mpr fun j hj => ?_
          rcases List.mem_cons.mp hj with rfl | hbehind
          · simp
          · exact fun hlt => lt_asymm (of_decide_eq_true hlt) (hfirst j hbehind)
        rw [hnone]
        exact iff_of_true (Or.inl rfl) ⟨Or.inl rfl, Nat.zero_lt_succ n⟩
      · constructor
        · rintro (rfl | ⟨hmem, hcount⟩)
          · exact absurd rfl hk
          · have hlt : first < k := hfirst k hmem
            have hkept : (first :: later).filter (· < k) = first :: later.filter (· < k) :=
              List.filter_cons_of_pos (decide_eq_true hlt)
            rw [hkept, List.length_cons]
            exact ⟨Or.inr hmem, Nat.succ_lt_succ hcount⟩
        · rintro ⟨rfl | hmem, hcount⟩
          · exact absurd rfl hk
          · have hlt : first < k := hfirst k hmem
            have hkept : (first :: later).filter (· < k) = first :: later.filter (· < k) :=
              List.filter_cons_of_pos (decide_eq_true hlt)
            rw [hkept, List.length_cons] at hcount
            exact Or.inr ⟨hmem, Nat.lt_of_succ_lt_succ hcount⟩

/-- The keys of rows that are sorted by key first. -/
theorem sorted_keys {before : α → α → Prop} (hsorted : rows.Pairwise before)
    (hkey : ∀ x y, before x y → key x ≤ key y) : ((distinctOn key rows).map key).Pairwise (· < ·) := by
  have hle : ((distinctOn key rows).map key).Pairwise (· ≤ ·) :=
    List.pairwise_map.mpr ((hsorted.sublist (distinctOn_sublist key rows)).imp (hkey _ _))
  refine (hle.and (nodup_distinctOn key rows)).imp fun h => lt_of_le_of_ne h.1 h.2

end FragmentMemory.DistinctOn
