import Mathlib.Data.List.Lattice
import Mathlib.Data.List.Pairwise

/-! # Tables with unique indexes

A row occupies entries of the unique indexes of its table, and no two rows occupy an entry in
common.  A partial index is one in which some rows occupy nothing.  The statements of SQL that
keep the indexes are total; those that an index can refuse return an option.
-/
namespace FragmentMemory.UniqueIndexTable

variable {α υ : Type*}

/-- Rows in insertion order, no two of which occupy an index entry in common. -/
structure Table (entries : α → List υ) where
  rows : List α
  disjoint : rows.Pairwise fun r other => (entries r).Disjoint (entries other)

variable {entries : α → List υ}

namespace Table

/-- Two rows that occupy one entry are the same row. -/
theorem eq_of_entry (table : Table entries) {r other : α} (hr : r ∈ table.rows) (hother : other ∈ table.rows)
    {entry : υ} (hentry : entry ∈ entries r) (hentry' : entry ∈ entries other) : r = other := by
  by_contra hne
  have hsymm : Std.Symm fun x y : α => (entries x).Disjoint (entries y) := ⟨fun _ _ h => h.symm⟩
  have hdisjoint := table.disjoint.forall hr hother hne
  exact hdisjoint hentry hentry'

theorem ext {table other : Table entries} (h : table.rows = other.rows) : table = other := by
  cases table
  cases other
  cases h
  rfl

def empty : Table entries := ⟨[], List.Pairwise.nil⟩

/-- `UPDATE … SET` of columns that no unique index reads, on the rows that meet a condition. -/
def update (table : Table entries) (cond : α → Bool) (set : α → α)
    (hset : ∀ r, entries (set r) = entries r) : Table entries where
  rows := table.rows.map fun r => if cond r then set r else r
  disjoint := by
    refine List.pairwise_map.mpr (table.disjoint.imp fun {r other} h => ?_)
    have hsame : ∀ x, entries (if cond x then set x else x) = entries x := by
      intro x
      split
      · exact hset x
      · rfl
    rw [hsame, hsame]
    exact h

/-- `DELETE` of the rows that meet a condition. -/
def delete (table : Table entries) (cond : α → Bool) : Table entries where
  rows := table.rows.filter fun r => !cond r
  disjoint := table.disjoint.sublist List.filter_sublist

section Decidable
variable [DecidableEq υ]

/-- The row that occupies an index entry. -/
def holder (table : Table entries) (entry : υ) : Option α :=
  table.rows.find? fun r => decide (entry ∈ entries r)

/-- Whether a row may stand beside the others: none occupies an entry of it. -/
def Fits (entries : α → List υ) (others : List α) (r : α) : Prop := ∀ other ∈ others, ∀ entry ∈ entries other, entry ∉ entries r

instance (others : List α) (r : α) : Decidable (Fits entries others r) :=
  inferInstanceAs (Decidable (∀ other ∈ others, ∀ entry ∈ entries other, entry ∉ entries r))

/-- `INSERT`, refused when another row occupies an entry of the new one. -/
def insert (table : Table entries) (r : α) : Option (Table entries) :=
  if h : Fits entries table.rows r then
    some {
      rows := table.rows ++ [r]
      disjoint := by
        refine List.pairwise_append.mpr ⟨table.disjoint, List.pairwise_singleton _ _, ?_⟩
        rintro other hother x hx entry hentry hentry'
        rw [List.mem_singleton.mp hx] at hentry'
        exact h other hother entry hentry hentry' }
  else none

/-- `INSERT … ON CONFLICT (arbiter) DO UPDATE SET`. -/
def upsert (table : Table entries) (arbiter : υ) (r : α) (set : α → α)
    (hset : ∀ x, entries (set x) = entries x) : Option (Table entries) :=
  match table.holder arbiter with
  | some _ => some (table.update (fun x => decide (arbiter ∈ entries x)) set hset)
  | none => table.insert r

/-- `UPDATE` of the row at an entry that may change indexed columns, refused when another row
occupies an entry of the changed one. -/
def replace (table : Table entries) (entry : υ) (r : α) : Option (Table entries) :=
  if h : Fits entries (table.delete fun x => decide (entry ∈ entries x)).rows r then
    some {
      rows := table.rows.map fun x => if entry ∈ entries x then r else x
      disjoint := by
        refine List.pairwise_map.mpr ?_
        refine table.disjoint.imp_of_mem fun {x y} hx hy hxy => ?_
        have hfits : ∀ z ∈ table.rows, entry ∉ entries z → (entries z).Disjoint (entries r) := by
          intro z hz hentry e he he'
          have hkept : z ∈ (table.delete fun x => decide (entry ∈ entries x)).rows := by
            simpa [delete, hentry] using hz
          exact h z hkept e he he'
        by_cases hinx : entry ∈ entries x
        · have hiny : entry ∉ entries y := fun hiny => hxy hinx hiny
          rw [if_pos hinx, if_neg hiny]
          exact (hfits y hy hiny).symm
        · rw [if_neg hinx]
          by_cases hiny : entry ∈ entries y
          · rw [if_pos hiny]
            exact hfits x hx hinx
          · rw [if_neg hiny]
            exact hxy }
  else none

theorem holder_eq_some_iff (table : Table entries) {entry : υ} {r : α} :
    table.holder entry = some r ↔ r ∈ table.rows ∧ entry ∈ entries r := by
  constructor
  · intro h
    have hentry := List.find?_some (by exact h)
    exact ⟨List.mem_of_find?_eq_some h, of_decide_eq_true hentry⟩
  · rintro ⟨hmem, hentry⟩
    rcases hfound : table.holder entry with _ | found
    · have hnone := List.find?_eq_none.mp hfound r hmem
      exact absurd (decide_eq_true hentry) hnone
    · have hfoundMem := List.mem_of_find?_eq_some hfound
      have hfoundEntry := List.find?_some (by exact hfound)
      rw [table.eq_of_entry hfoundMem hmem (of_decide_eq_true hfoundEntry) hentry]

theorem holder_eq_none_iff (table : Table entries) {entry : υ} :
    table.holder entry = none ↔ ∀ r ∈ table.rows, entry ∉ entries r := by
  simp [holder, List.find?_eq_none]

/-- The two outcomes of an upsert: the conflicting row is changed, or the new row is added. -/
theorem upsert_cases {table next : Table entries} {arbiter : υ} {r : α} {set : α → α}
    {hset : ∀ x, entries (set x) = entries x} (h : table.upsert arbiter r set hset = some next) :
    (∃ held, table.holder arbiter = some held ∧
      next = table.update (fun x => decide (arbiter ∈ entries x)) set hset) ∨
    (table.holder arbiter = none ∧ table.insert r = some next) := by
  unfold upsert at h
  rcases hheld : table.holder arbiter with _ | held
  · rw [hheld] at h
    exact Or.inr ⟨rfl, h⟩
  · rw [hheld] at h
    exact Or.inl ⟨held, rfl, (Option.some.inj h).symm⟩

end Decidable

theorem mem_update_iff (table : Table entries) {cond : α → Bool} {set : α → α}
    (hset : ∀ r, entries (set r) = entries r) {r : α} :
    r ∈ (table.update cond set hset).rows ↔
      ∃ before ∈ table.rows, r = if cond before then set before else before := by
  simp only [update, List.mem_map]
  exact ⟨fun ⟨x, hx, h⟩ => ⟨x, hx, h.symm⟩, fun ⟨x, hx, h⟩ => ⟨x, hx, h.symm⟩⟩

theorem mem_delete_iff (table : Table entries) {cond : α → Bool} {r : α} :
    r ∈ (table.delete cond).rows ↔ r ∈ table.rows ∧ cond r = false := by
  simp [delete]

theorem rows_insert [DecidableEq υ] {table next : Table entries} {r : α}
    (h : table.insert r = some next) : next.rows = table.rows ++ [r] := by
  unfold insert at h
  split at h
  · rw [← Option.some.inj h]
  · cases h

/-- The row at an entry after an update. -/
theorem holder_update [DecidableEq υ] (table : Table entries) {cond : α → Bool} {set : α → α}
    (hset : ∀ r, entries (set r) = entries r) (entry : υ) :
    (table.update cond set hset).holder entry = (table.holder entry).map fun r => if cond r then set r else r := by
  have hsame : ∀ r, entries (if cond r then set r else r) = entries r := by
    intro r
    split
    · exact hset r
    · rfl
  simp only [holder, update, List.find?_map, Function.comp_def, hsame]

/-- The row at an entry after an insert. -/
theorem holder_insert [DecidableEq υ] {table next : Table entries} {r : α} (h : table.insert r = some next)
    (entry : υ) : next.holder entry = (table.holder entry).or (if entry ∈ entries r then some r else none) := by
  simp only [holder, rows_insert h, List.find?_append, List.find?_singleton, decide_eq_true_eq]

theorem rows_replace [DecidableEq υ] {table next : Table entries} {entry : υ} {r : α}
    (h : table.replace entry r = some next) :
    next.rows = table.rows.map fun x => if entry ∈ entries x then r else x := by
  unfold replace at h
  split at h
  · rw [← Option.some.inj h]
  · cases h

theorem mem_iff_of_filter_eq {xs ys : List α} {kept : α → Bool}
    (h : xs.filter kept = ys.filter kept) {x : α} (hx : kept x = true) : x ∈ xs ↔ x ∈ ys := by
  have hxs : x ∈ xs ↔ x ∈ xs.filter kept := by simp [List.mem_filter, hx]
  have hys : x ∈ ys ↔ x ∈ ys.filter kept := by simp [List.mem_filter, hx]
  rw [hxs, hys, h]

/-- A map that fixes what a filter keeps and adds nothing to it. -/
theorem filter_map_eq {rows : List α} {g : α → α} {kept : α → Bool}
    (hfix : ∀ r ∈ rows, kept r = true → g r = r) (hout : ∀ r ∈ rows, kept r = false → kept (g r) = false) :
    (rows.map g).filter kept = rows.filter kept := by
  induction rows with
  | nil => rfl
  | cons r later ih =>
    have hlater := ih (fun x hx => hfix x (List.mem_cons_of_mem r hx))
      fun x hx => hout x (List.mem_cons_of_mem r hx)
    rcases hkept : kept r with _ | _
    · have hr := hout r List.mem_cons_self hkept
      simp only [List.map_cons, List.filter_cons, hr, hkept, hlater, Bool.false_eq_true, if_false]
    · have hr := hfix r List.mem_cons_self hkept
      simp only [List.map_cons, List.filter_cons, hr, hkept, hlater, if_true]

/-- Rows that a statement does not change are the same after it. -/
theorem filter_update (table : Table entries) {cond : α → Bool} {set : α → α}
    (hset : ∀ r, entries (set r) = entries r) (kept : α → Bool)
    (hkept : ∀ r, kept (set r) = kept r) (houtside : ∀ r ∈ table.rows, cond r = true → kept r = false) :
    (table.update cond set hset).rows.filter kept = table.rows.filter kept := by
  refine filter_map_eq ?_ ?_
  · intro r hr hk
    have hcond : ¬ cond r = true := by
      intro hc
      rw [houtside r hr hc] at hk
      cases hk
    exact if_neg hcond
  · intro r _ hk
    split
    · rw [hkept, hk]
    · exact hk

theorem filter_replace [DecidableEq υ] {table next : Table entries} {entry : υ} {r : α}
    (h : table.replace entry r = some next) {kept : α → Bool} (hr : kept r = false)
    (houtside : ∀ x ∈ table.rows, entry ∈ entries x → kept x = false) :
    next.rows.filter kept = table.rows.filter kept := by
  rw [rows_replace h]
  refine filter_map_eq ?_ ?_
  · intro x hx hk
    have hentry : entry ∉ entries x := by
      intro hmem
      rw [houtside x hx hmem] at hk
      cases hk
    exact if_neg hentry
  · intro x _ hk
    split
    · exact hr
    · exact hk

theorem filter_delete (table : Table entries) {cond : α → Bool} (kept : α → Bool)
    (houtside : ∀ r ∈ table.rows, cond r = true → kept r = false) :
    (table.delete cond).rows.filter kept = table.rows.filter kept := by
  simp only [delete, List.filter_filter]
  refine List.filter_congr fun r hr => ?_
  by_cases hwhere : cond r = true
  · simp [hwhere, houtside r hr hwhere]
  · simp [hwhere]

end Table
end FragmentMemory.UniqueIndexTable
