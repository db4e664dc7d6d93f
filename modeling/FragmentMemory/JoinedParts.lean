import Mathlib.Data.List.Infix
import Mathlib.Algebra.GroupWithZero.Nat

/-! # A list as parts with gaps between them

A list is put together of parts, with a gap between neighbours that a rule admits.
-/
namespace FragmentMemory.JoinedParts

variable {α : Type*}

inductive JoinsBy (gap : List α → List α → List α → Prop) : List (List α) → List α → Prop
  | nil : JoinsBy gap [] []
  | single (part : List α) : JoinsBy gap [part] part
  | cons {part between next rest : List α} {later : List (List α)} :
      gap part between next → JoinsBy gap (next :: later) rest →
        JoinsBy gap (part :: next :: later) (part ++ between ++ rest)

namespace JoinsBy

variable {gap : List α → List α → List α → Prop} {parts : List (List α)} {whole : List α}

theorem part_of (h : JoinsBy gap parts whole) : ∀ part ∈ parts, part <:+: whole := by
  induction h with
  | nil => exact fun part hpart => absurd hpart List.not_mem_nil
  | single part =>
    intro other hother
    rw [List.mem_singleton.mp hother]
  | @cons part between next rest later _ _ ih =>
    intro other hother
    rcases List.mem_cons.mp hother with rfl | hrest
    · exact ⟨[], between ++ rest, by rw [List.nil_append, List.append_assoc]⟩
    · exact (ih other hrest).trans (List.suffix_append _ _).isInfix

/-- The first part grows to the front. -/
theorem append_left {first front : List α} {later : List (List α)}
    (hgap : ∀ between next, gap first between next →
      gap (front ++ first) between next) (h : JoinsBy gap (first :: later) whole) :
    JoinsBy gap ((front ++ first) :: later) (front ++ whole) := by
  cases h with
  | single => exact .single _
  | cons hbetween hrest =>
    rw [← List.append_assoc, ← List.append_assoc]
    exact .cons (hgap _ _ hbetween) hrest

/-- Two joined lists are joined by a gap that fits between any two parts. -/
theorem append {between : List α} (hgap : ∀ part next, gap part between next) {others : List (List α)} {other : List α}
    (hothers : others ≠ []) (h : JoinsBy gap parts whole) (h' : JoinsBy gap others other) (hparts : parts ≠ []) :
    JoinsBy gap (parts ++ others) (whole ++ between ++ other) := by
  obtain ⟨first, later, rfl⟩ := List.exists_cons_of_ne_nil hothers
  induction h with
  | nil => exact absurd rfl hparts
  | single part => exact .cons (hgap part first) h'
  | cons hbetween _ ih =>
    rw [List.append_assoc, List.append_assoc, ← List.append_assoc _ _ other]
    exact .cons hbetween (ih (List.cons_ne_nil _ _))

/-- What the gaps are free of is found in the parts. -/
theorem countP_eq {accepts : α → Bool}
    (hgap : ∀ part between next, gap part between next →
      ∀ a ∈ between, accepts a = false) (h : JoinsBy gap parts whole) :
    whole.countP accepts = (parts.map (List.countP accepts)).sum := by
  induction h with
  | nil => rfl
  | single part => rw [List.map_singleton, List.sum_singleton]
  | cons hbetween _ ih =>
    have hnone := List.countP_eq_zero.mpr fun a ha => Bool.eq_false_iff.mp (hgap _ _ _ hbetween a ha)
    rw [List.countP_append, List.countP_append, hnone, Nat.add_zero, ih]
    simp only [List.map_cons, List.sum_cons]

end JoinsBy
end FragmentMemory.JoinedParts
