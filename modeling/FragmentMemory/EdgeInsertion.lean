import Mathlib.Data.List.Induction
import Mathlib.Logic.Relation

/-! # Edges added to a graph

A list of edges is added to a relation.  None of them then lies on a cycle if and only if each of them, when
it is added, finds no way back from its end to its start over the relation and the edges before it.
-/
namespace FragmentMemory.EdgeInsertion
open Relation

variable {α : Type*} {R : α → α → Prop}

/-- A relation with additional edges. -/
def WithEdges (R : α → α → Prop) (edges : List (α × α)) (a b : α) : Prop := R a b ∨ (a, b) ∈ edges

/-- No edge of the list leads back to its start. -/
def NoneReturns (R : α → α → Prop) (edges : List (α × α)) : Prop :=
  ∀ edge ∈ edges, ¬ ReflTransGen (WithEdges R edges) edge.2 edge.1

/-- No edge of the list is added where the relation and the edges before it lead from its end to its start. -/
def AddedInOrder (R : α → α → Prop) (edges : List (α × α)) : Prop :=
  ∀ before edge after, edges = before ++ edge :: after → ¬ ReflTransGen (WithEdges R before) edge.2 edge.1

theorem withEdges_mono {edges more : List (α × α)} (h : ∀ edge ∈ edges, edge ∈ more) {a b : α}
    (hab : ReflTransGen (WithEdges R edges) a b) : ReflTransGen (WithEdges R more) a b := by
  have hstep : WithEdges R edges ≤ WithEdges R more := fun _ _ hstep => hstep.imp_right (h _)
  exact ReflTransGen.mono hstep a b hab

/-- A way over one more edge, up to its first and from its last use of the edge. -/
theorem reflTransGen_concat {edges : List (α × α)} {edge : α × α} {a b : α}
    (h : ReflTransGen (WithEdges R (edges ++ [edge])) a b) :
    ReflTransGen (WithEdges R edges) a b ∨
      ReflTransGen (WithEdges R edges) a edge.1 ∧ ReflTransGen (WithEdges R edges) edge.2 b := by
  induction h with
  | refl => exact Or.inl ReflTransGen.refl
  | @tail b c _ hstep ih =>
    have hcases : WithEdges R edges b c ∨ (b, c) = edge := by
      rcases hstep with hstep | hmem
      · exact Or.inl (Or.inl hstep)
      · exact (List.mem_append.mp hmem).imp Or.inr List.mem_singleton.mp
    rcases hcases with hold | hnew
    · exact ih.imp (fun hab => hab.tail hold) fun hab => ⟨hab.1, hab.2.tail hold⟩
    · have hstart : b = edge.1 := congrArg Prod.fst hnew
      have hend : c = edge.2 := congrArg Prod.snd hnew
      rw [hstart] at ih
      rw [hend]
      refine Or.inr ⟨?_, ReflTransGen.refl⟩
      exact ih.elim (fun hab => hab) fun hab => hab.1

/-- One more edge keeps that none returns when there is no way back from its end to its start. -/
theorem noneReturns_concat {edges : List (α × α)} {edge : α × α} (h : NoneReturns R edges)
    (hedge : ¬ ReflTransGen (WithEdges R edges) edge.2 edge.1) : NoneReturns R (edges ++ [edge]) := by
  intro other hother hreturn
  rcases List.mem_append.mp hother with hold | hnew
  · rcases reflTransGen_concat hreturn with hback | ⟨hto, hfrom⟩
    · exact h other hold hback
    · have hother : WithEdges R edges other.1 other.2 := Or.inr hold
      exact hedge ((hfrom.tail hother).trans hto)
  · rw [List.mem_singleton.mp hnew] at hreturn
    rcases reflTransGen_concat hreturn with hback | ⟨hback, -⟩
    · exact hedge hback
    · exact hedge hback

theorem AddedInOrder.init {edges : List (α × α)} {edge : α × α} (h : AddedInOrder R (edges ++ [edge])) :
    AddedInOrder R edges ∧ ¬ ReflTransGen (WithEdges R edges) edge.2 edge.1 := by
  refine ⟨fun before other after hsplit => ?_, h edges edge [] rfl⟩
  refine h before other (after ++ [edge]) ?_
  rw [hsplit, List.append_assoc, List.cons_append]

/-- Adding the edges closes no cycle exactly when no single addition does. -/
theorem noneReturns_iff (edges : List (α × α)) : NoneReturns R edges ↔ AddedInOrder R edges := by
  constructor
  · rintro h before edge after rfl hreturn
    have hmem : edge ∈ before ++ edge :: after := List.mem_append_right _ List.mem_cons_self
    exact h edge hmem (withEdges_mono (fun other hother => List.mem_append_left _ hother) hreturn)
  · intro h
    induction edges using List.reverseRecOn with
    | nil => exact fun edge hedge => by cases hedge
    | append_singleton edges edge ih =>
      obtain ⟨hinit, hlast⟩ := h.init
      exact noneReturns_concat (ih hinit) hlast

end FragmentMemory.EdgeInsertion
