import Mathlib.Data.List.Basic

/-! # Greedy chunks

A list is cut from the front: an item goes to the open chunk unless the open chunk has to be closed
before it.
-/
namespace FragmentMemory.GreedyChunks

variable {α : Type*} (closes : List α → α → Bool)

/-- The chunks of an open chunk and the items that follow it. -/
def splitFrom : List α → List α → List (List α)
  | chunk, [] => if chunk.isEmpty then [] else [chunk]
  | chunk, item :: later =>
    if closes chunk item then chunk :: splitFrom [item] later else splitFrom (chunk ++ [item]) later

variable {closes}

/-- Nothing is lost, repeated or moved. -/
theorem flatten_splitFrom (chunk items : List α) : (splitFrom closes chunk items).flatten = chunk ++ items := by
  induction items generalizing chunk with
  | nil =>
    cases chunk with
    | nil => rfl
    | cons first rest => simp [splitFrom]
  | cons item later ih =>
    simp only [splitFrom]
    split
    · rw [List.flatten_cons, ih, List.singleton_append]
    · rw [ih, List.append_assoc, List.singleton_append]

/-- What holds of a single item and of a chunk with an item that does not close it holds of every
chunk. -/
theorem forall_splitFrom {P : List α → Prop} (hopen : ∀ item, closes [] item = false) (hsingle : ∀ item, P [item])
    (hpush : ∀ chunk item, P chunk → closes chunk item = false → P (chunk ++ [item])) {chunk items : List α}
    (hchunk : chunk ≠ [] → P chunk) : ∀ part ∈ splitFrom closes chunk items, P part := by
  induction items generalizing chunk with
  | nil =>
    intro part hpart
    simp only [splitFrom] at hpart
    split at hpart
    · cases hpart
    · rename_i hfilled
      rw [List.mem_singleton.mp hpart]
      refine hchunk fun hempty => hfilled ?_
      rw [hempty]
      rfl
  | cons item later ih =>
    intro part hpart
    simp only [splitFrom] at hpart
    split at hpart
    · rename_i hcloses
      have hfilled : chunk ≠ [] := by
        intro hempty
        rw [hempty, hopen item] at hcloses
        cases hcloses
      rcases List.mem_cons.mp hpart with rfl | hrest
      · exact hchunk hfilled
      · exact ih (fun _ => hsingle item) part hrest
    · rename_i hcloses
      refine ih (fun _ => ?_) part hpart
      by_cases hempty : chunk = []
      · rw [hempty, List.nil_append]
        exact hsingle item
      · exact hpush chunk item (hchunk hempty) (Bool.not_eq_true _ ▸ hcloses)

end FragmentMemory.GreedyChunks
