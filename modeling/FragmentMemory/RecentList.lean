import Mathlib.Data.List.Basic

/-! # Bounded lists of recent items

New items go to the end, and the oldest ones make room.  An item that was recorded and is not listed was followed by
enough later ones to fill the list.
-/
namespace FragmentMemory.RecentList

variable {α : Type*}

/-- The newest entries of a list, at most `cap` many. -/
def newest (cap : ℕ) (entries : List α) : List α := entries.drop (entries.length - cap)

/-- What is listed of the items that were recorded, the oldest first. -/
structure Recent (cap : ℕ) (recorded entries : List α) : Prop where
  order : entries.Sublist recorded
  covers : ∀ item ∈ recorded, item ∈ entries ∨
    cap ≤ entries.length ∧ ∃ before after, recorded = before ++ item :: after ∧ entries.Sublist after

theorem length_newest_le (cap : ℕ) (entries : List α) : (newest cap entries).length ≤ cap := by
  rw [newest, List.length_drop]
  omega

theorem newest_sublist (cap : ℕ) (entries : List α) : (newest cap entries).Sublist entries :=
  List.drop_sublist _ _

theorem recent_nil (cap : ℕ) : Recent cap ([] : List α) [] where
  order := List.Sublist.refl []
  covers := nofun

variable {cap : ℕ} {recorded entries : List α}

/-- A missing item stays one while the list and the records grow together. -/
theorem Recent.later (h : Recent cap recorded entries) {item : α} (hitem : item ∈ recorded) {listed later : List α}
    (hlisted : listed.Sublist later) :
    item ∈ entries ++ listed ∨ cap ≤ (entries ++ listed).length ∧
      ∃ before after, recorded ++ later = before ++ item :: after ∧ (entries ++ listed).Sublist after := by
  rcases h.covers item hitem with hpresent | ⟨hfull, before, after, rfl, hafter⟩
  · exact Or.inl (List.mem_append_left listed hpresent)
  · refine Or.inr ⟨?_, before, after ++ later, by simp, hafter.append hlisted⟩
    rw [List.length_append]
    omega

/-- A new item at the end. -/
theorem Recent.push (h : Recent cap recorded entries) (item : α) :
    Recent cap (recorded ++ [item]) (entries ++ [item]) where
  order := h.order.append (List.Sublist.refl [item])
  covers := by
    intro other hother
    rcases List.mem_append.mp hother with hold | hnew
    · exact h.later hold (List.Sublist.refl [item])
    · exact Or.inl (List.mem_append_right entries hnew)

/-- An item that is listed already. -/
theorem Recent.known (h : Recent cap recorded entries) {item : α} (hitem : item ∈ entries) :
    Recent cap (recorded ++ [item]) entries where
  order := h.order.trans (List.sublist_append_left recorded [item])
  covers := by
    intro other hother
    rcases List.mem_append.mp hother with hold | hnew
    · have hlater := @Recent.later α cap recorded entries h other hold [] [item] (List.nil_sublist _)
      rwa [List.append_nil] at hlater
    · rw [List.mem_singleton.mp hnew]
      exact Or.inl hitem

/-- The oldest entries make room. -/
theorem Recent.newest (h : Recent cap recorded entries) : Recent cap recorded (newest cap entries) where
  order := (newest_sublist cap entries).trans h.order
  covers := by
    intro item hitem
    have hlength : (RecentList.newest cap entries).length = entries.length - (entries.length - cap) := List.length_drop
    rcases h.covers item hitem with hpresent | ⟨hfull, before, after, hrecorded, hafter⟩
    · by_cases hkept : item ∈ RecentList.newest cap entries
      · exact Or.inl hkept
      · right
        -- the item is among the entries that are dropped, and the others stand after it
        have hdropped : item ∈ entries.take (entries.length - cap) := by
          rw [← List.take_append_drop (entries.length - cap) entries] at hpresent
          exact (List.mem_append.mp hpresent).resolve_right hkept
        have hpositive : 0 < (entries.take (entries.length - cap)).length := List.length_pos_of_mem hdropped
        rw [List.length_take] at hpositive
        refine ⟨by omega, ?_⟩
        obtain ⟨older, newer, hsplit⟩ := List.append_of_mem hdropped
        have hentries : entries = older ++ item :: (newer ++ RecentList.newest cap entries) := by
          calc entries = entries.take (entries.length - cap) ++ RecentList.newest cap entries :=
                (List.take_append_drop _ entries).symm
            _ = older ++ item :: (newer ++ RecentList.newest cap entries) := by
              rw [hsplit, List.append_assoc, List.cons_append]
        have htail : (item :: (newer ++ RecentList.newest cap entries)).Sublist recorded := by
          have hown := List.sublist_append_right older (item :: (newer ++ RecentList.newest cap entries))
          rw [← hentries] at hown
          exact hown.trans h.order
        obtain ⟨first, second, rfl, hfirst, hsecond⟩ := List.cons_sublist_iff.mp htail
        obtain ⟨before, skipped, rfl⟩ := List.append_of_mem hfirst
        refine ⟨before, skipped ++ second, by simp, ?_⟩
        exact (List.sublist_append_right newer _).trans (hsecond.trans (List.sublist_append_right skipped second))
    · refine Or.inr ⟨by omega, before, after, hrecorded, (newest_sublist cap entries).trans hafter⟩

end FragmentMemory.RecentList
