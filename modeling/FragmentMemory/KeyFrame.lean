import FragmentMemory.MemoryRememberer

/-! # Frames by key

What the statements leave alone when every row that they select has a key of one kind: the rows of the
other keys and the links at them.  The relation is reflexive and transitive, and each statement keeps it
under a condition on the rows that it selects.
-/
namespace FragmentMemory.KeyFrame
open ApiKeyStore FragmentTables FragmentWriter FragmentIndex LinkStore MemoryRememberer UniqueIndexTable

/-- The id of a row with a key out of the frame. -/
def OutId (out : Option KeyId → Bool) (store : Store) (id : FragmentId) : Prop :=
  ∃ f ∈ store.fragments.rows, out f.keyId = true ∧ f.id = id

instance (out : Option KeyId → Bool) (store : Store) (id : FragmentId) : Decidable (OutId out store id) :=
  inferInstanceAs (Decidable (∃ f ∈ store.fragments.rows, out f.keyId = true ∧ f.id = id))

def TouchesOut (out : Option KeyId → Bool) (store : Store) (l : Link) : Prop :=
  OutId out store l.fromId ∨ OutId out store l.toId

instance (out : Option KeyId → Bool) (store : Store) (l : Link) : Decidable (TouchesOut out store l) :=
  inferInstanceAs (Decidable (_ ∨ _))

/-- No row with a key out of the frame and no link at one differs. -/
structure Untouched (out : Option KeyId → Bool) (before after : Store) : Prop where
  rows : after.fragments.rows.filter (fun f => out f.keyId) = before.fragments.rows.filter fun f => out f.keyId
  links : ∀ l, TouchesOut out before l → (l ∈ after.links.rows ↔ l ∈ before.links.rows)

variable {out : Option KeyId → Bool}

/-- The id of a row in the frame is not the id of one out of it. -/
theorem not_outId {store : Store} {f : Fragment} {id : FragmentId} (hf : f ∈ store.fragments.rows) (hid : f.id = id)
    (hin : out f.keyId = false) : ¬ OutId out store id := by
  intro h
  obtain ⟨g, hg, hout, hgid⟩ := h
  have hsame := eq_of_id _ hg hf (hgid.trans hid.symm)
  rw [hsame, hin] at hout
  cases hout

namespace Untouched

theorem mem_iff {before after : Store} (h : Untouched out before after) {f : Fragment} (hout : out f.keyId = true) :
    f ∈ after.fragments.rows ↔ f ∈ before.fragments.rows :=
  Table.mem_iff_of_filter_eq h.rows hout

theorem outId_iff {before after : Store} (h : Untouched out before after) {id : FragmentId} :
    OutId out after id ↔ OutId out before id := by
  constructor
  · intro hout
    obtain ⟨f, hf, hkey, hid⟩ := hout
    exact ⟨f, (h.mem_iff hkey).mp hf, hkey, hid⟩
  · intro hout
    obtain ⟨f, hf, hkey, hid⟩ := hout
    exact ⟨f, (h.mem_iff hkey).mpr hf, hkey, hid⟩

theorem touchesOut_iff {before after : Store} (h : Untouched out before after) {l : Link} :
    TouchesOut out after l ↔ TouchesOut out before l :=
  or_congr h.outId_iff h.outId_iff

theorem of_eq {before after : Store} (hfragments : after.fragments = before.fragments)
    (hlinks : after.links = before.links) : Untouched out before after where
  rows := by rw [hfragments]
  links l _ := by rw [hlinks]

theorem refl (store : Store) : Untouched out store store := of_eq rfl rfl

theorem trans {first second third : Store} (h : Untouched out first second) (h' : Untouched out second third) :
    Untouched out first third where
  rows := h'.rows.trans h.rows
  links l hl := (h'.links l (h.touchesOut_iff.mpr hl)).trans (h.links l hl)

/-- A loop, by induction on its items; each step may use what the steps before it have left alone. -/
theorem foldl {α : Type*} {items : List α} {op : Store → α → Store} {start : Store}
    (h : ∀ current, Untouched out start current → ∀ item ∈ items, Untouched out current (op current item)) :
    Untouched out start (items.foldl op start) := by
  refine List.foldlRecOn (motive := fun current : Store => Untouched out start current) _ _ (refl start)
    fun current hcurrent item hitem => ?_
  exact hcurrent.trans (h current hcurrent item hitem)

end Untouched

theorem untouched_updateFragments {store : Store} {cond : Fragment → Bool} {change : ColumnUpdate}
    (hcond : ∀ f ∈ store.fragments.rows, cond f = true → out f.keyId = false) :
    Untouched out store (store.updateFragments cond change) where
  rows := by
    refine store.fragments.filter_update change.entries_set (fun f => out f.keyId) ?_ hcond
    intro f
    simp only [change.keyId_set]
  links _ _ := Iff.rfl

/-- An update of the row of one id. -/
theorem untouched_updateById {store : Store} {id : FragmentId} {cond : Fragment → Bool} {change : ColumnUpdate}
    (hid : ¬ OutId out store id) (hcond : ∀ f, cond f = true → f.id = id) :
    Untouched out store (store.updateFragments cond change) := by
  refine untouched_updateFragments fun f hf hc => ?_
  by_contra hout
  exact hid ⟨f, hf, by simpa using hout, hcond f hc⟩

theorem untouched_updateLinks {store : Store} {cond : Link → Bool} {set : Link → Link}
    (hset : ∀ l, (set l).entries = l.entries)
    (hcond : ∀ l ∈ store.links.rows, cond l = true → ¬ TouchesOut out store l) :
    Untouched out store { store with links := store.links.update cond set hset } where
  rows := rfl
  links l hl := by
    have hkept : ∀ x, decide (TouchesOut out store (set x)) = decide (TouchesOut out store x) := by
      intro x
      have hends := hset x
      simp only [Link.entries, List.cons.injEq, Prod.mk.injEq, and_true] at hends
      have hsame : TouchesOut out store (set x) ↔ TouchesOut out store x := by
        simp only [TouchesOut, hends.1, hends.2]
      exact decide_eq_decide.mpr hsame
    have hfilter := store.links.filter_update hset (fun x => decide (TouchesOut out store x)) hkept
      (fun x hx hc => decide_eq_false (hcond x hx hc))
    exact Table.mem_iff_of_filter_eq hfilter (decide_eq_true hl)

theorem untouched_deleteLinks {store : Store} {cond : Link → Bool}
    (hcond : ∀ l ∈ store.links.rows, cond l = true → ¬ TouchesOut out store l) :
    Untouched out store { store with links := store.links.delete cond } where
  rows := rfl
  links l hl := by
    simp only [Table.mem_delete_iff, and_iff_left_iff_imp]
    intro hmem
    exact Bool.eq_false_iff.mpr fun hc => hcond l hmem hc hl

/-- A link between rows in the frame. -/
theorem untouched_createLink {store next : Store} {fromId toId : FragmentId} {relationType : RelationType} {weight : ℚ}
    (hfrom : ¬ OutId out store fromId) (hto : ¬ OutId out store toId)
    (h : createLink store fromId toId relationType weight = some next) : Untouched out store next := by
  obtain ⟨-, -, links, hupsert, rfl⟩ := createLink_eq_some h
  have harray : ∀ (current : Store) (id other : FragmentId), ¬ OutId out current id →
      Untouched out current (linkArray current id other) := by
    intro current id other hid
    refine untouched_updateById hid fun f hcond => ?_
    simp only [Bool.and_eq_true, decide_eq_true_eq] at hcond
    exact hcond.1
  have hlinks : Untouched out store { store with links := links } := by
    rcases Table.upsert_cases hupsert with ⟨held, -, rfl⟩ | ⟨-, hinsert⟩
    · refine untouched_updateLinks _ ?_
      intro l _ hcond
      simp only [Link.entries, List.mem_singleton, decide_eq_true_eq, Prod.mk.injEq] at hcond
      rw [hcond.1] at hfrom
      rw [hcond.2] at hto
      exact not_or.mpr ⟨hfrom, hto⟩
    · refine ⟨rfl, fun l hl => ?_⟩
      simp only [Table.rows_insert hinsert, List.mem_append, List.mem_singleton]
      refine ⟨fun h => h.resolve_right fun hnew => ?_, Or.inl⟩
      subst hnew
      exact not_or.mpr ⟨hfrom, hto⟩ hl
  have hfirst := hlinks.trans (harray _ fromId toId (hlinks.outId_iff.not.mpr hfrom))
  exact hfirst.trans (harray _ toId fromId (hfirst.outId_iff.not.mpr hto))

theorem untouched_tryLink {store : Store} {fromId toId : FragmentId} {relationType : RelationType} {weight : ℚ}
    (hfrom : ¬ OutId out store fromId) (hto : ¬ OutId out store toId) :
    Untouched out store (tryLink store fromId toId relationType weight) := by
  rw [tryLink]
  rcases hcreate : createLink store fromId toId relationType weight with _ | next
  · exact Untouched.refl store
  · exact untouched_createLink hfrom hto hcreate

/-- Links from a row in the frame to others in it. -/
theorem untouched_linkAll {store start : Store} {id : FragmentId} {found : List Fragment}
    {relationType : RelationType} {weight : Fragment → ℚ} (hstart : Untouched out store start)
    (hid : ¬ OutId out store id) (hfound : ∀ g ∈ found, ¬ OutId out store g.id) :
    Untouched out start (found.foldl (fun current g => tryLink current id g.id relationType (weight g)) start) := by
  refine Untouched.foldl fun current hcurrent g hg => ?_
  have hboth := hstart.trans hcurrent
  exact untouched_tryLink (hboth.outId_iff.not.mpr hid) (hboth.outId_iff.not.mpr (hfound g hg))

/-- The upsert of a row in the frame. -/
theorem untouched_upsertRow {now : Time} {store next : Store} {row : Fragment} {id : FragmentId}
    (hrow : out row.keyId = false) (h : upsertRow now store row = some (next, id)) : Untouched out store next := by
  rcases upsertRow_cases h with ⟨held, -, -, -, -, rfl⟩ | ⟨-, -, fragments, hinsert, rfl⟩
  · refine untouched_updateFragments fun f _ hcond => ?_
    have hkey := (contentHash_mem_entries.mp (of_decide_eq_true hcond)).1
    rw [← hkey, hrow]
  · refine ⟨?_, fun _ _ => Iff.rfl⟩
    simp only [Table.rows_insert hinsert, List.filter_append, List.filter_singleton, hrow]
    simp

end FragmentMemory.KeyFrame
