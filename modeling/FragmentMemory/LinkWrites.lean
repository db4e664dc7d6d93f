import FragmentMemory.LinkGrowth

/-! # Links as they are written

The row that joins two fragments is found by its ends.  Here is what the statements that write links make of
it: the relation is the one of a pair that was written last, and `deleted_at` stays as it was.
-/
namespace FragmentMemory.LinkWrites
open FragmentTables LinkStore LinkGrowth UniqueIndexTable

theorem ends_mem_entries {l : Link} {ends : FragmentId × FragmentId} :
    ends ∈ l.entries ↔ ends = (l.fromId, l.toId) := List.mem_singleton

/-- The row at the ends after an upsert of a row. -/
theorem holder_upsertLink {links next : LinkTable} {row : Link} {set : Link → Link}
    {hset : ∀ l, (set l).entries = l.entries}
    (h : links.upsert (row.fromId, row.toId) row set hset = some next) (ends : FragmentId × FragmentId) :
    next.holder ends = if ends = (row.fromId, row.toId) then some ((links.holder ends).elim row set)
      else links.holder ends := by
  rcases Table.upsert_cases h with ⟨held, hheld, rfl⟩ | ⟨hnone, hinsert⟩
  · rw [Table.holder_update]
    by_cases hends : ends = (row.fromId, row.toId)
    · have hentry := ((Table.holder_eq_some_iff _).mp hheld).2
      rw [if_pos hends, hends, hheld, Option.map_some, Option.elim_some]
      simp only [hentry, decide_true, if_true]
    · rw [if_neg hends]
      cases hother : links.holder ends with
      | none => rfl
      | some other =>
        have hapart : (row.fromId, row.toId) ∉ other.entries := by
          intro hentry
          have hsame := ends_mem_entries.mp ((Table.holder_eq_some_iff _).mp hother).2
          exact hends (hsame.trans (ends_mem_entries.mp hentry).symm)
        simp only [Option.map_some, hapart, decide_false, Bool.false_eq_true, if_false]
  · rw [Table.holder_insert hinsert]
    by_cases hends : ends = (row.fromId, row.toId)
    · rw [if_pos hends, if_pos (ends_mem_entries.mpr hends), hends, hnone]
      rfl
    · have hapart : ends ∉ row.entries := fun hentry => hends (ends_mem_entries.mp hentry)
      rw [if_neg hends, if_neg hapart, Option.or_none]

def ends (pair : LinkPair) : FragmentId × FragmentId := (pair.fromId, pair.toId)

/-- The pairs are written, in some order. -/
structure Written (pairs : List LinkPair) (before after : LinkTable) : Prop where
  kept : ∀ e, e ∉ pairs.map ends → after.holder e = before.holder e
  written : ∀ e ∈ pairs.map ends, ∃ l, after.holder e = some l ∧
    l.deletedAt = (before.holder e).bind Link.deletedAt ∧ ∃ pair ∈ pairs, ends pair = e ∧ l.relationType = pair.relationType

namespace Written

theorem refl (links : LinkTable) : Written [] links links where
  kept _ _ := rfl
  written e he := by cases he

theorem trans {pairs later : List LinkPair} {first second third : LinkTable} (h : Written pairs first second)
    (h' : Written later second third) : Written (pairs ++ later) first third where
  kept e he := by
    rw [List.map_append, List.mem_append, not_or] at he
    rw [h'.kept e he.2, h.kept e he.1]
  written e he := by
    by_cases hlater : e ∈ later.map ends
    · obtain ⟨l, hl, hdeleted, pair, hpair, hends, hrelation⟩ := h'.written e hlater
      refine ⟨l, hl, hdeleted.trans ?_, pair, List.mem_append_right _ hpair, hends, hrelation⟩
      by_cases hearlier : e ∈ pairs.map ends
      · obtain ⟨m, hm, hkept, -⟩ := h.written e hearlier
        rw [hm, Option.bind_some, hkept]
      · rw [h.kept e hearlier]
    · rw [List.map_append, List.mem_append, or_iff_left hlater] at he
      obtain ⟨l, hl, hdeleted, pair, hpair, hends, hrelation⟩ := h.written e he
      exact ⟨l, (h'.kept e hlater).trans hl, hdeleted, pair, List.mem_append_left _ hpair, hends, hrelation⟩

/-- The upsert of a pair. -/
theorem of_upsert {links next : LinkTable} {pair : LinkPair} {weight : ℚ} {row : Link}
    {hset : ∀ l, (renewLink pair.relationType weight l).entries = l.entries} (hends : (row.fromId, row.toId) = ends pair)
    (hrelation : row.relationType = pair.relationType) (hlive : row.deletedAt = none)
    (h : links.upsert (row.fromId, row.toId) row (renewLink pair.relationType weight) hset = some next) :
    Written [pair] links next where
  kept e he := by
    have hne : e ≠ (row.fromId, row.toId) := by
      rw [hends]
      exact fun hsame => he (List.mem_singleton.mpr hsame)
    rw [holder_upsertLink h, if_neg hne]
  written e he := by
    have hsame : e = ends pair := List.mem_singleton.mp he
    refine ⟨(links.holder e).elim row (renewLink pair.relationType weight), ?_, ?_, pair, List.mem_singleton.mpr rfl,
      hsame.symm, ?_⟩
    · rw [holder_upsertLink h, if_pos (hsame.trans hends.symm)]
    · cases links.holder e with
      | none => exact hlive
      | some held => rfl
    · cases links.holder e with
      | none => exact hrelation
      | some held => rfl

end Written

/-- Both ends of a pair have a row. -/
def present (store : Store) (pair : LinkPair) : Bool :=
  (store.fragments.byId pair.fromId).isSome && (store.fragments.byId pair.toId).isSome

theorem written_createLink {store next : Store} {pair : LinkPair} {weight : ℚ}
    (h : createLink store pair.fromId pair.toId pair.relationType weight = some next) :
    Written [pair] store.links next.links := by
  obtain ⟨-, -, links, hupsert, rfl⟩ := createLink_eq_some h
  exact @Written.of_upsert store.links links pair weight
    { fromId := pair.fromId, toId := pair.toId, relationType := pair.relationType, weight := weight } (fun _ => rfl)
    rfl rfl rfl hupsert

/-- A link is written exactly between two rows. -/
theorem written_tryLink (store : Store) (pair : LinkPair) (weight : ℚ) :
    Written ([pair].filter (present store)) store.links
      (tryLink store pair.fromId pair.toId pair.relationType weight).links := by
  by_cases hpresent : present store pair = true
  · have hends := hpresent
    simp only [present, Bool.and_eq_true, Option.isSome_iff_exists] at hends
    obtain ⟨⟨f, hf⟩, g, hg⟩ := hends
    obtain ⟨hfmem, hfid⟩ := (byId_eq_some_iff _).mp hf
    obtain ⟨hgmem, hgid⟩ := (byId_eq_some_iff _).mp hg
    obtain ⟨next, hnext⟩ := createLink_isSome hfmem hgmem hfid hgid pair.relationType weight
    rw [List.filter_cons_of_pos hpresent, tryLink, hnext]
    exact written_createLink hnext
  · have hnone : createLink store pair.fromId pair.toId pair.relationType weight = none := by
      simp only [present] at hpresent
      simp only [createLink, if_neg hpresent]
    rw [List.filter_cons_of_neg hpresent, tryLink, hnone]
    exact Written.refl store.links

/-- The multi-row insert writes all pairs, and all of them have their rows. -/
theorem written_insertLinks {store next : Store} {pairs : List LinkPair} (h : insertLinks store pairs = some next) :
    Written pairs store.links next.links ∧ next.fragments = store.fragments ∧
    ∀ pair ∈ pairs, present store pair = true := by
  induction pairs generalizing store with
  | nil =>
    cases h
    exact ⟨Written.refl _, rfl, fun pair hpair => by cases hpair⟩
  | cons pair later ih =>
    simp only [insertLinks] at h
    split at h
    · rename_i hpresent
      obtain ⟨links, hupsert, hlater⟩ := Option.bind_eq_some_iff.mp h
      obtain ⟨hwritten, hfragments, hrows⟩ := ih hlater
      have hfirst : Written [pair] store.links links :=
        @Written.of_upsert store.links links pair 1
          { fromId := pair.fromId, toId := pair.toId, relationType := pair.relationType } (fun _ => rfl)
          rfl rfl rfl hupsert
      refine ⟨hfirst.trans hwritten, hfragments, fun other hother => ?_⟩
      rcases List.mem_cons.mp hother with rfl | hmem
      · exact hpresent
      · exact hrows other hmem
    · cases h

theorem written_createLinks {store next : Store} {pairs : List LinkPair} (h : createLinks store pairs = some next) :
    Written pairs store.links next.links ∧ (pairs.map ends).Nodup ∧ ∀ pair ∈ pairs, present store pair = true := by
  simp only [createLinks] at h
  split at h
  · rename_i hnodup
    obtain ⟨inserted, hinsert, rfl⟩ := Option.map_eq_some_iff.mp h
    obtain ⟨hwritten, -, hrows⟩ := written_insertLinks hinsert
    exact ⟨hwritten, hnodup, hrows⟩
  · cases h

end FragmentMemory.LinkWrites
