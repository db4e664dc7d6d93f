import FragmentMemory.RowPersistence

/-! # The rows that count against the limit of a key

A statement adds no live row of a key when every live row of the key after it was one before.  An upsert
adds at most its own row, and none when it meets the hash of its row.
-/
namespace FragmentMemory.LiveCounts
open ApiKeyStore FragmentTables FragmentWriter BatchRememberProcessor UniqueIndexTable RowPersistence LinkStore
  MemoryRememberer RememberLiveness

variable {keyId : KeyId}

/-- Every live row of the key in the second store is one in the first. -/
def AddsNone (keyId : KeyId) (before after : Store) : Prop :=
  ∀ f ∈ after.fragments.rows, f.keyId = some keyId → f.live = true →
    ∃ g ∈ before.fragments.rows, g.id = f.id ∧ g.keyId = some keyId ∧ g.live = true

/-- No two rows share an id. -/
theorem nodup_ids (table : FragmentTable) : (table.rows.map Fragment.id).Nodup := by
  refine List.pairwise_map.mpr (table.disjoint.imp fun {f g} hdisjoint hsame => ?_)
  exact hdisjoint (primary_mem_entries.mpr rfl) (primary_mem_entries.mpr hsame)

/-- The ids of the live rows of a key. -/
def liveIds (store : Store) (keyId : KeyId) : List FragmentId :=
  (store.fragments.rows.filter fun f => f.keyId = some keyId && f.live).map Fragment.id

theorem length_liveIds (store : Store) : (liveIds store keyId).length = liveCount store keyId := List.length_map _

theorem nodup_liveIds (store : Store) : (liveIds store keyId).Nodup :=
  (nodup_ids store.fragments).sublist (List.filter_sublist.map Fragment.id)

theorem mem_liveIds_iff {store : Store} {id : FragmentId} :
    id ∈ liveIds store keyId ↔ ∃ f ∈ store.fragments.rows, f.id = id ∧ f.keyId = some keyId ∧ f.live = true := by
  simp only [liveIds, List.mem_map, List.mem_filter, Bool.and_eq_true, decide_eq_true_eq]
  constructor
  · rintro ⟨f, ⟨hf, hkey, hlive⟩, hid⟩
    exact ⟨f, hf, hid, hkey, hlive⟩
  · rintro ⟨f, hf, hid, hkey, hlive⟩
    exact ⟨f, ⟨hf, hkey, hlive⟩, hid⟩

/-- What adds no live row does not raise the count. -/
theorem AddsNone.liveCount_le {before after : Store} (h : AddsNone keyId before after) :
    liveCount after keyId ≤ liveCount before keyId := by
  rw [← length_liveIds, ← length_liveIds]
  refine (List.subperm_of_subset (nodup_liveIds after) fun id hid => ?_).length_le
  obtain ⟨f, hf, rfl, hkey, hlive⟩ := mem_liveIds_iff.mp hid
  exact mem_liveIds_iff.mpr (h f hf hkey hlive)

theorem liveIds_added {store next : Store} {row : Fragment}
    (hrows : next.fragments.rows = store.fragments.rows ++ [row])
    (hkey : row.keyId = some keyId) (hlive : row.live = true) :
    liveIds next keyId = liveIds store keyId ++ [row.id] := by
  have hkept : ([row].filter fun f => f.keyId = some keyId && f.live) = [row] := by
    refine List.filter_eq_self.mpr fun f hf => ?_
    rw [List.mem_singleton.mp hf, hkey, hlive, decide_eq_true rfl, Bool.and_true]
  rw [liveIds, hrows, List.filter_append, hkept, List.map_append]
  rfl

/-- An upsert adds no live row, or it adds its own. -/
theorem upsertRow_adds {now : Time} {store next : Store} {row : Fragment} {id : FragmentId}
    (h : upsertRow now store row = some (next, id)) :
    AddsNone keyId store next ∨
      ((∀ f ∈ store.fragments.rows, ¬ (f.keyId = row.keyId ∧ f.contentHash = row.contentHash)) ∧
        next.fragments.rows = store.fragments.rows ++ [row]) := by
  rcases upsertRow_cases h with ⟨held, -, -, -, -, rfl⟩ | ⟨hfree, -, fragments, hinsert, rfl⟩
  · left
    intro f hf hkey hlive
    obtain ⟨before, hbefore, rfl⟩ := (mem_updateFragments_iff store).mp hf
    refine ⟨before, hbefore, ?_⟩
    by_cases hcond : (decide (FragmentEntry.contentHash row.keyId row.contentHash ∈ before.entries)) = true
    · rw [if_pos hcond] at hkey hlive ⊢
      exact ⟨rfl, hkey, hlive⟩
    · rw [if_neg hcond] at hkey hlive ⊢
      exact ⟨rfl, hkey, hlive⟩
  · exact Or.inr ⟨hfree, Table.rows_insert hinsert⟩

/-- An upsert adds at most one live row. -/
theorem liveCount_upsertRow_le {now : Time} {store next : Store} {row : Fragment} {id : FragmentId}
    (h : upsertRow now store row = some (next, id)) : liveCount next keyId ≤ liveCount store keyId + 1 := by
  rcases @upsertRow_adds keyId _ _ _ _ _ h with hnone | ⟨-, hrows⟩
  · exact hnone.liveCount_le.trans (Nat.le_succ _)
  · have hone : ([row].filter fun f => decide (f.keyId = some keyId) && f.live).length ≤ 1 := List.length_filter_le _ _
    simp only [liveCount, hrows, List.filter_append, List.length_append]
    omega

/-- The upserts of one transaction in their order; none when one of them throws. -/
def upsertAll (now : Time) : Store → List Fragment → Option Store
  | store, [] => some store
  | store, row :: later => (upsertRow now store row).bind fun done => upsertAll now done.1 later

theorem upsertAll_append (now : Time) (store : Store) (rows later : List Fragment) :
    upsertAll now store (rows ++ later) = (upsertAll now store rows).bind fun next => upsertAll now next later := by
  induction rows generalizing store with
  | nil => rfl
  | cons row rest ih =>
    simp only [List.cons_append, upsertAll]
    cases upsertRow now store row with
    | none => rfl
    | some done => exact ih done.1

/-- A transaction adds at most as many live rows as it upserts. -/
theorem liveCount_upsertAll_le {now : Time} {rows : List Fragment} {store next : Store}
    (h : upsertAll now store rows = some next) : liveCount next keyId ≤ liveCount store keyId + rows.length := by
  induction rows generalizing store with
  | nil =>
    cases h
    exact Nat.le_refl _
  | cons row later ih =>
    obtain ⟨done, hdone, hlater⟩ := Option.bind_eq_some_iff.mp h
    have hfirst : liveCount done.1 keyId ≤ liveCount store keyId + 1 :=
      liveCount_upsertRow_le (show upsertRow now store row = some (done.1, done.2) from hdone)
    have hrest := ih hlater
    rw [List.length_cons]
    omega

/-- The transaction of a batch is the upserts of its rows. -/
theorem upsertAll_insertAll (context : BatchContext) (store : Store) (items : List (ℕ × Fragment)) :
    upsertAll context.now store (items.map fun item => insertRow context item.2) =
      (insertAll context store items).map Prod.fst := by
  induction items generalizing store with
  | nil => rfl
  | cons item later ih =>
    simp only [List.map_cons, upsertAll, insertAll]
    cases upsertRow context.now store (insertRow context item.2) with
    | none => rfl
    | some done =>
      rw [Option.bind_some, ih, Option.map_map]
      rfl

/-- A batch adds at most as many live rows as it has items. -/
theorem liveCount_insertAll_le {context : BatchContext} {store next : Store} {items : List (ℕ × Fragment)}
    {inserted : List (ℕ × Fragment × FragmentId)} (h : insertAll context store items = some (next, inserted)) :
    liveCount next keyId ≤ liveCount store keyId + items.length := by
  have hupserts := upsertAll_insertAll context store items
  rw [h] at hupserts
  have hgrown := @liveCount_upsertAll_le keyId _ _ _ _ hupserts
  rwa [List.length_map] at hgrown

/-- Whatever leaves key and validity of the rows leaves the live ids. -/
theorem liveIds_of_views {before after : Store}
    (h : after.fragments.rows.map rowView = before.fragments.rows.map rowView) :
    liveIds after keyId = liveIds before keyId := by
  have hviews : ∀ store : Store, liveIds store keyId = ((store.fragments.rows.map rowView).filter fun view =>
      decide (view.2.1 = some keyId) && view.2.2.2.1).map Prod.fst := by
    intro store
    rw [List.filter_map, List.map_map]
    rfl
  rw [hviews, hviews, h]

/-- Two rows look the same to the count. -/
def SameView (f g : Fragment) : Prop := rowView g = rowView f

theorem admits_sameView : Admits SameView where
  refl _ := rfl
  trans _ _ _ hfg hgh := hgh.trans hfg
  linked _ _ := rfl
  accessed _ _ _ _ := rfl
  asserted _ _ := rfl
  cased _ _ := rfl

theorem admits_sameId : Admits fun f g => g.id = f.id where
  refl _ := rfl
  trans _ _ _ hfg hgh := hgh.trans hfg
  linked _ _ := rfl
  accessed _ _ _ _ := rfl
  asserted _ _ := rfl
  cased _ _ := rfl

theorem liveIds_of_rewrites {before after : Store} (h : Rewrites SameView before after) :
    liveIds after keyId = liveIds before keyId := by
  obtain ⟨rewrite, hrows, hsame⟩ := h
  refine liveIds_of_views ?_
  rw [hrows, List.map_map]
  exact List.map_congr_left fun f hf => hsame f hf

/-- An update that ends the rows that meet its condition leaves the other live ids. -/
theorem liveIds_updateFragments {store : Store} {cond : Fragment → Bool} {change : ColumnUpdate}
    (hend : ∀ f, (change.set f).live = false) : liveIds (store.updateFragments cond change) keyId =
      (store.fragments.rows.filter fun f => (f.keyId = some keyId && f.live) && !cond f).map Fragment.id := by
  have hids : (Fragment.id ∘ fun f => if cond f then change.set f else f) = Fragment.id := by
    funext f
    simp only [Function.comp]
    split
    · exact change.id_set f
    · rfl
  have hkept : ((fun f : Fragment => decide (f.keyId = some keyId) && f.live) ∘
      fun f => if cond f then change.set f else f) = fun f => (f.keyId = some keyId && f.live) && !cond f := by
    funext f
    by_cases hcond : cond f = true
    · simp only [Function.comp, hcond, if_true, hend, Bool.and_false, Bool.not_true]
    · simp only [Function.comp, hcond, Bool.false_eq_true, if_false, Bool.not_false, Bool.and_true]
  simp only [liveIds, Store.updateFragments, Table.update]
  rw [List.filter_map, List.map_map, hids, hkept]

variable {settings : Settings} {draws : Draws}

/-- A supersession ends the live row that it names, if there is one. -/
theorem liveIds_supersede {store : Store} {oldId newId : FragmentId}
    (hnew : ∃ f ∈ store.fragments.rows, f.id = newId) :
    liveIds (supersede draws store oldId newId (some keyId)) keyId =
      (liveIds store keyId).filter fun id => id ≠ oldId := by
  obtain ⟨f, hf, hid⟩ := hnew
  cases hlinked : createLink store oldId newId .supersededBy 1 with
  | none =>
    -- the row to supersede is missing, so it is not among the live ones
    have hmissing : ∀ g ∈ store.fragments.rows, g.id ≠ oldId := by
      intro g hg hgid
      obtain ⟨next, hnext⟩ := createLink_isSome hg hf hgid hid .supersededBy 1
      rw [hlinked] at hnext
      cases hnext
    simp only [supersede, hlinked]
    refine (List.filter_eq_self.mpr fun id hlive => ?_).symm
    obtain ⟨g, hg, hgid, -⟩ := mem_liveIds_iff.mp hlive
    exact decide_eq_true (hgid ▸ hmissing g hg)
  | some linked =>
    have hsame : liveIds linked keyId = liveIds store keyId :=
      liveIds_of_rewrites (rewrites_createLink admits_sameView hlinked)
    simp only [supersede, hlinked]
    rw [← hsame]
    rw [liveIds_updateFragments fun _ => rfl, liveIds, List.filter_map, List.filter_filter]
    refine congrArg (List.map Fragment.id) (List.filter_congr fun g _ => ?_)
    by_cases hlive : (decide (g.keyId = some keyId) && g.live) = true
    · have howned := hlive
      simp only [Bool.and_eq_true, decide_eq_true_eq] at howned
      simp only [howned.1, howned.2, ownedBy, Function.comp, Option.isNone_some, Bool.false_or, Bool.and_true,
        Bool.true_and, decide_true, decide_not]
    · simp only [Bool.of_not_eq_true hlive, Bool.false_and, Bool.and_false]

/-- The supersessions of a remember end the live rows that they name, the new row excepted. -/
theorem liveIds_supersedeAll {newId : FragmentId} (oldIds : List FragmentId) {store : Store}
    (hnew : ∃ f ∈ store.fragments.rows, f.id = newId) :
    liveIds (supersedeAll draws store newId oldIds (some keyId)) keyId =
      (liveIds store keyId).filter fun id => id = newId || !oldIds.contains id := by
  induction oldIds generalizing store with
  | nil =>
    refine (List.filter_eq_self.mpr fun id _ => ?_).symm
    rw [List.contains_nil, Bool.not_false, Bool.or_true]
  | cons oldId later ih =>
    have hstep : supersedeAll draws store newId (oldId :: later) (some keyId) = supersedeAll draws
        (if oldId = newId then store else supersede draws store oldId newId (some keyId)) newId later (some keyId) :=
          rfl
    rw [hstep]
    by_cases hsame : oldId = newId
    · rw [if_pos hsame, ih hnew]
      refine List.filter_congr fun id _ => ?_
      by_cases hid : id = newId
      · simp only [hid, decide_true, Bool.true_or]
      · have hother : ¬ id = oldId := hsame ▸ hid
        simp only [hid, decide_false, Bool.false_or, List.contains_cons, beq_eq_false_iff_ne.mpr hother]
    · have hkept : ∃ f ∈ (supersede draws store oldId newId (some keyId)).fragments.rows, f.id = newId := by
        obtain ⟨f, hf, hid⟩ := hnew
        obtain ⟨g, hg, hgid⟩ := (rewrites_supersede admits_sameId store newId (some keyId) fun _ _ _ => rfl).persists f hf
        exact ⟨g, hg, hgid.trans hid⟩
      rw [if_neg hsame, ih hkept, liveIds_supersede hnew, List.filter_filter]
      refine List.filter_congr fun id _ => ?_
      by_cases hid : id = newId
      · have hother : ¬ newId = oldId := fun h => hsame h.symm
        simp only [hid, hother, ne_eq, not_false_eq_true, decide_true, Bool.true_or, Bool.true_and]
      · by_cases hold : id = oldId
        · simp only [hold, hsame, ne_eq, not_true_eq_false, decide_false, Bool.and_false, Bool.false_or,
            List.contains_cons, BEq.rfl, Bool.true_or, Bool.not_true]
        · simp only [hid, hold, ne_eq, not_false_eq_true, decide_false, decide_true, Bool.and_true, Bool.false_or,
            List.contains_cons, beq_eq_false_iff_ne.mpr hold]

end FragmentMemory.LiveCounts
