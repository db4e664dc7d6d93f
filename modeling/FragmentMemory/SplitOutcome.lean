import FragmentMemory.ConsolidatorGC
import FragmentMemory.LiveCounts
import Mathlib.Data.List.Sigma

/-! # What a split leaves behind

`_processFragmentSplit` with the results of its inserts, any of which the database may refuse.  The
children go in one by one outside a transaction, through the upsert that may return a row that exists.
-/
namespace FragmentMemory.SplitOutcome
open ApiKeyStore FragmentTables FragmentFactory FragmentWriter LinkStore JsString ConsolidatorGC UniqueIndexTable
  RowPersistence RememberLiveness LiveCounts

/-- What `_processFragmentSplit` returns, and the ids that it has collected when it returns true. -/
structure SplitResult where
  store : Store
  committed : Bool
  children : List FragmentId := []

variable (digests : Digests) (policy : SplitPolicy) (services : SplitServices) (fails : ℕ → Bool)

/-- The insert of a child, which throws at the positions where the database refuses. -/
def insertOrFail (parent : Fragment) (state : Store × Option (List FragmentId)) (child : (String × ℚ) × ℕ) :
    Store × Option (List FragmentId) :=
  if fails child.2 then (state.1, none) else insertChild digests services parent state child

/-- The loop of `_commitSplit` over the accepted children. -/
def insertAccepted (parent : Fragment) (store : Store) (accepted : List (String × ℚ)) : Store × Option (List FragmentId) :=
  accepted.zipIdx.foldl (insertOrFail digests services fails parent) (store, some [])

/-- The deletion of what was inserted. -/
def rollBack (store : Store) (ids : List FragmentId) (keyId : Option KeyId) : Store :=
  ids.foldl (fun current id => (delete current id keyId).1) store

/-- The links of the children, to each other and to the parent. -/
def linkChildren (store : Store) (parent : Fragment) (ids : List FragmentId) : Store :=
  let chained := (ids.zip (ids.drop 1)).foldl (fun current pair => tryLink current pair.1 pair.2 .related 1) store
  ids.foldl (fun current id => tryLink current id parent.id .partOf 1) chained

/-- The links of the children and the end of the parent. -/
def retire (store : Store) (parent : Fragment) (ids : List FragmentId) : Store :=
  (linkChildren store parent ids).updateFragments (fun f => f.id = parent.id) (retireParent services.now)

/-- `_commitSplit` with its result; an insert that throws leaves it at once. -/
def commitResult (store : Store) (parent : Fragment) (accepted : List (String × ℚ)) : SplitResult :=
  match insertAccepted digests services fails parent store accepted with
  | (inserted, none) => { store := inserted, committed := false }
  | (inserted, some ids) =>
    if ids.length < policy.minItems then { store := rollBack inserted ids parent.keyId, committed := false }
    else { store := retire services inserted parent ids, committed := true, children := ids }

/-- `_processFragmentSplit` with its result. -/
def splitResult (store : Store) (parent : Fragment) : SplitResult :=
  match services.items parent.id with
  | none => { store := store, committed := false }
  | some items =>
    let accepted := gateSplitChildren policy items parent
    if items.length < policy.minItems || accepted.length < policy.minItems then { store := store, committed := false }
    else commitResult digests policy services fails store parent accepted

/-- The children of a committed split that are live rows other than the parent. -/
def liveChildren (parent : Fragment) (result : SplitResult) : List FragmentId :=
  result.children.dedup.filter fun id =>
    id ≠ parent.id && result.store.fragments.rows.any fun f => f.id = id && f.live

/-- A failed split has left every row, and a successful one has enough children and an expired parent. -/
structure AllOrNothing (store : Store) (parent : Fragment) (result : SplitResult) : Prop where
  nothing : result.committed = false → result.store.fragments.rows = store.fragments.rows
  children : result.committed = true → policy.minItems ≤ (liveChildren parent result).length
  expired : result.committed = true → ∃ f ∈ result.store.fragments.rows, f.id = parent.id ∧ f.live = false

/-- The content hash of a child. -/
def childHash (child : String × ℚ) : String := computeContentHash digests child.1

/-- The hashes of the accepted children that no row of the parent's key holds, or a live one that is not
the parent. -/
def ownHashes (store : Store) (parent : Fragment) (accepted : List (String × ℚ)) : List String :=
  (accepted.map (childHash digests)).dedup.filter fun hash =>
    store.fragments.rows.all fun f => !(f.keyId = parent.keyId && f.contentHash = hash) || (f.live && f.id ≠ parent.id)

/-- The child meets a row of its content that its promotion leaves as it is. -/
def MeetsUnchanged (store : Store) (parent : Fragment) (child : (String × ℚ) × ℕ) : Prop :=
  ∃ f ∈ store.fragments.rows, f.keyId = parent.keyId ∧ f.contentHash = childHash digests child.1 ∧
    (promote services.now (prepareInsertRow digests services.now (splitChild services parent child.2 child.1))).set f = f

/-- The first position whose insert the database refuses. -/
def firstFailure (count : ℕ) : Option ℕ := (List.range count).find? fails

/-- What decides a split that comes to its inserts: when one fails, what the ones before it have met, and
otherwise how many children get rows of their own. -/
def InsertsSound (store : Store) (parent : Fragment) (accepted : List (String × ℚ)) : Prop :=
  match firstFailure fails accepted.length with
  | some position => ∀ child ∈ accepted.zipIdx.take position, MeetsUnchanged digests services store parent child
  | none => policy.minItems ≤ (ownHashes digests store parent accepted).length

/-- The split does not come to its inserts, or they are sound. -/
def SplitsSoundly (store : Store) (parent : Fragment) : Prop :=
  match services.items parent.id with
  | none => True
  | some items =>
    let accepted := gateSplitChildren policy items parent
    items.length < policy.minItems ∨ accepted.length < policy.minItems ∨
      InsertsSound digests policy services fails store parent accepted

instance (store : Store) (parent : Fragment) (child : (String × ℚ) × ℕ) :
    Decidable (MeetsUnchanged digests services store parent child) :=
  inferInstanceAs (Decidable (∃ f ∈ store.fragments.rows, f.keyId = parent.keyId ∧
    f.contentHash = childHash digests child.1 ∧
      (promote services.now (prepareInsertRow digests services.now (splitChild services parent child.2 child.1))).set f = f))

instance (store : Store) (parent : Fragment) (accepted : List (String × ℚ)) :
    Decidable (InsertsSound digests policy services fails store parent accepted) :=
  match hfirst : firstFailure fails accepted.length with
  | some position =>
    decidable_of_iff (∀ child ∈ accepted.zipIdx.take position, MeetsUnchanged digests services store parent child)
      (by simp only [InsertsSound, hfirst])
  | none =>
    decidable_of_iff (policy.minItems ≤ (ownHashes digests store parent accepted).length)
      (by simp only [InsertsSound, hfirst])

variable {digests policy services fails}

/-- The importance of a child is within the bounds of the table when its parent's is. -/
theorem clampChildImportance_bounds {importance clamped : ℚ} {type : FragmentType} (hlow : 0 ≤ importance)
    (hhigh : importance ≤ 1) (h : clampChildImportance importance type = some clamped) : 0 ≤ clamped ∧ clamped ≤ 1 := by
  simp only [clampChildImportance] at h
  split at h
  · cases h
  · have hclamped := Option.some.inj h
    have hfloorLow : (0 : ℤ) ≤ ⌊importance * (7 / 10) * 100 + 1 / 2⌋ := by
      refine Int.floor_nonneg.mpr ?_
      linarith
    have hfloorHigh : ⌊importance * (7 / 10) * 100 + 1 / 2⌋ ≤ (100 : ℤ) := by
      refine Int.floor_le_iff.mpr ?_
      push_cast
      linarith
    have hlow' : (0 : ℚ) ≤ ⌊importance * (7 / 10) * 100 + 1 / 2⌋ := by exact_mod_cast hfloorLow
    have hhigh' : ((⌊importance * (7 / 10) * 100 + 1 / 2⌋ : ℤ) : ℚ) ≤ 100 := by exact_mod_cast hfloorHigh
    rw [← hclamped]
    constructor
    · linarith
    · linarith

/-- What a split starts from: a row of the store with an importance of the table, and ids that no row and
no other child has. -/
structure Chosen (services : SplitServices) (store : Store) (parent : Fragment) : Prop where
  row : ∃ f ∈ store.fragments.rows, f.id = parent.id
  importance : 0 ≤ parent.importance ∧ parent.importance ≤ 1
  fresh : ∀ position, ∀ f ∈ store.fragments.rows, f.id ≠ services.newId parent.id position
  distinct : ∀ position other, services.newId parent.id position = services.newId parent.id other → position = other

/-- How far the inserts have come: what they reported, and where the rows are from. -/
structure Progress (digests : Digests) (services : SplitServices) (store : Store) (parent : Fragment)
    (done : List ((String × ℚ) × ℕ)) (current : Store) (ids : List FragmentId) : Prop where
  reported : List.Forall₂ (fun child id => ∃ f ∈ current.fragments.rows, f.id = id ∧ f.keyId = parent.keyId ∧
    f.contentHash = childHash digests child.1) done ids
  kept : ∀ f ∈ store.fragments.rows, ∃ g ∈ current.fragments.rows, rowView g = rowView f
  origin : ∀ g ∈ current.fragments.rows, (∃ f ∈ store.fragments.rows, rowView f = rowView g) ∨
    (g.live = true ∧ (∃ child ∈ done, g.id = services.newId parent.id child.2) ∧
      ∀ f ∈ store.fragments.rows, ¬ (f.keyId = parent.keyId ∧ f.contentHash = g.contentHash))

theorem progress_start (store : Store) (parent : Fragment) : Progress digests services store parent [] store [] where
  reported := List.Forall₂.nil
  kept f hf := ⟨f, hf, rfl⟩
  origin g hg := Or.inl ⟨g, hg, rfl⟩

/-- A row with an importance of the table and an id of its own is always upserted. -/
theorem upsertRow_isSome {now : Time} {store : Store} {row : Fragment}
    (himportance : 0 ≤ row.importance ∧ row.importance ≤ 1)
    (hfresh : ∀ f ∈ store.fragments.rows, f.id ≠ row.id) (hkey : row.idempotencyKey = none) :
    ∃ next id, upsertRow now store row = some (next, id) := by
  have hcheck : checkImportance row.importance = true := by
    simp only [checkImportance, himportance.1, himportance.2, decide_true, Bool.and_self]
  simp only [upsertRow, hcheck, if_true]
  cases hheld : store.fragments.holder (.contentHash row.keyId row.contentHash) with
  | some held =>
    simp only [Table.upsert, hheld, Option.map_some]
    exact ⟨_, _, rfl⟩
  | none =>
    have hfree := (Table.holder_eq_none_iff _).mp hheld
    have hfits : Table.Fits Fragment.entries store.fragments.rows row := by
      intro other hother entry hentry hmem
      simp only [Fragment.entries, hkey, Option.map_none, Option.toList_none, List.mem_cons, List.not_mem_nil,
        or_false] at hmem
      rcases hmem with rfl | rfl
      · exact hfresh other hother (primary_mem_entries.mp hentry).symm
      · exact hfree other hother hentry
    simp only [Table.upsert, hheld, Table.insert, dif_pos hfits, Option.map_some]
    exact ⟨_, _, rfl⟩

theorem sanitizeInsertImportance_bounds {content : String} {type : FragmentType} {requested : ℚ}
    (h : 0 ≤ requested ∧ requested ≤ 1) : 0 ≤ sanitizeInsertImportance content type requested false ∧
      sanitizeInsertImportance content type requested false ≤ 1 := by
  have hmax : 0 ≤ maxInitialImportance type := by cases type <;> norm_num [maxInitialImportance]
  have hmin : 0 ≤ min requested (maxInitialImportance type) := le_min h.1 hmax
  have hle : min requested (maxInitialImportance type) ≤ 1 := (min_le_left _ _).trans h.2
  simp only [sanitizeInsertImportance, Bool.false_eq_true, if_false]
  split
  · exact ⟨le_min hmin (by norm_num), (min_le_left _ _).trans hle⟩
  · exact ⟨hmin, hle⟩

/-- An upsert leaves the view of the rows, adds at most its own row, and reports the row of its content. -/
theorem upsertRow_views {now : Time} {store next : Store} {row : Fragment} {id : FragmentId}
    (h : upsertRow now store row = some (next, id)) :
    (∀ f ∈ store.fragments.rows, ∃ g ∈ next.fragments.rows, rowView g = rowView f) ∧
      (∀ g ∈ next.fragments.rows, (∃ f ∈ store.fragments.rows, rowView f = rowView g) ∨
        (g = row ∧ ∀ f ∈ store.fragments.rows, ¬ (f.keyId = row.keyId ∧ f.contentHash = row.contentHash))) ∧
      ∃ g ∈ next.fragments.rows, g.id = id ∧ g.keyId = row.keyId ∧ g.contentHash = row.contentHash := by
  rcases upsertRow_cases h with ⟨held, hheld, hkey, hhash, hid, rfl⟩ | ⟨hfree, hid, fragments, hinsert, rfl⟩
  · have hviews := @map_updateFragments _ store rowView
      (fun f => decide (FragmentEntry.contentHash row.keyId row.contentHash ∈ f.entries)) (promote now row) fun _ => rfl
    have hforth : ∀ f ∈ store.fragments.rows, ∃ g ∈ (store.updateFragments
        (fun f => decide (FragmentEntry.contentHash row.keyId row.contentHash ∈ f.entries))
          (promote now row)).fragments.rows, rowView g = rowView f := by
      intro f hf
      have hmem := List.mem_map_of_mem (f := rowView) hf
      rw [← hviews] at hmem
      exact List.mem_map.mp hmem
    refine ⟨hforth, fun g hg => Or.inl ?_, ?_⟩
    · have hmem := List.mem_map_of_mem (f := rowView) hg
      rw [hviews] at hmem
      exact List.mem_map.mp hmem
    · obtain ⟨g, hg, hview⟩ := hforth held hheld
      simp only [rowView, Prod.mk.injEq] at hview
      exact ⟨g, hg, hview.1.trans hid.symm, hview.2.1.trans hkey, hview.2.2.1.trans hhash⟩
  · have hrows := Table.rows_insert hinsert
    simp only [hrows, List.mem_append, List.mem_singleton]
    refine ⟨fun f hf => ⟨f, Or.inl hf, rfl⟩, ?_, row, Or.inr rfl, hid.symm, rfl, rfl⟩
    rintro g (hg | rfl)
    · exact Or.inl ⟨g, hg, rfl⟩
    · exact Or.inr ⟨rfl, hfree⟩

/-- Where no insert is refused, the next one reports the row of its content. -/
theorem progress_insertChild {store current : Store} {parent : Fragment} {done : List ((String × ℚ) × ℕ)}
    {ids : List FragmentId} {child : (String × ℚ) × ℕ} (hchosen : Chosen services store parent)
    (h : Progress digests services store parent done current ids) (hbounds : 0 ≤ child.1.2 ∧ child.1.2 ≤ 1)
    (hnew : child.2 ∉ done.map Prod.snd) :
    ∃ next id, insertChild digests services parent (current, some ids) child = (next, some (ids ++ [id])) ∧
      Progress digests services store parent (done ++ [child]) next (ids ++ [id]) := by
  have hfresh : ∀ g ∈ current.fragments.rows, g.id ≠ services.newId parent.id child.2 := by
    intro g hg hid
    rcases h.origin g hg with ⟨f, hf, hview⟩ | ⟨-, ⟨earlier, hearlier, hgid⟩, -⟩
    · simp only [rowView, Prod.mk.injEq] at hview
      exact hchosen.fresh child.2 f hf (hview.1.trans hid)
    · have hsame := hchosen.distinct child.2 earlier.2 (hid.symm.trans hgid)
      exact hnew (hsame ▸ List.mem_map_of_mem hearlier)
  obtain ⟨next, id, hinsert⟩ := @upsertRow_isSome services.now current
    (prepareInsertRow digests services.now (splitChild services parent child.2 child.1))
    (sanitizeInsertImportance_bounds hbounds) hfresh rfl
  refine ⟨next, id, ?_, ?_⟩
  · have hdone : insert digests services.now current (splitChild services parent child.2 child.1) = some (next, id) :=
      hinsert
    simp only [insertChild, hdone]
  · obtain ⟨hforth, hback, g, hg, hgid, hgkey, hghash⟩ := upsertRow_views hinsert
    refine ⟨?_, ?_, ?_⟩
    · refine List.rel_append ?_ (List.Forall₂.cons ⟨g, hg, hgid, hgkey, hghash⟩ List.Forall₂.nil)
      refine h.reported.imp fun earlier reported hrow => ?_
      obtain ⟨f, hf, hid, hkey, hhash⟩ := hrow
      obtain ⟨k, hk, hview⟩ := hforth f hf
      simp only [rowView, Prod.mk.injEq] at hview
      exact ⟨k, hk, hview.1.trans hid, hview.2.1.trans hkey, hview.2.2.1.trans hhash⟩
    · intro f hf
      obtain ⟨k, hk, hview⟩ := h.kept f hf
      obtain ⟨k', hk', hview'⟩ := hforth k hk
      exact ⟨k', hk', hview'.trans hview⟩
    · intro k hk
      rcases hback k hk with ⟨f, hf, hview⟩ | ⟨rfl, hfree⟩
      · rcases h.origin f hf with ⟨f', hf', hview'⟩ | ⟨hlive, ⟨earlier, hearlier, hid⟩, hunmet⟩
        · exact Or.inl ⟨f', hf', hview'.trans hview⟩
        · simp only [rowView, Prod.mk.injEq] at hview
          refine Or.inr ⟨hview.2.2.2.1 ▸ hlive, ⟨earlier, List.mem_append_left _ hearlier, hview.1 ▸ hid⟩, ?_⟩
          rw [← hview.2.2.1]
          exact hunmet
      · refine Or.inr ⟨rfl, ⟨child, List.mem_append_right _ (List.mem_singleton.mpr rfl), rfl⟩, ?_⟩
        rintro f hf ⟨hkey, hhash⟩
        obtain ⟨k, hk, hview⟩ := h.kept f hf
        simp only [rowView, Prod.mk.injEq] at hview
        exact hfree k hk ⟨hview.2.1.trans hkey, hview.2.2.1.trans hhash⟩

/-- The loop over children whose inserts are not refused. -/
theorem progress_foldl {store : Store} {parent : Fragment} (hchosen : Chosen services store parent)
    (children : List ((String × ℚ) × ℕ)) {done : List ((String × ℚ) × ℕ)} {current : Store} {ids : List FragmentId}
    (h : Progress digests services store parent done current ids)
    (hbounds : ∀ child ∈ children, 0 ≤ child.1.2 ∧ child.1.2 ≤ 1)
    (hdistinct : ((done ++ children).map Prod.snd).Nodup) (hpass : ∀ child ∈ children, fails child.2 = false) :
    ∃ next reported, children.foldl (insertOrFail digests services fails parent) (current, some ids) = (next, some reported) ∧
      Progress digests services store parent (done ++ children) next reported := by
  induction children generalizing done current ids with
  | nil => exact ⟨current, ids, rfl, by rwa [List.append_nil]⟩
  | cons child later ih =>
    have hnew : child.2 ∉ done.map Prod.snd := by
      rw [List.map_append, List.nodup_append] at hdistinct
      exact fun hmem => hdistinct.2.2 _ hmem _ List.mem_cons_self rfl
    obtain ⟨next, id, hinsert, hprogress⟩ := progress_insertChild hchosen h (hbounds child List.mem_cons_self) hnew
    have hstep : insertOrFail digests services fails parent (current, some ids) child = (next, some (ids ++ [id])) := by
      simp only [insertOrFail, hpass child List.mem_cons_self, Bool.false_eq_true, if_false, hinsert]
    rw [List.append_cons] at hdistinct ⊢
    rw [List.foldl_cons, hstep]
    exact ih hprogress (fun other hother => hbounds other (List.mem_cons_of_mem _ hother)) hdistinct
      fun other hother => hpass other (List.mem_cons_of_mem _ hother)

/-- After a refusal nothing is inserted. -/
theorem foldl_refused (parent : Fragment) (children : List ((String × ℚ) × ℕ)) (current : Store) :
    children.foldl (insertOrFail digests services fails parent) (current, none) = (current, none) := by
  induction children with
  | nil => rfl
  | cons child later ih =>
    have hstep : insertOrFail digests services fails parent (current, none) child = (current, none) := by
      simp only [insertOrFail, insertChild, ite_self]
    rw [List.foldl_cons, hstep, ih]

/-- The accepted children have importances of the table. -/
theorem gateSplitChildren_bounds {store : Store} {parent : Fragment} {items : List String}
    (hchosen : Chosen services store parent) :
    ∀ child ∈ gateSplitChildren policy items parent, 0 ≤ child.2 ∧ child.2 ≤ 1 := by
  intro child hchild
  obtain ⟨text, -, hgate⟩ := List.mem_filterMap.mp hchild
  split at hgate
  · obtain ⟨importance, hclamped, rfl⟩ := Option.map_eq_some_iff.mp hgate
    exact clampChildImportance_bounds hchosen.importance.1 hchosen.importance.2 hclamped
  · cases hgate

/-- The inserts of a split: all of them, or those before the first refusal. -/
theorem insertAccepted_cases {store : Store} {parent : Fragment} {accepted : List (String × ℚ)}
    (hchosen : Chosen services store parent) (hbounds : ∀ child ∈ accepted, 0 ≤ child.2 ∧ child.2 ≤ 1) :
    (firstFailure fails accepted.length = none ∧ ∃ next ids,
        insertAccepted digests services fails parent store accepted = (next, some ids) ∧
          Progress digests services store parent accepted.zipIdx next ids) ∨
      ∃ position next ids, firstFailure fails accepted.length = some position ∧
        (accepted.zipIdx.take position).foldl (insertOrFail digests services fails parent) (store, some []) =
          (next, some ids) ∧
        insertAccepted digests services fails parent store accepted = (next, none) := by
  have hbounds' : ∀ child ∈ accepted.zipIdx, 0 ≤ child.1.2 ∧ child.1.2 ≤ 1 := by
    intro child hchild
    obtain ⟨item, position⟩ := child
    exact hbounds item (List.mem_of_getElem? (List.mk_mem_zipIdx_iff_getElem?.mp hchild))
  cases hfirst : firstFailure fails accepted.length with
  | none =>
    have hpass : ∀ child ∈ accepted.zipIdx, fails child.2 = false := by
      intro child hchild
      have hlt : child.2 < accepted.length := List.snd_lt_of_mem_zipIdx hchild
      have hnone := List.find?_eq_none.mp hfirst child.2 (List.mem_range.mpr hlt)
      exact Bool.of_not_eq_true hnone
    obtain ⟨next, ids, hfold, hprogress⟩ :=
      @progress_foldl digests services fails store parent hchosen accepted.zipIdx [] store []
      (progress_start store parent) hbounds' (List.nodup_zipIdx_map_snd accepted) hpass
    exact Or.inl ⟨rfl, next, ids, hfold, hprogress⟩
  | some position =>
    obtain ⟨hfails, hrange, hearlier⟩ := List.find?_range_eq_some.mp hfirst
    have hlt : position < accepted.zipIdx.length := by
      rw [List.length_zipIdx]
      exact List.mem_range.mp hrange
    have hpass : ∀ child ∈ accepted.zipIdx.take position, fails child.2 = false := by
      intro child hchild
      obtain ⟨index, hindex, rfl⟩ := List.mem_take_iff_getElem.mp hchild
      have hbefore := hearlier index (by omega)
      rw [List.getElem_zipIdx]
      simpa using hbefore
    have hnodup : (([] ++ accepted.zipIdx.take position).map Prod.snd).Nodup :=
      (List.nodup_zipIdx_map_snd accepted).sublist ((List.take_sublist _ _).map Prod.snd)
    obtain ⟨next, ids, hfold, -⟩ := @progress_foldl digests services fails store parent hchosen
      (accepted.zipIdx.take position) [] store [] (progress_start store parent)
      (fun child hchild => hbounds' child (List.mem_of_mem_take hchild)) hnodup hpass
    refine Or.inr ⟨position, next, ids, rfl, hfold, ?_⟩
    have hsplit :
      accepted.zipIdx = accepted.zipIdx.take position ++ accepted.zipIdx[position] :: accepted.zipIdx.drop (position + 1) := by
      rw [← List.drop_eq_getElem_cons hlt, List.take_append_drop]
    have hrefused :
      insertOrFail digests services fails parent (next, some ids) accepted.zipIdx[position] = (next, none) := by
      have hposition : (accepted.zipIdx[position]).2 = position := by rw [List.getElem_zipIdx]; exact Nat.zero_add _
      simp only [insertOrFail, hposition, hfails, if_true]
    rw [insertAccepted, hsplit, List.foldl_append, hfold, List.foldl_cons, hrefused, foldl_refused]

theorem rewrites_linkChildren {store : Store} {parent : Fragment} {ids : List FragmentId} :
    Rewrites SameView store (linkChildren store parent ids) := by
  refine Rewrites.trans admits_sameView ?_ (Rewrites.foldl admits_sameView fun current id _ =>
    rewrites_tryLink admits_sameView current id parent.id _ _)
  exact Rewrites.foldl admits_sameView fun current pair _ => rewrites_tryLink admits_sameView current pair.1 pair.2 _ _

/-- The links of a split leave the rows, and its last statement changes the parent only. -/
theorem live_retire_iff {store : Store} {parent : Fragment} {ids : List FragmentId} {id : FragmentId}
    (hne : id ≠ parent.id) :
    (∃ f ∈ (retire services store parent ids).fragments.rows, f.id = id ∧ f.live = true) ↔
      ∃ f ∈ store.fragments.rows, f.id = id ∧ f.live = true := by
  have hlinked := @rewrites_linkChildren store parent ids
  simp only [retire]
  constructor
  · rintro ⟨f, hf, hid, hlive⟩
    obtain ⟨before, hbefore, rfl⟩ := (mem_updateFragments_iff _).mp hf
    have hother : ¬ before.id = parent.id := by
      intro hsame
      rw [if_pos (decide_eq_true hsame)] at hid
      exact hne (hid.symm.trans hsame)
    rw [if_neg (by simp only [hother, decide_false, Bool.false_eq_true, not_false_eq_true])] at hid hlive
    obtain ⟨g, hg, hview⟩ := hlinked.covers before hbefore
    simp only [SameView, rowView, Prod.mk.injEq] at hview
    exact ⟨g, hg, hview.1.symm.trans hid, hview.2.2.2.1.symm.trans hlive⟩
  · rintro ⟨g, hg, hid, hlive⟩
    obtain ⟨before, hbefore, hview⟩ := hlinked.persists g hg
    simp only [SameView, rowView, Prod.mk.injEq] at hview
    have hother : ¬ before.id = parent.id := fun hsame => hne (hid.symm.trans (hview.1.symm.trans hsame))
    refine ⟨before, (mem_updateFragments_iff _).mpr ⟨before, hbefore, ?_⟩, hview.1.trans hid, hview.2.2.2.1.trans hlive⟩
    rw [if_neg (by simp only [hother, decide_false, Bool.false_eq_true, not_false_eq_true])]

/-- The parent is expired. -/
theorem expired_retire {store : Store} {parent : Fragment} {ids : List FragmentId}
    (h : ∃ f ∈ store.fragments.rows, f.id = parent.id) :
    ∃ f ∈ (retire services store parent ids).fragments.rows, f.id = parent.id ∧ f.live = false := by
  obtain ⟨f, hf, hid⟩ := h
  have hlinked := @rewrites_linkChildren store parent ids
  obtain ⟨before, hbefore, hview⟩ := hlinked.persists f hf
  simp only [SameView, rowView, Prod.mk.injEq] at hview
  have hsame : decide (before.id = parent.id) = true := decide_eq_true (hview.1.trans hid)
  refine ⟨(retireParent services.now).set before, (mem_updateFragments_iff _).mpr ⟨before, hbefore, ?_⟩,
    hview.1.trans hid, rfl⟩
  rw [if_pos hsame]

theorem dedup_map_of_injOn {α β : Type} [DecidableEq α] [DecidableEq β] {g : α → β} (items : List α)
    (hinj : ∀ a ∈ items, ∀ b ∈ items, g a = g b → a = b) : (items.map g).dedup = items.dedup.map g := by
  induction items with
  | nil => rfl
  | cons a later ih =>
    have hlater := ih fun b hb c hc => hinj b (List.mem_cons_of_mem _ hb) c (List.mem_cons_of_mem _ hc)
    rw [List.map_cons]
    by_cases hmem : a ∈ later
    · rw [List.dedup_cons_of_mem hmem, List.dedup_cons_of_mem (List.mem_map_of_mem hmem), hlater]
    · have hnot : g a ∉ later.map g := by
        intro h
        obtain ⟨b, hb, hsame⟩ := List.mem_map.mp h
        exact hmem (hinj b (List.mem_cons_of_mem _ hb) a List.mem_cons_self hsame ▸ hb)
      rw [List.dedup_cons_of_notMem hmem, List.dedup_cons_of_notMem hnot, hlater, List.map_cons]

/-- The id of the row of a content under a key. -/
def rowId (store : Store) (keyId : Option KeyId) (hash : String) : FragmentId :=
  ((store.fragments.holder (.contentHash keyId hash)).map Fragment.id).getD ""

theorem rowId_eq {store : Store} {f : Fragment} (hf : f ∈ store.fragments.rows) :
    rowId store f.keyId f.contentHash = f.id := by
  have hholder : store.fragments.holder (.contentHash f.keyId f.contentHash) = some f :=
    (Table.holder_eq_some_iff _).mpr ⟨hf, contentHash_mem_entries.mpr ⟨rfl, rfl⟩⟩
  rw [rowId, hholder]
  rfl

/-- The reported ids are those of the rows of the contents. -/
theorem rows_of_reported {next : Store} {parent : Fragment} {done : List ((String × ℚ) × ℕ)} {ids : List FragmentId}
    (h : List.Forall₂ (fun child id => ∃ f ∈ next.fragments.rows, f.id = id ∧ f.keyId = parent.keyId ∧
      f.contentHash = childHash digests child.1) done ids) :
    (∀ child ∈ done, ∃ f ∈ next.fragments.rows, f.keyId = parent.keyId ∧ f.contentHash = childHash digests child.1) ∧
      ids = done.map fun child => rowId next parent.keyId (childHash digests child.1) := by
  induction h with
  | nil => exact ⟨fun _ hmem => absurd hmem List.not_mem_nil, rfl⟩
  | cons hrow _ ih =>
    obtain ⟨f, hf, rfl, hkey, hhash⟩ := hrow
    constructor
    · intro child hchild
      rcases List.mem_cons.mp hchild with rfl | hlater
      · exact ⟨f, hf, hkey, hhash⟩
      · exact ih.1 child hlater
    · rw [List.map_cons, ← hkey, ← hhash, rowId_eq hf, hkey, ← ih.2]

/-- A committed split has as many live children as contents that fall on a row of their own. -/
theorem length_liveChildren {store next : Store} {parent : Fragment} {accepted : List (String × ℚ)}
    {ids : List FragmentId} (hchosen : Chosen services store parent)
    (h : Progress digests services store parent accepted.zipIdx next ids) :
    (liveChildren parent { store := retire services next parent ids, committed := true, children := ids }).length =
      (ownHashes digests store parent accepted).length := by
  have hrow : ∀ hash ∈ accepted.map (childHash digests), ∃ f ∈ next.fragments.rows, f.keyId = parent.keyId ∧
      f.contentHash = hash := by
    intro hash hhash
    obtain ⟨item, hitem, rfl⟩ := List.mem_map.mp hhash
    obtain ⟨position, hposition⟩ := List.getElem?_of_mem hitem
    exact (rows_of_reported h.reported).1 (item, position) (List.mk_mem_zipIdx_iff_getElem?.mpr hposition)
  have hids : ids = (accepted.map (childHash digests)).map (rowId next parent.keyId) := by
    have hfirst : accepted.zipIdx.map (fun child => rowId next parent.keyId (childHash digests child.1)) =
        (accepted.zipIdx.map Prod.fst).map fun item => rowId next parent.keyId (childHash digests item) := by
      rw [List.map_map]
      rfl
    rw [(rows_of_reported h.reported).2, hfirst, List.zipIdx_map_fst, List.map_map]
    rfl
  have hinj : ∀ hash ∈ accepted.map (childHash digests), ∀ other ∈ accepted.map (childHash digests),
      rowId next parent.keyId hash = rowId next parent.keyId other → hash = other := by
    intro hash hhash other hother hsame
    obtain ⟨f, hf, hkey, rfl⟩ := hrow hash hhash
    obtain ⟨g, hg, hgkey, rfl⟩ := hrow other hother
    rw [← hkey, rowId_eq hf, hkey, ← hgkey, rowId_eq hg] at hsame
    rw [eq_of_id _ hf hg hsame]
  simp only [liveChildren, ownHashes]
  rw [hids, dedup_map_of_injOn _ hinj, List.filter_map, List.length_map]
  refine congrArg List.length (List.filter_congr fun hash hhash => ?_)
  obtain ⟨g, hg, hkey, rfl⟩ := hrow hash (List.mem_dedup.mp hhash)
  rw [Function.comp_apply, ← hkey, rowId_eq hg, Bool.eq_iff_iff]
  simp only [Bool.and_eq_true, decide_eq_true_eq, List.any_eq_true, List.all_eq_true, Bool.or_eq_true,
    Bool.not_eq_true', Bool.and_eq_false_iff, decide_eq_false_iff_not, ne_eq]
  constructor
  · rintro ⟨hne, hany⟩ f hf
    obtain ⟨k, hk, hkid, hklive⟩ := (live_retire_iff hne).mp hany
    have hsame : k = g := eq_of_id _ hk hg hkid
    subst hsame
    by_cases hmatch : f.keyId = parent.keyId ∧ f.contentHash = k.contentHash
    · obtain ⟨k', hk', hview⟩ := h.kept f hf
      simp only [rowView, Prod.mk.injEq] at hview
      have hrow' : k' = k := eq_of_contentHash _ hk' hk (hview.2.1.trans (hmatch.1.trans hkey.symm))
        (hview.2.2.1.trans hmatch.2)
      subst hrow'
      exact Or.inr ⟨hview.2.2.2.1 ▸ hklive, fun hid => hne (hview.1.trans hid)⟩
    · left
      by_cases hfkey : f.keyId = parent.keyId
      · exact Or.inr fun hhash => hmatch ⟨hfkey, hhash⟩
      · exact Or.inl fun hsame => hfkey (hsame.trans hkey)
  · intro hall
    rcases h.origin g hg with ⟨f, hf, hview⟩ | ⟨hlive, ⟨child, -, hid⟩, -⟩
    · simp only [rowView, Prod.mk.injEq] at hview
      rcases hall f hf with hother | ⟨hlive, hne⟩
      · rcases hother with hother | hother
        · exact absurd hview.2.1 hother
        · exact absurd hview.2.2.1 hother
      · have hgne : ¬ g.id = parent.id := fun hid => hne (hview.1.trans hid)
        exact ⟨hgne, (live_retire_iff hgne).mpr ⟨g, hg, rfl, hview.2.2.2.1 ▸ hlive⟩⟩
    · obtain ⟨row, hrowMem, hrowId⟩ := hchosen.row
      have hgne : ¬ g.id = parent.id := fun hsame =>
        hchosen.fresh child.2 row hrowMem (hrowId.trans (hsame.symm.trans hid))
      exact ⟨hgne, (live_retire_iff hgne).mpr ⟨g, hg, rfl, hlive⟩⟩

/-- A row after any number of promotions at one time. -/
def Promoted (now : Time) (f g : Fragment) : Prop :=
  g = f ∨ (g = { f with importance := g.importance, isAnchor := g.isAnchor, accessedAt := some now } ∧
    f.importance ≤ g.importance ∧ (f.isAnchor = true → g.isAnchor = true))

theorem promoted_promote (now : Time) (row f : Fragment) : Promoted now f ((promote now row).set f) := by
  refine Or.inr ⟨rfl, le_max_left _ _, fun hanchor => ?_⟩
  simp only [promote, hanchor, Bool.true_or]

theorem Promoted.id_eq {now : Time} {f g : Fragment} (h : Promoted now f g) : g.id = f.id := by
  rcases h with rfl | ⟨hset, -, -⟩
  · rfl
  · rw [hset]

theorem Promoted.trans {now : Time} {f g k : Fragment} (h : Promoted now f g) (h' : Promoted now g k) :
    Promoted now f k := by
  rcases h with rfl | ⟨hset, hle, hanchor⟩
  · exact h'
  · rcases h' with rfl | ⟨hset', hle', hanchor'⟩
    · exact Or.inr ⟨hset, hle, hanchor⟩
    · refine Or.inr ⟨?_, hle.trans hle', fun hf => hanchor' (hanchor hf)⟩
      rw [hset', hset]

/-- Promotions that come back to where they began have changed nothing. -/
theorem Promoted.antisymm {now : Time} {f g : Fragment} (h : Promoted now f g) (h' : Promoted now g f) : g = f := by
  rcases h with rfl | ⟨hset, hle, hanchor⟩
  · rfl
  · rcases h' with rfl | ⟨hset', hle', hanchor'⟩
    · rfl
    · have himportance : g.importance = f.importance := le_antisymm hle' hle
      have hsame : g.isAnchor = f.isAnchor := by
        cases hf : f.isAnchor with
        | true => exact hanchor hf
        | false =>
          by_contra hg
          rw [hanchor' (Bool.of_not_eq_false hg)] at hf
          cases hf
      have haccessed : f.accessedAt = some now := by rw [hset']
      rw [hset, himportance, hsame, ← haccessed]

/-- Every row is still there, promoted any number of times. -/
def KeepsPromoted (now : Time) (before after : Store) : Prop :=
  ∀ f ∈ before.fragments.rows, ∃ g ∈ after.fragments.rows, Promoted now f g

theorem keepsPromoted_upsertRow {now : Time} {store next : Store} {row : Fragment} {id : FragmentId}
    (h : upsertRow now store row = some (next, id)) : KeepsPromoted now store next := by
  intro f hf
  rcases upsertRow_cases h with ⟨-, -, -, -, -, rfl⟩ | ⟨-, -, fragments, hinsert, rfl⟩
  · refine ⟨_, updated_mem_updateFragments hf _ _, ?_⟩
    split
    · exact promoted_promote now row f
    · exact Or.inl rfl
  · refine ⟨f, ?_, Or.inl rfl⟩
    simp only [Table.rows_insert hinsert]
    exact List.mem_append_left _ hf

/-- An insert of a child that went through. -/
theorem insertOrFail_eq_some {parent : Fragment} {current next : Store} {ids reported : List FragmentId}
    {child : (String × ℚ) × ℕ}
    (h : insertOrFail digests services fails parent (current, some ids) child = (next, some reported)) :
    ∃ id, upsertRow services.now current (prepareInsertRow digests services.now
      (splitChild services parent child.2 child.1)) = some (next, id) := by
  simp only [insertOrFail, insertChild] at h
  split at h
  · cases h
  · split at h
    · cases h
    · rename_i inserted id hinsert
      cases h
      exact ⟨id, hinsert⟩

/-- A loop that went through began with an insert that went through. -/
theorem foldl_cons_eq_some {parent : Fragment} {current next : Store} {ids reported : List FragmentId}
    {child : (String × ℚ) × ℕ} {later : List ((String × ℚ) × ℕ)}
    (h : (child :: later).foldl (insertOrFail digests services fails parent) (current, some ids) = (next, some reported)) :
    ∃ mid between, insertOrFail digests services fails parent (current, some ids) child = (mid, some between) ∧
      later.foldl (insertOrFail digests services fails parent) (mid, some between) = (next, some reported) := by
  rw [List.foldl_cons] at h
  cases hstep : insertOrFail digests services fails parent (current, some ids) child with
  | mk mid between =>
    rw [hstep] at h
    cases between with
    | none =>
      rw [foldl_refused] at h
      cases h
    | some between => exact ⟨mid, between, rfl, h⟩

theorem keepsPromoted_foldl {parent : Fragment} (children : List ((String × ℚ) × ℕ)) {current next : Store}
    {ids reported : List FragmentId}
    (h : children.foldl (insertOrFail digests services fails parent) (current, some ids) = (next, some reported)) :
    KeepsPromoted services.now current next := by
  induction children generalizing current ids with
  | nil =>
    cases h
    exact fun f hf => ⟨f, hf, Or.inl rfl⟩
  | cons child later ih =>
    obtain ⟨mid, between, hstep, hlater⟩ := foldl_cons_eq_some h
    obtain ⟨id, hupsert⟩ := insertOrFail_eq_some hstep
    intro f hf
    obtain ⟨g, hg, hfg⟩ := keepsPromoted_upsertRow hupsert f hf
    obtain ⟨k, hk, hgk⟩ := ih hlater g hg
    exact ⟨k, hk, hfg.trans hgk⟩

/-- An upsert leaves the rows when it meets one that its promotion leaves; and only then can what follows
come back to them. -/
theorem rows_upsertRow {now : Time} {store mid next : Store} {row : Fragment} {id : FragmentId}
    (h : upsertRow now store row = some (mid, id)) :
    ((∃ f ∈ store.fragments.rows, f.keyId = row.keyId ∧ f.contentHash = row.contentHash ∧ (promote now row).set f = f) →
        mid.fragments.rows = store.fragments.rows) ∧
      (KeepsPromoted now mid next → next.fragments.rows = store.fragments.rows →
        ∃ f ∈ store.fragments.rows, f.keyId = row.keyId ∧ f.contentHash = row.contentHash ∧
          (promote now row).set f = f) := by
  rcases upsertRow_cases h with ⟨held, hheld, hkey, hhash, -, rfl⟩ | ⟨hfree, -, fragments, hinsert, rfl⟩
  · constructor
    · rintro ⟨f, hf, hfkey, hfhash, hset⟩
      have hunchanged : ∀ g ∈ store.fragments.rows,
          (if decide (FragmentEntry.contentHash row.keyId row.contentHash ∈ g.entries) then (promote now row).set g else g) = g := by
        intro g hg
        split
        · rename_i hcond
          have hentry := contentHash_mem_entries.mp (of_decide_eq_true hcond)
          have hsame : g = f :=
            eq_of_contentHash _ hg hf (hentry.1.symm.trans hfkey.symm) (hentry.2.symm.trans hfhash.symm)
          rw [hsame, hset]
        · rfl
      exact (List.map_congr_left hunchanged).trans (List.map_id _)
    · intro hkeeps hnext
      -- the promoted row, promoted further, is the row itself
      have hmem := updated_mem_updateFragments hheld
        (fun f => decide (FragmentEntry.contentHash row.keyId row.contentHash ∈ f.entries)) (promote now row)
      rw [if_pos (decide_eq_true (contentHash_mem_entries.mpr ⟨hkey.symm, hhash.symm⟩))] at hmem
      obtain ⟨g, hg, hpromoted⟩ := hkeeps _ hmem
      rw [hnext] at hg
      have hsame : g = held := eq_of_id _ hg hheld (hpromoted.id_eq.trans rfl)
      subst hsame
      exact ⟨g, hheld, hkey, hhash, (promoted_promote now row g).antisymm hpromoted⟩
  · constructor
    · rintro ⟨f, hf, hfkey, hfhash, -⟩
      exact absurd ⟨hfkey, hfhash⟩ (hfree f hf)
    · intro hkeeps hnext
      have hrows := Table.rows_insert hinsert
      have hmem : row ∈ fragments.rows := by
        rw [hrows]
        exact List.mem_append_right _ (List.mem_singleton.mpr rfl)
      obtain ⟨g, hg, hpromoted⟩ := hkeeps row hmem
      rw [hnext] at hg
      have hgmem : g ∈ fragments.rows := by
        rw [hrows]
        exact List.mem_append_left _ hg
      have hsame : g = row := eq_of_id fragments hgmem hmem hpromoted.id_eq
      subst hsame
      exact absurd ⟨rfl, rfl⟩ (hfree g hg)

/-- The inserts of the children leave the rows exactly when each meets a row that its promotion leaves. -/
theorem rows_foldl_iff {store : Store} {parent : Fragment} (children : List ((String × ℚ) × ℕ)) {current next : Store}
    {ids reported : List FragmentId} (hcurrent : current.fragments.rows = store.fragments.rows)
    (h : children.foldl (insertOrFail digests services fails parent) (current, some ids) = (next, some reported)) :
    next.fragments.rows = store.fragments.rows ↔
    ∀ child ∈ children, MeetsUnchanged digests services store parent child := by
  induction children generalizing current ids with
  | nil =>
    cases h
    exact iff_of_true hcurrent fun _ hmem => absurd hmem List.not_mem_nil
  | cons child later ih =>
    obtain ⟨mid, between, hstep, hlater⟩ := foldl_cons_eq_some h
    obtain ⟨id, hupsert⟩ := insertOrFail_eq_some hstep
    have hkeeps := keepsPromoted_foldl later hlater
    obtain ⟨hleaves, hback⟩ := @rows_upsertRow _ _ mid next _ _ hupsert
    rw [hcurrent] at hleaves hback
    rw [List.forall_mem_cons]
    constructor
    · intro hnext
      have hmeets := hback hkeeps hnext
      exact ⟨hmeets, (ih (hleaves hmeets) hlater).mp hnext⟩
    · rintro ⟨hmeets, hrest⟩
      exact (ih (hleaves hmeets) hlater).mpr hrest

/-- A split leaves nothing behind or loses nothing exactly when it does not come to its inserts, when what
went in before the first refusal met unchanged rows, or when enough children got rows of their own. -/
theorem allOrNothing_iff {store : Store} {parent : Fragment} (hchosen : Chosen services store parent) :
    AllOrNothing policy store parent (splitResult digests policy services fails store parent) ↔
      SplitsSoundly digests policy services fails store parent := by
  have hleft : AllOrNothing policy store parent { store := store, committed := false } :=
    ⟨fun _ => rfl, (fun h => by cases h), (fun h => by cases h)⟩
  simp only [splitResult, SplitsSoundly]
  cases services.items parent.id with
  | none => exact iff_of_true hleft trivial
  | some items =>
    by_cases hfew : items.length < policy.minItems ∨ (gateSplitChildren policy items parent).length < policy.minItems
    · have hguard : (decide (items.length < policy.minItems) ||
          decide ((gateSplitChildren policy items parent).length < policy.minItems)) = true := by
        simp only [Bool.or_eq_true, decide_eq_true_eq]
        exact hfew
      simp only [hguard, if_true]
      exact iff_of_true hleft (hfew.imp_right Or.inl)
    · rw [not_or] at hfew
      simp only [hfew.1, hfew.2, false_or, commitResult, InsertsSound]
      rcases @insertAccepted_cases digests services fails store parent _ hchosen
          (gateSplitChildren_bounds hchosen) with
        ⟨hpass, next, ids, hinserted, hprogress⟩ | ⟨position, next, ids, hfirst, hfold, hinserted⟩
      · have hlength : ids.length = (gateSplitChildren policy items parent).length := by
          rw [← hprogress.reported.length_eq, List.length_zipIdx]
        have henough : ¬ ids.length < policy.minItems := hlength ▸ hfew.2
        simp only [hinserted, hpass, if_neg henough]
        rw [← length_liveChildren hchosen hprogress]
        constructor
        · exact fun h => h.children rfl
        · intro h
          refine ⟨(fun hfalse => by cases hfalse), fun _ => h, fun _ => expired_retire ?_⟩
          obtain ⟨row, hrow, hid⟩ := hchosen.row
          obtain ⟨g, hg, hview⟩ := hprogress.kept row hrow
          simp only [rowView, Prod.mk.injEq] at hview
          exact ⟨g, hg, hview.1.trans hid⟩
      · have hrows := @rows_foldl_iff digests services fails store parent _ store next [] ids rfl hfold
        simp only [hinserted, hfirst]
        rw [← hrows]
        exact ⟨fun h => h.nothing rfl, fun h => ⟨fun _ => h, (fun hfalse => by cases hfalse), (fun hfalse => by cases hfalse)⟩⟩

/-- Where the database refuses nothing, the store is the one of the split stage. -/
theorem splitResult_store {store : Store} {parent : Fragment} (hchosen : Chosen services store parent) :
    (splitResult digests policy services (fun _ => false) store parent).store =
      processFragmentSplit digests policy services store parent := by
  have hinserts : ∀ accepted, insertAccepted digests services (fun _ => false) parent store accepted =
      insertChildren digests services parent store accepted := fun _ => rfl
  simp only [splitResult, processFragmentSplit]
  cases services.items parent.id with
  | none => rfl
  | some items =>
    simp only
    split
    · rfl
    · rename_i hguard
      simp only [Bool.or_eq_true, decide_eq_true_eq, not_or] at hguard
      rcases @insertAccepted_cases digests services (fun _ => false) store parent _ hchosen
          (gateSplitChildren_bounds hchosen) with
        ⟨-, next, ids, hinserted, hprogress⟩ | ⟨position, next, ids, hfirst, -, -⟩
      · have hlength : ids.length = (gateSplitChildren policy items parent).length := by
          rw [← hprogress.reported.length_eq, List.length_zipIdx]
        have henough : ¬ ids.length < policy.minItems := hlength ▸ hguard.2
        simp only [commitResult, commitSplit, ← hinserts, hinserted, if_neg henough]
        rfl
      · have hrefused := (List.find?_range_eq_some.mp hfirst).1
        cases hrefused

def portSentence : String := "Port 8443 is proxied."

def reloadSentence : String := "Reloads happen daily."

/-- SHA-256 on the two sentences. -/
def gatewayDigests : Digests where
  hex text :=
    if text = portSentence then "762db60d8aa35713b4a7b231b81dbc9fd8f9753cd45b0de6c04e56ef466f2c6d"
    else if text = reloadSentence then
      "53d096395895a17f4b531dce886beb48a1ca0838926f1c85c4020d085fc8d658"
    else ""
  base64Url _ := ""

/-- A fragment of more than three hundred characters. -/
def gatewayFragment : Fragment where
  id := "frag-01"
  content := "Port 8443 is proxied. Reloads happen daily. Requests that arrive while a reload is under way wait in the accept queue of the proxy and are answered afterwards, so clients see a short delay and no error. Every reload is logged with the serial number of the certificate, and a failed one keeps the certificate before it until the next day."
  topic := "gateway"
  type := .fact
  importance := 7 / 10
  contentHash := "1f2908cb1e366ae2efd051eedf959f248bf8a2eb5f7bd79ff94de3309b8f1cdf"
  keyId := none
  createdAt := 1

def gatewayStore : Store where
  fragments := { rows := [gatewayFragment], disjoint := List.pairwise_singleton _ _ }

/-- A model that answers with the given items. -/
def gatewayServices (items : List String) : SplitServices where
  items _ := some items
  newId _ position := String.ofList ('c' :: List.replicate position '0')
  now := 2

/-- Two sentences in two rows: the split commits and loses nothing. -/
theorem allOrNothing_two_sentences : AllOrNothing {} gatewayStore gatewayFragment
    (splitResult gatewayDigests {} (gatewayServices [portSentence, reloadSentence]) (fun _ => false) gatewayStore
      gatewayFragment) := by
  have hchosen : Chosen (gatewayServices [portSentence, reloadSentence]) gatewayStore gatewayFragment := by
    refine ⟨⟨gatewayFragment, List.mem_singleton.mpr rfl, rfl⟩, by decide +kernel, fun position f hf => ?_,
      fun position other h => ?_⟩
    · rw [List.mem_singleton.mp hf]
      intro h
      exact absurd (congrArg (fun text => text.toList.head?) h) (by simp [gatewayServices, gatewayFragment])
    · have hlength := congrArg (fun text => text.toList.length) h
      simpa [gatewayServices] using hlength
  have hsound : InsertsSound gatewayDigests {} (gatewayServices [portSentence, reloadSentence]) (fun _ => false)
      gatewayStore gatewayFragment (gateSplitChildren {} [portSentence, reloadSentence] gatewayFragment) := by
    have haccepted : gateSplitChildren {} [portSentence, reloadSentence] gatewayFragment =
        [(portSentence, 49 / 100), (reloadSentence, 49 / 100)] := by decide +kernel
    rw [haccepted]
    decide
  exact (allOrNothing_iff hchosen).mpr (Or.inr (Or.inr hsound))

/-- A refusal of the second insert leaves the first child behind; a sentence that comes twice leaves one
child and no parent. -/
theorem split_half_done :
    ¬ AllOrNothing {} gatewayStore gatewayFragment (splitResult gatewayDigests {}
        (gatewayServices [portSentence, reloadSentence]) (fun position => position = 1) gatewayStore gatewayFragment) ∧
      ¬ AllOrNothing {} gatewayStore gatewayFragment (splitResult gatewayDigests {}
        (gatewayServices [portSentence, portSentence]) (fun _ => false) gatewayStore gatewayFragment) := by
  refine ⟨fun h => ?_, fun h => absurd (h.children (by decide +kernel)) (by decide +kernel)⟩
  have hlength := congrArg List.length (h.nothing (by decide +kernel))
  exact absurd hlength (by decide +kernel)

end FragmentMemory.SplitOutcome
