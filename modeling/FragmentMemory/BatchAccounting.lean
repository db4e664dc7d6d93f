import FragmentMemory.BatchStatements
import FragmentMemory.ContentUniqueness

/-! # The account of a batch

The results of a batch name every item at its position, and an item is reported as stored when a row
with the reported id holds its content.  The upsert keeps the content of the row that it meets, so this
rests on the hashes: every write computes them from the content, and contents that meet do not collide.
-/
namespace FragmentMemory.BatchAccounting
open ApiKeyStore FragmentTables FragmentFactory FragmentWriter BatchRememberProcessor BatchStatements
  UniqueIndexTable ContentUniqueness TransitionRuns

section Results

/-- Every result stands at its index. -/
def Positioned (results : List ItemResult) : Prop := results.map ItemResult.index = List.range results.length

theorem index_of_positioned {results : List ItemResult} (h : Positioned results) {position : ℕ} {r : ItemResult}
    (hr : results[position]? = some r) : r.index = position := by
  have hmapped : (results.map ItemResult.index)[position]? = some r.index := by
    rw [List.getElem?_map, hr, Option.map_some]
  rw [h] at hmapped
  obtain ⟨hbound, hvalue⟩ := List.getElem?_eq_some_iff.mp hmapped
  rw [← hvalue, List.getElem_range]

/-- Setting the result at a position sets the result with that index. -/
theorem modify_eq_map {results : List ItemResult} (h : Positioned results) (position : ℕ) (amend : ItemResult →
    ItemResult) :
    results.modify position amend = results.map fun r => if r.index = position then amend r else r := by
  apply List.ext_getElem?
  intro other
  rw [List.getElem?_modify, List.getElem?_map]
  rcases hr : results[other]? with _ | r
  · rfl
  · have hindex := index_of_positioned h hr
    simp only [Option.map_some, hindex, eq_comm]
    rfl

theorem positioned_modify {results : List ItemResult} (h : Positioned results) (position : ℕ)
    {amend : ItemResult → ItemResult} (hindex : ∀ r, (amend r).index = r.index) :
    Positioned (results.modify position amend) := by
  rw [modify_eq_map h, Positioned, List.map_map, List.length_map, ← h]
  refine List.map_congr_left fun r _ => ?_
  simp only [Function.comp_apply]
  split
  · exact hindex r
  · rfl

variable {α : Type*} {position : α → ℕ} {amend : α → ItemResult → ItemResult}

/-- The results after a list of assignments at distinct positions. -/
theorem amendResults_eq_map (hindex : ∀ item r, (amend item r).index = r.index) {items : List α}
    (hnodup : (items.map position).Nodup) {results : List ItemResult} (h : Positioned results) :
    amendResults position amend items results = results.map fun r =>
      match items.find? fun item => position item = r.index with
      | some item => amend item r
      | none => r := by
  induction items generalizing results with
  | nil => exact (List.map_id _).symm
  | cons item later ih =>
    rw [List.map_cons, List.nodup_cons] at hnodup
    have hmodified := modify_eq_map h (position item) (amend item)
    have hlater := ih hnodup.2 (positioned_modify h (position item) (hindex item))
    rw [amendResults, List.foldl_cons, ← amendResults, hlater, hmodified, List.map_map]
    refine List.map_congr_left fun r _ => ?_
    simp only [Function.comp_apply, List.find?_cons]
    by_cases hsame : r.index = position item
    · have hnone : (later.find? fun other => position other = (amend item r).index) = none := by
        refine List.find?_eq_none.mpr fun other hother => ?_
        simp only [decide_eq_true_eq, hindex, hsame]
        intro hposition
        exact hnodup.1 (hposition ▸ List.mem_map_of_mem hother)
      simp only [hsame, if_true, hnone, decide_true]
    · have hother : ¬ position item = r.index := fun hposition => hsame hposition.symm
      simp only [hsame, if_false, hother, decide_false]

theorem positioned_amendResults (hindex : ∀ item r, (amend item r).index = r.index) (items : List α)
    {results : List ItemResult} (h : Positioned results) :
    Positioned (amendResults position amend items results) ∧
      (amendResults position amend items results).length = results.length := by
  induction items generalizing results with
  | nil => exact ⟨h, rfl⟩
  | cons item later ih =>
    obtain ⟨hpositioned, hlength⟩ := ih (positioned_modify h (position item) (hindex item))
    exact ⟨hpositioned, hlength.trans (List.length_modify _ _ _)⟩

/-- The results beside the fragments that are still to be stored: those are the successes. -/
structure Marked (valid : List (ℕ × Fragment)) (results : List ItemResult) : Prop where
  positioned : Positioned results
  nodup : (valid.map Prod.fst).Nodup
  bounded : ∀ item ∈ valid, item.1 < results.length
  success_iff : ∀ r ∈ results, r.success = true ↔ ∃ f, (r.index, f) ∈ valid
  failed : ∀ r ∈ results, r.success = false → r.id = none

/-- Refusing the fragments beyond a number of slots. -/
theorem marked_take {valid : List (ℕ × Fragment)} {results : List ItemResult} (h : Marked valid results) (slots : ℕ) :
    Marked (valid.take slots) (amendResults Prod.fst (fun _ => refuse) (valid.drop slots) results) ∧
      (amendResults Prod.fst (fun _ => refuse) (valid.drop slots) results).length = results.length := by
  have hdropped : ((valid.drop slots).map Prod.fst).Nodup :=
    h.nodup.sublist ((List.drop_sublist slots valid).map Prod.fst)
  obtain ⟨hpositioned, hlength⟩ :=
    @positioned_amendResults _ Prod.fst (fun _ => refuse) (fun _ _ => rfl) (valid.drop slots) results h.positioned
  have hmap := @amendResults_eq_map _ Prod.fst (fun _ => refuse) (fun _ _ => rfl) _ hdropped _ h.positioned
  refine ⟨⟨hpositioned, h.nodup.sublist ((List.take_sublist slots valid).map Prod.fst), fun item hitem => ?_,
    fun r hr => ?_, fun r hr hfailed => ?_⟩, hlength⟩
  · rw [hlength]
    exact h.bounded item (List.mem_of_mem_take hitem)
  · rw [hmap] at hr
    obtain ⟨before, hbefore, rfl⟩ := List.mem_map.mp hr
    rcases hfind : (valid.drop slots).find? fun item => item.1 = before.index with _ | refused
    · simp only [hfind]
      rw [h.success_iff before hbefore]
      refine exists_congr fun f => ⟨fun hmem => ?_, List.mem_of_mem_take⟩
      rw [← List.take_append_drop slots valid, List.mem_append] at hmem
      rcases hmem with htaken | hout
      · exact htaken
      · exact absurd (decide_eq_true rfl) (List.find?_eq_none.mp hfind _ hout)
    · simp only [hfind, refuse, Bool.false_eq_true, false_iff, not_exists]
      intro f htaken
      have hfound := List.find?_some hfind
      have hposition : refused.1 = before.index := of_decide_eq_true hfound
      have hout := List.mem_of_find?_eq_some hfind
      have hdisjoint := h.nodup
      rw [← List.take_append_drop slots valid, List.map_append, List.nodup_append] at hdisjoint
      exact hdisjoint.2.2 _ (List.mem_map_of_mem htaken) _ (List.mem_map_of_mem hout) hposition.symm
  · rw [hmap] at hr
    obtain ⟨before, hbefore, rfl⟩ := List.mem_map.mp hr
    rcases hfind : (valid.drop slots).find? fun item => item.1 = before.index with _ | refused
    · simp only [hfind] at hfailed ⊢
      exact h.failed before hbefore hfailed
    · simp only [hfind, refuse]

/-- A quota check that lets fragments through. -/
theorem marked_checkQuota {remaining : Option ℕ} {total : ℕ} {valid kept : List (ℕ × Fragment)}
    {results marked : List ItemResult} (h : Marked valid results)
    (hcheck : checkQuota remaining total valid results = .ok (kept, marked)) :
    Marked kept marked ∧ marked.length = results.length ∧ ∀ item ∈ kept, item ∈ valid := by
  rcases remaining with _ | _ | slots
  · cases hcheck
    exact ⟨h, rfl, fun _ hitem => hitem⟩
  · cases hcheck
  · simp only [checkQuota] at hcheck
    split at hcheck
    · cases hcheck
      obtain ⟨htaken, hlength⟩ := marked_take h (slots + 1)
      exact ⟨htaken, hlength, fun _ hitem => List.mem_of_mem_take hitem⟩
    · cases hcheck
      exact ⟨h, rfl, fun _ hitem => hitem⟩

/-- A quota check that refuses the whole batch. -/
theorem marked_refused {remaining : Option ℕ} {total : ℕ} {valid : List (ℕ × Fragment)}
    {results : List ItemResult} {answer : BatchResult} (h : Marked valid results)
    (hcheck : checkQuota remaining total valid results = .error answer) :
    Marked [] answer.results ∧ answer.results.length = results.length ∧ answer.inserted = 0 ∧
    answer.skipped = total := by
  rcases remaining with _ | _ | slots
  · cases hcheck
  · cases hcheck
    obtain ⟨htaken, hlength⟩ := marked_take h 0
    exact ⟨htaken, hlength, rfl, rfl⟩
  · simp only [checkQuota] at hcheck
    split at hcheck <;> cases hcheck

variable {digests : Digests} {tools : TextTools} {context : BatchContext}

/-- A valid fragment comes from the item at its position. -/
theorem mem_validFragments_iff {items : List (Option BatchItem)} {position : ℕ} {f : Fragment} :
    (position, f) ∈ validFragments digests tools context items ↔
      ∃ item, items[position]? = some item ∧ prepareItem digests tools context position item = .ok f := by
  rw [validFragments, List.mem_filterMap]
  constructor
  · rintro ⟨⟨item, index⟩, hitem, hprepared⟩
    obtain ⟨built, hbuilt, hpair⟩ := Option.map_eq_some_iff.mp hprepared
    obtain ⟨rfl, rfl⟩ := Prod.mk.inj hpair
    refine ⟨item, List.mk_mem_zipIdx_iff_getElem?.mp hitem, ?_⟩
    cases hresult : prepareItem digests tools context index item with
    | error reason =>
      rw [hresult] at hbuilt
      cases hbuilt
    | ok _ =>
      rw [hresult] at hbuilt
      cases hbuilt
      rfl
  · rintro ⟨item, hitem, hprepared⟩
    refine ⟨(item, position), List.mk_mem_zipIdx_iff_getElem?.mpr hitem, ?_⟩
    simp only [hprepared, Except.toOption, Option.map_some]

theorem nodup_validFragments (items : List (Option BatchItem)) :
    ((validFragments digests tools context items).map Prod.fst).Nodup := by
  have hpositions : (items.zipIdx.map Prod.snd).Nodup := by
    rw [List.zipIdx_map_snd]
    exact List.nodup_range'
  refine List.pairwise_map.mpr (List.pairwise_filterMap.mpr ((List.pairwise_map.mp hpositions).imp ?_))
  rintro ⟨item, position⟩ ⟨other, otherPosition⟩ hne pair hpair otherPair hotherPair
  obtain ⟨f, -, rfl⟩ := Option.map_eq_some_iff.mp hpair
  obtain ⟨g, -, rfl⟩ := Option.map_eq_some_iff.mp hotherPair
  exact hne

/-- The results after the validation of the items. -/
theorem marked_start (items : List (Option BatchItem)) :
    Marked (validFragments digests tools context items) (items.zipIdx.map fun (item, position) =>
      itemResult position (prepareItem digests tools context position item)) := by
  have hindex : ∀ position prepared, (itemResult position prepared).index = position := by
    rintro position (_ | _) <;> rfl
  have hresult : ∀ r ∈ items.zipIdx.map fun (item, position) =>
      itemResult position (prepareItem digests tools context position item),
      ∃ item, items[r.index]? = some item ∧
        r = itemResult r.index (prepareItem digests tools context r.index item) := by
    intro r hr
    obtain ⟨⟨item, position⟩, hitem, rfl⟩ := List.mem_map.mp hr
    simp only [hindex]
    exact ⟨item, List.mk_mem_zipIdx_iff_getElem?.mp hitem, rfl⟩
  refine ⟨?_, nodup_validFragments items, ?_, ?_, ?_⟩
  · rw [Positioned, List.map_map, List.length_map, List.length_zipIdx, List.range_eq_range',
      ← List.zipIdx_map_snd 0 items]
    exact List.map_congr_left fun pair _ => hindex _ _
  · rintro ⟨position, f⟩ hvalid
    obtain ⟨item, hitem, -⟩ := mem_validFragments_iff.mp hvalid
    rw [List.length_map, List.length_zipIdx]
    exact (List.getElem?_eq_some_iff.mp hitem).1
  · intro r hr
    obtain ⟨item, hitem, hsame⟩ := hresult r hr
    simp only [mem_validFragments_iff, hitem, Option.some.injEq, exists_eq_left']
    rw [hsame, hindex]
    cases prepareItem digests tools context r.index item with
    | error reason => simp [itemResult]
    | ok f => simp [itemResult]
  · intro r hr hfailed
    obtain ⟨item, -, hsame⟩ := hresult r hr
    cases hprepared : prepareItem digests tools context r.index item with
    | error reason =>
      rw [hsame, hprepared]
      rfl
    | ok f =>
      rw [hsame, hprepared] at hfailed
      cases hfailed

end Results

section Transaction

variable {digests : Digests} {tools : TextTools} {context : BatchContext}

theorem insertAll_append (store : Store) (items later : List (ℕ × Fragment)) :
    insertAll context store (items ++ later) = (insertAll context store items).bind fun done =>
      (insertAll context done.1 later).map fun more => (more.1, done.2 ++ more.2) := by
  induction items generalizing store with
  | nil => simp [insertAll]
  | cons item rest ih =>
    obtain ⟨position, f⟩ := item
    simp only [List.cons_append, insertAll]
    rcases upsertRow context.now store (insertRow context f) with _ | ⟨next, id⟩
    · rfl
    · simp only [ih, Option.map_bind, Option.bind_map, Option.map_map, Function.comp_def, List.cons_append]

def setId (item : ℕ × Fragment × FragmentId) (r : ItemResult) : ItemResult := { r with id := some item.2.2 }

/-- The ids that a statement returns go to the items of its rows. -/
theorem recordChunk_eq {store next : Store} {chunk : List (ℕ × Fragment)} {inserted : List (ℕ × Fragment × FragmentId)}
    (h : insertAll context store chunk = some (next, inserted)) (results : List ItemResult) :
    recordChunk chunk (inserted.map fun item => item.2.2) results = amendResults Prod.fst setId inserted results := by
  have hreturned : ∀ (current : List ItemResult), ∀ entry ∈ inserted.zipIdx,
      current.modify entry.1.1 (fun r => { r with
        id := some ((inserted.map fun item => item.2.2)[entry.2]?.getD entry.1.2.1.id) }) =
      current.modify entry.1.1 (setId entry.1) := by
    rintro current ⟨item, i⟩ hentry
    have hitem : inserted[i]? = some item := List.mk_mem_zipIdx_iff_getElem?.mp hentry
    simp only [List.getElem?_map, hitem, Option.map_some, Option.getD_some]
    rfl
  have hfold := List.foldl_ext _ _ results hreturned
  rw [recordChunk, amendResults, ← insertAll_items h, List.zipIdx_map, List.foldl_map]
  refine hfold.trans ?_
  rw [amendResults]
  conv_rhs => rw [← List.zipIdx_map_fst 0 inserted, List.foldl_map]

/-- Statements without a repeated conflict target are the upserts of their rows in order. -/
theorem insertChunks_eq {chunks : List (List (ℕ × Fragment))}
    (h : ∀ chunk ∈ chunks, (chunk.map conflictTarget).Nodup) (store : Store) (results : List ItemResult)
    (insertedCount : ℕ) :
    insertChunks context store results insertedCount chunks = (insertAll context store chunks.flatten).map fun done =>
      (done.1, amendResults Prod.fst setId done.2 results, insertedCount + done.2.length) := by
  induction chunks generalizing store results insertedCount with
  | nil => rfl
  | cons chunk later ih =>
    have hchunk := h chunk List.mem_cons_self
    have hlater := ih fun other hother => h other (List.mem_cons_of_mem _ hother)
    rw [insertChunks, insertChunk, if_pos hchunk, List.flatten_cons, insertAll_append]
    rcases hinsert : insertAll context store chunk with _ | ⟨next, inserted⟩
    · rfl
    · have hlength : inserted.length = chunk.length := by
        rw [← insertAll_items hinsert, List.length_map]
      simp only [Option.map_some, Option.bind_some, hlater, recordChunk_eq hinsert, Option.map_map, Function.comp_def,
        amendResults, List.foldl_append, List.length_append, hlength, Nat.add_assoc]

theorem nodup_conflictTarget {chunk : List (ℕ × Fragment)} (h : (chunk.map itemHash).Nodup) :
    (chunk.map conflictTarget).Nodup := by
  refine List.pairwise_map.mpr ((List.pairwise_map.mp h).imp fun hne htarget => hne ?_)
  exact (FragmentEntry.contentHash.inj htarget).2

theorem insertChunks_splitChunks (store : Store) (results : List ItemResult) (valid : List (ℕ × Fragment)) :
    insertChunks context store results 0 (splitChunks .empty valid) = (insertAll context store valid).map fun done =>
      (done.1, amendResults Prod.fst setId done.2 results, done.2.length) := by
  have htargets : ∀ chunk ∈ splitChunks .empty valid, (chunk.map conflictTarget).Nodup :=
    fun chunk hchunk => nodup_conflictTarget (withinLimits_splitChunks valid chunk hchunk).2.hashes
  simp only [insertChunks_eq htargets, flatten_splitChunks, Nat.zero_add]

theorem amendResults_refuse {valid : List (ℕ × Fragment)} {results : List ItemResult}
    (hnodup : (valid.map Prod.fst).Nodup)
    (h : Positioned results) :
    amendResults Prod.fst (fun _ => refuse) valid results = rejectByQuota valid results := by
  rw [@amendResults_eq_map _ Prod.fst (fun _ => refuse) (fun _ _ => rfl) _ hnodup _ h, rejectByQuota]
  refine List.map_congr_left fun r _ => ?_
  have hany : (valid.any fun item => item.1 = r.index) = (valid.find? fun item => item.1 = r.index).isSome := by
    rw [Bool.eq_iff_iff, List.find?_isSome, List.any_eq_true]
  rw [hany]
  rcases hfind : valid.find? fun item => item.1 = r.index with _ | item
  · simp only [hfind, Option.isSome_none, Bool.false_eq_true, if_false]
  · simp only [hfind, Option.isSome_some, if_true, refuse]

theorem amendResults_setId {inserted : List (ℕ × Fragment × FragmentId)} {results : List ItemResult}
    (hnodup : (inserted.map Prod.fst).Nodup) (h : Positioned results) :
    amendResults Prod.fst setId inserted results = recordIds inserted results := by
  rw [@amendResults_eq_map _ Prod.fst setId (fun _ _ => rfl) _ hnodup _ h, recordIds]
  refine List.map_congr_left fun r _ => ?_
  rcases hfind : inserted.find? fun item => item.1 = r.index with _ | item
  · simp only [hfind]
  · simp only [hfind, setId]

theorem indexReported_eq {store : Store} {valid : List (ℕ × Fragment)} {inserted : List (ℕ × Fragment × FragmentId)}
    (h : inserted.map (fun item => (item.1, item.2.1)) = valid) (results : List ItemResult) :
    indexReported tools context store valid results = indexInserted tools context store inserted results := by
  rw [indexReported, ← h, List.foldl_map, indexInserted]

theorem insertValid_none {store : Store} {kept : List (ℕ × Fragment)} (h : insertAll context store kept = none)
    (total : ℕ) (results : List ItemResult) :
    insertValid tools context store total kept results = (store, .error "insert failed") := by
  simp only [insertValid, insertChunks_splitChunks, h, Option.map_none]

/-- The statements of phase B against the upserts of the batch as one transition. -/
theorem insertValid_some {store next : Store} {kept : List (ℕ × Fragment)} {results : List ItemResult}
    {inserted : List (ℕ × Fragment × FragmentId)} (h : insertAll context store kept = some (next, inserted))
    (hmarked : Marked kept results) (total : ℕ) :
    insertValid tools context store total kept results =
      (indexInserted tools context next inserted (recordIds inserted results),
        .ok { results := recordIds inserted results, inserted := inserted.length, skipped := total - inserted.length }) := by
  have hitems := insertAll_items h
  have hnodup : (inserted.map Prod.fst).Nodup := by
    have hkept := hmarked.nodup
    rw [← hitems, List.map_map] at hkept
    exact hkept
  have hresults := amendResults_setId hnodup hmarked.positioned
  simp only [insertValid, insertChunks_splitChunks, h, Option.map_some, hresults, indexReported_eq hitems]

/-- Against one store the two checks are one: with the first slots of the key taken, the second check
has nothing to refuse. -/
theorem processSync_eq_process (store : Store) (items : List (Option BatchItem)) :
    processSync digests tools context context.fragmentLimit store store items =
      process digests tools context store items := by
  rw [processSync, process]
  rcases argumentError items with _ | reason
  · have hstart := @marked_start digests tools context items
    simp only
    generalize (items.zipIdx.map fun (item, position) =>
      itemResult position (prepareItem digests tools context position item)) = results at hstart ⊢
    generalize validFragments digests tools context items = valid at hstart ⊢
    have hnone : rejectByQuota [] results = results := by
      simp [rejectByQuota]
    by_cases hempty : valid = []
    · simp only [hempty, if_true]
    · simp only [hempty, if_false]
      rcases remainingSlots context store with _ | _ | slots
      · simp only [checkQuota, Option.getD_none, List.take_length, List.drop_length, hnone, reduceCtorEq, if_false]
        rcases hinsert : insertAll context store valid with _ | ⟨next, inserted⟩
        · simp only [insertValid_none hinsert]
        · simp only [insertValid_some hinsert hstart]
      · simp only [checkQuota, if_true, amendResults_refuse hstart.nodup hstart.positioned]
      · have hsome : ¬ some (slots + 1) = some 0 := by simp
        simp only [checkQuota, hsome, if_false, Option.getD_some]
        by_cases hslots : slots + 1 < valid.length
        · have hkept : ¬ slots + 1 < (valid.take (slots + 1)).length := by
            rw [List.length_take]
            omega
          have hdropped : ((valid.drop (slots + 1)).map Prod.fst).Nodup :=
            hstart.nodup.sublist ((List.drop_sublist _ valid).map Prod.fst)
          have hrefused := amendResults_refuse hdropped hstart.positioned
          have hmarked := (marked_take hstart (slots + 1)).1
          rw [hrefused] at hmarked
          simp only [hslots, if_true, hkept, if_false, hrefused]
          rcases hinsert : insertAll context store (valid.take (slots + 1)) with _ | ⟨next, inserted⟩
          · simp only [insertValid_none hinsert]
          · simp only [insertValid_some hinsert hmarked]
        · have hall : valid.length ≤ slots + 1 := by omega
          simp only [hslots, if_false, List.take_of_length_le hall, List.drop_of_length_le hall, hnone]
          rcases hinsert : insertAll context store valid with _ | ⟨next, inserted⟩
          · simp only [insertValid_none hinsert]
          · simp only [insertValid_some hinsert hstart]
  · rfl

end Transaction

section Contents

variable (digests : Digests)

/-- Every hash in the table was computed from the content of its row, by the one way or the other. -/
def HashesComputed (store : Store) : Prop := ∀ row ∈ store.fragments.rows,
  row.contentHash = computeContentHash digests row.content ∨ row.contentHash = hashContent digests row.content

/-- Neither the factory's hash nor the full one of a content is the factory's hash of another. -/
def CollisionFree (contents : List String) : Prop := ∀ content ∈ contents, ∀ other ∈ contents,
  (hashContent digests content = hashContent digests other → content = other) ∧
    (computeContentHash digests content = hashContent digests other → content = other)

instance (contents : List String) : Decidable (CollisionFree digests contents) :=
  inferInstanceAs (Decidable (∀ content ∈ contents, ∀ other ∈ contents, _))

variable {digests} {tools : TextTools} {context : BatchContext}

theorem hashesComputed_upsertRow {now : Time} {store next : Store} {row : Fragment} {id : FragmentId}
    (hstore : HashesComputed digests store)
    (hrow : row.contentHash = computeContentHash digests row.content ∨
      row.contentHash = hashContent digests row.content)
    (h : upsertRow now store row = some (next, id)) : HashesComputed digests next := by
  intro f hf
  rcases mem_upsertRow h hf with rfl | ⟨before, hbefore, -, -, hcontent, hhash⟩
  · exact hrow
  · rw [hcontent, hhash]
    exact hstore before hbefore

theorem hashesComputed_insertAll {items : List (ℕ × Fragment)}
    (hitems : ∀ item ∈ items, item.2.contentHash = hashContent digests item.2.content) {store next : Store}
    {inserted : List (ℕ × Fragment × FragmentId)} (hstore : HashesComputed digests store)
    (h : insertAll context store items = some (next, inserted)) : HashesComputed digests next := by
  induction items generalizing store inserted with
  | nil =>
    cases h
    exact hstore
  | cons item later ih =>
    obtain ⟨position, f⟩ := item
    simp only [insertAll] at h
    split at h
    · cases h
    · rename_i middle id hupsert
      obtain ⟨⟨done, rest⟩, hlater, hresult⟩ := Option.map_eq_some_iff.mp h
      obtain rfl := (Prod.mk.inj hresult).1
      have hf : f.contentHash = hashContent digests f.content := hitems _ List.mem_cons_self
      have hmiddle : HashesComputed digests middle := hashesComputed_upsertRow hstore (Or.inr (by exact hf)) hupsert
      exact ih (fun x hx => hitems x (List.mem_cons_of_mem _ hx)) hmiddle hlater

theorem hashesComputed_update {store : Store} (hstore : HashesComputed digests store) (now : Time) (id : FragmentId)
    (updates : FragmentUpdates) (callerKey : Option KeyId) :
    HashesComputed digests (update digests tools.countTokens now store id updates callerKey).1 := by
  rcases update_cases tools.countTokens now store id updates callerKey with
    hsame | ⟨existing, fragments, hexisting, -, -, hreplace, hupdate⟩
  · rw [hsame]
    exact hstore
  · rw [hupdate]
    intro f hf
    simp only [Table.rows_replace hreplace] at hf
    obtain ⟨before, hbefore, rfl⟩ := List.mem_map.mp hf
    split
    · have hexistingRow := ((byId_eq_some_iff _).mp hexisting).1
      cases hcontent : updates.content with
      | none =>
        simp only [FragmentUpdates.apply, hcontent, Option.getD_none, Option.map_none]
        exact hstore existing hexistingRow
      | some content =>
        simp only [FragmentUpdates.apply, hcontent, Option.getD_some, Option.map_some]
        exact Or.inl trivial
    · exact hstore before hbefore

/-- Every write computes the hash of the content that it stores. -/
theorem hashesComputed_step (store : Store) (request : WriteRequest) (hstore : HashesComputed digests store) :
    HashesComputed digests (step digests tools store request) := by
  cases request with
  | remember now f =>
    rw [step]
    rcases hinsert : insert digests now store f with _ | ⟨next, id⟩
    · exact hstore
    · exact hashesComputed_upsertRow hstore (Or.inl rfl) hinsert
  | batchRemember context items =>
    rw [step]
    rcases process_cases (by exact store) items with hsame | ⟨kept, next, inserted, results, hkept, hinsert, -, hprocess⟩
    · rw [hsame]
      exact hstore
    · have hhash : ∀ item ∈ kept, item.2.contentHash = hashContent digests item.2.content :=
        fun item hitem => (validFragments_spec (hkept item hitem)).2.1
      have hnext : HashesComputed digests next := hashesComputed_insertAll hhash hstore hinsert
      rw [hprocess]
      intro row hrow
      rw [indexInserted_fragments] at hrow
      exact hnext row hrow
  | amend now callerKey id updates => exact hashesComputed_update hstore now id updates callerKey

/-- An upsert reports a row with the hash, and every row stays with its id and content. -/
theorem upsertRow_reported {now : Time} {store next : Store} {row : Fragment} {id : FragmentId}
    (h : upsertRow now store row = some (next, id)) :
    (∃ g ∈ next.fragments.rows, g.id = id ∧ g.contentHash = row.contentHash) ∧
      ∀ f ∈ store.fragments.rows, ∃ g ∈ next.fragments.rows, g.id = f.id ∧ g.content = f.content := by
  rcases upsertRow_cases h with ⟨held, hheld, -, hhash, rfl, rfl⟩ | ⟨-, rfl, fragments, hinsert, rfl⟩
  · have hupdated : ∀ f ∈ store.fragments.rows, ∃ g ∈ (store.updateFragments (fun f =>
        decide (FragmentEntry.contentHash row.keyId row.contentHash ∈ f.entries)) (promote now row)).fragments.rows,
        g.id = f.id ∧ g.content = f.content ∧ g.contentHash = f.contentHash := by
      intro f hf
      refine ⟨_, updated_mem_updateFragments hf _ _, ?_⟩
      split <;> exact ⟨rfl, rfl, rfl⟩
    constructor
    · obtain ⟨g, hg, hid, -, hsame⟩ := hupdated held hheld
      exact ⟨g, hg, hid, hsame.trans hhash⟩
    · intro f hf
      obtain ⟨g, hg, hid, hcontent, -⟩ := hupdated f hf
      exact ⟨g, hg, hid, hcontent⟩
  · have hrows := Table.rows_insert hinsert
    simp only [hrows]
    constructor
    · exact ⟨row, List.mem_append_right _ (List.mem_singleton.mpr rfl), rfl, rfl⟩
    · intro f hf
      exact ⟨f, List.mem_append_left _ hf, rfl, rfl⟩

theorem insertAll_keeps {items : List (ℕ × Fragment)} {store next : Store}
    {inserted : List (ℕ × Fragment × FragmentId)} (h : insertAll context store items = some (next, inserted)) :
    ∀ f ∈ store.fragments.rows, ∃ g ∈ next.fragments.rows, g.id = f.id ∧ g.content = f.content := by
  induction items generalizing store inserted with
  | nil =>
    cases h
    exact fun f hf => ⟨f, hf, rfl, rfl⟩
  | cons item later ih =>
    obtain ⟨position, f⟩ := item
    simp only [insertAll] at h
    split at h
    · cases h
    · rename_i middle id hupsert
      obtain ⟨⟨done, rest⟩, hlater, hresult⟩ := Option.map_eq_some_iff.mp h
      obtain rfl := (Prod.mk.inj hresult).1
      intro row hrow
      obtain ⟨kept, hkept, hid, hcontent⟩ := (upsertRow_reported hupsert).2 row hrow
      obtain ⟨last, hlast, hlastId, hlastContent⟩ := ih hlater kept hkept
      exact ⟨last, hlast, hlastId.trans hid, hlastContent.trans hcontent⟩

/-- The rows that a transaction reports hold the contents of its items, by induction on the items: the
contents of the table stay among the known ones, of which no two collide. -/
theorem insertAll_contents {known : List String} (hfree : CollisionFree digests known) {items : List (ℕ × Fragment)}
    (hitems : ∀ item ∈ items, item.2.contentHash = hashContent digests item.2.content ∧ item.2.content ∈ known)
    {store next : Store} {inserted : List (ℕ × Fragment × FragmentId)} (hstore : HashesComputed digests store)
    (hknown : ∀ row ∈ store.fragments.rows, row.content ∈ known)
    (h : insertAll context store items = some (next, inserted)) :
    ∀ item ∈ inserted, ∃ row ∈ next.fragments.rows, row.id = item.2.2 ∧ row.content = item.2.1.content := by
  induction items generalizing store inserted with
  | nil =>
    cases h
    exact fun _ hitem => absurd hitem List.not_mem_nil
  | cons item later ih =>
    obtain ⟨position, f⟩ := item
    simp only [insertAll] at h
    split at h
    · cases h
    · rename_i middle id hupsert
      obtain ⟨⟨done, rest⟩, hlater, hresult⟩ := Option.map_eq_some_iff.mp h
      obtain ⟨rfl, rfl⟩ := Prod.mk.inj hresult
      obtain ⟨hhash, hcontent⟩ : f.contentHash = hashContent digests f.content ∧ f.content ∈ known :=
        hitems _ List.mem_cons_self
      have hmiddle : HashesComputed digests middle := hashesComputed_upsertRow hstore (Or.inr (by exact hhash)) hupsert
      have hmiddleKnown : ∀ row ∈ middle.fragments.rows, row.content ∈ known := by
        intro row hrow
        rcases mem_upsertRow hupsert hrow with rfl | ⟨before, hbefore, -, -, hsame, -⟩
        · exact hcontent
        · rw [hsame]
          exact hknown before hbefore
      intro reported hreported
      rcases List.mem_cons.mp hreported with rfl | hrest
      · obtain ⟨g, hg, hgid, hghash⟩ := (upsertRow_reported hupsert).1
        have hgcontent : g.content = f.content := by
          have hrowHash : g.contentHash = hashContent digests f.content := hghash.trans hhash
          obtain ⟨hfactory, hfull⟩ := hfree g.content (hmiddleKnown g hg) f.content hcontent
          rcases hmiddle g hg with hcomputed | hcomputed
          · exact hfull (hcomputed.symm.trans hrowHash)
          · exact hfactory (hcomputed.symm.trans hrowHash)
        obtain ⟨row, hrow, hid, hsame⟩ := insertAll_keeps hlater g hg
        exact ⟨row, hrow, hid.trans hgid, hsame.trans hgcontent⟩
      · exact ih (fun x hx => hitems x (List.mem_cons_of_mem _ hx)) hmiddle hmiddleKnown hlater reported hrest

end Contents

section Account

variable {digests : Digests} {tools : TextTools} {context : BatchContext}

/-- What the factory made of the content of the item at a position. -/
def processedContent (digests : Digests) (tools : TextTools) (context : BatchContext) (items : List (Option BatchItem))
    (position : ℕ) : Option String :=
  items[position]?.bind fun item => (prepareItem digests tools context position item).toOption.map Fragment.content

/-- The answer of a batch against its items and the table after it. -/
structure Accounts (processed : ℕ → Option String) (total : ℕ) (table : List Fragment) (answer : BatchResult) : Prop where
  entries : answer.results.map ItemResult.index = List.range total
  success_iff : ∀ r ∈ answer.results,
    r.success = true ↔ ∃ row ∈ table, r.id = some row.id ∧ processed r.index = some row.content
  inserted : answer.inserted = answer.results.countP ItemResult.success
  total : answer.inserted + answer.skipped = total

/-- As many results are successes as fragments remain. -/
theorem countP_success {valid : List (ℕ × Fragment)} {results : List ItemResult} (h : Marked valid results) :
    results.countP ItemResult.success = valid.length := by
  have hsuccesses : ((results.filter ItemResult.success).map ItemResult.index).Nodup := by
    have hpositions := h.positioned
    refine List.Nodup.sublist (List.filter_sublist.map ItemResult.index) ?_
    rw [hpositions]
    exact List.nodup_range
  have hsame : ∀ position, position ∈ (results.filter ItemResult.success).map ItemResult.index ↔
      position ∈ valid.map Prod.fst := by
    intro position
    constructor
    · intro hposition
      obtain ⟨r, hr, rfl⟩ := List.mem_map.mp hposition
      obtain ⟨hmem, hsuccess⟩ := List.mem_filter.mp hr
      obtain ⟨f, hf⟩ := (h.success_iff r hmem).mp hsuccess
      exact List.mem_map_of_mem hf
    · intro hposition
      obtain ⟨⟨index, f⟩, hf, rfl⟩ := List.mem_map.mp hposition
      have hbound : index < results.length := h.bounded _ hf
      have hindex : results[index].index = index := index_of_positioned h.positioned (List.getElem?_eq_getElem hbound)
      have hsuccess := (h.success_iff results[index] (List.getElem_mem hbound)).mpr ⟨f, hindex.symm ▸ hf⟩
      exact List.mem_map.mpr ⟨_, List.mem_filter.mpr ⟨List.getElem_mem hbound, hsuccess⟩, hindex⟩
  have hperm : ((results.filter ItemResult.success).map ItemResult.index).Perm (valid.map Prod.fst) :=
    (List.perm_ext_iff_of_nodup hsuccesses h.nodup).mpr hsame
  have hlength := hperm.length_eq
  rw [List.length_map, List.length_map] at hlength
  rw [List.countP_eq_length_filter, hlength]

/-- An answer that reports no success. -/
theorem accounts_of_none {processed : ℕ → Option String} {total : ℕ} {table : List Fragment} {answer : BatchResult}
    (h : Marked [] answer.results) (hlength : answer.results.length = total) (hinserted : answer.inserted = 0)
    (hskipped : answer.skipped = total) : Accounts processed total table answer := by
  have hfailed : ∀ r ∈ answer.results, r.success = false := by
    intro r hr
    rw [Bool.eq_false_iff]
    intro hsuccess
    obtain ⟨f, hf⟩ := (h.success_iff r hr).mp hsuccess
    cases hf
  refine ⟨hlength ▸ h.positioned, fun r hr => ?_, ?_, ?_⟩
  · have hid := h.failed r hr (hfailed r hr)
    simp only [hfailed r hr, hid, Bool.false_eq_true, reduceCtorEq, false_and, and_false, exists_false]
  · rw [hinserted, countP_success h]
    rfl
  · rw [hinserted, hskipped, Nat.zero_add]

/-- One result after the transaction. -/
def recordId (inserted : List (ℕ × Fragment × FragmentId)) (r : ItemResult) : ItemResult :=
  match inserted.find? fun item => item.1 = r.index with
  | some item => { r with id := some item.2.2 }
  | none => r

theorem recordIds_eq_map (inserted : List (ℕ × Fragment × FragmentId)) (results : List ItemResult) :
    recordIds inserted results = results.map (recordId inserted) := rfl

theorem recordId_kept (inserted : List (ℕ × Fragment × FragmentId)) (r : ItemResult) :
    (recordId inserted r).success = r.success ∧ (recordId inserted r).index = r.index := by
  rw [recordId]
  split <;> exact ⟨rfl, rfl⟩

/-- The answer after a transaction whose rows hold the contents of its items. -/
theorem accounts_of_inserted {processed : ℕ → Option String} {results : List ItemResult} {table : List Fragment}
    {inserted : List (ℕ × Fragment × FragmentId)}
    (h : Marked (inserted.map fun item => (item.1, item.2.1)) results)
    (hprocessed : ∀ item ∈ inserted, processed item.1 = some item.2.1.content)
    (hrows : ∀ item ∈ inserted, ∃ row ∈ table, row.id = item.2.2 ∧ row.content = item.2.1.content) :
    Accounts processed results.length table {
      results := recordIds inserted results
      inserted := inserted.length
      skipped := results.length - inserted.length } := by
  have hcount := countP_success h
  have hbound : inserted.length ≤ results.length := by
    rw [List.length_map] at hcount
    rw [← hcount]
    exact List.countP_le_length
  refine ⟨?_, ?_, ?_, by simp only; omega⟩
  · rw [← h.positioned, recordIds_eq_map, List.map_map]
    exact List.map_congr_left fun r _ => (recordId_kept inserted r).2
  · intro r hr
    rw [recordIds_eq_map] at hr
    obtain ⟨before, hbefore, rfl⟩ := List.mem_map.mp hr
    rw [(recordId_kept inserted before).1, (recordId_kept inserted before).2, h.success_iff before hbefore, recordId]
    rcases hfind : inserted.find? fun item => item.1 = before.index with _ | item
    · have hnone : ¬ ∃ f, (before.index, f) ∈ inserted.map fun item => (item.1, item.2.1) := by
        rintro ⟨f, hf⟩
        obtain ⟨item, hitem, hpair⟩ := List.mem_map.mp hf
        have hposition : item.1 = before.index := (Prod.mk.inj hpair).1
        exact List.find?_eq_none.mp hfind item hitem (decide_eq_true hposition)
      have hfailed : before.success = false := by
        rw [Bool.eq_false_iff]
        exact fun hsuccess => hnone ((h.success_iff before hbefore).mp hsuccess)
      have hid := h.failed before hbefore hfailed
      simp only [hfind, hnone, hid, reduceCtorEq, false_and, and_false, exists_false]
    · have hitem := List.mem_of_find?_eq_some hfind
      have hfound := List.find?_some hfind
      have hposition : item.1 = before.index := of_decide_eq_true hfound
      obtain ⟨row, hrow, hid, hcontent⟩ := hrows item hitem
      constructor
      · intro _
        refine ⟨row, hrow, ?_, ?_⟩
        · simp only [hfind, hid]
        · rw [← hposition, hprocessed item hitem, hcontent]
      · intro _
        exact ⟨item.2.1, List.mem_map.mpr ⟨item, hitem, by rw [hposition]⟩⟩
  · have hrecorded : (recordIds inserted results).countP ItemResult.success = results.countP ItemResult.success := by
      rw [recordIds_eq_map, List.countP_map]
      exact List.countP_congr fun r _ => by rw [Function.comp_apply, (recordId_kept inserted r).1]
    rw [hrecorded, hcount, List.length_map]

/-- The contents that a batch can meet: those of the table and those of its own fragments. -/
def contentsMet (digests : Digests) (tools : TextTools) (context : BatchContext) (store : Store)
    (items : List (Option BatchItem)) : List String :=
  store.fragments.rows.map Fragment.content ++ (validFragments digests tools context items).map fun item => item.2.content

/-- The chunks of a list of fragments. -/
structure PartitionsInOrder (chunks : List (List (ℕ × Fragment))) (survivors : List (ℕ × Fragment)) : Prop where
  flatten : chunks.flatten = survivors
  limits : ∀ chunk ∈ chunks, chunk ≠ [] ∧ WithinLimits chunk

theorem partitionsInOrder_splitChunks (survivors : List (ℕ × Fragment)) :
    PartitionsInOrder (splitChunks .empty survivors) survivors :=
  ⟨flatten_splitChunks survivors, withinLimits_splitChunks survivors⟩

/-- The account of a batch on a store whose hashes were computed from its contents. -/
theorem accounts_processSync {earlierLimit : Option ℕ} {earlier store : Store} {items : List (Option BatchItem)}
    {answer : BatchResult} (hstore : HashesComputed digests store)
    (hfree : CollisionFree digests (contentsMet digests tools context store items))
    (h : (processSync digests tools context earlierLimit earlier store items).2 = .ok answer) :
    Accounts (processedContent digests tools context items) items.length
      (processSync digests tools context earlierLimit earlier store items).1.fragments.rows answer := by
  have hstart := @marked_start digests tools context items
  have hlength : (items.zipIdx.map fun (item, position) =>
      itemResult position (prepareItem digests tools context position item)).length = items.length := by
    rw [List.length_map, List.length_zipIdx]
  rw [processSync] at h ⊢
  rcases hargument : argumentError items with _ | reason
  · simp only [hargument] at h ⊢
    generalize (items.zipIdx.map fun (item, position) =>
      itemResult position (prepareItem digests tools context position item)) = results at hstart hlength h ⊢
    by_cases hempty : validFragments digests tools context items = []
    · rw [hempty] at hstart
      simp only [hempty, if_true, Except.ok.injEq] at h ⊢
      subst h
      exact accounts_of_none hstart hlength rfl rfl
    · simp only [hempty, if_false] at h ⊢
      rcases hfirst : checkQuota (remainingSlots { context with fragmentLimit := earlierLimit } earlier) items.length
          (validFragments digests tools context items) results with refused | ⟨valid, marked⟩
      · obtain ⟨hnone, hsame, hinserted, hskipped⟩ := marked_refused hstart hfirst
        simp only [hfirst, Except.ok.injEq] at h ⊢
        subst h
        exact accounts_of_none hnone (hsame.trans hlength) hinserted hskipped
      · obtain ⟨hmarked, hsame, hvalid⟩ := marked_checkQuota hstart hfirst
        simp only [hfirst] at h ⊢
        rcases hsecond :
          checkQuota (remainingSlots context store) items.length valid marked with refused | ⟨kept, final⟩
        · obtain ⟨hnone, hsame', hinserted, hskipped⟩ := marked_refused hmarked hsecond
          simp only [hsecond, Except.ok.injEq] at h ⊢
          subst h
          exact accounts_of_none hnone (hsame'.trans (hsame.trans hlength)) hinserted hskipped
        · obtain ⟨hfinal, hsame', hkept⟩ := marked_checkQuota hmarked hsecond
          simp only [hsecond] at h ⊢
          have htotal : final.length = items.length := hsame'.trans (hsame.trans hlength)
          rcases hinsert : insertAll context store kept with _ | ⟨next, inserted⟩
          · rw [insertValid_none hinsert] at h
            cases h
          · rw [insertValid_some hinsert hfinal, ← htotal] at h ⊢
            obtain rfl := Except.ok.inj h
            have hitems := insertAll_items hinsert
            have hvalidItem : ∀ item ∈ kept, item ∈ validFragments digests tools context items :=
              fun item hitem => hvalid item (hkept item hitem)
            have hcontents : ∀ item ∈ kept, item.2.contentHash = hashContent digests item.2.content ∧
                item.2.content ∈ contentsMet digests tools context store items := by
              intro item hitem
              refine ⟨(validFragments_spec (hvalidItem item hitem)).2.1, List.mem_append_right _ ?_⟩
              exact List.mem_map_of_mem (hvalidItem item hitem)
            have hknown : ∀ row ∈ store.fragments.rows, row.content ∈ contentsMet digests tools context store items :=
              fun row hrow => List.mem_append_left _ (List.mem_map_of_mem hrow)
            have hrows := insertAll_contents hfree hcontents hstore hknown hinsert
            simp only [indexInserted_fragments]
            refine accounts_of_inserted (hitems.symm ▸ hfinal) ?_ hrows
            intro item hitem
            have hmem : (item.1, item.2.1) ∈ kept := by
              rw [← hitems]
              exact List.mem_map_of_mem hitem
            obtain ⟨given, hgiven, hprepared⟩ := mem_validFragments_iff.mp (hvalidItem _ hmem)
            simp only [processedContent, hgiven, hprepared, Option.bind_some, Except.toOption, Option.map_some]
  · simp only [hargument] at h
    cases h

end Account

def reviewContent : String := "deploy needs two reviews"

/-- SHA-256 on the two contents of the sample batches. -/
def batchDigests : Digests where
  hex text := if text = reviewContent then
    "6ef3c035de35805bdf9fa64b0e0e8ab7c4610ba4cd1023e7eab4bbb19e06c9f1" else sampleDigests.hex text
  base64Url _ := ""

def secondBatch : BatchContext where
  keyId := some sampleKey
  fragmentLimit := some 2
  newId position := if position = 0 then "frag-03" else "frag-04"
  now := 3
  redisReady := false

/-- A content that the table holds already, a missing item and one beyond the quota. -/
def mixedItems : List (Option BatchItem) :=
  [some sampleItem, none, some { sampleItem with content := some reviewContent }]

def mixedAnswer : BatchResult where
  results := [
    { index := 0, id := some "frag-02", success := true },
    { index := 1, id := none, success := false, error := some "Cannot read properties of null (reading 'content')" },
    { index := 2, id := none, success := false, error := some "fragment_limit_exceeded" }]
  inserted := 1
  skipped := 2

end FragmentMemory.BatchAccounting
