import FragmentMemory.FragmentSearch

/-! # Where the rows of a search come from

The stages after the queries select, reorder and mark: every row in the result is one that a layer has
found.
-/
namespace FragmentMemory.SearchProvenance
open ApiKeyStore FragmentTables RecallQueries FragmentSearch RankFusion

variable {store : Store} {q : SearchQuery} {model : SearchModel} {context : SearchContext}

/-- The rows of some hits are rows of others. -/
def RowsAmong (found more : List Hit) : Prop := ∀ hit ∈ found, ∃ other ∈ more, other.row = hit.row

namespace RowsAmong

theorem of_mem {found more : List Hit} (hsub : ∀ hit ∈ found, hit ∈ more) : RowsAmong found more :=
  fun hit hhit => ⟨hit, hsub hit hhit, rfl⟩

theorem trans {found more most : List Hit} (h : RowsAmong found more) (h' : RowsAmong more most) :
    RowsAmong found most := by
  intro hit hhit
  obtain ⟨other, hother, hrow⟩ := h hit hhit
  obtain ⟨source, hsource, hrow'⟩ := h' other hother
  exact ⟨source, hsource, hrow'.trans hrow⟩

theorem append {found others more : List Hit} (h : RowsAmong found more) (h' : RowsAmong others more) :
    RowsAmong (found ++ others) more := by
  intro hit hhit
  rcases List.mem_append.mp hhit with hfound | hothers
  · exact h hit hfound
  · exact h' hit hothers

/-- Marks leave the rows. -/
theorem map {found : List Hit} (mark : Hit → Hit) (hmark : ∀ hit, (mark hit).row = hit.row) :
    RowsAmong (found.map mark) found := by
  intro hit hhit
  obtain ⟨other, hother, rfl⟩ := List.mem_map.mp hhit
  exact ⟨other, hother, (hmark other).symm⟩

end RowsAmong

/-- What fusion keeps is an object of one of its layers. -/
theorem row_fusedHit {layers : List (RankFusion.Layer Hit)} {k : ℚ} {entry : RankFusion.Fused Hit} {hit : Hit}
    (hentry : entry ∈ fusedCandidates layers k) (hhit : fusedHit entry = some hit) :
    ∃ fragment, RankFusion.SearchItem.object fragment ∈ readOrder layers ∧ hit.row = fragment.columns.row := by
  have hmerged := ((mem_fusedCandidates_iff _ _ _).mp hentry).1
  have hfirst := ((mem_mergeRRF_iff _ _ _).mp hmerged).1
  have hread := (find?_readOrder_mem hfirst).1
  simp only [fusedHit] at hhit
  split at hhit
  · cases hhit
  · rename_i fragment hitem
    rw [hitem] at hread
    exact ⟨fragment, hread, by rw [← Option.some.inj hhit]⟩

/-- The hits of the layers that a text search fuses. -/
def textHits (model : SearchModel) (context : SearchContext) (store : Store) (q : SearchQuery) (text : String)
    (cached : List Hit) (l1MissIds : List FragmentId) : List Hit :=
  cached ++ searchL2 model store q l1MissIds ++ graphResults model store q (searchL2 model store q l1MissIds) ++
    searchL3 model context store q text false ++ temporalResults store q

/-- The objects in the layers of a text search are its hits. -/
theorem columns_of_textSearch {text : String} {l1 : List FragmentId × Bool} {cached : List Hit}
    {l1MissIds : List FragmentId} {fragment : RankFusion.SearchFragment Hit}
    (h : RankFusion.SearchItem.object fragment ∈
      readOrder (textSearch model context store q text l1 cached l1MissIds).rrfLayers) :
    fragment.columns ∈ textHits model context store q text cached l1MissIds := by
  have hobject : ∀ {found : List Hit},
      RankFusion.SearchItem.object fragment ∈ (found.map fusionObject).map RankFusion.SearchItem.object →
      fragment.columns ∈ found := by
    intro found hmem
    simp only [List.map_map, List.mem_map, Function.comp_apply, RankFusion.SearchItem.object.injEq] at hmem
    obtain ⟨hit, hhit, rfl⟩ := hmem
    exact hhit
  simp only [textHits, List.mem_append]
  obtain ⟨layer, hlayer, hitem⟩ := List.mem_flatMap.mp h
  simp only [textSearch, TextSearch.rrfLayers, List.mem_append, List.mem_cons, List.not_mem_nil,
    or_false] at hlayer
  rcases hlayer with (rfl | rfl | rfl | rfl) | hlast
  · simp at hitem
  · simp only [List.map_append, List.mem_append] at hitem
    rcases hitem with hcache | hresult
    · exact Or.inl (Or.inl (Or.inl (Or.inl (hobject hcache))))
    · exact Or.inl (Or.inl (Or.inl (Or.inr (hobject hresult))))
  · exact Or.inl (Or.inl (Or.inr (hobject hitem)))
  · exact Or.inl (Or.inr (hobject hitem))
  · cases hempty : ((temporalResults store q).map fusionObject).isEmpty with
    | false =>
      simp only [hempty, Bool.false_eq_true, if_false, List.mem_singleton] at hlast
      rw [hlast] at hitem
      exact Or.inr (hobject hitem)
    | true => simp only [hempty, if_true, List.not_mem_nil] at hlast

theorem rowsAmong_rerank (candidates : List Hit) (scores : List ℚ) :
    RowsAmong (rerank candidates scores) candidates := by
  intro hit hhit
  obtain ⟨⟨other, i⟩, hother, rfl⟩ :=
    List.mem_map.mp ((List.mem_insertionSort _).mp (List.mem_of_mem_take hhit))
  exact ⟨other, List.mem_of_getElem? (List.mk_mem_zipIdx_iff_getElem?.mp hother), rfl⟩

/-- A row that a text search returns is one of its layers that passes the importance cutoff. -/
theorem rowsAmong_buildTextRRF (text : String) (l1 : List FragmentId × Bool) (cached : List Hit)
    (l1MissIds : List FragmentId) :
    RowsAmong (buildTextRRF model context store q text l1 cached l1MissIds).1
      (applyImportanceCutoff q (textHits model context store q text cached l1MissIds)) := by
  have hcombined : RowsAmong (applyImportanceCutoff q
      ((fusedCandidates (textSearch model context store q text l1 cached l1MissIds).rrfLayers 60).filterMap
        fusedHit)) (applyImportanceCutoff q (textHits model context store q text cached l1MissIds)) := by
    intro hit hhit
    obtain ⟨hfused, hcut⟩ := List.mem_filter.mp hhit
    obtain ⟨entry, hentry, hhitOf⟩ := List.mem_filterMap.mp hfused
    obtain ⟨fragment, hread, hrow⟩ := row_fusedHit hentry hhitOf
    refine ⟨fragment.columns, List.mem_filter.mpr ⟨columns_of_textSearch hread, ?_⟩, hrow.symm⟩
    rw [← hrow]
    exact hcut
  simp only [buildTextRRF]
  split
  · exact (rowsAmong_rerank _ _).trans ((RowsAmong.of_mem fun _ hhit => List.mem_of_mem_take hhit).trans hcombined)
  · exact hcombined

/-- The hits of the layers that the other path concatenates. -/
def fallbackHits (model : SearchModel) (context : SearchContext) (store : Store) (q : SearchQuery)
    (cached : List Hit) (l1MissIds : List FragmentId) : List Hit :=
  searchL2 model store q l1MissIds ++ cached ++ temporalResults store q ++
    if model.keywordFallback && model.embeddingEnabled && !q.keywords.isEmpty && !context.supplementTimedOut then
      searchL3 model context store q (supplementText model q) true
    else []

theorem rowsAmong_buildFallbackCombined (cached : List Hit) (l1MissIds : List FragmentId) :
    RowsAmong (buildFallbackCombined model context store q cached l1MissIds).1
      (fallbackHits model context store q cached l1MissIds) := by
  have hleft : ∀ {found : List Hit}, (∀ hit ∈ found,
      hit ∈ searchL2 model store q l1MissIds ++ cached ++ temporalResults store q) →
      RowsAmong found (fallbackHits model context store q cached l1MissIds) :=
    fun hsub => RowsAmong.of_mem fun hit hhit => List.mem_append_left _ (hsub hit hhit)
  have hl2 := hleft fun hit (hhit : hit ∈ searchL2 model store q l1MissIds) =>
    List.mem_append_left _ (List.mem_append_left _ hhit)
  have hcached := hleft fun hit (hhit : hit ∈ cached) => List.mem_append_left _ (List.mem_append_right _ hhit)
  have htemporal := hleft fun hit (hhit : hit ∈ temporalResults store q) => List.mem_append_right _ hhit
  simp only [buildFallbackCombined]
  have hexact : ∀ found, RowsAmong (found.map (tagExact model q)) found :=
    fun _ => RowsAmong.map (tagExact model q) fun _ => rfl
  refine RowsAmong.append ((((hexact _).trans hl2).append ((hexact _).trans hcached)).append htemporal) ?_
  refine (RowsAmong.map (fun hit => { hit with kwSupplement := true }) fun _ => rfl).trans
    (RowsAmong.of_mem fun hit hhit => List.mem_append_right _ ?_)
  have hsupplement := (List.mem_filter.mp hhit).1
  split at hsupplement
  · rename_i hon
    rw [if_pos hon]
    exact hsupplement
  · exact absurd hsupplement List.not_mem_nil

/-- A duplicate takes the place of a kept hit, or is dropped. -/
theorem rowsAmong_keepBetter (seen : List Hit) (hit : Hit) : RowsAmong (keepBetter seen hit) (seen ++ [hit]) := by
  have hlast : hit ∈ seen ++ [hit] := List.mem_append_right _ (List.mem_singleton.mpr rfl)
  simp only [keepBetter]
  split
  · intro other hother
    obtain ⟨kept, hkept, rfl⟩ := List.mem_map.mp hother
    split
    · exact ⟨hit, hlast, rfl⟩
    · exact ⟨kept, List.mem_append_left _ hkept, rfl⟩
  · exact RowsAmong.of_mem fun _ hother => hother

/-- The removal of duplicates, by induction on the hits still to come. -/
theorem rowsAmong_deduplicate (found : List Hit) (anchorTime : Time) :
    RowsAmong (deduplicate model found anchorTime) found := by
  have hfold : ∀ rest seen : List Hit, RowsAmong (rest.foldl keepBetter seen) (seen ++ rest) := by
    intro rest
    induction rest with
    | nil =>
      intro seen
      exact RowsAmong.of_mem fun _ hhit => List.mem_append_left _ hhit
    | cons hit later ih =>
      intro seen
      refine (ih (keepBetter seen hit)).trans (RowsAmong.append ?_ ?_)
      · refine (rowsAmong_keepBetter seen hit).trans (RowsAmong.of_mem fun other hother => ?_)
        rw [List.append_cons]
        exact List.mem_append_left _ hother
      · exact RowsAmong.of_mem fun other hother => List.mem_append_right _ (List.mem_cons_of_mem _ hother)
  exact (RowsAmong.of_mem fun _ hhit => (List.mem_insertionSort _).mp hhit).trans (hfold found [])

/-- The choice among candidates is one of them. -/
theorem best_mem (better : Hit → Hit → Bool) (first : Hit) (others : List Hit) :
    others.foldl (fun best hit => if better best hit then hit else best) first ∈ first :: others := by
  induction others generalizing first with
  | nil => exact List.mem_cons_self
  | cons hit later ih =>
    rw [List.foldl_cons]
    split
    · exact List.mem_cons_of_mem _ (ih hit)
    · rcases List.mem_cons.mp (ih first) with hfirst | hlater
      · rw [hfirst]
        exact List.mem_cons_self
      · exact List.mem_cons_of_mem _ (List.mem_cons_of_mem _ hlater)

theorem mem_selectDiverse {rounds : ℕ} {selected remaining : List Hit} {hit : Hit}
    (h : hit ∈ selectDiverse rounds selected remaining) : hit ∈ selected ∨ hit ∈ remaining := by
  induction rounds generalizing selected remaining with
  | zero => exact Or.inl h
  | succ rounds ih =>
    cases remaining with
    | nil => exact Or.inl h
    | cons first others =>
      have hbest := best_mem (fun best hit => mmrScore selected best < mmrScore selected hit) first others
      simp only [decide_eq_true_eq] at hbest
      rcases ih h with hselected | hremaining
      · rcases List.mem_append.mp hselected with hold | hnew
        · exact Or.inl hold
        · right
          rw [List.mem_singleton.mp hnew]
          exact hbest
      · exact Or.inr (List.mem_of_mem_erase hremaining)

theorem mem_applyMMR {found : List Hit} {hit : Hit} (h : hit ∈ applyMMR found) : hit ∈ found := by
  simp only [applyMMR] at h
  split at h
  · rename_i first second others hembedded
    have hmem : ∀ x ∈ first :: second :: others, x ∈ found := by
      intro x hx
      rw [← hembedded] at hx
      exact (List.mem_filter.mp hx).1
    rcases List.mem_append.mp h with hdiverse | hplain
    · rcases mem_selectDiverse hdiverse with hfirst | hothers
      · rw [List.mem_singleton.mp hfirst]
        exact hmem first List.mem_cons_self
      · exact hmem hit (List.mem_cons_of_mem _ hothers)
    · exact (List.mem_filter.mp hplain).1
  · exact h

theorem mem_takeWithin {budget : ℕ} {found : List Hit} {used : ℕ} {hit : Hit}
    (h : hit ∈ takeWithin model budget found used) : hit ∈ found := by
  induction found generalizing used with
  | nil => exact h
  | cons first later ih =>
    simp only [takeWithin] at h
    split at h
    · cases h
    · rcases List.mem_cons.mp h with rfl | hlater
      · exact List.mem_cons_self
      · exact List.mem_cons_of_mem _ (ih hlater)

theorem mem_fillWithin {budget : ℕ} {found : List Hit} {used : ℕ} {hit : Hit}
    (h : hit ∈ fillWithin model budget found used) : hit ∈ found := by
  induction found generalizing used with
  | nil => exact h
  | cons first later ih =>
    simp only [fillWithin] at h
    split at h
    · exact List.mem_cons_of_mem _ (ih h)
    · rcases List.mem_cons.mp h with rfl | hlater
      · exact List.mem_cons_self
      · exact List.mem_cons_of_mem _ (ih hlater)

theorem mem_trimToTokenBudget {found : List Hit} {budget : ℕ} {hit : Hit}
    (h : hit ∈ trimToTokenBudget model found budget) : hit ∈ found := by
  simp only [trimToTokenBudget] at h
  split at h
  · exact (List.mem_filter.mp h).1
  · exact mem_takeWithin h

theorem forall_mem_ite {α : Type*} {c : Prop} [Decidable c] {xs ys : List α} {P : α → Prop}
    (hxs : ∀ x ∈ xs, P x) (hys : ∀ x ∈ ys, P x) : ∀ x ∈ (if c then xs else ys), P x := by
  split
  · exact hxs
  · exact hys

/-- What a search makes of its combined layers. -/
def finish (model : SearchModel) (q : SearchQuery) (combined : List Hit) : List Hit :=
  let unique := deduplicate model combined q.anchorTime
  let trimmed := trimToTokenBudget model (diversify (orderLexical model q unique)) q.tokenBudget
  (trimmed.map fun hit => { hit with rrfScore := none, kwExact := false, kwSupplement := false }).filter
    fun hit => q.includeSuperseded || hit.row.live

theorem found_search :
    (search model context store q).found = finish model q (executeSearch model context store q).1 := rfl

theorem rowsAmong_finish (combined : List Hit) : RowsAmong (finish model q combined) combined := by
  have hlexical : ∀ found, ∀ hit ∈ orderLexical model q found, hit ∈ found := fun found =>
    forall_mem_ite (fun _ hhit => hhit) fun _ hhit => (List.mem_insertionSort _).mp hhit
  have hdiverse : ∀ found, ∀ hit ∈ diversify found, hit ∈ found := fun found =>
    forall_mem_ite (fun _ hhit => mem_applyMMR hhit) fun _ hhit => hhit
  have htrimmed : RowsAmong (trimToTokenBudget model (diversify (orderLexical model q
      (deduplicate model combined q.anchorTime))) q.tokenBudget) combined := by
    refine RowsAmong.trans (RowsAmong.of_mem fun hit hhit => ?_) (@rowsAmong_deduplicate model _ q.anchorTime)
    exact hlexical _ hit (hdiverse _ hit (mem_trimToTokenBudget hhit))
  intro hit hhit
  obtain ⟨other, hother, rfl⟩ := List.mem_map.mp (List.mem_filter.mp hhit).1
  exact htrimmed other hother

/-- The rows of a search are rows of its combined layers. -/
theorem rowsAmong_search : RowsAmong (search model context store q).found (executeSearch model context store q).1 :=
  rowsAmong_finish _

end FragmentMemory.SearchProvenance
