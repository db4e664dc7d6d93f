import FragmentMemory.AccessedSearch
import FragmentMemory.DistinctHits

/-! # The access columns in the ranking of a recall

What is found is ranked, cut and expanded alike with other access columns, where the scores are those that the rows have
with the access columns of now.
-/
namespace FragmentMemory.AccessedRanking
open ApiKeyStore FragmentTables RecallQueries FragmentSearch SearchFilters SearchProvenance MemoryRecaller DistinctHits
  AccessColumns AccessedSearch
open MemoryRememberer (Caller Caller.groups)

variable {model : SearchModel} {q : SearchQuery} (current : Store)

/-! ## The ranking of a search -/

theorem keepBetter_eq (seen : List Hit) (hit : Hit) :
    keepBetter (seen.map (refreshedHit current)) (refreshedHit current hit) =
      (keepBetter seen hit).map (refreshedHit current) := by
  have hseen : (seen.map (refreshedHit current)).any (fun kept => kept.id = (refreshedHit current hit).id) =
      seen.any fun kept => kept.id = hit.id := by
    rw [List.any_map]
    rfl
  simp only [keepBetter, hseen]
  split
  · rw [List.map_map, List.map_map]
    refine List.map_congr_left fun kept _ => ?_
    have hbetter : ((refreshedHit current kept).id = (refreshedHit current hit).id &&
        betterSimilarity (refreshedHit current hit) (refreshedHit current kept)) =
          (kept.id = hit.id && betterSimilarity hit kept) := rfl
    simp only [Function.comp_apply, hbetter]
    split <;> rfl
  · rw [List.map_append]
    rfl

theorem deduplicate_eq (found : List Hit) (anchorTime : Time) :
    deduplicate model (found.map (refreshedHit current)) anchorTime =
      (deduplicate (seenIn model current) found anchorTime).map (refreshedHit current) := by
  have hfold : ∀ rest seen :
    List Hit, (rest.map (refreshedHit current)).foldl keepBetter (seen.map (refreshedHit current)) =
      (rest.foldl keepBetter seen).map (refreshedHit current) := by
    intro rest
    induction rest with
    | nil => exact fun _ => rfl
    | cons hit later ih =>
      intro seen
      rw [List.map_cons, List.foldl_cons, List.foldl_cons, keepBetter_eq, ih]
  have hstart := hfold found []
  rw [List.map_nil] at hstart
  rw [deduplicate, hstart]
  exact sorted_map (refreshedHit current) (fun _ _ => Iff.rfl) _

theorem lexicalKeywords_eq (unique : List Hit) :
    lexicalKeywords model q (unique.map (refreshedHit current)) = lexicalKeywords (seenIn model current) q unique := by
  rw [lexicalKeywords, List.any_map]
  rfl

theorem orderLexical_eq (unique : List Hit) :
    orderLexical model q (unique.map (refreshedHit current)) =
      (orderLexical (seenIn model current) q unique).map (refreshedHit current) := by
  simp only [orderLexical, lexicalKeywords_eq]
  split
  · rfl
  · exact sorted_map (refreshedHit current) (fun _ _ => Iff.rfl) _

/-- One of several hits with distinct ids is removed alike. -/
theorem erase_eq {found : List Hit} (h : Distinct found) {hit : Hit} (hhit : hit ∈ found) :
    (found.map (refreshedHit current)).erase (refreshedHit current hit) =
      (found.erase hit).map (refreshedHit current) := by
  induction found with
  | nil => cases hhit
  | cons first later ih =>
    rw [Distinct, List.map_cons, List.nodup_cons] at h
    rcases List.mem_cons.mp hhit with rfl | hlater
    · simp only [List.map_cons, List.erase_cons_head]
    · have hother : first.id ≠ hit.id := fun hid => h.1 (hid ▸ List.mem_map_of_mem hlater)
      have hbefore : (first == hit) = false := beq_eq_false_iff_ne.mpr fun heq => hother (congrArg Hit.id heq)
      have hafter : (refreshedHit current first == refreshedHit current hit) = false := by
        refine beq_eq_false_iff_ne.mpr fun heq => hother ?_
        have hids := congrArg Hit.id heq
        exact hids
      rw [List.map_cons, List.erase_cons_tail (by rw [hafter]; exact Bool.false_ne_true),
        List.erase_cons_tail (by rw [hbefore]; exact Bool.false_ne_true), List.map_cons, ih h.2 hlater]

theorem mmrScore_eq (selected : List Hit) (candidate : Hit) :
    mmrScore (selected.map (refreshedHit current)) (refreshedHit current candidate) = mmrScore selected candidate := by
  simp only [mmrScore, List.map_map]
  rfl

theorem selectDiverse_eq (rounds : ℕ) (selected : List Hit) {remaining : List Hit} (h : Distinct remaining) :
    selectDiverse rounds (selected.map (refreshedHit current)) (remaining.map (refreshedHit current)) =
      (selectDiverse rounds selected remaining).map (refreshedHit current) := by
  induction rounds generalizing selected remaining with
  | zero => rfl
  | succ rounds ih =>
    cases remaining with
    | nil => rfl
    | cons first others =>
      have hchoice : ∀ (rest : List Hit) (best : Hit),
          (rest.map (refreshedHit current)).foldl (fun best hit =>
            if mmrScore (selected.map (refreshedHit current)) best < mmrScore (selected.map (refreshedHit current)) hit
            then hit else best) (refreshedHit current best) =
          refreshedHit current (rest.foldl (fun best hit =>
            if mmrScore selected best < mmrScore selected hit then hit else best) best) := by
        intro rest
        induction rest with
        | nil => exact fun _ => rfl
        | cons hit later ihRest =>
          intro best
          simp only [List.map_cons, List.foldl_cons, mmrScore_eq]
          split
          · simpa only [mmrScore_eq] using ihRest hit
          · simpa only [mmrScore_eq] using ihRest best
      have hbest := best_mem (fun best hit => mmrScore selected best < mmrScore selected hit) first others
      simp only [decide_eq_true_eq] at hbest
      simp only [List.map_cons, selectDiverse, hchoice]
      rw [← List.map_cons, erase_eq current h hbest, ← List.map_singleton, ← List.map_append]
      exact ih _ (h.sublist List.erase_sublist)

theorem applyMMR_eq {found : List Hit} (h : Distinct found) :
    applyMMR (found.map (refreshedHit current)) = (applyMMR found).map (refreshedHit current) := by
  have hembedded : (found.map (refreshedHit current)).filter (fun hit => hit.similarity.isSome) =
      (found.filter fun hit => hit.similarity.isSome).map (refreshedHit current) := by
    rw [List.filter_map]
    rfl
  have hplain : (found.map (refreshedHit current)).filter (fun hit => hit.similarity.isNone) =
      (found.filter fun hit => hit.similarity.isNone).map (refreshedHit current) := by
    rw [List.filter_map]
    rfl
  have hdistinct : Distinct (found.filter fun hit => hit.similarity.isSome) := h.filter _
  simp only [applyMMR, hembedded, hplain]
  generalize found.filter (fun hit => hit.similarity.isSome) = embedded at hdistinct ⊢
  rcases embedded with _ | ⟨first, _ | ⟨second, others⟩⟩
  · rfl
  · rfl
  · have hselected :=
      selectDiverse_eq current (others.length + 1) [first] (hdistinct.sublist (List.sublist_cons_self _ _))
    simp only [List.map_cons, List.map_nil] at hselected
    simp only [List.map_cons, List.length_map, hselected, List.map_append]

theorem diversify_eq {found : List Hit} (h : Distinct found) :
    diversify (found.map (refreshedHit current)) = (diversify found).map (refreshedHit current) := by
  have hhead :
    ((found.map (refreshedHit current)).head?.bind Hit.rerankerScore) = found.head?.bind Hit.rerankerScore := by
    cases found <;> rfl
  simp only [diversify, hhead]
  split
  · exact applyMMR_eq current h
  · rfl

theorem takeWithin_eq (budget : ℕ) (found : List Hit) (used : ℕ) :
    takeWithin model budget (found.map (refreshedHit current)) used =
      (takeWithin (seenIn model current) budget found used).map (refreshedHit current) := by
  induction found generalizing used with
  | nil => rfl
  | cons hit later ih =>
    have hcost : tokenCost model (refreshedHit current hit) = tokenCost (seenIn model current) hit := rfl
    simp only [List.map_cons, takeWithin, hcost]
    split
    · rfl
    · rw [List.map_cons, ih]

theorem fillWithin_eq (budget : ℕ) (found : List Hit) (used : ℕ) :
    fillWithin model budget (found.map (refreshedHit current)) used =
      (fillWithin (seenIn model current) budget found used).map (refreshedHit current) := by
  induction found generalizing used with
  | nil => rfl
  | cons hit later ih =>
    have hcost : tokenCost model (refreshedHit current hit) = tokenCost (seenIn model current) hit := rfl
    simp only [List.map_cons, fillWithin, hcost]
    split
    · exact ih used
    · rw [List.map_cons, ih]

theorem filter_eq (found : List Hit) (p : Hit → Bool) (hp : ∀ hit, p (refreshedHit current hit) = p hit) :
    (found.map (refreshedHit current)).filter p = (found.filter p).map (refreshedHit current) := by
  have hpred : p ∘ refreshedHit current = p := funext hp
  rw [List.filter_map, hpred]

theorem totalCost_eq (found : List Hit) :
    totalCost model (found.map (refreshedHit current)) = totalCost (seenIn model current) found := by
  rw [totalCost, List.map_map]
  rfl

theorem trimToTokenBudget_eq (found : List Hit) (budget : ℕ) :
    trimToTokenBudget model (found.map (refreshedHit current)) budget =
      (trimToTokenBudget (seenIn model current) found budget).map (refreshedHit current) := by
  have hmarked : (found.map (refreshedHit current)).any (fun hit => hit.kwExact || hit.kwSupplement) =
      found.any fun hit => hit.kwExact || hit.kwSupplement := by
    rw [List.any_map]
    rfl
  have hwithout : ∀ ids : List FragmentId, (found.map (refreshedHit current)).filter (fun hit => !ids.contains hit.id) =
      (found.filter fun hit => !ids.contains hit.id).map (refreshedHit current) :=
    fun ids => filter_eq current found _ fun _ => rfl
  have hwithin : ∀ ids : List FragmentId, (found.map (refreshedHit current)).filter (fun hit => ids.contains hit.id) =
      (found.filter fun hit => ids.contains hit.id).map (refreshedHit current) :=
    fun ids => filter_eq current found _ fun _ => rfl
  have hexact := filter_eq current found (fun hit => hit.kwExact) fun _ => rfl
  have hsupplement : ∀ waiting : List Hit, (waiting.map (refreshedHit current)).filter (fun hit => hit.kwSupplement) =
      (waiting.filter fun hit => hit.kwSupplement).map (refreshedHit current) :=
    fun waiting => filter_eq current waiting _ fun _ => rfl
  simp only [trimToTokenBudget, hmarked]
  split
  · simp only [hexact, takeWithin_eq, ids_map, hwithout, hsupplement, totalCost_eq, fillWithin_eq, hwithin,
      ← List.map_append]
  · exact takeWithin_eq current budget found 0

/-! ## A search and a recall -/

theorem finish_eq (combined : List Hit) :
    finish model q (combined.map (refreshedHit current)) =
      (finish (seenIn model current) q combined).map (refreshedHit current) := by
  have hdistinct : Distinct (orderLexical (seenIn model current) q
      (deduplicate (seenIn model current) combined q.anchorTime)) :=
    distinct_orderLexical (distinct_deduplicate combined q.anchorTime)
  simp only [finish, deduplicate_eq, orderLexical_eq, diversify_eq current hdistinct, trimToTokenBudget_eq]
  have hclean : ∀ found : List Hit, (found.map (refreshedHit current)).map (fun hit =>
        { hit with rrfScore := none, kwExact := false, kwSupplement := false }) =
      (found.map fun hit => { hit with rrfScore := none, kwExact := false, kwSupplement := false }).map
        (refreshedHit current) := by
    intro found
    rw [List.map_map, List.map_map]
    rfl
  rw [hclean, filter_eq current _ _ fun _ => rfl]

theorem rankFinal_eq (keywords : List String) (found : List Hit) :
    rankFinal model q keywords (found.map (refreshedHit current)) =
      (rankFinal (seenIn model current) q keywords found).map (refreshedHit current) :=
  sorted_map (refreshedHit current) (fun _ _ => Iff.rfl) found

theorem selectFinal_eq (context : RecallContext) (params : RecallParams) (found : List Hit) :
    selectFinal context params (found.map (refreshedHit current)) =
      (selectFinal context params found).map (refreshedHit current) :=
  filter_eq current found _ fun _ => rfl

/-- What a recall reads of the links: the expansion of its result, and the neighbours of a search with fusion. -/
def ReadsLinks (model : SearchModel) (q : SearchQuery) (params : RecallParams) : Prop :=
  params.includeLinks = true ∨ (fusionText model q).isSome = true

variable {current} {first : Store} (h : Accessed first current) {context : RecallContext} {caller : Caller}
  {params : RecallParams}
include h

theorem search_eq {searchContext : SearchContext}
    (hsame : SameFirstLayer (firstLayer model searchContext first q) q.keyIds first current)
    (hlinks : (fusionText model q).isSome = true → current.links = first.links) :
    (search model searchContext current q).found =
        (search (seenIn model current) searchContext first q).found.map (refreshedHit current) ∧
      (search model searchContext current q).lexicalKeywords =
        (search (seenIn model current) searchContext first q).lexicalKeywords := by
  have hlayers := executeSearch_eq h hsame hlinks
  constructor
  · rw [found_search, found_search, hlayers, finish_eq]
  · simp only [search, hlayers, deduplicate_eq, lexicalKeywords_eq]

theorem appendLinked_eq (hlinks : params.includeLinks = true → current.links = first.links) (found : List Hit) :
    appendLinked current q params (found.map (refreshedHit current)) =
      (appendLinked first q params found).map (refreshedHit current) := by
  rcases hinclude : params.includeLinks with _ | _
  · simp only [appendLinked, hinclude, Bool.false_and, Bool.false_eq_true, if_false]
  · have hlinked := h.getLinkedFragments_eq q (hlinks hinclude) (found.map Hit.id) params.linkRelationType
    simp only [appendLinked, hinclude, Bool.true_and, List.isEmpty_map, ids_map, hlinked, List.filter_map]
    split
    · rw [List.map_append, List.map_map, List.map_map]
      rfl
    · rfl

/-- A recall finds the rows of the first store, with the access columns of now and by the scores of now. -/
theorem recallRows_eq
    (hsame : SameFirstLayer (firstLayer model context.toSearchContext first (searchQuery params caller context.now))
      caller.groups first current)
    (hlinks : ReadsLinks model (searchQuery params caller context.now) params → current.links = first.links) :
    (recallRows model context current caller params).1 =
      (recallRows (seenIn model current) context first caller params).1.map (refreshedHit current) := by
  obtain ⟨hfound, hkeywords⟩ := @search_eq model (searchQuery params caller context.now) current first h
    context.toSearchContext hsame fun hfusion => hlinks (Or.inr hfusion)
  have hexpanded := @appendLinked_eq (searchQuery params caller context.now) current first h params
    fun hinclude => hlinks (Or.inl hinclude)
  simp only [recallRows, hfound, hkeywords, hexpanded, rankFinal_eq, selectFinal_eq, fillWithin_eq]

/-- With the same scores the rows are the same ones in the same order. -/
theorem ids_recallRows
    (hsame : SameFirstLayer (firstLayer model context.toSearchContext first (searchQuery params caller context.now))
      caller.groups first current)
    (hlinks : ReadsLinks model (searchQuery params caller context.now) params → current.links = first.links)
    (hscores : seenIn model current = seenIn model first) :
    (recallRows model context current caller params).1.map Hit.id =
      (recallRows model context first caller params).1.map Hit.id := by
  have hnow := recallRows_eq h hsame hlinks
  have hthen := recallRows_eq (Accessed.refl first)
    (SameFirstLayer.refl (firstLayer model context.toSearchContext first (searchQuery params caller context.now))
      caller.groups first) fun _ => rfl
  rw [hnow, hthen, ids_map, ids_map, hscores]

end FragmentMemory.AccessedRanking
