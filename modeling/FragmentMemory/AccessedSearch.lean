import FragmentMemory.AccessColumns
import FragmentMemory.SearchFilters

/-! # The access columns in a search

The layers of a search, its ranking and its cuts find the same hits with other access columns, where the scores are those
that the rows have with the access columns of now.
-/
namespace FragmentMemory.AccessedSearch
open ApiKeyStore FragmentTables FragmentFactory FragmentReader RecallQueries FragmentSearch SearchFilters AccessColumns

theorem hits_map (current : Store) (rows : List Fragment) :
    hits (rows.map (refreshed current)) = (hits rows).map (refreshedHit current) := by
  simp only [hits, List.map_map]
  rfl

theorem ids_map (current : Store) (found : List Hit) :
    (found.map (refreshedHit current)).map Hit.id = found.map Hit.id := by
  rw [List.map_map]
  rfl

theorem boostAssistant_refreshed (model : SearchModel) (current : Store) (hit : Hit) :
    boostAssistant model (refreshedHit current hit) = refreshedHit current (boostAssistant model hit) := by
  have hcontent : (refreshedHit current hit).row.content = hit.row.content := rfl
  simp only [boostAssistant, hcontent]
  split <;> rfl

/-- The fused hits over layers that carry other access columns. -/
theorem fusedHits_eq (current : Store) (q : SearchQuery) (layers : List (RankFusion.Layer Hit)) :
    applyImportanceCutoff q ((RankFusion.fusedCandidates
        (layers.map (RankFusion.Layer.mapColumns (refreshedHit current))) 60).filterMap fusedHit) =
      (applyImportanceCutoff q ((RankFusion.fusedCandidates layers 60).filterMap fusedHit)).map (refreshedHit current) := by
  have hfused : fusedHit ∘ RankFusion.Fused.mapColumns (refreshedHit current) =
      fun entry => (fusedHit entry).map (refreshedHit current) := by
    funext entry
    rcases entry with ⟨_ | fragment, score⟩ <;> rfl
  rw [RankFusion.fusedCandidates_mapColumns, List.filterMap_map, hfused, ← List.map_filterMap]
  simp only [applyImportanceCutoff, List.filter_map]
  rfl

/-- A candidate with the score of its position. -/
def withScore (scores : List ℚ) (entry : Hit × ℕ) : Hit := { entry.1 with rerankerScore := some (scores.getD entry.2 0) }

theorem rerank_eq_sorted (candidates : List Hit) (scores : List ℚ) :
    rerank candidates scores = ((candidates.zipIdx.map (withScore scores)).insertionSort fun a b =>
      b.rerankerScore.getD 0 ≤ a.rerankerScore.getD 0).take 15 := rfl

theorem rerank_eq (current : Store) (candidates : List Hit) (scores : List ℚ) :
    rerank (candidates.map (refreshedHit current)) scores = (rerank candidates scores).map (refreshedHit current) := by
  have hscored := sorted_map (r := fun a b => b.rerankerScore.getD 0 ≤ a.rerankerScore.getD 0)
    (s := fun a b => b.rerankerScore.getD 0 ≤ a.rerankerScore.getD 0) (refreshedHit current) fun _ _ => Iff.rfl
  have hmarked : (candidates.map (refreshedHit current)).zipIdx.map (withScore scores) =
      (candidates.zipIdx.map (withScore scores)).map (refreshedHit current) := by
    rw [List.zipIdx_map, List.map_map, List.map_map]
    rfl
  rw [rerank_eq_sorted, hmarked, hscored, ← List.map_take, rerank_eq_sorted]

section Layers
variable {first current : Store} (h : Accessed first current) {model : SearchModel} {context : SearchContext} {q : SearchQuery}
include h

theorem searchMetadata_eq :
    searchMetadata model current q = (searchMetadata (seenIn model current) first q).map (refreshed current) := by
  have hkeywords : ∀ keywords : List String, (if keywords.isEmpty then [] else searchByKeywords current q keywords) =
      (if keywords.isEmpty then [] else searchByKeywords first q keywords).map (refreshed current) := by
    intro keywords
    split
    · rfl
    · exact h.searchByKeywords_eq q keywords
  have htopic : q.topic.elim [] (searchTopicRows current q) =
      (q.topic.elim [] (searchTopicRows first q)).map (refreshed current) := by
    rcases q.topic with _ | topic
    · rfl
    · exact h.searchTopicRows_eq q topic
  simp only [searchMetadata, hkeywords, htopic, List.isEmpty_map]
  exact (apply_ite (List.map (refreshed current)) _ _ _).symm

theorem searchL2_eq {named excludeIds : List FragmentId} (hnamed : SameFirstLayer named q.keyIds first current)
    (hids : ∀ id ∈ excludeIds, id ∈ named) :
    searchL2 model current q excludeIds = (searchL2 (seenIn model current) first q excludeIds).map (refreshedHit current) := by
  have hread : ∀ ids : List FragmentId, (∀ id ∈ ids, id ∈ named) →
      (if ids.isEmpty then [] else getScopedByIds current q ids) =
        (if ids.isEmpty then [] else getScopedByIds first q ids).map (refreshed current) := by
    intro ids hmem
    split
    · rfl
    · exact h.getScopedByIds_eq q hnamed hmem
  have hscope : q.applyScope ∘ refreshed current = q.applyScope := rfl
  have hresults : ((searchMetadata (seenIn model current) first q).map (refreshed current)).map Fragment.id =
      (searchMetadata (seenIn model current) first q).map Fragment.id := by
    rw [List.map_map]
    rfl
  simp only [searchL2, searchMetadata_eq h, hresults]
  rw [hread _ fun id hid => hids id (List.mem_filter.mp hid).1, List.filter_map, hscope, ← List.map_append, hits_map]

theorem temporalResults_eq : temporalResults current q = (temporalResults first q).map (refreshedHit current) := by
  rw [temporalResults, temporalResults]
  rcases q.timeRange with _ | range
  · rfl
  · exact (congrArg hits (h.searchByTimeRange_eq q)).trans (hits_map current _)

theorem searchL3_eq (text : String) (skipMorpheme : Bool) :
    searchL3 model context current q text skipMorpheme =
      (searchL3 (seenIn model current) context first q text skipMorpheme).map (refreshedHit current) := by
  have hboosted : ∀ found : List Hit, (if model.assistantQuery text then
        (found.map (refreshedHit current)).map (boostAssistant model) else found.map (refreshedHit current)) =
      (if model.assistantQuery text then found.map (boostAssistant (seenIn model current)) else found).map
        (refreshedHit current) := by
    intro found
    split
    · rw [List.map_map, List.map_map]
      exact List.map_congr_left fun hit _ => boostAssistant_refreshed model current hit
    · rfl
  have hmorphemes : (if skipMorpheme then []
        else searchBySemantic current q (model.morphemeSimilarity text) context.minSimilarity 10 false) =
      (if skipMorpheme then []
        else searchBySemantic first q (fun f => model.morphemeSimilarity text (refreshed current f))
          context.minSimilarity 10 false).map (refreshedHit current) := by
    split
    · rfl
    · exact h.searchBySemantic_eq q _ _ _ _
  simp only [searchL3, h.searchBySemantic_eq q (model.similarity _), hboosted, hmorphemes, ids_map, List.filter_map,
    ← List.map_append]
  rfl

/-- The neighbours of the best rows, while the table of links is the same. -/
theorem graphResults_eq (hlinks : current.links = first.links) (l2 : List Hit) :
    graphResults model current q (l2.map (refreshedHit current)) =
      (graphResults (seenIn model current) first q l2).map (refreshedHit current) := by
  have hcond : (fun f => q.applyScope f && q.affect.isNone) ∘ refreshed current =
      fun f => q.applyScope f && q.affect.isNone := rfl
  simp only [graphResults, ← List.map_take, ids_map, h.fetchGraphNeighbors_eq q hlinks, List.filter_map, hcond,
    hits_map]
  rfl

/-- The layers of a text search carry the hits with the access columns of now. -/
theorem textSearch_eq {named : List FragmentId} (hnamed : SameFirstLayer named q.keyIds first current)
    (hlinks : current.links = first.links) (text : String) (l1 : List FragmentId × Bool) (cached : List Hit)
    {l1MissIds : List FragmentId} (hids : ∀ id ∈ l1MissIds, id ∈ named) :
    textSearch model context current q text l1 (cached.map (refreshedHit current)) l1MissIds =
      (textSearch (seenIn model current) context first q text l1 cached l1MissIds).mapColumns (refreshedHit current) := by
  simp only [textSearch, RankFusion.TextSearch.mapColumns, searchL2_eq h hnamed hids, graphResults_eq h hlinks,
    searchL3_eq h, temporalResults_eq h, List.map_map]
  rfl

theorem buildTextRRF_eq {named : List FragmentId} (hnamed : SameFirstLayer named q.keyIds first current)
    (hlinks : current.links = first.links) (text : String) (l1 : List FragmentId × Bool) (cached : List Hit)
    {l1MissIds : List FragmentId} (hids : ∀ id ∈ l1MissIds, id ∈ named) :
    (buildTextRRF model context current q text l1 (cached.map (refreshedHit current)) l1MissIds).1 =
      (buildTextRRF (seenIn model current) context first q text l1 cached l1MissIds).1.map (refreshedHit current) := by
  have hlayers := @textSearch_eq _ _ h model context q _ hnamed hlinks text l1 cached _ hids
  simp only [buildTextRRF, hlayers, RankFusion.TextSearch.rrfLayers_mapColumns, fusedHits_eq, List.isEmpty_map]
  set combined := applyImportanceCutoff q ((RankFusion.fusedCandidates
    (textSearch (seenIn model current) context first q text l1 cached l1MissIds).rrfLayers 60).filterMap fusedHit)
  have hscores : (if combined.isEmpty then none
        else model.rerankScores q (((combined.map (refreshedHit current)).take 30).map Hit.row)) =
      if combined.isEmpty then none else (seenIn model current).rerankScores q ((combined.take 30).map Hit.row) := by
    have hrows : ((combined.map (refreshedHit current)).take 30).map Hit.row =
        ((combined.take 30).map Hit.row).map (refreshed current) := by
      rw [← List.map_take, List.map_map, List.map_map]
      rfl
    rw [hrows]
    rfl
  rw [hscores]
  rcases if combined.isEmpty then none else (seenIn model current).rerankScores q ((combined.take 30).map Hit.row) with
    _ | scores
  · rfl
  · simp only [← List.map_take, rerank_eq]

theorem buildFallbackCombined_eq {named : List FragmentId} (hnamed : SameFirstLayer named q.keyIds first current)
    (cached : List Hit) {l1MissIds : List FragmentId} (hids : ∀ id ∈ l1MissIds, id ∈ named) :
    (buildFallbackCombined model context current q (cached.map (refreshedHit current)) l1MissIds).1 =
      (buildFallbackCombined (seenIn model current) context first q cached l1MissIds).1.map (refreshedHit current) := by
  have hexact : ∀ found : List Hit, (found.map (refreshedHit current)).map (tagExact model q) =
      (found.map (tagExact (seenIn model current) q)).map (refreshedHit current) := by
    intro found
    rw [List.map_map, List.map_map]
    rfl
  have hsupplement : ∀ on : Bool, (if on then searchL3 model context current q (supplementText model q) true else []) =
      (if on then searchL3 (seenIn model current) context first q (supplementText model q) true else []).map
        (refreshedHit current) := by
    intro on
    split
    · exact searchL3_eq h _ _
    · rfl
  simp only [buildFallbackCombined, searchL2_eq h hnamed hids, temporalResults_eq h, hexact, hsupplement,
    ← List.map_append, ids_map, List.filter_map]
  simp only [List.map_append, List.map_map]
  rfl

/-- All layers together; only a search with fusion follows links. -/
theorem executeSearch_eq (hsame : SameFirstLayer (firstLayer model context first q) q.keyIds first current)
    (hlinks : (fusionText model q).isSome = true → current.links = first.links) :
    (executeSearch model context current q).1 =
      (executeSearch (seenIn model current) context first q).1.map (refreshedHit current) := by
  rw [firstLayer] at hsame
  have hcached : hits (if (searchL1 model.tools context.redisReady context.recency first q).1.isEmpty then []
        else tryHotCache context.redisReady current q (searchL1 model.tools context.redisReady context.recency first q).1) =
      (hits (if (searchL1 model.tools context.redisReady context.recency first q).1.isEmpty then []
        else tryHotCache context.redisReady first q (searchL1 model.tools context.redisReady context.recency first q).1)).map
          (refreshedHit current) := by
    split
    · rfl
    · exact (congrArg hits (h.tryHotCache_eq q hsame _)).trans (hits_map current _)
  have hmisses : ∀ cached :
    List Hit, ∀ id ∈ (if (searchL1 model.tools context.redisReady context.recency first q).2 then []
      else (searchL1 model.tools context.redisReady context.recency first q).1.filter fun id =>
        !(cached.map Hit.id).contains id), id ∈ (searchL1 model.tools context.redisReady context.recency first q).1 := by
    intro cached id hid
    split at hid
    · cases hid
    · exact (List.mem_filter.mp hid).1
  have hsearch : searchL1 (seenIn model current).tools = searchL1 model.tools := rfl
  have henabled : (seenIn model current).embeddingEnabled = model.embeddingEnabled := rfl
  simp only [executeSearch, h.searchL1_eq, hcached, ids_map, hsearch, henabled]
  split
  · rename_i text htext hon
    exact buildTextRRF_eq h hsame (hlinks (by rw [fusionText, hon, if_pos rfl, htext]; rfl)) _ _ _ (hmisses _)
  · exact buildFallbackCombined_eq h hsame _ (hmisses _)

end Layers

end FragmentMemory.AccessedSearch
