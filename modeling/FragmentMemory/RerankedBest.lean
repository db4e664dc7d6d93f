import FragmentMemory.MergeById
import FragmentMemory.TokenBudget

/-! # The best reranked fragment of a search

After a rerank the diversity selection moves the fragments without a similarity behind the others, and the cut to the
token budget ends at the first one that does not fit.  The best fragment is lost when it has no similarity and those
that are moved before it use up its place.
-/
namespace FragmentMemory.RerankedBest
open FragmentTables RecallQueries FragmentSearch SearchProvenance DistinctHits FittingSelection

variable {model : SearchModel} {context : SearchContext} {store : Store} {q : SearchQuery} {found : List Hit} {best : Hit}

/-! ## Which hits have a score -/

/-- A hit as a layer finds it. -/
def Fresh (hit : Hit) : Prop := hit.rerankerScore = none ∧ hit.kwExact = false ∧ hit.kwSupplement = false

/-- A hit that the reranker has scored; the tags belong to the other path. -/
def Scored (hit : Hit) : Prop := hit.rerankerScore.isSome = true ∧ hit.kwExact = false ∧ hit.kwSupplement = false

theorem fresh_hits (rows : List Fragment) : ∀ hit ∈ hits rows, Fresh hit := by
  intro hit hhit
  obtain ⟨f, -, rfl⟩ := List.mem_map.mp hhit
  exact ⟨rfl, rfl, rfl⟩

theorem fresh_searchBySemantic (similarity : Fragment → Option ℚ) (minSimilarity : ℚ) (limit : ℕ) (affectOn : Bool) :
    ∀ hit ∈ searchBySemantic store q similarity minSimilarity limit affectOn, Fresh hit := by
  intro hit hhit
  obtain ⟨f, -, rfl⟩ := List.mem_map.mp hhit
  exact ⟨rfl, rfl, rfl⟩

theorem fresh_searchL3 (text : String) (skipMorpheme : Bool) :
    ∀ hit ∈ searchL3 model context store q text skipMorpheme, Fresh hit := by
  intro hit hhit
  simp only [searchL3] at hhit
  rcases List.mem_append.mp (List.mem_filter.mp hhit).1 with hbasic | hmorpheme
  · split at hbasic
    · obtain ⟨other, hother, rfl⟩ := List.mem_map.mp hbasic
      have hfresh := fresh_searchBySemantic _ _ _ _ other hother
      rw [boostAssistant]
      split
      · exact hfresh
      · exact hfresh
    · exact fresh_searchBySemantic _ _ _ _ hit hbasic
  · have hextra := (List.mem_filter.mp hmorpheme).1
    split at hextra
    · exact absurd hextra List.not_mem_nil
    · exact fresh_searchBySemantic _ _ _ _ hit hextra

theorem fresh_temporalResults : ∀ hit ∈ temporalResults store q, Fresh hit := by
  intro hit hhit
  rw [temporalResults] at hhit
  cases hrange : q.timeRange with
  | none =>
    rw [hrange] at hhit
    exact absurd hhit List.not_mem_nil
  | some range =>
    rw [hrange] at hhit
    exact fresh_hits _ hit hhit

theorem fresh_textHits (text : String) {cached : List Hit} (hcached : ∀ hit ∈ cached, Fresh hit)
    (l1MissIds : List FragmentId) :
    ∀ hit ∈ textHits model context store q text cached l1MissIds, Fresh hit := by
  intro hit hhit
  simp only [textHits, List.mem_append] at hhit
  rcases hhit with (((hcache | hl2) | hgraph) | hl3) | htemporal
  · exact hcached hit hcache
  · exact fresh_hits _ hit hl2
  · exact fresh_hits _ hit hgraph
  · exact fresh_searchL3 text false hit hl3
  · exact fresh_temporalResults hit htemporal

/-- Fusion changes the fusion score alone. -/
theorem fresh_fusedHit {text : String} {l1 : List FragmentId × Bool} {cached : List Hit} {l1MissIds : List FragmentId}
    (hcached : ∀ hit ∈ cached, Fresh hit) {entry : RankFusion.Fused Hit} {hit : Hit}
    (hentry : entry ∈ RankFusion.fusedCandidates
      (textSearch model context store q text l1 cached l1MissIds).rrfLayers 60) (hhit : fusedHit entry = some hit) :
    Fresh hit := by
  have hmerged := ((RankFusion.mem_fusedCandidates_iff _ _ _).mp hentry).1
  have hread := (RankFusion.find?_readOrder_mem ((RankFusion.mem_mergeRRF_iff _ _ _).mp hmerged).1).1
  simp only [fusedHit] at hhit
  split at hhit
  · cases hhit
  · rename_i fragment hitem
    rw [hitem] at hread
    have hfresh := fresh_textHits text hcached l1MissIds _ (columns_of_textSearch hread)
    rw [← Option.some.inj hhit]
    exact hfresh

/-- A text search ends with scores for all its hits, or for none. -/
theorem buildTextRRF_scored_or_fresh (text : String) (l1 : List FragmentId × Bool) {cached : List Hit}
    (hcached : ∀ hit ∈ cached, Fresh hit) (l1MissIds : List FragmentId) :
    (∀ hit ∈ (buildTextRRF model context store q text l1 cached l1MissIds).1, Scored hit) ∨
      ∀ hit ∈ (buildTextRRF model context store q text l1 cached l1MissIds).1, hit.rerankerScore = none := by
  have hcombined : ∀ hit ∈ applyImportanceCutoff q ((RankFusion.fusedCandidates
      (textSearch model context store q text l1 cached l1MissIds).rrfLayers 60).filterMap fusedHit), Fresh hit := by
    intro hit hhit
    obtain ⟨entry, hentry, hof⟩ := List.mem_filterMap.mp (List.mem_filter.mp hhit).1
    exact fresh_fusedHit hcached hentry hof
  simp only [buildTextRRF]
  generalize applyImportanceCutoff q ((RankFusion.fusedCandidates
    (textSearch model context store q text l1 cached l1MissIds).rrfLayers 60).filterMap fusedHit) = combined at hcombined ⊢
  split
  · left
    intro hit hhit
    obtain ⟨⟨other, i⟩, hother, rfl⟩ := List.mem_map.mp ((List.mem_insertionSort _).mp (List.mem_of_mem_take hhit))
    have hcandidate := List.mem_of_mem_take (List.mem_of_getElem? (List.mk_mem_zipIdx_iff_getElem?.mp hother))
    exact ⟨rfl, (hcombined other hcandidate).2⟩
  · exact Or.inr fun hit hhit => (hcombined hit hhit).1

theorem buildFallbackCombined_unscored {cached : List Hit} (hcached : ∀ hit ∈ cached, Fresh hit)
    (l1MissIds : List FragmentId) :
    ∀ hit ∈ (buildFallbackCombined model context store q cached l1MissIds).1, hit.rerankerScore = none := by
  intro hit hhit
  simp only [buildFallbackCombined, List.mem_append, List.mem_map, List.mem_filter] at hhit
  rcases hhit with ((⟨other, hother, rfl⟩ | ⟨other, hother, rfl⟩) | htemporal) | ⟨other, ⟨hother, -⟩, rfl⟩
  · exact (fresh_hits _ other hother).1
  · exact (hcached other hother).1
  · exact (fresh_temporalResults hit htemporal).1
  · split at hother
    · exact (fresh_searchL3 _ _ other hother).1
    · exact absurd hother List.not_mem_nil

/-- After the layers either every hit has a score and no tag, or none has a score. -/
theorem executeSearch_scored_or_fresh :
    (∀ hit ∈ (executeSearch model context store q).1, Scored hit) ∨
      ∀ hit ∈ (executeSearch model context store q).1, hit.rerankerScore = none := by
  simp only [executeSearch]
  split
  · exact buildTextRRF_scored_or_fresh _ _ (fresh_hits _) _
  · exact Or.inr (buildFallbackCombined_unscored (fresh_hits _) _)

/-! ## The ranking of a search -/

/-- The distinct hits of a search in their order before the diversity selection. -/
def rankedHits (model : SearchModel) (context : SearchContext) (store : Store) (q : SearchQuery) : List Hit :=
  orderLexical model q (deduplicate model (executeSearch model context store q).1 q.anchorTime)

/-- What the search cuts to its token budget. -/
def trimmedHits (model : SearchModel) (context : SearchContext) (store : Store) (q : SearchQuery) : List Hit :=
  trimToTokenBudget model (diversify (rankedHits model context store q)) q.tokenBudget

theorem forall_deduplicate {P : Hit → Prop} {anchorTime : Time}
    (hmerge : ∀ kept hit, P kept → P hit →
      P { hit with kwExact := kept.kwExact || hit.kwExact }) (h : ∀ hit ∈ found, P hit) :
    ∀ hit ∈ deduplicate model found anchorTime, P hit := by
  have hstep : ∀ seen hit, (∀ kept ∈ seen, P kept) → P hit → ∀ kept ∈ keepBetter seen hit, P kept := by
    intro seen hit hseen hhit
    simp only [keepBetter]
    split
    · intro kept hkept
      obtain ⟨old, hold, rfl⟩ := List.mem_map.mp hkept
      split
      · exact hmerge old hit (hseen old hold) hhit
      · exact hseen old hold
    · intro kept hkept
      rcases List.mem_append.mp hkept with hold | hlast
      · exact hseen kept hold
      · rw [List.mem_singleton.mp hlast]
        exact hhit
  have hfold : ∀ later seen : List Hit, (∀ kept ∈ seen, P kept) → (∀ hit ∈ later, P hit) →
    ∀ kept ∈ later.foldl keepBetter seen, P kept := by
    intro later
    induction later with
    | nil => exact fun seen hseen _ => hseen
    | cons hit later ih =>
      intro seen hseen hlater
      exact ih _ (hstep seen hit hseen (hlater hit List.mem_cons_self)) fun other hother =>
        hlater other (List.mem_cons_of_mem _ hother)
  intro hit hhit
  exact hfold found [] (fun _ hkept => absurd hkept List.not_mem_nil) h hit ((List.mem_insertionSort _).mp hhit)

/-- Scored hits stay in the order of their scores. -/
theorem sorted_deduplicate {anchorTime : Time} (h : ∀ hit ∈ found, Scored hit) :
    (deduplicate model found anchorTime).Pairwise fun a b => ∀ s ∈ a.rerankerScore, ∀ t ∈ b.rerankerScore, t ≤ s := by
  have hscored : ∀ hit ∈ deduplicate model found anchorTime, Scored hit := by
    refine forall_deduplicate (fun kept hit hkept hhit => ⟨hhit.1, ?_, hhit.2.2⟩) h
    rw [hkept.2.1, hhit.2.1]
    rfl
  have htotal : Std.Total fun a b : Hit =>
      b.rerankerScore.getD (model.rankScore anchorTime b) ≤ a.rerankerScore.getD (model.rankScore anchorTime a) :=
    ⟨fun a b => le_total _ _⟩
  have htrans : IsTrans Hit fun a b =>
      b.rerankerScore.getD (model.rankScore anchorTime b) ≤ a.rerankerScore.getD (model.rankScore anchorTime a) :=
    ⟨fun a b c hab hbc => hbc.trans hab⟩
  have hsorted : (deduplicate model found anchorTime).Pairwise fun a b : Hit =>
      b.rerankerScore.getD (model.rankScore anchorTime b) ≤ a.rerankerScore.getD (model.rankScore anchorTime a) :=
    List.pairwise_insertionSort _ _
  refine hsorted.imp fun {a b} hle s hs t ht => ?_
  rw [Option.mem_def.mp hs, Option.mem_def.mp ht] at hle
  exact hle

/-- The first of the hits with the highest score. -/
def Best (found : List Hit) (best : Hit) : Prop :=
  ∃ score before after, found = before ++ best :: after ∧ best.rerankerScore = some score ∧
    (∀ other ∈ before, ∀ s ∈ other.rerankerScore, s < score) ∧ ∀ other ∈ after, ∀ s ∈ other.rerankerScore, s ≤ score

/-- A ranked list of scored hits begins with the best. -/
theorem Best.head (h : Best found best) (hscored : ∀ hit ∈ found, Scored hit)
    (hsorted : found.Pairwise fun a b => ∀ s ∈ a.rerankerScore, ∀ t ∈ b.rerankerScore, t ≤ s) :
    ∃ after, found = best :: after := by
  obtain ⟨score, before, after, rfl, hscore, hbefore, -⟩ := h
  cases before with
  | nil => exact ⟨after, rfl⟩
  | cons first others =>
    obtain ⟨s, hs⟩ := Option.isSome_iff_exists.mp (hscored first List.mem_cons_self).1
    have hless := hbefore first List.mem_cons_self s hs
    have hle := List.rel_of_pairwise_cons hsorted (List.mem_append_right others List.mem_cons_self) s hs score hscore
    exact absurd hless (not_lt_of_ge hle)

theorem selected_prefix (rounds : ℕ) (selected remaining : List Hit) :
    selected <+: selectDiverse rounds selected remaining := by
  induction rounds generalizing selected remaining with
  | zero => exact List.prefix_rfl
  | succ rounds ih =>
    cases remaining with
    | nil => exact List.prefix_rfl
    | cons first others => exact (List.prefix_append _ _).trans (ih _ _)

/-- Without tags the cut takes the longest start that fits. -/
theorem mem_trim_iff {before after : List Hit} {budget : ℕ} (hplain : ∀ hit ∈ before ++ best :: after, Scored hit)
    (hfirst : best ∉ before) :
    best ∈ trimToTokenBudget model (before ++ best :: after) budget ↔
      totalCost model before + tokenCost model best ≤ budget := by
  have hnone : (before ++ best :: after).any (fun hit => hit.kwExact || hit.kwSupplement) = false := by
    rw [List.any_eq_false]
    intro hit hhit
    rw [(hplain hit hhit).2.1, (hplain hit hhit).2.2]
    exact Bool.false_ne_true
  rw [trimToTokenBudget, hnone, if_neg Bool.false_ne_true, TokenBudget.takeWithin_eq]
  exact mem_takeFitting_iff (fun m n hmn hn => hmn.trans hn) (Nat.zero_le _) hfirst

/-- The hits with a similarity. -/
def embedded (found : List Hit) : List Hit := found.filter fun hit => hit.similarity.isSome

/-- With two hits or more that have a similarity these come first, the first of them still first. -/
theorem applyMMR_reorders (h : 1 < (embedded found).length) :
    ∃ selected, selected.Perm (embedded found) ∧ selected.head? = (embedded found).head? ∧
      applyMMR found = selected ++ found.filter fun hit => hit.similarity.isNone := by
  simp only [embedded] at h ⊢
  rcases hembedded : found.filter (fun hit => hit.similarity.isSome) with _ | ⟨first, _ | ⟨second, others⟩⟩
  · rw [hembedded] at h
    cases h
  · rw [hembedded] at h
    exact absurd h (lt_irrefl 1)
  · refine ⟨selectDiverse (others.length + 1) [first] (second :: others),
      hembedded ▸ @selectDiverse_perm (others.length + 1) (second :: others) le_rfl [first], ?_, ?_⟩
    · obtain ⟨later, hlater⟩ := selected_prefix (others.length + 1) [first] (second :: others)
      rw [← hlater, hembedded]
      rfl
    · rw [applyMMR, hembedded]

theorem applyMMR_of_le_one (h : (embedded found).length ≤ 1) : applyMMR found = found := by
  simp only [embedded] at h
  rcases hembedded : found.filter (fun hit => hit.similarity.isSome) with _ | ⟨first, _ | ⟨second, others⟩⟩
  · rw [applyMMR, hembedded]
  · rw [applyMMR, hembedded]
  · rw [hembedded, List.length_cons, List.length_cons] at h
    omega

/-- The place of the best fragment: it has a similarity or the selection does not reorder, or else those that have one
leave it room. -/
def HasPlace (model : SearchModel) (budget : ℕ) (found : List Hit) (best : Hit) : Prop :=
  best.similarity.isSome = true ∨ (embedded found).length ≤ 1 ∨
    totalCost model (embedded found) + tokenCost model best ≤ budget

/-- The best fragment of a ranked list stays when it has a place, and only then. -/
theorem best_mem_trimmed_iff {after : List Hit} {budget : ℕ} (hscored : ∀ hit ∈ best :: after, Scored hit)
    (hfits : tokenCost model best ≤ budget) :
    best ∈ trimToTokenBudget model (diversify (best :: after)) budget ↔ HasPlace model budget (best :: after) best := by
  have hdiverse : diversify (best :: after) = applyMMR (best :: after) := by
    rw [diversify, if_pos]
    exact (hscored best List.mem_cons_self).1
  have hplain : ∀ hit ∈ applyMMR (best :: after), Scored hit :=
    fun hit hhit => hscored hit ((applyMMR_perm (best :: after)).mem_iff.mp hhit)
  have hfirst : ∀ others, applyMMR (best :: after) = best :: others →
      best ∈ trimToTokenBudget model (applyMMR (best :: after)) budget := by
    intro others hothers
    rw [hothers] at hplain ⊢
    exact (@mem_trim_iff model best [] others budget hplain List.not_mem_nil).mpr ((Nat.zero_add _).le.trans hfits)
  rw [hdiverse]
  by_cases hfew : (embedded (best :: after)).length ≤ 1
  · exact iff_of_true (hfirst after (applyMMR_of_le_one hfew)) (Or.inr (Or.inl hfew))
  · obtain ⟨selected, hperm, hhead, hreordered⟩ := applyMMR_reorders (Nat.lt_of_not_le hfew)
    by_cases hsimilarity : best.similarity.isSome = true
    · refine iff_of_true ?_ (Or.inl hsimilarity)
      have hembedded : embedded (best :: after) = best :: embedded after := List.filter_cons_of_pos hsimilarity
      rw [hembedded, List.head?_cons] at hhead
      obtain ⟨others, rfl⟩ := List.head?_eq_some_iff.mp hhead
      exact hfirst _ hreordered
    · have hnone : best.similarity.isNone = true := by
        rw [Option.isNone_iff_eq_none, ← Option.not_isSome_iff_eq_none]
        exact hsimilarity
      have hafter : best ∉ selected := fun hmem =>
        hsimilarity (List.mem_filter.mp (hperm.mem_iff.mp hmem)).2
      have hcost : totalCost model selected = totalCost model (embedded (best :: after)) := (hperm.map _).sum_eq
      have hplainHits : (best :: after).filter (fun hit => hit.similarity.isNone) =
          best :: after.filter fun hit => hit.similarity.isNone := List.filter_cons_of_pos hnone
      rw [hplainHits] at hreordered
      rw [hreordered] at hplain ⊢
      rw [mem_trim_iff hplain hafter, hcost, HasPlace]
      exact ⟨fun hroom => Or.inr (Or.inr hroom), fun hplace => hplace.elim (fun h => absurd h hsimilarity) fun hrest =>
        hrest.elim (fun h => absurd h hfew) fun hroom => hroom⟩

/-- The best fragment is in the trimmed output whenever it fits in the budget alone. -/
def BestReturned (model : SearchModel) (context : SearchContext) (store : Store) (q : SearchQuery) : Prop :=
  ∀ best, Best (rankedHits model context store q) best → tokenCost model best ≤ q.tokenBudget →
    best ∈ trimmedHits model context store q

/-- The diversity selection loses and adds nothing, and the best fragment of a search that the reranker has scored is
returned exactly when it has a place. -/
theorem bestReturned_iff (model : SearchModel) (context : SearchContext) (store : Store) (q : SearchQuery) :
    (∀ found, (applyMMR found).Perm found) ∧
      (BestReturned model context store q ↔
        ∀ best, Best (rankedHits model context store q) best → tokenCost model best ≤ q.tokenBudget →
          HasPlace model q.tokenBudget (rankedHits model context store q) best) := by
  refine ⟨applyMMR_perm, forall_congr' fun best => forall_congr' fun hbest => forall_congr' fun hfits => ?_⟩
  have hmem : best ∈ deduplicate model (executeSearch model context store q).1 q.anchorTime := by
    obtain ⟨score, before, after, hranked, -⟩ := hbest
    have hranks : best ∈ rankedHits model context store q := by
      rw [hranked]
      exact List.mem_append_right _ List.mem_cons_self
    exact forall_mem_ite (fun _ hhit => hhit) (fun _ hhit => (List.mem_insertionSort _).mp hhit) best hranks
  have hbestScored : best.rerankerScore.isSome = true := by
    obtain ⟨score, before, after, -, hscore, -⟩ := hbest
    rw [hscore]
    rfl
  rcases @executeSearch_scored_or_fresh model context store q with hscored | hfresh
  · have hall : ∀ hit ∈ deduplicate model (executeSearch model context store q).1 q.anchorTime, Scored hit := by
      refine forall_deduplicate (fun kept hit hkept hhit => ⟨hhit.1, ?_, hhit.2.2⟩) hscored
      rw [hkept.2.1, hhit.2.1]
      rfl
    have horder :
      rankedHits model context store q = deduplicate model (executeSearch model context store q).1 q.anchorTime := by
      have hsome : (deduplicate model (executeSearch model context store q).1 q.anchorTime).any
          (fun hit => hit.similarity.isSome || hit.rerankerScore.isSome) = true :=
        List.any_eq_true.mpr ⟨best, hmem, by rw [hbestScored, Bool.or_true]⟩
      rw [rankedHits, orderLexical, lexicalKeywords, if_pos hsome]
      rfl
    have hsorted := @sorted_deduplicate model _ q.anchorTime hscored
    rw [← horder] at hall hsorted
    obtain ⟨after, hranked⟩ := hbest.head hall hsorted
    rw [trimmedHits, hranked]
    rw [hranked] at hall
    exact best_mem_trimmed_iff hall hfits
  · have hnone : best.rerankerScore = none :=
      @forall_deduplicate model _ (fun hit => hit.rerankerScore = none) _ (fun _ _ _ hhit => hhit) hfresh best hmem
    rw [hnone] at hbestScored
    cases hbestScored

/-! ## A best fragment that is lost -/

def vpnRow (id content : String) (keywords : List String) : Fragment :=
  { id := id, content := content, topic := "vpn", keywords := keywords, type := .fact, importance := 5 / 10
    contentHash := id, keyId := none, createdAt := 0 }

/-- A row that a keyword finds, and two that are found by their vectors. -/
def vpnRows : Store where
  fragments := [vpnRow "frag-01" "vpn gateway: new address" ["vpn"], vpnRow "frag-02" "tunnels drop every night" ["tunnel"],
    vpnRow "frag-03" "the tunnel is up by noon" ["uptime"]].foldl (fun table f => (table.insert f).getD table)
      UniqueIndexTable.Table.empty

/-- Embeddings of the later two rows, scores that rank the first one highest, and the token estimate without encoder. -/
def vpnModel : SearchModel :=
  { MergeById.plainModel with
    tools := { MergeById.plainModel.tools with countTokens := fun text => (JsString.utf16Length text + 3) / 4 }
    embeddingEnabled := true
    similarity := fun _ f => if f.id = "frag-01" then none else some (8 / 10)
    rerankScores := fun _ rows => some (rows.map fun f => if f.id = "frag-01" then 9 / 10 else 5 / 10) }

def vpnQuery : SearchQuery := { text := some "vpn", keywords := ["vpn"], tokenBudget := 12, anchorTime := 0 }

def vpnBest : Hit :=
  { row := vpnRow "frag-01" "vpn gateway: new address" ["vpn"], rrfScore := some (1 / 61), rerankerScore := some (9 / 10) }

/-- The layers of the search, in which the first row leads. -/
def vpnLayers : List (RankFusion.Layer Hit) := (textSearch vpnModel {} vpnRows vpnQuery "vpn" ([], true) [] []).rrfLayers

def vpnHits : List Hit :=
  [vpnBest,
    { row := vpnRow "frag-02" "tunnels drop every night" ["tunnel"], similarity := some (8 / 10), rrfScore := some (1 / 61)
      rerankerScore := some (5 / 10) },
    { row := vpnRow "frag-03" "the tunnel is up by noon" ["uptime"], similarity := some (8 / 10), rrfScore := some (1 / 62)
      rerankerScore := some (5 / 10) }]

theorem executeSearch_vpn : (executeSearch vpnModel {} vpnRows vpnQuery).1 = vpnHits := by
  have hmerged :
    RankFusion.mergeRRF vpnLayers 60 = RankFusion.scoreMap.collect (RankFusion.occurrenceStream vpnLayers 60) := by
    rw [RankFusion.mergeRRF]
    exact List.mergeSort_of_pairwise (by decide +kernel)
  have hl1 : searchL1 vpnModel.tools true (fun _ _ => 0) vpnRows vpnQuery = ([], true) := by decide
  have htext : (executeSearch vpnModel {} vpnRows vpnQuery).1 =
      (buildTextRRF vpnModel {} vpnRows vpnQuery "vpn" ([], true) [] []).1 := by
    simp only [executeSearch, hl1]
    rfl
  have hcombined : applyImportanceCutoff vpnQuery ((RankFusion.fusedCandidates vpnLayers 60).filterMap fusedHit) =
      vpnHits.map fun hit => { hit with rerankerScore := none } := by
    rw [RankFusion.fusedCandidates, hmerged]
    decide +kernel
  rw [htext, buildTextRRF]
  simp only [← vpnLayers.eq_def, hcombined]
  decide +kernel

/-- Two rows of six tokens take the twelve of the budget before the best one, of six tokens as well, has its turn. -/
theorem best_reranked_lost : ¬ BestReturned vpnModel {} vpnRows vpnQuery := by
  intro hreturned
  have hranked : rankedHits vpnModel {} vpnRows vpnQuery = vpnHits := by
    rw [rankedHits, executeSearch_vpn]
    decide +kernel
  have hlower : ∀ other ∈ vpnHits.tail, ∀ s ∈ other.rerankerScore, s ≤ 9 / 10 := by decide +kernel
  have hlost : vpnBest ∉ trimmedHits vpnModel {} vpnRows vpnQuery := by
    rw [trimmedHits, hranked]
    decide
  have hbest : Best (rankedHits vpnModel {} vpnRows vpnQuery) vpnBest :=
    ⟨9 / 10, [], _, hranked, rfl, fun _ hother => absurd hother List.not_mem_nil, hlower⟩
  exact hlost (hreturned vpnBest hbest (by decide))

end FragmentMemory.RerankedBest
