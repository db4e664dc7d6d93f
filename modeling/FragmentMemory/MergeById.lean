import FragmentMemory.DistinctHits
import Mathlib.Order.WithBot

/-! # The merge of the layers by id

`FragmentSearch._deduplicate` keeps one hit for each id while it goes through the layers.  The loop is followed with
what it has kept of the hits seen so far: the first hit of an id stays until one with better evidence comes.
-/
namespace FragmentMemory.MergeById
open FragmentTables RecallQueries FragmentSearch DistinctHits

/-! ## The composite rank score -/

/-- `Math.exp` and `Math.pow(2, ·)` on the numbers of the engine. -/
structure MathFunctions where
  exp : ℚ → ℚ
  pow2 : ℚ → ℚ

/-- `MEMORY_CONFIG.ranking`, as far as the rank score reads it. -/
structure RankingWeights where
  importanceWeight : ℚ := 4 / 10
  recencyWeight : ℚ := 3 / 10
  semanticWeight : ℚ := 3 / 10
  recencyHalfLifeDays : ℚ := 30
  exactKeywordBoost : Option ℚ := some (35 / 100)

/-- `value || fallback` on numbers. -/
def orFallback (value fallback : ℚ) : ℚ := if value = 0 then fallback else value

/-- `computeEmaRankBoost`. -/
def computeEmaRankBoost (math : MathFunctions) (ema : Option ℚ) : ℚ := 2 / 10 * (1 - math.exp (-max 0 (ema.getD 0)))

/-- `_computeRankScore`. -/
def computeRankScore (math : MathFunctions) (weights : RankingWeights) (anchorTime : Time) (hit : Hit) : ℚ :=
  let emaBoost := computeEmaRankBoost math hit.row.emaActivation
  let effectiveImp := min 1 (hit.row.importance + emaBoost * (5 / 10))
  let distDays := |(anchorTime : ℚ) - hit.row.createdAt| / 86400000
  let proximity := math.pow2 (-distDays / orFallback weights.recencyHalfLifeDays 30)
  let similarity := ((hit.similarity.filter (· ≠ 0)).or hit.rrfScore).getD 0
  let exactBoost := if hit.kwExact then weights.exactKeywordBoost.getD (35 / 100) else 0
  effectiveImp * orFallback weights.importanceWeight (4 / 10) + proximity * orFallback weights.recencyWeight (3 / 10) +
    similarity * orFallback weights.semanticWeight (3 / 10) + exactBoost

/-- The search whose hits are ranked by the composite score. -/
def ranked (model : SearchModel) (math : MathFunctions) (weights : RankingWeights) : SearchModel :=
  { model with rankScore := computeRankScore math weights }

/-- The reranker's score where it is present, and the composite rank score otherwise. -/
def scoreOf (math : MathFunctions) (weights : RankingWeights) (anchorTime : Time) (hit : Hit) : ℚ :=
  hit.rerankerScore.getD (computeRankScore math weights anchorTime hit)

/-! ## What the loop keeps -/

/-- The similarity of a hit, a missing one counted as zero. -/
def strength (hit : Hit) : ℚ := hit.similarity.getD 0

/-- The similarity as the loop compares it: a missing one and zero are below every other. -/
def evidence (hit : Hit) : WithBot ℚ := hit.similarity.filter (· ≠ 0)

theorem evidence_cases (hit : Hit) : evidence hit = ⊥ ∧ strength hit = 0 ∨
    evidence hit = (strength hit : WithBot ℚ) := by
  rcases hsimilarity : hit.similarity with _ | value
  · left
    simp only [evidence, strength, hsimilarity, Option.getD_none]
    exact ⟨rfl, trivial⟩
  · by_cases hzero : value = 0
    · left
      simp only [evidence, strength, hsimilarity, hzero, Option.getD_some]
      exact ⟨rfl, trivial⟩
    · right
      simp only [evidence, strength, hsimilarity, Option.getD_some, Option.filter_some, hzero, ne_eq, not_false_eq_true,
        decide_true, if_true]
      rfl

theorem betterSimilarity_iff {hit kept : Hit} : betterSimilarity hit kept = true ↔ evidence kept < evidence hit := by
  rw [betterSimilarity, evidence, evidence]
  rcases hsimilarity : hit.similarity with _ | value
  · exact iff_of_false Bool.false_ne_true not_lt_bot
  · by_cases hzero : value = 0
    · simp only [hzero, Option.filter_some, ne_eq, not_true_eq_false, decide_false, Bool.false_and,
        Bool.false_eq_true, if_false]
      exact iff_of_false not_false not_lt_bot
    · have hshown : (some value).filter (fun x => decide (x ≠ 0)) = some value := by simp [hzero]
      rw [hshown]
      rcases hkept : kept.similarity with _ | other
      · simp only [hzero, ne_eq, not_false_eq_true, decide_true, Option.all_none, Bool.and_true, true_iff]
        exact WithBot.bot_lt_coe value
      · by_cases hother : other = 0
        · simp only [hzero, hother, ne_eq, not_false_eq_true, decide_true, Option.all_some, Bool.true_or, Bool.and_true,
            true_iff]
          exact WithBot.bot_lt_coe value
        · have hcompared : (some other).filter (fun x => decide (x ≠ 0)) = some other := by simp [hother]
          rw [hcompared]
          simp only [hzero, hother, ne_eq, not_false_eq_true, decide_true, Option.all_some, decide_false, Bool.false_or,
            Bool.true_and, decide_eq_true_eq]
          exact WithBot.coe_lt_coe.symm

/-- What is kept of the hits seen so far, for the id of the kept one. -/
structure Kept (seen : List Hit) (kept : Hit) : Prop where
  origin : ∃ hit ∈ seen, kept = { hit with kwExact := kept.kwExact }
  best : ∀ hit ∈ seen, hit.id = kept.id → evidence hit ≤ evidence kept
  exact : ∀ first, seen.find? (fun hit => hit.id = kept.id) = some first → first.kwExact = true → kept.kwExact = true

/-- The list of the loop: an entry for each id that has been seen. -/
structure Merged (seen merged : List Hit) : Prop where
  ids : ∀ id, id ∈ merged.map Hit.id ↔ id ∈ seen.map Hit.id
  kept : ∀ kept ∈ merged, Kept seen kept

variable {seen merged : List Hit} {hit kept : Hit}

theorem Kept.mem_ids (h : Kept seen kept) : ∃ first, seen.find? (fun hit => hit.id = kept.id) = some first := by
  obtain ⟨hit, hhit, hkept⟩ := h.origin
  refine Option.isSome_iff_exists.mp (List.find?_isSome.mpr ⟨hit, hhit, decide_eq_true ?_⟩)
  rw [hkept]
  rfl

/-- A hit that is not better leaves the kept one. -/
theorem Kept.stay (h : Kept seen kept) (hworse : hit.id = kept.id → evidence hit ≤ evidence kept) :
    Kept (seen ++ [hit]) kept where
  origin := by
    obtain ⟨other, hother, hkept⟩ := h.origin
    exact ⟨other, List.mem_append_left _ hother, hkept⟩
  best other hother hid := by
    rcases List.mem_append.mp hother with hseen | hnew
    · exact h.best other hseen hid
    · rw [List.mem_singleton.mp hnew] at hid ⊢
      exact hworse hid
  exact first hfirst := by
    obtain ⟨before, hbefore⟩ := h.mem_ids
    rw [List.find?_append, hbefore, Option.some_or, ← hbefore] at hfirst
    exact h.exact first hfirst

/-- A better hit takes over the tag of the kept one. -/
theorem Kept.replace (h : Kept seen kept) (hid : kept.id = hit.id) (hbetter : evidence kept < evidence hit) :
    Kept (seen ++ [hit]) { hit with kwExact := kept.kwExact || hit.kwExact } where
  origin := ⟨hit, List.mem_append_right _ List.mem_cons_self, rfl⟩
  best other hother hsame := by
    rcases List.mem_append.mp hother with hseen | hnew
    · exact (h.best other hseen (hsame.trans hid.symm)).trans hbetter.le
    · rw [List.mem_singleton.mp hnew]
      exact le_rfl
  exact first hfirst htag := by
    have hlookup : (fun other : Hit => decide (other.id = hit.id)) = fun other => decide (other.id = kept.id) := by
      rw [hid]
    obtain ⟨before, hbefore⟩ := h.mem_ids
    change (seen ++ [hit]).find? (fun other => decide (other.id = hit.id)) = some first at hfirst
    rw [hlookup, List.find?_append, hbefore, Option.some_or, ← hbefore] at hfirst
    simp only [h.exact first hfirst htag, Bool.true_or]

/-- The first hit of an id. -/
theorem kept_new (hnew : hit.id ∉ seen.map Hit.id) : Kept (seen ++ [hit]) hit where
  origin := ⟨hit, List.mem_append_right _ List.mem_cons_self, rfl⟩
  best other hother hid := by
    rcases List.mem_append.mp hother with hseen | hlast
    · exact absurd (List.mem_map.mpr ⟨other, hseen, hid⟩) hnew
    · rw [List.mem_singleton.mp hlast]
  exact first hfirst htag := by
    have hnone : seen.find? (fun other => other.id = hit.id) = none :=
      List.find?_eq_none.mpr fun other hother hid => hnew (List.mem_map.mpr ⟨other, hother, of_decide_eq_true hid⟩)
    have hlast : [hit].find? (fun other => other.id = hit.id) = some hit := List.find?_cons_of_pos (by simp)
    rw [List.find?_append, hnone, Option.none_or, hlast] at hfirst
    rw [Option.some.inj hfirst]
    exact htag

/-- One step of the loop. -/
theorem Merged.keepBetter (h : Merged seen merged) (hit : Hit) : Merged (seen ++ [hit]) (keepBetter merged hit) := by
  simp only [FragmentSearch.keepBetter]
  split
  · rename_i hfound
    obtain ⟨old, hold, hid⟩ := List.any_eq_true.mp hfound
    have hmem : hit.id ∈ seen.map Hit.id := (h.ids _).mp (List.mem_map.mpr ⟨old, hold, of_decide_eq_true hid⟩)
    refine ⟨fun id => ?_, fun kept hkept => ?_⟩
    · have hids : (merged.map fun kept => if (decide (kept.id = hit.id) && betterSimilarity hit kept) = true then
          { hit with kwExact := kept.kwExact || hit.kwExact } else kept).map Hit.id = merged.map Hit.id := by
        rw [List.map_map]
        refine List.map_congr_left fun kept _ => ?_
        rw [Function.comp_apply]
        split
        · rename_i hreplaced
          exact (of_decide_eq_true (Bool.and_eq_true _ _ |>.mp hreplaced).1).symm
        · rfl
      rw [hids, h.ids, List.map_append, List.mem_append, List.map_singleton, List.mem_singleton]
      refine ⟨Or.inl, fun hid => hid.elim (fun hold => hold) fun hnew => ?_⟩
      rw [hnew]
      exact hmem
    · obtain ⟨old, hold, rfl⟩ := List.mem_map.mp hkept
      have hstands := h.kept old hold
      split
      · rename_i hreplaced
        obtain ⟨hsame, hbetter⟩ := (Bool.and_eq_true _ _).mp hreplaced
        exact hstands.replace (of_decide_eq_true hsame) (betterSimilarity_iff.mp hbetter)
      · rename_i hstays
        refine hstands.stay fun hsame => le_of_not_gt fun hbetter => hstays ?_
        rw [Bool.and_eq_true]
        exact ⟨decide_eq_true hsame.symm, betterSimilarity_iff.mpr hbetter⟩
  · rename_i hnone
    have hnew : hit.id ∉ merged.map Hit.id := by
      intro hmem
      obtain ⟨old, hold, hid⟩ := List.mem_map.mp hmem
      exact hnone (List.any_eq_true.mpr ⟨old, hold, decide_eq_true hid⟩)
    refine ⟨fun id => ?_, fun kept hkept => ?_⟩
    · rw [List.map_append, List.map_append, List.mem_append, List.mem_append, h.ids]
    · rcases List.mem_append.mp hkept with hold | hlast
      · refine (h.kept kept hold).stay fun hsame => absurd ?_ hnew
        rw [hsame]
        exact List.mem_map_of_mem hold
      · rw [List.mem_singleton.mp hlast]
        exact kept_new fun hmem => hnew ((h.ids _).mpr hmem)

/-- The loop, by induction on the hits that are still to come. -/
theorem Merged.foldl (h : Merged seen merged) (later : List Hit) :
    Merged (seen ++ later) (later.foldl FragmentSearch.keepBetter merged) := by
  induction later generalizing seen merged with
  | nil =>
    rw [List.append_nil]
    exact h
  | cons hit later ih =>
    have hnext := ih (h.keepBetter hit)
    rw [List.append_assoc, List.singleton_append] at hnext
    exact hnext

theorem merged_foldl (found : List Hit) : Merged found (found.foldl keepBetter []) := by
  have hstart : Merged [] [] := ⟨fun _ => Iff.rfl, fun _ hkept => absurd hkept List.not_mem_nil⟩
  exact hstart.foldl found

theorem Merged.perm {other : List Hit} (h : Merged seen merged) (hperm : other.Perm merged) : Merged seen other where
  ids id := ((hperm.map Hit.id).mem_iff).trans (h.ids id)
  kept kept hkept := h.kept kept (hperm.mem_iff.mp hkept)

/-- Where no similarity is negative, a missing one may as well count as zero. -/
theorem Kept.strongest (h : Kept seen kept) (hnonneg : ∀ hit ∈ seen, hit.id = kept.id → 0 ≤ strength hit) :
    ∀ hit ∈ seen, hit.id = kept.id → strength hit ≤ strength kept := by
  intro hit hhit hid
  obtain ⟨source, hsource, hkept⟩ := h.origin
  have hbase : 0 ≤ strength kept := by
    have hsame : strength kept = strength source := by
      rw [hkept]
      rfl
    rw [hsame]
    refine hnonneg source hsource ?_
    rw [hkept]
    rfl
  have hbest := h.best hit hhit hid
  rcases evidence_cases hit with ⟨-, hzero⟩ | hevidence
  · rw [hzero]
    exact hbase
  · rw [hevidence] at hbest
    rcases evidence_cases kept with ⟨hbot, -⟩ | hvalue
    · rw [hbot, le_bot_iff] at hbest
      exact absurd hbest WithBot.coe_ne_bot
    · rw [hvalue] at hbest
      exact WithBot.coe_le_coe.mp hbest

/-! ## The merged list -/

/-- One entry for each id, each with the best evidence for its id and with the tag of its first occurrence, ranked by
score. -/
structure MergedById (math : MathFunctions) (weights : RankingWeights) (anchorTime : Time) (found merged : List Hit) : Prop where
  distinct : (merged.map Hit.id).Nodup
  ids : ∀ id, id ∈ merged.map Hit.id ↔ id ∈ found.map Hit.id
  origin : ∀ kept ∈ merged, ∃ hit ∈ found, kept = { hit with kwExact := kept.kwExact }
  best : ∀ kept ∈ merged, ∀ hit ∈ found, hit.id = kept.id → evidence hit ≤ evidence kept
  strongest : ∀ kept ∈ merged, (∀ hit ∈ found, hit.id = kept.id → 0 ≤ strength hit) →
    ∀ hit ∈ found, hit.id = kept.id → strength hit ≤ strength kept
  exact : ∀ kept ∈ merged, ∀ first, found.find? (fun hit => hit.id = kept.id) = some first → first.kwExact = true →
    kept.kwExact = true
  sorted : merged.Pairwise fun a b => scoreOf math weights anchorTime b ≤ scoreOf math weights anchorTime a

theorem deduplicate_mergedById (model : SearchModel) (math : MathFunctions) (weights : RankingWeights) (anchorTime : Time)
    (found : List Hit) :
    MergedById math weights anchorTime found (deduplicate (ranked model math weights) found anchorTime) := by
  have hmerged : Merged found (deduplicate (ranked model math weights) found anchorTime) :=
    (merged_foldl found).perm (List.perm_insertionSort _ _)
  refine ⟨distinct_deduplicate found anchorTime, hmerged.ids, fun kept hkept => (hmerged.kept kept hkept).origin,
    fun kept hkept => (hmerged.kept kept hkept).best, fun kept hkept => (hmerged.kept kept hkept).strongest,
    fun kept hkept => (hmerged.kept kept hkept).exact, ?_⟩
  have htotal : Std.Total fun a b => scoreOf math weights anchorTime b ≤ scoreOf math weights anchorTime a :=
    ⟨fun a b => le_total _ _⟩
  have htrans : IsTrans Hit fun a b => scoreOf math weights anchorTime b ≤ scoreOf math weights anchorTime a :=
    ⟨fun a b c hab hbc => hbc.trans hab⟩
  exact List.pairwise_insertionSort _ _

/-- Two hits of one row, the second with a similarity below zero. -/
def opposedHits : List Hit :=
  let row : Fragment :=
    { id := "frag-01", content := "vpn gateway restarts", topic := "vpn", keywords := [], type := .fact, importance := 5 / 10
      contentHash := "", keyId := none, createdAt := 0 }
  [{ row := row }, { row := row, similarity := some (-1 / 2) }]

/-- A search without services, at the time of the rows. -/
def plainModel : SearchModel where
  tools := { redactPII := id, extractKeywords := fun _ _ => [], countTokens := String.length, toLowerCase := id }
  implicitTokens _ := []
  rankScore _ _ := 0
  recallScore _ _ := 0

def plainMath : MathFunctions := ⟨fun _ => 1, fun _ => 1⟩

/-- A missing similarity does not count as zero against a negative one. -/
theorem negative_similarity_kept :
    ¬ ∀ kept ∈ deduplicate (ranked plainModel plainMath {}) opposedHits 0, ∀ hit ∈ opposedHits, hit.id = kept.id →
      strength hit ≤ strength kept := by
  have hmerged : deduplicate (ranked plainModel plainMath {}) opposedHits 0 = opposedHits.tail := by decide +kernel
  rw [hmerged]
  decide +kernel

end FragmentMemory.MergeById
