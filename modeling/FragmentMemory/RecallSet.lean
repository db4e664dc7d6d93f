import FragmentMemory.TokenBudget
import FragmentMemory.DistinctOn
import Mathlib.Data.Prod.Lex

/-! # The final set of a recall

What the successive steps of a recall establish about the list that it pages through, for direct and linked hits.
-/
namespace FragmentMemory.RecallSet
open FragmentTables RecallQueries FragmentSearch MemoryRecaller DistinctHits FittingSelection JsString

variable (model : SearchModel) (context : RecallContext) (store : Store) (caller : MemoryRememberer.Caller)
  (params : RecallParams)

/-- The filters of a recall, as far as they apply to a hit. -/
structure Passes (context : RecallContext) (params : RecallParams) (hit : Hit) : Prop where
  threshold : ∀ threshold, params.threshold = some threshold → ∀ similarity, hit.similarity = some similarity →
    threshold ≤ similarity
  depth : ∀ depth, params.depth = some depth → params.type = none → hit.row.type ∈ depth.types
  unseen : params.excludeSeen = true → (truthy params.sessionId).isSome = true → hit.id ∉ context.seenIds

/-- Higher keyword coverage first, then higher recall scores. -/
def Ranked (q : SearchQuery) (keywords : List String) (a b : Hit) : Prop :=
  textKeywordCoverage model b.row keywords < textKeywordCoverage model a.row keywords ∨
    (textKeywordCoverage model a.row keywords = textKeywordCoverage model b.row keywords ∧
      model.recallScore q b ≤ model.recallScore q a)

/-- What the search found and what the links of it lead to. -/
def expanded : List Hit :=
  let q := searchQuery params caller context.now
  appendLinked store q params (search model context.toSearchContext store q).found

/-- The candidates are the hits that pass, in the order of the final ranking.  The recall keeps of them what fits its
budget in turn. -/
structure FinalSet (rows candidates : List Hit) : Prop where
  distinct : (rows.map Hit.id).Nodup
  current : params.includeSuperseded = false → ∀ hit ∈ rows, hit.row.live = true
  passes : ∀ hit ∈ rows, Passes context params hit
  all : ∀ hit, hit ∈ candidates ↔ hit ∈ expanded model context store caller params ∧ Passes context params hit
  ranked : candidates.Pairwise (Ranked model (searchQuery params caller context.now)
    (search model context.toSearchContext store (searchQuery params caller context.now)).lexicalKeywords)
  order : rows.Sublist candidates
  fits : totalCost model rows ≤ (searchQuery params caller context.now).tokenBudget
  leftOut : ∀ before hit after, candidates = before ++ hit :: after → hit ∉ rows →
    (searchQuery params caller context.now).tokenBudget <
      totalCost model (rows.filter fun kept => kept ∈ before) + tokenCost model hit

variable {model context store caller params}

theorem mem_selectFinal {found : List Hit} {hit : Hit} :
    hit ∈ selectFinal context params found ↔ hit ∈ found ∧ Passes context params hit := by
  rw [selectFinal, List.mem_filter]
  refine and_congr_right fun _ => ?_
  simp only [Bool.and_eq_true, Bool.or_eq_true, Bool.not_eq_true', Bool.and_eq_false_iff, Option.all_eq_true,
    decide_eq_true_eq,
    List.contains_iff_mem]
  constructor
  · rintro ⟨⟨hthreshold, hdepth⟩, hseen⟩
    refine ⟨hthreshold, fun depth hsome htype => ?_, fun hexclude hsession hmem => ?_⟩
    · rcases hdepth with hgiven | hallowed
      · rw [htype] at hgiven
        cases hgiven
      · exact hallowed depth hsome
    · rcases hseen with (hoff | hnone) | hnew
      · exact absurd hexclude (Bool.eq_false_iff.mp hoff)
      · exact absurd hsession (Bool.eq_false_iff.mp hnone)
      · exact Bool.eq_false_iff.mp hnew (List.contains_iff_mem.mpr hmem)
  · intro h
    refine ⟨⟨h.threshold, ?_⟩, ?_⟩
    · rcases htype : params.type with _ | type
      · exact Or.inr fun depth hsome => h.depth depth hsome htype
      · exact Or.inl rfl
    · by_cases happlies : params.excludeSeen = true ∧ (truthy params.sessionId).isSome = true
      · have hnew := h.unseen happlies.1 happlies.2
        exact Or.inr (Bool.eq_false_iff.mpr fun hcontains => hnew (List.contains_iff_mem.mp hcontains))
      · rw [not_and_or, Bool.not_eq_true, Bool.not_eq_true] at happlies
        exact Or.inl happlies

theorem ranked_rankFinal (q : SearchQuery) (keywords : List String) (found : List Hit) :
    (rankFinal model q keywords found).Pairwise (Ranked model q keywords) := by
  let rank : Hit → ℕᵒᵈ ×ₗ ℚᵒᵈ := fun hit =>
    toLex (OrderDual.toDual (textKeywordCoverage model hit.row keywords), OrderDual.toDual (model.recallScore q hit))
  let before : Hit → Hit → Bool := fun a b =>
    textKeywordCoverage model b.row keywords < textKeywordCoverage model a.row keywords ||
      (textKeywordCoverage model a.row keywords = textKeywordCoverage model b.row keywords &&
        model.recallScore q b ≤ model.recallScore q a)
  have hrank : ∀ a b, before a b = true ↔ rank a ≤ rank b := by
    intro a b
    simp only [before, rank, Bool.or_eq_true, Bool.and_eq_true, decide_eq_true_eq, Prod.Lex.toLex_le_toLex,
      OrderDual.toDual_lt_toDual, OrderDual.toDual_inj, OrderDual.toDual_le_toDual]
  have hsorted := DistinctOn.sorted_of_rank (ℕᵒᵈ ×ₗ ℚᵒᵈ) hrank found
  refine hsorted.imp fun {a b} h => ?_
  simp only [before, Bool.or_eq_true, Bool.and_eq_true, decide_eq_true_eq] at h
  exact h

/-- Superseded rows are neither found nor linked to. -/
theorem live_expanded (h : params.includeSuperseded = false) :
    ∀ hit ∈ expanded model context store caller params, hit.row.live = true := by
  intro hit hhit
  have hquery : (searchQuery params caller context.now).includeSuperseded = false := h
  have hfound : ∀ found ∈ (search model context.toSearchContext store (searchQuery params caller context.now)).found,
      found.row.live = true := by
    intro found hmem
    have hkept := (List.mem_filter.mp hmem).2
    rw [hquery, Bool.false_or] at hkept
    exact hkept
  simp only [expanded, appendLinked] at hhit
  split at hhit
  · rcases List.mem_append.mp hhit with hdirect | hlinked
    · exact hfound hit hdirect
    · obtain ⟨f, hf, rfl⟩ := List.mem_map.mp hlinked
      have hcond := (List.mem_filter.mp (List.mem_filter.mp hf).1).2
      simp only [Bool.and_eq_true, h, Bool.false_or] at hcond
      exact hcond.2
  · exact hfound hit hhit

/-- What was kept before an item is the selection from the items before it. -/
theorem kept_before {budget : ℕ} {before after : List Hit} (hdistinct : (before ++ after).Nodup) :
    (fillWithin model budget (before ++ after) 0).filter (fun kept => kept ∈ before) = fillWithin model budget before 0 := by
  rw [TokenBudget.fillWithin_eq, TokenBudget.fillWithin_eq, fillFitting_append, List.filter_append]
  have hfront : (fillFitting (tokenCost model) (· ≤ budget) 0 before).filter (fun kept => kept ∈ before) =
      fillFitting (tokenCost model) (· ≤ budget) 0 before :=
    List.filter_eq_self.mpr fun kept hkept => decide_eq_true ((fillFitting_sublist 0 before).subset hkept)
  have hback : ∀ used, (fillFitting (tokenCost model) (· ≤ budget) used after).filter (fun kept => kept ∈ before) = [] := by
    intro used
    refine List.filter_eq_nil_iff.mpr fun kept hkept hbefore => ?_
    have hapart := (List.nodup_append.mp hdistinct).2.2
    exact hapart kept (of_decide_eq_true hbefore) kept ((fillFitting_sublist used after).subset hkept) rfl
  rw [hfront, hback, List.append_nil]

/-- A recall pages through hits without repetition that are live, pass its filters, keep the order of the final ranking and
fit its budget, and leaves out of those that pass only what did not fit when its turn came. -/
theorem recallRows_finalSet (model : SearchModel) (context : RecallContext) (store : Store)
    (caller : MemoryRememberer.Caller) (params : RecallParams) :
    ∃ candidates, FinalSet model context store caller params (recallRows model context store caller params).1 candidates := by
  let q := searchQuery params caller context.now
  let result := search model context.toSearchContext store q
  let ranked := rankFinal model q result.lexicalKeywords (expanded model context store caller params)
  have hrows : (recallRows model context store caller params).1 =
      fillWithin model q.tokenBudget (selectFinal context params ranked) 0 := rfl
  have hdistinct : Distinct (selectFinal context params ranked) := by
    have hexpanded : Distinct (expanded model context store caller params) :=
      distinct_appendLinked (distinct_finish _ _) store q params
    exact (hexpanded.perm (List.perm_insertionSort _ _)).filter _
  have hsub : List.Sublist (recallRows model context store caller params).1 (selectFinal context params ranked) := by
    rw [hrows]
    exact fillWithin_sublist _ _ _
  have hmem : ∀ hit, hit ∈ selectFinal context params ranked ↔
      hit ∈ expanded model context store caller params ∧ Passes context params hit := by
    intro hit
    rw [mem_selectFinal]
    exact and_congr_left' (List.mem_insertionSort _)
  refine ⟨selectFinal context params ranked, ?_⟩
  refine ⟨distinct_recallRows model context store caller params, fun hcurrent hit hhit => ?_, fun hit hhit => ?_, hmem,
    ?_, hsub, ?_, fun before hit after hsplit hout => ?_⟩
  · exact live_expanded hcurrent hit ((hmem hit).mp (hsub.subset hhit)).1
  · exact ((hmem hit).mp (hsub.subset hhit)).2
  · exact (ranked_rankFinal q _ _).sublist List.filter_sublist
  · rw [hrows, TokenBudget.fillWithin_eq]
    have hfits := @fits_fillFitting _ (tokenCost model) (· ≤ q.tokenBudget) _ 0 (Nat.zero_le _)
      (selectFinal context params ranked)
    rw [Nat.zero_add] at hfits
    exact hfits
  · have hnodup : (before ++ hit :: after).Nodup := hsplit ▸ List.Nodup.of_map _ hdistinct
    rw [hrows, hsplit] at hout ⊢
    rw [kept_before hnodup]
    rw [TokenBudget.fillWithin_eq] at hout ⊢
    have hturn := not_fits_in_turn hout
    rw [Nat.zero_add] at hturn
    exact Nat.lt_of_not_le hturn

end FragmentMemory.RecallSet
