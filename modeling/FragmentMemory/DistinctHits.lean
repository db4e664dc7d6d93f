import FragmentMemory.MemoryRecaller
import FragmentMemory.SearchProvenance

/-! # A search returns each row once

The removal of duplicates leaves one hit for each id.  The ranking, the diversity selection and the cuts keep that, and
the linked rows of a recall are new.
-/
namespace FragmentMemory.DistinctHits
open FragmentTables RecallQueries FragmentSearch SearchProvenance MemoryRecaller

/-- No two hits have one id. -/
def Distinct (found : List Hit) : Prop := (found.map Hit.id).Nodup

variable {model : SearchModel} {found : List Hit}

theorem Distinct.sublist {fewer : List Hit} (h : Distinct found) (hsub : List.Sublist fewer found) : Distinct fewer :=
  List.Nodup.sublist (hsub.map Hit.id) h

theorem Distinct.filter (h : Distinct found) (p : Hit → Bool) : Distinct (found.filter p) :=
  h.sublist List.filter_sublist

theorem Distinct.perm {other : List Hit} (h : Distinct found) (hperm : List.Perm other found) : Distinct other :=
  (hperm.map Hit.id).nodup_iff.mpr h

/-- Marks that leave the ids alone. -/
theorem Distinct.map (h : Distinct found) {mark : Hit → Hit} (hmark : ∀ hit, (mark hit).id = hit.id) :
    Distinct (found.map mark) := by
  have hids : (found.map mark).map Hit.id = found.map Hit.id := by
    rw [List.map_map]
    exact List.map_congr_left fun hit _ => hmark hit
  rw [Distinct, hids]
  exact h

theorem Distinct.append {more : List Hit} (h : Distinct found) (hmore : Distinct more)
    (hnew : ∀ hit ∈ more, hit.id ∉ found.map Hit.id) : Distinct (found ++ more) := by
  rw [Distinct, List.map_append]
  refine List.Nodup.append h hmore fun id hid hid' => ?_
  obtain ⟨hit, hhit, rfl⟩ := List.mem_map.mp hid'
  exact hnew hit hhit hid

/-! ## A search -/

theorem distinct_keepBetter {seen : List Hit} (h : Distinct seen) (hit : Hit) : Distinct (keepBetter seen hit) := by
  simp only [keepBetter]
  split
  · refine h.map fun kept => ?_
    split
    · rename_i hbetter
      simp only [Bool.and_eq_true, decide_eq_true_eq] at hbetter
      exact hbetter.1.symm
    · rfl
  · rename_i hnew
    refine h.append (List.nodup_singleton _) fun other hother hmem => hnew ?_
    rw [List.mem_singleton.mp hother] at hmem
    obtain ⟨kept, hkept, hid⟩ := List.mem_map.mp hmem
    exact List.any_eq_true.mpr ⟨kept, hkept, decide_eq_true hid⟩

theorem distinct_deduplicate (found : List Hit) (anchorTime : ℕ) : Distinct (deduplicate model found anchorTime) := by
  have hfold : ∀ rest seen : List Hit, Distinct seen → Distinct (rest.foldl keepBetter seen) := by
    intro rest
    induction rest with
    | nil => exact fun _ hseen => hseen
    | cons hit later ih => exact fun seen hseen => ih _ (distinct_keepBetter hseen hit)
  exact (hfold found [] List.nodup_nil).perm (List.perm_insertionSort _ _)

theorem distinct_orderLexical {q : SearchQuery} (h : Distinct found) : Distinct (orderLexical model q found) := by
  simp only [orderLexical]
  split
  · exact h
  · exact h.perm (List.perm_insertionSort _ _)

/-- With a round for each candidate, all are selected. -/
theorem selectDiverse_perm {rounds : ℕ} {remaining : List Hit} (h : remaining.length ≤ rounds) (selected : List Hit) :
    (selectDiverse rounds selected remaining).Perm (selected ++ remaining) := by
  induction rounds generalizing selected remaining with
  | zero =>
    have hnone : remaining = [] := List.length_eq_zero_iff.mp (Nat.le_zero.mp h)
    rw [hnone, List.append_nil]
    exact List.Perm.refl _
  | succ rounds ih =>
    cases remaining with
    | nil =>
      rw [List.append_nil]
      exact List.Perm.refl _
    | cons first others =>
      have hbest := best_mem (fun best hit => mmrScore selected best < mmrScore selected hit) first others
      simp only [decide_eq_true_eq] at hbest
      have hrest := List.length_erase_of_mem hbest
      refine (ih ?_ _).trans ?_
      · rw [hrest]
        exact Nat.sub_le_of_le_add h
      · rw [List.append_assoc]
        exact (List.perm_cons_erase hbest).symm.append_left selected

/-- The hits with a similarity before those without. -/
theorem perm_bySimilarity (found : List Hit) :
    (found.filter (fun hit => hit.similarity.isSome) ++ found.filter fun hit => hit.similarity.isNone).Perm found := by
  have hnone : (fun hit : Hit => hit.similarity.isNone) = fun hit => !hit.similarity.isSome :=
    funext fun hit => by cases hit.similarity <;> rfl
  rw [hnone]
  exact List.filter_append_perm _ _

theorem applyMMR_perm (found : List Hit) : (applyMMR found).Perm found := by
  simp only [applyMMR]
  split
  · rename_i first second others hembedded
    have hsplit := perm_bySimilarity found
    rw [hembedded] at hsplit
    have hselected : (selectDiverse (others.length + 1) [first] (second :: others)).Perm (first :: second :: others) :=
      @selectDiverse_perm (others.length + 1) (second :: others) le_rfl [first]
    exact (hselected.append_right _).trans hsplit
  · exact List.Perm.refl _

theorem distinct_applyMMR (h : Distinct found) : Distinct (applyMMR found) := h.perm (applyMMR_perm found)

theorem takeWithin_sublist (budget : ℕ) (found : List Hit) (used : ℕ) :
    List.Sublist (takeWithin model budget found used) found := by
  induction found generalizing used with
  | nil => exact List.Sublist.refl _
  | cons hit later ih =>
    simp only [takeWithin]
    split
    · exact List.nil_sublist _
    · exact (ih _).cons_cons hit

theorem fillWithin_sublist (budget : ℕ) (found : List Hit) (used : ℕ) :
    List.Sublist (fillWithin model budget found used) found := by
  induction found generalizing used with
  | nil => exact List.Sublist.refl _
  | cons hit later ih =>
    simp only [fillWithin]
    split
    · exact (ih used).cons hit
    · exact (ih _).cons_cons hit

theorem trimToTokenBudget_sublist (found : List Hit) (budget : ℕ) :
    List.Sublist (trimToTokenBudget model found budget) found := by
  simp only [trimToTokenBudget]
  split
  · exact List.filter_sublist
  · exact takeWithin_sublist _ _ _

theorem distinct_diversify (h : Distinct found) : Distinct (diversify found) := by
  simp only [diversify]
  split
  · exact distinct_applyMMR h
  · exact h

theorem distinct_finish (q : SearchQuery) (combined : List Hit) : Distinct (finish model q combined) := by
  have hunique : Distinct (deduplicate model combined q.anchorTime) := distinct_deduplicate combined q.anchorTime
  have htrimmed := (distinct_diversify (@distinct_orderLexical model _ q hunique)).sublist
    (@trimToTokenBudget_sublist model _ q.tokenBudget)
  have hclean : Distinct ((trimToTokenBudget model (diversify (orderLexical model q
      (deduplicate model combined q.anchorTime))) q.tokenBudget).map fun hit =>
        { hit with rrfScore := none, kwExact := false, kwSupplement := false }) := htrimmed.map fun _ => rfl
  exact hclean.filter _

/-! ## A recall -/

theorem nodup_distinctOnId (items : List (Fragment × Link)) :
    ((distinctOnId items).map fun item => item.1.id).Nodup := by
  induction items with
  | nil => exact List.nodup_nil
  | cons item later ih =>
    rw [distinctOnId, List.map_cons, List.nodup_cons]
    refine ⟨fun hmem => ?_, List.Nodup.sublist (List.filter_sublist.map _) ih⟩
    obtain ⟨other, hother, hid⟩ := List.mem_map.mp hmem
    exact of_decide_eq_true (List.mem_filter.mp hother).2 hid

theorem nodup_getLinkedFragments (store : Store) (q : SearchQuery) (fromIds : List FragmentId)
    (relationType : Option RelationType) :
    ((getLinkedFragments store q fromIds relationType).map Fragment.id).Nodup := by
  rw [getLinkedFragments, List.map_map]
  exact List.Nodup.sublist ((List.take_sublist _ _).map _) (nodup_distinctOnId _)

/-- The linked rows have ids of their own. -/
theorem distinct_appendLinked (h : Distinct found) (store : Store) (q : SearchQuery) (params : RecallParams) :
    Distinct (appendLinked store q params found) := by
  simp only [appendLinked]
  split
  · refine h.append ?_ fun hit hhit => ?_
    · rw [Distinct, List.map_map]
      exact List.Nodup.sublist ((List.filter_sublist.trans List.filter_sublist).map _) (nodup_getLinkedFragments store q _ _)
    · obtain ⟨f, hf, rfl⟩ := List.mem_map.mp hhit
      have hnew := (List.mem_filter.mp hf).2
      simp only [Bool.not_eq_true', List.contains_eq_mem, decide_eq_false_iff_not] at hnew
      exact hnew
  · exact h

/-- The rows of a recall over all its pages. -/
theorem distinct_recallRows (model : SearchModel) (context : RecallContext) (store : Store)
    (caller : MemoryRememberer.Caller) (params : RecallParams) :
    Distinct (recallRows model context store caller params).1 := by
  have hfound : Distinct (search model context.toSearchContext store (searchQuery params caller context.now)).found :=
    distinct_finish _ _
  have hexpanded := distinct_appendLinked hfound store (searchQuery params caller context.now) params
  have hranked : ∀ keywords, Distinct (rankFinal model (searchQuery params caller context.now) keywords
      (appendLinked store (searchQuery params caller context.now) params
        (search model context.toSearchContext store (searchQuery params caller context.now)).found)) :=
    fun keywords => hexpanded.perm (List.perm_insertionSort _ _)
  exact ((hranked _).filter _).sublist (fillWithin_sublist _ _ _)

end FragmentMemory.DistinctHits
