import FragmentMemory.DistinctHits
import FragmentMemory.FittingSelection
import Mathlib.Tactic.Linarith

/-! # The token budget of a search

`FragmentSearch._trimToTokenBudget` with its loops, for any budget and any shares of the two slots.  The three passes are
selections of `FittingSelection`, over parts of the list that have no fragment in common.
-/
namespace FragmentMemory.TokenBudget
open FragmentTables FittingSelection

/-- What the trim reads of a fragment. -/
structure ScoredFragment where
  id : FragmentId
  content : Option String := none
  estimatedTokens : Option ℕ := none
  kwExact : Bool := false
  kwSupplement : Bool := false
  deriving DecidableEq

/-- `MEMORY_CONFIG.ranking`. -/
structure Ranking where
  exactSlotShare : ℚ := 1 / 2
  semanticSlotShare : ℚ := 1 / 4

variable (countTokens : String → ℕ)

/-- An estimate of zero counts as none. -/
def cost (f : ScoredFragment) : ℕ :=
  match f.estimatedTokens with
  | some (n + 1) => n + 1
  | _ => countTokens (f.content.getD "")

/-- The variables of the loops. -/
structure Slots where
  picked : List FragmentId := []
  used : ℕ := 0
  semUsed : ℕ := 0

/-- The loop without tags. -/
def cut (tokenBudget : ℚ) : List ScoredFragment → ℕ → List ScoredFragment
  | [], _ => []
  | f :: later, usedTokens =>
    if tokenBudget < usedTokens + cost countTokens f then []
    else f :: cut tokenBudget later (usedTokens + cost countTokens f)

/-- Pass 1 stops at the first exact match beyond its share. -/
def pickExact (share : ℚ) : List ScoredFragment → Slots → Slots
  | [], slots => slots
  | f :: later, slots =>
    if !f.kwExact then pickExact share later slots
    else if share < slots.used + cost countTokens f then slots
    else pickExact share later
      { slots with used := slots.used + cost countTokens f, picked := slots.picked ++ [f.id] }

/-- Pass 2 stops at the first supplement beyond its share or the budget. -/
def pickSupplement (share tokenBudget : ℚ) : List ScoredFragment → Slots → Slots
  | [], slots => slots
  | f :: later, slots =>
    if slots.picked.contains f.id || !f.kwSupplement then pickSupplement share tokenBudget later slots
    else if share < slots.semUsed + cost countTokens f then slots
    else if tokenBudget < slots.used + cost countTokens f then slots
    else pickSupplement share tokenBudget later
      { used := slots.used + cost countTokens f, semUsed := slots.semUsed + cost countTokens f,
        picked := slots.picked ++ [f.id] }

/-- Pass 3 skips what does not fit. -/
def pickRest (tokenBudget : ℚ) : List ScoredFragment → Slots → Slots
  | [], slots => slots
  | f :: later, slots =>
    if slots.picked.contains f.id then pickRest tokenBudget later slots
    else if tokenBudget < slots.used + cost countTokens f then pickRest tokenBudget later slots
    else pickRest tokenBudget later
      { slots with used := slots.used + cost countTokens f, picked := slots.picked ++ [f.id] }

def trimToTokenBudget (ranking : Ranking) (fragments : List ScoredFragment) (tokenBudget : ℚ) : List ScoredFragment :=
  if fragments.any fun f => f.kwExact || f.kwSupplement then
    let exact := pickExact countTokens (tokenBudget * ranking.exactSlotShare) fragments {}
    let supplemented := pickSupplement countTokens (tokenBudget * ranking.semanticSlotShare) tokenBudget fragments exact
    let filled := pickRest countTokens tokenBudget fragments supplemented
    fragments.filter fun f => filled.picked.contains f.id
  else cut countTokens tokenBudget fragments 0

/-! ## The passes as selections -/

/-- Totals within a limit. -/
def Within (limit : ℚ) (n : ℕ) : Prop := (n : ℚ) ≤ limit

instance (limit : ℚ) : DecidablePred (Within limit) := fun n => inferInstanceAs (Decidable ((n : ℚ) ≤ limit))

theorem within_of_le (limit : ℚ) (m n : ℕ) (hmn : m ≤ n) (hn : Within limit n) : Within limit m :=
  (Nat.cast_le.mpr hmn).trans hn

theorem within_zero {limit : ℚ} (h : 0 ≤ limit) : Within limit 0 := by
  rw [Within, Nat.cast_zero]
  exact h

theorem not_within_iff {limit : ℚ} {used more : ℕ} : ¬ Within limit (used + more) ↔ limit < used + more := by
  rw [Within, not_le, Nat.cast_add]

variable {countTokens}

theorem cut_eq (tokenBudget : ℚ) (fragments : List ScoredFragment) (used : ℕ) :
    cut countTokens tokenBudget fragments used = takeFitting (cost countTokens) (Within tokenBudget) used fragments := by
  induction fragments generalizing used with
  | nil => rfl
  | cons f later ih =>
    rw [cut, takeFitting]
    by_cases hfits : Within tokenBudget (used + cost countTokens f)
    · rw [if_pos hfits, if_neg fun hover => not_within_iff.mpr hover hfits, ih]
    · rw [if_neg hfits, if_pos (not_within_iff.mp hfits)]

theorem pickExact_eq (share : ℚ) (fragments : List ScoredFragment) (slots : Slots) :
    let exact := takeFitting (cost countTokens) (Within share) slots.used (fragments.filter ScoredFragment.kwExact)
    pickExact countTokens share fragments slots =
      { slots with used := slots.used + total (cost countTokens) exact,
                   picked := slots.picked ++ exact.map ScoredFragment.id } := by
  induction fragments generalizing slots with
  | nil => simp [pickExact, takeFitting]
  | cons f later ih =>
    rw [pickExact]
    cases hexact : f.kwExact with
    | false =>
      rw [List.filter_cons_of_neg (by simp [hexact])]
      simpa using ih slots
    | true =>
      rw [List.filter_cons_of_pos hexact, takeFitting]
      by_cases hfits : Within share (slots.used + cost countTokens f)
      · rw [if_pos hfits]
        simp only [Bool.not_true, Bool.false_eq_true, if_false, if_neg fun hover => not_within_iff.mpr hover hfits, ih]
        simp [Nat.add_assoc]
      · rw [if_neg hfits]
        simp only [Bool.not_true, Bool.false_eq_true, if_false, if_pos (not_within_iff.mp hfits)]
        simp

/-- Fragments with other ids than the one just picked. -/
theorem filter_picked_append {later : List ScoredFragment} {f : ScoredFragment}
    (hnew : f.id ∉ later.map ScoredFragment.id)
    (picked : List FragmentId) (p : ScoredFragment → Bool) :
    later.filter (fun g => !(picked ++ [f.id]).contains g.id && p g) =
      later.filter fun g => !picked.contains g.id && p g := by
  refine List.filter_congr fun g hg => ?_
  have hother : g.id ≠ f.id := fun hsame => hnew (hsame ▸ List.mem_map_of_mem hg)
  have hcontains : (picked ++ [f.id]).contains g.id = picked.contains g.id := by
    rw [Bool.eq_iff_iff, List.contains_iff_mem, List.contains_iff_mem, List.mem_append, List.mem_singleton]
    exact or_iff_left hother
  rw [hcontains]

/-- Where the share leaves the budget to the exact matches, the budget stops pass 2 no sooner than the share. -/
theorem pickSupplement_eq {share tokenBudget : ℚ} (fragments : List ScoredFragment) (slots : Slots)
    (hdistinct : (fragments.map ScoredFragment.id).Nodup) (hroom : slots.used + share ≤ tokenBudget + slots.semUsed) :
    let supplement := takeFitting (cost countTokens) (Within share) slots.semUsed
      (fragments.filter fun f => !slots.picked.contains f.id && f.kwSupplement)
    pickSupplement countTokens share tokenBudget fragments slots =
      { used := slots.used + total (cost countTokens) supplement,
        semUsed := slots.semUsed + total (cost countTokens) supplement,
        picked := slots.picked ++ supplement.map ScoredFragment.id } := by
  induction fragments generalizing slots with
  | nil => simp [pickSupplement, takeFitting]
  | cons f later ih =>
    rw [List.map_cons, List.nodup_cons] at hdistinct
    obtain ⟨hnew, hlater⟩ := hdistinct
    rw [pickSupplement]
    by_cases hwaits : (!slots.picked.contains f.id && f.kwSupplement) = true
    · have hskip : (slots.picked.contains f.id || !f.kwSupplement) = false := by
        rw [← Bool.not_inj_iff, Bool.not_or, Bool.not_not, hwaits, Bool.not_false]
      have hkept : (f :: later).filter (fun g => !slots.picked.contains g.id && g.kwSupplement) =
          f :: later.filter fun g => !slots.picked.contains g.id && g.kwSupplement := List.filter_cons_of_pos hwaits
      rw [hkept, hskip, takeFitting]
      simp only [Bool.false_eq_true, if_false]
      by_cases hfits : Within share (slots.semUsed + cost countTokens f)
      · have hbudget : ¬ tokenBudget < slots.used + cost countTokens f := by
          rw [Within, Nat.cast_add] at hfits
          linarith
        rw [if_pos hfits, if_neg fun hover => not_within_iff.mpr hover hfits, if_neg hbudget]
        have hnext := ih { used := slots.used + cost countTokens f, semUsed := slots.semUsed + cost countTokens f,
                           picked := slots.picked ++ [f.id] } hlater (by
          push_cast
          linarith)
        simp only [filter_picked_append hnew] at hnext
        rw [hnext]
        simp [Nat.add_assoc]
      · rw [if_neg hfits, if_pos (not_within_iff.mp hfits)]
        simp
    · have hskip : (slots.picked.contains f.id || !f.kwSupplement) = true := by
        rw [← Bool.not_inj_iff, Bool.not_or, Bool.not_not, Bool.not_true]
        exact Bool.eq_false_iff.mpr hwaits
      have hdropped : (f :: later).filter (fun g => !slots.picked.contains g.id && g.kwSupplement) =
          later.filter fun g => !slots.picked.contains g.id && g.kwSupplement := List.filter_cons_of_neg hwaits
      rw [hdropped, hskip]
      exact ih slots hlater hroom

theorem pickRest_eq {tokenBudget : ℚ} (fragments : List ScoredFragment) (slots : Slots)
    (hdistinct : (fragments.map ScoredFragment.id).Nodup) :
    let rest := fillFitting (cost countTokens) (Within tokenBudget) slots.used
      (fragments.filter fun f => !slots.picked.contains f.id)
    pickRest countTokens tokenBudget fragments slots =
      { slots with used := slots.used + total (cost countTokens) rest,
                   picked := slots.picked ++ rest.map ScoredFragment.id } := by
  induction fragments generalizing slots with
  | nil => simp [pickRest, fillFitting]
  | cons f later ih =>
    rw [List.map_cons, List.nodup_cons] at hdistinct
    obtain ⟨hnew, hlater⟩ := hdistinct
    rw [pickRest]
    by_cases hpicked : slots.picked.contains f.id = true
    · rw [List.filter_cons_of_neg (by simpa using hpicked), if_pos hpicked]
      exact ih slots hlater
    · rw [List.filter_cons_of_pos (by simpa using hpicked), if_neg hpicked, fillFitting]
      by_cases hfits : Within tokenBudget (slots.used + cost countTokens f)
      · rw [if_pos hfits, if_neg fun hover => not_within_iff.mpr hover hfits]
        have hnext := ih { slots with used := slots.used + cost countTokens f, picked := slots.picked ++ [f.id] } hlater
        have hsame := filter_picked_append hnew slots.picked fun _ => true
        simp only [Bool.and_true] at hsame
        simp only [hsame] at hnext
        rw [hnext]
        simp [Nat.add_assoc]
      · rw [if_neg hfits, if_pos (not_within_iff.mp hfits)]
        exact ih slots hlater

/-! ## What the trim returns -/

/-- A trim keeps the order and the budget.  Without tags it is the longest start that fits.  With tags it holds the longest
start of the exact matches that fits their share, that of the other supplement fragments, and all that would fit. -/
structure Trimmed (countTokens : String → ℕ) (ranking : Ranking) (fragments : List ScoredFragment) (tokenBudget : ℚ)
    (result : List ScoredFragment) : Prop where
  order : result.Sublist fragments
  fits : (total (cost countTokens) result : ℚ) ≤ tokenBudget
  untagged : (∀ f ∈ fragments, f.kwExact = false ∧ f.kwSupplement = false) →
    LongestFitting (cost countTokens) (Within tokenBudget) fragments result
  tagged : (∃ f ∈ fragments, f.kwExact = true ∨ f.kwSupplement = true) → ∃ exact supplement,
    LongestFitting (cost countTokens) (Within (tokenBudget * ranking.exactSlotShare))
        (fragments.filter ScoredFragment.kwExact) exact ∧
      LongestFitting (cost countTokens) (Within (tokenBudget * ranking.semanticSlotShare))
        (fragments.filter fun f => f ∉ exact ∧ f.kwSupplement = true) supplement ∧
      exact ⊆ result ∧ supplement ⊆ result ∧
      ∀ f ∈ fragments, f ∉ result → tokenBudget < total (cost countTokens) result + cost countTokens f

/-- A fragment is picked when it is one of the picked ones. -/
theorem contains_ids_iff {fragments picked : List ScoredFragment} (hdistinct : (fragments.map ScoredFragment.id).Nodup)
    (hpicked : picked ⊆ fragments) {f : ScoredFragment} (hf : f ∈ fragments) :
    (picked.map ScoredFragment.id).contains f.id = true ↔ f ∈ picked := by
  rw [List.contains_iff_mem, List.mem_map]
  constructor
  · rintro ⟨g, hg, hid⟩
    exact List.inj_on_of_nodup_map hdistinct (hpicked hg) hf hid ▸ hg
  · exact fun h => ⟨f, h, rfl⟩

/-- The selections of the three passes. -/
structure Selections (countTokens : String → ℕ) (ranking : Ranking) (fragments : List ScoredFragment) (tokenBudget : ℚ)
    (exact supplement rest : List ScoredFragment) : Prop where
  exact_eq : exact = takeFitting (cost countTokens) (Within (tokenBudget * ranking.exactSlotShare)) 0
    (fragments.filter ScoredFragment.kwExact)
  supplement_eq : supplement = takeFitting (cost countTokens) (Within (tokenBudget * ranking.semanticSlotShare)) 0
    (fragments.filter fun f => f ∉ exact ∧ f.kwSupplement = true)
  rest_eq : rest = fillFitting (cost countTokens) (Within tokenBudget) (total (cost countTokens) (exact ++ supplement))
    (fragments.filter fun f => f ∉ exact ++ supplement)

variable {ranking : Ranking} {fragments : List ScoredFragment} {tokenBudget : ℚ}
  {exact supplement rest : List ScoredFragment}

theorem Selections.exact_sublist (h : Selections countTokens ranking fragments tokenBudget exact supplement rest) :
    List.Sublist exact fragments :=
  h.exact_eq ▸ (takeFitting_initial 0 _).sublist.trans List.filter_sublist

theorem Selections.supplement_sublist (h : Selections countTokens ranking fragments tokenBudget exact supplement rest) :
    List.Sublist supplement (fragments.filter fun f => f ∉ exact ∧ f.kwSupplement = true) :=
  h.supplement_eq ▸ (takeFitting_initial 0 _).sublist

theorem Selections.rest_sublist (h : Selections countTokens ranking fragments tokenBudget exact supplement rest) :
    List.Sublist rest (fragments.filter fun f => f ∉ exact ++ supplement) :=
  h.rest_eq ▸ fillFitting_sublist _ _

theorem Selections.subset (h : Selections countTokens ranking fragments tokenBudget exact supplement rest) :
    exact ++ supplement ++ rest ⊆ fragments := by
  intro f hf
  rcases List.mem_append.mp hf with hreserved | hrest
  · rcases List.mem_append.mp hreserved with hexact | hsupplement
    · exact h.exact_sublist.subset hexact
    · exact (List.mem_filter.mp (h.supplement_sublist.subset hsupplement)).1
  · exact (List.mem_filter.mp (h.rest_sublist.subset hrest)).1

/-- No fragment is selected twice. -/
theorem Selections.nodup (h : Selections countTokens ranking fragments tokenBudget exact supplement rest)
    (hdistinct : fragments.Nodup) : (exact ++ supplement ++ rest).Nodup := by
  have hsupplement := (hdistinct.filter _).sublist h.supplement_sublist
  have hrest := (hdistinct.filter _).sublist h.rest_sublist
  refine ((hdistinct.sublist h.exact_sublist).append hsupplement ?_).append hrest ?_
  · intro f hexact hf
    have hnew := (List.mem_filter.mp (h.supplement_sublist.subset hf)).2
    exact (of_decide_eq_true hnew).1 hexact
  · intro f hreserved hf
    have hnew := (List.mem_filter.mp (h.rest_sublist.subset hf)).2
    exact of_decide_eq_true hnew hreserved

/-- The exact matches leave the share of the supplement. -/
theorem room_of_exact (hbudget : 0 ≤ tokenBudget) (hexact : 0 ≤ ranking.exactSlotShare)
    (hsum : ranking.exactSlotShare + ranking.semanticSlotShare ≤ 1) (candidates : List ScoredFragment) :
    (total (cost countTokens) (takeFitting (cost countTokens) (Within (tokenBudget * ranking.exactSlotShare)) 0 candidates) : ℚ)
      + tokenBudget * ranking.semanticSlotShare ≤ tokenBudget := by
  have hwithin := @fits_takeFitting _ (cost countTokens) _ _ _ (within_zero (mul_nonneg hbudget hexact)) candidates
  rw [Within, Nat.zero_add] at hwithin
  have hshares := mul_le_mul_of_nonneg_left hsum hbudget
  rw [mul_add, mul_one] at hshares
  exact (add_le_add_left hwithin _).trans hshares

/-- The tagged trim picks the fragments of its three selections. -/
theorem trim_tagged (hdistinct : (fragments.map ScoredFragment.id).Nodup)
    (hbudget : 0 ≤ tokenBudget) (hexact : 0 ≤ ranking.exactSlotShare) (hsum : ranking.exactSlotShare + ranking.semanticSlotShare ≤ 1)
    (htagged : (fragments.any fun f => f.kwExact || f.kwSupplement) = true) :
    ∃ exact supplement rest, Selections countTokens ranking fragments tokenBudget exact supplement rest ∧
      trimToTokenBudget countTokens ranking fragments tokenBudget =
        fragments.filter fun f => f ∈ exact ++ supplement ++ rest := by
  have hpass₁ := @pickExact_eq countTokens (tokenBudget * ranking.exactSlotShare) fragments {}
  have hroom := @room_of_exact countTokens _ _ hbudget hexact hsum (fragments.filter ScoredFragment.kwExact)
  simp only [List.nil_append, Nat.zero_add] at hpass₁
  generalize hexactEq : takeFitting (cost countTokens) (Within (tokenBudget * ranking.exactSlotShare)) 0
    (fragments.filter ScoredFragment.kwExact) = exact at hpass₁ hroom
  have hpass₂ := @pickSupplement_eq countTokens (tokenBudget * ranking.semanticSlotShare) tokenBudget fragments
    { picked := exact.map ScoredFragment.id, used := total (cost countTokens) exact, semUsed := 0 } hdistinct (by
      rw [Nat.cast_zero, add_zero]
      exact hroom)
  simp only [Nat.zero_add] at hpass₂
  have hexactSub : exact ⊆ fragments :=
    hexactEq ▸ ((takeFitting_initial 0 _).sublist.trans List.filter_sublist).subset
  have hwaiting : (fragments.filter fun f => !(exact.map ScoredFragment.id).contains f.id && f.kwSupplement) =
      fragments.filter fun f => f ∉ exact ∧ f.kwSupplement = true := by
    refine List.filter_congr fun f hf => ?_
    rw [Bool.eq_iff_iff, Bool.and_eq_true, Bool.not_eq_true', Bool.eq_false_iff, Ne,
      contains_ids_iff hdistinct hexactSub hf, decide_eq_true_eq]
  rw [hwaiting] at hpass₂
  generalize hsupplementEq : takeFitting (cost countTokens) (Within (tokenBudget * ranking.semanticSlotShare)) 0
    (fragments.filter fun f => f ∉ exact ∧ f.kwSupplement = true) = supplement at hpass₂
  have hpass₃ := @pickRest_eq countTokens tokenBudget fragments
    { picked := exact.map ScoredFragment.id ++ supplement.map ScoredFragment.id,
      used := total (cost countTokens) exact + total (cost countTokens) supplement,
      semUsed := total (cost countTokens) supplement } hdistinct
  simp only [← List.map_append, ← total_append] at hpass₃
  have hreservedSub : exact ++ supplement ⊆ fragments := by
    refine List.append_subset.mpr ⟨hexactSub, ?_⟩
    rw [← hsupplementEq]
    exact ((takeFitting_initial 0 _).sublist.trans List.filter_sublist).subset
  have hfree : (fragments.filter fun f => !((exact ++ supplement).map ScoredFragment.id).contains f.id) =
      fragments.filter fun f => f ∉ exact ++ supplement := by
    refine List.filter_congr fun f hf => ?_
    rw [Bool.eq_iff_iff, Bool.not_eq_true', Bool.eq_false_iff, Ne, contains_ids_iff hdistinct hreservedSub hf,
      decide_eq_true_eq]
  rw [hfree] at hpass₃
  generalize hrestEq :
    fillFitting (cost countTokens) (Within tokenBudget) (total (cost countTokens) (exact ++ supplement))
    (fragments.filter fun f => f ∉ exact ++ supplement) = rest at hpass₃
  have hselected : Selections countTokens ranking fragments tokenBudget exact supplement rest :=
    ⟨hexactEq.symm, hsupplementEq.symm, hrestEq.symm⟩
  refine ⟨exact, supplement, rest, hselected, ?_⟩
  rw [trimToTokenBudget, if_pos htagged]
  simp only [hpass₁, hpass₂, ← List.map_append, ← total_append, hpass₃]
  refine List.filter_congr fun f hf => ?_
  rw [Bool.eq_iff_iff, contains_ids_iff hdistinct hselected.subset hf, decide_eq_true_eq]

/-- The fragments of the selections in the order of the list. -/
theorem Selections.perm (h : Selections countTokens ranking fragments tokenBudget exact supplement rest)
    (hdistinct : fragments.Nodup) :
    (fragments.filter fun f => f ∈ exact ++ supplement ++ rest).Perm (exact ++ supplement ++ rest) := by
  refine (List.perm_ext_iff_of_nodup (hdistinct.filter _) (h.nodup hdistinct)).mpr fun f => ?_
  rw [List.mem_filter, decide_eq_true_eq]
  exact and_iff_right_of_imp fun hf => h.subset hf

/-- A trim with shares that together leave the budget. -/
theorem trimToTokenBudget_trimmed (countTokens : String → ℕ) (ranking : Ranking) (fragments : List ScoredFragment)
    (tokenBudget : ℚ) (hdistinct : (fragments.map ScoredFragment.id).Nodup) (hbudget : 0 ≤ tokenBudget)
    (hexact : 0 ≤ ranking.exactSlotShare) (hsemantic : 0 ≤ ranking.semanticSlotShare)
    (hsum : ranking.exactSlotShare + ranking.semanticSlotShare ≤ 1) :
    Trimmed countTokens ranking fragments tokenBudget (trimToTokenBudget countTokens ranking fragments tokenBudget) := by
  cases htags : fragments.any fun f => f.kwExact || f.kwSupplement with
  | false =>
    have hresult : trimToTokenBudget countTokens ranking fragments tokenBudget =
        takeFitting (cost countTokens) (Within tokenBudget) 0 fragments := by
      rw [trimToTokenBudget, if_neg (Bool.eq_false_iff.mp htags), cut_eq]
    have hlongest :=
      @longest_takeFitting _ (cost countTokens) _ _ (within_of_le tokenBudget) (within_zero hbudget) fragments
    rw [hresult]
    refine ⟨hlongest.initial.sublist, hlongest.fits_total, fun _ => hlongest, ?_⟩
    rintro ⟨f, hf, htag⟩
    have hnone := List.any_eq_false.mp htags f hf
    rw [Bool.or_eq_true] at hnone
    exact absurd htag hnone
  | true =>
    obtain ⟨exact, supplement, rest, hselected, hresult⟩ :=
      @trim_tagged countTokens ranking fragments tokenBudget hdistinct hbudget hexact hsum htags
    have hperm := hselected.perm (List.Nodup.of_map _ hdistinct)
    rw [← hresult] at hperm
    have htotal : total (cost countTokens) (trimToTokenBudget countTokens ranking fragments tokenBudget) =
        total (cost countTokens) (exact ++ supplement) + total (cost countTokens) rest := by
      rw [total_perm hperm, total_append]
    have hreserved : Within tokenBudget (total (cost countTokens) (exact ++ supplement)) := by
      have hroom := @room_of_exact countTokens _ _ hbudget hexact hsum (fragments.filter ScoredFragment.kwExact)
      have hshare := @fits_takeFitting _ (cost countTokens) _ _ _ (within_zero (mul_nonneg hbudget hsemantic))
        (fragments.filter fun f => f ∉ exact ∧ f.kwSupplement = true)
      rw [← hselected.exact_eq] at hroom
      rw [← hselected.supplement_eq, Within, Nat.zero_add] at hshare
      rw [Within, total_append, Nat.cast_add]
      linarith
    have horder : List.Sublist (trimToTokenBudget countTokens ranking fragments tokenBudget) fragments := by
      rw [trimToTokenBudget, if_pos htags]
      exact List.filter_sublist
    refine ⟨horder, ?_, fun hnone => ?_, fun _ => ⟨exact, supplement, ?_, ?_, ?_, ?_, fun f hf hout => ?_⟩⟩
    · rw [htotal]
      have hfits := @fits_fillFitting _ (cost countTokens) _ _ _ hreserved (fragments.filter fun f => f ∉ exact ++ supplement)
      rw [← hselected.rest_eq] at hfits
      exact hfits
    · obtain ⟨f, hf, htag⟩ := List.any_eq_true.mp htags
      rw [(hnone f hf).1, (hnone f hf).2] at htag
      cases htag
    · rw [hselected.exact_eq]
      exact longest_takeFitting (within_of_le _) (within_zero (mul_nonneg hbudget hexact)) _
    · have hlongest := @longest_takeFitting _ (cost countTokens) _ _ (within_of_le _)
        (within_zero (mul_nonneg hbudget hsemantic)) (fragments.filter fun f => f ∉ exact ∧ f.kwSupplement = true)
      rw [← hselected.supplement_eq] at hlongest
      exact hlongest
    · exact fun f hf => hperm.mem_iff.mpr (List.mem_append_left _ (List.mem_append_left _ hf))
    · exact fun f hf => hperm.mem_iff.mpr (List.mem_append_left _ (List.mem_append_right _ hf))
    · have hleft : f ∉ exact ++ supplement ++ rest := fun h => hout (hperm.mem_iff.mpr h)
      have hwaiting : f ∈ fragments.filter fun f => f ∉ exact ++ supplement :=
        List.mem_filter.mpr ⟨hf, decide_eq_true fun h => hleft (List.mem_append_left _ h)⟩
      have hskipped := fun h => hleft (List.mem_append_right _ (hselected.rest_eq ▸ h))
      have hover := not_fits_of_left_out (within_of_le tokenBudget) hwaiting hskipped
      rw [← hselected.rest_eq, ← htotal, not_within_iff] at hover
      exact hover

def threeFragments : List ScoredFragment :=
  [{ id := "frag-01", content := some "a longer text", kwExact := false }, { id := "frag-02", content := some "vpn", kwExact := true },
   { id := "frag-03", estimatedTokens := some 2, kwSupplement := true }]

theorem trimmed_three :
    Trimmed String.length {} threeFragments 10 (trimToTokenBudget String.length {} threeFragments 10) :=
  trimToTokenBudget_trimmed String.length {} threeFragments 10 (by decide) (by norm_num) (by norm_num) (by norm_num)
    (by norm_num)

/-! ## The trim of a search -/

/-- A hit whose estimate is not among the columns of a search. -/
def scored (hit : RecallQueries.Hit) : ScoredFragment where
  id := hit.id
  content := some hit.row.content
  kwExact := hit.kwExact
  kwSupplement := hit.kwSupplement

variable {model : FragmentSearch.SearchModel}

theorem takeWithin_eq (budget : ℕ) (found : List RecallQueries.Hit) (used : ℕ) :
    FragmentSearch.takeWithin model budget found used =
      takeFitting (FragmentSearch.tokenCost model) (· ≤ budget) used found := by
  induction found generalizing used with
  | nil => rfl
  | cons hit later ih =>
    rw [FragmentSearch.takeWithin, takeFitting, ih]
    split
    · rename_i hover
      rw [if_neg (Nat.not_le.mpr hover)]
    · rename_i hfits
      rw [if_pos (Nat.le_of_not_lt hfits)]

theorem fillWithin_eq (budget : ℕ) (found : List RecallQueries.Hit) (used : ℕ) :
    FragmentSearch.fillWithin model budget found used =
      fillFitting (FragmentSearch.tokenCost model) (· ≤ budget) used found := by
  induction found generalizing used with
  | nil => rfl
  | cons hit later ih =>
    rw [FragmentSearch.fillWithin, fillFitting, ih, ih]
    split
    · rename_i hover
      rw [if_neg (Nat.not_le.mpr hover)]
    · rename_i hfits
      rw [if_pos (Nat.le_of_not_lt hfits)]

/-- A share of a whole budget in whole tokens. -/
theorem within_share (budget parts : ℕ) (hparts : 0 < parts) (n : ℕ) :
    Within ((budget : ℚ) * (1 / parts)) n ↔ n ≤ budget / parts := by
  have hpositive : (0 : ℚ) < parts := Nat.cast_pos.mpr hparts
  rw [Within, mul_one_div, le_div_iff₀ hpositive, Nat.le_div_iff_mul_le hparts]
  exact_mod_cast Iff.rfl

theorem mem_scored_iff {found picked : List RecallQueries.Hit} (hdistinct : DistinctHits.Distinct found)
    (hpicked : picked ⊆ found)
    {hit : RecallQueries.Hit} (hhit : hit ∈ found) :
    scored hit ∈ picked.map scored ↔ (picked.map RecallQueries.Hit.id).contains hit.id = true := by
  rw [List.contains_iff_mem, List.mem_map, List.mem_map]
  constructor
  · rintro ⟨other, hother, hsame⟩
    exact ⟨other, hother, congrArg ScoredFragment.id hsame⟩
  · rintro ⟨other, hother, hid⟩
    exact ⟨other, hother, congrArg scored (List.inj_on_of_nodup_map hdistinct (hpicked hother) hhit hid)⟩

theorem filter_scored {found picked : List RecallQueries.Hit} (hdistinct : DistinctHits.Distinct found)
    (hpicked : picked ⊆ found)
    (p : ScoredFragment → Bool) :
    (found.map scored).filter (fun f => f ∉ picked.map scored ∧ p f = true) =
      ((found.filter fun hit => !(picked.map RecallQueries.Hit.id).contains hit.id).filter fun hit =>
        p (scored hit)).map scored := by
  rw [List.filter_map, List.filter_filter]
  refine congrArg (List.map scored) (List.filter_congr fun hit hhit => ?_)
  rw [Bool.eq_iff_iff, Function.comp_apply, decide_eq_true_eq, mem_scored_iff hdistinct hpicked hhit, Bool.and_eq_true,
    Bool.not_eq_true', Bool.eq_false_iff]
  exact and_comm

/-- The last step of a search trims its hits under the default shares. -/
theorem trim_hits {found : List RecallQueries.Hit} (hdistinct : DistinctHits.Distinct found) (budget : ℕ) :
    trimToTokenBudget model.tools.countTokens {} (found.map scored) budget =
      (FragmentSearch.trimToTokenBudget model found budget).map scored := by
  have hcost : (fun hit => cost model.tools.countTokens (scored hit)) = FragmentSearch.tokenCost model := rfl
  have htags : (found.map scored).any (fun f => f.kwExact || f.kwSupplement) =
      found.any fun hit => hit.kwExact || hit.kwSupplement := by
    rw [List.any_map]
    rfl
  have hwhole : ∀ n, Within (budget : ℚ) n ↔ n ≤ budget := fun n => Nat.cast_le
  cases hfound : found.any fun hit => hit.kwExact || hit.kwSupplement with
  | false =>
    rw [trimToTokenBudget, FragmentSearch.trimToTokenBudget, htags, hfound, if_neg Bool.false_ne_true,
      if_neg Bool.false_ne_true, cut_eq, takeWithin_eq, takeFitting_map hwhole, hcost]
  | true =>
    have hids : ((found.map scored).map ScoredFragment.id).Nodup := by
      rw [List.map_map]
      exact hdistinct
    obtain ⟨exact, supplement, rest, hselected, hresult⟩ :=
      @trim_tagged model.tools.countTokens {} (found.map scored) budget
      hids (Nat.cast_nonneg budget) (by norm_num) (by norm_num) (htags.trans hfound)
    have hhalf : ∀ n, Within ((budget : ℚ) * (1 / 2)) n ↔ n ≤ budget / 2 := within_share budget 2 Nat.two_pos
    have hquarter : ∀ n, Within ((budget : ℚ) * (1 / 4)) n ↔ n ≤ budget / 4 := within_share budget 4 (by decide)
    -- The exact matches.
    have hexact := hselected.exact_eq
    rw [List.filter_map, takeFitting_map hhalf, hcost, ← takeWithin_eq] at hexact
    have hshare := @fits_takeFitting _ (FragmentSearch.tokenCost model) (· ≤ budget / 2) _ 0 (Nat.zero_le _)
      (found.filter fun hit => hit.kwExact)
    have hsubExact : FragmentSearch.takeWithin model (budget / 2) (found.filter fun hit => hit.kwExact) 0 ⊆ found :=
      fun hit h => (List.mem_filter.mp ((DistinctHits.takeWithin_sublist _ _ _).subset h)).1
    rw [← takeWithin_eq, Nat.zero_add] at hshare
    have hexactFilter : found.filter (ScoredFragment.kwExact ∘ scored) = found.filter fun hit => hit.kwExact := rfl
    rw [hexactFilter] at hexact
    rw [FragmentSearch.trimToTokenBudget, if_pos hfound]
    simp only []
    generalize FragmentSearch.takeWithin model (budget / 2) (found.filter fun hit => hit.kwExact) 0 = exactHits
      at hexact hshare hsubExact ⊢
    -- The supplement, which its share stops before the budget does.
    have hmin : min (budget / 4) (budget - FragmentSearch.totalCost model exactHits) = budget / 4 := by
      have hused : FragmentSearch.totalCost model exactHits ≤ budget / 2 := hshare
      omega
    have hsupplement := hselected.supplement_eq
    rw [hexact, filter_scored hdistinct hsubExact, takeFitting_map hquarter, hcost, ← takeWithin_eq] at hsupplement
    rw [hmin]
    have hsupplementFilter : (fun hit => (scored hit).kwSupplement) = fun hit :
      RecallQueries.Hit => hit.kwSupplement := rfl
    rw [hsupplementFilter] at hsupplement
    have hsubSupplement : FragmentSearch.takeWithin model (budget / 4) ((found.filter fun hit =>
        !(exactHits.map RecallQueries.Hit.id).contains hit.id).filter fun hit => hit.kwSupplement) 0 ⊆ found :=
      fun hit h => (List.mem_filter.mp (List.mem_filter.mp ((DistinctHits.takeWithin_sublist _ _ _).subset h)).1).1
    generalize FragmentSearch.takeWithin model (budget / 4) ((found.filter fun hit =>
      !(exactHits.map RecallQueries.Hit.id).contains hit.id).filter fun hit => hit.kwSupplement) 0 = supplementHits
        at hsupplement hsubSupplement ⊢
    have hreserved : exactHits ++ supplementHits ⊆ found := List.append_subset.mpr ⟨hsubExact, hsubSupplement⟩
    -- The rest competes for what is left.
    have hfree := filter_scored hdistinct hreserved fun _ => true
    simp only [and_true, List.filter_true] at hfree
    have hrest := hselected.rest_eq
    rw [hexact, hsupplement, ← List.map_append, hfree, fillFitting_map hwhole, hcost, ← fillWithin_eq, total_map, hcost,
      total_append] at hrest
    have hused : FragmentSearch.totalCost model exactHits + FragmentSearch.totalCost model supplementHits =
      total (FragmentSearch.tokenCost model) exactHits + total (FragmentSearch.tokenCost model) supplementHits := rfl
    rw [hused]
    have hsubRest : FragmentSearch.fillWithin model budget (found.filter fun hit =>
        !((exactHits ++ supplementHits).map RecallQueries.Hit.id).contains hit.id)
          (total (FragmentSearch.tokenCost model) exactHits + total (FragmentSearch.tokenCost model) supplementHits) ⊆ found :=
      fun hit h => (List.mem_filter.mp ((DistinctHits.fillWithin_sublist _ _ _).subset h)).1
    generalize FragmentSearch.fillWithin model budget (found.filter fun hit =>
      !((exactHits ++ supplementHits).map RecallQueries.Hit.id).contains hit.id)
        (total (FragmentSearch.tokenCost model) exactHits + total (FragmentSearch.tokenCost model) supplementHits) = restHits
          at hrest hsubRest ⊢
    have hpicked : exactHits ++ supplementHits ++ restHits ⊆ found := List.append_subset.mpr ⟨hreserved, hsubRest⟩
    rw [hresult, hexact, hsupplement, hrest, ← List.map_append, ← List.map_append, ← List.map_append, List.filter_map]
    refine congrArg (List.map scored) (List.filter_congr fun hit hhit => ?_)
    rw [Bool.eq_iff_iff, Function.comp_apply, decide_eq_true_eq, mem_scored_iff hdistinct hpicked hhit]

end FragmentMemory.TokenBudget
