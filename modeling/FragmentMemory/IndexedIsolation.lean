import Mathlib.Data.List.Basic

/-! # Setting items aside by the index that a refusal names

A list of items is sent.  It is answered as a whole, or refused with an index; then the item at that index is
set aside and the others are sent again.  An index beyond the list sets nothing aside, and the same items are
sent once more.  The nth answer may depend on n, so the loop has fuel: it returns when some fuel is enough.
-/
namespace FragmentMemory.IndexedIsolation

variable {α β : Type*} (answer : ℕ → List α → Except ℕ (List (α × β)))

structure Isolation (α β : Type*) where
  answered : List (α × β)
  setAside : List α

/-- The loop from the attempt with the given number on. -/
def isolate : ℕ → ℕ → List α → Option (Isolation α β)
  | 0, _, _ => none
  | fuel + 1, attempt, items =>
    match answer attempt items with
    | .ok answered => some { answered := answered, setAside := [] }
    | .error index =>
      let rest := items.eraseIdx index
      if rest.isEmpty then some { answered := [], setAside := items[index]?.toList }
      else (isolate fuel (attempt + 1) rest).map fun later =>
        { later with setAside := items[index]?.toList ++ later.setAside }

/-- The loop returns, only bad items are set aside, and every other item is answered. -/
def Isolates (bad : α → Bool) (attempt : ℕ) (items : List α) : Prop :=
  ∃ fuel result, isolate answer fuel attempt items = some result ∧ (∀ item ∈ result.setAside, bad item = true) ∧
    ∀ item ∈ items, bad item = false → item ∈ result.answered.map Prod.fst

/-- The refusals name bad items of what is left, or nothing for a while, until an answer comes. -/
inductive Named (bad : α → Bool) : ℕ → List α → Prop
  | answered (attempt : ℕ) (items : List α) (answered : List (α × β)) (h : answer attempt items = .ok answered) :
      Named bad attempt items
  | bad (attempt : ℕ) (items : List α) (index : ℕ) (item : α) (h : answer attempt items = .error index)
      (hitem : items[index]? = some item) (hbad : bad item = true)
      (hlater : Named bad (attempt + 1) (items.eraseIdx index)) : Named bad attempt items
  | missed (attempt : ℕ) (items : List α) (index : ℕ) (h : answer attempt items = .error index)
      (hbeyond : items.length ≤ index) (hlater : Named bad (attempt + 1) items) : Named bad attempt items

variable {answer} {bad : α → Bool} {attempt index : ℕ} {items : List α} {item : α}

theorem mem_eraseIdx_or (hitem : items[index]? = some item) {other : α} (hother : other ∈ items) :
    other = item ∨ other ∈ items.eraseIdx index := by
  obtain ⟨j, hj⟩ := List.mem_iff_getElem?.mp hother
  by_cases hsame : j = index
  · left
    rw [hsame, hitem] at hj
    exact (Option.some.inj hj).symm
  · right
    exact List.mem_eraseIdx_iff_getElem?.mpr ⟨j, hsame, hj⟩

/-- Nothing is left besides the item at the index. -/
theorem eq_of_eraseIdx_nil (hitem : items[index]? = some item) (hrest : items.eraseIdx index = []) {other : α}
    (hother : other ∈ items) : other = item := by
  rcases mem_eraseIdx_or hitem hother with hsame | hmem
  · exact hsame
  · rw [hrest] at hmem
    exact absurd hmem List.not_mem_nil

/-- Items that a refusal names as bad are set aside, and the loop goes on with the others. -/
theorem Isolates.cons (h : answer attempt items = .error index) (hitem : items[index]? = some item)
    (hbad : bad item = true)
    (hlater : Isolates answer bad (attempt + 1) (items.eraseIdx index)) : Isolates answer bad attempt items := by
  obtain ⟨fuel, later, hreturns, haside, hanswered⟩ := hlater
  by_cases hrest : items.eraseIdx index = []
  · refine ⟨1, { answered := [], setAside := items[index]?.toList }, ?_, ?_, ?_⟩
    · simp only [isolate, h, hrest, List.isEmpty_nil, if_true]
    · intro other hother
      rw [hitem, Option.toList_some, List.mem_singleton] at hother
      rw [hother, hbad]
    · intro other hother hgood
      rw [eq_of_eraseIdx_nil hitem hrest hother, hbad] at hgood
      cases hgood
  · refine ⟨fuel + 1, { later with setAside := items[index]?.toList ++ later.setAside }, ?_, ?_, ?_⟩
    · simp only [isolate, h, List.isEmpty_iff, hrest, if_false, hreturns, Option.map_some]
    · intro other hother
      rw [hitem, Option.toList_some] at hother
      rcases List.mem_append.mp hother with hnamed | hmore
      · rw [List.mem_singleton.mp hnamed, hbad]
      · exact haside other hmore
    · intro other hother hgood
      rcases mem_eraseIdx_or hitem hother with rfl | hmem
      · rw [hbad] at hgood
        cases hgood
      · exact hanswered other hmem hgood

/-- An index beyond the list only costs an attempt. -/
theorem Isolates.missed (hempty : ∀ attempt, ∃ answered, answer attempt [] = .ok answered)
    (h : answer attempt items = .error index) (hbeyond : items.length ≤ index)
    (hlater : Isolates answer bad (attempt + 1) items) : Isolates answer bad attempt items := by
  obtain ⟨fuel, later, hreturns, haside, hanswered⟩ := hlater
  have hne : items ≠ [] := by
    rintro rfl
    obtain ⟨answered, hok⟩ := hempty attempt
    rw [hok] at h
    cases h
  refine ⟨fuel + 1, later, ?_, haside, hanswered⟩
  simp only [isolate, h, List.eraseIdx_of_length_le hbeyond, List.isEmpty_iff, hne, if_false, hreturns,
    List.getElem?_eq_none hbeyond, Option.toList_none, List.nil_append, Option.map_some]

/-- The loop sets aside only bad items and answers all others exactly when every refusal names a bad item of
what is left, or nothing at all, and an answer comes in the end. -/
theorem isolates_iff_named (hempty : ∀ attempt, ∃ answered, answer attempt [] = .ok answered)
    (hcovers : ∀ attempt items answered, answer attempt items = .ok answered →
      ∀ item ∈ items, item ∈ answered.map Prod.fst) :
    Isolates answer bad attempt items ↔ Named answer bad attempt items := by
  constructor
  · intro h
    obtain ⟨fuel, result, hreturns, haside, hanswered⟩ := h
    induction fuel generalizing attempt items result with
    | zero => cases hreturns
    | succ fuel ih =>
      cases hanswer : answer attempt items with
      | ok answered => exact .answered attempt items answered hanswer
      | error index =>
        simp only [isolate, hanswer] at hreturns
        by_cases hbeyond : items.length ≤ index
        · -- the same items are sent again
          have hne : ¬ items.isEmpty = true := by
            intro hnil
            rw [List.isEmpty_iff.mp hnil] at hanswer
            obtain ⟨answered, hok⟩ := hempty attempt
            rw [hok] at hanswer
            cases hanswer
          rw [List.eraseIdx_of_length_le hbeyond, if_neg hne, List.getElem?_eq_none hbeyond] at hreturns
          obtain ⟨later, hlater, rfl⟩ := Option.map_eq_some_iff.mp hreturns
          exact .missed attempt items index hanswer hbeyond (ih later hlater haside hanswered)
        · obtain ⟨item, hitem⟩ : ∃ item, items[index]? = some item :=
            ⟨_, List.getElem?_eq_getElem (Nat.lt_of_not_le hbeyond)⟩
          rw [hitem] at hreturns
          by_cases hrest : items.eraseIdx index = []
          · rw [hrest, List.isEmpty_nil, if_pos rfl] at hreturns
            obtain rfl := Option.some.inj hreturns
            have hbad : bad item = true := haside item (List.mem_singleton_self item)
            obtain ⟨answered, hok⟩ := hempty (attempt + 1)
            refine .bad attempt items index item hanswer hitem hbad (.answered _ _ answered ?_)
            rw [hrest, hok]
          · rw [if_neg (mt List.isEmpty_iff.mp hrest)] at hreturns
            obtain ⟨later, hlater, rfl⟩ := Option.map_eq_some_iff.mp hreturns
            have hbad : bad item = true := haside item (List.mem_append_left _ (List.mem_singleton_self item))
            refine .bad attempt items index item hanswer hitem hbad (ih later hlater ?_ ?_)
            · intro other hother
              exact haside other (List.mem_append_right _ hother)
            · intro other hother hgood
              exact hanswered other (List.mem_of_mem_eraseIdx hother) hgood
  · intro h
    induction h with
    | answered attempt items answered h =>
      refine ⟨1, { answered := answered, setAside := [] }, ?_, fun item hitem => absurd hitem List.not_mem_nil, ?_⟩
      · simp only [isolate, h]
      · intro item hitem _
        exact hcovers attempt items answered h item hitem
    | bad attempt items index item h hitem hbad hlater ih => exact ih.cons h hitem hbad
    | missed attempt items index h hbeyond hlater ih => exact ih.missed hempty h hbeyond

/-- A refusal that names an item of the list. -/
theorem named_error_iff (h : answer attempt items = .error index) (hitem : items[index]? = some item) :
    Named answer bad attempt items ↔ bad item = true ∧ Named answer bad (attempt + 1) (items.eraseIdx index) := by
  constructor
  · intro hnamed
    cases hnamed with
    | answered _ _ answered hok =>
      rw [h] at hok
      cases hok
    | bad _ _ other found hother hfound hbad hlater =>
      obtain rfl := Except.error.inj (h.symm.trans hother)
      obtain rfl := Option.some.inj (hitem.symm.trans hfound)
      exact ⟨hbad, hlater⟩
    | missed _ _ other hother hbeyond hlater =>
      obtain rfl := Except.error.inj (h.symm.trans hother)
      rw [List.getElem?_eq_none hbeyond] at hitem
      cases hitem
  · intro hnext
    exact .bad attempt items index item h hitem hnext.1 hnext.2

/-- No answer ever comes where every refusal points beyond the list. -/
theorem not_named_of_beyond (h : ∀ attempt, ∃ index, answer attempt items = .error index ∧ items.length ≤ index) :
    ¬ Named answer bad attempt items := by
  intro hnamed
  induction hnamed with
  | answered attempt items answered hok =>
    obtain ⟨index, hindex, -⟩ := h attempt
    rw [hok] at hindex
    cases hindex
  | bad attempt items other item hother hitem hbad hlater ih =>
    obtain ⟨index, hindex, hbeyond⟩ := h attempt
    obtain rfl := Except.error.inj (hindex.symm.trans hother)
    rw [List.getElem?_eq_none hbeyond] at hitem
    cases hitem
  | missed attempt items other hother hbeyond hlater ih => exact ih h

end FragmentMemory.IndexedIsolation
