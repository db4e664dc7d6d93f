import Mathlib.Data.List.Infix
import Mathlib.Algebra.Order.Group.Nat

/-! # The first place where a pattern stands

A list is cut at the first place where a pattern stands, with its items compared under a fold.  An item that the
pattern has at most at its start keeps what stands on its two sides apart.
-/
namespace FragmentMemory.FirstMatch

variable {α β : Type} [DecidableEq β]

/-- What stands before and behind the first match. -/
def cutAt (fold : α → β) (pattern : List β) : List α → Option (List α × List α)
  | [] => none
  | item :: rest =>
    if pattern.isPrefixOf ((item :: rest).map fold) then some ([], (item :: rest).drop pattern.length)
    else (cutAt fold pattern rest).map fun cut => (item :: cut.1, cut.2)

variable {fold : α → β} {pattern : List β} {text before behind : List α} {item : α}

theorem isPrefixOf_iff {pattern text : List β} : pattern.isPrefixOf text = true ↔ ∃ rest, text = pattern ++ rest := by
  rw [List.isPrefixOf_iff_prefix]
  exact exists_congr fun rest => eq_comm

theorem cutAt_of_starts {matched : List α} (hfilled : matched ≠ []) (h : matched.map fold = pattern)
    (behind : List α) : cutAt fold pattern (matched ++ behind) = some ([], behind) := by
  obtain ⟨first, rest, rfl⟩ := List.exists_cons_of_ne_nil hfilled
  have hlength : pattern.length = (first :: rest).length := by rw [← h, List.length_map]
  rw [List.cons_append, cutAt, if_pos, hlength, ← List.cons_append, List.drop_left]
  rw [isPrefixOf_iff, ← List.cons_append, List.map_append, h]
  exact ⟨_, rfl⟩

theorem exists_of_cutAt (h : cutAt fold pattern text = some (before, behind)) :
    ∃ matched, text = before ++ matched ++ behind ∧ matched.map fold = pattern := by
  induction text generalizing before with
  | nil => cases h
  | cons first text ih =>
    rw [cutAt] at h
    split at h
    · next hstarts =>
      obtain ⟨rest, hrest⟩ := isPrefixOf_iff.mp hstarts
      cases h
      refine ⟨(first :: text).take pattern.length, (List.take_append_drop _ _).symm, ?_⟩
      rw [List.map_take, hrest, List.take_left]
    · obtain ⟨cut, hcut, hsplit⟩ := Option.map_eq_some_iff.mp h
      cases hsplit
      obtain ⟨matched, rfl, hmatched⟩ := ih hcut
      exact ⟨matched, rfl, hmatched⟩

/-- The first match stays the first when more is written behind it. -/
theorem cutAt_append_of_some (h : cutAt fold pattern text = some (before, behind)) (rest : List α) :
    cutAt fold pattern (text ++ rest) = some (before, behind ++ rest) := by
  induction text generalizing before with
  | nil => cases h
  | cons first text ih =>
    obtain ⟨matched, hmatched, hfold⟩ := exists_of_cutAt h
    have hlength : pattern.length ≤ (first :: text).length := by
      rw [hmatched, ← hfold, List.length_append, List.length_append, List.length_map]
      omega
    have hstarts : pattern.isPrefixOf ((first :: (text ++ rest)).map fold) =
        pattern.isPrefixOf ((first :: text).map fold) := by
      rw [Bool.eq_iff_iff, List.isPrefixOf_iff_prefix, List.isPrefixOf_iff_prefix, ← List.cons_append, List.map_append]
      refine ⟨fun hinitial => ?_, fun hinitial => hinitial.trans (List.prefix_append _ _)⟩
      exact List.prefix_of_prefix_length_le hinitial (List.prefix_append _ _) (by rw [List.length_map]; exact hlength)
    rw [List.cons_append, cutAt, hstarts]
    rw [cutAt] at h
    split at h
    · next hhere =>
      cases h
      rw [if_pos hhere, ← List.cons_append, List.drop_append_of_le_length hlength]
    · next hlater =>
      obtain ⟨cut, hcut, hsplit⟩ := Option.map_eq_some_iff.mp h
      cases hsplit
      rw [if_neg hlater, ih hcut, Option.map_some]

theorem none_of_cons (h : cutAt fold pattern (item :: text) = none) : cutAt fold pattern text = none := by
  rw [cutAt] at h
  split at h
  · cases h
  · exact Option.map_eq_none_iff.mp h

theorem none_of_append_right {rest : List α} (h : cutAt fold pattern (rest ++ text) = none) :
    cutAt fold pattern text = none := by
  induction rest with
  | nil => exact h
  | cons first rest ih => exact ih (none_of_cons h)

omit [DecidableEq β] in
/-- A match that reaches to an item the pattern has at its start only starts there. -/
theorem prefix_of_separated {tail text rest : List β} {c : β} (hc : c ∉ tail) (h : tail <+: text ++ c :: rest) :
    tail <+: text := by
  induction text generalizing tail with
  | nil =>
    cases tail with
    | nil => exact List.nil_prefix
    | cons first tail =>
      rw [List.nil_append, List.cons_prefix_cons] at h
      exact absurd (h.1 ▸ List.mem_cons_self) hc
  | cons item text ih =>
    cases tail with
    | nil => exact List.nil_prefix
    | cons first tail =>
      rw [List.cons_append, List.cons_prefix_cons] at h
      exact List.cons_prefix_cons.mpr ⟨h.1, ih (fun hmem => hc (List.mem_cons_of_mem _ hmem)) h.2⟩

omit [DecidableEq β] in
theorem map_nil_append (cut : Option (List α × List α)) : cut.map (fun cut => ([] ++ cut.1, cut.2)) = cut := by
  cases cut <;> rfl

theorem cutAt_append_of_none (h : cutAt fold pattern text = none) (hitem : fold item ∉ pattern.tail) (rest : List α) :
    cutAt fold pattern (text ++ item :: rest) =
      (cutAt fold pattern (item :: rest)).map fun cut => (text ++ cut.1, cut.2) := by
  induction text with
  | nil => exact (map_nil_append _).symm
  | cons first text ih =>
    have hstarts : ¬ pattern.isPrefixOf ((first :: (text ++ item :: rest)).map fold) = true := by
      rw [List.isPrefixOf_iff_prefix]
      intro hinitial
      have hhere : pattern.isPrefixOf ((first :: text).map fold) = true := by
        rw [List.isPrefixOf_iff_prefix]
        cases pattern with
        | nil => exact List.nil_prefix
        | cons head tail =>
          rw [List.map_cons, List.map_append, List.map_cons, List.cons_prefix_cons] at hinitial
          exact List.cons_prefix_cons.mpr ⟨hinitial.1, prefix_of_separated hitem hinitial.2⟩
      rw [cutAt, if_pos hhere] at h
      cases h
    rw [List.cons_append, cutAt, if_neg hstarts, ih (none_of_cons h), Option.map_map]
    rfl

theorem cutAt_cons (hitem : ∀ head ∈ pattern.head?, head ≠ fold item) (hfilled : pattern ≠ []) (rest : List α) :
    cutAt fold pattern (item :: rest) = (cutAt fold pattern rest).map fun cut => (item :: cut.1, cut.2) := by
  obtain ⟨head, tail, rfl⟩ := List.exists_cons_of_ne_nil hfilled
  rw [cutAt, if_neg]
  rw [List.isPrefixOf_iff_prefix, List.map_cons, List.cons_prefix_cons]
  exact fun h => hitem head rfl h.1

/-- No match reaches over an item that the pattern does not have. -/
theorem cutAt_separated (h : cutAt fold pattern text = none) (hitem : fold item ∉ pattern) (hfilled : pattern ≠ [])
    (rest : List α) : cutAt fold pattern (text ++ item :: rest) =
      (cutAt fold pattern rest).map fun cut => (text ++ item :: cut.1, cut.2) := by
  have hhead : ∀ head ∈ pattern.head?, head ≠ fold item :=
    fun head hhead heq => hitem (heq ▸ List.mem_of_head? hhead)
  rw [cutAt_append_of_none h (fun hmem => hitem (List.mem_of_mem_tail hmem)), cutAt_cons hhead hfilled, Option.map_map]
  rfl

theorem cutAt_skip (h : ∀ item ∈ text, ∀ head ∈ pattern.head?, head ≠ fold item) (hfilled : pattern ≠ [])
    (rest : List α) :
    cutAt fold pattern (text ++ rest) = (cutAt fold pattern rest).map fun cut => (text ++ cut.1, cut.2) := by
  induction text with
  | nil => exact (map_nil_append _).symm
  | cons first text ih =>
    rw [List.forall_mem_cons] at h
    rw [List.cons_append, cutAt_cons h.1 hfilled, ih h.2, Option.map_map]
    rfl

/-- Between two such items the search is for itself, where there is no match around it. -/
theorem cutAt_around {front back inner : List α} {first last : α} (hfront : cutAt fold pattern front = none)
    (hback : cutAt fold pattern back = none) (hfirst : fold first ∉ pattern) (hlast : fold last ∉ pattern)
    (hfilled : pattern ≠ []) :
    cutAt fold pattern (front ++ first :: (inner ++ [last]) ++ back) =
      (cutAt fold pattern (first :: (inner ++ [last]))).map fun cut => (front ++ cut.1, cut.2 ++ back) := by
  have hinner : cutAt fold pattern (inner ++ last :: back) =
      (cutAt fold pattern (inner ++ [last])).map fun cut => (cut.1, cut.2 ++ back) := by
    cases hcut : cutAt fold pattern inner with
    | none =>
      rw [cutAt_separated hcut hlast hfilled back, cutAt_separated hcut hlast hfilled [], hback]
      rfl
    | some cut =>
      rw [cutAt_append_of_some hcut, cutAt_append_of_some hcut, Option.map_some, List.append_assoc,
        List.singleton_append]
  have hjoin : front ++ first :: (inner ++ [last]) ++ back = front ++ first :: (inner ++ last :: back) := by simp
  have hhead : ∀ head ∈ pattern.head?, head ≠ fold first :=
    fun head hhead heq => hfirst (heq ▸ List.mem_of_head? hhead)
  rw [hjoin, cutAt_separated hfront hfirst hfilled, hinner, cutAt_cons hhead hfilled, Option.map_map, Option.map_map]
  rfl

/-- A pattern that stands for itself under the fold is found under the fold. -/
theorem exact_of_folded {fold : β → β} {text : List β} (hfilled : pattern ≠ []) (hpattern : pattern.map fold = pattern)
    (h : cutAt fold pattern text = none) : cutAt id pattern text = none := by
  cases hcut : cutAt id pattern text with
  | none => rfl
  | some cut =>
    obtain ⟨matched, hsplit, hmatched⟩ := exists_of_cutAt hcut
    rw [List.map_id] at hmatched
    rw [hsplit, hmatched, List.append_assoc] at h
    have hnone := none_of_append_right h
    rw [cutAt_of_starts hfilled hpattern] at hnone
    cases hnone

/-! ## From the first item to the last -/

def indexOf [DecidableEq α] (item : α) (text : List α) : Option ℕ := text.findIdx? (· = item)

def lastIndexOf [DecidableEq α] (item : α) (text : List α) : Option ℕ :=
  (indexOf item text.reverse).map fun fromEnd => text.length - 1 - fromEnd

/-- From the first `opening` to the last `closing`, if that stands behind it. -/
def between [DecidableEq α] (opening closing : α) (text : List α) : Option (List α) :=
  match indexOf opening text, lastIndexOf closing text with
  | some first, some last => if first < last then some ((text.take (last + 1)).drop first) else none
  | _, _ => none

section Between
variable [DecidableEq α] {opening closing : α} {inner part : List α}

theorem indexOf_append (h : item ∉ before) : indexOf item (before ++ item :: behind) = some before.length := by
  induction before with
  | nil => rw [indexOf, List.nil_append, List.findIdx?_cons, if_pos (decide_eq_true rfl), List.length_nil]
  | cons first before ih =>
    rw [List.mem_cons, not_or] at h
    have hrest := ih h.2
    rw [indexOf] at hrest
    rw [indexOf, List.cons_append, List.findIdx?_cons, if_neg (by simpa using fun heq => h.1 heq.symm), hrest]
    rfl

theorem exists_of_indexOf {index : ℕ} (h : indexOf item text = some index) :
    ∃ before behind, text = before ++ item :: behind ∧ item ∉ before ∧ before.length = index := by
  induction text generalizing index with
  | nil => cases h
  | cons first text ih =>
    rw [indexOf, List.findIdx?_cons] at h
    split at h
    · next hfirst =>
      rw [decide_eq_true_eq] at hfirst
      cases h
      exact ⟨[], text, by rw [hfirst]; rfl, List.not_mem_nil, rfl⟩
    · next hfirst =>
      rw [decide_eq_true_eq] at hfirst
      obtain ⟨later, hlater, rfl⟩ := Option.map_eq_some_iff.mp h
      obtain ⟨before, behind, rfl, hbefore, hlength⟩ := ih hlater
      refine ⟨first :: before, behind, rfl, ?_, by rw [List.length_cons, hlength]⟩
      rw [List.mem_cons, not_or]
      exact ⟨fun heq => hfirst heq.symm, hbefore⟩

theorem lastIndexOf_append (h : item ∉ behind) : lastIndexOf item (before ++ item :: behind) = some before.length := by
  have hreverse : (before ++ item :: behind).reverse = behind.reverse ++ item :: before.reverse := by simp
  rw [lastIndexOf, hreverse, indexOf_append (fun hmem => h (List.mem_reverse.mp hmem)), Option.map_some,
    List.length_reverse, List.length_append, List.length_cons]
  exact congrArg some (by omega)

theorem exists_of_lastIndexOf {index : ℕ} (h : lastIndexOf item text = some index) :
    ∃ before behind, text = before ++ item :: behind ∧ item ∉ behind ∧ before.length = index := by
  obtain ⟨fromEnd, hfromEnd, rfl⟩ := Option.map_eq_some_iff.mp h
  obtain ⟨before, behind, hsplit, hbefore, rfl⟩ := exists_of_indexOf hfromEnd
  have htext : text = behind.reverse ++ item :: before.reverse := by
    rw [← List.reverse_reverse text, hsplit]
    simp
  refine ⟨behind.reverse, before.reverse, htext, fun hmem => hbefore (List.mem_reverse.mp hmem), ?_⟩
  rw [htext, List.length_append, List.length_cons, List.length_reverse, List.length_reverse]
  omega

omit [DecidableEq α] in
theorem cut_append (before part behind : List α) {last : ℕ} (hlast : last = before.length + part.length) :
    ((before ++ part ++ behind).take last).drop before.length = part := by
  rw [hlast, ← List.length_append, List.take_left, List.drop_left]

theorem between_append (hbefore : opening ∉ before) (hbehind : closing ∉ behind) :
    between opening closing (before ++ (opening :: (inner ++ [closing])) ++ behind) =
      some (opening :: (inner ++ [closing])) := by
  have hfirst : indexOf opening (before ++ (opening :: (inner ++ [closing])) ++ behind) = some before.length := by
    rw [List.append_assoc, List.cons_append, indexOf_append hbefore]
  have hlast : lastIndexOf closing (before ++ (opening :: (inner ++ [closing])) ++ behind) =
      some (before ++ opening :: inner).length := by
    rw [← lastIndexOf_append hbehind]
    simp
  have hlt : before.length < (before ++ opening :: inner).length := by
    rw [List.length_append, List.length_cons]
    omega
  have hcut : ((before ++ (opening :: (inner ++ [closing])) ++ behind).take
      ((before ++ opening :: inner).length + 1)).drop before.length = opening :: (inner ++ [closing]) := by
    apply cut_append
    simp only [List.length_append, List.length_cons, List.length_nil]
    omega
  rw [between, hfirst, hlast]
  simp only [if_pos hlt, hcut]

theorem exists_of_between (h : between opening closing text = some part) :
    ∃ before inner behind, text = before ++ (opening :: (inner ++ [closing])) ++ behind ∧
      part = opening :: (inner ++ [closing]) := by
  rw [between] at h
  split at h
  · next first last hfirst hlast =>
    split at h
    · next hlt =>
      obtain ⟨before, behind, htext, -, rfl⟩ := exists_of_indexOf hfirst
      obtain ⟨before', behind', htext', -, rfl⟩ := exists_of_lastIndexOf hlast
      rcases List.append_eq_append_iff.mp (htext.symm.trans htext') with ⟨middle, rfl, hmiddle⟩ | ⟨middle, rfl, -⟩
      · cases middle with
        | nil =>
          rw [List.append_nil] at hlt
          omega
        | cons item middle =>
          obtain ⟨rfl, rfl⟩ := List.cons.inj hmiddle
          have hparts : text = before ++ (opening :: (middle ++ [closing])) ++ behind' := by
            rw [htext]
            simp
          have hlength : (before ++ opening :: middle).length + 1 =
              before.length + (opening :: (middle ++ [closing])).length := by
            simp only [List.length_append, List.length_cons, List.length_nil]
            omega
          refine ⟨before, middle, behind', hparts, ?_⟩
          rw [← Option.some.inj h, hparts, cut_append _ _ _ hlength]
      · rw [List.length_append] at hlt
        omega
    · cases h
  · cases h

omit [DecidableEq α] in
theorem infix_of_start {front text : List α} (h : item ∉ front) (hpart : item :: part <:+: front ++ text) :
    item :: part <:+: text := by
  induction front with
  | nil => exact hpart
  | cons first front ih =>
    rw [List.mem_cons, not_or] at h
    rw [List.cons_append, List.infix_cons_iff] at hpart
    rcases hpart with hstart | hlater
    · exact absurd (List.cons_prefix_cons.mp hstart).1 h.1
    · exact ih h.2 hlater

omit [DecidableEq α] in
/-- A part with ends that the outer pieces do not have lies between them. -/
theorem infix_of_ends {front text back : List α} (hopening : opening ∉ front) (hclosing : closing ∉ back)
    (h : opening :: (inner ++ [closing]) <:+: front ++ text ++ back) : opening :: (inner ++ [closing]) <:+: text := by
  rw [List.append_assoc] at h
  have hstart := List.reverse_infix.mpr (infix_of_start hopening h)
  have hreverse : (opening :: (inner ++ [closing])).reverse = closing :: (opening :: inner).reverse := by simp
  rw [List.reverse_append, hreverse] at hstart
  have hend := infix_of_start (fun hmem => hclosing (List.mem_reverse.mp hmem)) hstart
  rw [← hreverse] at hend
  exact List.reverse_infix.mp hend

end Between

end FragmentMemory.FirstMatch
