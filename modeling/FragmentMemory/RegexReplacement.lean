import FragmentMemory.BacktrackingRegex

/-! # Global replacement, match by match

The replacement is followed along the matches of the engine, and what it does to a text is also read as
a relation: characters are kept, and pieces are put in the place of others.
-/
namespace FragmentMemory.BacktrackingRegex.Regex

variable {r : Regex} {replacement : List Char → List Char}

theorem replaceFrom_eq (skip : ℕ) (text : List Char) :
    replaceFrom r replacement skip text = replaceAll r replacement (text.drop skip) := by
  induction skip generalizing text with
  | zero => rfl
  | succ skip ih =>
    cases text with
    | nil => rfl
    | cons c rest => rw [replaceFrom, ih, List.drop_succ_cons]

@[simp] theorem replaceAll_nil : replaceAll r replacement [] = [] := rfl

theorem replaceAll_of_none {c : Char} {rest : List Char} (h : rests r (c :: rest) = []) :
    replaceAll r replacement (c :: rest) = c :: replaceAll r replacement rest := by
  rw [replaceAll, replaceFrom, h]
  rfl

theorem replaceAll_of_match {matched after : List Char} (hfilled : matched ≠ [])
    (h : (rests r (matched ++ after)).head? = some after) :
    replaceAll r replacement (matched ++ after) = replacement matched ++ replaceAll r replacement after := by
  obtain ⟨c, rest, rfl⟩ := List.exists_cons_of_ne_nil hfilled
  have htake : (c :: (rest ++ after)).take ((c :: (rest ++ after)).length - after.length) = c :: rest := by
    rw [← List.cons_append, List.length_append, Nat.add_sub_cancel, List.take_left]
  have hdrop : (rest ++ after).drop ((c :: rest).length - 1) = after := by
    rw [List.length_cons, Nat.add_sub_cancel, List.drop_left]
  rw [List.cons_append] at h ⊢
  rw [replaceAll, replaceFrom, h]
  simp only [htake]
  rw [replaceFrom_eq, hdrop]

/-- Induction along the matches that the engine finds. -/
theorem match_induction {P : List Char → Prop} (hempty : ¬ Matches r []) (hnil : P [])
    (hkeep : ∀ c rest, rests r (c :: rest) = [] → P rest → P (c :: rest))
    (hmatch : ∀ matched after, Matches r matched → matched ≠ [] → (rests r (matched ++ after)).head? = some after →
      P after → P (matched ++ after)) (text : List Char) : P text := by
  induction hlength : text.length using Nat.strong_induction_on generalizing text with
  | _ length ih =>
    subst hlength
    cases text with
    | nil => exact hnil
    | cons c rest =>
      cases hfound : (rests r (c :: rest)).head? with
      | none => exact hkeep c rest (List.head?_eq_none_iff.mp hfound) (ih rest.length (by simp) rest rfl)
      | some after =>
        obtain ⟨hmatched, htext⟩ := next_match hfound
        generalize (c :: rest).take ((c :: rest).length - after.length) = matched at hmatched htext
        have hfilled : matched ≠ [] := by
          rintro rfl
          exact hempty hmatched
        have hshorter : after.length < (c :: rest).length := by
          rw [htext, List.length_append]
          have hpositive := List.length_pos_iff.mpr hfilled
          omega
        rw [htext] at hfound ⊢
        exact hmatch matched after hmatched hfilled hfound (ih after.length hshorter after rfl)

theorem Free.rests_eq {c : Char} {rest : List Char} (h : Free r (c :: rest)) : rests r (c :: rest) = [] :=
  free_iff.mp h _ ((List.mem_tails _ _).mpr List.suffix_rfl)

/-- A text without a match stays as it is. -/
theorem replaceAll_of_free {text : List Char} (h : Free r text) : replaceAll r replacement text = text := by
  induction text with
  | nil => rfl
  | cons c rest ih => rw [replaceAll_of_none h.rests_eq, ih (h.infix_ (List.suffix_cons c rest).isInfix)]

/-! ## Greedy repetitions -/

theorem head?_manyRests (accepts : Char → Bool) (text : List Char) :
    (manyRests accepts 0 none text).head? = some (text.dropWhile accepts) := by
  induction text with
  | nil => rfl
  | cons c rest ih =>
    rw [manyRests, List.dropWhile_cons]
    by_cases h : accepts c = true
    · simp only [h, Bool.true_and, ne_eq, reduceCtorEq, not_false_eq_true, decide_true, if_true, Nat.zero_sub,
        Option.map_none]
      rw [List.head?_append, ih, Option.some_or]
    · simp [h]

theorem head?_manyRests_one {accepts : Char → Bool} {c : Char} (h : accepts c = true) (rest : List Char) :
    (manyRests accepts 1 none (c :: rest)).head? = some (rest.dropWhile accepts) := by
  rw [manyRests]
  simp only [h, Bool.true_and, ne_eq, reduceCtorEq, not_false_eq_true, decide_true, if_true, Nat.sub_self,
    Option.map_none,
    Nat.one_ne_zero, if_false, List.append_nil]
  exact head?_manyRests accepts rest

/-- A repetition before a pattern that starts with none of its characters runs as far as it can. -/
theorem rests_seq_many {accepts : Char → Bool} {second : Regex}
    (h : ∀ c rest, accepts c = true → rests second (c :: rest) = [])
    (text : List Char) : rests (.seq (.many accepts 0 none) second) text = rests second (text.dropWhile accepts) := by
  rw [rests, rests]
  induction text with
  | nil => simp [manyRests]
  | cons c rest ih =>
    rw [manyRests, List.dropWhile_cons]
    by_cases haccepts : accepts c = true
    · simp only [haccepts, Bool.true_and, ne_eq, reduceCtorEq, not_false_eq_true, decide_true, if_true, Nat.zero_sub,
        Option.map_none]
      rw [List.flatMap_append, ih, List.flatMap_singleton, h c rest haccepts, List.append_nil]
    · simp [haccepts]

/-- The second text is the first with pieces in the place of others. -/
inductive Swapped (pieces : List Char → List Char → Prop) : List Char → List Char → Prop
  | nil : Swapped pieces [] []
  | keep {before after : List Char} (c : Char) : Swapped pieces before after → Swapped pieces (c :: before) (c :: after)
  | swap {taken shown before after : List Char} :
      pieces taken shown → Swapped pieces before after → Swapped pieces (taken ++ before) (shown ++ after)

namespace Swapped

variable {pieces : List Char → List Char → Prop} {before after : List Char}

theorem append_left (front : List Char) (h : Swapped pieces before after) :
    Swapped pieces (front ++ before) (front ++ after) := by
  induction front with
  | nil => exact h
  | cons c rest ih => exact ih.keep c

/-- A replacement that may stand before any swapped texts swaps the whole. -/
theorem of_replaceAll (hempty : ¬ Matches r [])
    (hswap : ∀ matched, Matches r matched → ∀ before after, Swapped pieces before after →
      Swapped pieces (matched ++ before) (replacement matched ++ after)) (text : List Char) :
    Swapped pieces text (replaceAll r replacement text) := by
  induction text using match_induction hempty with
  | hnil => exact .nil
  | hkeep c rest hnone ih =>
    rw [replaceAll_of_none hnone]
    exact ih.keep c
  | hmatch matched later hmatched hfilled hfound ih =>
    rw [replaceAll_of_match hfilled hfound]
    exact hswap matched hmatched later _ ih

/-- A text is kept, or it contains a piece that was put in. -/
theorem eq_or_shown (h : Swapped pieces before after) :
    after = before ∨ ∃ taken shown, pieces taken shown ∧ shown <:+: after := by
  induction h with
  | nil => exact Or.inl rfl
  | keep c _ ih =>
    rcases ih with rfl | ⟨taken, shown, hpiece, hshown⟩
    · exact Or.inl rfl
    · exact Or.inr ⟨taken, shown, hpiece, hshown.trans (List.suffix_cons c _).isInfix⟩
  | swap hpiece _ _ => exact Or.inr ⟨_, _, hpiece, (List.prefix_append _ _).isInfix⟩

/-- The first character is kept, or it is that of a piece. -/
theorem head? {accepts : Char → Prop} (hpieces : ∀ taken shown, pieces taken shown → ∃ c ∈ shown.head?, accepts c)
    (h : Swapped pieces before after) (hbefore : ∀ c ∈ before.head?, accepts c) : ∀ c ∈ after.head?, accepts c := by
  cases h with
  | nil => exact hbefore
  | keep c _ => exact hbefore
  | swap hpiece _ =>
    obtain ⟨first, hfirst, haccepts⟩ := hpieces _ _ hpiece
    intro c hc
    rw [List.head?_append, Option.mem_def.mp hfirst, Option.some_or, Option.mem_some_iff] at hc
    rwa [← hc]

theorem eq_nil_iff (hfilled : ∀ taken shown, pieces taken shown → taken ≠ [] ∧ shown ≠ [])
    (h : Swapped pieces before after) : after = [] ↔ before = [] := by
  cases h with
  | nil => rfl
  | keep c _ => simp
  | swap hpiece _ =>
    obtain ⟨htaken, hshown⟩ := hfilled _ _ hpiece
    simp [htaken, hshown]

/-- The last character is kept, or it is that of a piece. -/
theorem getLast? {accepts : Char → Prop} (hfilled : ∀ taken shown, pieces taken shown → taken ≠ [] ∧ shown ≠ [])
    (hpieces : ∀ taken shown, pieces taken shown → ∀ c ∈ shown.getLast?, accepts c)
    (h : Swapped pieces before after) (hbefore : ∀ c ∈ before.getLast?, accepts c) :
    ∀ c ∈ after.getLast?, accepts c := by
  induction h with
  | nil => exact hbefore
  | @keep before after c h ih =>
    by_cases hend : before = []
    · rw [(h.eq_nil_iff hfilled).mpr hend]
      rw [hend] at hbefore
      exact hbefore
    · have hafter : after ≠ [] := fun hnil => hend ((h.eq_nil_iff hfilled).mp hnil)
      rw [← List.singleton_append, List.getLast?_append_of_ne_nil _ hend] at hbefore
      rw [← List.singleton_append, List.getLast?_append_of_ne_nil _ hafter]
      exact ih hbefore
  | @swap taken shown before after hpiece h ih =>
    by_cases hend : before = []
    · rw [(h.eq_nil_iff hfilled).mpr hend, List.append_nil]
      exact hpieces _ _ hpiece
    · have hafter : after ≠ [] := fun hnil => hend ((h.eq_nil_iff hfilled).mp hnil)
      rw [List.getLast?_append_of_ne_nil _ hend] at hbefore
      rw [List.getLast?_append_of_ne_nil _ hafter]
      exact ih hbefore

/-- A front that no replaced piece starts in is kept. -/
theorem of_front {front : List Char} (hpieces : ∀ taken shown, pieces taken shown → ∃ c ∈ taken.head?, c ∉ front)
    (h : Swapped pieces (front ++ before) after) : ∃ later, after = front ++ later ∧ Swapped pieces before later := by
  induction front generalizing after with
  | nil => exact ⟨after, rfl, h⟩
  | cons c rest ih =>
    generalize hwhole : c :: rest ++ before = whole at h
    cases h with
    | nil => cases hwhole
    | @keep _ later first h =>
      obtain ⟨rfl, rfl⟩ := List.cons.inj hwhole
      obtain ⟨kept, rfl, hkept⟩ := ih (fun taken shown hpiece => by
        obtain ⟨first, hfirst, hnot⟩ := hpieces taken shown hpiece
        exact ⟨first, hfirst, fun hmem => hnot (List.mem_cons_of_mem _ hmem)⟩) h
      exact ⟨kept, rfl, hkept⟩
    | @swap taken shown _ _ hpiece _ =>
      obtain ⟨first, hfirst, hnot⟩ := hpieces taken shown hpiece
      obtain ⟨more, rfl⟩ := List.head?_eq_some_iff.mp hfirst
      obtain ⟨rfl, -⟩ := List.cons.inj hwhole
      exact absurd List.mem_cons_self hnot

/-- A tail of the second text belongs to a tail of the first, or it starts inside a piece. -/
theorem tail (h : Swapped pieces before after) {last : List Char} (hlast : last <:+ after) :
    (∃ first, first <:+ before ∧ Swapped pieces first last) ∨
      ∃ taken shown part later, pieces taken shown ∧ part ≠ [] ∧ part <:+ shown ∧ part ≠ shown ∧
        last = part ++ later := by
  induction h with
  | nil =>
    rw [List.suffix_nil.mp hlast]
    exact Or.inl ⟨[], List.suffix_rfl, .nil⟩
  | @keep before after c h ih =>
    rcases List.suffix_cons_iff.mp hlast with rfl | hlater
    · exact Or.inl ⟨c :: before, List.suffix_rfl, h.keep c⟩
    · rcases ih hlater with ⟨first, hfirst, hswapped⟩ | hinside
      · exact Or.inl ⟨first, hfirst.trans (List.suffix_cons c before), hswapped⟩
      · exact Or.inr hinside
  | @swap taken shown before after hpiece h ih =>
    have hbefore : ∀ {first}, first <:+ before → first <:+ taken ++ before := fun hfirst =>
      hfirst.trans (List.suffix_append taken before)
    obtain ⟨skipped, hskipped⟩ := hlast
    rcases List.append_eq_append_iff.mp hskipped with ⟨part, hshown, rfl⟩ | ⟨more, -, hafter⟩
    · by_cases hwhole : part = shown
      · rw [hwhole]
        exact Or.inl ⟨taken ++ before, List.suffix_rfl, Swapped.swap hpiece h⟩
      · by_cases hend : part = []
        · rw [hend, List.nil_append]
          exact Or.inl ⟨before, hbefore List.suffix_rfl, h⟩
        · exact Or.inr ⟨taken, shown, part, after, hpiece, hend, ⟨skipped, hshown.symm⟩, hwhole, rfl⟩
    · rcases ih ⟨more, hafter.symm⟩ with ⟨first, hfirst, hswapped⟩ | hinside
      · exact Or.inl ⟨first, hbefore hfirst, hswapped⟩
      · exact Or.inr hinside

/-- A front of the second text that no piece can reach into or out of is one of the first. -/
theorem of_after {front later : List Char}
    (hpieces : ∀ taken shown, pieces taken shown → (∃ c ∈ front.getLast?, c ∉ shown) ∧ ∃ c ∈ shown, c ∉ front)
    (h : Swapped pieces before (front ++ later)) : front <+: before := by
  generalize hafter : front ++ later = after at h
  induction h generalizing front with
  | nil =>
    rw [(List.append_eq_nil_iff.mp hafter).1]
  | @keep before after c h ih =>
    cases front with
    | nil => exact List.nil_prefix
    | cons first rest =>
      obtain ⟨rfl, hrest⟩ := List.cons.inj hafter
      by_cases hend : rest = []
      · rw [hend]
        exact List.prefix_append [first] before
      · apply List.cons_prefix_cons.mpr ⟨rfl, ih _ hrest⟩
        intro taken shown hpiece
        obtain ⟨⟨last, hlast, hnot⟩, other, hother, hnot'⟩ := hpieces taken shown hpiece
        rw [← List.singleton_append, List.getLast?_append_of_ne_nil _ hend] at hlast
        exact ⟨⟨last, hlast, hnot⟩, other, hother, fun hmem => hnot' (List.mem_cons_of_mem _ hmem)⟩
  | @swap taken shown before after hpiece h ih =>
    obtain ⟨⟨last, hlast, hnot⟩, other, hother, hnot'⟩ := hpieces taken shown hpiece
    rcases List.append_eq_append_iff.mp hafter with ⟨more, rfl, -⟩ | ⟨more, rfl, -⟩
    · exact absurd (List.mem_append_left more (List.mem_of_getLast? hlast)) hnot
    · exact absurd (List.mem_append_left more hother) hnot'

/-- A part of the second text that no piece can reach into or out of is one of the first. -/
theorem part_of_after {part : List Char}
    (hpieces : ∀ taken shown, pieces taken shown →
      (∃ c ∈ part.getLast?, c ∉ shown) ∧ ∃ c ∈ shown.getLast?, c ∉ part)
    (h : Swapped pieces before after) (hpart : part <:+: after) : part <:+: before := by
  obtain ⟨skipped, later, hafter⟩ := hpart
  rcases h.tail ⟨skipped, by rw [← List.append_assoc, hafter]⟩ with ⟨first, hfirst, hswapped⟩ | hinside
  · have hfront : part <+: first := by
      apply hswapped.of_after
      intro taken shown hpiece
      obtain ⟨hlast, other, hother, hnot⟩ := hpieces taken shown hpiece
      exact ⟨hlast, other, List.mem_of_getLast? hother, hnot⟩
    exact hfront.isInfix.trans hfirst.isInfix
  · obtain ⟨taken, shown, inside, rest, hpiece, hfilled, ⟨start, hstart⟩, -, hsplit⟩ := hinside
    obtain ⟨⟨last, hlast, hnot⟩, other, hother, hnot'⟩ := hpieces taken shown hpiece
    rw [← hstart, List.getLast?_append_of_ne_nil _ hfilled] at hother
    rcases List.append_eq_append_iff.mp hsplit with ⟨more, rfl, -⟩ | ⟨more, rfl, -⟩
    · refine absurd ?_ hnot
      rw [← hstart]
      exact List.mem_append_right _ (List.mem_append_left _ (List.mem_of_getLast? hlast))
    · exact absurd (List.mem_append_left _ (List.mem_of_getLast? hother)) hnot'

end Swapped
end FragmentMemory.BacktrackingRegex.Regex
