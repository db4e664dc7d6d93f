import Mathlib.Data.List.Infix
import Mathlib.Data.List.Lattice

/-! # Regular expressions of a backtracking engine

Patterns over characters whose repetitions are repetitions of a class, as in most masks.  The engine
yields the remainders after a match at the front in the order in which it tries them; the language of a
pattern is stated without it.  A text is free of a pattern when no part of it is in the language, and the
global replacement is measured by what it leaves free.
-/
namespace FragmentMemory.BacktrackingRegex

/-- Classes, sequences, ordered alternatives and greedy repetitions of a class. -/
inductive Regex
  | class_ (accepts : Char → Bool)
  | seq (first second : Regex)
  | alt (first second : Regex)
  | many (accepts : Char → Bool) (least : ℕ) (most : Option ℕ)

namespace Regex

def char (c : Char) : Regex := .class_ (· == c)

/-- A word, character by character; the empty word is the empty repetition. -/
def word : List Char → Regex
  | [] => .many (fun _ => false) 0 none
  | c :: rest => .seq (char c) (word rest)

/-- The remainders of a greedy repetition, the longest match first. -/
def manyRests (accepts : Char → Bool) : ℕ → Option ℕ → List Char → List (List Char)
  | least, _, [] => if least = 0 then [[]] else []
  | least, most, c :: rest =>
    let more := if accepts c && most ≠ some 0 then manyRests accepts (least - 1) (most.map (· - 1)) rest else []
    more ++ if least = 0 then [c :: rest] else []

/-- What is left of a text after a match at its front, in the order of the engine. -/
def rests : Regex → List Char → List (List Char)
  | class_ accepts, text =>
    match text with
    | [] => []
    | c :: rest => if accepts c then [rest] else []
  | seq first second, text => (rests first text).flatMap (rests second)
  | alt first second, text => rests first text ++ rests second text
  | many accepts least most, text => manyRests accepts least most text

/-- The words of a pattern. -/
def Matches : Regex → List Char → Prop
  | class_ accepts, matched => ∃ c, matched = [c] ∧ accepts c = true
  | seq first second, matched => ∃ front back, matched = front ++ back ∧ Matches first front ∧ Matches second back
  | alt first second, matched => Matches first matched ∨ Matches second matched
  | many accepts least most, matched =>
    (∀ c ∈ matched, accepts c = true) ∧ least ≤ matched.length ∧ ∀ bound ∈ most, matched.length ≤ bound

/-- Every character of a word of the pattern is in the alphabet. -/
def alphabet : Regex → Char → Bool
  | class_ accepts, c => accepts c
  | seq first second, c => alphabet first c || alphabet second c
  | alt first second, c => alphabet first c || alphabet second c
  | many accepts _ _, c => accepts c

theorem mem_manyRests {accepts : Char → Bool} {least : ℕ} {most : Option ℕ} {text rest : List Char} :
    rest ∈ manyRests accepts least most text ↔
      ∃ matched, text = matched ++ rest ∧ Matches (many accepts least most) matched := by
  induction text generalizing least most with
  | nil =>
    constructor
    · intro h
      rw [manyRests] at h
      split at h
      · rename_i hleast
        rw [List.mem_singleton.mp h]
        exact ⟨[], rfl, by simp, hleast.le, by simp⟩
      · cases h
    · rintro ⟨matched, htext, -, hleast, -⟩
      obtain ⟨rfl, rfl⟩ := List.append_eq_nil_iff.mp htext.symm
      rw [manyRests, if_pos (Nat.le_zero.mp hleast)]
      exact List.mem_singleton.mpr rfl
  | cons c later ih =>
    rw [manyRests, List.mem_append]
    constructor
    · rintro (hmore | hhere)
      · split at hmore
        · rename_i hcontinue
          rw [Bool.and_eq_true, decide_eq_true_eq] at hcontinue
          obtain ⟨matched, rfl, hall, hleast, hmost⟩ := ih.mp hmore
          refine ⟨c :: matched, rfl, ?_, ?_, ?_⟩
          · exact List.forall_mem_cons.mpr ⟨hcontinue.1, hall⟩
          · rw [List.length_cons]
            omega
          · intro bound hbound
            have hpositive : bound ≠ 0 := fun hzero => hcontinue.2 (hzero ▸ hbound)
            have hrest := hmost (bound - 1) (by rw [hbound]; rfl)
            rw [List.length_cons]
            omega
        · cases hmore
      · split at hhere
        · rename_i hleast
          rw [List.mem_singleton.mp hhere]
          exact ⟨[], rfl, by simp, hleast.le, by simp⟩
        · cases hhere
    · rintro ⟨matched, htext, hall, hleast, hmost⟩
      cases matched with
      | nil =>
        right
        rw [if_pos (Nat.le_zero.mp hleast)]
        exact List.mem_singleton.mpr htext.symm
      | cons first matched =>
        left
        obtain ⟨rfl, rfl⟩ := List.cons.inj htext
        have hmostNonzero : most ≠ some 0 := by
          intro hzero
          have hbound := hmost 0 hzero
          cases hbound
        have hcontinue : (accepts c && decide (most ≠ some 0)) = true := by
          rw [Bool.and_eq_true, decide_eq_true_eq]
          exact ⟨hall c List.mem_cons_self, hmostNonzero⟩
        rw [if_pos hcontinue]
        refine ih.mpr ⟨matched, rfl, fun x hx => hall x (List.mem_cons_of_mem _ hx), ?_, ?_⟩
        · rw [List.length_cons] at hleast
          omega
        · intro bound hbound
          obtain ⟨before, hbefore, rfl⟩ := Option.map_eq_some_iff.mp hbound
          have hlength := hmost before hbefore
          rw [List.length_cons] at hlength
          omega

/-- The engine finds the words of the language, all of them. -/
theorem mem_rests {r : Regex} {text rest : List Char} :
    rest ∈ rests r text ↔ ∃ matched, text = matched ++ rest ∧ Matches r matched := by
  induction r generalizing text rest with
  | class_ accepts =>
    cases text with
    | nil =>
      simp only [rests, List.not_mem_nil, Matches, false_iff, not_exists, not_and]
      rintro matched htext c rfl
      cases htext
    | cons c later =>
      simp only [rests, Matches]
      constructor
      · intro h
        split at h
        · rename_i haccepts
          rw [List.mem_singleton.mp h]
          exact ⟨[c], rfl, c, rfl, haccepts⟩
        · cases h
      · rintro ⟨matched, htext, other, rfl, haccepts⟩
        obtain ⟨rfl, rfl⟩ := List.cons.inj htext
        rw [if_pos haccepts]
        exact List.mem_singleton.mpr rfl
  | seq first second ihFirst ihSecond =>
    simp only [rests, List.mem_flatMap, ihFirst, ihSecond, Matches]
    constructor
    · rintro ⟨middle, ⟨front, rfl, hfront⟩, back, rfl, hback⟩
      exact ⟨front ++ back, (List.append_assoc _ _ _).symm, front, back, rfl, hfront, hback⟩
    · rintro ⟨matched, rfl, front, back, rfl, hfront, hback⟩
      exact ⟨back ++ rest, ⟨front, List.append_assoc _ _ _, hfront⟩, back, rfl, hback⟩
  | alt first second ihFirst ihSecond =>
    simp only [rests, List.mem_append, ihFirst, ihSecond, Matches, ← exists_or, ← and_or_left]
  | many accepts least most => exact mem_manyRests

theorem alphabet_of_matches {r : Regex} {matched : List Char} (h : Matches r matched) :
    ∀ c ∈ matched, alphabet r c = true := by
  induction r generalizing matched with
  | class_ accepts =>
    obtain ⟨c, rfl, haccepts⟩ := h
    intro other hother
    rw [List.mem_singleton.mp hother]
    exact haccepts
  | seq first second ihFirst ihSecond =>
    obtain ⟨front, back, rfl, hfront, hback⟩ := h
    intro c hc
    rw [alphabet, Bool.or_eq_true]
    rcases List.mem_append.mp hc with hmem | hmem
    · exact Or.inl (ihFirst hfront c hmem)
    · exact Or.inr (ihSecond hback c hmem)
  | alt first second ihFirst ihSecond =>
    intro c hc
    rw [alphabet, Bool.or_eq_true]
    rcases h with hfirst | hsecond
    · exact Or.inl (ihFirst hfirst c hc)
    · exact Or.inr (ihSecond hsecond c hc)
  | many accepts least most => exact h.1

/-- No part of the text is a word of the pattern. -/
def Free (r : Regex) (text : List Char) : Prop := ∀ matched, matched <:+: text → ¬ Matches r matched

theorem Free.infix_ {r : Regex} {part text : List Char} (h : Free r text) (hpart : part <:+: text) : Free r part :=
  fun matched hmatched => h matched (hmatched.trans hpart)

/-- A text is free of a pattern when the engine finds no match anywhere in it. -/
theorem free_iff {r : Regex} {text : List Char} : Free r text ↔ ∀ tail ∈ text.tails, rests r tail = [] := by
  constructor
  · intro h tail htail
    rw [List.eq_nil_iff_forall_not_mem]
    intro rest hrest
    obtain ⟨matched, rfl, hmatched⟩ := mem_rests.mp hrest
    obtain ⟨before, hbefore⟩ := (List.mem_tails _ _).mp htail
    exact h matched ⟨before, rest, by rw [← hbefore, List.append_assoc]⟩ hmatched
  · rintro h matched ⟨before, after, rfl⟩ hmatched
    have htail : matched ++ after ∈ (before ++ matched ++ after).tails :=
      (List.mem_tails _ _).mpr ⟨before, (List.append_assoc _ _ _).symm⟩
    have hrest : after ∈ rests r (matched ++ after) := mem_rests.mpr ⟨matched, rfl, hmatched⟩
    rw [h _ htail] at hrest
    cases hrest

instance (r : Regex) (text : List Char) : Decidable (Free r text) := decidable_of_iff _ free_iff.symm

/-- A character that no word contains separates the parts of a text. -/
theorem free_separated {r : Regex} {separator : Char} (h : alphabet r separator = false) {before after : List Char}
    (hbefore : Free r before) (hafter : Free r after) : Free r (before ++ separator :: after) := by
  intro matched hinfix hmatched
  have hnot : separator ∉ matched := by
    intro hmem
    rw [alphabet_of_matches hmatched separator hmem] at h
    cases h
  rcases List.infix_append_iff.mp hinfix with hleft | hright | ⟨front, back, rfl, hfront, hback⟩
  · exact hbefore matched hleft hmatched
  · rcases List.infix_cons_iff.mp hright with hprefix | hlater
    · cases matched with
      | nil => exact hafter [] (List.nil_infix) hmatched
      | cons first rest =>
        obtain ⟨rfl, -⟩ := List.cons_prefix_cons.mp hprefix
        exact hnot List.mem_cons_self
    · exact hafter matched hlater hmatched
  · cases back with
    | nil =>
      rw [List.append_nil] at hmatched
      exact hbefore front hfront.isInfix hmatched
    | cons first rest =>
      obtain ⟨rfl, -⟩ := List.cons_prefix_cons.mp hback
      exact hnot (List.mem_append_right _ List.mem_cons_self)

/-- Characters with which no word ends may follow a text. -/
theorem free_append {r : Regex} {tail : List Char}
    (hlast : ∀ matched, Matches r matched → ∃ c ∈ matched.getLast?, c ∉ tail) {text : List Char} (h : Free r text) :
    Free r (text ++ tail) := by
  intro matched hinfix hmatched
  obtain ⟨c, hc, hnot⟩ := hlast matched hmatched
  have hmem : c ∈ matched := List.mem_of_getLast? hc
  rcases List.infix_append_iff.mp hinfix with hleft | hright | ⟨front, back, rfl, hfront, hback⟩
  · exact h matched hleft hmatched
  · exact hnot (hright.subset hmem)
  · cases back with
    | nil =>
      rw [List.append_nil] at hmatched
      exact h front hfront.isInfix hmatched
    | cons first rest =>
      rw [List.getLast?_append_of_ne_nil _ (List.cons_ne_nil _ _)] at hc
      exact hnot (hback.subset (List.mem_of_getLast? hc))

/-- Every word of the pattern ends in an accepted character. -/
def EndsIn (accepts : Char → Bool) (r : Regex) : Prop :=
  ∀ matched, Matches r matched → ∃ c ∈ matched.getLast?, accepts c = true

theorem endsIn_many {accepts : Char → Bool} {least : ℕ} {most : Option ℕ} (h : 0 < least) :
    EndsIn accepts (.many accepts least most) := by
  rintro matched ⟨hall, hleast, -⟩
  have hfilled : matched ≠ [] := List.ne_nil_of_length_pos (by omega)
  exact ⟨matched.getLast hfilled, List.getLast?_eq_getLast_of_ne_nil hfilled, hall _ (List.getLast_mem hfilled)⟩

theorem EndsIn.seq {accepts : Char → Bool} {first second : Regex} (h : EndsIn accepts second) :
    EndsIn accepts (.seq first second) := by
  rintro matched ⟨front, back, rfl, -, hback⟩
  obtain ⟨c, hlast, haccepts⟩ := h back hback
  have hfilled : back ≠ [] := List.ne_nil_of_mem (List.mem_of_getLast? hlast)
  exact ⟨c, (List.getLast?_append_of_ne_nil _ hfilled).trans hlast, haccepts⟩

theorem EndsIn.alt {accepts : Char → Bool} {first second : Regex} (hfirst : EndsIn accepts first)
    (hsecond : EndsIn accepts second) : EndsIn accepts (.alt first second) := by
  rintro matched (h | h)
  · exact hfirst matched h
  · exact hsecond matched h

theorem EndsIn.mono {accepts wider : Char → Bool} (hwider : ∀ c, accepts c = true → wider c = true) {r : Regex}
    (h : EndsIn accepts r) : EndsIn wider r := by
  intro matched hmatched
  obtain ⟨c, hlast, haccepts⟩ := h matched hmatched
  exact ⟨c, hlast, hwider c haccepts⟩

section Replace

variable (r : Regex) (replacement : List Char → List Char)

/-- The global replacement; the number counts the characters of the last match that are still to be
passed.  The pattern is one without an empty word. -/
def replaceFrom : ℕ → List Char → List Char
  | _, [] => []
  | skip + 1, _ :: rest => replaceFrom skip rest
  | 0, c :: rest =>
    match (rests r (c :: rest)).head? with
    | none => c :: replaceFrom 0 rest
    | some after =>
      let matched := (c :: rest).take ((c :: rest).length - after.length)
      replacement matched ++ replaceFrom (matched.length - 1) rest

def replaceAll (text : List Char) : List Char := replaceFrom r replacement 0 text

variable {r replacement}

theorem next_match {text after : List Char} (h : (rests r text).head? = some after) :
    Matches r (text.take (text.length - after.length)) ∧ text = text.take (text.length - after.length) ++ after := by
  obtain ⟨matched, rfl, hmatched⟩ := mem_rests.mp (List.mem_of_head? h)
  have htake : (matched ++ after).take ((matched ++ after).length - after.length) = matched := by
    rw [List.length_append, Nat.add_sub_cancel, List.take_left]
  rw [htake]
  exact ⟨hmatched, rfl⟩

/-- A text between two characters that the watched pattern does not know. -/
def Bracketed (watched : Regex) (shown : List Char) : Prop :=
  ∃ opening middle closing, shown = opening :: (middle ++ [closing]) ∧
    alphabet watched opening = false ∧ alphabet watched closing = false ∧ Free watched middle

/-- What a replacement may put in the place of a match: a part of its front and a bracketed text. -/
def Screens (watched : Regex) (matched shown : List Char) : Prop :=
  ∃ front label, front <+: matched ∧ shown = front ++ label ∧ Bracketed watched label

/-- A bracketed text keeps what stands before it and behind it apart. -/
theorem free_bracketed {watched : Regex} {before label after : List Char} (hlabel : Bracketed watched label)
    (hbefore : Free watched before) (hafter : Free watched after) : Free watched (before ++ label ++ after) := by
  obtain ⟨opening, middle, closing, rfl, hopening, hclosing, hmiddle⟩ := hlabel
  have hseparated := free_separated hopening hbefore (free_separated hclosing hmiddle hafter)
  simpa only [List.append_assoc, List.cons_append, List.nil_append] using hseparated

/-- A replacement breaks no pattern that it screens, by induction on the text with the part that was kept
since the last replacement. -/
theorem free_replaceFrom {watched : Regex}
    (hscreens : ∀ matched, Matches r matched → Screens watched matched (replacement matched)) :
    ∀ (skip : ℕ) (text kept : List Char),
      (skip = 0 → Free watched (kept ++ text)) → (skip ≠ 0 → kept = [] ∧ Free watched (text.drop skip)) →
      Free watched (kept ++ replaceFrom r replacement skip text) := by
  intro skip text
  induction text generalizing skip with
  | nil =>
    intro kept hzero hskip
    rcases Nat.eq_zero_or_pos skip with rfl | hpositive
    · exact hzero rfl
    · obtain ⟨rfl, hfree⟩ := hskip hpositive.ne'
      rw [List.drop_nil] at hfree
      exact hfree
  | cons c rest ih =>
    intro kept hzero hskip
    rcases skip with _ | skip
    · have hfree := hzero rfl
      rw [replaceFrom]
      rcases hmatch : (rests r (c :: rest)).head? with _ | after
      · simp only
        rw [← List.singleton_append, ← List.append_assoc]
        refine ih 0 (kept ++ [c]) (fun _ => ?_) (fun hne => absurd rfl hne)
        rw [List.append_assoc, List.singleton_append]
        exact hfree
      · simp only
        obtain ⟨hmatched, htext⟩ := next_match hmatch
        generalize (c :: rest).take ((c :: rest).length - after.length) = matched at hmatched htext ⊢
        obtain ⟨front, label, hfront, hshown, hlabel⟩ := hscreens matched hmatched
        have hkept : Free watched (kept ++ front) := by
          obtain ⟨more, rfl⟩ := hfront
          refine hfree.infix_ (List.IsPrefix.isInfix ⟨more ++ after, ?_⟩)
          rw [htext, List.append_assoc, List.append_assoc]
        have hlater : Free watched (replaceFrom r replacement (matched.length - 1) rest) := by
          have hall : Free watched rest := hfree.infix_ (List.IsSuffix.isInfix ⟨kept ++ [c], by simp⟩)
          have hdrop : Free watched (rest.drop (matched.length - 1)) := hall.infix_ (List.drop_suffix _ _).isInfix
          refine ih (matched.length - 1) [] (fun hz => ?_) (fun _ => ⟨rfl, hdrop⟩)
          rw [hz] at hdrop
          exact hdrop
        have hseparated := free_bracketed hlabel hkept hlater
        rw [hshown]
        simpa only [List.append_assoc] using hseparated
    · obtain ⟨rfl, hfree⟩ := hskip (Nat.succ_ne_zero skip)
      rw [List.drop_succ_cons] at hfree
      rw [replaceFrom]
      refine ih skip [] (fun hz => ?_) (fun _ => ⟨rfl, hfree⟩)
      rw [hz] at hfree
      exact hfree

/-- A text free of a pattern stays free of it under the replacement of another one. -/
theorem Free.replaceAll {watched : Regex}
    (hscreens : ∀ matched, Matches r matched → Screens watched matched (replacement matched))
    {text : List Char} (h : Free watched text) : Free watched (replaceAll r replacement text) :=
  free_replaceFrom hscreens 0 text [] (fun _ => h) (fun hne => absurd rfl hne)

/-- The replacement leaves the text free of its own pattern, by induction on the text: no match starts in
the part that was kept since the last replacement. -/
theorem free_replaceFrom_self (hempty : ¬ Matches r [])
    (hbracketed : ∀ matched, Matches r matched → Bracketed r (replacement matched)) :
    ∀ (skip : ℕ) (text kept : List Char),
      (∀ before part, kept = before ++ part → part ≠ [] → rests r (part ++ text) = []) → (skip ≠ 0 → kept = []) →
      Free r (kept ++ replaceFrom r replacement skip text) := by
  intro skip text
  induction text generalizing skip with
  | nil =>
    intro kept hnone _ matched hinfix hmatched
    rw [replaceFrom, List.append_nil] at hinfix
    obtain ⟨before, after, rfl⟩ := hinfix
    have hfilled : matched ++ after ≠ [] := by
      intro hnil
      rw [(List.append_eq_nil_iff.mp hnil).1] at hmatched
      exact hempty hmatched
    have hrest : after ∈ rests r (matched ++ after ++ []) :=
      mem_rests.mpr ⟨matched, List.append_nil _, hmatched⟩
    rw [hnone before (matched ++ after) (List.append_assoc _ _ _) hfilled] at hrest
    cases hrest
  | cons c rest ih =>
    intro kept hnone hskip
    rcases skip with _ | skip
    · rw [replaceFrom]
      rcases hmatch : (rests r (c :: rest)).head? with _ | after
      · simp only
        rw [← List.singleton_append, ← List.append_assoc]
        refine ih 0 (kept ++ [c]) (fun before part hsplit hfilled => ?_) (fun hne => absurd rfl hne)
        rcases List.append_eq_append_iff.mp hsplit with ⟨more, rfl, hmore⟩ | ⟨more, hkept, hpart⟩
        · cases more with
          | nil =>
            rw [List.nil_append] at hmore
            rw [← hmore, List.singleton_append]
            exact List.head?_eq_none_iff.mp hmatch
          | cons first others =>
            have hnil := (List.append_eq_nil_iff.mp (List.cons.inj hmore).2.symm).2
            exact absurd hnil hfilled
        · by_cases hmoreFilled : more = []
          · rw [hpart, hmoreFilled, List.nil_append, List.singleton_append]
            exact List.head?_eq_none_iff.mp hmatch
          · rw [hpart, List.append_assoc, List.singleton_append]
            exact hnone before more hkept hmoreFilled
      · simp only
        obtain ⟨hmatched, -⟩ := next_match hmatch
        generalize (c :: rest).take ((c :: rest).length - after.length) = matched at hmatched ⊢
        have hkept : Free r kept := by
          rintro word ⟨before, later, rfl⟩ hword
          have hfilled : word ++ later ≠ [] := by
            intro hnil
            rw [(List.append_eq_nil_iff.mp hnil).1] at hword
            exact hempty hword
          have hrest : later ++ c :: rest ∈ rests r (word ++ later ++ c :: rest) :=
            mem_rests.mpr ⟨word, List.append_assoc _ _ _, hword⟩
          rw [hnone before (word ++ later) (List.append_assoc _ _ _) hfilled] at hrest
          cases hrest
        have hlater : Free r (replaceFrom r replacement (matched.length - 1) rest) := by
          refine ih (matched.length - 1) [] (fun before part hsplit hfilled => ?_) (fun _ => rfl)
          exact absurd (List.append_eq_nil_iff.mp hsplit.symm).2 hfilled
        rw [← List.append_assoc]
        exact free_bracketed (hbracketed matched hmatched) hkept hlater
    · rw [hskip (Nat.succ_ne_zero skip), replaceFrom]
      refine ih skip [] (fun before part hsplit hfilled => ?_) (fun _ => rfl)
      exact absurd (List.append_eq_nil_iff.mp hsplit.symm).2 hfilled

theorem free_replaceAll (hempty : ¬ Matches r [])
    (hbracketed : ∀ matched, Matches r matched → Bracketed r (replacement matched)) (text : List Char) :
    Free r (replaceAll r replacement text) := by
  refine free_replaceFrom_self hempty hbracketed 0 text [] (fun before part hsplit hfilled => ?_) (fun _ => rfl)
  exact absurd (List.append_eq_nil_iff.mp hsplit.symm).2 hfilled

end Replace

end Regex
end FragmentMemory.BacktrackingRegex
