import FragmentMemory.MaskedTexts
import FragmentMemory.SentenceSplit
import Mathlib.Data.List.Chain

/-! # Texts with single spaces

What is left of a text when every run of spaces is one blank.  The mask leaves such a text as it is in this
respect, and it puts no address into it.
-/
namespace FragmentMemory.SingleSpaces
open FragmentFactory BacktrackingRegex BacktrackingRegex.Regex PiiRedaction PasswordMask MaskedTexts ReflectProcessor SentenceSplit
  JsString

structure SingleSpaced (text : List Char) : Prop where
  blank : ∀ c ∈ text, isSpace c = true → c = ' '
  single : text.IsChain fun c d => isSpace c = true → isSpace d = false

theorem SingleSpaced.part {text part : List Char} (h : SingleSpaced text) (hpart : part <:+: text) :
    SingleSpaced part := by
  constructor
  · intro c hc
    exact h.blank c (hpart.subset hc)
  · obtain ⟨front, back, rfl⟩ := hpart
    exact h.single.left_of_append.right_of_append

/-- No blank stands beside a space. -/
theorem SingleSpaced.beside {front back : List Char} (h : SingleSpaced (front ++ ' ' :: back)) :
    (∀ c ∈ front.getLast?, isSpace c = false) ∧ ∀ c ∈ back.head?, isSpace c = false := by
  obtain ⟨-, hback, hjoint⟩ := List.isChain_append.mp h.single
  constructor
  · intro c hc
    by_contra hspace
    have hblank := hjoint c hc ' ' rfl (Bool.not_eq_false _ ▸ hspace)
    revert hblank
    decide
  · intro c hc
    exact (List.isChain_cons.mp hback).1 c hc (by decide)

/-! ## Collapsing -/

theorem collapseSpaces_cons {c : Char} {rest : List Char} : collapseSpaces (c :: rest) =
    if isSpace c then if rest.head?.any isSpace then collapseSpaces rest else ' ' :: collapseSpaces rest
    else c :: collapseSpaces rest := by
  cases rest with
  | nil =>
    rw [collapseSpaces]
    rfl
  | cons next later =>
    rw [collapseSpaces]
    rfl

theorem head?_collapseSpaces (text : List Char) :
    ∀ d ∈ (collapseSpaces text).head?, ∃ c ∈ text.head?, isSpace d = isSpace c := by
  induction text with
  | nil =>
    intro d hd
    cases hd
  | cons c rest ih =>
    intro d hd
    refine ⟨c, rfl, ?_⟩
    rw [collapseSpaces_cons] at hd
    by_cases hspace : isSpace c = true
    · rw [if_pos hspace] at hd
      by_cases hnext : rest.head?.any isSpace = true
      · rw [if_pos hnext] at hd
        obtain ⟨next, hmem, hsame⟩ := ih d hd
        rw [Option.mem_def.mp hmem, Option.any_some] at hnext
        rw [hsame, hnext, hspace]
      · rw [if_neg hnext] at hd
        rw [← Option.some.inj hd, hspace]
        rfl
    · rw [if_neg hspace] at hd
      rw [Option.some.inj hd]

theorem singleSpaced_collapseSpaces (text : List Char) : SingleSpaced (collapseSpaces text) := by
  induction text with
  | nil => exact ⟨fun c hc => absurd hc List.not_mem_nil, List.IsChain.nil⟩
  | cons c rest ih =>
    rw [collapseSpaces_cons]
    by_cases hspace : isSpace c = true
    · rw [if_pos hspace]
      by_cases hnext : rest.head?.any isSpace = true
      · rw [if_pos hnext]
        exact ih
      · rw [if_neg hnext]
        constructor
        · intro d hd hdspace
          rcases List.mem_cons.mp hd with rfl | hrest
          · rfl
          · exact ih.blank d hrest hdspace
        · refine List.isChain_cons.mpr ⟨?_, ih.single⟩
          intro d hd _
          obtain ⟨next, hmem, hsame⟩ := head?_collapseSpaces rest d hd
          rw [Option.mem_def.mp hmem, Option.any_some] at hnext
          rw [hsame]
          exact Bool.not_eq_true _ ▸ hnext
    · rw [if_neg hspace]
      constructor
      · intro d hd hdspace
        rcases List.mem_cons.mp hd with rfl | hrest
        · exact absurd hdspace hspace
        · exact ih.blank d hrest hdspace
      · exact List.isChain_cons.mpr ⟨fun d _ habsurd => absurd habsurd hspace, ih.single⟩

theorem collapseSpaces_of_singleSpaced {text : List Char} (h : SingleSpaced text) : collapseSpaces text = text := by
  induction text with
  | nil => rfl
  | cons c rest ih =>
    have hrest := ih (h.part (List.suffix_cons c rest).isInfix)
    rw [collapseSpaces_cons, hrest]
    by_cases hspace : isSpace c = true
    · have hnext : ¬ rest.head?.any isSpace = true := by
        cases hhead : rest.head? with
        | none => exact Bool.false_ne_true
        | some d =>
          rw [Option.any_some, (List.isChain_cons.mp h.single).1 d hhead hspace]
          exact Bool.false_ne_true
      rw [if_pos hspace, if_neg hnext, h.blank c List.mem_cons_self hspace]
    · rw [if_neg hspace]

/-- Collapsing puts a blank in the place of every run of spaces; a run before a text that starts with a space is
taken together with that space. -/
theorem swapped_collapseSpaces (text : List Char) :
    Swapped (fun _ shown => shown = [' ']) text (collapseSpaces text) ∧
      (text.head?.any isSpace = true → ∀ run, Swapped (fun _ shown => shown = [' ']) (run ++ text) (collapseSpaces text)) := by
  induction text with
  | nil => exact ⟨.nil, fun habsurd => absurd habsurd Bool.false_ne_true⟩
  | cons c rest ih =>
    obtain ⟨hplain, hrun⟩ := ih
    rw [collapseSpaces_cons]
    by_cases hspace : isSpace c = true
    · rw [if_pos hspace]
      have hall : ∀ run, Swapped (fun _ shown => shown = [' ']) (run ++ c :: rest)
          (if rest.head?.any isSpace then collapseSpaces rest else ' ' :: collapseSpaces rest) := by
        intro run
        have hmoved : run ++ c :: rest = (run ++ [c]) ++ rest := by rw [List.append_assoc, List.singleton_append]
        rw [hmoved]
        by_cases hnext : rest.head?.any isSpace = true
        · rw [if_pos hnext]
          exact hrun hnext (run ++ [c])
        · rw [if_neg hnext]
          exact @Swapped.swap _ (run ++ [c]) [' '] rest _ rfl hplain
      exact ⟨hall [], fun _ => hall⟩
    · rw [if_neg hspace, List.head?_cons, Option.any_some]
      exact ⟨hplain.keep c, fun habsurd => absurd habsurd hspace⟩

/-! ## The mask -/

/-- A trimmed piece with single spaces in the place of another. -/
theorem SingleSpaced.swapped {pieces : List Char → List Char → Prop} {before after : List Char}
    (hpieces : ∀ taken shown, pieces taken shown → shown ≠ [] ∧ Trimmed shown ∧ SingleSpaced shown)
    (h : Swapped pieces before after) (hbefore : SingleSpaced before) : SingleSpaced after := by
  induction h with
  | nil => exact hbefore
  | @keep before after c h ih =>
    have hafter := ih (hbefore.part (List.suffix_cons c before).isInfix)
    constructor
    · intro d hd hspace
      rcases List.mem_cons.mp hd with rfl | hrest
      · exact hbefore.blank d List.mem_cons_self hspace
      · exact hafter.blank d hrest hspace
    · refine List.isChain_cons.mpr ⟨?_, hafter.single⟩
      apply h.head? _ (List.isChain_cons.mp hbefore.single).1
      intro taken shown hpiece
      obtain ⟨hfilled, htrimmed, -⟩ := hpieces taken shown hpiece
      obtain ⟨first, rest, rfl⟩ := List.exists_cons_of_ne_nil hfilled
      exact ⟨first, rfl, fun _ => htrimmed.first first rfl⟩
  | @swap taken shown before after hpiece h ih =>
    obtain ⟨-, htrimmed, hshown⟩ := hpieces taken shown hpiece
    have hafter := ih (hbefore.part (List.suffix_append taken before).isInfix)
    constructor
    · intro d hd hspace
      rcases List.mem_append.mp hd with hleft | hright
      · exact hshown.blank d hleft hspace
      · exact hafter.blank d hright hspace
    · refine hshown.single.append hafter.single ?_
      intro last hlast first _ hspace
      rw [htrimmed.last last hlast] at hspace
      cases hspace

theorem singleSpaced_label {shown : List Char} (h : shown ∈ labels) : SingleSpaced shown := by
  have hblanks : ∀ shown ∈ labels, (shown.all fun c => !isSpace c || c == ' ') = true := by decide
  have hsingle : ∀ shown ∈ labels, shown.IsChain fun c d => isSpace c = true → isSpace d = false := by decide
  refine ⟨fun c hc hspace => ?_, hsingle shown h⟩
  have hblank := List.all_eq_true.mp (hblanks shown h) c hc
  rw [hspace, Bool.not_true, Bool.false_or, beq_iff_eq] at hblank
  exact hblank

theorem singleSpaced_redactPII {text : String} (h : SingleSpaced text.toList) :
    SingleSpaced (redactPII text).toList := by
  apply redactPII_steps _ text h
  intro pieces hpieces before after hswapped
  apply SingleSpaced.swapped _ hswapped
  intro taken shown hpiece
  have hshown := (hpieces taken shown hpiece).2
  exact ⟨(trimmed_label hshown).1, (trimmed_label hshown).2, singleSpaced_label hshown⟩

/-! ## Addresses -/

theorem hasAddress_iff {text : List Char} :
    hasAddress text = true ↔ ∃ part, part <:+: text ∧ part.map Char.toLower ∈ schemes := by
  rw [hasAddress, List.any_eq_true]
  constructor
  · rintro ⟨tail, htail, hscheme⟩
    obtain ⟨scheme, hmem, hsame⟩ := List.any_eq_true.mp hscheme
    refine ⟨tail.take scheme.length, ?_, ?_⟩
    · exact (List.take_prefix _ _).isInfix.trans ((List.mem_tails _ _).mp htail).isInfix
    · rw [beq_iff_eq.mp hsame]
      exact hmem
  · rintro ⟨part, ⟨front, back, rfl⟩, hmem⟩
    refine ⟨part ++ back, (List.mem_tails _ _).mpr ⟨front, by rw [List.append_assoc]⟩, ?_⟩
    refine List.any_eq_true.mpr ⟨_, hmem, ?_⟩
    rw [List.length_map, List.take_left]
    exact beq_self_eq_true _

theorem hasAddress_part {text part : List Char} (h : hasAddress text = false) (hpart : part <:+: text) :
    hasAddress part = false := by
  rw [Bool.eq_false_iff] at h ⊢
  intro haddress
  obtain ⟨scheme, hscheme, hmem⟩ := hasAddress_iff.mp haddress
  exact h (hasAddress_iff.mpr ⟨scheme, hscheme.trans hpart, hmem⟩)

theorem eq_slash {c : Char} (h : c.toLower = '/') : c = '/' := by
  by_cases hupper : c.val ≥ 'A'.val ∧ c.val ≤ 'Z'.val
  · have hlower : c.toLower.val = c.val + ('a'.val - 'A'.val) := congrArg Char.val (dif_pos hupper)
    have hfirst : 65 ≤ c.val.toNat := hupper.1
    have hlast : c.val.toNat ≤ 90 := hupper.2
    have hshift : ('a'.val - 'A'.val).toNat = 32 := rfl
    have hslash : (c.val + ('a'.val - 'A'.val)).toNat = 47 := by rw [← hlower, h]; rfl
    rw [UInt32.toNat_add] at hslash
    omega
  · have hsame : c.toLower = c := dif_neg hupper
    rwa [hsame] at h

/-- Pieces without a slash that end in no character of an address put none into a text. -/
theorem hasAddress_swapped {pieces : List Char → List Char → Prop} {before after : List Char}
    (hpieces : ∀ taken shown, pieces taken shown → '/' ∉ shown ∧ ∃ c ∈ shown.getLast?, c = ']' ∨ c = ' ')
    (h : Swapped pieces before after) (hbefore : hasAddress before = false) : hasAddress after = false := by
  rw [Bool.eq_false_iff] at hbefore ⊢
  intro haddress
  obtain ⟨part, hpart, hmem⟩ := hasAddress_iff.mp haddress
  apply hbefore
  apply hasAddress_iff.mpr ⟨part, ?_, hmem⟩
  apply h.part_of_after _ hpart
  intro taken shown hpiece
  obtain ⟨hslash, c, hlast, hc⟩ := hpieces taken shown hpiece
  have hends : ∀ scheme ∈ schemes, scheme.getLast? = some '/' ∧ ']' ∉ scheme ∧ ' ' ∉ scheme := by decide
  obtain ⟨hend, hbracket, hblank⟩ := hends _ hmem
  constructor
  · rw [List.getLast?_map, Option.map_eq_some_iff] at hend
    obtain ⟨d, hd, hlower⟩ := hend
    refine ⟨d, hd, ?_⟩
    have hd' : d = '/' := eq_slash hlower
    rwa [hd']
  · refine ⟨c, hlast, ?_⟩
    intro hc'
    have hlower : c.toLower ∈ part.map Char.toLower := List.mem_map.mpr ⟨c, hc', rfl⟩
    rcases hc with rfl | rfl
    · exact hbracket hlower
    · exact hblank hlower

/-! ## The masked text with single spaces -/

theorem trim_part (text : String) : (trim text).toList <:+: text.toList := by
  rw [trim, String.toList_ofList]
  obtain ⟨before, hbefore⟩ := @List.dropWhile_suffix _ text.toList isSpace
  generalize text.toList.dropWhile isSpace = front at hbefore
  obtain ⟨after, hafter⟩ := @List.dropWhile_suffix _ front.reverse isSpace
  generalize front.reverse.dropWhile isSpace = kept at hafter
  have hfront : front = kept.reverse ++ after.reverse := by rw [← List.reverse_append, hafter, List.reverse_reverse]
  exact ⟨before, after.reverse, by rw [List.append_assoc, ← hfront, hbefore]⟩

/-- What is known of the masked text with single spaces. -/
structure Plain (text : List Char) : Prop where
  single : SingleSpaced text
  trimmed : Trimmed text
  masked : ∃ whole, Masked whole ∧ text <:+: whole
  address : hasAddress text = false

theorem plain_normalized {tools : TextTools} (htools : tools.redactPII = redactPII) {text : String}
    (haddress : hasAddress text.toList = false) : Plain (normalized tools text).toList := by
  have hcollapsed : SingleSpaced (String.ofList (collapseSpaces text.toList)).toList := by
    rw [String.toList_ofList]
    exact singleSpaced_collapseSpaces _
  have hfree : hasAddress (String.ofList (collapseSpaces text.toList)).toList = false := by
    rw [String.toList_ofList]
    apply hasAddress_swapped _ (swapped_collapseSpaces text.toList).1 haddress
    rintro taken shown rfl
    exact ⟨by decide, ' ', rfl, Or.inr rfl⟩
  rw [normalized, htools]
  refine ⟨?_, trimmed_trim _, ⟨_, masked_redactPII _, trim_part _⟩, ?_⟩
  · exact (singleSpaced_redactPII hcollapsed).part (trim_part _)
  · apply hasAddress_part _ (trim_part _)
    apply @redactPII_steps (fun shown => hasAddress shown = false) _ _ hfree
    intro pieces hpieces before after hswapped
    apply hasAddress_swapped _ hswapped
    intro taken shown hpiece
    have hall : ∀ shown ∈ labels, '/' ∉ shown ∧ shown.getLast? = some ']' := by decide
    obtain ⟨hslash, hend⟩ := hall shown (hpieces taken shown hpiece).2
    exact ⟨hslash, ']', hend, Or.inl rfl⟩

end FragmentMemory.SingleSpaces
