import FragmentMemory.CutMask
import FragmentMemory.TrimmedText

/-! # Masked and stored texts

The mask leaves the ends of a text without spaces.  A content that has been cut is masked and cut to itself
unless the cut leaves a password field that is no front of a masked one.
-/
namespace FragmentMemory.MaskedTexts
open FragmentTables FragmentFactory BacktrackingRegex BacktrackingRegex.Regex PiiRedaction PasswordFields PasswordMask CutMask JsString

def dots : List Char := "...".toList

/-- A password field that runs to the end of the cut is a proper front of a masked password. -/
def neatCut (cut : List Char) : Bool :=
  match trailing dots cut with
  | none => true
  | some tail => tail.isPrefixOf (capturedWord tail ++ label) && tail != capturedWord tail ++ label

def lengthLimit (type : Option FragmentType) : ℕ :=
  if type = some .episode then maxEpisodeFragmentLength else maxFragmentLength

/-! ## The edges of a masked text -/

theorem swapped_label {r : Regex} (hempty : ¬ Matches r []) (shown text : List Char) :
    Swapped (fun taken given => taken ≠ [] ∧ given = shown) text (r.replaceAll (fun _ => shown) text) := by
  apply Swapped.of_replaceAll hempty
  intro matched hmatched before after h
  refine .swap ⟨?_, rfl⟩ h
  rintro rfl
  exact hempty hmatched

theorem secret_filled {r : Regex} (hr : r ∈ secrets) : ¬ Matches r [] := by
  intro h
  have hrest : [] ∈ rests r [] := mem_rests.mpr ⟨[], rfl, h⟩
  have hnone : ∀ r ∈ secrets, [] ∉ rests r [] := by decide
  exact hnone r hr hrest

/-- A text with pieces whose ends are no spaces stays without spaces at its ends. -/
theorem trimmed_swapped {pieces : List Char → List Char → Prop} {before after : List Char}
    (hpieces : ∀ taken shown, pieces taken shown → taken ≠ [] ∧ shown ≠ [] ∧ Trimmed shown)
    (h : Swapped pieces before after) (hbefore : Trimmed before) : Trimmed after where
  first := by
    apply h.head? _ hbefore.first
    intro taken shown hpiece
    obtain ⟨-, hfilled, hshown⟩ := hpieces taken shown hpiece
    obtain ⟨c, rest, rfl⟩ := List.exists_cons_of_ne_nil hfilled
    exact ⟨c, rfl, hshown.first c rfl⟩
  last := by
    apply h.getLast? (fun taken shown hpiece => ⟨(hpieces taken shown hpiece).1, (hpieces taken shown hpiece).2.1⟩) _ hbefore.last
    intro taken shown hpiece
    exact (hpieces taken shown hpiece).2.2.last

theorem trimmed_label {shown : List Char} (h : shown ∈ labels) : shown ≠ [] ∧ Trimmed shown := by
  have hends : ∀ shown ∈ labels, shown ≠ [] ∧ shown.head?.any isSpace = false ∧ shown.getLast?.any isSpace = false := by
    decide
  obtain ⟨hfilled, hfirst, hlast⟩ := hends shown h
  exact ⟨hfilled, (Option.any_eq_false _ _).mp hfirst, (Option.any_eq_false _ _).mp hlast⟩

theorem label_mem_labels : label ∈ labels := by decide

/-- The four steps of the mask, each of which puts labels in the place of pieces. -/
theorem redactPII_steps {P : List Char → Prop}
    (hstep : ∀ pieces : List Char → List Char → Prop, (∀ taken shown, pieces taken shown → taken ≠ [] ∧
      shown ∈ labels) →
      ∀ before after, Swapped pieces before after → P before → P after) (text : String) (h : P text.toList) :
    P (redactPII text).toList := by
  have hlabelled : ∀ r ∈ secrets, ∀ shown ∈ labels, ∀ text, P text → P (r.replaceAll (fun _ => shown) text) := by
    intro r hr shown hshown text
    apply hstep _ _ _ _ (swapped_label (secret_filled hr) shown text)
    rintro taken given ⟨htaken, rfl⟩
    exact ⟨htaken, hshown⟩
  have hpasswords : ∀ text, P text → P (redactPasswords text) := by
    intro text
    apply hstep _ _ _ _ (swapped_redactPasswords text)
    rintro taken shown ⟨⟨gap, separator, pad, value, rfl, -⟩, rfl⟩
    exact ⟨by simp, label_mem_labels⟩
  rw [redactPII, String.toList_ofList]
  apply hlabelled phone (by simp [secrets]) _ (by simp [labels])
  apply hpasswords
  apply hlabelled email (by simp [secrets]) _ (by simp [labels])
  exact hlabelled apiKey (by simp [secrets]) _ (by simp [labels]) _ h

theorem trimmed_redactPII {text : String} (h : Trimmed text.toList) : Trimmed (redactPII text).toList := by
  apply redactPII_steps _ text h
  intro pieces hpieces before after hswapped
  apply trimmed_swapped _ hswapped
  intro taken shown hpiece
  obtain ⟨htaken, hshown⟩ := hpieces taken shown hpiece
  exact ⟨htaken, trimmed_label hshown⟩

/-- A text is kept by the mask, or it contains a label. -/
theorem redactPII_eq_or_long (text : String) : redactPII text = text ∨ 10 ≤ utf16Length (redactPII text) := by
  have hlength : ∀ shown ∈ labels, 10 ≤ shown.length := by decide
  have hsteps : (redactPII text).toList = text.toList ∨ 10 ≤ (redactPII text).toList.length := by
    apply @redactPII_steps (fun shown => shown = text.toList ∨ 10 ≤ shown.length) _ text (Or.inl rfl)
    intro pieces hpieces before after hswapped hbefore
    rcases hswapped.eq_or_shown with rfl | ⟨taken, shown, hpiece, hshown⟩
    · exact hbefore
    · exact Or.inr ((hlength shown (hpieces taken shown hpiece).2).trans hshown.length_le)
  rcases hsteps with hsame | hlong
  · exact Or.inl (String.toList_inj.mp hsame)
  · exact Or.inr (hlong.trans (length_le_unitCount _))

/-! ## The cut of a masked text -/

/-- The replacement of a split pair in the place of the pair. -/
def PairSplit (taken shown : List Char) : Prop := ∃ c : Char, taken = [c] ∧ 0x10000 ≤ c.toNat ∧ shown = [Char.ofNat 0xFFFD]

theorem isValue_of_pair {c : Char} (h : 0x10000 ≤ c.toNat) : isValue c = true := by
  have hspace : isSpace c = false := by
    simp only [isSpace, Bool.or_eq_false_iff, Bool.and_eq_false_iff, decide_eq_false_iff_not]
    omega
  have hcomma : c ≠ ',' := by
    rintro rfl
    revert h
    decide
  rw [isValue, hspace, bne_iff_ne.mpr hcomma]
  rfl

theorem toLower_of_pair {c : Char} (h : 0x10000 ≤ c.toNat) : c.toLower = c := by
  apply dif_neg
  rintro ⟨-, hupper⟩
  have hlast : c.toNat ≤ 90 := hupper
  omega

theorem harmless_pair {taken shown : List Char} (h : PairSplit taken shown) : Harmless taken shown := by
  obtain ⟨c, rfl, hpair, rfl⟩ := h
  refine ⟨fun rest => ?_, fun rest later hopens => ?_, ⟨_, rfl, by decide⟩, fun part later hpart hwhole hfilled => ?_⟩
  · have hvalue := isValue_of_pair hpair
    rw [List.singleton_append, opensValue, if_neg (by rw [not_isSpace_of_isValue hvalue]; decide)]
    exact hvalue
  · have hquiet : ∀ later, opensField (Char.ofNat 0xFFFD :: later) = false := fun later => rfl
    rw [List.singleton_append, hquiet] at hopens
    cases hopens
  · rcases List.suffix_cons_iff.mp hpart with rfl | hnil
    · exact absurd rfl hwhole
    · exact absurd (List.suffix_nil.mp hnil) hfilled

theorem basic_of_isWord {word : List Char} (hword : IsWord word) : ∀ c ∈ word ++ label, c.toNat < 0x10000 := by
  have hletters := forall_words (p := fun x => decide (x.toNat < 0x10000)) (by decide)
  have hlabel : (label.all fun x => decide (x.toNat < 0x10000)) = true := by decide
  intro c hc
  rcases List.mem_append.mp hc with hword' | hlabel'
  · by_contra hpair
    have hlower := of_decide_eq_true (hletters _ hword c.toLower (List.mem_map_of_mem hword'))
    rw [toLower_of_pair (by omega)] at hlower
    exact hpair hlower
  · exact of_decide_eq_true (List.all_eq_true.mp hlabel c hlabel')

/-- A cut of a settled text is a front of a settled text. -/
theorem settled_clipChars {text : List Char} (h : Settled text) (units : ℕ) :
    ∃ whole, Settled whole ∧ clipChars units text <+: whole := by
  rcases clipChars_cases units text with hfront | ⟨front, c, rest, rfl, hpair, hclip⟩
  · exact ⟨text, h, hfront⟩
  · refine ⟨front ++ (Char.ofNat 0xFFFD :: rest), ?_, ?_⟩
    · have hkept : ∀ text : List Char, Swapped PairSplit text text := fun text => by
        induction text with
        | nil => exact .nil
        | cons c rest ih => exact ih.keep c
      have hswapped : Swapped PairSplit (front ++ ([c] ++ rest)) (front ++ ([Char.ofNat 0xFFFD] ++ rest)) :=
        (Swapped.swap ⟨c, rfl, hpair, rfl⟩ (hkept rest)).append_left front
      apply Settled.swapped (fun _ _ => harmless_pair) _ hswapped h
      rintro taken shown ⟨d, rfl, hd, rfl⟩
      refine ⟨d, rfl, isValue_of_pair hd, fun word hword hmem => ?_⟩
      have hbasic := basic_of_isWord hword d hmem
      omega
    · rw [hclip]
      exact ⟨rest, by simp⟩

theorem clipChars_basic {text : List Char} (h : ∀ c ∈ text, c.toNat < 0x10000) (units : ℕ) :
    clipChars units text = text.take units := by
  induction text generalizing units with
  | nil => cases units <;> simp [clipChars]
  | cons c rest ih =>
    cases units with
    | zero => rw [clipChars_zero, List.take_zero]
    | succ units =>
      have hbasic := h c List.mem_cons_self
      rw [clipChars.eq_def]
      simp only [hbasic, if_true]
      rw [ih (fun x hx => h x (List.mem_cons_of_mem _ hx)), List.take_succ_cons]

theorem eq_dot_of_mem_dots {c : Char} (h : c ∈ dots) : c = '.' := by
  have hsame : dots = List.replicate 3 '.' := by decide
  rw [hsame] at h
  exact List.eq_of_mem_replicate h

theorem isWord_of_runsOut {tail : List Char} (h : runsOut dots tail = true) :
    ∃ word more, tail = word ++ more ∧ IsWord word ∧ capturedWord (tail ++ dots) = word ∧ capturedWord tail = word := by
  obtain ⟨word, field, htext, hword, -⟩ := match_of_runsOut h
  have hletters : ∀ lower ∈ passwordWords, '.' ∉ lower := by decide
  rcases List.append_eq_append_iff.mp htext with ⟨more, hmore, hdots⟩ | ⟨more, rfl, -⟩
  · cases more with
    | nil =>
      rw [List.append_nil] at hmore
      refine ⟨word, [], by rw [hmore, List.append_nil], hword, ?_, ?_⟩
      · rw [htext, capturedWord_append hword]
      · have hcaptured := capturedWord_append hword []
        rw [List.append_nil] at hcaptured
        rwa [← hmore]
    | cons c more =>
      have hdot : c = '.' := eq_dot_of_mem_dots (by rw [hdots]; simp)
      refine absurd (List.mem_map.mpr ⟨'.', ?_, rfl⟩) (hletters _ hword)
      rw [hmore, hdot]
      simp
  · exact ⟨word, more, rfl, hword, by rw [htext, capturedWord_append hword], capturedWord_append hword more⟩

/-! ## The content -/

theorem unitCount_clipChars {text : List Char} {units : ℕ} (h : units ≤ unitCount text) :
    unitCount (clipChars units text) = units := sum_clipChars units text h

/-- The cut with its dots is masked and cut to itself exactly when the cut is neat. -/
theorem cut_again_iff {text : List Char} (hmasked : Masked text) {units : ℕ} (hlong : units < unitCount text) :
    (if units < unitCount (redactPasswords (clipChars units text ++ dots))
      then clipChars units (redactPasswords (clipChars units text ++ dots)) ++ dots
      else redactPasswords (clipChars units text ++ dots)) = clipChars units text ++ dots ↔
    neatCut (clipChars units text) = true := by
  obtain ⟨whole, hsettled, hcut⟩ := settled_clipChars hmasked.settled units
  have hunits := unitCount_clipChars hlong.le
  generalize clipChars units text = cut at hcut hunits ⊢
  subst hunits
  have hdots : ∀ c ∈ dots, c = '.' := fun _ => eq_dot_of_mem_dots
  rcases redactPasswords_cut hsettled hcut hdots with ⟨hnone, hkept⟩ | ⟨front, tail, hsome, rfl, hruns, hmask⟩
  · have hlonger : unitCount cut < unitCount (cut ++ dots) := by
      rw [unitCount_append]
      have hthree : unitCount dots = 3 := by decide
      omega
    have hneat : neatCut cut = true := by rw [neatCut, hnone]
    rw [hkept, if_pos hlonger, clipChars_self]
    exact ⟨fun _ => hneat, fun _ => rfl⟩
  · obtain ⟨word, more, hsplit, hword, hcaptured, hcaptured'⟩ := isWord_of_runsOut hruns
    have hneat : neatCut (front ++ tail) = true ↔ tail <+: word ++ label ∧ tail ≠ word ++ label := by
      rw [neatCut, hsome]
      simp only [hcaptured', Bool.and_eq_true, List.isPrefixOf_iff_prefix, bne_iff_ne, ne_eq]
    rw [hmask, hcaptured, hneat, List.append_assoc, unitCount_append, unitCount_append]
    constructor
    · intro hsame
      split at hsame
      · rename_i hcut'
        have hclip := List.append_cancel_right hsame
        rw [clipChars_append, clipChars_basic (basic_of_isWord hword)] at hclip
        have htake := List.append_cancel_left hclip
        refine ⟨⟨_, by rw [← htake]; exact List.take_append_drop _ _⟩, ?_⟩
        intro hwhole
        rw [hwhole] at hcut'
        omega
      · have hlast := congrArg List.getLast? hsame
        have hbracket : (front ++ (word ++ label)).getLast? = some ']' := by
          rw [← List.append_assoc, List.getLast?_append_of_ne_nil _ (by decide)]
          decide
        have hdifferent : some ']' ≠ dots.getLast? := by decide
        rw [hbracket, List.getLast?_append_of_ne_nil _ (by decide)] at hlast
        exact absurd hlast hdifferent
    · rintro ⟨⟨later, hlater⟩, hproper⟩
      have hfilled : later ≠ [] := by
        rintro rfl
        rw [List.append_nil] at hlater
        exact hproper hlater
      have hpositive := List.length_pos_iff.mpr hfilled
      have hcount := length_le_unitCount later
      rw [← hlater, unitCount_append, if_pos (by omega), ← unitCount_append, ← List.append_assoc, clipChars_self]

example : neatCut "pwd: [REDACTED".toList ∧ ¬ neatCut "pwd: [REDACTED_PWD]".toList ∧ ¬ neatCut "pwd =".toList := by
  decide

theorem lengthLimit_getD (type : Option FragmentType) : lengthLimit (some (type.getD .fact)) = lengthLimit type := by
  cases type with
  | none => rfl
  | some type => rfl

variable {tools : TextTools}

theorem storedContent_eq (htools : tools.redactPII = redactPII) (raw : String) (type : Option FragmentType) :
    (storedContent tools raw type).toList =
      if lengthLimit type < utf16Length (redactPII raw) then clipChars (lengthLimit type) (redactPII raw).toList ++ dots
      else (redactPII raw).toList := by
  have hstored : storedContent tools raw type =
      if lengthLimit type < utf16Length (redactPII raw) then clip (redactPII raw) (lengthLimit type) ++ "..."
      else redactPII raw := by
    rw [storedContent, htools, lengthLimit]
  rw [hstored]
  by_cases hlong : lengthLimit type < utf16Length (redactPII raw)
  · rw [if_pos hlong, if_pos hlong, String.toList_append, clip, String.toList_ofList, dots]
  · rw [if_neg hlong, if_neg hlong]

/-- The content of a fragment is the content of its second creation, given that its cut is neat. -/
theorem storedContent_again_iff (htools : tools.redactPII = redactPII) (raw : String) (type : Option FragmentType) :
    storedContent tools (storedContent tools raw type) (some (type.getD .fact)) = storedContent tools raw type ↔
      (lengthLimit type < utf16Length (redactPII raw) →
        neatCut (clipChars (lengthLimit type) (redactPII raw).toList) = true) := by
  have hmasked := masked_redactPII raw
  have hclean : Clean (storedContent tools raw type) := clean_storedContent htools raw type
  have hcontent := storedContent_eq htools raw type
  rw [← String.toList_inj, storedContent_eq htools, lengthLimit_getD, utf16Length_eq, redactPII_of_clean hclean]
  by_cases hlong : lengthLimit type < utf16Length (redactPII raw)
  · rw [if_pos hlong] at hcontent
    rw [hcontent, cut_again_iff hmasked hlong]
    simp only [hlong, true_implies]
  · rw [if_neg hlong] at hcontent
    rw [hcontent, redactPasswords_of_settled hmasked.settled, ← utf16Length_eq, if_neg hlong]
    simp only [hlong, false_implies]

end FragmentMemory.MaskedTexts
