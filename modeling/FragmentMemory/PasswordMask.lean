import FragmentMemory.PasswordFields

/-! # The mask of passwords

A masked text has matches of the password pattern only at the labels that the mask has put in, so that it stays
as it is under a further mask.
-/
namespace FragmentMemory.PasswordMask
open BacktrackingRegex BacktrackingRegex.Regex PiiRedaction PasswordFields JsString

/-! ## Texts that the mask keeps -/

/-- A masked password at the front. -/
def Labelled (text : List Char) : Prop := ∃ word rest, text = word ++ label ++ rest ∧ IsWord word ∧ Ends rest

/-- Wherever a match starts there is a masked password. -/
def Settled (text : List Char) : Prop := ∀ tail, tail <:+ text → opens tail = true → Labelled tail

theorem isField_label : IsField label :=
  ⟨[], ':', [' '], "[REDACTED_PWD]".toList, rfl, by simp, rfl, List.all_eq_true.mp (by decide), by decide,
    List.all_eq_true.mp (by decide)⟩

theorem Settled.suffix {text tail : List Char} (h : Settled text) (htail : tail <:+ text) : Settled tail :=
  fun last hlast hopens => h last (hlast.trans htail) hopens

theorem matches_nil_password : ¬ Matches password [] := by
  intro h
  have hrest : [] ∈ rests password [] := mem_rests.mpr ⟨[], rfl, h⟩
  have hnone : [] ∉ rests password [] := by decide
  exact hnone hrest

theorem redactPasswords_of_match {word field rest : List Char} (hword : IsWord word) (hfield : IsField field)
    (hends : Ends rest) :
    redactPasswords (word ++ field ++ rest) = word ++ label ++ redactPasswords rest := by
  have hfilled : word ++ field ≠ [] := by
    obtain ⟨gap, separator, pad, value, rfl, -⟩ := hfield
    simp
  rw [redactPasswords, replaceAll_of_match hfilled (head?_rests_password hword hfield hends), capturedWord_append hword]
  rfl

theorem redactPasswords_cons {c : Char} {rest : List Char} (h : opens (c :: rest) = false) :
    redactPasswords (c :: rest) = c :: redactPasswords rest := replaceAll_of_none (rests_password_of_not_opens h)

/-- Induction along the passwords of a text. -/
theorem password_induction {P : List Char → Prop} (hnil : P []) (hkeep : ∀ c rest, opens (c :: rest) = false →
    P rest → P (c :: rest))
    (hmask : ∀ word field rest, IsWord word → IsField field → Ends rest → P rest →
      P (word ++ field ++ rest)) (text : List Char) :
    P text := by
  induction text using match_induction matches_nil_password with
  | hnil => exact hnil
  | hkeep c rest hnone ih =>
    apply hkeep c rest _ ih
    by_contra hopens
    rw [Bool.not_eq_false, opens_iff] at hopens
    obtain ⟨word, field, later, htext, hword, hfield, hends⟩ := hopens
    rw [htext] at hnone
    have hfound := head?_rests_password hword hfield hends
    rw [hnone] at hfound
    cases hfound
  | hmatch matched after _ _ hfound ih =>
    obtain ⟨word, field, htext, hword, hfield, hends⟩ := match_eq hfound
    rw [htext]
    exact hmask word field after hword hfield hends ih

theorem redactPasswords_of_settled {text : List Char} (h : Settled text) : redactPasswords text = text := by
  induction text using password_induction with
  | hnil => rfl
  | hkeep c rest hopens ih => rw [redactPasswords_cons hopens, ih (h.suffix (List.suffix_cons c rest))]
  | hmask word field rest hword hfield hends ih =>
    obtain ⟨other, later, htext, hother, hends'⟩ := h _ List.suffix_rfl (opens_append hword hfield rest)
    have hsame : field ++ rest = label ++ later := by
      rw [List.append_assoc, List.append_assoc] at htext
      exact (isWord_unique hword hother htext).2
    have hfound := head?_rests_password hword hfield hends
    have hfound' := head?_rests_password hother isField_label hends'
    rw [htext, hfound', Option.some.injEq] at hfound
    rw [hfound] at hsame
    rw [redactPasswords_of_match hword hfield hends, ih (h.suffix (List.suffix_append _ _)),
      List.append_cancel_right hsame]

/-! ## Pieces that start no match -/

/-- A piece put in the place of another so that no match arises. -/
structure Harmless (taken shown : List Char) : Prop where
  value : ∀ rest, opensValue (taken ++ rest) = true
  field : ∀ rest later, opensField (shown ++ later) = true → opensField (taken ++ rest) = true
  start : ∃ c ∈ shown.head?, c.toLower ∉ passwordWords.flatten
  inside : ∀ part later, part <:+ shown → part ≠ shown → part ≠ [] → opens (part ++ later) = false

section Swaps

variable {pieces : List Char → List Char → Prop} {before after : List Char}

theorem opensValue_swapped (hpieces : ∀ taken shown, pieces taken shown → Harmless taken shown)
    (h : Swapped pieces before after) (hopens : opensValue after = true) : opensValue before = true := by
  induction h with
  | nil => exact hopens
  | keep c _ ih =>
    rw [opensValue] at hopens ⊢
    split at hopens
    · rename_i hspace
      rw [if_pos hspace]
      exact ih hopens
    · rename_i hspace
      rwa [if_neg hspace]
  | swap hpiece _ _ => exact (hpieces _ _ hpiece).value _

theorem opensField_swapped (hpieces : ∀ taken shown, pieces taken shown → Harmless taken shown)
    (h : Swapped pieces before after) (hopens : opensField after = true) : opensField before = true := by
  induction h with
  | nil => exact hopens
  | keep c h ih =>
    rw [opensField] at hopens ⊢
    split at hopens
    · rename_i hspace
      rw [if_pos hspace]
      exact ih hopens
    · rename_i hspace
      rw [Bool.and_eq_true] at hopens
      rw [if_neg hspace, Bool.and_eq_true]
      exact ⟨hopens.1, opensValue_swapped hpieces h hopens.2⟩
  | swap hpiece _ _ => exact (hpieces _ _ hpiece).field _ _ hopens

theorem startsField_swapped (hpieces : ∀ taken shown, pieces taken shown → Harmless taken shown) {word : List Char}
    (hletters : ∀ x ∈ word, x ∈ passwordWords.flatten) (h : Swapped pieces before after)
    (hstarts : startsField word after = true) : startsField word before = true := by
  induction word generalizing before after with
  | nil => exact opensField_swapped hpieces h hstarts
  | cons x word ih =>
    cases h with
    | nil => exact hstarts
    | keep c h =>
      rw [startsField, Bool.and_eq_true] at hstarts ⊢
      exact ⟨hstarts.1, ih (fun y hy => hletters y (List.mem_cons_of_mem _ hy)) h hstarts.2⟩
    | swap hpiece _ =>
      obtain ⟨c, hc, hother⟩ := (hpieces _ _ hpiece).start
      obtain ⟨more, rfl⟩ := List.head?_eq_some_iff.mp hc
      rw [List.cons_append, startsField, Bool.and_eq_true, beq_iff_eq] at hstarts
      exact absurd (hstarts.1 ▸ hletters x List.mem_cons_self) hother

theorem opens_swapped (hpieces : ∀ taken shown, pieces taken shown → Harmless taken shown)
    (h : Swapped pieces before after) (hopens : opens after = true) : opens before = true := by
  rw [opens, List.any_eq_true] at hopens ⊢
  obtain ⟨word, hword, hstarts⟩ := hopens
  exact ⟨word, hword, startsField_swapped hpieces (fun x hx => List.mem_flatten.mpr ⟨word, hword, hx⟩) h hstarts⟩

/-- Pieces of other patterns leave a settled text settled: they start neither in a masked password nor
right behind it. -/
theorem Settled.swapped (hpieces : ∀ taken shown, pieces taken shown → Harmless taken shown)
    (hstart : ∀ taken shown, pieces taken shown → ∃ c ∈ taken.head?, isValue c = true ∧ ∀ word, IsWord word →
      c ∉ word ++ label)
    (h : Swapped pieces before after) (hsettled : Settled before) : Settled after := by
  intro last hlast hopens
  rcases h.tail hlast with ⟨first, hfirst, hswapped⟩ | ⟨taken, shown, part, later, hpiece, hend, hpart, hwhole, rfl⟩
  · obtain ⟨word, rest, rfl, hword, hends⟩ := hsettled first hfirst (opens_swapped hpieces hswapped hopens)
    obtain ⟨later, rfl, hrest⟩ := hswapped.of_front fun taken shown hpiece => by
      obtain ⟨c, hc, -, hnot⟩ := hstart taken shown hpiece
      exact ⟨c, hc, hnot word hword⟩
    refine ⟨word, later, rfl, hword, ?_⟩
    cases hrest with
    | nil => exact hends
    | keep c _ => exact hends
    | swap hpiece _ =>
      obtain ⟨c, hc, hvalue, -⟩ := hstart _ _ hpiece
      obtain ⟨more, rfl⟩ := List.head?_eq_some_iff.mp hc
      rw [hends c rfl] at hvalue
      cases hvalue
  · rw [(hpieces taken shown hpiece).inside part later hpart hwhole hend] at hopens
    cases hopens

end Swaps

/-! ## The labels -/

theorem opensField_closed (part rest : List Char) : opensField (part ++ ']' :: rest) = opensField (part ++ [']']) := by
  have hvalue : ∀ part : List Char, opensValue (part ++ ']' :: rest) = opensValue (part ++ [']']) := by
    intro part
    induction part with
    | nil => rfl
    | cons c part ih => simp only [List.cons_append, opensValue, ih]
  induction part with
  | nil => rfl
  | cons c part ih => simp only [List.cons_append, opensField, ih, hvalue]

/-- A bracket ends what the recogniser reads. -/
theorem opens_closed (part rest : List Char) : opens (part ++ ']' :: rest) = opens (part ++ [']']) := by
  have hstarts : ∀ word : List Char, ']' ∉ word →
    startsField word (part ++ ']' :: rest) = startsField word (part ++ [']']) := by
    induction part with
    | nil =>
      intro word hword
      cases word with
      | nil => rfl
      | cons x word =>
        have hne : (Char.toLower ']' == x) = false := by
          rw [beq_eq_false_iff_ne]
          intro hx
          exact hword (hx ▸ List.mem_cons_self)
        simp only [List.nil_append, startsField, hne, Bool.false_and]
    | cons c part ih =>
      intro word hword
      cases word with
      | nil => exact opensField_closed (c :: part) rest
      | cons x word => simp only [List.cons_append, startsField,
        ih word fun hmem => hword (List.mem_cons_of_mem _ hmem)]
  have hletters : ∀ word ∈ passwordWords, ']' ∉ word := by decide
  simp only [opens, passwordWords, List.map_cons, List.map_nil, List.any_cons, List.any_nil]
  have hall := fun word hword => hstarts word (hletters word hword)
  simp only [passwordWords, List.map_cons, List.map_nil, List.forall_mem_cons] at hall
  rw [hall.1, hall.2.1, hall.2.2.1, hall.2.2.2.1, hall.2.2.2.2.1]

theorem not_opens_inside {shown : List Char} (hclosing : ∃ middle, shown = middle ++ [']'])
    (hcheck : ∀ part ∈ shown.tails, part ≠ shown → part ≠ [] → opens part = false) (part later : List Char)
    (hpart : part <:+ shown) (hwhole : part ≠ shown) (hfilled : part ≠ []) : opens (part ++ later) = false := by
  have hpart' := hcheck part ((List.mem_tails _ _).mpr hpart) hwhole hfilled
  obtain ⟨middle, rfl⟩ := hclosing
  rcases List.suffix_concat_iff.mp hpart with rfl | ⟨front, rfl, -⟩
  · exact absurd rfl hfilled
  · rw [List.append_assoc, List.singleton_append, opens_closed]
    exact hpart'

/-- A field and the label in its place. -/
def FieldLabelled (taken shown : List Char) : Prop := IsField taken ∧ shown = label

/-- A phone number and its label. -/
def PhoneLabelled (taken shown : List Char) : Prop := Matches phone taken ∧ shown = "[REDACTED_PHONE]".toList

theorem opensValue_separator {c : Char} (h : isSeparator c = true) (rest : List Char) :
    opensValue (c :: rest) = true := by
  rw [opensValue, if_neg (by rw [not_isSpace_of_isSeparator h]; decide)]
  rw [isSeparator, Bool.or_eq_true, beq_iff_eq, beq_iff_eq] at h
  rcases h with rfl | rfl
  · decide
  · decide

theorem harmless_field {taken shown : List Char} (h : FieldLabelled taken shown) : Harmless taken shown := by
  obtain ⟨hfield, rfl⟩ := h
  refine ⟨fun rest => ?_, fun rest _ _ => opensField_append hfield rest, ⟨':', rfl, by decide⟩, ?_⟩
  · obtain ⟨gap, separator, pad, value, rfl, hgap, hseparator, -⟩ := hfield
    have hgaps : ∀ gap : List Char, (∀ c ∈ gap, isSpace c = true) →
      ∀ text, opensValue (gap ++ text) = opensValue text := by
      intro gap hgap text
      induction gap with
      | nil => rfl
      | cons c gap ih =>
        rw [List.cons_append, opensValue, if_pos (hgap c List.mem_cons_self)]
        exact ih fun x hx => hgap x (List.mem_cons_of_mem _ hx)
    rw [List.append_assoc, hgaps gap hgap, List.cons_append]
    exact opensValue_separator hseparator _
  · exact not_opens_inside ⟨": [REDACTED_PWD".toList, rfl⟩ (by decide)

theorem head?_phone {matched : List Char} (h : Matches phone matched) : ∃ rest, matched = '0' :: rest := by
  obtain ⟨front, back, rfl, ⟨_, _, rfl, ⟨c, rfl, hc⟩, -⟩, -⟩ := h
  exact ⟨_, by rw [beq_iff_eq.mp hc]; rfl⟩

theorem harmless_phone {taken shown : List Char} (h : PhoneLabelled taken shown) : Harmless taken shown := by
  obtain ⟨hphone, rfl⟩ := h
  obtain ⟨more, rfl⟩ := head?_phone hphone
  refine ⟨fun rest => ?_, fun rest later hopens => ?_, ⟨'[', rfl, by decide⟩, ?_⟩
  · rfl
  · cases hopens
  · exact not_opens_inside ⟨"[REDACTED_PHONE".toList, rfl⟩ (by decide)

theorem swapped_redactPasswords (text : List Char) : Swapped FieldLabelled text (redactPasswords text) := by
  induction text using password_induction with
  | hnil => exact .nil
  | hkeep c rest hopens ih =>
    rw [redactPasswords_cons hopens]
    exact ih.keep c
  | hmask word field rest hword hfield hends ih =>
    rw [redactPasswords_of_match hword hfield hends, List.append_assoc, List.append_assoc]
    exact (Swapped.swap ⟨hfield, rfl⟩ ih).append_left word

theorem swapped_redactPhones (text : List Char) : Swapped PhoneLabelled text (redactPhones text) := by
  have hempty : ¬ Matches phone [] := by
    intro h
    obtain ⟨rest, hrest⟩ := head?_phone h
    cases hrest
  exact .of_replaceAll hempty (fun matched hmatched before after h => .swap ⟨hmatched, rfl⟩ h) text

theorem toLower_of_not_isValue {c : Char} (h : isValue c = false) : c.toLower = c := by
  by_cases hupper : c.val ≥ 'A'.val ∧ c.val ≤ 'Z'.val
  · have hfirst : 65 ≤ c.toNat := hupper.1
    have hlast : c.toNat ≤ 90 := hupper.2
    have hspace : isSpace c = false := by
      simp only [isSpace, Bool.or_eq_false_iff, Bool.and_eq_false_iff, decide_eq_false_iff_not]
      omega
    have hcomma : c ≠ ',' := by
      rintro rfl
      revert hfirst
      decide
    rw [isValue, hspace, bne_iff_ne.mpr hcomma] at h
    cases h
  · exact dif_neg hupper

theorem not_isValue_start {c : Char} (h : isValue c = false) (rest : List Char) : opens (c :: rest) = false := by
  by_contra hopens
  rw [Bool.not_eq_false, opens_iff] at hopens
  obtain ⟨word, field, later, htext, hword, -⟩ := hopens
  have hwords : ∀ lower ∈ passwordWords, lower ≠ [] := by decide
  have hletters := forall_words (p := isValue) (by decide)
  cases word with
  | nil => exact hwords _ hword rfl
  | cons first word =>
    obtain ⟨rfl, -⟩ := List.cons.inj htext
    have hvalue := hletters _ hword c.toLower List.mem_cons_self
    rw [toLower_of_not_isValue h, h] at hvalue
    cases hvalue

theorem ends_redactPasswords {text : List Char} (h : Ends text) : Ends (redactPasswords text) := by
  cases text with
  | nil => exact h
  | cons c rest =>
    have hvalue : isValue c = false := h c rfl
    rw [redactPasswords_cons (not_isValue_start hvalue rest)]
    intro x hx
    rw [← Option.some.inj hx]
    exact hvalue

theorem not_isWord_infix {word other : List Char} (hword : IsWord word) (hother : IsWord other)
    (hpart : other <:+: word) :
    other.length = word.length := by
  have hsame : ∀ a ∈ passwordWords, ∀ b ∈ passwordWords, a <:+: b → a = b := by decide
  rw [← List.length_map Char.toLower, hsame _ hother _ hword (hpart.map Char.toLower), List.length_map]

/-- Inside a masked password no other starts. -/
theorem not_opens_inside_labelled {word : List Char} (hword : IsWord word) (part later : List Char)
    (hpart : part <:+ word ++ label) (hwhole : part ≠ word ++ label) (hfilled : part ≠ []) :
    opens (part ++ later) = false := by
  obtain ⟨skipped, hskipped⟩ := hpart
  rcases List.append_eq_append_iff.mp hskipped with ⟨front, hsplit, rfl⟩ | ⟨more, -, hlabel⟩
  · by_contra hopens
    rw [Bool.not_eq_false, opens_iff] at hopens
    obtain ⟨other, field, rest, htext, hother, -⟩ := hopens
    rw [List.append_assoc, List.append_assoc] at htext
    have hfront : other <+: front := by
      rcases List.append_eq_append_iff.mp htext with ⟨more, hmore, hcolon⟩ | ⟨more, rfl, -⟩
      · cases more with
        | nil =>
          rw [List.append_nil] at hmore
          rw [hmore]
        | cons c more =>
          obtain ⟨rfl, -⟩ := List.cons.inj hcolon
          have hletters : ∀ lower ∈ passwordWords, ':' ∉ lower := by decide
          refine absurd (List.mem_map.mpr ⟨':', ?_, rfl⟩) (hletters _ hother)
          rw [hmore]
          exact List.mem_append_right _ List.mem_cons_self
      · exact List.prefix_append _ _
    have hlength := not_isWord_infix hword hother (hfront.isInfix.trans (List.IsSuffix.isInfix ⟨skipped, hsplit.symm⟩))
    have hshort := hfront.length_le
    rw [hsplit, List.length_append] at hlength
    have hnone : skipped = [] := List.eq_nil_of_length_eq_zero (by omega)
    rw [hnone, List.nil_append] at hsplit
    rw [hsplit] at hwhole
    exact hwhole rfl
  · have hcheck : ∀ part ∈ label.tails, part ≠ [] → opens part = false := by decide
    have hsuffix : part <:+ label := ⟨more, hlabel.symm⟩
    have hpart := hcheck part ((List.mem_tails _ _).mpr hsuffix) hfilled
    have hclosing : label = ": [REDACTED_PWD".toList ++ [']'] := rfl
    rw [hclosing] at hsuffix
    rcases List.suffix_concat_iff.mp hsuffix with rfl | ⟨front, rfl, -⟩
    · exact absurd rfl hfilled
    · rw [List.append_assoc, List.singleton_append, opens_closed]
      exact hpart

/-- The masked text is settled. -/
theorem settled_redactPasswords (text : List Char) : Settled (redactPasswords text) := by
  induction text using password_induction with
  | hnil =>
    intro tail htail hopens
    rw [List.suffix_nil.mp htail] at hopens
    cases hopens
  | hkeep c rest hopens ih =>
    rw [redactPasswords_cons hopens]
    intro tail htail hopens'
    rcases List.suffix_cons_iff.mp htail with rfl | hlater
    · have hswapped := (swapped_redactPasswords rest).keep c
      rw [opens_swapped (fun _ _ => harmless_field) hswapped hopens'] at hopens
      cases hopens
    · exact ih tail hlater hopens'
  | hmask word field rest hword hfield hends ih =>
    rw [redactPasswords_of_match hword hfield hends]
    rintro tail ⟨skipped, hskipped⟩ hopens
    rcases List.append_eq_append_iff.mp hskipped with ⟨part, hpart, rfl⟩ | ⟨more, -, hrest⟩
    · by_cases hwhole : part = word ++ label
      · exact ⟨word, _, by rw [hwhole], hword, ends_redactPasswords hends⟩
      · by_cases hend : part = []
        · rw [hend, List.nil_append] at hopens ⊢
          exact ih _ List.suffix_rfl hopens
        · rw [not_opens_inside_labelled hword part _ ⟨skipped, hpart.symm⟩ hwhole hend] at hopens
          cases hopens
    · exact ih tail ⟨more, hrest.symm⟩ hopens

theorem settled_redactPhones {text : List Char} (h : Settled text) : Settled (redactPhones text) := by
  apply h.swapped (fun _ _ => harmless_phone) _ (swapped_redactPhones text)
  rintro taken shown ⟨hphone, -⟩
  obtain ⟨more, rfl⟩ := head?_phone hphone
  refine ⟨'0', rfl, by decide, fun word hword hmem => ?_⟩
  have hletters : ∀ lower ∈ passwordWords, '0' ∉ lower := by decide
  rcases List.mem_append.mp hmem with hword' | hlabel
  · exact hletters _ hword (List.mem_map.mpr ⟨'0', hword', rfl⟩)
  · revert hlabel
    decide

/-- A masked text. -/
structure Masked (text : List Char) : Prop where
  clean : ∀ r ∈ secrets, r.Free text
  settled : Settled text

theorem masked_redactPII (text : String) : Masked (redactPII text).toList where
  clean := clean_redactPII text
  settled := by
    rw [redactPII, String.toList_ofList]
    exact settled_redactPhones (settled_redactPasswords _)

theorem redactPII_of_clean {text : String} (h : ∀ r ∈ secrets, r.Free text.toList) :
    (redactPII text).toList = redactPasswords text.toList := by
  have hpasswords : ∀ r ∈ secrets, ∀ text, r.Free text → r.Free (redactPasswords text) :=
    fun r hr text hfree => hfree.replaceAll fun matched _ => screens_password hr matched
  have hphone : phone.Free (redactPasswords text.toList) :=
    hpasswords phone (by simp [secrets]) _ (h phone (by simp [secrets]))
  rw [redactPII, String.toList_ofList, redactApiKeys, replaceAll_of_free (h apiKey (by simp [secrets])), redactEmails,
    replaceAll_of_free (h email (by simp [secrets])), redactPhones, replaceAll_of_free hphone]

/-- A masked text is kept by the mask. -/
theorem redactPII_of_masked {text : String} (h : Masked text.toList) : redactPII text = text := by
  rw [← String.toList_inj, redactPII_of_clean h.clean, redactPasswords_of_settled h.settled]

theorem redactPII_redactPII (text : String) : redactPII (redactPII text) = redactPII text :=
  redactPII_of_masked (masked_redactPII text)

end FragmentMemory.PasswordMask
