import FragmentMemory.PiiRedaction
import FragmentMemory.RegexReplacement
import Mathlib.Data.List.TakeWhile

/-! # The fields of the password pattern

Where a match of the pattern starts is read off by a recogniser, and the engine takes the word and the whole
field behind it.
-/
namespace FragmentMemory.PasswordFields
open BacktrackingRegex BacktrackingRegex.Regex PiiRedaction JsString

/-- `[^\s,]`. -/
def isValue (c : Char) : Bool := !isSpace c && c != ','

def isSeparator (c : Char) : Bool := c == ':' || c == '='

/-- `\s*[^\s,]` at the front of a text. -/
def opensValue : List Char → Bool
  | [] => false
  | c :: rest => if isSpace c then opensValue rest else isValue c

/-- `\s*[:=]\s*[^\s,]` at the front of a text. -/
def opensField : List Char → Bool
  | [] => false
  | c :: rest => if isSpace c then opensField rest else isSeparator c && opensValue rest

/-- A given word, in any letter case, and a field behind it. -/
def startsField : List Char → List Char → Bool
  | [], text => opensField text
  | _ :: _, [] => false
  | x :: word, c :: rest => c.toLower == x && startsField word rest

/-- A match of the pattern starts at the front of the text. -/
def opens (text : List Char) : Bool := passwordWords.any fun word => startsField word text

def label : List Char := ": [REDACTED_PWD]".toList

def IsWord (word : List Char) : Prop := word.map Char.toLower ∈ passwordWords

/-- A separator with spaces around it, and a value. -/
def IsField (field : List Char) : Prop :=
  ∃ gap separator pad value, field = gap ++ separator :: (pad ++ value) ∧ (∀ c ∈ gap, isSpace c = true) ∧
    isSeparator separator = true ∧ (∀ c ∈ pad, isSpace c = true) ∧ value ≠ [] ∧ ∀ c ∈ value, isValue c = true

/-- A value does not go on into the text. -/
def Ends (text : List Char) : Prop := ∀ c ∈ text.head?, isValue c = false

theorem not_isSpace_of_isSeparator {c : Char} (h : isSeparator c = true) : isSpace c = false := by
  rw [isSeparator, Bool.or_eq_true, beq_iff_eq, beq_iff_eq] at h
  rcases h with rfl | rfl
  · decide
  · decide

theorem not_isSpace_of_isValue {c : Char} (h : isValue c = true) : isSpace c = false := by
  rw [isValue, Bool.and_eq_true, Bool.not_eq_true'] at h
  exact h.1

theorem forall_words {p : Char → Bool} (h : (passwordWords.all fun word => word.all p) = true) :
    ∀ word ∈ passwordWords, ∀ c ∈ word, p c = true := by
  intro word hword
  exact List.all_eq_true.mp (List.all_eq_true.mp h word hword)

/-! ## The recogniser -/

theorem ends_dropWhile (text : List Char) : Ends (text.dropWhile isValue) := by
  intro c hc
  have hstop := List.head?_dropWhile_not isValue text
  rw [Option.mem_def.mp hc] at hstop
  simpa using hstop

theorem opensValue_iff {text : List Char} :
    opensValue text = true ↔ ∃ pad value rest, text = pad ++ value ++ rest ∧ (∀ c ∈ pad, isSpace c = true) ∧
      value ≠ [] ∧ (∀ c ∈ value, isValue c = true) ∧ Ends rest := by
  induction text with
  | nil =>
    constructor
    · intro h
      cases h
    · rintro ⟨pad, value, rest, htext, -, hfilled, -, -⟩
      have hvalue := (List.append_eq_nil_iff.mp (List.append_eq_nil_iff.mp htext.symm).1).2
      exact absurd hvalue hfilled
  | cons c later ih =>
    rw [opensValue]
    by_cases hspace : isSpace c = true
    · rw [if_pos hspace, ih]
      constructor
      · rintro ⟨pad, value, rest, rfl, hpad, hvalue⟩
        exact ⟨c :: pad, value, rest, rfl, List.forall_mem_cons.mpr ⟨hspace, hpad⟩, hvalue⟩
      · rintro ⟨pad, value, rest, htext, hpad, hfilled, hvalue, hends⟩
        cases pad with
        | nil =>
          obtain ⟨first, more, rfl⟩ := List.exists_cons_of_ne_nil hfilled
          obtain ⟨rfl, -⟩ := List.cons.inj htext
          rw [not_isSpace_of_isValue (hvalue c List.mem_cons_self)] at hspace
          cases hspace
        | cons first pad =>
          obtain ⟨-, rfl⟩ := List.cons.inj htext
          exact ⟨pad, value, rest, rfl, (List.forall_mem_cons.mp hpad).2, hfilled, hvalue, hends⟩
    · rw [if_neg hspace]
      constructor
      · intro hvalue
        refine ⟨[], c :: later.takeWhile isValue, later.dropWhile isValue, ?_, by simp, List.cons_ne_nil _ _, ?_, ?_⟩
        · rw [List.nil_append, List.cons_append, List.takeWhile_append_dropWhile]
        · exact List.forall_mem_cons.mpr ⟨hvalue, fun x hx => List.mem_takeWhile_imp hx⟩
        · intro x hx
          have hstop := List.head?_dropWhile_not isValue later
          rw [Option.mem_def.mp hx] at hstop
          simpa using hstop
      · rintro ⟨pad, value, rest, htext, hpad, hfilled, hvalue, -⟩
        cases pad with
        | nil =>
          obtain ⟨first, more, rfl⟩ := List.exists_cons_of_ne_nil hfilled
          obtain ⟨rfl, -⟩ := List.cons.inj htext
          exact hvalue c List.mem_cons_self
        | cons first pad =>
          obtain ⟨rfl, -⟩ := List.cons.inj htext
          exact absurd (hpad c List.mem_cons_self) hspace

theorem opensField_iff {text : List Char} :
    opensField text = true ↔ ∃ field rest, text = field ++ rest ∧ IsField field ∧ Ends rest := by
  induction text with
  | nil =>
    constructor
    · intro h
      cases h
    · rintro ⟨field, rest, htext, ⟨gap, separator, pad, value, rfl, -⟩, -⟩
      simp at htext
  | cons c later ih =>
    rw [opensField]
    by_cases hspace : isSpace c = true
    · rw [if_pos hspace, ih]
      constructor
      · rintro ⟨field, rest, rfl, ⟨gap, separator, pad, value, rfl, hgap, hfield⟩, hends⟩
        exact ⟨_, rest, rfl, ⟨c :: gap, separator, pad, value, rfl, List.forall_mem_cons.mpr ⟨hspace, hgap⟩, hfield⟩,
          hends⟩
      · rintro ⟨field, rest, htext, ⟨gap, separator, pad, value, rfl, hgap, hseparator, hfield⟩, hends⟩
        cases gap with
        | nil =>
          obtain ⟨rfl, -⟩ := List.cons.inj htext
          rw [not_isSpace_of_isSeparator hseparator] at hspace
          cases hspace
        | cons first gap =>
          obtain ⟨-, rfl⟩ := List.cons.inj htext
          exact ⟨_, rest, rfl,
            ⟨gap, separator, pad, value, rfl, (List.forall_mem_cons.mp hgap).2, hseparator, hfield⟩, hends⟩
    · rw [if_neg hspace, Bool.and_eq_true, opensValue_iff]
      constructor
      · rintro ⟨hseparator, pad, value, rest, rfl, hpad, hfilled, hvalue, hends⟩
        exact ⟨c :: (pad ++ value), rest, rfl,
          ⟨[], c, pad, value, rfl, by simp, hseparator, hpad, hfilled, hvalue⟩, hends⟩
      · rintro ⟨field, rest, htext, ⟨gap, separator, pad, value, rfl, hgap, hseparator, hpad, hfilled, hvalue⟩, hends⟩
        cases gap with
        | nil =>
          obtain ⟨rfl, rfl⟩ := List.cons.inj htext
          exact ⟨hseparator, pad, value, rest, rfl, hpad, hfilled, hvalue, hends⟩
        | cons first gap =>
          obtain ⟨rfl, -⟩ := List.cons.inj htext
          exact absurd (hgap c List.mem_cons_self) hspace

theorem opensField_append {field : List Char} (h : IsField field) (rest : List Char) :
    opensField (field ++ rest) = true := by
  obtain ⟨gap, separator, pad, value, rfl, hgap, hseparator, hpad, hfilled, hvalue⟩ := h
  refine opensField_iff.mpr ⟨gap ++ separator :: (pad ++ (value ++ rest.takeWhile isValue)), rest.dropWhile isValue, ?_,
    ⟨gap, separator, pad, _, rfl, hgap, hseparator, hpad, by simp [hfilled], ?_⟩, ends_dropWhile rest⟩
  · simp only [List.append_assoc, List.cons_append, List.takeWhile_append_dropWhile]
  · intro c hc
    rcases List.mem_append.mp hc with hvalue' | hmore
    · exact hvalue c hvalue'
    · exact List.mem_takeWhile_imp hmore

theorem startsField_iff {lower text : List Char} :
    startsField lower text = true ↔ ∃ word rest, text = word ++ rest ∧ word.map Char.toLower = lower ∧
    opensField rest = true := by
  induction lower generalizing text with
  | nil => simp [startsField]
  | cons x lower ih =>
    cases text with
    | nil => simp [startsField]
    | cons c rest =>
      rw [startsField, Bool.and_eq_true, beq_iff_eq, ih]
      constructor
      · rintro ⟨hx, word, later, rfl, hword, hfield⟩
        exact ⟨c :: word, later, rfl, by rw [List.map_cons, hx, hword], hfield⟩
      · rintro ⟨word, later, htext, hword, hfield⟩
        obtain ⟨first, word, rfl⟩ := List.exists_cons_of_ne_nil (show word ≠ [] by rintro rfl; cases hword)
        obtain ⟨hx, hrest⟩ := List.cons.inj hword
        obtain ⟨rfl, rfl⟩ := List.cons.inj htext
        exact ⟨hx, word, later, rfl, hrest, hfield⟩

/-- The recogniser finds the words with a field, up to the end of the value. -/
theorem opens_iff {text : List Char} :
    opens text = true ↔ ∃ word field rest, text = word ++ field ++ rest ∧ IsWord word ∧ IsField field ∧ Ends rest := by
  rw [opens, List.any_eq_true]
  constructor
  · rintro ⟨lower, hlower, hstarts⟩
    obtain ⟨word, later, rfl, rfl, hopens⟩ := startsField_iff.mp hstarts
    obtain ⟨field, rest, rfl, hfield, hends⟩ := opensField_iff.mp hopens
    exact ⟨word, field, rest, (List.append_assoc _ _ _).symm, hlower, hfield, hends⟩
  · rintro ⟨word, field, rest, rfl, hword, hfield, hends⟩
    exact ⟨word.map Char.toLower, hword, startsField_iff.mpr
      ⟨word, field ++ rest, List.append_assoc _ _ _, rfl, opensField_iff.mpr ⟨field, rest, rfl, hfield, hends⟩⟩⟩

/-! ## What the engine finds -/

theorem matches_oneOfIgnoreCase {words : List (List Char)} {matched : List Char} :
    Matches (oneOfIgnoreCase words) matched ↔ matched.map Char.toLower ∈ words := by
  have hword : ∀ (word matched : List Char), Matches (wordIgnoreCase word) matched ↔
    matched.map Char.toLower = word := by
    intro word
    induction word with
    | nil =>
      intro matched
      simp only [wordIgnoreCase, Matches]
      constructor
      · rintro ⟨hnone, -⟩
        cases matched with
        | nil => rfl
        | cons c rest => cases hnone c List.mem_cons_self
      · intro hnil
        rw [List.map_eq_nil_iff.mp hnil]
        simp
    | cons x word ih =>
      intro matched
      simp only [wordIgnoreCase, Matches, ih]
      constructor
      · rintro ⟨_, back, rfl, ⟨c, rfl, hx⟩, rfl⟩
        rw [List.singleton_append, List.map_cons, beq_iff_eq.mp hx]
      · intro hmatched
        cases matched with
        | nil => cases hmatched
        | cons c back =>
          obtain ⟨hx, hback⟩ := List.cons.inj hmatched
          exact ⟨[c], back, rfl, ⟨c, rfl, beq_iff_eq.mpr hx⟩, hback⟩
  induction words with
  | nil => simp [oneOfIgnoreCase, Matches]
  | cons first rest ih => simp only [oneOfIgnoreCase, Matches, hword, ih, List.mem_cons]

theorem matches_password_iff {matched : List Char} :
    Matches password matched ↔ ∃ word field, matched = word ++ field ∧ IsWord word ∧ IsField field := by
  simp only [password, Matches, matches_oneOfIgnoreCase]
  constructor
  · rintro ⟨word, _, rfl, hword, gap, _, rfl, ⟨hgap, -⟩, _, _, rfl, ⟨separator, rfl, hseparator⟩, pad, value, rfl, ⟨hpad, -⟩,
      hvalue, hfilled, -⟩
    refine ⟨word, _, rfl, hword, gap, separator, pad, value, rfl, hgap, hseparator, hpad, ?_, hvalue⟩
    exact List.ne_nil_of_length_pos (by omega)
  · rintro ⟨word, _, rfl, hword, gap, separator, pad, value, rfl, hgap, hseparator, hpad, hfilled, hvalue⟩
    exact ⟨word, _, rfl, hword, gap, _, rfl,
      ⟨hgap, by simp, by simp⟩, [separator], _, rfl, ⟨separator, rfl, hseparator⟩, pad,
      value, rfl, ⟨hpad, by simp, by simp⟩, hvalue, List.length_pos_iff.mpr hfilled, by simp⟩

theorem words_unique {lower other : List Char} (h : lower ∈ passwordWords) (hother : other ∈ passwordWords)
    {text : List Char}
    (hfront : lower <+: text) (hfront' : other <+: text) : lower = other := by
  have hnone : ∀ a ∈ passwordWords, ∀ b ∈ passwordWords, a <+: b → a = b := by decide
  rcases List.prefix_or_prefix_of_prefix hfront hfront' with hle | hle
  · exact hnone lower h other hother hle
  · exact (hnone other hother lower h hle).symm

/-- A text has one password word at its front at most. -/
theorem isWord_unique {word other rest later : List Char} (h : IsWord word) (hother : IsWord other)
    (htext : word ++ rest = other ++ later) : word = other ∧ rest = later := by
  have hlower : word.map Char.toLower = other.map Char.toLower := by
    apply @words_unique _ _ h hother ((word ++ rest).map Char.toLower)
    · rw [List.map_append]
      exact List.prefix_append _ _
    · rw [htext, List.map_append]
      exact List.prefix_append _ _
  have hlength : word.length = other.length := by
    rw [← List.length_map Char.toLower, hlower, List.length_map]
  exact List.append_inj htext hlength

theorem capturedWord_append {word : List Char} (h : IsWord word) (rest : List Char) :
    capturedWord (word ++ rest) = word := by
  have hfits : ∀ lower ∈ passwordWords, (((word ++ rest).take lower.length).map Char.toLower == lower) = true →
      lower = word.map Char.toLower := by
    intro lower hlower hfits
    apply @words_unique _ _ hlower h ((word ++ rest).map Char.toLower)
    · rw [← beq_iff_eq.mp hfits]
      exact (List.take_prefix _ _).map Char.toLower
    · rw [List.map_append]
      exact List.prefix_append _ _
  have hself :
    (((word ++ rest).take (word.map Char.toLower).length).map Char.toLower == word.map Char.toLower) = true := by
    rw [List.length_map, List.take_left, beq_self_eq_true]
  rw [capturedWord]
  cases hfound : passwordWords.find? fun w => ((word ++ rest).take w.length).map Char.toLower == w with
  | none => exact absurd hself (List.find?_eq_none.mp hfound _ h)
  | some lower =>
    have hfound' := hfits lower (List.mem_of_find?_eq_some hfound) (by simpa using List.find?_some hfound)
    simp only [hfound', List.length_map, List.take_left]

/-- The part of the pattern behind the word. -/
def fieldRegex : Regex :=
  .seq (.many isSpace 0 none) (.seq (.class_ isSeparator) (.seq (.many isSpace 0 none) (.many isValue 1 none)))

theorem head?_rests_fieldRegex {field rest : List Char} (h : IsField field) (hends : Ends rest) :
    (rests fieldRegex (field ++ rest)).head? = some rest := by
  obtain ⟨gap, separator, pad, value, rfl, hgap, hseparator, hpad, hfilled, hvalue⟩ := h
  have hstops : ∀ c later, isSpace c = true →
      rests (.seq (.class_ isSeparator) (.seq (.many isSpace 0 none) (.many isValue 1 none))) (c :: later) = [] := by
    intro c later hspace
    have hnot : isSeparator c = false := by
      by_contra hseparator'
      rw [Bool.not_eq_false] at hseparator'
      rw [not_isSpace_of_isSeparator hseparator'] at hspace
      cases hspace
    simp [rests, hnot]
  have hstops' : ∀ c later, isSpace c = true → rests (.many isValue 1 none) (c :: later) = [] := by
    intro c later hspace
    have hnot : isValue c = false := by simp [isValue, hspace]
    simp [rests, manyRests, hnot]
  obtain ⟨first, more, rfl⟩ := List.exists_cons_of_ne_nil hfilled
  have hgapEnd : (gap ++ separator :: (pad ++ first :: more) ++ rest).dropWhile isSpace =
      separator :: (pad ++ first :: (more ++ rest)) := by
    rw [List.append_assoc, List.dropWhile_append_of_pos hgap, List.cons_append, List.dropWhile_cons,
      not_isSpace_of_isSeparator hseparator]
    simp
  have hpadEnd : (pad ++ first :: (more ++ rest)).dropWhile isSpace = first :: (more ++ rest) := by
    rw [List.dropWhile_append_of_pos hpad, List.dropWhile_cons,
      not_isSpace_of_isValue (hvalue first List.mem_cons_self)]
    simp
  have hvalueEnd : (more ++ rest).dropWhile isValue = rest := by
    rw [List.dropWhile_append_of_pos fun c hc => hvalue c (List.mem_cons_of_mem _ hc)]
    cases rest with
    | nil => rfl
    | cons c later => rw [List.dropWhile_cons, hends c rfl]; rfl
  rw [fieldRegex, rests_seq_many hstops, hgapEnd, rests, rests]
  simp only [hseparator, if_true, List.flatMap_singleton]
  rw [rests_seq_many hstops', hpadEnd, rests, head?_manyRests_one (hvalue first List.mem_cons_self), hvalueEnd]

/-- The engine takes the word and the whole field behind it. -/
theorem head?_rests_password {word field rest : List Char} (hword : IsWord word) (hfield : IsField field)
    (hends : Ends rest) :
    (rests password (word ++ field ++ rest)).head? = some rest := by
  have hpattern : password = .seq (oneOfIgnoreCase passwordWords) fieldRegex := rfl
  have hall : ∀ later ∈ rests (oneOfIgnoreCase passwordWords) (word ++ (field ++ rest)), later = field ++ rest := by
    intro later hlater
    obtain ⟨other, htext, hmatched⟩ := mem_rests.mp hlater
    exact (isWord_unique hword (matches_oneOfIgnoreCase.mp hmatched) htext).2.symm
  have hfound : field ++ rest ∈ rests (oneOfIgnoreCase passwordWords) (word ++ (field ++ rest)) :=
    mem_rests.mpr ⟨word, rfl, matches_oneOfIgnoreCase.mpr hword⟩
  rw [hpattern, rests, List.append_assoc]
  cases hrests : rests (oneOfIgnoreCase passwordWords) (word ++ (field ++ rest)) with
  | nil =>
    rw [hrests] at hfound
    cases hfound
  | cons first others =>
    rw [hrests] at hall
    rw [List.flatMap_cons, hall first List.mem_cons_self, List.head?_append, head?_rests_fieldRegex hfield hends,
      Option.some_or]

theorem opens_append {word field : List Char} (hword : IsWord word) (hfield : IsField field) (rest : List Char) :
    opens (word ++ field ++ rest) = true := by
  rw [opens, List.any_eq_true]
  refine ⟨word.map Char.toLower, hword, startsField_iff.mpr ⟨word, field ++ rest, List.append_assoc _ _ _, rfl, ?_⟩⟩
  exact opensField_append hfield rest

theorem rests_password_of_not_opens {text : List Char} (h : opens text = false) : rests password text = [] := by
  rw [List.eq_nil_iff_forall_not_mem]
  intro rest hrest
  obtain ⟨matched, rfl, hmatched⟩ := mem_rests.mp hrest
  obtain ⟨word, field, rfl, hword, hfield⟩ := matches_password_iff.mp hmatched
  rw [opens_append hword hfield rest] at h
  cases h

theorem opens_of_match {text rest : List Char} (h : (rests password text).head? = some rest) : opens text = true := by
  by_contra hnot
  rw [rests_password_of_not_opens (Bool.not_eq_true _ ▸ hnot)] at h
  cases h

/-- A match of the engine is a word with its whole field. -/
theorem match_eq {text rest : List Char} (h : (rests password text).head? = some rest) :
    ∃ word field, text = word ++ field ++ rest ∧ IsWord word ∧ IsField field ∧ Ends rest := by
  obtain ⟨word, field, later, rfl, hword, hfield, hends⟩ := opens_iff.mp (opens_of_match h)
  rw [head?_rests_password hword hfield hends] at h
  cases h
  exact ⟨word, field, rfl, hword, hfield, hends⟩

end FragmentMemory.PasswordFields
