import FragmentMemory.BacktrackingRegex
import FragmentMemory.FragmentFactory

/-! # The mask of the factory

`FragmentFactory._redactPII` replaces the matches of four patterns one after the other.  Each replacement
stands between characters that the masked patterns do not know, so a later step exposes no match of an
earlier pattern, and neither does the truncation, which ends in dots.
-/
namespace FragmentMemory.PiiRedaction
open FragmentFactory BacktrackingRegex BacktrackingRegex.Regex JsString

/-- `sk-[a-zA-Z0-9]{32,}|AIza[0-9A-Za-z-_]{35}`. -/
def apiKey : Regex :=
  .alt (.seq (word ['s', 'k', '-']) (.many Char.isAlphanum 32 none))
    (.seq (word ['A', 'I', 'z', 'a']) (.many (fun c => c.isAlphanum || c == '-' || c == '_') 35 (some 35)))

/-- `[a-zA-Z0-9._%+-]+@[a-zA-Z0-9.-]+\.[a-zA-Z]{2,}`. -/
def email : Regex :=
  .seq (.many (fun c => c.isAlphanum || ['.', '_', '%', '+', '-'].contains c) 1 none) (.seq (char '@')
    (.seq (.many (fun c => c.isAlphanum || c == '.' || c == '-') 1 none) (.seq (char '.') (.many Char.isAlpha 2 none))))

def passwordWords : List (List Char) := ["password", "passwd", "pwd", "비밀번호", "비번"].map String.toList

/-- A word up to letter case. -/
def wordIgnoreCase : List Char → Regex
  | [] => .many (fun _ => false) 0 none
  | c :: rest => .seq (.class_ fun other => other.toLower == c) (wordIgnoreCase rest)

def oneOfIgnoreCase : List (List Char) → Regex
  | [] => .class_ fun _ => false
  | first :: rest => .alt (wordIgnoreCase first) (oneOfIgnoreCase rest)

/-- `(password|passwd|pwd|비밀번호|비번)\s*[:=]\s*[^\s,]+`. -/
def password : Regex :=
  .seq (oneOfIgnoreCase passwordWords) (.seq (.many isSpace 0 none) (.seq (.class_ fun c => c == ':' || c == '=')
    (.seq (.many isSpace 0 none) (.many (fun c => !isSpace c && c != ',') 1 none))))

/-- `[-\s]?`. -/
def gap : Regex := .many (fun c => c == '-' || isSpace c) 0 (some 1)

/-- `01[016789][-\s]?\d{3,4}[-\s]?\d{4}`. -/
def phone : Regex :=
  .seq (word ['0', '1']) (.seq (.class_ fun c => ['0', '1', '6', '7', '8', '9'].contains c)
    (.seq gap (.seq (.many Char.isDigit 3 (some 4)) (.seq gap (.many Char.isDigit 4 (some 4))))))

/-- The word that the group of `password` has captured; none of the words is the front of another. -/
def capturedWord (matched : List Char) : List Char :=
  match passwordWords.find? fun w => (matched.take w.length).map Char.toLower == w with
  | some w => matched.take w.length
  | none => []

def redactApiKeys (text : List Char) : List Char := apiKey.replaceAll (fun _ => "[REDACTED_API_KEY]".toList) text

def redactEmails (text : List Char) : List Char := email.replaceAll (fun _ => "[REDACTED_EMAIL]".toList) text

def redactPasswords (text : List Char) : List Char :=
  password.replaceAll (fun matched => capturedWord matched ++ ": [REDACTED_PWD]".toList) text

def redactPhones (text : List Char) : List Char := phone.replaceAll (fun _ => "[REDACTED_PHONE]".toList) text

/-- `_redactPII`. -/
def redactPII (text : String) : String :=
  String.ofList (redactPhones (redactPasswords (redactEmails (redactApiKeys text.toList))))

example : redactPII "pwd = x1, call 010-1234-5678 or me@host.org" =
    "pwd: [REDACTED_PWD], call [REDACTED_PHONE] or [REDACTED_EMAIL]" := by decide

/-- The patterns of which a content may keep no match. -/
def secrets : List Regex := [apiKey, email, phone]

def Clean (content : String) : Prop := ∀ r ∈ secrets, r.Free content.toList

instance (content : String) : Decidable (Clean content) := inferInstanceAs (Decidable (∀ r ∈ secrets, _))

/-- What is put in the place of a match, after the captured word. -/
def labels : List (List Char) :=
  ["[REDACTED_API_KEY]", "[REDACTED_EMAIL]", "[REDACTED_PHONE]", ": [REDACTED_PWD]"].map String.toList

/-- The inserted labels stand between two characters that no secret has. -/
theorem bracketed_label {r : Regex} (hr : r ∈ secrets) (shown : List Char)
    (hshown : shown ∈ labels) :
    Bracketed r shown := by
  have hedges : ∀ r ∈ secrets, r.alphabet '[' = false ∧ r.alphabet ':' = false ∧ r.alphabet ']' = false := by
    decide
  have hmiddles : ∀ r ∈ secrets, ∀ shown ∈ labels, r.Free shown.tail.dropLast := by decide
  obtain ⟨hopening, hcolon, hclosing⟩ := hedges r hr
  have hmiddle := hmiddles r hr shown hshown
  have hsplit : ∀ shown ∈ labels, shown = '[' :: (shown.tail.dropLast ++ [']']) ∨
    shown = ':' :: (shown.tail.dropLast ++ [']']) := by
    decide
  rcases hsplit shown hshown with hbracket | hletter
  · exact ⟨'[', _, ']', hbracket, hopening, hclosing, hmiddle⟩
  · exact ⟨':', _, ']', hletter, hcolon, hclosing, hmiddle⟩

theorem screens_label {r : Regex} (hr : r ∈ secrets) (matched shown : List Char)
    (hshown : shown ∈ labels) :
    Screens r matched shown :=
  ⟨[], shown, List.nil_prefix, rfl, bracketed_label hr shown hshown⟩

/-- The password step keeps a front of what it replaces. -/
theorem screens_password {r : Regex} (hr : r ∈ secrets) (matched : List Char) :
    Screens r matched (capturedWord matched ++ ": [REDACTED_PWD]".toList) := by
  have hlabel : Bracketed r ": [REDACTED_PWD]".toList := bracketed_label hr _ (by simp [labels])
  refine ⟨capturedWord matched, _, ?_, rfl, hlabel⟩
  rw [capturedWord]
  split
  · exact List.take_prefix _ _
  · exact List.nil_prefix

/-- Whatever the text, the masked one has no match of a secret. -/
theorem clean_redactPII (text : String) : Clean (redactPII text) := by
  have hpasswords : ∀ r ∈ secrets, ∀ text, r.Free text → r.Free (redactPasswords text) :=
    fun r hr text hfree => hfree.replaceAll fun matched _ => screens_password hr matched
  have hphones : ∀ r ∈ secrets, ∀ text, r.Free text → r.Free (redactPhones text) :=
    fun r hr text hfree => hfree.replaceAll fun matched _ => screens_label hr matched _ (by simp [labels])
  have hemails : ∀ text, apiKey.Free text → apiKey.Free (redactEmails text) :=
    fun text hfree => hfree.replaceAll fun matched _ => screens_label (by simp [secrets]) matched _ (by simp [labels])
  have hnonempty : ∀ r ∈ secrets, ¬ r.Matches [] := by
    intro r hr hmatches
    have hrest : [] ∈ r.rests [] := mem_rests.mpr ⟨[], rfl, hmatches⟩
    have hnone : ∀ r ∈ secrets, [] ∉ r.rests [] := by decide
    exact hnone r hr hrest
  have hself : ∀ r ∈ secrets, ∀ shown ∈ labels, ∀ text, r.Free (r.replaceAll (fun _ => shown) text) :=
    fun r hr shown hshown => free_replaceAll (hnonempty r hr) fun _ _ => bracketed_label hr shown hshown
  have hapi : apiKey ∈ secrets := by simp [secrets]
  have hmail : email ∈ secrets := by simp [secrets]
  have hphone : phone ∈ secrets := by simp [secrets]
  intro r hr
  rw [redactPII, String.toList_ofList]
  simp only [secrets, List.mem_cons, List.not_mem_nil, or_false] at hr
  rcases hr with rfl | rfl | rfl
  · exact hphones _ hapi _ (hpasswords _ hapi _ (hemails _ (hself _ hapi _ (by simp [labels]) _)))
  · exact hphones _ hmail _ (hpasswords _ hmail _ (hself _ hmail _ (by simp [labels]) _))
  · exact hself _ hphone _ (by simp [labels]) _

/-- A clipped text is a front of the text, which a split pair may follow. -/
theorem clipChars_spec (units : ℕ) (text : List Char) :
    ∃ front, front <+: text ∧ (clipChars units text = front ∨ clipChars units text = front ++ [Char.ofNat 0xFFFD]) := by
  induction units, text using clipChars.induct with
  | case1 => exact ⟨[], List.nil_prefix, Or.inl rfl⟩
  | case2 => exact ⟨[], List.nil_prefix, Or.inl (by rw [clipChars])⟩
  | case3 units c rest hbasic ih =>
    obtain ⟨front, hfront, hclip⟩ := ih
    refine ⟨c :: front, List.cons_prefix_cons.mpr ⟨rfl, hfront⟩, ?_⟩
    rw [clipChars.eq_def]
    simp only [hbasic, if_true]
    rcases hclip with h | h <;> simp [h]
  | case4 c rest hpair => exact ⟨[], List.nil_prefix, Or.inr (by rw [clipChars, if_neg hpair]; rfl)⟩
  | case5 c rest hpair units ih =>
    obtain ⟨front, hfront, hclip⟩ := ih
    refine ⟨c :: front, List.cons_prefix_cons.mpr ⟨rfl, hfront⟩, ?_⟩
    rw [clipChars, if_neg hpair]
    rcases hclip with h | h <;> simp [h]

/-- No secret ends in a dot. -/
theorem endsIn_secret {r : Regex} (hr : r ∈ secrets) : EndsIn (fun c => c != '.') r := by
  have hdigit : ∀ c : Char, c.isDigit = true → (c != '.') = true := by
    rintro c hc
    refine bne_iff_ne.mpr ?_
    rintro rfl
    cases hc
  have halpha : ∀ c : Char, c.isAlpha = true → (c != '.') = true := by
    rintro c hc
    refine bne_iff_ne.mpr ?_
    rintro rfl
    cases hc
  have hword : ∀ c : Char, (c.isAlphanum || c == '-' || c == '_') = true → (c != '.') = true := by
    rintro c hc
    refine bne_iff_ne.mpr ?_
    rintro rfl
    cases hc
  have halphanum : ∀ c : Char, c.isAlphanum = true → (c != '.') = true := fun c hc => hword c (by simp [hc])
  simp only [secrets, List.mem_cons, List.not_mem_nil, or_false] at hr
  rcases hr with rfl | rfl | rfl
  · exact (endsIn_many (by omega)).mono halphanum |>.seq.alt ((endsIn_many (by omega)).mono hword).seq
  · exact ((endsIn_many (by omega)).mono halpha).seq.seq.seq.seq
  · exact ((endsIn_many (by omega)).mono hdigit).seq.seq.seq.seq.seq

/-- The truncation of a clean text is clean. -/
theorem clean_clip {text : String} (h : Clean text) (units : ℕ) : Clean (clip text units ++ "...") := by
  intro r hr
  obtain ⟨front, hfront, hclip⟩ := clipChars_spec units text.toList
  have hfree : r.Free front := (h r hr).infix_ hfront.isInfix
  have hclipped : r.Free (clipChars units text.toList) := by
    rcases hclip with hsame | hsplit
    · rw [hsame]
      exact hfree
    · rw [hsplit]
      have hunknown : ∀ r ∈ secrets, r.alphabet (Char.ofNat 0xFFFD) = false := by decide
      have hempty : ∀ r ∈ secrets, r.Free [] := by decide
      exact free_separated (hunknown r hr) hfree (hempty r hr)
  rw [clip, String.toList_append, String.toList_ofList]
  refine free_append (fun matched hmatched => ?_) hclipped
  obtain ⟨c, hlast, hne⟩ := endsIn_secret hr matched hmatched
  refine ⟨c, hlast, fun hmem => ?_⟩
  have hdot : c = '.' := by simpa using hmem
  rw [hdot] at hne
  cases hne

/-- What the factory stores is clean. -/
theorem clean_storedContent {tools : TextTools} (htools : tools.redactPII = redactPII) (raw : String)
    (type : Option FragmentTables.FragmentType) : Clean (storedContent tools raw type) := by
  have hclean := clean_redactPII raw
  rw [storedContent, htools]
  generalize redactPII raw = redacted at hclean ⊢
  generalize (if type = some .episode then maxEpisodeFragmentLength else maxFragmentLength) = maxLen
  by_cases hlong : maxLen < utf16Length redacted
  · simp only [hlong, if_true]
    exact clean_clip hclean maxLen
  · simp only [hlong, if_false]
    exact hclean

end FragmentMemory.PiiRedaction
