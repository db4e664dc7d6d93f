import FragmentMemory.ContentUniqueness
import FragmentMemory.KeywordExtraction
import FragmentMemory.MaskedTexts

/-! # Creating a fragment again

Reflection hands the content, type, topic and keywords of created fragments to the batch, which creates them
anew.  The second creation masks and cuts a text that has been masked and cut before.
-/
namespace FragmentMemory.RepeatedCreation
open ApiKeyStore FragmentTables FragmentFactory PiiRedaction MaskedTexts KeywordExtraction JsString

variable {tools : TextTools}

/-- What follows the scheme of an address. -/
def addressPart (text : List Char) : Option (List Char) :=
  if "https://".toList.isPrefixOf text then some (text.drop 8)
  else if "http://".toList.isPrefixOf text then some (text.drop 7)
  else none

/-- A text that is an address from its first character on. -/
def addressOnly (text : List Char) : Bool :=
  (addressPart text).any fun address => !address.isEmpty && address.all fun c => !isSpace c

/-- The masked text of a request. -/
def maskedText (params : FragmentParams) : String := redactPII (trim (params.content.getD ""))

/-! ## The acceptance -/

theorem lengthLimit_le (type : Option FragmentType) : 300 ≤ lengthLimit type := by
  rw [lengthLimit]
  split <;> decide

theorem unitCount_le (text : List Char) : unitCount text ≤ 2 * text.length := by
  induction text with
  | nil => rfl
  | cons c rest ih =>
    rw [← List.singleton_append, unitCount_append, List.length_append, List.length_singleton]
    have htwo : unitCount [c] ≤ 2 := by
      simp only [unitCount, List.map_singleton, List.sum_singleton]
      split <;> omega
    omega

theorem clipChars_of_le {text : List Char} {units : ℕ} (h : unitCount text ≤ units) : clipChars units text = text := by
  have hclip := clipChars_append text [] (units - unitCount text)
  have hnil : ∀ units, clipChars units [] = [] := fun units => by cases units <;> rw [clipChars]
  rwa [List.append_nil, hnil, List.append_nil, Nat.add_sub_cancel' h] at hclip

theorem urlOnly_eq (content : String) : urlOnly content = addressOnly (trim content).toList := by
  rw [urlOnly, addressOnly, addressPart]
  generalize "https://".toList = secure
  generalize "http://".toList = plain
  by_cases hsecure : secure.isPrefixOf (trim content).toList = true
  · simp only [hsecure, if_true, Option.any_some]
  · by_cases hplain : plain.isPrefixOf (trim content).toList = true
    · simp only [hsecure, hplain, if_true, if_false, Option.any_some, Bool.false_eq_true]
    · simp only [hsecure, hplain, if_false, Option.any_none, Bool.false_eq_true]

/-- Dots behind a long text make no address and break none. -/
theorem addressOnly_dots {text : List Char} (hlong : 8 < text.length) :
    addressOnly (text ++ dots) = addressOnly text := by
  have hprefix : ∀ start : List Char, start.length ≤ 8 → start.isPrefixOf (text ++ dots) = start.isPrefixOf text := by
    intro start hstart
    rw [Bool.eq_iff_iff, List.isPrefixOf_iff_prefix, List.isPrefixOf_iff_prefix]
    constructor
    · intro h
      exact List.prefix_of_prefix_length_le h (List.prefix_append _ _) (by omega)
    · intro h
      exact h.trans (List.prefix_append _ _)
  have haddress : ∀ count ≤ 8, (!((text ++ dots).drop count).isEmpty && ((text ++ dots).drop count).all fun c => !isSpace c) =
      (!(text.drop count).isEmpty && (text.drop count).all fun c => !isSpace c) := by
    intro count hcount
    have hfilled : (text.drop count).isEmpty = false := by
      rw [List.isEmpty_eq_false_iff, ne_eq, List.drop_eq_nil_iff]
      omega
    have hfilled' : (text.drop count ++ dots).isEmpty = false := by
      rw [List.isEmpty_eq_false_iff]
      exact List.append_ne_nil_of_right_ne_nil _ (by decide)
    have hdots : dots.all (fun c => !isSpace c) = true := by decide
    rw [List.drop_append_of_le_length (by omega), List.all_append, hdots, Bool.and_true, hfilled, hfilled']
  have hsecure := hprefix "https://".toList (by decide)
  have hplain := hprefix "http://".toList (by decide)
  rw [addressOnly, addressOnly, addressPart, addressPart, hsecure, hplain]
  generalize "https://".toList = secure
  generalize "http://".toList = plain
  by_cases hsecure : secure.isPrefixOf text = true
  · rw [if_pos hsecure, if_pos hsecure, Option.any_some, Option.any_some, haddress 8 (by omega)]
  · rw [if_neg hsecure, if_neg hsecure]
    by_cases hplain : plain.isPrefixOf text = true
    · rw [if_pos hplain, if_pos hplain, Option.any_some, Option.any_some, haddress 7 (by omega)]
    · rw [if_neg hplain, if_neg hplain]

theorem trimmed_storedContent (htools : tools.redactPII = redactPII) {raw : String} (hraw : Trimmed raw.toList)
    (type : Option FragmentType) : Trimmed (storedContent tools raw type).toList := by
  have hmasked : Trimmed (redactPII raw).toList := trimmed_redactPII hraw
  rw [storedContent_eq htools]
  split
  · rename_i hlong
    have hpositive := lengthLimit_le type
    constructor
    · intro c hc
      have hfilled : clipChars (lengthLimit type) (redactPII raw).toList ≠ [] := by
        intro hnil
        have hunits := unitCount_clipChars hlong.le
        rw [hnil] at hunits
        have hzero : unitCount [] = 0 := rfl
        omega
      rw [List.head?_append_of_ne_nil _ hfilled] at hc
      rcases clipChars_cases (lengthLimit type) (redactPII raw).toList with ⟨rest, hrest⟩ | ⟨front, d, rest, htext, -, hclip⟩
      · apply hmasked.first c
        rw [← hrest, List.head?_append_of_ne_nil _ hfilled]
        exact hc
      · rw [hclip] at hc
        cases front with
        | nil =>
          rw [← Option.some.inj hc]
          decide
        | cons first front =>
          apply hmasked.first c
          rw [htext]
          exact hc
    · intro c hc
      rw [List.getLast?_append_of_ne_nil _ (by decide)] at hc
      rw [eq_dot_of_mem_dots (List.mem_of_getLast? hc)]
      decide
  · exact hmasked

/-- The second creation refuses the content when its cut reads as an address. -/
theorem urlOnly_storedContent (htools : tools.redactPII = redactPII) {raw : String} (hraw : Trimmed raw.toList)
    (type : Option FragmentType) :
    urlOnly (storedContent tools raw type) = addressOnly (clipChars (lengthLimit type) (redactPII raw).toList) := by
  rw [urlOnly_eq, trim_of_trimmed (trimmed_storedContent htools hraw type), storedContent_eq htools]
  split
  · rename_i hlong
    apply addressOnly_dots
    have hunits := unitCount_clipChars hlong.le
    have hlength := unitCount_le (clipChars (lengthLimit type) (redactPII raw).toList)
    have hlimit := lengthLimit_le type
    omega
  · rename_i hshort
    rw [clipChars_of_le (Nat.le_of_not_lt hshort)]

/-- A content is as long as the text that it was made of has to be. -/
theorem long_storedContent (htools : tools.redactPII = redactPII) {raw : String} {type : Option FragmentType}
    (h : ¬ (utf16Length raw < 10 ∧ (words raw).length < 3)) :
    ¬ (utf16Length (storedContent tools raw type) < 10 ∧ (words (storedContent tools raw type)).length < 3) := by
  have hcontent := storedContent_eq htools raw type
  by_cases hlong : lengthLimit type < utf16Length (redactPII raw)
  · rw [if_pos hlong] at hcontent
    have hunits := unitCount_clipChars hlong.le
    have hlimit := lengthLimit_le type
    rintro ⟨hshort, -⟩
    rw [utf16Length_eq, hcontent, unitCount_append] at hshort
    omega
  · rw [if_neg hlong] at hcontent
    rw [String.toList_inj.mp hcontent]
    rcases redactPII_eq_or_long raw with hsame | hmasked
    · rwa [hsame]
    · rintro ⟨hshort, -⟩
      omega

/-! ## The second creation -/

section Again

variable {digests : Digests} {tools : TextTools} {newId : FragmentId} {now : Time}

/-- What creation makes of an accepted text. -/
structure Made (digests : Digests) (tools : TextTools) (params : FragmentParams) (f : Fragment) : Prop where
  content : f.content = storedContent tools (trim (params.content.getD "")) params.type
  type : f.type = params.type.getD .fact
  keywords : f.keywords =
    if params.keywords.isEmpty then tools.extractKeywords f.content 5 else normalizeKeywords tools params.keywords
  contentHash : f.contentHash = hashContent digests f.content
  estimatedTokens : f.estimatedTokens = tools.countTokens f.content

theorem create_ok {params : FragmentParams} (hraw : trim (params.content.getD "") ≠ "")
    (hvalid : validateContent (trim (params.content.getD "")) params.type params.topic = none) :
    ∃ g, create digests tools newId now params = .ok g ∧ Made digests tools params g := by
  simp only [create, hraw, if_false, hvalid]
  exact ⟨_, rfl, rfl, rfl, rfl, rfl, rfl⟩

theorem of_create {params : FragmentParams} {f : Fragment} (h : create digests tools newId now params = .ok f) :
    trim (params.content.getD "") ≠ "" ∧
      validateContent (trim (params.content.getD "")) params.type params.topic = none ∧
        Made digests tools params f := by
  simp only [create] at h
  split at h
  · cases h
  · rename_i hraw
    split at h
    · cases h
    · rename_i hvalid
      cases h
      exact ⟨hraw, hvalid, rfl, rfl, rfl, rfl, rfl⟩

/-- What the batch hands to the factory of a created fragment. -/
def again (f : Fragment) : FragmentParams where
  content := some f.content
  type := some f.type
  topic := some f.topic
  keywords := f.keywords

/-- The second creation is accepted and makes the same content, keywords, hash and token estimate. -/
def SameAgain (digests : Digests) (tools : TextTools) (newId : FragmentId) (now : Time) (f : Fragment) : Prop :=
  ∃ g, create digests tools newId now (again f) = .ok g ∧ g.content = f.content ∧ g.keywords = f.keywords ∧
    g.contentHash = f.contentHash ∧ g.estimatedTokens = f.estimatedTokens

/-- A text cut to a limit, with dots where it is longer. -/
def cutText (limit : ℕ) (text : String) : String := if limit < utf16Length text then clip text limit ++ "..." else text

/-- The first units of the masked text are no address, a cut leaves a password field neat, and the caller gives
keywords or those of the text are in lower case. -/
structure Stable (toLowerCase : String → String) (params : FragmentParams) : Prop where
  address : addressOnly (clipChars (lengthLimit params.type) (maskedText params).toList) = false
  cut : lengthLimit params.type < utf16Length (maskedText params) →
    neatCut (clipChars (lengthLimit params.type) (maskedText params).toList) = true
  keywords : params.keywords ≠ [] ∨
    ∀ kw ∈ extractKeywords toLowerCase (cutText (lengthLimit params.type) (maskedText params)) 5, toLowerCase kw = kw

theorem normalizeKeywords_eq_self {keywords : List String} :
    normalizeKeywords tools keywords = keywords ↔ ∀ kw ∈ keywords, tools.toLowerCase kw = kw := by
  rw [normalizeKeywords]
  constructor
  · intro h
    exact List.map_inj_left.mp (h.trans (List.map_id keywords).symm)
  · intro h
    exact (List.map_congr_left h).trans (List.map_id keywords)

variable {toLowerCase : String → String} {countTokens : String → ℕ}

theorem validateContent_again (htools : tools.redactPII = redactPII) {params : FragmentParams} {f : Fragment}
    (hvalid : validateContent (trim (params.content.getD "")) params.type params.topic = none)
    (hmade : Made digests tools params f) :
    validateContent (trim f.content) (some f.type) (some f.topic) = none ↔
      addressOnly (clipChars (lengthLimit params.type) (maskedText params).toList) = false := by
  have htrimmed := trimmed_storedContent htools (trimmed_trim (params.content.getD "")) params.type
  have hurl := urlOnly_storedContent htools (trimmed_trim (params.content.getD "")) params.type
  have hlong : ¬ (utf16Length (trim (params.content.getD "")) < 10 ∧
    (words (trim (params.content.getD ""))).length < 3) := by
    intro hshort
    rw [validateContent, if_pos hshort] at hvalid
    cases hvalid
  have hkept := @long_storedContent tools htools _ params.type hlong
  rw [hmade.content, trim_of_trimmed htrimmed, maskedText, ← hurl, validateContent, if_neg hkept]
  cases hrefused : urlOnly (storedContent tools (trim (params.content.getD "")) params.type) with
  | true => simp
  | false => simp

theorem storedContent_eq_cutText (htools : tools.redactPII = redactPII) (raw : String) (type : Option FragmentType) :
    storedContent tools raw type = cutText (lengthLimit type) (redactPII raw) := by
  rw [storedContent, htools, cutText, lengthLimit]

theorem filled_storedContent (htools : tools.redactPII = redactPII) {raw : String} {type : Option FragmentType}
    {topic : Option String} (hvalid : validateContent raw type topic = none) : storedContent tools raw type ≠ "" := by
  have hlong : ¬ (utf16Length raw < 10 ∧ (words raw).length < 3) := by
    intro hshort
    rw [validateContent, if_pos hshort] at hvalid
    cases hvalid
  intro hempty
  have hkept := @long_storedContent tools htools raw type hlong
  rw [hempty] at hkept
  exact hkept (by decide +kernel)

/-- A fragment that the factory has made is made again with the same content, keywords, hash and token estimate
exactly when its text is stable. -/
theorem create_again_iff {digests : Digests} {toLowerCase : String → String} {countTokens : String → ℕ}
    (hlower : ∀ text, toLowerCase (toLowerCase text) = toLowerCase text) {newId newId' : FragmentId} {now now' : Time}
    {params : FragmentParams} {f : Fragment}
    (h : create digests (factoryTools toLowerCase countTokens redactPII) newId now params = .ok f) :
    SameAgain digests (factoryTools toLowerCase countTokens redactPII) newId' now' f ↔ Stable toLowerCase params := by
  have htools : (factoryTools toLowerCase countTokens redactPII).redactPII = redactPII := rfl
  obtain ⟨hraw, hvalid, hmade⟩ := of_create h
  have htrimmed : trim f.content = f.content := by
    rw [hmade.content]
    exact trim_of_trimmed (trimmed_storedContent htools (trimmed_trim _) _)
  have hagain :
    storedContent (factoryTools toLowerCase countTokens redactPII) (trim f.content) (some f.type) = f.content ↔
      (lengthLimit params.type < utf16Length (maskedText params) →
        neatCut (clipChars (lengthLimit params.type) (maskedText params).toList) = true) := by
    rw [htrimmed, hmade.content, hmade.type]
    exact storedContent_again_iff htools _ _
  have hcut : f.content = cutText (lengthLimit params.type) (maskedText params) := by
    rw [hmade.content, storedContent_eq_cutText htools, maskedText]
  constructor
  · rintro ⟨g, hg, hcontent, hkeywords, -⟩
    obtain ⟨-, hvalid', hmade'⟩ := of_create hg
    refine ⟨(validateContent_again htools hvalid hmade).mp hvalid', hagain.mp (hmade'.content.symm.trans hcontent), ?_⟩
    by_cases hgiven : params.keywords = []
    · right
      have hextracted : f.keywords = extractKeywords toLowerCase f.content 5 := by
        rw [hmade.keywords, hgiven]
        rfl
      by_cases hnone : f.keywords = []
      · rw [← hcut, ← hextracted, hnone]
        intro kw hkw
        cases hkw
      · have hnormal := hmade'.keywords
        rw [hkeywords, again, if_neg (by rwa [List.isEmpty_iff])] at hnormal
        rw [← hcut, ← hextracted]
        exact normalizeKeywords_eq_self.mp hnormal.symm
    · exact Or.inl hgiven
  · rintro ⟨haddress, hneat, hkeywords⟩
    have hfilled : trim f.content ≠ "" := by
      rw [htrimmed, hmade.content]
      exact filled_storedContent htools hvalid
    obtain ⟨g, hg, hmade'⟩ :=
      @create_ok digests (factoryTools toLowerCase countTokens redactPII) newId' now' (again f) hfilled
      ((validateContent_again htools hvalid hmade).mpr haddress)
    have hcontent : g.content = f.content := hmade'.content.trans (hagain.mpr hneat)
    refine ⟨g, hg, hcontent, ?_, ?_, ?_⟩
    · have hkept : f.keywords ≠ [] →
        normalizeKeywords (factoryTools toLowerCase countTokens redactPII) f.keywords = f.keywords := by
        intro hnone
        apply normalizeKeywords_eq_self.mpr
        intro kw hkw
        rw [hmade.keywords] at hkw
        by_cases hgiven : params.keywords = []
        · rw [hgiven] at hkw
          rcases hkeywords with habsurd | hall
          · exact absurd hgiven habsurd
          · rw [← hcut] at hall
            exact hall kw hkw
        · rw [if_neg (by rwa [List.isEmpty_iff])] at hkw
          obtain ⟨given, -, rfl⟩ := List.mem_map.mp hkw
          exact hlower given
      rw [hmade'.keywords]
      by_cases hnone : f.keywords = []
      · have hgiven : params.keywords = [] := by
          by_contra hgiven
          have hnormal := hmade.keywords
          rw [if_neg (by rwa [List.isEmpty_iff]), hnone] at hnormal
          exact hgiven (List.map_eq_nil_iff.mp hnormal.symm)
        have hextracted : f.keywords = extractKeywords toLowerCase f.content 5 := by
          rw [hmade.keywords, hgiven]
          rfl
        have hempty : (again f).keywords.isEmpty = true := List.isEmpty_iff.mpr hnone
        rw [if_pos hempty, hcontent, hextracted]
        rfl
      · rw [again, if_neg (by rwa [List.isEmpty_iff])]
        exact hkept hnone
    · rw [hmade'.contentHash, hcontent, hmade.contentHash]
    · rw [hmade'.estimatedTokens, hcontent, hmade.estimatedTokens]

end Again

/-! ## Examples -/

def sampleTools : TextTools := factoryTools asciiLower ContentUniqueness.sampleTools.countTokens redactPII

/-- A request of a fact. -/
def factOf (content : String) : FragmentParams where
  content := some content
  type := some .fact
  topic := some "deploy"

theorem deploy_same_again : ∃ f, create ContentUniqueness.sampleDigests sampleTools "frag-01" 1
      (factOf ContentUniqueness.sampleContent) = .ok f ∧
    SameAgain ContentUniqueness.sampleDigests sampleTools "frag-02" 2 f := by
  have hraw : trim ((factOf ContentUniqueness.sampleContent).content.getD "") ≠ "" := by decide
  have hvalid : validateContent (trim ((factOf ContentUniqueness.sampleContent).content.getD ""))
      (factOf ContentUniqueness.sampleContent).type (factOf ContentUniqueness.sampleContent).topic = none := by
        decide
  obtain ⟨f, hf, -⟩ := @create_ok ContentUniqueness.sampleDigests sampleTools "frag-01" 1 _ hraw hvalid
  have hstable : Stable asciiLower (factOf ContentUniqueness.sampleContent) :=
    ⟨by decide +kernel, by decide +kernel, Or.inr (by decide +kernel)⟩
  exact ⟨f, hf, (create_again_iff asciiLower_asciiLower hf).mpr hstable⟩

def secondOf (content : String) : Option Fragment :=
  (create ContentUniqueness.sampleDigests sampleTools "frag-01" 1 (factOf content)).toOption.bind fun f =>
    (create ContentUniqueness.sampleDigests sampleTools "frag-02" 2 (again f)).toOption

/-- The second creation puts an identifier in lower case and refuses a phone number in an address. -/
theorem second_differs :
    ((create ContentUniqueness.sampleDigests sampleTools "frag-01" 1
        (factOf "set maxRetries for the retry_queue")).toOption.map Fragment.keywords =
      some ["maxRetries", "retry_queue", "set"] ∧
      (secondOf "set maxRetries for the retry_queue").map Fragment.keywords = some ["maxretries", "retry_queue", "set"]) ∧
    (create ContentUniqueness.sampleDigests sampleTools "frag-01" 1 (factOf "https://call.me/010 1234 5678")).toOption.map
        Fragment.content = some "https://call.me/[REDACTED_PHONE]" ∧
      (secondOf "https://call.me/010 1234 5678").map Fragment.content = none := by
  refine ⟨⟨?_, ?_⟩, ?_, ?_⟩
  · decide +kernel
  · decide +kernel
  · decide +kernel
  · decide +kernel

end FragmentMemory.RepeatedCreation
