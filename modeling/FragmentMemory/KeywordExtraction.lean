import FragmentMemory.BacktrackingRegex
import FragmentMemory.FragmentFactory
import Mathlib.Data.List.Sort

/-! # Keyword extraction

`FragmentFactory.extractKeywords`: code identifiers keep their letter case, the other words are
lower-cased and ranked by how often they occur.  Lower-casing is Unicode's and given.
-/
namespace FragmentMemory.KeywordExtraction
open FragmentFactory BacktrackingRegex JsString

def stopwords : List String :=
  ["이", "그", "저", "것", "수", "등", "및", "를", "을", "에",
    "의", "가", "는", "은", "도", "로", "와", "과", "한", "하",
    "the", "a", "an", "is", "are", "was", "were", "be", "been",
    "have", "has", "had", "do", "does", "did", "will", "would",
    "should", "could", "can", "may", "might", "this", "that",
    "with", "from", "for", "and", "but", "or", "not", "in",
    "on", "at", "to", "of", "it", "its", "by", "as"]

/-- `\w`. -/
def isWordChar (c : Char) : Bool := c.isAlphanum || c == '_'

/-- `[가-힣]`. -/
def isSyllable (c : Char) : Bool := 0xAC00 ≤ c.toNat && c.toNat ≤ 0xD7A3

/-- `[ㄱ-ㅎ]`. -/
def isConsonant (c : Char) : Bool := 0x3131 ≤ c.toNat && c.toNat ≤ 0x314E

/-- The alternatives of `IDENT`.  A repeated group `[A-Z][A-Za-z0-9]*` is one such group, whose tail takes
the others in. -/
def ident : Regex :=
  .alt
    (.seq (.class_ Char.isAlpha) (.seq (.many (fun c => c.isLower || c.isDigit) 0 none)
      (.seq (.class_ Char.isUpper) (.many Char.isAlphanum 0 none))))
    (.seq (.class_ Char.isAlpha) (.seq (.many Char.isAlphanum 0 none)
      (.seq (.char '_') (.many isWordChar 1 none))))

/-- The runs of word characters.  Between two word boundaries and made of word characters, a match of
`IDENT` is a whole run. -/
def wordRuns (text : String) : List (List Char) :=
  (text.toList.splitOnP fun c => !isWordChar c).filter fun run => !run.isEmpty

def identifiers (text : String) : List String :=
  ((wordRuns text).filter fun run => (ident.rests run).contains []).map String.ofList |>.eraseDups

/-- The suffixes of `JOSA`, the longer ones first. -/
def josa : List (List Char) :=
  ["까지", "부터", "에서", "에게", "으로", "라는", "에는", "를", "을", "는", "은", "이", "가", "의", "에", "로", "도", "와",
    "과", "만"].map String.toList

def stripJosa (word : List Char) : List Char :=
  if word.any isSyllable then
    match josa.find? fun suffix => suffix.isSuffixOf word with
    | some suffix =>
      let stripped := word.take (word.length - suffix.length)
      if 2 ≤ stripped.length then stripped else word
    | none => word
  else word

variable (toLowerCase : String → String)

/-- The lower-cased words without punctuation, suffixes, single characters and stop words. -/
def plainWords (text : String) : List String :=
  let cleaned := (toLowerCase text).toList.map fun c =>
    if isWordChar c || isSpace c || isConsonant c || isSyllable c then c else ' '
  let stripped := ((cleaned.splitOnP isSpace).filter fun word => !word.isEmpty).map stripJosa
  (stripped.filter fun word => 1 < word.length && !stopwords.contains (String.ofList word)).map String.ofList

/-- The words by frequency, those of one frequency in the order of their first occurrence. -/
def ranked (words : List String) : List String :=
  words.eraseDups.insertionSort fun a b => words.count b ≤ words.count a

/-- The loop that merges identifiers and words up to letter case. -/
def mergeTerms (maxCount : ℕ) : List String → List String → List String → List String
  | merged, _, [] => merged
  | merged, seen, kw :: later =>
    let key := toLowerCase kw
    if seen.contains key then mergeTerms maxCount merged seen later
    else if maxCount ≤ merged.length + 1 then merged ++ [kw]
    else mergeTerms maxCount (merged ++ [kw]) (key :: seen) later

def extractKeywords (text : String) (maxCount : ℕ) : List String :=
  mergeTerms toLowerCase maxCount [] [] (identifiers text ++ ranked (plainWords toLowerCase text))

/-- The tools of the factory: only the lower-casing, the token encoder and the mask are left open. -/
def factoryTools (toLowerCase : String → String) (countTokens : String → ℕ) (redactPII : String → String) : TextTools where
  redactPII := redactPII
  extractKeywords := extractKeywords toLowerCase
  countTokens := countTokens
  toLowerCase := toLowerCase

variable {toLowerCase}

/-- The merged terms are distinct up to letter case, by induction on the terms to come. -/
theorem nodup_mergeTerms {maxCount : ℕ} {merged seen terms : List String}
    (hseen : ∀ kw ∈ merged, toLowerCase kw ∈ seen) (hnodup : (merged.map toLowerCase).Nodup) :
    ((mergeTerms toLowerCase maxCount merged seen terms).map toLowerCase).Nodup := by
  induction terms generalizing merged seen with
  | nil => exact hnodup
  | cons kw later ih =>
    simp only [mergeTerms]
    by_cases hknown : seen.contains (toLowerCase kw)
    · rw [if_pos hknown]
      exact ih hseen hnodup
    · rw [if_neg hknown]
      have hnew : toLowerCase kw ∉ merged.map toLowerCase := by
        intro hmem
        obtain ⟨other, hother, hsame⟩ := List.mem_map.mp hmem
        exact hknown (List.contains_iff_mem.mpr (hsame ▸ hseen other hother))
      have hlonger : ((merged ++ [kw]).map toLowerCase).Nodup := by
        rw [List.map_append, List.map_singleton, ← List.concat_eq_append, List.nodup_concat]
        exact ⟨hnew, hnodup⟩
      split
      · exact hlonger
      · refine ih (fun other hother => ?_) hlonger
        rcases List.mem_append.mp hother with hold | hlast
        · exact List.mem_cons_of_mem _ (hseen other hold)
        · rw [List.mem_singleton.mp hlast]
          exact List.mem_cons_self

theorem length_mergeTerms {maxCount : ℕ} {merged seen terms : List String} (h : merged.length < maxCount) :
    (mergeTerms toLowerCase maxCount merged seen terms).length ≤ maxCount := by
  induction terms generalizing merged seen with
  | nil => exact h.le
  | cons kw later ih =>
    simp only [mergeTerms]
    split
    · exact ih h
    · split
      · rw [List.length_append, List.length_singleton]
        exact h
      · refine ih ?_
        rw [List.length_append, List.length_singleton]
        omega

/-- At most as many keywords as asked for, no two of them equal up to letter case. -/
theorem extractKeywords_spec (text : String) {maxCount : ℕ} (h : 0 < maxCount) :
    (extractKeywords toLowerCase text maxCount).length ≤ maxCount ∧
      ((extractKeywords toLowerCase text maxCount).map toLowerCase).Nodup :=
  ⟨length_mergeTerms h, nodup_mergeTerms (fun _ hkw => absurd hkw List.not_mem_nil) List.nodup_nil⟩

/-- Lower-casing of ASCII texts. -/
def asciiLower (text : String) : String := String.ofList (text.toList.map Char.toLower)

theorem toLower_toLower (c : Char) : c.toLower.toLower = c.toLower := by
  by_cases h : c.val ≥ 'A'.val ∧ c.val ≤ 'Z'.val
  · have hlower : c.toLower.val = c.val + ('a'.val - 'A'.val) := congrArg Char.val (dif_pos h)
    have hfixed : ¬ (c.toLower.val ≥ 'A'.val ∧ c.toLower.val ≤ 'Z'.val) := by
      rw [hlower]
      rintro ⟨-, hupper⟩
      have hfirst : 65 ≤ c.val.toNat := h.1
      have hlast : c.val.toNat ≤ 90 := h.2
      have hsum : (c.val + ('a'.val - 'A'.val)).toNat ≤ 90 := hupper
      have hshift : ('a'.val - 'A'.val).toNat = 32 := rfl
      rw [UInt32.toNat_add] at hsum
      omega
    exact dif_neg hfixed
  · have hsame : c.toLower = c := dif_neg h
    rw [hsame, hsame]

theorem asciiLower_asciiLower (text : String) : asciiLower (asciiLower text) = asciiLower text := by
  simp only [asciiLower, String.toList_ofList, List.map_map]
  congr 1
  exact List.map_congr_left fun c _ => toLower_toLower c

example : extractKeywords asciiLower "set maxRetries for the retry_queue" 5 = ["maxRetries", "retry_queue", "set"] := by
  decide +kernel

end FragmentMemory.KeywordExtraction
