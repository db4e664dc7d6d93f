import FragmentMemory.JsString
import Mathlib.Data.Rat.Defs

/-! # Claims of a fragment

`ClaimExtractor`: the polarity of a text by its first marker, uncertain before negative before positive, and the subject,
predicate and object of its one claim.  Lower-casing and the tokens of the morpheme index are given.
-/
namespace FragmentMemory.ClaimExtractor
open JsString

def positiveMarkers : List String :=
  ["사용한다", "사용함", "사용", "선호한다", "선호함", "선호", "설정한다", "설정함", "설정", "채택한다", "채택", "활성화한다",
   "활성화", "적용한다", "적용", "지원한다", "지원", "포함한다", "포함", "필수", "권장", "use", "uses", "prefer", "prefers",
   "enable", "enabled", "apply", "applies", "support", "supports", "adopt", "adopts", "required", "recommended"]

def negativeMarkers : List String :=
  ["사용하지않", "사용하지 않", "쓰지않", "쓰지 않", "금지", "제외", "비활성화", "비활성", "미지원", "지원하지 않", "제거", "삭제",
   "사용 안", "사용안", "허용하지 않", "허용하지않", "없다", "없음", "않음", "않는다", "않습니다", "하지 않", "하지않", "되지 않",
   "되지않", "권장되지", "권장하지", "do not use", "don't use", "does not use", "disable", "disabled", "deprecated", "reject",
   "rejected", "forbid", "forbidden", "remove", "removed", "never use", "not supported", "unsupported", "not recommended"]

def uncertainMarkers : List String :=
  ["아마", "아마도", "추정", "추정된다", "가능성", "불확실", "일 수도 있", "로 보임", "로 보인다", "일 것으로 보", "maybe",
   "possibly", "likely", "perhaps", "might", "could be", "seems", "appears to"]

/-- The characters that `compact` removes: white space, the middle dot and ASCII punctuation other than `:` and `;`. -/
def isRemoved (c : Char) : Bool :=
  let n := c.toNat
  isSpace c || n = 0xB7 || (33 ≤ n && n ≤ 47) || (60 ≤ n && n ≤ 64) || (91 ≤ n && n ≤ 96) || (123 ≤ n && n ≤ 126)

def compact (text : String) : String := String.ofList (text.toList.filter fun c => !isRemoved c)

def includes (text part : String) : Bool := decide (part.toList <:+: text.toList)

inductive Polarity
  | positive | negative | uncertain
  deriving DecidableEq

structure Claim where
  subject : String
  predicate : String
  object : Option String
  polarity : Polarity
  confidence : ℚ
  extractor : String := "morpheme-rule"
  ruleVersion : String
  deriving DecidableEq

structure PolarityResult where
  polarity : Polarity
  confidence : ℚ
  matchedMarker : Option String

variable (toLowerCase : String → String)

/-- The first marker that a text contains, as it stands or compacted. -/
def hit (content : String) (markers : List String) : Option String :=
  let lower := toLowerCase content
  let compactLower := compact lower
  markers.find? fun m => includes lower (toLowerCase m) || includes compactLower (compact (toLowerCase m))

def detectPolarity (content : String) : PolarityResult :=
  match hit toLowerCase content uncertainMarkers, hit toLowerCase content negativeMarkers,
      hit toLowerCase content positiveMarkers with
  | some marker, _, _ => { polarity := .uncertain, confidence := 5 / 10, matchedMarker := some marker }
  | none, some marker, _ => { polarity := .negative, confidence := 75 / 100, matchedMarker := some marker }
  | none, none, some marker => { polarity := .positive, confidence := 7 / 10, matchedMarker := some marker }
  | none, none, none => { polarity := .uncertain, confidence := 4 / 10, matchedMarker := none }

def deriveSubject (topic : Option String) (tokens : List String) : String :=
  match truthy (topic.map trim) with
  | some name => name
  | none => tokens.headD "unknown"

def derivePredicate (matchedMarker : Option String) (tokens : List String) : String :=
  match matchedMarker with
  | some marker => marker
  | none => (tokens.find? fun t => positiveMarkers.contains t || negativeMarkers.contains t).getD "mentions"

def deriveObject (tokens : List String) (subject : String) : Option String :=
  if tokens.length ≤ 1 then none else tokens.reverse.find? fun t => t ≠ subject

/-- `_safeTokenize`, where a failed tokenizer gives no tokens. -/
def safeTokenize (tokenized : Option (List String)) : List String := (tokenized.getD []).filter (· ≠ "")

def extract (ruleVersion content : String) (topic : Option String) (tokenized : Option (List String)) : List Claim :=
  if trim content = "" then []
  else
    let tokens := safeTokenize tokenized
    let result := detectPolarity toLowerCase content
    let subject := deriveSubject topic tokens
    [{ subject := subject
       predicate := derivePredicate result.matchedMarker tokens
       object := deriveObject tokens subject
       polarity := result.polarity
       confidence := result.confidence
       ruleVersion := ruleVersion }]

/-! ## The predicate of a claim names its polarity -/

variable {toLowerCase}

theorem mem_of_hit {content marker : String} {markers : List String}
    (h : hit toLowerCase content markers = some marker) :
    marker ∈ markers :=
  List.mem_of_find?_eq_some h

/-- A definite polarity comes from a marker of its table. -/
theorem detectPolarity_marker (content : String) :
    ((detectPolarity toLowerCase content).polarity = .positive →
        ∃ marker ∈ positiveMarkers, (detectPolarity toLowerCase content).matchedMarker = some marker) ∧
      ((detectPolarity toLowerCase content).polarity = .negative →
        ∃ marker ∈ negativeMarkers, (detectPolarity toLowerCase content).matchedMarker = some marker) := by
  cases huncertain : hit toLowerCase content uncertainMarkers with
  | some marker =>
    simp only [detectPolarity, huncertain]
    exact ⟨nofun, nofun⟩
  | none =>
    cases hnegative : hit toLowerCase content negativeMarkers with
    | some marker =>
      simp only [detectPolarity, huncertain, hnegative]
      exact ⟨nofun, fun _ => ⟨marker, mem_of_hit hnegative, rfl⟩⟩
    | none =>
      cases hpositive : hit toLowerCase content positiveMarkers with
      | some marker =>
        simp only [detectPolarity, huncertain, hnegative, hpositive]
        exact ⟨fun _ => ⟨marker, mem_of_hit hpositive, rfl⟩, nofun⟩
      | none =>
        simp only [detectPolarity, huncertain, hnegative, hpositive]
        exact ⟨nofun, nofun⟩

theorem predicate_of_extract {ruleVersion content : String} {topic : Option String} {tokenized : Option (List String)}
    {claim : Claim} (h : claim ∈ extract toLowerCase ruleVersion content topic tokenized) :
    (claim.polarity = .positive → claim.predicate ∈ positiveMarkers) ∧
      (claim.polarity = .negative → claim.predicate ∈ negativeMarkers) := by
  rw [extract] at h
  split at h
  · cases h
  · obtain rfl := List.mem_singleton.mp h
    obtain ⟨hpositive, hnegative⟩ := @detectPolarity_marker toLowerCase content
    constructor
    · intro hpolarity
      obtain ⟨marker, hmarker, hmatched⟩ := hpositive hpolarity
      simp only [hmatched, derivePredicate]
      exact hmarker
    · intro hpolarity
      obtain ⟨marker, hmarker, hmatched⟩ := hnegative hpolarity
      simp only [hmatched, derivePredicate]
      exact hmarker

/-- No marker stands in both tables. -/
theorem markers_disjoint : positiveMarkers.Disjoint negativeMarkers := by
  intro marker hpositive
  revert marker
  decide

end FragmentMemory.ClaimExtractor
