import FragmentMemory.FragmentTables
import FragmentMemory.JsString

/-! # Fragment creation from request parameters

`FragmentFactory.create`: validation, masking, truncation, defaults and the content hash that the
factory attaches to a fragment.
-/
namespace FragmentMemory.FragmentFactory
open ApiKeyStore FragmentTables JsString

/-- The text functions that a fragment passes through: masking of personal data, keyword
extraction, the token encoder and lower-casing. -/
structure TextTools where
  redactPII : String → String
  extractKeywords : String → ℕ → List String
  countTokens : String → ℕ
  toLowerCase : String → String

structure FragmentParams where
  content : Option String
  type : Option FragmentType := none
  topic : Option String := none
  keywords : List String := []
  importance : Option ℚ := none
  source : Option String := none
  linkedTo : List FragmentId := []
  agentId : Option String := none
  isAnchor : Bool := false
  contextSummary : Option String := none
  sessionId : Option String := none
  caseId : Option String := none
  goal : Option String := none
  outcome : Option String := none
  phase : Option String := none
  resolutionStatus : Option ResolutionStatus := none
  assertionStatus : Option AssertionStatus := none
  affect : Option Affect := none
  idempotencyKey : Option String := none

def maxFragmentLength : ℕ := 300

def maxEpisodeFragmentLength : ℕ := 1000

def importanceWeight : FragmentType → ℚ
  | .error => 9 / 10
  | .decision => 8 / 10
  | .procedure => 7 / 10
  | .preference => 95 / 100
  | .relation => 6 / 10
  | .episode => 6 / 10
  | .fact => 5 / 10

/-- `URL_ONLY_PATTERN`. -/
def urlOnly (content : String) : Bool :=
  let body := (trim content).toList
  let rest :=
    if "https://".toList.isPrefixOf body then some (body.drop 8)
    else if "http://".toList.isPrefixOf body then some (body.drop 7)
    else none
  match rest with
  | some address => !address.isEmpty && address.all fun c => !isSpace c
  | none => false

/-- The reason for which a content is refused. -/
def validateContent (content : String) (type : Option FragmentType) (topic : Option String) :
    Option String :=
  if utf16Length content < 10 ∧ (words content).length < 3 then
    some "Content too short: length < 10 and word count < 3"
  else if urlOnly content then some "Content is URL-only without context"
  else if type.isNone ∧ topic.isNone then some "Both type and topic are null"
  else none

def inferTTL (type : FragmentType) (importance : ℚ) : TtlTier :=
  if type = .preference then .permanent
  else if 8 / 10 ≤ importance then .permanent
  else if type = .error ∨ type = .procedure then .hot
  else if type = .episode then .warm
  else if 5 / 10 ≤ importance then .warm
  else .cold

variable (digests : Digests) (tools : TextTools)

/-- The factory's hash: the first sixteen hexadecimal digits. -/
def hashContent (content : String) : String := String.ofList ((digests.hex content).toList.take 16)

def normalizeKeywords (keywords : List String) : List String := keywords.map tools.toLowerCase

/-- The masked text, cut to the length limit of its type. -/
def storedContent (raw : String) (type : Option FragmentType) : String :=
  let redacted := tools.redactPII raw
  let maxLen := if type = some .episode then maxEpisodeFragmentLength else maxFragmentLength
  if maxLen < utf16Length redacted then clip redacted maxLen ++ "..." else redacted

/-- `create`, with the generated id and the clock as arguments. -/
def create (newId : FragmentId) (now : Time) (params : FragmentParams) : Except String Fragment :=
  let raw := trim (params.content.getD "")
  if raw = "" then .error "Fragment content is required"
  else match validateContent raw params.type params.topic with
    | some reason => .error reason
    | none =>
      let content := storedContent tools raw params.type
      let type := params.type.getD .fact
      let importance := params.importance.getD (importanceWeight type)
      .ok {
        id := newId
        content := content
        topic := (truthy params.topic).getD "general"
        keywords := if params.keywords.isEmpty then tools.extractKeywords content 5
          else normalizeKeywords tools params.keywords
        type := type
        importance := importance
        contentHash := hashContent digests content
        source := truthy params.source
        linkedTo := params.linkedTo
        agentId := (truthy params.agentId).getD "default"
        ttlTier := inferTTL type importance
        estimatedTokens := tools.countTokens content
        keyId := none
        isAnchor := params.isAnchor
        contextSummary := truthy params.contextSummary
        sessionId := truthy params.sessionId
        caseId := truthy params.caseId
        goal := truthy params.goal
        outcome := truthy params.outcome
        phase := truthy params.phase
        resolutionStatus := params.resolutionStatus
        assertionStatus := params.assertionStatus.getD .observed
        affect := params.affect.getD .neutral
        idempotencyKey := params.idempotencyKey
        createdAt := now }

variable {digests tools}

/-- The hash that the factory attaches is the truncated one of the content it attaches. -/
theorem create_contentHash {newId : FragmentId} {now : Time} {params : FragmentParams} {f : Fragment}
    (h : create digests tools newId now params = .ok f) :
    f.contentHash = hashContent digests f.content := by
  simp only [create] at h
  split at h
  · cases h
  · split at h
    · cases h
    · cases h
      rfl

/-- The factory hands the links of the request on as they are. -/
theorem create_linkedTo {newId : FragmentId} {now : Time} {params : FragmentParams} {f : Fragment}
    (h : create digests tools newId now params = .ok f) :
    f.linkedTo = params.linkedTo ∧ f.id = newId ∧ f.validTo = none := by
  simp only [create] at h
  split at h
  · cases h
  · split at h
    · cases h
    · cases h
      exact ⟨rfl, rfl, rfl⟩

/-- The content of a created fragment is the masked and cut text of the request. -/
theorem create_content {newId : FragmentId} {now : Time} {params : FragmentParams} {f : Fragment}
    (h : create digests tools newId now params = .ok f) :
    f.content = storedContent tools (trim (params.content.getD "")) params.type := by
  simp only [create] at h
  split at h
  · cases h
  · split at h
    · cases h
    · cases h
      rfl

/-- A created fragment has the requested importance, or that of its type, and the requested anchor. -/
theorem create_importance {newId : FragmentId} {now : Time} {params : FragmentParams} {f : Fragment}
    (h : create digests tools newId now params = .ok f) :
    f.importance = params.importance.getD (importanceWeight (params.type.getD .fact)) ∧
      f.isAnchor = params.isAnchor := by
  simp only [create] at h
  split at h
  · cases h
  · split at h
    · cases h
    · cases h
      exact ⟨rfl, rfl⟩

theorem create_columns {newId : FragmentId} {now : Time} {params : FragmentParams} {f : Fragment}
    (h : create digests tools newId now params = .ok f) :
    f.type = params.type.getD .fact ∧ f.source = truthy params.source ∧
    f.resolutionStatus = params.resolutionStatus := by
  simp only [create] at h
  split at h
  · cases h
  · split at h
    · cases h
    · cases h
      exact ⟨rfl, rfl, rfl⟩

theorem create_topic {newId : FragmentId} {now : Time} {params : FragmentParams} {f : Fragment}
    (h : create digests tools newId now params = .ok f) : f.topic = (truthy params.topic).getD "general" := by
  simp only [create] at h
  split at h
  · cases h
  · split at h
    · cases h
    · cases h
      rfl

theorem create_sessionId {newId : FragmentId} {now : Time} {params : FragmentParams} {f : Fragment}
    (h : create digests tools newId now params = .ok f) : f.sessionId = truthy params.sessionId := by
  simp only [create] at h
  split at h
  · cases h
  · split at h
    · cases h
    · cases h
      rfl

theorem create_idempotencyKey {newId : FragmentId} {now : Time} {params : FragmentParams} {f : Fragment}
    (h : create digests tools newId now params = .ok f) : f.idempotencyKey = params.idempotencyKey := by
  simp only [create] at h
  split at h
  · cases h
  · split at h
    · cases h
    · cases h
      rfl

end FragmentMemory.FragmentFactory
