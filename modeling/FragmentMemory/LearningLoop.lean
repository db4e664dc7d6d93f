import FragmentMemory.AddedRows
import FragmentMemory.ReflectOwner

/-! # The learning loop

An automatic reflect labels the items that start with `LEARNING:` after it has stored them, in the list it returns.  The
context builder looks the label up in the source column, where the reflect has written the session.
-/
namespace FragmentMemory.LearningLoop
open ApiKeyStore FragmentTables FragmentReader SessionLinker ReflectProcessor SessionActivityTracker AutoReflect
  ReflectOwner AddedRows RecallQueries MemoryRememberer JsString
open RememberLiveness (sampleSettings)

def learningSource : String := "learning_extraction"

def learningMark : String := "LEARNING:"

def isLearning (content : String) : Bool := learningMark.toList.isPrefixOf content.toList

/-- `replace(/^LEARNING:\s*/, "")`. -/
def withoutLearningMark (content : String) : String :=
  String.ofList ((content.toList.drop learningMark.toList.length).dropWhile isSpace)

/-- An item of the result of a reflect; the reflect itself sets no source on it. -/
structure ReturnedItem where
  id : FragmentId
  content : String
  source : Option String := none
  deriving DecidableEq

/-- The label of a learning, and its content without the mark. -/
def labelLearning (f : SessionFragment) : ReturnedItem :=
  if isLearning f.content then { id := f.id, content := withoutLearningMark f.content, source := some learningSource }
  else { id := f.id, content := f.content }

variable (settings : Settings) (draws : ReflectDraws) (gemini : Gemini)

/-- The fragments that `autoReflect` returns. -/
def returnedItems (world : SessionWorld) (sessionId agentId : String) : List ReturnedItem :=
  if sessionId = "" then []
  else if (getLog world.log).reflected then []
  else if shouldSkipReflect (getLog world.log) then []
  else match gemini with
    | .unavailable | .failed => []
    | .answered result =>
      if result.allEmpty then []
      else match (reflect settings draws world.state (reflectRequest sessionId agentId result)).2 with
        | .ok fragments => fragments.map labelLearning
        | .error _ => []

/-- `#loadLearningFragments`. -/
def loadLearningFragments (store : Store) (agentId : String) (keyId : Option KeyId) : List Fragment :=
  searchBySource store learningSource agentId keyId

/-- The fragment of the item was not there before. -/
def IsNew (world : SessionWorld) (item : ReturnedItem) : Prop := ∀ f ∈ world.store.fragments.rows, f.id ≠ item.id

/-- Every learning that the call has stored is found under the label and without the mark. -/
def LearningClosed (world : SessionWorld) (sessionId agentId : String) (keyId : Option KeyId) : Prop :=
  ∀ item ∈ returnedItems settings draws gemini world sessionId agentId, item.source = some learningSource →
    IsNew world item → ∃ row ∈ loadLearningFragments (autoReflect settings draws gemini world sessionId agentId).store agentId
      keyId, row.id = item.id ∧ row.content = item.content

variable {settings draws gemini}

theorem sourceOf_ne_learning (params : ReflectParams) : sourceOf params ≠ learningSource := by
  intro h
  have hlist := congrArg String.toList h
  simp [sourceOf, learningSource] at hlist

/-- The rows that an automatic reflect adds have a session as their source. -/
theorem adds_autoReflect (world : SessionWorld) (sessionId agentId : String) :
    Adds (fun row => ∃ params, row.source = some (sourceOf params)) world.store
      (autoReflect settings draws gemini world sessionId agentId).store := by
  have hsame : Adds (fun row => ∃ params, row.source = some (sourceOf params)) world.store world.store := Adds.of_eq rfl
  simp only [autoReflect]
  split
  · exact hsame
  · split
    · exact hsame
    · split
      · exact hsame
      · cases gemini with
        | unavailable | failed => exact hsame
        | answered result =>
          simp only
          split
          · exact hsame
          · have hreflect := @adds_reflect settings draws world.state (reflectRequest sessionId agentId result)
            exact hreflect.mono fun row hrow => ⟨_, hrow.source⟩

/-- What is loaded as a learning after an automatic reflect was one before. -/
theorem learning_before {world : SessionWorld} {sessionId agentId : String} {keyId : Option KeyId} {row : Fragment}
    (h : row ∈ loadLearningFragments (autoReflect settings draws gemini world sessionId agentId).store agentId keyId) :
    ∃ f ∈ world.store.fragments.rows, f.source = some learningSource ∧ SameOrigin f row := by
  have hfound := (List.perm_insertionSort _ _).mem_iff.mp (List.mem_of_mem_take h)
  obtain ⟨hrow, hcond⟩ := List.mem_filter.mp hfound
  simp only [Bool.and_eq_true, decide_eq_true_eq] at hcond
  have hsource : row.source = some learningSource := hcond.1.1.1
  rcases adds_autoReflect world sessionId agentId row hrow with ⟨f, hf, hsame⟩ | ⟨f, ⟨params, hadded⟩, hsame⟩
  · exact ⟨f, hf, hsame.source.symm.trans hsource, hsame⟩
  · have hlabel : some (sourceOf params) = some learningSource := by rw [← hadded, ← hsame.source, hsource]
    exact absurd (Option.some.inj hlabel) (sourceOf_ne_learning params)

/-- No learning that an automatic reflect stores is ever found under the label, for no agent and no key; what is found
there was a learning before. -/
theorem learning_closed_iff (settings : Settings) (draws : ReflectDraws) (gemini : Gemini) (world : SessionWorld)
    (sessionId agentId : String) (keyId : Option KeyId) :
    (LearningClosed settings draws gemini world sessionId agentId keyId ↔
      ∀ item ∈ returnedItems settings draws gemini world sessionId agentId, item.source = some learningSource →
        ¬ IsNew world item) ∧
    ∀ row ∈ loadLearningFragments (autoReflect settings draws gemini world sessionId agentId).store agentId keyId,
      ∃ f ∈ world.store.fragments.rows, f.source = some learningSource ∧ SameOrigin f row := by
  refine ⟨⟨fun hclosed item hitem hlearning hnew => ?_, fun hnone item hitem hlearning hnew => ?_⟩,
    fun row hrow => learning_before hrow⟩
  · obtain ⟨row, hrow, hid, -⟩ := hclosed item hitem hlearning hnew
    obtain ⟨f, hf, -, hsame⟩ := learning_before hrow
    exact hnew f hf (hsame.id.symm.trans hid)
  · exact absurd hnew (hnone item hitem hlearning)

def learningText : String := "LEARNING: run the migrations before the seed script."

def learningAnswer : GeminiResult where
  summary := .items [learningText]

/-- SHA-256 on the text of the learning. -/
def learningSettings : Settings :=
  { sampleSettings with digests := {
      hex := fun text =>
        if text = learningText then "c8fb7539b4f485180ea92a93937f1a2019ea85bc8e5851b92014a66ddc15d5d0" else ""
      base64Url := fun _ => "" } }

/-- The world after the answer. -/
def learnedWorld : SessionWorld :=
  autoReflect learningSettings sampleReflectDraws (.answered learningAnswer) loggedWorld "session-01" "default"

theorem returned_learningAnswer :
    (⟨"frag-01", "run the migrations before the seed script.", some learningSource⟩ : ReturnedItem) ∈
      returnedItems learningSettings sampleReflectDraws (.answered learningAnswer) loggedWorld "session-01" "default" := by
  decide +kernel

theorem loaded_learnedWorld : loadLearningFragments learnedWorld.store "default" none = [] := by decide +kernel

/-- The learning of an answer is stored with its mark, under the session. -/
theorem learning_not_found :
    ¬ ∀ settings draws gemini world sessionId agentId keyId,
      LearningClosed settings draws gemini world sessionId agentId keyId := by
  intro h
  have hnew : IsNew loggedWorld ⟨"frag-01", "run the migrations before the seed script.", some learningSource⟩ := by
    intro f hf
    cases hf
  have hclosed :=
    h learningSettings sampleReflectDraws (.answered learningAnswer) loggedWorld "session-01" "default" none
  obtain ⟨row, hrow, -⟩ := hclosed _ returned_learningAnswer rfl hnew
  have hloaded : row ∈ loadLearningFragments learnedWorld.store "default" none := hrow
  rw [loaded_learnedWorld] at hloaded
  cases hloaded

end FragmentMemory.LearningLoop
