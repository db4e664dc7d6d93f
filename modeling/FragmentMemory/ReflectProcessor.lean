import FragmentMemory.CreatedRows
import FragmentMemory.WorkingMemory

/-! # Reflect

`ReflectProcessor.process`: the items of a session summary become fragments in one batch, are linked among each other,
and an episode is remembered with a milestone.  What the request leaves out is taken from the fragments and the working
memory of the session.
-/
namespace FragmentMemory.ReflectProcessor
open ApiKeyStore FragmentTables FragmentReader FragmentFactory MemoryRememberer BatchRememberProcessor
  EpisodeContinuityService SessionLinker WorkingMemory CreatedRows JsString

/-- A summary is missing, a list of items or one text. -/
inductive Summary
  | missing
  | items (items : List String)
  | text (text : String)
  deriving DecidableEq

structure ReflectParams where
  sessionId : Option String := none
  agentId : Option String := none
  keyId : Option KeyId := none
  workspace : Option String := none
  defaultWorkspace : Option String := none
  summary : Summary := .missing
  decisions : List String := []
  errorsResolved : List String := []
  newProcedures : List String := []
  openQuestions : List String := []
  narrativeSummary : Option String := none

/-- What a reflect meets outside the tables: the cut of a text into sentences of bounded length, the draws of the batch
and of the episode, and the id of the milestone. -/
structure ReflectDraws where
  sentences : String → List String
  newId : ℕ → FragmentId
  fragmentLimit : Option ℕ := none
  episode : Draws
  milestoneId : String

/-- The tables and the working memory of the session. -/
structure ReflectState where
  continuity : Continuity := {}
  workingMemory : List WorkingItem := []

variable (settings : Settings) (draws : ReflectDraws)

/-! ## Items -/

/-- `HAS_KOREAN`. -/
def korean (c : Char) : Bool :=
  (0xAC00 ≤ c.toNat && c.toNat ≤ 0xD7A3) || (0x3131 ≤ c.toNat && c.toNat ≤ 0x3163)

def metaPrefixes : List String := ["이것", "그것", "위", "이번", "해당", "재작성을 통해"]

def isSelfContainedReflectItem (item : String) : Bool :=
  let t := trim item
  let minLen := if t.toList.any korean then 10 else 20
  minLen ≤ utf16Length t && !metaPrefixes.any fun p => p.toList.isPrefixOf t.toList

/-- `replace(/^prefix\s*/i, "").trim()` for a prefix without letter case. -/
def withoutMark (mark text : String) : String :=
  if mark.toList.isPrefixOf text.toList then trim (String.ofList (text.toList.drop mark.toList.length)) else trim text

/-- The first of equal items stays. -/
def distinct (items : List String) : List String := items.eraseDups

structure Consolidated where
  summary : Option String
  decisions : List String
  errorsResolved : List String
  newProcedures : List String
  openQuestions : List String

/-- `consolidateSessionFragments`. -/
def consolidateSessionFragments (state : ReflectState) (sessionId agentId : String) (keyId : Option KeyId) :
    Option Consolidated :=
  let store := state.continuity.store
  let ids := (store.index.filter fun member => member.1 = .session sessionId).map Prod.snd
  let rows := (getByIds store ids agentId keyId []).map fun f => (f.type, trim f.content)
  let remembered := state.workingMemory.map fun item => (item.type, trim item.content)
  let all := (rows ++ remembered).filter fun row => row.2 ≠ ""
  let ofType := fun type => (all.filter fun row => row.1 = type).map Prod.snd
  let question := fun text : String => "[미해결]".toList <:+: text.toList
  let decisions := (ofType .decision).map (withoutMark "[해결됨]")
  let errors := (ofType .error).map (withoutMark "[해결됨]")
  let procedures := ofType .procedure
  let questions := ((ofType .fact).filter question).map (withoutMark "[미해결]")
  let parts := (all.filter fun row => row.1 ≠ .decision && row.1 ≠ .error && row.1 ≠ .procedure &&
    !(row.1 = .fact && question row.2)).map Prod.snd
  let heading := "세션 " ++ clip sessionId 8 ++ "... 종합: "
  let summary :=
    if parts ≠ [] then some (heading ++ " ".intercalate parts)
    else if decisions ≠ [] ∨ errors ≠ [] ∨ procedures ≠ [] then
      some (heading ++ s!"결정 {decisions.length}건, 에러 해결 {errors.length}건, 절차 {procedures.length}건")
    else none
  if summary = none ∧ questions = [] then none
  else some {
    summary := summary
    decisions := distinct decisions
    errorsResolved := distinct errors
    newProcedures := distinct procedures
    openQuestions := distinct questions }

/-- The items of the request, or those of the session where the request has none. -/
def completed (state : ReflectState) (params : ReflectParams) : ReflectParams :=
  match (truthy params.sessionId).bind fun sessionId =>
      consolidateSessionFragments state sessionId ((truthy params.agentId).getD "default") params.keyId with
  | none => params
  | some found =>
    let orElse := fun given others : List String => if given = [] then others else given
    { params with
      summary := match params.summary, found.summary with
        | .missing, some text | .text "", some text => .text text
        | given, _ => given
      decisions := orElse params.decisions found.decisions
      errorsResolved := orElse params.errorsResolved found.errorsResolved
      newProcedures := orElse params.newProcedures found.newProcedures
      openQuestions := orElse params.openQuestions found.openQuestions }

/-- The texts that `splitAndCreate` joins the sentences to. -/
def joinSentences : String → List String → List String
  | buffer, [] => if trim buffer = "" then [] else [trim buffer]
  | buffer, sentence :: later =>
    if maxFragmentLength < utf16Length (trim (buffer ++ " " ++ sentence)) ∧ buffer ≠ "" then
      trim buffer :: joinSentences sentence later
    else joinSentences (if buffer = "" then sentence else buffer ++ " " ++ sentence) later

/-- `replace(/\s+/g, " ")`. -/
def collapseSpaces : List Char → List Char
  | [] => []
  | c :: rest =>
    if isSpace c then
      match rest with
      | next :: _ => if isSpace next then collapseSpaces rest else ' ' :: collapseSpaces rest
      | [] => [' ']
    else c :: collapseSpaces rest

def sourceOf (params : ReflectParams) : String := "session:" ++ (truthy params.sessionId).getD "unknown"

/-- The parameters of an item. -/
def itemParams (params : ReflectParams) (content : String) (type : FragmentType) (importance : Option ℚ := none)
    (resolutionStatus : Option ResolutionStatus := none) : FragmentParams where
  content := some content
  topic := some "session_reflect"
  type := some type
  importance := importance
  source := some (sourceOf params)
  agentId := some ((truthy params.agentId).getD "default")
  resolutionStatus := resolutionStatus
  sessionId := params.sessionId

def createItem (params : FragmentParams) : Except String Fragment :=
  create settings.digests settings.tools "" draws.episode.now params

/-- The contents of the fragments of `splitAndCreate`. -/
def splitAndCreate (params : ReflectParams) (text : String) : Except String (List String) :=
  let normalized := trim (settings.tools.redactPII (String.ofList (collapseSpaces text.toList)))
  let made := (joinSentences "" (draws.sentences normalized)).mapM fun content =>
    createItem settings draws { itemParams params content .fact with sessionId := none }
  made.map fun fragments => fragments.map Fragment.content

def summaryItems (params : ReflectParams) : Except String (List String) :=
  match params.summary with
  | .missing => .ok []
  | .items items => .ok (items.filter fun item => trim item ≠ "")
  | .text text => if text = "" then .ok [] else splitAndCreate settings draws params text

/-- The items of the five categories in their order. -/
def allItems (params : ReflectParams) (summary : List String) : List FragmentParams :=
  let valid := List.filter isSelfContainedReflectItem
  summary.map (fun item => itemParams params (trim item) .fact) ++
    (valid params.decisions).map (fun item => itemParams params (trim item) .decision (some (7 / 10))) ++
    (valid params.errorsResolved).map (fun item =>
      itemParams params ("[해결됨] " ++ trim item) .error (some (5 / 10)) (some .resolved)) ++
    (valid params.newProcedures).map (fun item => itemParams params (trim item) .procedure (some (7 / 10))) ++
    (valid params.openQuestions).map fun item =>
      itemParams params ("[미해결] " ++ trim item) .fact (some (4 / 10)) (some .open_)

/-- The fragments of the items, none of which is stored when one is refused. -/
def reflectFragments (params : ReflectParams) : Except String (List Fragment) := do
  let summary ← summaryItems settings draws params
  (allItems params summary).mapM (createItem settings draws)

/-! ## Storing -/

/-- What the batch is handed of a fragment. -/
def batchItem (workspace : Option String) (f : Fragment) : BatchItem where
  content := some f.content
  type := some f.type
  topic := some f.topic
  keywords := f.keywords
  importance := some f.importance
  source := f.source
  resolutionStatus := f.resolutionStatus
  assertionStatus := some f.assertionStatus
  affect := some f.affect
  sessionId := f.sessionId
  agentId := some f.agentId
  goal := f.goal
  outcome := f.outcome
  phase := f.phase
  workspace := workspace

def batchContext (params : ReflectParams) : BatchContext where
  keyId := params.keyId
  agentId := (truthy params.agentId).getD "default"
  workspace := params.workspace.or params.defaultWorkspace
  fragmentLimit := draws.fragmentLimit
  newId := draws.newId
  now := draws.episode.now
  redisReady := settings.redisReady

/-- The stored fragments, under the ids that the batch reports. -/
def storedFragments (fragments : List Fragment) (results : List ItemResult) : List SessionFragment :=
  (results.zip fragments).filterMap fun (r, f) =>
    if r.success then r.id.map fun id => { id := id, type := f.type, content := f.content, keywords := f.keywords } else none

/-- The batch of the fragments; nothing is stored without one. -/
def storeFragments (store : Store) (params : ReflectParams) (fragments : List Fragment) :
    Store × Except String (List SessionFragment) :=
  if fragments = [] then (store, .ok [])
  else
    let stored := process settings.digests settings.tools (batchContext settings draws params) store
      (fragments.map fun f => some (batchItem (params.workspace.or params.defaultWorkspace) f))
    (stored.1, stored.2.map fun batch => storedFragments fragments batch.results)

def typeName : FragmentType → String
  | .fact => "fact"
  | .decision => "decision"
  | .error => "error"
  | .preference => "preference"
  | .procedure => "procedure"
  | .relation => "relation"
  | .episode => "episode"

/-- `TYPE_PREFIX` before a content. -/
def narrativePart (f : SessionFragment) : String :=
  match f.type with
  | .decision => "[결정] " ++ f.content
  | .error => "[에러] " ++ f.content
  | .procedure => "[절차] " ++ f.content
  | .fact => f.content
  | other => "[" ++ typeName other ++ "] " ++ f.content

/-- The narrative of the request, or one of the first eight stored fragments. -/
def narrative (params : ReflectParams) (fragments : List SessionFragment) : Option String :=
  (truthy params.narrativeSummary).or
    (if fragments = [] then none else truthy (some (". ".intercalate ((fragments.take 8).map narrativePart))))

/-- `_buildEpisodeContext`. -/
def buildEpisodeContext (fragments : List SessionFragment) : String :=
  let types := (fragments.map SessionFragment.type).eraseDups
  let parts := types.map fun type => typeName type ++ s!" {(fragments.filter fun f => f.type = type).length}건"
  let topics := ((fragments.flatMap SessionFragment.keywords).filter (· ≠ "")).eraseDups.take 5
  s!"세션 파편 {fragments.length}건 저장 (" ++ ", ".intercalate parts ++ ")." ++
    if topics = [] then "" else " 주요 키워드: " ++ ", ".intercalate topics ++ "."

def episodeParams (params : ReflectParams) (content : String) (fragments : List SessionFragment) : RememberParams where
  content := some content
  type := some .episode
  topic := some "session_reflect"
  source := some (sourceOf params)
  sessionId := some ((truthy params.sessionId).getD "unknown")
  importance := some (6 / 10)
  contextSummary := some (buildEpisodeContext fragments)
  agentId := some ((truthy params.agentId).getD "default")
  skipConflictDetection := true

/-- The episode of a narrative; a failed remember makes the reflect throw. -/
def rememberEpisode (store : Store) (params : ReflectParams) (fragments : List SessionFragment) : Store × Option String :=
  match narrative params fragments with
  | none => (store, none)
  | some content =>
    let remembered := remember settings draws.episode store (episodeParams params content fragments)
      { agentId := (truthy params.agentId).getD "default", keyId := params.keyId }
    (remembered.1, match remembered.2 with
      | .failed reason => some reason
      | _ => none)

/-- The milestone of the first episode among the stored fragments, or of the first of them. -/
def milestone (continuity : Continuity) (params : ReflectParams) (fragments : List SessionFragment) : Continuity :=
  match (fragments.find? fun f => f.type = .episode).or fragments.head? with
  | none => continuity
  | some f => linkEpisodeMilestone continuity {
      episodeFragmentId := f.id
      agentId := (truthy params.agentId).getD "default"
      keyId := params.keyId
      sessionId := params.sessionId
      now := draws.episode.now
      newEventId := draws.milestoneId }

def ReflectState.withStore (state : ReflectState) (store : Store) : ReflectState :=
  { state with continuity := { state.continuity with store := store } }

/-- `process`: the state, and what is thrown or the fragments. -/
def reflect (state : ReflectState) (request : ReflectParams) : ReflectState × Except String (List SessionFragment) :=
  let params := completed state request
  match reflectFragments settings draws params with
  | .error reason => (state, .error reason)
  | .ok fragments =>
    let batch := storeFragments settings draws state.continuity.store params fragments
    match batch.2 with
    | .error reason => (state.withStore batch.1, .error reason)
    | .ok stored =>
      let linked := (autoLinkSessionFragments settings.tools batch.1 stored params.keyId).store
      let episode := rememberEpisode settings draws linked params stored
      match episode.2 with
      | some reason => (state.withStore episode.1, .error reason)
      | none =>
        ({ continuity := milestone draws (state.withStore episode.1).continuity params stored
           workingMemory := if (truthy params.sessionId).isSome then [] else state.workingMemory }, .ok stored)

/-! ## The key of what a reflect creates -/

variable {settings draws}

theorem keyId_completed (state : ReflectState) (params : ReflectParams) :
    (completed state params).keyId = params.keyId := by
  simp only [completed]
  split <;> rfl

/-- The batch creates under the key, and the stored fragments are rows of the key. -/
theorem creates_storeFragments (store : Store) (params : ReflectParams) (fragments : List Fragment) :
    CreatesUnder params.keyId store (storeFragments settings draws store params fragments).1 ∧
      ∀ stored, (storeFragments settings draws store params fragments).2 = .ok stored → ∀ f ∈ stored,
        HasKey params.keyId (storeFragments settings draws store params fragments).1 f.id := by
  simp only [storeFragments]
  split
  · refine ⟨CreatesUnder.refl store, fun stored hstored f hf => ?_⟩
    cases hstored
    cases hf
  · obtain ⟨hcreates, hreported⟩ :=
      @creates_process settings.digests settings.tools (batchContext settings draws params) store
      (fragments.map fun f => some (batchItem (params.workspace.or params.defaultWorkspace) f))
    refine ⟨hcreates, fun stored hstored f hf => ?_⟩
    rcases hbatch : (process settings.digests settings.tools (batchContext settings draws params) store
        (fragments.map fun f => some (batchItem (params.workspace.or params.defaultWorkspace) f))).2 with reason | batch
    · rw [hbatch] at hstored
      cases hstored
    · rw [hbatch] at hstored
      cases hstored
      obtain ⟨⟨r, fragment⟩, hpair, hmade⟩ := List.mem_filterMap.mp hf
      simp only at hmade
      split at hmade
      · rename_i hsuccess
        obtain ⟨id, hid, rfl⟩ := Option.map_eq_some_iff.mp hmade
        exact hreported batch hbatch r (List.of_mem_zip hpair).1 hsuccess id hid
      · cases hmade

theorem creates_rememberEpisode (store : Store) (params : ReflectParams) (fragments : List SessionFragment) :
    CreatesUnder params.keyId store (rememberEpisode settings draws store params fragments).1 := by
  simp only [rememberEpisode]
  split
  · exact CreatesUnder.refl store
  · exact creates_remember store { agentId := (truthy params.agentId).getD "default", keyId := params.keyId } rfl

theorem creates_milestone (continuity : Continuity) (params : ReflectParams) (fragments : List SessionFragment) :
    CreatesUnder params.keyId continuity.store (milestone draws continuity params fragments).store := by
  simp only [milestone]
  split
  · exact CreatesUnder.refl continuity.store
  · rename_i f _
    have hlinked := creates_linkEpisodeMilestone continuity
      { episodeFragmentId := f.id
        agentId := (truthy params.agentId).getD "default"
        keyId := params.keyId
        sessionId := params.sessionId
        now := draws.episode.now
        newEventId := draws.milestoneId }
    exact hlinked

/-- What a reflect creates has the key of the request. -/
theorem creates_reflect (state : ReflectState) (request : ReflectParams) :
    CreatesUnder request.keyId state.continuity.store (reflect settings draws state request).1.continuity.store := by
  rw [← keyId_completed state request]
  simp only [reflect]
  split
  · exact CreatesUnder.refl _
  · rename_i fragments _
    obtain ⟨hstored, hrows⟩ :=
      @creates_storeFragments settings draws state.continuity.store (completed state request) fragments
    split
    · exact hstored
    · rename_i stored hok
      have hlinked := hstored.trans (@creates_autoLink _ settings.tools _ stored (hrows stored hok)
        (completed state request).keyId)
      have hepisode := @creates_rememberEpisode settings draws (autoLinkSessionFragments settings.tools
        (storeFragments settings draws state.continuity.store (completed state request) fragments).1 stored
        (completed state request).keyId).store (completed state request) stored
      split
      · exact hlinked.trans hepisode
      · have hmilestone := @creates_milestone draws (state.withStore (rememberEpisode settings draws
          (autoLinkSessionFragments settings.tools
            (storeFragments settings draws state.continuity.store (completed state request) fragments).1 stored
            (completed state request).keyId).store (completed state request) stored).1).continuity
          (completed state request) stored
        exact (hlinked.trans hepisode).trans hmilestone

end FragmentMemory.ReflectProcessor
