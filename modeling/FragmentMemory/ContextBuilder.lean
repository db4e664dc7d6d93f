import Mathlib.Data.Rat.Floor
import FragmentMemory.CoreMemory
import FragmentMemory.FittingSelection
import FragmentMemory.LearningLoop
import FragmentMemory.LiveCounts

/-! # ContextBuilder

`build` loads anchors, core and working memory, keeps each id once, and selects within a token budget: all the anchors,
then what fits by rank.  The flat and the structured response are both made from that selection.  The structured one
also lists the learnings of the agent, which are not selected and not counted.
-/
namespace FragmentMemory.ContextBuilder
open ApiKeyStore FragmentTables FragmentReader FragmentWriter RecallQueries CoreMemory FittingSelection JsString WorkingMemory
open MemoryRememberer (Caller Caller.groups)
open ReflectProcessor (typeName)

/-! ## Parameters and services -/

/-- The parameters of the `recall` that the builder is given. -/
structure RecallParams where
  type : Option String := none
  topic : Option String := none
  tokenBudget : ℕ
  minImportance : ℚ := 3 / 10
  isAnchor : Bool := false
  caller : Caller
  workspace : Option String

/-- What the constructor takes, the clock, and whether the reads succeed that are allowed to fail. -/
structure ContextDeps where
  «recall» : RecallParams → List Fragment
  store : Store
  workingMemory : String → List WorkingItem := fun _ => []
  countTokens : String → ℕ
  now : Time
  maxAnchorFragments : ℕ := 10
  anchorsReadable : Bool := true
  learningsReadable : Bool := true
  unreflectedSessions : ℕ := 0

/-- The parameters of `context`; a budget that is no finite number is none. -/
structure ContextParams where
  caller : Caller
  workspace : Option String := none
  defaultWorkspace : Option String := none
  types : Option (List String) := none
  sessionId : Option String := none
  tokenBudget : Option ℚ := none
  structured : Bool := false

def ContextParams.scopeWorkspace (params : ContextParams) : Option String := params.workspace.or params.defaultWorkspace

def defaultTokenBudget : ℚ := 2000

def ContextParams.budget (params : ContextParams) : ℚ :=
  match params.tokenBudget with
  | none => defaultTokenBudget
  | some tokenBudget => max 0 tokenBudget

variable (deps : ContextDeps) (params : ContextParams)

/-! ## The loaders -/

/-- The recalls of `#loadCoreMemory`; `session_reflect` is a label where its list is not empty. -/
def recalled : Recalled :=
  let types := params.types.getD ["preference", "error", "procedure", "decision"]
  let reflected := deps.recall
    { topic := some "session_reflect", tokenBudget := 300, caller := params.caller, workspace := params.scopeWorkspace }
  { types := if reflected.isEmpty then types else types ++ ["session_reflect"]
    lists := fun label =>
      if label = "session_reflect" ∧ reflected.isEmpty = false then reflected
      else if label ∈ types then
        deps.recall
          { type := some label, tokenBudget := max 250 (1500 / types.length), caller := params.caller
            workspace := params.scopeWorkspace }
      else [] }

def wmCharBudget : ℕ := 800 * 4

def maxWmFragments : ℕ := 10

/-- The row of a cached id that a session may still see; the batches of thirty ids read the same store. -/
def workingRow (ids : List FragmentId) (id : FragmentId) : Option Fragment :=
  ((getByIds deps.store ids params.caller.agentId params.caller.keyId (params.caller.groups.getD [])).find?
      fun f => f.id = id).filter fun f =>
    f.live && !f.isAnchor && agentScope params.caller.agentId f && workspaceCond params.scopeWorkspace f

/-- The loop of `#loadWorkingMemory` over the ids, the newest first. -/
def fillWorking (row : FragmentId → Option Fragment) : List FragmentId → List Fragment → ℕ → List Fragment
  | [], kept, _ => kept
  | id :: later, kept, wmChars =>
    match row id with
    | none => fillWorking row later kept wmChars
    | some item =>
      if wmChars + utf16Length item.content > wmCharBudget then kept
      else if (kept ++ [item]).length ≥ maxWmFragments then kept ++ [item]
      else fillWorking row later (kept ++ [item]) (wmChars + utf16Length item.content)

def loadWorkingMemory : List Fragment :=
  match truthy params.sessionId with
  | none => []
  | some sessionId =>
    let ids := ((deps.workingMemory sessionId).reverse.map WorkingItem.id).filter fun id => id ≠ ""
    let distinct := DistinctOn.distinctOn (fun id => id) ids
    fillWorking (workingRow deps params distinct) distinct [] 0

/-- `#loadAnchorMemory`. -/
def loadAnchorMemory : List Fragment :=
  if deps.anchorsReadable then
    let found := deps.store.fragments.rows.filter fun f =>
      f.isAnchor && f.live && params.caller.groups.all (fun members => f.keyId.any members.contains) &&
        workspaceCond params.scopeWorkspace f
    (found.insertionSort fun f g => g.importance ≤ f.importance).take deps.maxAnchorFragments
  else []

/-- `#loadLearningFragments`. -/
def loadLearningFragments : List Fragment :=
  if deps.learningsReadable then
    LearningLoop.loadLearningFragments deps.store params.caller.agentId params.caller.keyId
  else []

/-- `typeFragMap.get("learning")` after the loaders. -/
def learningFragments : List Fragment :=
  let found := loadLearningFragments deps params
  if found.isEmpty then (recalled deps params).lists "learning" else found

/-! ## The selection -/

/-- `unique`, with the ids that were seen before; a fragment without an id is kept. -/
def unique : List FragmentId → List Fragment → List Fragment
  | _, [] => []
  | seen, f :: later =>
    if f.id ≠ "" ∧ f.id ∈ seen then unique seen later
    else f :: unique (if f.id ≠ "" then f.id :: seen else seen) later

def anchorFragments : List Fragment := unique [] (loadAnchorMemory deps params)

def uniqueCore : List Fragment :=
  unique ((anchorFragments deps params).map Fragment.id) (loadCoreMemory (recalled deps params) deps.now)

def uniqueWorking : List Fragment :=
  unique ((anchorFragments deps params).map Fragment.id ++ (uniqueCore deps params).map Fragment.id)
    (loadWorkingMemory deps params)

/-- The rank score: importance and activation. -/
def score (f : Fragment) : ℚ := f.importance * (6 / 10) + f.emaActivation.getD 0 * (4 / 10)

def tokens (fragments : List Fragment) : ℕ := (fragments.map fun f => deps.countTokens f.content).sum

/-- The core and the working fragments, each an object of its own. -/
def candidates : List (Fragment × ℕ) := (uniqueCore deps params ++ uniqueWorking deps params).zipIdx

/-- The candidates by rank. -/
def ranked : List (Fragment × ℕ) :=
  (candidates deps params).insertionSort fun a b => score b.1 ≤ score a.1

/-- `selectRankedFragments`: the candidates that it adds to the anchors. -/
def picked : List (Fragment × ℕ) :=
  fillFitting (fun entry : Fragment × ℕ => deps.countTokens entry.1.content) (fun used => (used : ℚ) ≤ params.budget)
    (tokens deps (anchorFragments deps params)) (ranked deps params)

/-- The selected fragments by rank. -/
def selection : List Fragment := anchorFragments deps params ++ (picked deps params).map Prod.fst

def coreFragments : List Fragment :=
  (((candidates deps params).take (uniqueCore deps params).length).filter fun entry => entry ∈ picked deps params).map Prod.fst

def wmFragments : List Fragment :=
  (((candidates deps params).drop (uniqueCore deps params).length).filter fun entry => entry ∈ picked deps params).map Prod.fst

def dedupResult : List Fragment := anchorFragments deps params ++ coreFragments deps params ++ wmFragments deps params

/-! ## The responses -/

structure ContextHint where
  signal : String
  suggestion : String
  trigger : String
  deriving DecidableEq

def buildContextHint (fragments : List Fragment) : Option ContextHint :=
  let count := (fragments.filter fun f => f.type = .error).length
  if count > 0 then
    some ⟨"active_errors", s!"미해결 에러 파편 {count}개 있음. 이미 해결된 항목은 forget으로 정리하세요.", "forget"⟩
  else if fragments.isEmpty then
    some ⟨"empty_context", "저장된 기억이 없습니다. 작업 후 reflect나 remember로 중요 내용을 저장하세요.", "remember"⟩
  else none

/-- The fragments by type, in the order in which the types appear. -/
def sections (fragments : List Fragment) : List (FragmentType × List Fragment) :=
  (DistinctOn.distinctOn (fun type => type) (fragments.map Fragment.type)).map fun type =>
    (type, fragments.filter fun f => f.type = type)

/-- `#buildInjectionLines`. -/
def injectionLines (anchors core working : List Fragment) (unreflectedSessions : ℕ) : List String :=
  let anchorLines := if anchors.isEmpty then [] else "[ANCHOR MEMORY]" :: anchors.map fun f => "- " ++ f.content
  let coreLines :=
    if core.isEmpty then []
    else (if anchorLines.isEmpty then [] else [""]) ++ "[CORE MEMORY]" :: (sections core).flatMap fun entry =>
      ("[" ++ (typeName entry.1).toUpper ++ "]") :: entry.2.map fun f => "- " ++ f.content
  let wmLines :=
    if working.isEmpty then []
    else "" :: "[WORKING MEMORY]" :: working.map fun f => "- [" ++ (typeName f.type).toUpper ++ "] " ++ f.content
  let hintLines :=
    if unreflectedSessions = 0 then []
    else ["", "[SYSTEM HINT]",
      s!"- 미반영 세션 {unreflectedSessions}개 감지. 세션 종료 전 reflect()를 호출하면 학습 내용이 보존됩니다."]
  anchorLines ++ coreLines ++ wmLines ++ hintLines

structure FlatResponse where
  fragments : List Fragment
  totalTokens : ℕ
  count : ℕ
  anchorTokens : ℕ
  coreTokens : ℕ
  wmTokens : ℕ
  wmCount : ℕ
  anchorCount : ℕ
  injectionText : String
  hint : Option ContextHint

/-- An item of the ranked injection; an anchor has no score. -/
structure RankedItem where
  rank : ℕ
  score : Option ℚ
  fragment : Fragment
  anchor : Bool

structure StructuredResponse where
  preferences : List Fragment
  errors : List Fragment
  decisions : List Fragment
  procedures : List Fragment
  others : List (FragmentType × List Fragment)
  currentSession : List Fragment
  permanent : List Fragment
  recent : List Fragment
  totalTokens : ℕ
  count : ℕ
  anchorTokens : ℕ
  coreTokens : ℕ
  wmTokens : ℕ
  wmCount : ℕ
  anchorCount : ℕ
  rankedItems : List RankedItem
  rankedTokens : ℕ
  hint : Option ContextHint

/-- `+score.toFixed(4)`. -/
def rounded (x : ℚ) : ℚ := (⌊x * 10000 + 1 / 2⌋ : ℤ) / 10000

def rankedItems : List RankedItem :=
  let anchors := (anchorFragments deps params).map fun f => ((none : Option ℚ), f, true)
  let others := (picked deps params).map fun entry => (some (rounded (score entry.1)), entry.1, false)
  (anchors ++ others).zipIdx.map fun item => ⟨item.2 + 1, item.1.1, item.1.2.1, item.1.2.2⟩

def flatResponse : FlatResponse where
  fragments := dedupResult deps params
  totalTokens := tokens deps (anchorFragments deps params) + tokens deps (coreFragments deps params) +
    tokens deps (wmFragments deps params)
  count := (dedupResult deps params).length
  anchorTokens := tokens deps (anchorFragments deps params)
  coreTokens := tokens deps (coreFragments deps params)
  wmTokens := tokens deps (wmFragments deps params)
  wmCount := (wmFragments deps params).length
  anchorCount := (anchorFragments deps params).length
  injectionText := "\n".intercalate (injectionLines (anchorFragments deps params) (coreFragments deps params)
    (wmFragments deps params) deps.unreflectedSessions)
  hint := buildContextHint (dedupResult deps params)

/-- The types that have a section of their own. -/
def mainTypes : List FragmentType := [.preference, .error, .decision, .procedure]

/-- `#buildStructuredResponse`. -/
def structuredResponse : StructuredResponse where
  preferences := (coreFragments deps params).filter fun f => f.type = .preference
  errors := (coreFragments deps params).filter fun f => f.type = .error
  decisions := (coreFragments deps params).filter fun f => f.type = .decision
  procedures := (coreFragments deps params).filter fun f => f.type = .procedure
  others := (sections (coreFragments deps params)).filter fun entry => entry.1 ∉ mainTypes
  currentSession := wmFragments deps params
  permanent := anchorFragments deps params
  recent := learningFragments deps params
  totalTokens := tokens deps (anchorFragments deps params) + tokens deps (coreFragments deps params) +
    tokens deps (wmFragments deps params)
  count := (dedupResult deps params).length
  anchorTokens := tokens deps (anchorFragments deps params)
  coreTokens := tokens deps (coreFragments deps params)
  wmTokens := tokens deps (wmFragments deps params)
  wmCount := (wmFragments deps params).length
  anchorCount := (anchorFragments deps params).length
  rankedItems := rankedItems deps params
  rankedTokens := tokens deps (selection deps params)
  hint := buildContextHint (dedupResult deps params)

inductive Response
  | flat (response : FlatResponse)
  | structured (response : StructuredResponse)

/-- `build`: the response, and the ids that are stored as seen by the session. -/
def build : Response × Option (String × List FragmentId) :=
  (if params.structured then .structured (structuredResponse deps params) else .flat (flatResponse deps params),
    (truthy params.sessionId).map fun sessionId =>
      (sessionId, ((dedupResult deps params).map Fragment.id).filter fun id => id ≠ ""))

/-- The core sections of a structured response. -/
def StructuredResponse.core (response : StructuredResponse) : List Fragment :=
  response.preferences ++ response.errors ++ response.decisions ++ response.procedures ++ response.others.flatMap Prod.snd

/-- The fragments of the sections that are counted, all but the auxiliary learnings. -/
def StructuredResponse.counted (response : StructuredResponse) : List Fragment :=
  response.permanent ++ response.core ++ response.currentSession

/-- Every fragment of a structured response. -/
def StructuredResponse.fragments (response : StructuredResponse) : List Fragment := response.counted ++ response.recent

/-! ## The selection holds each id once and fits the budget -/

variable {deps params}

/-- The ids of fragments, where they have one. -/
def ids (fragments : List Fragment) : List FragmentId := (fragments.map Fragment.id).filter fun id => id ≠ ""

theorem ids_append (front back : List Fragment) : ids (front ++ back) = ids front ++ ids back := by
  rw [ids, List.map_append, List.filter_append]
  rfl

theorem unique_spec (seen : List FragmentId) (fragments : List Fragment) :
    (ids (unique seen fragments)).Nodup ∧ ∀ id ∈ ids (unique seen fragments), id ∉ seen := by
  induction fragments generalizing seen with
  | nil => exact ⟨List.nodup_nil, fun id hid => absurd hid List.not_mem_nil⟩
  | cons f later ih =>
    rw [unique]
    by_cases hseen : f.id ≠ "" ∧ f.id ∈ seen
    · rw [if_pos hseen]
      exact ih seen
    · rw [if_neg hseen]
      by_cases hempty : f.id = ""
      · have hsame : ids (f :: unique seen later) = ids (unique seen later) := by simp [ids, hempty]
        rw [if_neg (not_not.mpr hempty), hsame]
        exact ih seen
      · obtain ⟨hnodup, hapart⟩ := ih (f.id :: seen)
        have hcons : ids (f :: unique (f.id :: seen) later) = f.id :: ids (unique (f.id :: seen) later) := by
          simp [ids, hempty]
        rw [if_pos hempty, hcons]
        refine ⟨List.nodup_cons.mpr ⟨fun hmem => hapart _ hmem List.mem_cons_self, hnodup⟩, ?_⟩
        intro id hid
        rcases List.mem_cons.mp hid with rfl | hlater
        · exact fun hmem => hseen ⟨hempty, hmem⟩
        · exact fun hmem => hapart id hlater (List.mem_cons_of_mem _ hmem)

/-- Fragments with different ids are all kept. -/
theorem unique_eq_self {seen : List FragmentId} {fragments : List Fragment} (hnodup : (fragments.map Fragment.id).Nodup)
    (hapart : ∀ f ∈ fragments, f.id ∉ seen) : unique seen fragments = fragments := by
  induction fragments generalizing seen with
  | nil => rfl
  | cons f later ih =>
    obtain ⟨hfirst, hlater⟩ := List.nodup_cons.mp hnodup
    have hnot : ¬ (f.id ≠ "" ∧ f.id ∈ seen) := fun hseen => hapart f List.mem_cons_self hseen.2
    rw [unique, if_neg hnot]
    refine congrArg (f :: ·) (ih hlater ?_)
    intro g hg
    have hold := hapart g (List.mem_cons_of_mem f hg)
    split
    · intro hmem
      rcases List.mem_cons.mp hmem with hsame | hin
      · exact hfirst (List.mem_map.mpr ⟨g, hg, hsame⟩)
      · exact hold hin
    · exact hold

theorem anchorFragments_eq : anchorFragments deps params = loadAnchorMemory deps params := by
  refine unique_eq_self ?_ fun f _ => List.not_mem_nil
  rw [loadAnchorMemory]
  split
  · refine List.Nodup.sublist ((List.take_sublist _ _).map _) ?_
    refine ((List.perm_insertionSort _ _).map _).nodup_iff.mpr ?_
    exact List.Nodup.sublist (List.filter_sublist.map _) (LiveCounts.nodup_ids deps.store.fragments)
  · exact List.nodup_nil

/-- Anchors, core and working memory share no id. -/
theorem nodup_loaded :
    (ids (anchorFragments deps params ++ (uniqueCore deps params ++ uniqueWorking deps params))).Nodup := by
  obtain ⟨hanchors, -⟩ := unique_spec [] (loadAnchorMemory deps params)
  obtain ⟨hcore, hcoreApart⟩ := unique_spec ((anchorFragments deps params).map Fragment.id)
    (loadCoreMemory (recalled deps params) deps.now)
  obtain ⟨hworking, hworkingApart⟩ := unique_spec
    ((anchorFragments deps params).map Fragment.id ++ (uniqueCore deps params).map Fragment.id) (loadWorkingMemory deps params)
  have hmap : ∀ {fragments : List Fragment} {id : FragmentId}, id ∈ ids fragments → id ∈ fragments.map Fragment.id :=
    fun hid => (List.mem_filter.mp hid).1
  rw [ids_append, ids_append]
  refine List.nodup_append.mpr ⟨hanchors, List.nodup_append.mpr ⟨hcore, hworking, ?_⟩, ?_⟩
  · intro id hid other hother heq
    rw [heq] at hid
    exact hworkingApart other hother (List.mem_append_right _ (hmap hid))
  · intro id hid other hother heq
    rw [heq] at hid
    rcases List.mem_append.mp hother with hin | hin
    · exact hcoreApart other hin (hmap hid)
    · exact hworkingApart other hin (List.mem_append_left _ (hmap hid))

theorem ranked_perm : (ranked deps params).Perm (candidates deps params) := List.perm_insertionSort _ _

theorem picked_sublist : (picked deps params).Sublist (ranked deps params) := fillFitting_sublist _ _

/-- Every candidate is an object of its own. -/
theorem nodup_candidates : (candidates deps params).Nodup := List.Nodup.of_map Prod.snd (by
  rw [candidates, List.zipIdx_map_snd]
  exact List.nodup_range')

theorem nodup_picked : (picked deps params).Nodup := picked_sublist.nodup (ranked_perm.nodup_iff.mpr nodup_candidates)

/-- The candidates that are picked, in the order in which they were loaded. -/
theorem filter_picked : ((candidates deps params).filter fun entry => entry ∈ picked deps params).Perm (picked deps params) := by
  refine (List.perm_ext_iff_of_nodup (nodup_candidates.filter _) nodup_picked).mpr fun entry => ?_
  rw [List.mem_filter, decide_eq_true_eq]
  exact ⟨fun h => h.2, fun h => ⟨ranked_perm.mem_iff.mp (picked_sublist.subset h), h⟩⟩

theorem dedupResult_perm : (dedupResult deps params).Perm (selection deps params) := by
  have hparts : coreFragments deps params ++ wmFragments deps params =
      ((candidates deps params).filter fun entry => entry ∈ picked deps params).map Prod.fst := by
    rw [coreFragments, wmFragments, ← List.map_append, ← List.filter_append, List.take_append_drop]
  rw [dedupResult, List.append_assoc, hparts]
  exact (filter_picked.map Prod.fst).append_left _

theorem nodup_selection : (ids (selection deps params)).Nodup := by
  have hcandidates : (candidates deps params).map Prod.fst = uniqueCore deps params ++ uniqueWorking deps params :=
    List.zipIdx_map_fst 0 _
  have hperm : (anchorFragments deps params ++ (ranked deps params).map Prod.fst).Perm
      (anchorFragments deps params ++ (uniqueCore deps params ++ uniqueWorking deps params)) := by
    rw [← hcandidates]
    exact (ranked_perm.map Prod.fst).append_left _
  have hranked : (ids (anchorFragments deps params ++ (ranked deps params).map Prod.fst)).Nodup :=
    ((hperm.map Fragment.id).filter _).nodup_iff.mpr nodup_loaded
  exact (((picked_sublist.map Prod.fst).append_left _).map Fragment.id).filter _ |>.nodup hranked

/-! ## Tokens -/

theorem tokens_append (front back : List Fragment) :
    tokens deps (front ++ back) = tokens deps front + tokens deps back := by
  rw [tokens, List.map_append, List.sum_append]
  rfl

theorem tokens_perm {fragments other : List Fragment} (h : fragments.Perm other) :
    tokens deps fragments = tokens deps other := (h.map _).sum_eq

theorem tokens_picked : tokens deps ((picked deps params).map Prod.fst) =
    total (fun entry : Fragment × ℕ => deps.countTokens entry.1.content) (picked deps params) := by
  rw [tokens, List.map_map]
  rfl

/-- With anchors beyond the budget nothing else is picked. -/
theorem picked_eq_nil (h : params.budget < tokens deps (anchorFragments deps params)) : picked deps params = [] := by
  have hnone : ∀ entries : List (Fragment × ℕ),
      fillFitting (fun entry : Fragment × ℕ => deps.countTokens entry.1.content)
        (fun used => (used : ℚ) ≤ params.budget) (tokens deps (anchorFragments deps params)) entries = [] := by
    intro entries
    induction entries with
    | nil => rfl
    | cons entry later ih =>
      have hover : ¬ ((tokens deps (anchorFragments deps params) + deps.countTokens entry.1.content : ℕ) : ℚ) ≤
          params.budget := by
        have hmore : (tokens deps (anchorFragments deps params) : ℚ) ≤
            (tokens deps (anchorFragments deps params) + deps.countTokens entry.1.content : ℕ) := by
          exact_mod_cast Nat.le_add_right _ _
        exact not_le.mpr (lt_of_lt_of_le h hmore)
      rw [fillFitting, if_neg hover, ih]
  exact hnone _

theorem tokens_selection_le : (tokens deps (selection deps params) : ℚ) ≤
    max params.budget (tokens deps (anchorFragments deps params)) := by
  rw [selection, tokens_append, tokens_picked]
  rcases le_or_gt (tokens deps (anchorFragments deps params) : ℚ) params.budget with hfits | hover
  · have hwithin := @fits_fillFitting _ (fun entry : Fragment × ℕ => deps.countTokens entry.1.content)
      (fun used => (used : ℚ) ≤ params.budget) _ _ hfits (ranked deps params)
    exact le_max_of_le_left hwithin
  · rw [picked_eq_nil hover, total_nil, Nat.add_zero]
    exact le_max_right _ _

/-! ## The core sections -/

/-- Fragments sorted into sections by distinct types. -/
theorem perm_sections {types : List FragmentType} (hnodup : types.Nodup) {fragments : List Fragment}
    (hcovers : ∀ f ∈ fragments, f.type ∈ types) :
    (types.flatMap fun type => fragments.filter fun f => f.type = type).Perm fragments := by
  induction types generalizing fragments with
  | nil =>
    have hnil : fragments = [] := List.eq_nil_iff_forall_not_mem.mpr fun f hf => List.not_mem_nil (hcovers f hf)
    rw [hnil]
    exact List.Perm.refl _
  | cons type later ih =>
    obtain ⟨hfirst, hlater⟩ := List.nodup_cons.mp hnodup
    have hrest : ∀ f ∈ fragments.filter (fun f => !decide (f.type = type)), f.type ∈ later := by
      intro f hf
      obtain ⟨hmem, hother⟩ := List.mem_filter.mp hf
      have hne : f.type ≠ type := by simpa using hother
      exact (List.mem_cons.mp (hcovers f hmem)).resolve_left hne
    have hsame : (later.flatMap fun other => fragments.filter fun f => f.type = other) =
        later.flatMap fun other => (fragments.filter fun f => !decide (f.type = type)).filter fun f =>
          f.type = other := by
      refine List.flatMap_congr fun other hother => ?_
      rw [List.filter_filter]
      refine List.filter_congr fun f _ => ?_
      by_cases heq : f.type = other
      · have hne : other ≠ type := ne_of_mem_of_not_mem hother hfirst
        simp [heq, hne]
      · simp [heq]
    rw [List.flatMap_cons, hsame]
    exact ((ih hlater hrest).append_left _).trans (List.filter_append_perm (fun f : Fragment => f.type = type) fragments)

/-- The core sections of the structured response hold the core fragments. -/
theorem core_perm : (structuredResponse deps params).core.Perm (coreFragments deps params) := by
  have hdistinct : (DistinctOn.distinctOn (fun type => type) ((coreFragments deps params).map Fragment.type)).Nodup := by
    have hnodup := DistinctOn.nodup_distinctOn (fun type : FragmentType => type)
      ((coreFragments deps params).map Fragment.type)
    rw [List.map_id'] at hnodup
    exact hnodup
  have hothers : (structuredResponse deps params).others.flatMap Prod.snd =
      (((DistinctOn.distinctOn (fun type => type) ((coreFragments deps params).map Fragment.type)).filter
        fun type => type ∉ mainTypes).flatMap fun type => (coreFragments deps params).filter fun f =>
          f.type = type) := by
    rw [structuredResponse, sections, List.filter_map, List.flatMap_map]
    rfl
  have hcore : (structuredResponse deps params).core = (mainTypes ++
      (DistinctOn.distinctOn (fun type => type) ((coreFragments deps params).map Fragment.type)).filter
        fun type => type ∉ mainTypes).flatMap fun type => (coreFragments deps params).filter fun f =>
          f.type = type := by
    rw [StructuredResponse.core, hothers, List.flatMap_append]
    simp [structuredResponse, mainTypes]
  rw [hcore]
  refine perm_sections ?_ ?_
  · refine List.nodup_append.mpr ⟨by decide, hdistinct.filter _, ?_⟩
    intro type htype other hother heq
    rw [heq] at htype
    exact of_decide_eq_true (List.mem_filter.mp hother).2 htype
  · intro f hf
    by_cases hmain : f.type ∈ mainTypes
    · exact List.mem_append_left _ hmain
    · refine List.mem_append_right _ (List.mem_filter.mpr ⟨?_, decide_eq_true hmain⟩)
      obtain ⟨type, htype, heq⟩ := DistinctOn.exists_mem_distinctOn (fun type : FragmentType => type)
        (List.mem_map_of_mem (f := Fragment.type) hf)
      rw [← heq]
      exact htype

theorem counted_perm : (structuredResponse deps params).counted.Perm (dedupResult deps params) := by
  rw [StructuredResponse.counted, dedupResult]
  exact (core_perm.append_left _).append_right _

/-! ## The two shapes -/

/-- A context within its selection: all the anchors are selected, the selection fits the budget or the anchors and has
no id twice, the reported tokens are those of the fragments that a response contains, and both shapes contain the
selected fragments and no other ones. -/
structure StaysWithin (contained : StructuredResponse → List Fragment) (deps : ContextDeps) (params : ContextParams) :
    Prop where
  anchors : ∀ f ∈ loadAnchorMemory deps params, f ∈ selection deps params
  budget : (tokens deps (selection deps params) : ℚ) ≤ max params.budget (tokens deps (loadAnchorMemory deps params))
  once : (ids (selection deps params)).Nodup
  flatAnchors : (flatResponse deps params).anchorTokens =
    tokens deps ((flatResponse deps params).fragments.take (flatResponse deps params).anchorCount)
  flatCore : (flatResponse deps params).coreTokens =
    tokens deps (((flatResponse deps params).fragments.take
      ((flatResponse deps params).count - (flatResponse deps params).wmCount)).drop (flatResponse deps params).anchorCount)
  flatWorking : (flatResponse deps params).wmTokens =
    tokens deps ((flatResponse deps params).fragments.drop
      ((flatResponse deps params).count - (flatResponse deps params).wmCount))
  flatTotal : (flatResponse deps params).totalTokens = tokens deps (flatResponse deps params).fragments
  structuredAnchors : (structuredResponse deps params).anchorTokens = tokens deps (structuredResponse deps params).permanent
  structuredCore : (structuredResponse deps params).coreTokens = tokens deps (structuredResponse deps params).core
  structuredWorking : (structuredResponse deps params).wmTokens =
    tokens deps (structuredResponse deps params).currentSession
  structuredTotal : (structuredResponse deps params).totalTokens = tokens deps (contained (structuredResponse deps params))
  flatWithin : ∀ f ∈ (flatResponse deps params).fragments, f ∈ selection deps params
  structuredWithin : ∀ f ∈ contained (structuredResponse deps params), f ∈ selection deps params
  same : (contained (structuredResponse deps params)).Perm (flatResponse deps params).fragments

/-- Every context stays within its selection, apart from the auxiliary learnings of the structured shape. -/
theorem context_staysWithin (deps : ContextDeps) (params : ContextParams) :
    StaysWithin StructuredResponse.counted deps params := by
  have hfront : (flatResponse deps params).count - (flatResponse deps params).wmCount =
      (anchorFragments deps params ++ coreFragments deps params).length := by
    simp only [flatResponse, dedupResult, List.length_append]
    omega
  have hanchors := @anchorFragments_eq deps params
  have htotal : (flatResponse deps params).totalTokens = tokens deps (dedupResult deps params) := by
    rw [dedupResult, tokens_append, tokens_append]
    rfl
  refine ⟨?_, ?_, nodup_selection, ?_, ?_, ?_, htotal, rfl, (tokens_perm core_perm).symm, rfl, ?_, ?_, ?_, counted_perm⟩
  · intro f hf
    rw [← hanchors] at hf
    exact List.mem_append_left _ hf
  · rw [← hanchors]
    exact tokens_selection_le
  · simp only [flatResponse, dedupResult]
    rw [List.append_assoc, List.take_left]
  · rw [hfront]
    simp only [flatResponse, dedupResult]
    rw [List.take_left, List.drop_left]
  · rw [hfront]
    simp only [flatResponse, dedupResult]
    rw [List.drop_left]
  · exact htotal.trans (tokens_perm counted_perm).symm
  · intro f hf
    exact dedupResult_perm.mem_iff.mp hf
  · intro f hf
    exact dedupResult_perm.mem_iff.mp (counted_perm.mem_iff.mp hf)

/-- A learning of the agent, whose type none of the default recalls looks for. -/
def learningRow : Fragment where
  id := "frag-01"
  content := "Run the migrations before the seed script."
  topic := "deploy"
  type := .fact
  importance := 6 / 10
  contentHash := "1fe182841b51a754f7d72e399ef2e08dca087f7153a3c887bcec97b8941b4c55"
  source := some "learning_extraction"
  keyId := none
  createdAt := 0

def learningDeps : ContextDeps where
  «recall» _ := []
  store := { fragments := (UniqueIndexTable.Table.empty.insert learningRow).getD UniqueIndexTable.Table.empty }
  countTokens _ := 8
  now := 0

/-- The structured shape lists a learning that is not selected. -/
theorem learning_unselected :
    ¬ ∀ f ∈ (structuredResponse learningDeps { caller := { keyId := none }, structured := true }).fragments,
      ∃ g ∈ selection learningDeps { caller := { keyId := none }, structured := true }, g.id = f.id := by
  decide

end FragmentMemory.ContextBuilder
