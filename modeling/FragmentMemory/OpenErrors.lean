import FragmentMemory.AddedRows
import FragmentMemory.ReflectOwner

/-! # Errors of a session in its reflect

The errors of a session and of its working memory are taken for resolved ones, whatever their resolution says.  What is
stored as resolved goes back to an error that is marked as such exactly if each open error that passes the filter shares
its fragment with a marked one.
-/
namespace FragmentMemory.OpenErrors
open ApiKeyStore FragmentTables FragmentReader FragmentFactory MemoryRememberer BatchRememberProcessor
  EpisodeContinuityService SessionLinker WorkingMemory ReflectProcessor AddedRows JsString
open RememberLiveness (sampleSettings)
open ReflectOwner (sampleReflectDraws)

def resolvedMark : String := "[해결됨]"

def hasResolvedMark (text : String) : Bool := resolvedMark.toList.isPrefixOf text.toList

/-- An error of a session: its text, and whether its resolution or its prefix says that it is resolved. -/
structure SessionError where
  text : String
  resolved : Bool
  deriving DecidableEq

/-- The errors among the fragments of the session and in its working memory, where an item has no resolution. -/
def sessionErrors (state : ReflectState) (sessionId agentId : String) (keyId : Option KeyId) : List SessionError :=
  let store := state.continuity.store
  let ids := (store.index.filter fun member => member.1 = .session sessionId).map Prod.snd
  let rows := (getByIds store ids agentId keyId []).filter fun f => f.type = .error
  let remembered := state.workingMemory.filter fun item => item.type = .error
  let errors := rows.map (fun f => ⟨trim f.content, f.resolutionStatus = some .resolved || hasResolvedMark (trim f.content)⟩) ++
    remembered.map fun item => (⟨trim item.content, hasResolvedMark (trim item.content)⟩ : SessionError)
  errors.filter fun e => e.text ≠ ""

/-- The errors that a request finds in its session. -/
def requestErrors (state : ReflectState) (request : ReflectParams) : List SessionError :=
  match truthy request.sessionId with
  | some sessionId => sessionErrors state sessionId ((truthy request.agentId).getD "default") request.keyId
  | none => []

variable (settings : Settings) (draws : ReflectDraws)

/-- The item that stores a text as a resolved error. -/
def resolvedItem (params : ReflectParams) (text : String) : FragmentParams :=
  itemParams params ("[해결됨] " ++ trim text) .error (some (5 / 10)) (some .resolved)

/-- The fragment under which the error would be stored as resolved. -/
def ResolvedFragment (request : ReflectParams) (e : SessionError) (f : Fragment) : Prop :=
  createItem settings draws (resolvedItem request (withoutMark resolvedMark e.text)) = .ok f

/-- Every fragment that is built as a resolved error is that of an error marked as resolved. -/
def BuiltAsMarked (state : ReflectState) (request : ReflectParams) : Prop :=
  ∀ fragments, reflectFragments settings draws (completed state request) = .ok fragments →
    ∀ f ∈ fragments, f.resolutionStatus = some .resolved →
      ∃ e ∈ requestErrors state request, e.resolved = true ∧ ResolvedFragment settings draws request e f

/-- Every new row that is resolved has the text of an error marked as resolved. -/
def StoredAsMarked (state : ReflectState) (request : ReflectParams) : Prop :=
  ∀ g ∈ (reflect settings draws state request).1.continuity.store.fragments.rows,
    (∀ f ∈ state.continuity.store.fragments.rows, f.id ≠ g.id) → g.resolutionStatus = some .resolved →
      ∃ e ∈ requestErrors state request, e.resolved = true ∧ ∃ f, ResolvedFragment settings draws request e f ∧
        g.content = storedContent settings.tools (trim f.content) (some f.type)

/-- An item is refused, so that nothing is stored. -/
def Refused (params : ReflectParams) : Prop := ∀ fragments, reflectFragments settings draws params ≠ .ok fragments

/-- Each open error that passes the filter of the items has the fragment of a marked one. -/
def OpenErrorsCovered (state : ReflectState) (request : ReflectParams) : Prop :=
  ∀ e ∈ requestErrors state request, e.resolved = false →
    isSelfContainedReflectItem (withoutMark resolvedMark e.text) = true →
      ∀ f, ResolvedFragment settings draws request e f →
        ∃ marked ∈ requestErrors state request, marked.resolved = true ∧ ResolvedFragment settings draws request marked f

variable {settings draws}

/-- The rows of a session as the consolidation reads them, an error or not. -/
def sessionTexts (state : ReflectState) (sessionId agentId : String) (keyId : Option KeyId) : List (FragmentType × String) :=
  let store := state.continuity.store
  let ids := (store.index.filter fun member => member.1 = .session sessionId).map Prod.snd
  let rows := (getByIds store ids agentId keyId []).map fun f => (f.type, trim f.content)
  let remembered := state.workingMemory.map fun item => (item.type, trim item.content)
  (rows ++ remembered).filter fun row => row.2 ≠ ""

theorem mem_errorTexts {state : ReflectState} {sessionId agentId : String} {keyId : Option KeyId} {text : String} :
    text ∈ (((sessionTexts state sessionId agentId keyId).filter fun row => row.1 = .error).map Prod.snd).map
        (withoutMark "[해결됨]") ↔
      ∃ e ∈ sessionErrors state sessionId agentId keyId, withoutMark resolvedMark e.text = text := by
  simp only [sessionTexts, sessionErrors, List.mem_map, List.mem_filter, List.mem_append, decide_eq_true_eq]
  constructor
  · rintro ⟨found, ⟨⟨type, content⟩, ⟨⟨⟨f, hf, hpair⟩ | ⟨item, hitem, hpair⟩, hne⟩, htype⟩, rfl⟩, rfl⟩
    · obtain ⟨rfl, rfl⟩ := Prod.mk.inj hpair
      exact ⟨_, ⟨Or.inl ⟨f, ⟨hf, htype⟩, rfl⟩, hne⟩, rfl⟩
    · obtain ⟨rfl, rfl⟩ := Prod.mk.inj hpair
      exact ⟨_, ⟨Or.inr ⟨item, ⟨hitem, htype⟩, rfl⟩, hne⟩, rfl⟩
  · rintro ⟨e, ⟨⟨f, ⟨hf, htype⟩, rfl⟩ | ⟨item, ⟨hitem, htype⟩, rfl⟩, hne⟩, rfl⟩
    · exact ⟨trim f.content, ⟨(f.type, trim f.content), ⟨⟨Or.inl ⟨f, hf, rfl⟩, hne⟩, htype⟩, rfl⟩, rfl⟩
    · exact ⟨trim item.content, ⟨(item.type, trim item.content), ⟨⟨Or.inr ⟨item, hitem, rfl⟩, hne⟩, htype⟩, rfl⟩, rfl⟩

/-- A consolidation collects the errors, each without its prefix. -/
theorem errorsResolved_consolidated {state : ReflectState} {sessionId agentId : String} {keyId : Option KeyId}
    {found : Consolidated} (h : consolidateSessionFragments state sessionId agentId keyId = some found) (text : String) :
    text ∈ found.errorsResolved ↔
      ∃ e ∈ sessionErrors state sessionId agentId keyId, withoutMark resolvedMark e.text = text := by
  rw [← mem_errorTexts]
  simp only [consolidateSessionFragments, Option.ite_none_left_eq_some] at h
  obtain ⟨-, hfound⟩ := h
  cases hfound
  simp only [distinct, List.mem_eraseDups]
  rfl

/-- A session with an error is never consolidated to nothing. -/
theorem sessionErrors_of_none {state : ReflectState} {sessionId agentId : String} {keyId : Option KeyId}
    (h : consolidateSessionFragments state sessionId agentId keyId = none) (text : String) :
    ¬ ∃ e ∈ sessionErrors state sessionId agentId keyId, withoutMark resolvedMark e.text = text := by
  rw [← mem_errorTexts]
  intro hmem
  have herrors : (((sessionTexts state sessionId agentId keyId).filter fun row => row.1 = .error).map Prod.snd).map
      (withoutMark "[해결됨]") ≠ [] := List.ne_nil_of_mem hmem
  simp only [consolidateSessionFragments, ite_eq_left_iff, reduceCtorEq, imp_false, not_not] at h
  have hsummary := h.1
  split at hsummary
  · cases hsummary
  · split at hsummary
    · cases hsummary
    · rename_i hnothing
      exact hnothing (Or.inr (Or.inl herrors))

/-- Without errors of its own, a request takes those of its session. -/
theorem errorsResolved_completed {state : ReflectState} {request : ReflectParams} (hnone : request.errorsResolved = [])
    (text : String) : text ∈ (completed state request).errorsResolved ↔
      ∃ e ∈ requestErrors state request, withoutMark resolvedMark e.text = text := by
  simp only [completed, requestErrors]
  cases hsession : truthy request.sessionId with
  | none => simp [hnone]
  | some sessionId =>
    simp only [Option.bind_some]
    split
    · rename_i hconsolidated
      simp only [hnone, List.not_mem_nil, false_iff]
      exact sessionErrors_of_none hconsolidated text
    · rename_i found hconsolidated
      simp only [hnone, if_true]
      exact errorsResolved_consolidated hconsolidated text

/-- The items that are stored as resolved are those of errors that pass the filter. -/
theorem mem_allItems_resolved {params : ReflectParams} {summary : List String} {item : FragmentParams} :
    item ∈ allItems params summary ∧ item.resolutionStatus = some .resolved ↔
      ∃ text ∈ params.errorsResolved, isSelfContainedReflectItem text = true ∧ item = resolvedItem params text := by
  simp only [allItems, List.mem_append, List.mem_map, List.mem_filter]
  constructor
  · rintro ⟨(((⟨text, -, rfl⟩ | ⟨text, -, rfl⟩) | ⟨text, htext, rfl⟩) | ⟨text, -, rfl⟩) | ⟨text, -, rfl⟩, hresolved⟩
    · cases hresolved
    · cases hresolved
    · exact ⟨text, htext.1, htext.2, rfl⟩
    · cases hresolved
    · cases hresolved
  · rintro ⟨text, htext, hself, rfl⟩
    exact ⟨Or.inl (Or.inl (Or.inr ⟨text, ⟨htext, hself⟩, rfl⟩)), rfl⟩

theorem resolvedItem_completed (state : ReflectState) (request : ReflectParams) (text : String) :
    resolvedItem (completed state request) text = resolvedItem request text := by
  simp only [completed]
  split <;> rfl

/-- The fragments that a request builds as resolved are those of the errors of its session that pass the filter. -/
theorem resolved_fragment_iff {state : ReflectState} {request : ReflectParams} (hnone : request.errorsResolved = [])
    {fragments : List Fragment} (h : reflectFragments settings draws (completed state request) = .ok fragments)
    {f : Fragment} : f ∈ fragments ∧ f.resolutionStatus = some .resolved ↔
      ∃ e ∈ requestErrors state request, isSelfContainedReflectItem (withoutMark resolvedMark e.text) = true ∧
        ResolvedFragment settings draws request e f := by
  obtain ⟨summary, hmade, hitems⟩ := reflectFragments_spec h
  constructor
  · rintro ⟨hf, hresolved⟩
    obtain ⟨item, hitem, hcreated⟩ := hmade f hf
    rw [(create_columns hcreated).2.2] at hresolved
    obtain ⟨text, htext, hself, rfl⟩ := mem_allItems_resolved.mp ⟨hitem, hresolved⟩
    obtain ⟨e, he, rfl⟩ := (errorsResolved_completed hnone text).mp htext
    rw [resolvedItem_completed] at hcreated
    exact ⟨e, he, hself, hcreated⟩
  · rintro ⟨e, he, hself, hcreated⟩
    have htext := (errorsResolved_completed hnone _).mpr ⟨e, he, rfl⟩
    have hitem := (@mem_allItems_resolved (completed state request) summary _).mpr ⟨_, htext, hself, rfl⟩
    obtain ⟨g, hg, hmadeOf⟩ := hitems _ hitem.1
    rw [resolvedItem_completed] at hmadeOf
    have hsame : f = g := Except.ok.inj (hcreated.symm.trans hmadeOf)
    rw [hsame]
    exact ⟨hg, (create_columns hmadeOf).2.2⟩

/-- What is built as resolved goes back to marked errors exactly where each open one is covered, or nothing is built. -/
theorem builtAsMarked_iff {state : ReflectState} {request : ReflectParams} (hnone : request.errorsResolved = []) :
    BuiltAsMarked settings draws state request ↔
      Refused settings draws (completed state request) ∨ OpenErrorsCovered settings draws state request := by
  constructor
  · intro hbuilt
    by_cases hrefused : Refused settings draws (completed state request)
    · exact Or.inl hrefused
    · right
      simp only [Refused, not_forall, not_not] at hrefused
      obtain ⟨fragments, hfragments⟩ := hrefused
      intro e he hopen hself f hf
      obtain ⟨hmem, hresolved⟩ := (resolved_fragment_iff hnone hfragments).mpr ⟨e, he, hself, hf⟩
      exact hbuilt fragments hfragments f hmem hresolved
  · rintro (hrefused | hcovered) fragments hfragments f hf hresolved
    · exact absurd hfragments (hrefused fragments)
    · obtain ⟨e, he, hself, hmade⟩ := (resolved_fragment_iff hnone hfragments).mp ⟨hf, hresolved⟩
      cases hmarked : e.resolved with
      | true => exact ⟨e, he, hmarked, hmade⟩
      | false => exact hcovered e he hmarked hself f hmade

/-- The new rows that are resolved have the texts of fragments that were built as resolved. -/
theorem storedAsMarked_of_built {state : ReflectState} {request : ReflectParams}
    (h : BuiltAsMarked settings draws state request) : StoredAsMarked settings draws state request := by
  intro g hg hnew hresolved
  rcases adds_reflect state request g hg with ⟨f, hf, hsame⟩ | ⟨row, hrow, hsame⟩
  · exact absurd hsame.id.symm (hnew f hf)
  · rw [hsame.resolutionStatus] at hresolved
    rcases hrow.resolution with hnone | ⟨fragments, hfragments, f, hf, hbatched⟩
    · rw [hnone] at hresolved
      cases hresolved
    · rw [hbatched.resolutionStatus] at hresolved
      obtain ⟨e, he, hmarked, hmade⟩ := h fragments hfragments f hf hresolved
      refine ⟨e, he, hmarked, f, hmade, ?_⟩
      rw [hsame.content, hbatched.content]

/-- A reflect that names no resolved errors builds as resolved only the errors that its session has marked as resolved
exactly if it is refused or each open error that passes the filter shares its fragment with a marked one.  Then the
rows that it adds as resolved are those of marked errors, too. -/
theorem open_errors_iff (settings : Settings) (draws : ReflectDraws) (state : ReflectState) (request : ReflectParams)
    (hnone : request.errorsResolved = []) :
    (BuiltAsMarked settings draws state request ↔
      Refused settings draws (completed state request) ∨ OpenErrorsCovered settings draws state request) ∧
    (Refused settings draws (completed state request) ∨ OpenErrorsCovered settings draws state request →
      StoredAsMarked settings draws state request) :=
  ⟨builtAsMarked_iff hnone, fun hcond => storedAsMarked_of_built ((builtAsMarked_iff hnone).mpr hcond)⟩

def openErrorText : String := "Deploys fail with exit code 137."

def sessionRequest : ReflectParams where
  sessionId := some "session-01"
  summary := .items []
  narrativeSummary := some "Deploys were traced."

/-- SHA-256 on the texts of the sample session. -/
def sampleHashes : List (String × String) :=
  [(openErrorText, "d45ce11c26bfc0bac37847a2991caf4326136cff55a478aa2ef82c987fdc1b5b"),
    ("[해결됨] Deploys fail with exit code 137.", "749e47ac74128415e1dc1a9e73032d87fb529e1fd9d509dbe638c4a046e4a707"),
    ("Deploys were traced.", "a792c7fbd6dd8617a357f0459b61ae824f65afb26b0ca3e2667359b13a83f02b")]

def hashedSettings : Settings :=
  { sampleSettings with digests := {
      hex := fun text => ((sampleHashes.find? fun entry => entry.1 = text).map Prod.snd).getD ""
      base64Url := fun _ => "" } }

/-- A fragment of the session that is open, or the same one resolved. -/
def errorRow (status : ResolutionStatus) : Fragment :=
  { ContentUniqueness.sampleFragment with
    id := "frag-09"
    content := openErrorText
    type := .error
    contentHash := "d45ce11c26bfc0bac37847a2991caf4326136cff55a478aa2ef82c987fdc1b5b"
    keyId := none
    sessionId := some "session-01"
    resolutionStatus := some status }

def errorState (status : ResolutionStatus) : ReflectState where
  continuity := {
    store := {
      fragments := (UniqueIndexTable.Table.empty.insert (errorRow status)).getD UniqueIndexTable.Table.empty
      index := [(.session "session-01", "frag-09")] } }

/-- An error that is marked as resolved is stored as resolved. -/
theorem open_errors_resolved : StoredAsMarked hashedSettings sampleReflectDraws (errorState .resolved) sessionRequest := by
  have hmarked : ∀ e ∈ requestErrors (errorState .resolved) sessionRequest, e.resolved = true := by decide
  have hcovered : OpenErrorsCovered hashedSettings sampleReflectDraws (errorState .resolved) sessionRequest := by
    intro e he hopen
    rw [hmarked e he] at hopen
    cases hopen
  exact (open_errors_iff hashedSettings sampleReflectDraws (errorState .resolved) sessionRequest rfl).2 (Or.inr hcovered)

theorem requestErrors_open : ∀ e ∈ requestErrors (errorState .open_) sessionRequest, e.resolved = false := by
  decide

theorem stored_open : ∃ g ∈ (reflect hashedSettings sampleReflectDraws (errorState .open_)
    sessionRequest).1.continuity.store.fragments.rows, g.id = "frag-01" ∧ g.resolutionStatus = some .resolved := by
  decide +kernel

/-- The only error of the session is open, and a reflect of the session stores it as resolved. -/
theorem open_error_stored_resolved : ¬ ∀ settings draws state request, request.errorsResolved = [] →
    StoredAsMarked settings draws state request := by
  intro h
  have hstored := h hashedSettings sampleReflectDraws (errorState .open_) sessionRequest rfl
  obtain ⟨g, hg, hid, hresolved⟩ := stored_open
  have hrows : ∀ f ∈ (errorState .open_).continuity.store.fragments.rows, f.id ≠ "frag-01" := by decide
  obtain ⟨e, he, hmarked, -⟩ := hstored g hg (fun f hf => hid ▸ hrows f hf) hresolved
  rw [requestErrors_open e he] at hmarked
  cases hmarked

end FragmentMemory.OpenErrors
