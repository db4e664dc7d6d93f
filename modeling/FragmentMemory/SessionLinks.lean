import FragmentMemory.ReflectProcessor
import FragmentMemory.RepeatedCreation

/-! # The links of a reflect

`process` hands the linker of a session objects with an id, a content, a type and keywords.  The gate of the linker
asks for a common case or session, which none of them names, so that every best match ends among the suggestions.
-/
namespace FragmentMemory.SessionLinks
open ApiKeyStore FragmentTables FragmentFactory MemoryRememberer BatchRememberProcessor LinkStore LinkWrites SessionLinker
  ReflectProcessor JsString ContentUniqueness

/-- A stored fragment with the case, the session and the phase that it was created with. -/
def sessionFragment (id : FragmentId) (f : Fragment) : SessionFragment where
  id := id
  type := f.type
  content := f.content
  keywords := f.keywords
  caseId := f.caseId
  sessionId := f.sessionId
  phase := f.phase

/-- The stored fragments under the ids that the batch reports. -/
def sessionFragments (fragments : List Fragment) (results : List ItemResult) : List SessionFragment :=
  (results.zip fragments).filterMap fun item =>
    if item.1.success then item.1.id.map fun id => sessionFragment id item.2 else none

/-- What `process` makes of a stored fragment for the linker. -/
def rebuilt (f : SessionFragment) : SessionFragment where
  id := f.id
  type := f.type
  content := f.content
  keywords := f.keywords

/-- The stage of a reflect that links: the store before it, the stored fragments and what the linker answers. -/
structure LinkStage where
  before : Store
  fragments : List SessionFragment
  linked : AutoLinked

variable (settings : Settings) (draws : ReflectDraws)

/-- The stage of `process`, none where the reflect throws before it. -/
def linkStage (state : ReflectState) (request : ReflectParams) : Option LinkStage :=
  let params := completed state request
  match reflectFragments settings draws params with
  | .error _ => none
  | .ok [] =>
    some ⟨state.continuity.store, [], autoLinkSessionFragments settings.tools state.continuity.store [] params.keyId⟩
  | .ok fragments =>
    let stored := process settings.digests settings.tools (batchContext settings draws params) state.continuity.store
      (fragments.map fun f => some (batchItem (params.workspace.or params.defaultWorkspace) f))
    match stored.2 with
    | .error _ => none
    | .ok batch => some ⟨stored.1, sessionFragments fragments batch.results,
        autoLinkSessionFragments settings.tools stored.1 (storedFragments fragments batch.results) params.keyId⟩

/-! ## What belongs together -/

variable (tools : TextTools)

/-- A fragment with the partner of the highest overlap. -/
structure Match where
  source : SessionFragment
  target : SessionFragment
  relationType : RelationType

def Match.pair (m : Match) : LinkPair := ⟨m.source.id, m.target.id, m.relationType⟩

def bestMatches (sources targets : List SessionFragment) (relationType : RelationType) : List Match :=
  sources.filterMap fun f => (bestMatch (keywordOverlap tools f) targets).map fun g => ⟨f, g, relationType⟩

/-- The best decision of every error and the best error of every procedure. -/
def sessionMatches (fragments : List SessionFragment) : List Match :=
  let ofType := fun type => fragments.filter fun f => f.type = type
  bestMatches tools (ofType .error) (ofType .decision) .causedBy ++
    bestMatches tools (ofType .procedure) (ofType .error) .resolvedBy

/-- A match that is to be linked: enough common keywords, phases in order, and no cycle. -/
def due (store : Store) (keyId : Option KeyId) (m : Match) : Bool :=
  6 / 10 ≤ keywordOverlap tools m.source m.target && phaseOk m.source m.target &&
    !wouldCreateCycle store m.source.id m.target.id keyId

def LinkedAs (store : Store) (pair : LinkPair) : Prop :=
  ∃ l ∈ store.links.rows, l.deletedAt = none ∧ (l.fromId, l.toId) = ends pair ∧ l.relationType = pair.relationType

instance (store : Store) (pair : LinkPair) : Decidable (LinkedAs store pair) :=
  inferInstanceAs (Decidable (∃ l ∈ store.links.rows, _ ∧ _))

/-- What belongs together is linked, with one new link for each source and relation, and the other matches are
suggested. -/
structure LinksTogether (keyId : Option KeyId) (stage : LinkStage) : Prop where
  linked : ∀ m ∈ sessionMatches tools stage.fragments, due tools stage.before keyId m = true →
    LinkedAs stage.linked.store m.pair
  single : ∀ pair other : LinkPair, LinkedAs stage.linked.store pair → ¬ LinkedAs stage.before pair →
    LinkedAs stage.linked.store other → ¬ LinkedAs stage.before other →
      pair.fromId = other.fromId → pair.relationType = other.relationType → pair = other
  suggested : ∀ m ∈ sessionMatches tools stage.fragments, due tools stage.before keyId m = false →
    m.pair ∈ stage.linked.linkSuggestions.map LinkSuggestion.pair

variable {settings draws tools}

/-! ## The rebuilt fragments -/

theorem storedFragments_eq (fragments : List Fragment) (results : List ItemResult) :
    storedFragments fragments results = (sessionFragments fragments results).map rebuilt := by
  rw [storedFragments, sessionFragments, List.map_filterMap]
  refine List.filterMap_congr fun item _ => ?_
  obtain ⟨r, f⟩ := item
  dsimp only
  split
  · rw [Option.map_map]
    rfl
  · rfl

theorem bestMatch_map (score : SessionFragment → ℚ) (found : List SessionFragment) :
    bestMatch score (found.map rebuilt) = (bestMatch (fun f => score (rebuilt f)) found).map rebuilt := by
  have hfold : ∀ best : ℚ × Option SessionFragment,
      (found.map rebuilt).foldl (fun best f => if best.1 < score f then (score f, some f) else best) (best.1, best.2.map rebuilt) =
        ((found.foldl (fun best f => if best.1 < score (rebuilt f) then (score (rebuilt f), some f) else best) best).1,
          (found.foldl (fun best f => if best.1 < score (rebuilt f) then (score (rebuilt f), some f) else best) best).2.map
            rebuilt) := by
    induction found with
    | nil => exact fun _ => rfl
    | cons f later ih =>
      intro best
      rw [List.map_cons, List.foldl_cons, List.foldl_cons]
      by_cases hbetter : best.1 < score (rebuilt f)
      · rw [if_pos hbetter, if_pos hbetter]
        exact ih (score (rebuilt f), some f)
      · rw [if_neg hbetter, if_neg hbetter]
        exact ih best
  exact congrArg Prod.snd (hfold (-1, none))

/-- The candidates are the best matches, and none of them fits. -/
theorem matchPairs_rebuilt (sources targets : List SessionFragment) (relationType : RelationType) :
    matchPairs tools (sources.map rebuilt) (targets.map rebuilt) relationType =
      (bestMatches tools sources targets relationType).map fun m => (m.pair, false) := by
  rw [matchPairs, bestMatches, List.filterMap_map, List.map_filterMap]
  refine List.filterMap_congr fun f _ => ?_
  rw [Function.comp_apply, bestMatch_map, Option.map_map, Option.map_map]
  rfl

theorem candidatePairs_rebuilt (fragments : List SessionFragment) :
    candidatePairs tools (fragments.map rebuilt) = (sessionMatches tools fragments).map fun m => (m.pair, false) := by
  have htype : ∀ type, (fragments.map rebuilt).filter (fun f => f.type = type) =
      (fragments.filter fun f => f.type = type).map rebuilt := by
    intro type
    rw [List.filter_map]
    rfl
  simp only [candidatePairs, sessionMatches, htype, matchPairs_rebuilt, List.map_append]

/-- The linker leaves the links as they are and suggests every match. -/
theorem autoLink_rebuilt (store : Store) (fragments : List SessionFragment) (keyId : Option KeyId) :
    (autoLinkSessionFragments tools store (fragments.map rebuilt) keyId).store.links = store.links ∧
      (autoLinkSessionFragments tools store (fragments.map rebuilt) keyId).linkSuggestions.map LinkSuggestion.pair =
        (sessionMatches tools fragments).map Match.pair := by
  have hnone : validPairs tools store (fragments.map rebuilt) keyId = [] := by
    have hfits : ((sessionMatches tools fragments).map fun m => (m.pair, false)).filter Prod.snd = [] := by
      refine List.filter_eq_nil_iff.mpr fun candidate hcandidate => ?_
      obtain ⟨m, -, rfl⟩ := List.mem_map.mp hcandidate
      exact Bool.false_ne_true
    rw [validPairs, autoLinks, candidatePairs_rebuilt, hfits]
    rfl
  constructor
  · rw [autoLinkSessionFragments, hnone]
    rfl
  · rw [autoLinkSessionFragments, candidatePairs_rebuilt]
    dsimp only
    rw [List.map_map, List.filter_eq_self.mpr, List.map_map]
    · rfl
    · intro candidate hcandidate
      obtain ⟨m, -, rfl⟩ := List.mem_map.mp hcandidate
      rfl

theorem linkStage_eq {state : ReflectState} {request : ReflectParams} {stage : LinkStage}
    (h : linkStage settings draws state request = some stage) :
    stage.linked = autoLinkSessionFragments settings.tools stage.before (stage.fragments.map rebuilt) request.keyId := by
  rw [← keyId_completed state request]
  simp only [linkStage] at h
  split at h
  · cases h
  · rw [← Option.some.inj h]
    rfl
  · split at h
    · cases h
    · rw [← Option.some.inj h]
      dsimp only
      rw [storedFragments_eq]

/-- The stage is that of `reflect`: it stores the fragments and hands them on rebuilt. -/
theorem storeFragments_linkStage {state : ReflectState} {request : ReflectParams} {stage : LinkStage}
    (h : linkStage settings draws state request = some stage) :
    ∃ fragments, reflectFragments settings draws (completed state request) = .ok fragments ∧
      storeFragments settings draws state.continuity.store (completed state request) fragments =
        (stage.before, .ok (stage.fragments.map rebuilt)) := by
  simp only [linkStage] at h
  split at h
  · cases h
  · rename_i hfragments
    rw [← Option.some.inj h]
    exact ⟨[], hfragments, rfl⟩
  · rename_i fragments hfilled hfragments
    have hnonempty : fragments ≠ [] := fun hempty => hfilled (hempty ▸ rfl)
    split at h
    · cases h
    · rename_i batch hbatch
      rw [← Option.some.inj h]
      refine ⟨fragments, hfragments, ?_⟩
      simp only [storeFragments, if_neg hnonempty, hbatch, Except.map, storedFragments_eq]

/-- The links of a reflect are right exactly when every match that is due was linked before. -/
theorem linksTogether_iff {state : ReflectState} {request : ReflectParams} {stage : LinkStage}
    (h : linkStage settings draws state request = some stage) :
    LinksTogether settings.tools request.keyId stage ↔ ∀ m ∈ sessionMatches settings.tools stage.fragments,
      due settings.tools stage.before request.keyId m = true → LinkedAs stage.before m.pair := by
  obtain ⟨hlinks, hsuggestions⟩ := @autoLink_rebuilt settings.tools stage.before stage.fragments request.keyId
  rw [← linkStage_eq h] at hlinks hsuggestions
  have hsame : ∀ pair, LinkedAs stage.linked.store pair ↔ LinkedAs stage.before pair := by
    intro pair
    rw [LinkedAs, hlinks, LinkedAs]
  constructor
  · intro hstage m hm hdue
    exact (hsame _).mp (hstage.linked m hm hdue)
  · intro hbefore
    refine ⟨fun m hm hdue => (hsame _).mpr (hbefore m hm hdue), ?_, ?_⟩
    · intro pair other hpair hnew
      exact absurd ((hsame pair).mp hpair) hnew
    · intro m hm _
      rw [hsuggestions]
      exact List.mem_map_of_mem hm

/-! ## A session -/

/-- SHA-256 on the three contents of the session. -/
def vpnSettings : Settings where
  digests := {
    hex := fun text =>
      if text = sampleContent then "77dcdc41cdc3789120882cbf0383cede824aa0a0220f3d57b8b36bd33415aa8f"
      else if text = "[해결됨] deploy needs the vpn tunnel open" then
        "300375a6cb2b1c5f0e6f1c02e2987455a48b782da2eb37ec62c5ed84d110fcee"
      else "51f32f1473e0be370802c9daed29eb55933a70db5e26ed7f3a8bba2f0d947daa"
    base64Url := fun _ => "" }
  tools := RepeatedCreation.sampleTools
  redisReady := false

def vpnDraws : ReflectDraws where
  sentences text := [text]
  newId position := if position = 0 then "frag-01" else if position = 1 then "frag-02" else "frag-03"
  episode := RememberLiveness.sampleDraws 2 "frag-04"
  milestoneId := "event-01"

def vpnRequest : ReflectParams where
  sessionId := some "session-01"
  keyId := some sampleKey
  decisions := [sampleContent]
  errorsResolved := ["deploy needs the vpn tunnel open"]
  newProcedures := ["open the vpn tunnel before deploy"]

/-- Both matches of the session are due, neither is linked, and both are suggested. -/
theorem vpnSession_unlinked :
    ((linkStage vpnSettings vpnDraws {} vpnRequest).map fun stage =>
      ((sessionMatches vpnSettings.tools stage.fragments).map fun m =>
        (m.pair, due vpnSettings.tools stage.before vpnRequest.keyId m, decide (LinkedAs stage.linked.store m.pair)),
          stage.linked.linkSuggestions.map LinkSuggestion.pair)) =
      some ([(⟨"frag-02", "frag-01", .causedBy⟩, true, false), (⟨"frag-03", "frag-02", .resolvedBy⟩, true, false)],
        [⟨"frag-02", "frag-01", .causedBy⟩, ⟨"frag-03", "frag-02", .resolvedBy⟩]) := by
  decide +kernel

/-- A match of the session that is due and not linked. -/
theorem vpnSession_due : ∃ stage, linkStage vpnSettings vpnDraws {} vpnRequest = some stage ∧
    ∃ m ∈ sessionMatches vpnSettings.tools stage.fragments,
      due vpnSettings.tools stage.before vpnRequest.keyId m = true ∧ ¬ LinkedAs stage.linked.store m.pair := by
  obtain ⟨stage, hstage, hmatches⟩ := Option.map_eq_some_iff.mp vpnSession_unlinked
  have hfirst : ((⟨"frag-02", "frag-01", .causedBy⟩, true, false) : LinkPair × Bool × Bool) ∈
      (sessionMatches vpnSettings.tools stage.fragments).map fun m =>
        (m.pair, due vpnSettings.tools stage.before vpnRequest.keyId m, decide (LinkedAs stage.linked.store m.pair)) := by
    rw [(Prod.mk.inj hmatches).1]
    exact List.mem_cons_self
  obtain ⟨m, hm, hentry⟩ := List.mem_map.mp hfirst
  have hcolumns := (Prod.mk.inj hentry).2
  exact ⟨stage, hstage, m, hm, (Prod.mk.inj hcolumns).1, of_decide_eq_false (Prod.mk.inj hcolumns).2⟩

theorem vpnSession_apart : ∃ stage, linkStage vpnSettings vpnDraws {} vpnRequest = some stage ∧
    (LinksTogether vpnSettings.tools vpnRequest.keyId stage ↔ ∀ m ∈ sessionMatches vpnSettings.tools stage.fragments,
      due vpnSettings.tools stage.before vpnRequest.keyId m = true → LinkedAs stage.before m.pair) := by
  obtain ⟨stage, hstage, -⟩ := vpnSession_due
  exact ⟨stage, hstage, linksTogether_iff hstage⟩

theorem sessions_unlinked :
    ¬ ∀ (settings : Settings) (draws : ReflectDraws) (state : ReflectState) (request : ReflectParams) (stage : LinkStage),
      linkStage settings draws state request = some stage → LinksTogether settings.tools request.keyId stage := by
  intro h
  obtain ⟨stage, hstage, m, hm, hdue, hunlinked⟩ := vpnSession_due
  exact hunlinked ((h vpnSettings vpnDraws {} vpnRequest stage hstage).linked m hm hdue)

end FragmentMemory.SessionLinks
