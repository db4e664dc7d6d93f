import FragmentMemory.BatchAccounting
import FragmentMemory.MemoryRequests
import FragmentMemory.PiiRedaction
import FragmentMemory.RowPersistence

/-! # Which writes mask

`remember` and `batchRemember` store what the factory made of a content.  `amend` stores the content of
its request, so a run keeps the table clean as long as no amendment brings a secret with it.
-/
namespace FragmentMemory.RedactedWrites
open ApiKeyStore FragmentTables FragmentFactory FragmentWriter FragmentIndex BatchRememberProcessor MemoryRememberer
  MemoryRequests RememberLiveness RowPersistence BatchAccounting UniqueIndexTable ContentUniqueness TransitionRuns
  PiiRedaction

inductive ContentRequest
  | remember (params : RememberParams)
  | batchRemember (context : BatchContext) (items : List (Option BatchItem))
  | amend (params : AmendParams)

def ContentRequest.toRequest : ContentRequest → Request
  | .remember params => .remember params
  | .batchRemember context items => .batchRemember context items
  | .amend params => .amend params

/-- A request with the settings of the server and what it meets; the tools of the server mask. -/
structure Call where
  settings : Settings
  draws : Draws
  caller : Caller
  request : ContentRequest
  masks : settings.tools.redactPII = redactPII

def step (store : Store) (call : Call) : Store :=
  requestStep call.settings call.draws store call.caller call.request.toRequest

/-- No content in the table has a match of a secret. -/
def ContentsClean (store : Store) : Prop := ∀ row ∈ store.fragments.rows, Clean row.content

/-- An amendment brings no secret with it. -/
def AmendsClean : ContentRequest → Prop
  | .remember _ | .batchRemember _ _ => True
  | .amend params => ∀ content ∈ params.updates.content, Clean content

instance (store : Store) : Decidable (ContentsClean store) :=
  inferInstanceAs (Decidable (∀ row ∈ store.fragments.rows, Clean row.content))

instance : ∀ request, Decidable (AmendsClean request)
  | .remember _ | .batchRemember _ _ => inferInstanceAs (Decidable True)
  | .amend params => inferInstanceAs (Decidable (∀ content ∈ params.updates.content, Clean content))

/-- A remember changes no content of a row. -/
theorem admits_content : Admits fun f g => g.content = f.content where
  refl _ := rfl
  trans _ _ _ h h' := h'.trans h
  linked _ _ := rfl
  accessed _ _ _ _ := rfl
  asserted _ _ := rfl
  cased _ _ := rfl

theorem ContentsClean.rewrites {before after : Store} (hclean : ContentsClean before)
    (h : Rewrites (fun f g => g.content = f.content) before after) : ContentsClean after := by
  intro row hrow
  obtain ⟨f, hf, hsame⟩ := h.covers row hrow
  rw [hsame]
  exact hclean f hf

theorem ContentsClean.of_fragments {before after : Store} (hclean : ContentsClean before)
    (h : after.fragments = before.fragments) : ContentsClean after := by
  intro row hrow
  rw [h] at hrow
  exact hclean row hrow

theorem ContentsClean.upsertRow {now : Time} {store next : Store} {row : Fragment} {id : FragmentId}
    (hclean : ContentsClean store) (hrow : Clean row.content) (h : upsertRow now store row = some (next, id)) :
    ContentsClean next := by
  intro f hf
  rcases mem_upsertRow h hf with rfl | ⟨before, hbefore, -, -, hcontent, -⟩
  · exact hrow
  · rw [hcontent]
    exact hclean before hbefore

theorem ContentsClean.insertAll {context : BatchContext} {items : List (ℕ × Fragment)}
    (hitems : ∀ item ∈ items, Clean item.2.content) {store next : Store}
    {inserted : List (ℕ × Fragment × FragmentId)} (hclean : ContentsClean store)
    (h : insertAll context store items = some (next, inserted)) : ContentsClean next := by
  induction items generalizing store inserted with
  | nil =>
    cases h
    exact hclean
  | cons item later ih =>
    obtain ⟨position, f⟩ := item
    simp only [BatchRememberProcessor.insertAll] at h
    split at h
    · cases h
    · rename_i middle id hupsert
      obtain ⟨⟨done, rest⟩, hlater, hresult⟩ := Option.map_eq_some_iff.mp h
      obtain rfl := (Prod.mk.inj hresult).1
      have hf : Clean (insertRow context f).content := hitems (position, f) List.mem_cons_self
      have hmiddle : ContentsClean middle := hclean.upsertRow hf hupsert
      exact ih (fun other hother => hitems other (List.mem_cons_of_mem _ hother)) hmiddle hlater

variable {settings : Settings} {draws : Draws}

/-- The fragment of a remember. -/
theorem clean_buildFragment (hmasks : settings.tools.redactPII = redactPII) {params : RememberParams}
    {caseId : Option String} {caller : Caller} {f : Fragment}
    (h : buildFragment settings draws params caseId caller = .ok f) : Clean f.content := by
  rw [buildFragment] at h
  cases hcreate : create settings.digests settings.tools draws.newId draws.now (params.factoryParams caseId) with
  | error reason =>
    rw [hcreate] at h
    cases h
  | ok created =>
    rw [hcreate] at h
    cases h
    have hcontent := create_content hcreate
    simp only [hcontent]
    exact clean_storedContent hmasks _ _

/-- The fragments of a batch. -/
theorem clean_validFragments {digests : Digests} {tools : TextTools} (hmasks : tools.redactPII = redactPII)
    {context : BatchContext} {items : List (Option BatchItem)} {item : ℕ × Fragment}
    (h : item ∈ validFragments digests tools context items) : Clean item.2.content := by
  obtain ⟨position, f⟩ := item
  obtain ⟨given, created, -, hcreate, hbuilt⟩ := mem_validFragments h
  have hcontent : f.content = created.content := by rw [hbuilt]
  simp only [hcontent, create_content hcreate]
  exact clean_storedContent hmasks _ _

theorem ContentsClean.remember {store : Store} (hclean : ContentsClean store)
    (hmasks : settings.tools.redactPII = redactPII) (params : RememberParams) (caller : Caller) :
    ContentsClean (remember settings draws store params caller).1 := by
  rcases remember_cases settings draws store params caller with
    ⟨accepted, indexSession, haccepted, hstored⟩ | ⟨-, hsame | ⟨found, hsearched⟩⟩
  · obtain ⟨caseId, hbuild, hinsert⟩ := acceptNew_spec haccepted
    have hassigned : ContentsClean (autoAssignCaseId draws store params caller).1 :=
      hclean.rewrites (rewrites_autoAssignCaseId admits_content store params caller)
    have hcontent : Clean accepted.fragment.content := clean_buildFragment hmasks hbuild
    have hrow : Clean (prepareInsertRow settings.digests draws.now accepted.fragment).content := hcontent
    have hinserted : ContentsClean accepted.store := hassigned.upsertRow hrow hinsert
    rw [hstored]
    exact hinserted.rewrites (rewrites_finalizeRemember admits_content accepted.store _ indexSession caller params
      (fun _ _ _ _ _ _ => rfl) fun _ _ _ => rfl)
  · rw [hsame]
    exact hclean
  · rw [hsearched]
    exact hclean.rewrites (rewrites_afterSearch admits_content store found caller.keyId)

theorem ContentsClean.process {digests : Digests} {tools : TextTools} {store : Store} (hclean : ContentsClean store)
    (hmasks : tools.redactPII = redactPII) (context : BatchContext) (items : List (Option BatchItem)) :
    ContentsClean (process digests tools context store items).1 := by
  rcases process_cases store items with hsame | ⟨kept, next, inserted, results, hkept, hinsert, -, hprocess⟩
  · rw [hsame]
    exact hclean
  · rw [hprocess]
    have hnext : ContentsClean next :=
      ContentsClean.insertAll (fun item hitem => clean_validFragments hmasks (hkept item hitem)) hclean hinsert
    exact hnext.of_fragments (indexInserted_fragments next inserted results)

theorem ContentsClean.update {digests : Digests} {tools : TextTools} {store : Store} (hclean : ContentsClean store)
    (now : Time) (id : FragmentId) {updates : FragmentUpdates} (hupdates : ∀ content ∈ updates.content, Clean content)
    (callerKey : Option KeyId) : ContentsClean (update digests tools.countTokens now store id updates callerKey).1 := by
  rcases update_cases tools.countTokens now store id updates callerKey with
    hsame | ⟨existing, fragments, hexisting, -, -, hreplace, hupdate⟩
  · rw [hsame]
    exact hclean
  · rw [hupdate]
    intro row hrow
    simp only [Table.rows_replace hreplace] at hrow
    obtain ⟨before, hbefore, rfl⟩ := List.mem_map.mp hrow
    split
    · have hexistingRow := ((byId_eq_some_iff _).mp hexisting).1
      cases hcontent : updates.content with
      | none =>
        simp only [FragmentUpdates.apply, hcontent, Option.getD_none]
        exact hclean existing hexistingRow
      | some content =>
        simp only [FragmentUpdates.apply, hcontent, Option.getD_some]
        exact hupdates content hcontent
    · exact hclean before hbefore

theorem ContentsClean.amend {store : Store} (hclean : ContentsClean store) {params : AmendParams}
    (hupdates : ∀ content ∈ params.updates.content, Clean content) (caller : Caller) :
    ContentsClean (amend settings draws store params caller) := by
  simp only [MemoryRequests.amend]
  rcases FragmentReader.getById store params.id caller.agentId caller.keyId _ with _ | existing
  · exact hclean
  · simp only
    split
    · exact hclean
    · have hupdated := @ContentsClean.update settings.digests settings.tools store hclean draws.now params.id
        { params.updates with keywords := params.updates.keywords.map (normalizeKeywords settings.tools) } hupdates
        caller.keyId
      generalize FragmentWriter.update settings.digests settings.tools.countTokens draws.now store params.id _
        caller.keyId = outcome at hupdated ⊢
      obtain ⟨next, result⟩ := outcome
      have hreindexed : ∀ result : Fragment, ContentsClean (recordVerification settings draws
          (index settings.redisReady settings.tools (deindex settings.redisReady settings.tools next existing existing.keyId)
            result none existing.keyId) existing params.updates.assertionStatus caller.keyId) := by
        intro result row hrow
        have hview := (recordVerification_view settings draws Fragment.content (fun _ _ => rfl)
          (index settings.redisReady settings.tools (deindex settings.redisReady settings.tools next existing existing.keyId)
            result none existing.keyId) existing params.updates.assertionStatus caller.keyId).2
        rw [index_fragments, deindex_fragments] at hview
        have hcontent := List.mem_map_of_mem (f := Fragment.content) hrow
        rw [hview] at hcontent
        obtain ⟨before, hbefore, hsame⟩ := List.mem_map.mp hcontent
        rw [← hsame]
        exact hupdated before hbefore
      cases result with
      | unchanged result => exact hreindexed result
      | updated result => exact hreindexed result
      | missing => exact hupdated
      | merged existingId => exact hupdated
      | failed => exact hupdated

theorem contentsClean_step (store : Store) (call : Call) (hclean : ContentsClean store)
    (hamends : AmendsClean call.request) : ContentsClean (step store call) := by
  obtain ⟨settings, draws, caller, request, hmasks⟩ := call
  cases request with
  | remember params => exact hclean.remember hmasks params caller
  | batchRemember context items => exact hclean.process hmasks _ items
  | amend params => exact hclean.amend hamends caller

/-- From a clean table, as the empty one is, every run whose amendments bring no secret keeps the table clean
throughout. -/
theorem contents_redacted (start : Store) (hstart : ContentsClean start) (calls : List Call)
    (hamends : ∀ call ∈ calls, AmendsClean call.request) :
    ∀ earlier, earlier <+: calls → ContentsClean (run step start earlier) := by
  have hmeet : StepsMeet step (fun _ call => AmendsClean call.request) start calls := by
    induction calls generalizing start with
    | nil => trivial
    | cons call later ih =>
      have hcall := hamends call List.mem_cons_self
      exact ⟨hcall, ih _ (contentsClean_step start call hstart hcall) fun other hother =>
        hamends other (List.mem_cons_of_mem _ hother)⟩
  intro earlier hprefix
  exact invariant_throughout contentsClean_step hstart hmeet hprefix

def maskedSettings : Settings where
  digests := sampleSettings.digests
  tools := { sampleTools with redactPII := redactPII }

/-- A remember and an amendment by one caller. -/
def rememberCall (content : String) : Call where
  settings := maskedSettings
  draws := sampleDraws 10 "frag-01"
  caller := sampleCaller
  request := .remember (sampleParams content [])
  masks := rfl

def amendCall (content : String) : Call where
  settings := maskedSettings
  draws := sampleDraws 20 "frag-02"
  caller := sampleCaller
  request := .amend { id := "frag-01", updates := { content := some content } }
  masks := rfl

/-- The same text is masked when it is remembered, and stored as it is when it amends. -/
theorem amendment_unmasked :
    ((run step {} [rememberCall "call 010-1234-5678 first"]).fragments.rows.map Fragment.content,
        (run step {} [rememberCall "call the desk first", amendCall "call 010-1234-5678 first"]).fragments.rows.map
          Fragment.content) =
      (["call [REDACTED_PHONE] first"], ["call 010-1234-5678 first"]) ∧
    ¬ ContentsClean (run step {} [rememberCall "call the desk first", amendCall "call 010-1234-5678 first"]) := by
  decide +kernel

theorem contents_redacted_amended :
    ContentsClean (run step {} [rememberCall "call 010-1234-5678 first", amendCall "call the desk first"]) :=
  contents_redacted {} (by decide) [rememberCall "call 010-1234-5678 first", amendCall "call the desk first"]
    (by decide) _ List.prefix_rfl

end FragmentMemory.RedactedWrites
