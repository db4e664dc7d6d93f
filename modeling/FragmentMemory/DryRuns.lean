import FragmentMemory.ForgetOutcome
import FragmentMemory.IdempotentRemember
import FragmentMemory.RememberPaths
import FragmentMemory.RowStanding

/-! # Dry runs

`remember`, `amend`, `link` and `forget` by id each have a branch that only says what the request would
do.  Here is what such a branch changes and whether the request does what it says, in the store in which
it is asked.
-/
namespace FragmentMemory.DryRuns
open ApiKeyStore FragmentTables FragmentFactory FragmentWriter FragmentReader FragmentIndex LinkStore CaseEventStore
  MemoryRememberer MemoryRequests RememberLiveness RowPersistence RowStanding ForgetOutcome IdempotentRemember
  UniqueIndexTable JsString BatchRememberProcessor ContentUniqueness

/-- A request with a dry run. -/
inductive DryRequest
  | remember (params : RememberParams)
  | amend (params : AmendParams)
  | link (params : LinkParams)
  | forget (id : FragmentId) (force : Bool)

def DryRequest.request (dryRun : Bool) : DryRequest → Request
  | .remember params => .remember { params with dryRun := dryRun }
  | .amend params => .amend { params with dryRun := dryRun }
  | .link params => .link { params with dryRun := dryRun }
  | .forget id force => .forget { target := .id id, force := force, dryRun := dryRun }

variable (settings : Settings) (draws : Draws)

/-- The fragment that the dry run of an amendment shows. -/
def wouldBeFragment (existing : Fragment) (updates : FragmentUpdates) : Fragment :=
  { existing with
    content := updates.content.getD existing.content
    topic := updates.topic.getD existing.topic
    keywords := (updates.keywords.map (normalizeKeywords settings.tools)).getD existing.keywords
    type := updates.type.getD existing.type
    importance := updates.importance.getD existing.importance
    isAnchor := updates.isAnchor.getD existing.isAnchor
    assertionStatus := updates.assertionStatus.getD existing.assertionStatus }

/-- The columns that it shows. -/
def amendView (f : Fragment) :
    FragmentId × FragmentType × String × String × List String × ℚ × Bool × AssertionStatus :=
  (f.id, f.type, f.content, f.topic, f.keywords, f.importance, f.isAnchor, f.assertionStatus)

/-- `would_delete` of the dry run of a forget. -/
def wouldDelete (f : Fragment) (force : Bool) : Bool := !(f.ttlTier = .permanent && !force)

/-- The columns of the fragment that the dry run of a remember shows and the row has. -/
def storedView (f : Fragment) : String × ℚ × TtlTier := (f.content, f.importance, f.ttlTier)

/-- A remember in the scope of a session writes its fragment to the working memory in Redis, also in a dry
run. -/
def writesWorkingMemory (store : Store) (caller : Caller) : DryRequest → Bool
  | .remember params =>
    match (remember settings draws store { params with dryRun := true } caller).2 with
    | .session _ => settings.redisReady
    | _ => false
  | .amend _ | .link _ | .forget _ _ => false

/-- The search that the dry run of a remember makes inserts a row into `search_events`, whatever it finds. -/
def recordsSearchEvent (store : Store) (caller : Caller) : DryRequest → Bool
  | .remember params =>
    match (remember settings draws store { params with dryRun := true } caller).2 with
    | .dryRun _ => true
    | _ => false
  | .amend _ | .link _ | .forget _ _ => false

/-- The dry run changes no row, no link and nothing in Redis. -/
def ChangesNothing (store : Store) (caller : Caller) (request : DryRequest) : Prop :=
  Untouched store (requestStep settings draws store caller (request.request true)) ∧
    writesWorkingMemory settings draws store caller request = false ∧
    recordsSearchEvent settings draws store caller request = false

/-- The row that an amendment finds. -/
def amendedRow (store : Store) (params : AmendParams) (caller : Caller) : Option Fragment :=
  getById store params.id caller.agentId caller.keyId ((caller.groupKeyIds.or params.groupKeyIds).getD [])

/-- The updates that an amendment hands to the writer. -/
def normalizedUpdates (updates : FragmentUpdates) : FragmentUpdates :=
  { updates with keywords := updates.keywords.map (normalizeKeywords settings.tools) }

/-- What the `UPDATE` of an amendment returns. -/
def amendResult (store : Store) (params : AmendParams) (caller : Caller) : UpdateResult :=
  (update settings.digests settings.tools.countTokens draws.now store params.id
    (normalizedUpdates settings params.updates) caller.keyId).2

def UpdateResult.isUpdate : UpdateResult → Bool
  | .unchanged _ | .updated _ => true
  | _ => false

/-- What the dry run says is what the request then does. -/
def TellsTruth (store : Store) (caller : Caller) : DryRequest → Prop
  | .remember params =>
    ∀ f, (remember settings draws store { params with dryRun := true } caller).2 = .dryRun f →
      ∃ id, (remember settings draws store { params with dryRun := false } caller).2 = .stored id ∧
        ∃ g ∈ (remember settings draws store { params with dryRun := false } caller).1.fragments.rows,
          g.id = id ∧ storedView g = storedView f
  | .amend params =>
    ∀ existing, amendedRow store params caller = some existing →
      UpdateResult.isUpdate (amendResult settings draws store params caller) = true ∧
        ∃ g ∈ (amend settings draws store { params with dryRun := false } caller).fragments.rows,
          amendView g = amendView (wouldBeFragment settings existing params.updates)
  | .link params =>
    ∀ source, getById store params.fromId caller.agentId caller.keyId (caller.groups.getD []) = some source →
      ∀ target, getById store params.toId caller.agentId caller.keyId (caller.groups.getD []) = some target →
        ∃ l ∈ (link settings draws store { params with dryRun := false } caller).links.rows, l.deletedAt = none ∧
          l.fromId = params.fromId ∧ l.toId = params.toId ∧ l.relationType = params.relationType.getD .related
  | .forget id force =>
    ∀ f, getById store id caller.agentId caller.keyId (caller.groups.getD []) = some f →
      (forgetById settings none store id force caller).2.map ForgetReport.deleted =
        some (if wouldDelete f force then 1 else 0)

/-- A remember comes to its dry run, or past it. -/
def Proceeds (store : Store) (params : RememberParams) (caller : Caller) : Prop :=
  params.content.bind contentInputError = none ∧ ¬ (params.sessionScope ∧ params.session.isSome) ∧
    checkIdempotency store params caller.keyId = none

/-- A remember in the scope of a session that creates a fragment. -/
def StoresInSession (params : RememberParams) : Prop :=
  params.content.bind contentInputError = none ∧ (params.sessionScope ∧ params.session.isSome) ∧
    ∃ f, create settings.digests settings.tools draws.newId draws.now
      { params.toFragmentParams with sessionId := params.session } = .ok f

/-- The tier of the row of a remember at its end. -/
def finalTier (f : Fragment) (params : RememberParams) (tier : TtlTier) : TtlTier :=
  if f.importance < 3 / 10 ∧ ¬ params.ttlTierGiven then .short else tier

/-- Neither a quota nor a gate refuses the fragment, and the row that the insert yields to, or the new
one, is left with its content, importance and tier. -/
structure StoredAsBuilt (store : Store) (params : RememberParams) (caller : Caller) (f : Fragment) : Prop where
  quota : quotaRefuses settings draws store caller.keyId = false
  gate : (draws.hardGateBlocks && caller.keyId.isSome) = false
  check : checkImportance (prepareInsertRow settings.digests draws.now f).importance = true
  met : ∀ held, store.fragments.holder (.contentHash f.keyId (computeContentHash settings.digests f.content)) = some held →
    (held.content, max held.importance (prepareInsertRow settings.digests draws.now f).importance,
      finalTier f params held.ttlTier) = storedView f
  fresh : store.fragments.holder (.contentHash f.keyId (computeContentHash settings.digests f.content)) = none →
    Table.Fits Fragment.entries store.fragments.rows (prepareInsertRow settings.digests draws.now f) ∧
      (f.content, (prepareInsertRow settings.digests draws.now f).importance, finalTier f params f.ttlTier) = storedView f

/-- The change of importance that a verification propagates. -/
def rewardDelta : Option AssertionStatus → Option ℚ
  | some .verified => some (15 / 100)
  | some .rejected => some (-10 / 100)
  | _ => none

/-- The amended row witnesses an event of its case, so that its verification changes its importance. -/
def Rewarded (store : Store) (existing : Fragment) (status : Option AssertionStatus) : Prop :=
  settings.caseBackprop = true ∧ status ≠ some existing.assertionStatus ∧ ∃ caseId, existing.caseId = some caseId ∧
    ∃ evidence ∈ store.evidence, evidence.fragmentId = existing.id ∧
      (evidence.eventId = draws.newEventId ∨
        ∃ e ∈ store.caseEvents, e.eventId = evidence.eventId ∧ e.caseId = caseId)

/-- The row is the caller's own, no other row of the key has the new content, the new importance is one of
the table, and no reward changes it. -/
structure AmendedAsShown (store : Store) (params : AmendParams) (caller : Caller) (existing : Fragment) : Prop where
  owned : caller.keyId.isSome → existing.keyId = caller.keyId
  unique : params.updates.content.bind (duplicateOf settings.digests store existing) = none
  check : params.updates.isEmpty = false →
    checkImportance (params.updates.importance.getD existing.importance) = true
  reward : ∀ delta ∈ rewardDelta params.updates.assertionStatus,
    Rewarded settings draws store existing params.updates.assertionStatus →
      min 1 (max 0 (params.updates.importance.getD existing.importance + delta)) =
        params.updates.importance.getD existing.importance

/-- A dry run that only reads: a remember is over before its simulation, and writes no working memory. -/
def ReadsOnly (store : Store) (caller : Caller) : DryRequest → Prop
  | .remember params =>
    (StoresInSession settings draws params → settings.redisReady = false) ∧
      (Proceeds store params caller → ∀ f, buildFragment settings draws params params.caseId caller ≠ .ok f)
  | .amend _ | .link _ | .forget _ _ => True

/-- What the simulation leaves out of the request does not matter in the store. -/
def Faithful (store : Store) (caller : Caller) : DryRequest → Prop
  | .remember params =>
    Proceeds store params caller → ∀ f, buildFragment settings draws params params.caseId caller = .ok f →
      StoredAsBuilt settings draws store params caller f
  | .amend params =>
    ∀ existing, amendedRow store params caller = some existing →
      AmendedAsShown settings draws store params caller existing
  | .link params =>
    ∀ source, getById store params.fromId caller.agentId caller.keyId (caller.groups.getD []) = some source →
      ∀ target, getById store params.toId caller.agentId caller.keyId (caller.groups.getD []) = some target →
        ∀ l ∈ store.links.rows, l.fromId = params.fromId → l.toId = params.toId → l.deletedAt = none
  | .forget id force =>
    ∀ f, getById store id caller.agentId caller.keyId (caller.groups.getD []) = some f →
      wouldDelete f force = true → caller.keyId.isSome → f.keyId = caller.keyId

variable {settings draws} {store : Store} {params : RememberParams} {caller : Caller}

theorem remember_proceeds (h : Proceeds store params caller) (dryRun : Bool) :
    remember settings draws store { params with dryRun := dryRun } caller =
      if dryRun then
        match buildFragment settings draws params params.caseId caller with
        | .error reason => (store, .failed reason)
        | .ok f => (detectConflicts settings draws store f.agentId caller.keyId, .dryRun f)
      else match acceptNew settings draws store params caller with
        | .error reason => (store, .failed reason)
        | .ok accepted =>
          (finalizeRemember settings draws accepted.store { accepted.fragment with id := accepted.id }
            (if settings.rememberAtomic && caller.keyId.isSome then accepted.fragment.sessionId else params.sessionId)
            caller params, .stored accepted.id) := by
  obtain ⟨hcontent, hsession, hnone⟩ := h
  have hsession' : ¬ (({ params with dryRun := dryRun } : RememberParams).sessionScope ∧
      ({ params with dryRun := dryRun } : RememberParams).session.isSome) := hsession
  have hnone' : checkIdempotency store { params with dryRun := dryRun } caller.keyId = none := hnone
  simp only [remember, hcontent, if_neg hsession', hnone']
  rfl

/-- A remember that does not come to its dry run leaves the store alone, and writes to the working memory
exactly when it stores its fragment in the session. -/
theorem remember_stops (h : ¬ Proceeds store params caller) :
    (remember settings draws store { params with dryRun := true } caller).1 = store ∧
      (∀ f, (remember settings draws store { params with dryRun := true } caller).2 ≠ .dryRun f) ∧
      ((∃ id, (remember settings draws store { params with dryRun := true } caller).2 = .session id) ↔
        StoresInSession settings draws params) := by
  have hother : ∀ result : RememberResult, (∀ id, result ≠ .session id) → ¬ StoresInSession settings draws params →
      ((∃ id, result = .session id) ↔ StoresInSession settings draws params) :=
    fun result hresult hnot => iff_of_false (fun ⟨id, hid⟩ => hresult id hid) hnot
  cases hcontent : params.content.bind contentInputError with
  | some reason =>
    have hresult : remember settings draws store { params with dryRun := true } caller = (store, .failed reason) := by
      simp only [remember, hcontent]
    rw [hresult]
    refine ⟨rfl, fun f hf => RememberResult.noConfusion hf, hother _ (fun id hid => RememberResult.noConfusion hid) ?_⟩
    rintro ⟨hnone, -⟩
    rw [hcontent] at hnone
    cases hnone
  | none =>
    by_cases hsession : params.sessionScope ∧ params.session.isSome
    · have hsession' : ({ params with dryRun := true } : RememberParams).sessionScope ∧
          ({ params with dryRun := true } : RememberParams).session.isSome := hsession
      cases hcreate : create settings.digests settings.tools draws.newId draws.now
          { params.toFragmentParams with sessionId := params.session } with
      | error reason =>
        have hresult :
          remember settings draws store { params with dryRun := true } caller = (store, .failed reason) := by
          have hcreate' : create settings.digests settings.tools draws.newId draws.now
              { ({ params with dryRun := true } : RememberParams).toFragmentParams with
                sessionId := ({ params with dryRun := true } : RememberParams).session } = .error reason := hcreate
          simp only [remember, hcontent, if_pos hsession', hcreate']
        rw [hresult]
        refine ⟨rfl, fun f hf => RememberResult.noConfusion hf, hother _ (fun id hid => RememberResult.noConfusion hid) ?_⟩
        rintro ⟨-, -, f, hf⟩
        rw [hcreate] at hf
        cases hf
      | ok f =>
        have hresult :
          remember settings draws store { params with dryRun := true } caller = (store, .session f.id) := by
          have hcreate' : create settings.digests settings.tools draws.newId draws.now
              { ({ params with dryRun := true } : RememberParams).toFragmentParams with
                sessionId := ({ params with dryRun := true } : RememberParams).session } = .ok f := hcreate
          simp only [remember, hcontent, if_pos hsession', hcreate']
        rw [hresult]
        exact ⟨rfl, fun f hf => RememberResult.noConfusion hf, iff_of_true ⟨f.id, rfl⟩ ⟨hcontent, hsession, f, hcreate⟩⟩
    · have hsession' : ¬ (({ params with dryRun := true } : RememberParams).sessionScope ∧
          ({ params with dryRun := true } : RememberParams).session.isSome) := hsession
      cases hexisting : checkIdempotency store params caller.keyId with
      | none => exact absurd ⟨hcontent, hsession, hexisting⟩ h
      | some existing =>
        have hresult : remember settings draws store { params with dryRun := true } caller =
            (store, .idempotent existing.id) := by
          have hexisting' : checkIdempotency store { params with dryRun := true } caller.keyId = some existing :=
            hexisting
          simp only [remember, hcontent, if_neg hsession', hexisting']
        rw [hresult]
        refine ⟨rfl, fun f hf => RememberResult.noConfusion hf, hother _ (fun id hid => RememberResult.noConfusion hid) ?_⟩
        exact fun hstored => hsession hstored.2.1

/-- The dry run of a remember changes nothing exactly when it ends before its search and writes nothing for
the session. -/
theorem changesNothing_remember_iff :
    ChangesNothing settings draws store caller (.remember params) ↔
      ReadsOnly settings draws store caller (.remember params) := by
  simp only [ChangesNothing, ReadsOnly, DryRequest.request, requestStep, writesWorkingMemory, recordsSearchEvent]
  have hsame : Untouched store store := ⟨rfl, rfl, rfl⟩
  by_cases hproceeds : Proceeds store params caller
  · have hsession : StoresInSession settings draws params → settings.redisReady = false :=
      fun h => absurd h.2.1 hproceeds.2.1
    have hresult := @remember_proceeds settings draws store params caller hproceeds true
    rw [if_pos rfl] at hresult
    rw [hresult]
    cases hbuild : buildFragment settings draws params params.caseId caller with
    | error reason => exact iff_of_true ⟨hsame, rfl, rfl⟩ ⟨hsession, fun _ f hf => by cases hf⟩
    | ok f => exact iff_of_false (fun h => Bool.noConfusion h.2.2) fun h => h.2 hproceeds f rfl
  · obtain ⟨hstore, hnoDryRun, hsession⟩ := @remember_stops settings draws store params caller hproceeds
    rw [hstore]
    constructor
    · rintro ⟨-, hmemory, -⟩
      refine ⟨fun hstored => ?_, fun h => absurd h hproceeds⟩
      obtain ⟨id, hid⟩ := hsession.mpr hstored
      rw [hid] at hmemory
      exact hmemory
    · rintro ⟨hready, -⟩
      refine ⟨hsame, ?_, ?_⟩
      · split
        · rename_i id hid
          exact hready (hsession.mp ⟨id, hid⟩)
        · rfl
      · split
        · rename_i f hf
          exact absurd hf (hnoDryRun f)
        · rfl

/-- Rows that agree in everything that the dry run of a remember is about. -/
structure SameStored (f g : Fragment) : Prop where
  id : g.id = f.id
  keyId : g.keyId = f.keyId
  entries : g.entries = f.entries
  view : storedView g = storedView f

theorem admits_sameStored : Admits SameStored where
  refl _ := ⟨rfl, rfl, rfl, rfl⟩
  trans _ _ _ hfg hgh :=
    ⟨hgh.id.trans hfg.id, hgh.keyId.trans hfg.keyId, hgh.entries.trans hfg.entries, hgh.view.trans hfg.view⟩
  linked _ _ := ⟨rfl, rfl, rfl, rfl⟩
  accessed _ _ _ _ := ⟨rfl, rfl, rfl, rfl⟩
  asserted _ _ := ⟨rfl, rfl, rfl, rfl⟩
  cased _ _ := ⟨rfl, rfl, rfl, rfl⟩

/-- The row of a remember at its end: the inserted one, in the final tier. -/
theorem finalized_row {indexSession : Option String} {f row : Fragment} (hrow : row ∈ store.fragments.rows)
    (hid : row.id = f.id) (hkey : row.keyId = caller.keyId) :
    ∃ g ∈ (finalizeRemember settings draws store f indexSession caller params).fragments.rows, g.id = f.id ∧
      storedView g = (row.content, row.importance, finalTier f params row.ttlTier) := by
  have hadmits : Admits (Follows f.id fun g => g.keyId = row.keyId ∧ storedView g = storedView row) := by
    refine admits_follows ?_ ?_ ?_ ?_
    · exact fun _ _ h => h
    · exact fun _ _ _ _ h => h
    · exact fun _ _ h => h
    · exact fun _ _ h => h
  have hlinked := (@rewrites_linkedStore _ settings draws hadmits store f indexSession caller params).persists
  have hsuperseded :=
    hlinked.trans hadmits (@rewrites_supersedeAll _ draws hadmits _ f.id params.supersedes caller.keyId
    fun oldId _ hne g hg _ => ⟨rfl, fun hsame => absurd (hg.symm.trans hsame) hne⟩).persists
  obtain ⟨g, hg, hgid, hgkey, hview⟩ := Persists.follow hsuperseded hrow hid ⟨rfl, rfl⟩
  simp only [storedView, Prod.mk.injEq] at hview
  rw [fragments_finalizeRemember]
  simp only [lowerTier, finalTier]
  by_cases hlow : f.importance < 3 / 10 ∧ ¬ params.ttlTierGiven
  · have howned : ownedBy caller.keyId g = true := by
      simp only [ownedBy, hgkey, hkey, decide_true, Bool.or_true]
    have hmem := updated_mem_updateFragments hg (fun r => decide (r.id = f.id) && ownedBy caller.keyId r) (setTtlTier .short)
    rw [if_pos (by simp only [hgid, howned, decide_true, Bool.and_self])] at hmem
    simp only [if_pos hlow]
    refine ⟨_, hmem, hgid, ?_⟩
    simp only [storedView, setTtlTier, hview.1, hview.2.1]
  · simp only [if_neg hlow]
    refine ⟨g, hg, hgid, ?_⟩
    simp only [storedView, hview.1, hview.2.1, hview.2.2]

/-- The holder of an index entry, in a store whose rows agree with those of another one. -/
theorem holder_of_rewrites {before after : Store} (h : Rewrites SameStored before after) (entry : FragmentEntry) :
    (∃ f g, before.fragments.holder entry = some f ∧ after.fragments.holder entry = some g ∧ SameStored f g) ∨
      (before.fragments.holder entry = none ∧ after.fragments.holder entry = none) := by
  cases hholder : before.fragments.holder entry with
  | some f =>
    obtain ⟨hf, hentry⟩ := (Table.holder_eq_some_iff _).mp hholder
    obtain ⟨g, hg, hsame⟩ := h.persists f hf
    exact Or.inl ⟨f, g, rfl, (Table.holder_eq_some_iff _).mpr ⟨hg, hsame.entries ▸ hentry⟩, hsame⟩
  | none =>
    refine Or.inr ⟨rfl, (Table.holder_eq_none_iff _).mpr fun g hg hentry => ?_⟩
    obtain ⟨f, hf, hsame⟩ := h.covers g hg
    exact (Table.holder_eq_none_iff _).mp hholder f hf (hsame.entries ▸ hentry)

theorem fits_of_rewrites {before after : Store} (h : Rewrites SameStored before after) (row : Fragment) :
    Table.Fits Fragment.entries after.fragments.rows row ↔ Table.Fits Fragment.entries before.fragments.rows row := by
  constructor
  · intro hfits f hf entry hentry
    obtain ⟨g, hg, hsame⟩ := h.persists f hf
    exact hfits g hg entry (hsame.entries.symm ▸ hentry)
  · intro hfits g hg entry hentry
    obtain ⟨f, hf, hsame⟩ := h.covers g hg
    exact hfits f hf entry (hsame.entries ▸ hentry)

/-- When an insert goes through, by the store before the case assignment. -/
theorem insert_isSome_iff {assigned : Store} (hassigned : Rewrites SameStored store assigned) {digests : Digests}
    {now : Time} {f : Fragment} (hcheck : checkImportance (prepareInsertRow digests now f).importance = true) :
    (∃ next id, insert digests now assigned f = some (next, id)) ↔
      (store.fragments.holder (.contentHash f.keyId (computeContentHash digests f.content)) = none →
        Table.Fits Fragment.entries store.fragments.rows (prepareInsertRow digests now f)) := by
  have hid := insert_admitted assigned hcheck
  have hsome : (∃ next id, insert digests now assigned f = some (next, id)) ↔
      ((insert digests now assigned f).map Prod.snd).isSome = true := by
    rw [Option.isSome_map, Option.isSome_iff_exists]
    exact ⟨fun ⟨next, id, h⟩ => ⟨_, h⟩, fun ⟨result, h⟩ => ⟨result.1, result.2, h⟩⟩
  rw [hsome, hid]
  rcases holder_of_rewrites hassigned (.contentHash f.keyId (computeContentHash digests f.content)) with
    ⟨held, held', hheld, hheld', -⟩ | ⟨hnone, hnone'⟩
  · rw [hheld, hheld']
    exact iff_of_true rfl fun h => by cases h
  · rw [hnone, hnone', ← fits_of_rewrites hassigned]
    by_cases hfits : Table.Fits Fragment.entries assigned.fragments.rows (prepareInsertRow digests now f)
    · simp only [if_pos hfits]
      exact iff_of_true rfl fun _ => hfits
    · simp only [if_neg hfits]
      exact iff_of_false Bool.false_ne_true fun h => hfits (h trivial)

/-- The row of an insert: the promoted one that it yields to, or the new one. -/
theorem inserted_row {assigned next : Store} (hassigned : Rewrites SameStored store assigned) {digests : Digests}
    {now : Time} {f : Fragment} {id : FragmentId} (h : insert digests now assigned f = some (next, id)) :
    ∃ r ∈ next.fragments.rows, r.id = id ∧ r.keyId = f.keyId ∧
      storedView r = match store.fragments.holder (.contentHash f.keyId (computeContentHash digests f.content)) with
        | some held => (held.content, max held.importance (prepareInsertRow digests now f).importance, held.ttlTier)
        | none => (f.content, (prepareInsertRow digests now f).importance, f.ttlTier) := by
  rcases upsertRow_cases h with ⟨held, hheld, hkey, hhash, hid, rfl⟩ | ⟨hfree, hid, fragments, hinsert, rfl⟩
  · have hentry : FragmentEntry.contentHash f.keyId (computeContentHash digests f.content) ∈ held.entries :=
      contentHash_mem_entries.mpr ⟨hkey.symm, hhash.symm⟩
    have hholder := (Table.holder_eq_some_iff assigned.fragments).mpr ⟨hheld, hentry⟩
    have hmem := updated_mem_updateFragments hheld (fun g => decide (FragmentEntry.contentHash
      (prepareInsertRow digests now f).keyId (prepareInsertRow digests now f).contentHash ∈ g.entries))
      (promote now (prepareInsertRow digests now f))
    have harbiter : decide (FragmentEntry.contentHash (prepareInsertRow digests now f).keyId
        (prepareInsertRow digests now f).contentHash ∈ held.entries) = true := decide_eq_true hentry
    rw [if_pos harbiter] at hmem
    refine ⟨_, hmem, hid.symm, hkey, ?_⟩
    rcases holder_of_rewrites hassigned (.contentHash f.keyId (computeContentHash digests f.content)) with
      ⟨old, new, hold, hnew, hsame⟩ | ⟨-, hnone⟩
    · rw [hholder] at hnew
      cases hnew
      have hview := hsame.view
      simp only [storedView, Prod.mk.injEq] at hview
      rw [hold]
      simp only [storedView, promote, hview.1, hview.2.1, hview.2.2]
    · rw [hholder] at hnone
      cases hnone
  · have hrows := Table.rows_insert hinsert
    refine ⟨prepareInsertRow digests now f, ?_, hid.symm, rfl, ?_⟩
    · simp only [hrows]
      exact List.mem_append_right _ (List.mem_singleton.mpr rfl)
    · rcases holder_of_rewrites hassigned (.contentHash f.keyId (computeContentHash digests f.content)) with
        ⟨old, new, -, hnew, -⟩ | ⟨hnone, -⟩
      · obtain ⟨hmem, hentry⟩ := (Table.holder_eq_some_iff _).mp hnew
        obtain ⟨hkey, hhash⟩ := contentHash_mem_entries.mp hentry
        exact absurd ⟨hkey.symm, hhash.symm⟩ (hfree new hmem)
      · rw [hnone]
        rfl

theorem create_caseId {digests : Digests} {tools : TextTools} {newId : FragmentId} {now : Time}
    {params : FragmentParams}
    {f : Fragment} (h : create digests tools newId now params = .ok f) (caseId : Option String) :
    create digests tools newId now { params with caseId := caseId } = .ok { f with caseId := truthy caseId } := by
  simp only [create] at h ⊢
  split at h
  · cases h
  · rename_i hraw
    rw [if_neg hraw]
    split at h
    · cases h
    · cases h
      rfl

/-- A fragment is built alike for every case. -/
theorem buildFragment_caseId {caseId : Option String} {f : Fragment}
    (h : buildFragment settings draws params caseId caller = .ok f) (other : Option String) :
    ∃ assigned, buildFragment settings draws params other caller = .ok { f with caseId := assigned } := by
  simp only [buildFragment] at h ⊢
  cases hcreate : create settings.digests settings.tools draws.newId draws.now (params.factoryParams caseId) with
  | error reason =>
    rw [hcreate] at h
    cases h
  | ok created =>
    rw [hcreate] at h
    cases h
    have hother : create settings.digests settings.tools draws.newId draws.now (params.factoryParams other) =
        .ok { created with caseId := truthy other } := create_caseId hcreate other
    rw [hother]
    exact ⟨truthy other, rfl⟩

theorem quotaRefuses_assigned (store : Store) (params : RememberParams) (caller : Caller) :
    quotaRefuses settings draws (autoAssignCaseId draws store params caller).1 caller.keyId =
      quotaRefuses settings draws store caller.keyId := by
  simp only [quotaRefuses]
  split
  · rw [RememberPaths.liveCount_autoAssignCaseId]
  · rfl

/-- The cached check of the quota refuses only what the quota refuses. -/
theorem quotaRefuses_of_cached
    (h : ((!(settings.rememberAtomic && caller.keyId.isSome)) && draws.quotaRefuses) = true) :
    quotaRefuses settings draws store caller.keyId = true := by
  simp only [Bool.and_eq_true, Bool.not_eq_true'] at h
  simp only [quotaRefuses]
  split
  · rename_i key hkey hatomic
    rw [hkey, hatomic] at h
    cases h.1
  · exact h.2

/-- A built fragment is accepted when neither the quota nor the gate refuses it and its insert goes
through. -/
theorem acceptNew_built {f : Fragment} (hbuild : buildFragment settings draws params params.caseId caller = .ok f) :
    ∃ caseId : Option String, ∀ accepted, acceptNew settings draws store params caller = .ok accepted ↔
      quotaRefuses settings draws store caller.keyId = false ∧ (draws.hardGateBlocks && caller.keyId.isSome) = false ∧
        accepted.fragment = { f with caseId := caseId } ∧
        insert settings.digests draws.now (autoAssignCaseId draws store params caller).1 { f with caseId := caseId } =
          some (accepted.store, accepted.id) := by
  obtain ⟨caseId, hbuilt⟩ := buildFragment_caseId hbuild (autoAssignCaseId draws store params caller).2
  refine ⟨caseId, fun accepted => ?_⟩
  simp only [acceptNew, hbuilt, quotaRefuses_assigned]
  by_cases hcached : ((!(settings.rememberAtomic && caller.keyId.isSome)) && draws.quotaRefuses) = true
  · rw [if_pos hcached, @quotaRefuses_of_cached settings draws store caller hcached]
    refine iff_of_false (fun h => ?_) fun h => Bool.noConfusion h.1
    cases h
  · rw [if_neg hcached]
    cases hgate : draws.hardGateBlocks && caller.keyId.isSome with
    | true =>
      refine iff_of_false (fun h => ?_) fun h => Bool.noConfusion h.2.1
      cases h
    | false =>
      cases hquota : quotaRefuses settings draws store caller.keyId with
      | true =>
        refine iff_of_false (fun h => ?_) fun h => Bool.noConfusion h.1
        cases h
      | false =>
        cases hinsert : insert settings.digests draws.now (autoAssignCaseId draws store params caller).1
            { f with caseId := caseId } with
        | none =>
          refine iff_of_false (fun h => ?_) fun h => ?_
          · cases h
          · cases h.2.2.2
        | some result =>
          obtain ⟨next, id⟩ := result
          simp only [Bool.false_eq_true, if_false, Except.ok.injEq, Option.some.injEq, Prod.mk.injEq, true_and]
          constructor
          · rintro rfl
            exact ⟨rfl, rfl, rfl⟩
          · rintro ⟨hfragment, hstore, hid⟩
            cases accepted
            cases hfragment
            cases hstore
            cases hid
            rfl

/-- What a remember does with a built fragment is what its dry run says exactly when the fragment is stored
as it was built. -/
theorem stored_iff {f : Fragment} (hproceeds : Proceeds store params caller)
    (hbuild : buildFragment settings draws params params.caseId caller = .ok f) :
    (∃ id, (remember settings draws store { params with dryRun := false } caller).2 = .stored id ∧
      ∃ g ∈ (remember settings draws store { params with dryRun := false } caller).1.fragments.rows,
        g.id = id ∧ storedView g = storedView f) ↔ StoredAsBuilt settings draws store params caller f := by
  obtain ⟨caseId, haccept⟩ := @acceptNew_built settings draws store params caller f hbuild
  have hassigned : Rewrites SameStored store (autoAssignCaseId draws store params caller).1 :=
    rewrites_autoAssignCaseId admits_sameStored store params caller
  have hkey : f.keyId = caller.keyId := (buildFragment_spec hbuild).1
  have hresult := @remember_proceeds settings draws store params caller hproceeds false
  rw [if_neg Bool.false_ne_true] at hresult
  rw [hresult]
  have hfinal : ∀ next id indexSession, insert settings.digests draws.now (autoAssignCaseId draws store params caller).1
      { f with caseId := caseId } = some (next, id) →
      ((∃ g ∈ (finalizeRemember settings draws next { f with caseId := caseId, id := id } indexSession caller
        params).fragments.rows, g.id = id ∧ storedView g = storedView f) ↔
        match store.fragments.holder (.contentHash f.keyId (computeContentHash settings.digests f.content)) with
        | some held => (held.content, max held.importance (prepareInsertRow settings.digests draws.now f).importance,
            finalTier f params held.ttlTier) = storedView f
        | none =>
          (f.content, (prepareInsertRow settings.digests draws.now f).importance, finalTier f params f.ttlTier) =
            storedView f) := by
    intro next id indexSession hinsert
    obtain ⟨row, hrow, hrowId, hrowKey, hview⟩ := inserted_row hassigned hinsert
    obtain ⟨g, hg, hgid, hgview⟩ := @finalized_row settings draws next params caller indexSession
      { f with caseId := caseId, id := id } row hrow hrowId (hrowKey.trans hkey)
    have hunique :
      (∃ k ∈ (finalizeRemember settings draws next { f with caseId := caseId, id := id } indexSession caller
        params).fragments.rows, k.id = id ∧ storedView k = storedView f) ↔ storedView g = storedView f := by
      constructor
      · rintro ⟨k, hk, hkid, hkview⟩
        rw [eq_of_id _ hg hk (hgid.trans hkid.symm)]
        exact hkview
      · exact fun h => ⟨g, hg, hgid, h⟩
    rw [hunique, hgview]
    simp only [storedView] at hview
    cases hholder : store.fragments.holder (.contentHash f.keyId (computeContentHash settings.digests f.content)) with
    | some held =>
      simp only [hholder, Prod.mk.injEq] at hview
      rw [hview.1, hview.2.1, hview.2.2]
      exact Iff.rfl
    | none =>
      simp only [hholder, Prod.mk.injEq] at hview
      rw [hview.1, hview.2.1, hview.2.2]
      exact Iff.rfl
  constructor
  · rintro ⟨id, hid, hstored⟩
    cases haccepted : acceptNew settings draws store params caller with
    | error reason =>
      rw [haccepted] at hid
      cases hid
    | ok accepted =>
      obtain ⟨next, fragment, newId⟩ := accepted
      rw [haccepted] at hid hstored
      cases hid
      obtain ⟨hquota, hgate, hfragment, hinsert⟩ := (haccept ⟨next, fragment, newId⟩).mp haccepted
      simp only at hfragment hinsert
      subst hfragment
      have hview := (hfinal _ _ _ hinsert).mp hstored
      have hcheck : checkImportance (prepareInsertRow settings.digests draws.now f).importance = true := by
        by_contra hnot
        have hrefused :
          ¬ checkImportance (prepareInsertRow settings.digests draws.now { f with caseId := caseId }).importance = true := hnot
        simp only [FragmentWriter.insert, upsertRow, if_neg hrefused] at hinsert
        cases hinsert
      refine ⟨hquota, hgate, hcheck, fun held hheld => ?_, fun hnone => ⟨?_, ?_⟩⟩
      · rw [hheld] at hview
        exact hview
      · exact (@insert_isSome_iff store _ hassigned _ _ { f with caseId := caseId } hcheck).mp ⟨_, _, hinsert⟩ hnone
      · rw [hnone] at hview
        exact hview
  · intro h
    have hcheck :
      checkImportance (prepareInsertRow settings.digests draws.now { f with caseId := caseId }).importance = true :=
      h.check
    obtain ⟨next, id, hinsert⟩ := (insert_isSome_iff hassigned hcheck).mpr fun hnone => (h.fresh hnone).1
    have haccepted := (haccept ⟨next, { f with caseId := caseId }, id⟩).mpr ⟨h.quota, h.gate, rfl, hinsert⟩
    rw [haccepted]
    refine ⟨id, rfl, (hfinal next id _ hinsert).mpr ?_⟩
    cases hholder : store.fragments.holder (.contentHash f.keyId (computeContentHash settings.digests f.content)) with
    | some held => exact h.met held hholder
    | none => exact (h.fresh hholder).2

/-- The dry run of a remember says what it does exactly when each fragment it builds is stored as built. -/
theorem tellsTruth_remember_iff :
    TellsTruth settings draws store caller (.remember params) ↔
      (Proceeds store params caller → ∀ f, buildFragment settings draws params params.caseId caller = .ok f →
        StoredAsBuilt settings draws store params caller f) := by
  simp only [TellsTruth]
  by_cases hproceeds : Proceeds store params caller
  · have hdry := @remember_proceeds settings draws store params caller hproceeds true
    rw [if_pos rfl] at hdry
    rw [hdry]
    cases hbuild : buildFragment settings draws params params.caseId caller with
    | error reason =>
      refine iff_of_true (fun f hf => RememberResult.noConfusion hf) fun _ f hf => ?_
      cases hf
    | ok built =>
      have hiff := @stored_iff settings draws store params caller built hproceeds hbuild
      constructor
      · intro h _ f hf
        cases hf
        exact hiff.mp (h built rfl)
      · intro h f hf
        cases hf
        exact hiff.mpr (h hproceeds built rfl)
  · obtain ⟨-, hno, -⟩ := @remember_stops settings draws store params caller hproceeds
    exact iff_of_true (fun f hf => absurd hf (hno f)) fun h => absurd h hproceeds

/-- The amended row stands beside the others of the table: no other one has the new content. -/
theorem fits_apply {existing : Fragment} (hexisting : existing ∈ store.fragments.rows) {updates : FragmentUpdates}
    (hunique : updates.content.bind (duplicateOf settings.digests store existing) = none) :
    Table.Fits Fragment.entries
      (store.fragments.delete fun f => decide (FragmentEntry.primary existing.id ∈ f.entries)).rows
      (updates.apply settings.digests settings.tools.countTokens draws.now existing) := by
  intro other hother entry hentry hmem
  obtain ⟨hrow, hdistinct⟩ := (Table.mem_delete_iff _).mp hother
  have hne : other ≠ existing := by
    rintro rfl
    exact (of_decide_eq_false hdistinct) (primary_mem_entries.mpr rfl)
  have hold : entry ∉ existing.entries := fun h => hne (store.fragments.eq_of_entry hrow hexisting hentry h)
  cases hcontent : updates.content with
  | none =>
    refine hold ?_
    simpa only [FragmentUpdates.apply, hcontent, Option.map_none, Option.getD_none, Fragment.entries] using hmem
  | some content =>
    cases entry with
    | primary id =>
      have hid := primary_mem_entries.mp hmem
      exact hold (primary_mem_entries.mpr hid)
    | idempotency keyId idempotencyKey =>
      have hkey := idempotency_mem_entries.mp hmem
      exact hold (idempotency_mem_entries.mpr hkey)
    | contentHash keyId hash =>
      obtain ⟨hkey, hhash⟩ := contentHash_mem_entries.mp hentry
      obtain ⟨hkey', hhash'⟩ := contentHash_mem_entries.mp hmem
      simp only [FragmentUpdates.apply, hcontent, Option.map_some, Option.getD_some] at hkey' hhash'
      have hdifferent : other.id ≠ existing.id := fun h => hne (eq_of_id _ hrow hexisting h)
      rw [hcontent, Option.bind_some, duplicateOf] at hunique
      have hnone := List.find?_eq_none.mp hunique other hrow
      refine hnone ?_
      simp only [hdifferent, ← hhash, ← hhash', ← hkey, ← hkey', decide_true, ne_eq, not_false_eq_true, Bool.and_self]

/-- An amendment of a row under the caller's key, by what the columns and the other rows allow. -/
theorem update_owned {existing : Fragment} (hexisting : existing ∈ store.fragments.rows) {updates : FragmentUpdates}
    {keyId : Option KeyId} (howned : keyId.isSome → existing.keyId = keyId)
    (hunique : updates.content.bind (duplicateOf settings.digests store existing) = none) :
    (updates.isEmpty = true ∧
      update settings.digests settings.tools.countTokens draws.now store existing.id updates keyId =
        (store, .unchanged existing)) ∨
    (updates.isEmpty = false ∧ ∃ fragments,
      store.fragments.replace (.primary existing.id)
        (updates.apply settings.digests settings.tools.countTokens draws.now existing) = some fragments ∧
      update settings.digests settings.tools.countTokens draws.now store existing.id updates keyId =
        if checkImportance (updates.importance.getD existing.importance) then
          ({ store with fragments := fragments },
            .updated (updates.apply settings.digests settings.tools.countTokens draws.now existing))
        else (store, .failed)) := by
  have hbyId := (byId_eq_some_iff store.fragments).mpr ⟨hexisting, rfl⟩
  have hkey : ¬ (keyId.isSome ∧ existing.keyId ≠ keyId) := fun h => h.2 (howned h.1)
  cases hempty : updates.isEmpty with
  | true =>
    refine Or.inl ⟨rfl, ?_⟩
    simp only [update, hbyId, if_neg hkey, hunique, hempty, if_true]
  | false =>
    obtain ⟨fragments, hreplace⟩ : ∃ fragments, store.fragments.replace (.primary existing.id)
        (updates.apply settings.digests settings.tools.countTokens draws.now existing) = some fragments := by
      rw [Table.replace, dif_pos (@fits_apply settings draws store existing hexisting updates hunique)]
      exact ⟨_, rfl⟩
    refine Or.inr ⟨rfl, fragments, hreplace, ?_⟩
    simp only [update, hbyId, if_neg hkey, hunique, hempty, Bool.false_eq_true, if_false, hreplace]
    rfl

/-- The event of a status that is rewarded. -/
theorem backprop_of_rewardDelta {status : Option AssertionStatus} {delta : ℚ} (h : rewardDelta status = some delta) :
    ∃ eventType, status.bind verificationEvent = some eventType ∧
      ∀ (current : Store) (caseId : String) (keyId : Option KeyId),
        backprop true current caseId eventType keyId =
          current.updateFragments (fun f => (current.evidence.filter fun evidence =>
            current.caseEvents.any fun e => e.eventId = evidence.eventId && e.caseId = caseId).any
              (fun evidence => evidence.fragmentId = f.id) && ownedBy keyId f) (adjustImportance delta) := by
  cases status with
  | none => cases h
  | some status =>
    cases status with
    | verified =>
      cases h
      exact ⟨.verificationPassed, rfl, fun _ _ _ => rfl⟩
    | rejected =>
      cases h
      exact ⟨.verificationFailed, rfl, fun _ _ _ => rfl⟩
    | observed => cases h
    | inferred => cases h

/-- The fragments that witness an event of a case when one more is appended to it. -/
theorem any_witness_append (event : CaseEvent) (id : FragmentId) :
    ((append store event).evidence.filter fun evidence => (append store event).caseEvents.any fun e =>
        e.eventId = evidence.eventId && e.caseId = event.caseId).any (fun evidence => evidence.fragmentId = id) = true ↔
      ∃ evidence ∈ store.evidence, evidence.fragmentId = id ∧
        (evidence.eventId = event.eventId ∨
          ∃ e ∈ store.caseEvents, e.eventId = evidence.eventId ∧ e.caseId = event.caseId) := by
  simp only [append, List.any_eq_true, List.mem_filter, List.mem_append, List.mem_singleton, Bool.and_eq_true,
    decide_eq_true_eq]
  constructor
  · rintro ⟨evidence, ⟨hevidence, e, he | rfl, heventId, hcaseId⟩, hfragment⟩
    · exact ⟨evidence, hevidence, hfragment, Or.inr ⟨e, he, heventId, hcaseId⟩⟩
    · exact ⟨evidence, hevidence, hfragment, Or.inl heventId.symm⟩
  · rintro ⟨evidence, hevidence, hfragment, hnew | ⟨e, he, heventId, hcaseId⟩⟩
    · exact ⟨evidence, ⟨hevidence, _, Or.inr rfl, hnew.symm, rfl⟩, hfragment⟩
    · exact ⟨evidence, ⟨hevidence, e, Or.inl he, heventId, hcaseId⟩, hfragment⟩

/-- What the recording of a verification leaves of the amended row: the row itself, or the rewarded one. -/
theorem recordVerification_row {existing g : Fragment} {status : Option AssertionStatus} {keyId : Option KeyId}
    (hg : g ∈ store.fragments.rows) (hid : g.id = existing.id) (howned : ownedBy keyId g = true) :
    g ∈ (recordVerification settings draws store existing status keyId).fragments.rows ∧
        (∀ delta, rewardDelta status = some delta → ¬ Rewarded settings draws store existing status) ∨
      ∃ delta, rewardDelta status = some delta ∧ Rewarded settings draws store existing status ∧
        (adjustImportance delta).set g ∈
          (recordVerification settings draws store existing status keyId).fragments.rows := by
  cases hdelta : rewardDelta status with
  | none =>
    have hevent : status.bind verificationEvent = none := by
      cases status with
      | none => rfl
      | some status => cases status <;> first | rfl | cases hdelta
    simp only [recordVerification, hevent]
    exact Or.inl ⟨hg, fun delta h => by cases h⟩
  | some delta =>
    obtain ⟨eventType, hevent, hbackprop⟩ := backprop_of_rewardDelta hdelta
    simp only [recordVerification, hevent]
    cases hcase : existing.caseId with
    | none =>
      refine Or.inl ⟨hg, fun _ _ hrewarded => ?_⟩
      obtain ⟨-, -, caseId, hcaseId, -⟩ := hrewarded
      rw [hcase] at hcaseId
      cases hcaseId
    | some caseId =>
      by_cases hsame : status = some existing.assertionStatus
      · simp only [if_pos hsame]
        exact Or.inl ⟨hg, fun _ _ h => h.2.1 hsame⟩
      · simp only [if_neg hsame, (eventsOnly_addEvidence _ _).fragments]
        cases henabled : settings.caseBackprop with
        | false =>
          refine Or.inl ⟨hg, fun _ _ h => ?_⟩
          rw [h.1] at henabled
          cases henabled
        | true =>
          rw [hbackprop]
          generalize hnew : CaseEvent.mk _ _ _ _ _ _ _ _ _ _ = event
          have hwitness := @any_witness_append store event g.id
          have heventId : event.eventId = draws.newEventId := by rw [← hnew]
          have hcaseId : event.caseId = caseId := by rw [← hnew]
          rw [heventId, hcaseId, hid] at hwitness
          have hmem := @updated_mem_updateFragments (append store event) g hg
            (fun f => ((append store event).evidence.filter fun evidence => (append store event).caseEvents.any fun e =>
              e.eventId = evidence.eventId && e.caseId = caseId).any (fun evidence => evidence.fragmentId = f.id) &&
                ownedBy keyId f) (adjustImportance delta)
          simp only [howned, Bool.and_true, hid] at hmem
          by_cases hrewarded : ∃ evidence ∈ store.evidence, evidence.fragmentId = existing.id ∧
              (evidence.eventId = draws.newEventId ∨
                ∃ e ∈ store.caseEvents, e.eventId = evidence.eventId ∧ e.caseId = caseId)
          · rw [if_pos (hwitness.mpr hrewarded)] at hmem
            exact Or.inr ⟨delta, rfl, ⟨henabled, hsame, caseId, hcase, hrewarded⟩, hmem⟩
          · rw [if_neg fun h => hrewarded (hwitness.mp h)] at hmem
            refine Or.inl ⟨hmem, fun _ _ hrewards => hrewarded ?_⟩
            obtain ⟨-, -, other, hother, h⟩ := hrewards
            rw [hcase] at hother
            cases hother
            exact h

/-- An amendment that goes through ends with the recording of its verification. -/
theorem amend_eq_recordVerification {params : AmendParams} {existing : Fragment}
    (hfound : amendedRow store params caller = some existing)
    (hupdate : UpdateResult.isUpdate (amendResult settings draws store params caller) = true) :
    ∃ current : Store, current.fragments = (update settings.digests settings.tools.countTokens draws.now store params.id
        (normalizedUpdates settings params.updates) caller.keyId).1.fragments ∧
      current.evidence = store.evidence ∧ current.caseEvents = store.caseEvents ∧
      amend settings draws store { params with dryRun := false } caller =
        recordVerification settings draws current existing params.updates.assertionStatus caller.keyId := by
  have hkept : (update settings.digests settings.tools.countTokens draws.now store params.id
      (normalizedUpdates settings params.updates) caller.keyId).1.evidence = store.evidence ∧
      (update settings.digests settings.tools.countTokens draws.now store params.id
      (normalizedUpdates settings params.updates) caller.keyId).1.caseEvents = store.caseEvents := by
    rcases update_cases settings.tools.countTokens draws.now store params.id
      (normalizedUpdates settings params.updates) caller.keyId with hsame | ⟨_, _, _, _, _, _, hupdated⟩
    · rw [hsame]
      exact ⟨rfl, rfl⟩
    · rw [hupdated]
      exact ⟨rfl, rfl⟩
  have hindexed : ∀ (current : Store) (row : Fragment),
      (index settings.redisReady settings.tools
        (deindex settings.redisReady settings.tools current existing existing.keyId) row none existing.keyId).fragments =
          current.fragments ∧
      (index settings.redisReady settings.tools
        (deindex settings.redisReady settings.tools current existing existing.keyId) row none existing.keyId).evidence =
          current.evidence ∧
      (index settings.redisReady settings.tools
        (deindex settings.redisReady settings.tools current existing existing.keyId) row none existing.keyId).caseEvents =
          current.caseEvents := by
    intro current row
    simp only [index, deindex]
    cases settings.redisReady <;> exact ⟨rfl, rfl, rfl⟩
  simp only [amendedRow] at hfound
  simp only [amendResult] at hupdate
  cases hresult : update settings.digests settings.tools.countTokens draws.now store params.id
      (normalizedUpdates settings params.updates) caller.keyId with
  | mk after result =>
    rw [hresult] at hupdate hkept
    obtain ⟨hevidence, hevents⟩ := hkept
    cases result with
    | missing => exact Bool.noConfusion hupdate
    | merged existingId => exact Bool.noConfusion hupdate
    | failed => exact Bool.noConfusion hupdate
    | unchanged row =>
      obtain ⟨hrows, hevidence', hevents'⟩ := hindexed after row
      refine ⟨_, hrows, hevidence'.trans hevidence, hevents'.trans hevents, ?_⟩
      simp only [normalizedUpdates] at hresult
      simp only [amend, hfound, hresult, Bool.false_eq_true, if_false]
    | updated row =>
      obtain ⟨hrows, hevidence', hevents'⟩ := hindexed after row
      refine ⟨_, hrows, hevidence'.trans hevidence, hevents'.trans hevents, ?_⟩
      simp only [normalizedUpdates] at hresult
      simp only [amend, hfound, hresult, Bool.false_eq_true, if_false]

theorem isEmpty_eq_true {updates : FragmentUpdates} (h : updates.isEmpty = true) : updates = {} := by
  simp only [FragmentUpdates.isEmpty, Bool.and_eq_true, Option.isNone_iff_eq_none] at h
  obtain ⟨⟨⟨⟨⟨⟨hcontent, htopic⟩, hkeywords⟩, htype⟩, himportance⟩, hanchor⟩, hassertion⟩ := h
  cases updates
  cases hcontent
  cases htopic
  cases hkeywords
  cases htype
  cases himportance
  cases hanchor
  cases hassertion
  rfl

/-- The row of an amendment at its end, when the `UPDATE` leaves `row`. -/
theorem amended_iff {existing row : Fragment} {status : Option AssertionStatus} {keyId : Option KeyId} {current : Store}
    (hrow : row ∈ current.fragments.rows) (hid : row.id = existing.id) (howned : ownedBy keyId row = true)
    (hevidence : current.evidence = store.evidence) (hevents : current.caseEvents = store.caseEvents) :
    (∃ g ∈ (recordVerification settings draws current existing status keyId).fragments.rows, amendView g = amendView row) ↔
      ∀ delta ∈ rewardDelta status, Rewarded settings draws store existing status →
        min 1 (max 0 (row.importance + delta)) = row.importance := by
  have hsame : Rewarded settings draws current existing status ↔ Rewarded settings draws store existing status := by
    simp only [Rewarded, hevidence, hevents]
  rcases @recordVerification_row settings draws current existing row status keyId hrow hid howned with
    ⟨hmem, hunrewarded⟩ | ⟨delta, hdelta, hrewarded, hmem⟩
  · exact iff_of_true ⟨row, hmem, rfl⟩ fun delta hdelta h => absurd (hsame.mpr h) (hunrewarded delta hdelta)
  · constructor
    · rintro ⟨g, hg, hview⟩ other hother -
      rw [hdelta] at hother
      cases hother
      simp only [amendView, Prod.mk.injEq] at hview
      have hgid : g.id = ((adjustImportance delta).set row).id := hview.1
      have himportance := hview.2.2.2.2.2.1
      rw [eq_of_id _ hg hmem hgid] at himportance
      exact himportance
    · intro h
      refine ⟨_, hmem, ?_⟩
      have himportance := h delta hdelta (hsame.mp hrewarded)
      simp only [amendView, adjustImportance, himportance]

/-- An amendment does what its dry run shows exactly when the row is the caller's, no other has the new
content, the column admits the importance and no reward changes it. -/
theorem tellsTruth_amend_iff {params : AmendParams} :
    TellsTruth settings draws store caller (.amend params) ↔
      ∀ existing, amendedRow store params caller = some existing →
        AmendedAsShown settings draws store params caller existing := by
  simp only [TellsTruth]
  refine forall₂_congr fun existing hfound => ?_
  obtain ⟨hexisting, hid, -, -⟩ := getById_eq_some hfound
  have hnormal : (normalizedUpdates settings params.updates).isEmpty = params.updates.isEmpty := by
    simp only [FragmentUpdates.isEmpty, normalizedUpdates, Option.isNone_map]
  have hbyId := (byId_eq_some_iff store.fragments).mpr ⟨hexisting, hid⟩
  by_cases howned : caller.keyId.isSome → existing.keyId = caller.keyId
  · cases hunique : params.updates.content.bind (duplicateOf settings.digests store existing) with
    | some duplicate =>
      have hkey : ¬ (caller.keyId.isSome ∧ existing.keyId ≠ caller.keyId) := fun h => h.2 (howned h.1)
      have hcontent : (normalizedUpdates settings params.updates).content.bind
          (duplicateOf settings.digests store existing) = some duplicate := hunique
      refine iff_of_false (fun h => ?_) fun h => ?_
      · have hupdate := h.1
        simp only [amendResult, update, hbyId, if_neg hkey, hcontent] at hupdate
        exact Bool.noConfusion hupdate
      · have hnone := h.unique
        rw [hunique] at hnone
        cases hnone
    | none =>
      have hcontent : (normalizedUpdates settings params.updates).content.bind
          (duplicateOf settings.digests store existing) = none := hunique
      have hownedBy : ownedBy caller.keyId existing = true := by
        cases hkeyId : caller.keyId with
        | none => rfl
        | some key =>
          rw [hkeyId] at howned
          simp only [ownedBy, howned rfl, decide_true, Bool.or_true]
      rcases @update_owned settings draws store existing hexisting _ caller.keyId howned hcontent with
        ⟨hempty, hupdated⟩ | ⟨hnonempty, fragments, hreplace, hupdated⟩
      · rw [hid] at hupdated
        have hupdate : UpdateResult.isUpdate (amendResult settings draws store params caller) = true := by
          simp only [amendResult, hupdated]
          rfl
        have hunchanged : params.updates = {} := isEmpty_eq_true (hnormal ▸ hempty)
        obtain ⟨current, hrows, hevidence, hevents, hamend⟩ :=
          @amend_eq_recordVerification settings draws store caller params existing hfound hupdate
        rw [hupdated] at hrows
        have hrow : existing ∈ current.fragments.rows := hrows ▸ hexisting
        have hfinal := @amended_iff settings draws store existing existing params.updates.assertionStatus caller.keyId
          current hrow rfl hownedBy hevidence hevents
        rw [hamend]
        have hnoReward : rewardDelta params.updates.assertionStatus = none := by rw [hunchanged]; rfl
        refine iff_of_true ⟨hupdate, ?_⟩ ⟨howned, hunique, fun h => ?_, fun delta hdelta => ?_⟩
        · have hview : amendView (wouldBeFragment settings existing params.updates) = amendView existing := by
            rw [hunchanged]
            rfl
          rw [hview]
          refine hfinal.mpr fun delta hdelta => ?_
          rw [hnoReward] at hdelta
          cases hdelta
        · rw [hnormal, h] at hempty
          cases hempty
        · rw [hnoReward] at hdelta
          cases hdelta
      · rw [hid] at hupdated hreplace
        cases hcheck : checkImportance (params.updates.importance.getD existing.importance) with
        | false =>
          refine iff_of_false (fun h => ?_) fun h => ?_
          · have hupdate := h.1
            have hfailed : ¬ checkImportance ((normalizedUpdates settings params.updates).importance.getD
                existing.importance) = true := fun h => Bool.noConfusion (hcheck.symm.trans h)
            simp only [amendResult, hupdated, if_neg hfailed] at hupdate
            exact Bool.noConfusion hupdate
          · rw [h.check (hnormal ▸ hnonempty)] at hcheck
            cases hcheck
        | true =>
          have hadmitted : checkImportance ((normalizedUpdates settings params.updates).importance.getD
              existing.importance) = true := hcheck
          rw [if_pos hadmitted] at hupdated
          have hupdate : UpdateResult.isUpdate (amendResult settings draws store params caller) = true := by
            simp only [amendResult, hupdated]
            rfl
          obtain ⟨current, hrows, hevidence, hevents, hamend⟩ :=
            @amend_eq_recordVerification settings draws store caller params existing hfound hupdate
          rw [hupdated] at hrows
          have hrow : (normalizedUpdates settings params.updates).apply settings.digests settings.tools.countTokens
              draws.now existing ∈ current.fragments.rows := by
            rw [hrows, Table.rows_replace hreplace]
            exact List.mem_map.mpr ⟨existing, hexisting, if_pos (primary_mem_entries.mpr hid.symm)⟩
          have hview : amendView (wouldBeFragment settings existing params.updates) = amendView
              ((normalizedUpdates settings params.updates).apply settings.digests settings.tools.countTokens draws.now
                existing) := rfl
          have hfinal := @amended_iff settings draws store existing _ params.updates.assertionStatus caller.keyId
            current hrow rfl hownedBy hevidence hevents
          rw [hamend, hview, hfinal]
          constructor
          · rintro ⟨-, hreward⟩
            exact ⟨howned, hunique, fun _ => hcheck, hreward⟩
          · intro h
            exact ⟨hupdate, h.reward⟩
  · refine iff_of_false (fun h => ?_) fun h => howned h.owned
    have hkey : caller.keyId.isSome ∧ existing.keyId ≠ caller.keyId := Classical.not_imp.mp howned
    have hupdate := h.1
    simp only [amendResult, update, hbyId, if_pos hkey] at hupdate
    exact Bool.noConfusion hupdate

/-- A link request does what its dry run says exactly when no soft-deleted link joins the two rows. -/
theorem tellsTruth_link_iff {params : LinkParams} :
    TellsTruth settings draws store caller (.link params) ↔ Faithful settings draws store caller (.link params) := by
  simp only [TellsTruth, Faithful]
  refine forall₂_congr fun source hsource => forall₂_congr fun target htarget => ?_
  obtain ⟨hsourceRow, hsourceId, -, -⟩ := getById_eq_some hsource
  obtain ⟨htargetRow, htargetId, -, -⟩ := getById_eq_some htarget
  obtain ⟨next, hnext⟩ := createLink_isSome hsourceRow htargetRow hsourceId htargetId
    (params.relationType.getD .related) (params.weight.getD 1)
  have hlinks : (link settings draws store { params with dryRun := false } caller).links = next.links := by
    have hupdate : ∀ updates :
      FragmentUpdates, (update settings.digests settings.tools.countTokens draws.now next params.toId
        updates caller.keyId).1.links = next.links := by
      intro updates
      rcases update_cases settings.tools.countTokens draws.now next params.toId updates caller.keyId with
        hsame | ⟨_, _, _, _, _, _, hupdated⟩
      · rw [hsame]
      · rw [hupdated]
    simp only [link, hsource, htarget, Bool.false_eq_true, if_false, hnext]
    split
    · exact hupdate _
    · rfl
  obtain ⟨l, hl, hfrom, hto, hrelation, hdeleted⟩ := createLink_row hnext
  rw [hlinks]
  constructor
  · rintro ⟨m, hm, hmdeleted, hmfrom, hmto, -⟩ k hk hkfrom hkto
    have hsame : m = l := next.links.eq_of_entry hm hl (List.mem_singleton.mpr rfl)
      (List.mem_singleton.mpr (by rw [hmfrom, hmto, hfrom, hto]))
    have hheld : store.links.holder (params.fromId, params.toId) = some k :=
      (Table.holder_eq_some_iff _).mpr ⟨hk, List.mem_singleton.mpr (by rw [hkfrom, hkto])⟩
    rw [hsame, hdeleted, hheld] at hmdeleted
    exact hmdeleted
  · intro h
    refine ⟨l, hl, ?_, hfrom, hto, hrelation⟩
    rw [hdeleted]
    cases hheld : store.links.holder (params.fromId, params.toId) with
    | none => rfl
    | some held =>
      obtain ⟨hmem, hentry⟩ := (Table.holder_eq_some_iff _).mp hheld
      have hends := List.mem_singleton.mp hentry
      simp only [Prod.mk.injEq] at hends
      exact h held hmem hends.1.symm hends.2.symm

/-- A forget does what its dry run says exactly when the row that it would delete is the caller's. -/
theorem tellsTruth_forget_iff {id : FragmentId} {force : Bool} :
    TellsTruth settings draws store caller (.forget id force) ↔
      Faithful settings draws store caller (.forget id force) := by
  simp only [TellsTruth, Faithful]
  refine forall₂_congr fun f hfound => ?_
  obtain ⟨hf, hid, -, -⟩ := getById_eq_some hfound
  simp only [forgetById, hfound, deleteWith_none]
  by_cases hprotected : f.ttlTier = .permanent ∧ ¬ force
  · have hkept : wouldDelete f force = false := by
      simp only [wouldDelete, hprotected.1, Bool.eq_false_iff.mpr hprotected.2, decide_true, Bool.not_false,
        Bool.and_true,
        Bool.not_true]
    rw [if_pos hprotected, hkept]
    refine iff_of_true rfl fun h => Bool.noConfusion h
  · have hdeleted : wouldDelete f force = true := by
      simp only [wouldDelete, Bool.not_eq_true', Bool.and_eq_false_iff, decide_eq_false_iff_not, Bool.not_eq_false']
      by_contra hnot
      rw [not_or] at hnot
      exact hprotected ⟨not_not.mp hnot.1, hnot.2⟩
    rw [if_neg hprotected, hdeleted]
    have hpresent := (byId_eq_some_iff store.fragments).mpr ⟨hf, rfl⟩
    simp only [if_true, true_implies, delete, deindex_fragments, hpresent, Option.isSome_some]
    by_cases howned : caller.keyId.isSome → f.keyId = caller.keyId
    · have hany : ¬ (caller.keyId.isSome ∧
          ¬ store.fragments.rows.any (fun g => g.id = f.id && g.keyId = caller.keyId)) := by
        rintro ⟨hsome, hnone⟩
        refine hnone (List.any_eq_true.mpr ⟨f, hf, ?_⟩)
        simp only [howned hsome, decide_true, Bool.and_self]
      rw [if_neg hany]
      exact iff_of_true rfl howned
    · have hforeign := Classical.not_imp.mp howned
      have hnone : caller.keyId.isSome ∧
          ¬ store.fragments.rows.any (fun g => g.id = f.id && g.keyId = caller.keyId) := by
        refine ⟨hforeign.1, fun hany => ?_⟩
        obtain ⟨g, hg, hcond⟩ := List.any_eq_true.mp hany
        simp only [Bool.and_eq_true, decide_eq_true_eq] at hcond
        rw [eq_of_id _ hg hf hcond.1] at hcond
        exact hforeign.2 hcond.2
      rw [if_pos hnone]
      exact iff_of_false (fun h => by cases h) howned

/-- The dry runs of `amend`, `link` and `forget` only read. -/
theorem changesNothing_iff (request : DryRequest) :
    ChangesNothing settings draws store caller request ↔ ReadsOnly settings draws store caller request := by
  have hreading : ∀ after : Store, after = store → Untouched store after := by
    rintro after rfl
    exact ⟨rfl, rfl, rfl⟩
  cases request with
  | remember params => exact changesNothing_remember_iff
  | amend params =>
    refine iff_of_true ⟨hreading _ ?_, rfl, rfl⟩ trivial
    simp only [DryRequest.request, requestStep, amend]
    split
    · rfl
    · rfl
  | link params =>
    refine iff_of_true ⟨hreading _ ?_, rfl, rfl⟩ trivial
    simp only [DryRequest.request, requestStep, link]
    split
    · rfl
    · rfl
  | forget id force => exact iff_of_true ⟨hreading _ rfl, rfl, rfl⟩ trivial

theorem tellsTruth_iff (request : DryRequest) :
    TellsTruth settings draws store caller request ↔ Faithful settings draws store caller request := by
  cases request with
  | remember params => exact tellsTruth_remember_iff
  | amend params => exact tellsTruth_amend_iff
  | link params => exact tellsTruth_link_iff
  | forget id force => exact tellsTruth_forget_iff

/-- A dry run changes nothing exactly when it only reads, and says what the request does exactly when what
the simulation leaves out does not matter. -/
theorem dryRun_iff (settings : Settings) (draws : Draws) (store : Store) (caller : Caller) (request : DryRequest) :
    (ChangesNothing settings draws store caller request ↔ ReadsOnly settings draws store caller request) ∧
      (TellsTruth settings draws store caller request ↔ Faithful settings draws store caller request) :=
  ⟨changesNothing_iff request, tellsTruth_iff request⟩

/-- The search of a remember ranks the first of the two rows. -/
def sampleSearch : Draws := { sampleDraws 5 "frag-03" with conflictRanking := ["frag-01"] }

/-- The two rows with a soft-deleted link. -/
def unlinkedPair : Store :=
  { linkedPair with links := linkedPair.links.update (fun _ => true) (fun l => { l with deletedAt := some 4 }) fun _ => rfl }

/-- The dry run of a remember counts an access of the row that its search finds, and shows an importance that
is not the stored one; a member of the group is shown the amendment and the deletion of a row of another key,
of which neither takes place; and a link is announced that stays soft-deleted. -/
theorem dryRun_lies :
    ¬ ChangesNothing sampleSettings sampleSearch linkedPair sampleCaller
        (.remember (sampleParams replacementContent [])) ∧
      ¬ TellsTruth sampleSettings (sampleDraws 5 "frag-03") {} sampleCaller
        (.remember { sampleParams sampleContent [] with importance := some (9 / 10) }) ∧
      ¬ TellsTruth sampleSettings sampleSearch linkedPair (groupCaller peerKey)
        (.amend { id := "frag-01", updates := { topic := some "access" } }) ∧
      ¬ TellsTruth sampleSettings sampleSearch linkedPair (groupCaller peerKey) (.forget "frag-01" false) ∧
      ¬ TellsTruth sampleSettings sampleSearch unlinkedPair (groupCaller sampleKey)
        (.link { fromId := "frag-01", toId := "frag-02" }) := by
  refine ⟨?_, ?_, ?_, ?_, ?_⟩
  · rintro ⟨h, -⟩
    have hrows := h.rows
    revert hrows
    decide +kernel
  · intro h
    have hstored : ∀ g ∈ (remember sampleSettings (sampleDraws 5 "frag-03") {}
        { sampleParams sampleContent [] with importance := some (9 / 10), dryRun := false } sampleCaller).1.fragments.rows,
        g.importance ≠ 9 / 10 := by
      decide +kernel
    obtain ⟨f, hf⟩ : ∃ f, (remember sampleSettings (sampleDraws 5 "frag-03") {}
        { sampleParams sampleContent [] with importance := some (9 / 10), dryRun := true } sampleCaller).2 = .dryRun f ∧
          f.importance = 9 / 10 := ⟨_, rfl, by decide +kernel⟩
    obtain ⟨id, -, g, hg, -, hview⟩ := h f hf.1
    have himportance := congrArg (fun view : String × ℚ × TtlTier => view.2.1) hview
    exact hstored g hg (himportance.trans hf.2)
  · intro h
    have hupdate := (h _ rfl).1
    revert hupdate
    decide
  · intro h
    have hreport := h _ rfl
    revert hreport
    decide
  · intro h
    have hdeleted : ∀ l ∈ (link sampleSettings sampleSearch unlinkedPair
        { fromId := "frag-01", toId := "frag-02", dryRun := false } (groupCaller sampleKey)).links.rows,
        l.deletedAt ≠ none := by
      decide
    obtain ⟨l, hl, hnone, -⟩ := h _ rfl _ rfl
    exact hdeleted l hl hnone

end FragmentMemory.DryRuns
