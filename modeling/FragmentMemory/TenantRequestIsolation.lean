import FragmentMemory.TenantWriteIsolation

/-! # Isolation of a tenant's requests

The six writing requests of a tenant, assembled from the statements they run.  A request is contained
when no id that it hands to an unguarded statement is one of a row outside its tenant's scope.
-/
namespace FragmentMemory.TenantRequestIsolation
open ApiKeyStore FragmentTables FragmentFactory FragmentWriter FragmentReader FragmentIndex LinkStore
  CaseEventStore BatchRememberProcessor MemoryRememberer MemoryRequests RememberLiveness TenantFrame
  TenantWriteIsolation TransitionRuns UniqueIndexTable JsString ContentUniqueness

/-- No row of the key holds the hash. -/
def NoneHolds (store : Store) (keyId : Option KeyId) (hash : String) : Prop :=
  ∀ f ∈ store.fragments.rows, ¬ (f.keyId = keyId ∧ f.contentHash = hash)

/-- No listed id is one of a row outside the scope. -/
def PointsInside (scope : List KeyId) (store : Store) (ids : List FragmentId) : Prop :=
  ∀ id ∈ ids, ¬ OutsideId scope store id

instance (scope : List KeyId) (store : Store) (ids : List FragmentId) : Decidable (PointsInside scope store ids) :=
  inferInstanceAs (Decidable (∀ id ∈ ids, ¬ OutsideId scope store id))

/-- A row of the caller's key in the scope. -/
theorem outside_eq_false_of_owner {scope : List KeyId} {key : KeyId} (hkey : key ∈ scope) {f : Fragment}
    (h : f.keyId = some key) : outside scope f = false :=
  outside_eq_false_iff.mpr ⟨key, h, hkey⟩

theorem key_mem_scope (tenant : Tenant) : tenant.key ∈ tenant.scope := List.mem_cons_self

/-- What an insert under the tenant's key reports is a row inside its scope. -/
theorem upsertRow_inside {scope : List KeyId} {key : KeyId} (hkey : key ∈ scope) {now : Time}
    {store next : Store} {row : Fragment} {id : FragmentId} (hrow : row.keyId = some key)
    (h : upsertRow now store row = some (next, id)) : ¬ OutsideId scope next id := by
  obtain ⟨⟨g, hg, hgid, hgkey⟩, -⟩ := upsertRow_rows h
  have hinside := outside_eq_false_of_owner hkey (hgkey.trans hrow)
  exact not_outsideId_of_id hg hgid hinside

variable {settings : Settings} {draws : Draws}

/-- A remember that searches, inserts and finalizes. -/
theorem isolated_remember (tenant : Tenant) {store : Store} {params : RememberParams}
    (hcontained : ¬ (params.sessionScope ∧ params.session.isSome) →
      checkIdempotency store params (some tenant.key) = none → params.dryRun = false →
      (NoneHolds store (some tenant.key) (computeContentHash settings.digests (requestContent settings params)) →
        PointsInside tenant.scope store params.linkedTo) ∧
      PointsInside tenant.scope store params.supersedes) :
    Isolated tenant.scope store (remember settings draws store params tenant.caller).1 := by
  have hkey := key_mem_scope tenant
  simp only [remember]
  split
  · exact Isolated.refl store
  · split
    · split
      · exact Isolated.refl store
      · exact Isolated.refl store
    · rename_i hsession
      split
      · exact Isolated.refl store
      · rename_i hidempotent
        split
        · split
          · exact Isolated.refl store
          · exact isolated_afterSearch settings draws hkey fun g hg => mem_searchRows hg
        · rename_i hdry
          split
          · exact Isolated.refl store
          · rename_i accepted haccepted
            obtain ⟨hlinked, hsupersedes⟩ := hcontained hsession hidempotent (by simpa using hdry)
            obtain ⟨caseId, hbuild, hinsert⟩ := acceptNew_spec haccepted
            have hf := buildFragment_spec hbuild
            have hrowKey : (prepareInsertRow settings.digests draws.now accepted.fragment).keyId =
                some tenant.key := hf.1
            have hassigned := isolated_autoAssignCaseId draws tenant store params
            have hinserted : Isolated tenant.scope (autoAssignCaseId draws store params tenant.caller).1
                accepted.store := by
              refine isolated_upsertRow (outside_eq_false_of_owner hkey hrowKey) ?_ hinsert
              intro hnone x hx
              refine hassigned.outsideId_iff.not.mpr (hlinked ?_ x (hf.2.2.2.1 ▸ hx))
              intro r hr hmeets
              -- the case assignment leaves key and hash of every row
              have hmap := List.mem_map_of_mem (f := rowView) hr
              rw [← map_autoAssignCaseId store params tenant.caller] at hmap
              obtain ⟨held, hheld, hview⟩ := List.mem_map.mp hmap
              simp only [rowView, Prod.mk.injEq] at hview
              refine hnone held hheld ⟨?_, ?_⟩
              · rw [hview.2.1, hmeets.1, hrowKey]
              · rw [hview.2.2.1, hmeets.2, ← hf.2.2.2.2]
                rfl
            have hboth := hassigned.trans hinserted
            have hid := upsertRow_inside hkey hrowKey hinsert
            exact hboth.trans (isolated_finalizeRemember settings draws tenant (by exact hf.1) hid
              fun x hx => hboth.outsideId_iff.not.mpr (hsupersedes x hx))

/-- The transaction of a batch, by induction on its items: it stays isolated, it keeps what the rows
at its start hold, and the ids it reports are inside. -/
theorem isolated_insertAll {scope : List KeyId} {key : KeyId} (hkey : key ∈ scope) {context : BatchContext}
    {items : List (ℕ × Fragment)} (hkeys : ∀ item ∈ items, item.2.keyId = some key) {start : Store}
    (hlinked : ∀ item ∈ items, NoneHolds start (some key) item.2.contentHash →
      PointsInside scope start item.2.linkedTo)
    {store next : Store} {inserted : List (ℕ × Fragment × FragmentId)} (hstart : Isolated scope start store)
    (hheld : ∀ f ∈ start.fragments.rows, ∃ g ∈ store.fragments.rows,
      g.keyId = f.keyId ∧ g.contentHash = f.contentHash)
    (h : insertAll context store items = some (next, inserted)) :
    Isolated scope start next ∧ ∀ item ∈ inserted, ¬ OutsideId scope start item.2.2 := by
  induction items generalizing store inserted with
  | nil =>
    cases h
    exact ⟨hstart, fun _ hitem => absurd hitem List.not_mem_nil⟩
  | cons item later ih =>
    obtain ⟨position, f⟩ := item
    simp only [insertAll] at h
    split at h
    · cases h
    · rename_i middle id hupsert
      obtain ⟨⟨done, rest⟩, hlater, hresult⟩ := Option.map_eq_some_iff.mp h
      have hdone : done = next := (Prod.mk.inj hresult).1
      subst hdone
      have hrow : (insertRow context f).keyId = some key := hkeys _ List.mem_cons_self
      have hmiddle : Isolated scope start middle := by
        refine hstart.trans (isolated_upsertRow (outside_eq_false_of_owner hkey hrow) ?_ hupsert)
        intro hnone x hx
        refine hstart.outsideId_iff.not.mpr (hlinked _ List.mem_cons_self ?_ x hx)
        intro r hr hmeets
        obtain ⟨g, hg, hgkey, hghash⟩ := hheld r hr
        exact hnone g hg ⟨by rw [hgkey, hmeets.1, hrow], by rw [hghash, hmeets.2]; rfl⟩
      have hheldMiddle : ∀ r ∈ start.fragments.rows, ∃ g ∈ middle.fragments.rows,
          g.keyId = r.keyId ∧ g.contentHash = r.contentHash := by
        intro r hr
        obtain ⟨g, hg, hgkey, hghash⟩ := hheld r hr
        obtain ⟨x, hx, hxkey, hxhash⟩ := (upsertRow_rows hupsert).2 g hg
        exact ⟨x, hx, hxkey.trans hgkey, hxhash.trans hghash⟩
      have hdone := ih (fun x hx => hkeys x (List.mem_cons_of_mem _ hx))
        (fun x hx => hlinked x (List.mem_cons_of_mem _ hx)) hmiddle hheldMiddle hlater
      refine ⟨hdone.1, ?_⟩
      intro x hx
      rw [← (Prod.mk.inj hresult).2] at hx
      rcases List.mem_cons.mp hx with rfl | hrest
      · exact hmiddle.outsideId_iff.not.mp (upsertRow_inside hkey hrow hupsert)
      · exact hdone.2 x hrest

theorem isolated_process {digests : Digests} {tools : TextTools} {scope : List KeyId} {key : KeyId}
    (hkey : key ∈ scope) {context : BatchContext} (hcontext : context.keyId = some key) {store : Store}
    {items : List (Option BatchItem)}
    (hlinked : ∀ item ∈ validFragments digests tools context items,
      NoneHolds store (some key) item.2.contentHash → PointsInside scope store item.2.linkedTo) :
    Isolated scope store (process digests tools context store items).1 := by
  rcases process_cases (by exact store) items with
    hsame | ⟨kept, next, inserted, results, hkept, hinsert, hreported, hprocess⟩
  · rw [hsame]
    exact Isolated.refl store
  · have hkeys : ∀ item ∈ kept, item.2.keyId = some key := fun item hitem =>
      (validFragments_spec (hkept item hitem)).1.trans hcontext
    obtain ⟨hinserted, hids⟩ := isolated_insertAll hkey hkeys
      (fun item hitem => hlinked item (hkept item hitem)) (Isolated.refl store)
      (fun f hf => ⟨f, hf, rfl, rfl⟩) hinsert
    rw [hprocess]
    refine hinserted.trans (Isolated.foldl ?_)
    intro current hcurrent item _
    split
    · rename_i hany
      obtain ⟨r, hr, hsuccess⟩ := List.any_eq_true.mp hany
      simp only [Bool.and_eq_true, decide_eq_true_eq] at hsuccess
      obtain ⟨reported, hmem, hid⟩ := hreported r hr hsuccess.1 _ hsuccess.2
      have hinside := hids reported hmem
      rw [hid] at hinside
      exact isolated_index ((hinserted.trans hcurrent).outsideId_iff.not.mpr hinside)
    · exact Isolated.refl current

/-- The verification event of an amendment. -/
theorem isolated_recordVerification {scope : List KeyId} {key : KeyId} (hkey : key ∈ scope) (store : Store)
    (existing : Fragment) (status : Option AssertionStatus) :
    Isolated scope store (recordVerification settings draws store existing status (some key)) := by
  have hbackprop : ∀ (current : Store) (caseId : String) (eventType : EventType),
      Isolated scope current (backprop settings.caseBackprop current caseId eventType (some key)) := by
    intro current caseId eventType
    simp only [backprop]
    split
    · exact isolated_ownedUpdate hkey (fun _ h => ((Bool.and_eq_true _ _).mp h).2) fun _ => rfl
    · exact Isolated.refl current
  simp only [recordVerification]
  split
  · split
    · exact Isolated.refl store
    · exact ((isolated_eventsOnly (eventsOnly_append store _)).trans (hbackprop _ _ _)).trans
        (isolated_eventsOnly (eventsOnly_addEvidence _ _))
  · exact Isolated.refl store

theorem outside_eq_false_of_getById {tenant : Tenant} {store : Store} {id : FragmentId} {f : Fragment}
    (h : getById store id tenant.caller.agentId tenant.caller.keyId (tenant.caller.groups.getD []) = some f) :
    outside tenant.scope f = false :=
  inside_of_keyScope (key_mem_scope tenant) tenant.groups_mem_scope (getById_eq_some h).2.2.2

/-- The amendment of a row under the tenant's key. -/
theorem isolated_update {scope : List KeyId} {key : KeyId} (hkey : key ∈ scope) {digests : Digests}
    {countTokens : String → ℕ} {now : Time} {store : Store} {id : FragmentId} {updates : FragmentUpdates} :
    Isolated scope store (update digests countTokens now store id updates (some key)).1 := by
  rcases update_cases countTokens now store id updates (some key) with
    hsame | ⟨existing, fragments, hexisting, howner, -, hreplace, hupdate⟩
  · rw [hsame]
    exact Isolated.refl store
  · rw [hupdate]
    have hinside := outside_eq_false_of_owner hkey (howner rfl)
    refine isolated_replace hexisting hinside ?_ ?_ ?_ hreplace
    · rfl
    · rfl
    · rfl

/-- The reindexing that follows an amendment, and its event. -/
theorem isolated_reindex {scope : List KeyId} {key : KeyId} (hkey : key ∈ scope) {store : Store}
    {existing result : Fragment} {status : Option AssertionStatus} (hid : ¬ OutsideId scope store existing.id)
    (hresult : result.id = existing.id) :
    Isolated scope store (recordVerification settings draws
      (index settings.redisReady settings.tools
        (deindex settings.redisReady settings.tools store existing existing.keyId) result none existing.keyId)
      existing status (some key)) := by
  have hremoved : Isolated scope store
      (deindex settings.redisReady settings.tools store existing existing.keyId) := isolated_deindex hid
  have hresultId : ¬ OutsideId scope store result.id := by
    rw [hresult]
    exact hid
  have hindexed : Isolated scope store (index settings.redisReady settings.tools
      (deindex settings.redisReady settings.tools store existing existing.keyId) result none existing.keyId) :=
    hremoved.trans (isolated_index (hremoved.outsideId_iff.not.mpr hresultId))
  exact hindexed.trans (isolated_recordVerification hkey _ _ _)

/-- An amendment writes under the caller's key, whatever group it reads in. -/
theorem isolated_amend (tenant : Tenant) (store : Store) (params : AmendParams) :
    Isolated tenant.scope store (amend settings draws store params tenant.caller) := by
  have hkey := key_mem_scope tenant
  simp only [amend]
  split
  · exact Isolated.refl store
  · rename_i existing hexisting
    split
    · exact Isolated.refl store
    · have hupdated : Isolated tenant.scope store (update settings.digests settings.tools.countTokens draws.now store
          params.id { params.updates with
            keywords := params.updates.keywords.map (normalizeKeywords settings.tools) } tenant.caller.keyId).1 :=
        isolated_update hkey
      have hrow : ∀ {result : Fragment}, (∃ held, store.fragments.byId params.id = some held ∧
          (tenant.caller.keyId.isSome → held.keyId = tenant.caller.keyId) ∧ result.id = held.id) →
          ¬ OutsideId tenant.scope store existing.id ∧ result.id = existing.id := by
        rintro result ⟨held, hheld, howner, hid⟩
        have hread := getById_eq_some hexisting
        have hbyId := (byId_eq_some_iff _).mp hheld
        have hsame : held = existing := eq_of_id _ hbyId.1 hread.1 (hbyId.2.trans hread.2.1.symm)
        rw [hsame] at howner hid
        exact ⟨not_outsideId hread.1 (outside_eq_false_of_owner hkey (howner rfl)), hid⟩
      split
      · rename_i result houtcome
        obtain ⟨hinside, hid⟩ := hrow (update_row (Or.inl houtcome))
        exact hupdated.trans (isolated_reindex hkey (hupdated.outsideId_iff.not.mpr hinside) hid)
      · rename_i result houtcome
        obtain ⟨hinside, hid⟩ := hrow (update_row (Or.inr houtcome))
        exact hupdated.trans (isolated_reindex hkey (hupdated.outsideId_iff.not.mpr hinside) hid)
      · exact hupdated
      · exact hupdated
      · exact hupdated

/-- The rows that a deletion by topic removes are under the caller's key. -/
theorem mem_eligibleRows {store : Store} {topic agentId : String} {keyId : Option KeyId} {force : Bool}
    {f : Fragment} (h : f ∈ eligibleRows store topic agentId keyId force) :
    f ∈ store.fragments.rows ∧ ownedBy keyId f = true := by
  obtain ⟨hrow, hcond⟩ := List.mem_filter.mp (List.mem_filter.mp h).1
  simp only [Bool.and_eq_true] at hcond
  exact ⟨hrow, hcond.2⟩

/-- A deletion by id, of a detached row of the caller's key or of none. -/
theorem isolated_delete {scope : List KeyId} {key : KeyId} (hkey : key ∈ scope) {store : Store}
    {id : FragmentId} (hdetached : ∀ f ∈ store.fragments.rows, f.id = id → f.keyId = some key →
      Detached scope store [id]) : Isolated scope store (delete store id (some key)).1 := by
  simp only [delete]
  split
  · exact Isolated.refl store
  · rename_i howned
    simp only [Option.isSome_some, true_and, not_not, List.any_eq_true, Bool.and_eq_true,
      decide_eq_true_eq] at howned
    obtain ⟨f, hf, hid, howner⟩ := howned
    refine isolated_removeRows ?_ (hdetached f hf hid howner)
    intro g hg hgid
    have hsame : g = f := eq_of_id _ hg hf (by rw [List.mem_singleton.mp hgid, hid])
    rw [hsame]
    exact outside_eq_false_of_owner hkey howner

theorem isolated_forget (tenant : Tenant) {store : Store} {params : ForgetParams}
    (hdetached : params.dryRun = false → match params.target with
      | .id id => ∀ f, getById store id tenant.agentId (some tenant.key) (tenant.caller.groups.getD []) = some f →
          f.keyId = some tenant.key → (f.ttlTier = .permanent → params.force = true) →
          Detached tenant.scope store [f.id]
      | .topic topic => Detached tenant.scope store
          ((eligibleRows store topic tenant.agentId (some tenant.key) params.force).map Fragment.id)) :
    Isolated tenant.scope store (forget settings store params tenant.caller) := by
  have hkey := key_mem_scope tenant
  simp only [forget]
  split
  · exact Isolated.refl store
  · rename_i hdry
    have hcond := hdetached (by simpa using hdry)
    rcases htarget : params.target with id | topic
    · simp only [htarget] at hcond ⊢
      split
      · exact Isolated.refl store
      · rename_i f hf
        split
        · exact Isolated.refl store
        · rename_i hprotected
          have hread := getById_eq_some hf
          have hid := not_outsideId hread.1 (outside_eq_false_of_getById hf)
          have hremoved : Isolated tenant.scope store
              (deindex settings.redisReady settings.tools store f f.keyId) := isolated_deindex hid
          refine hremoved.trans (isolated_delete hkey ?_)
          intro g hg hgid hgkey
          rw [deindex_fragments] at hg
          have hsame : g = f := eq_of_id _ hg hread.1 hgid
          have hforce : f.ttlTier = .permanent → params.force = true := fun htier =>
            by_contra fun hne => hprotected ⟨htier, hne⟩
          have hstore := hcond f hf (hsame ▸ hgkey) hforce
          exact (detached_congr deindex_fragments deindex_links).mpr hstore
    · simp only [htarget] at hcond ⊢
      have hrows : ∀ f ∈ store.fragments.rows,
          f.id ∈ (eligibleRows store topic tenant.agentId (some tenant.key) params.force).map Fragment.id →
          outside tenant.scope f = false := by
        intro f hf hid
        obtain ⟨g, hg, hgid⟩ := List.mem_map.mp hid
        have heligible := mem_eligibleRows hg
        rw [← eq_of_id _ heligible.1 hf hgid]
        exact inside_of_ownedBy hkey heligible.2
      have hdeleted : Isolated tenant.scope store (removeRows store
          ((eligibleRows store topic tenant.agentId (some tenant.key) params.force).map Fragment.id)) :=
        isolated_removeRows hrows hcond
      refine hdeleted.trans (Isolated.foldl ?_)
      intro current hcurrent f hf
      have heligible := mem_eligibleRows hf
      have hid := not_outsideId heligible.1 (inside_of_ownedBy hkey heligible.2)
      exact isolated_deindex ((hdeleted.trans hcurrent).outsideId_iff.not.mpr hid)

/-- A link joins two rows that the caller reads. -/
theorem isolated_link (tenant : Tenant) (store : Store) (params : LinkParams) :
    Isolated tenant.scope store (link settings draws store params tenant.caller) := by
  have hkey := key_mem_scope tenant
  simp only [link]
  split
  · rename_i source target hsource htarget
    split
    · exact Isolated.refl store
    · have hfrom : ¬ OutsideId tenant.scope store params.fromId := by
        have hread := getById_eq_some hsource
        exact not_outsideId_of_id hread.1 hread.2.1 (outside_eq_false_of_getById hsource)
      have hto : ¬ OutsideId tenant.scope store params.toId := by
        have hread := getById_eq_some htarget
        exact not_outsideId_of_id hread.1 hread.2.1 (outside_eq_false_of_getById htarget)
      have htried : Isolated tenant.scope store (tryLink store params.fromId params.toId
          (params.relationType.getD .related) (params.weight.getD 1)) := isolated_tryLink hfrom hto
      split
      · exact Isolated.refl store
      · rename_i linked hcreate
        simp only [tryLink, hcreate, Option.getD_some] at htried
        split
        · exact htried.trans (isolated_update hkey)
        · exact htried
  · exact Isolated.refl store

/-- The links that the reconsolidation of a feedback changes. -/
def feedbackLinks (draws : Draws) (store : Store) (params : FeedbackParams) : List Link :=
  store.links.rows.filter fun l => params.fragmentIds.any l.touches && l.deletedAt.isNone &&
    (params.relevant || !draws.recentlyDecayed (l.fromId, l.toId))

theorem isolated_toolFeedback (tenant : Tenant) {store : Store} {params : FeedbackParams}
    (hlinks : settings.reconsolidation = true →
      ∀ l ∈ feedbackLinks draws store params, ¬ TouchesOutside tenant.scope store l) :
    Isolated tenant.scope store (toolFeedback settings draws store params tenant.caller) := by
  have hadjusted : ∀ delta : ℚ, Isolated tenant.scope store (store.updateFragments
      (fun f => params.fragmentIds.contains f.id && ownedBy (some tenant.key) f) (adjustActivation delta)) :=
    fun delta => isolated_ownedUpdate (key_mem_scope tenant) (fun _ h => ((Bool.and_eq_true _ _).mp h).2)
      fun _ => rfl
  simp only [toolFeedback]
  split
  · rename_i hon
    refine (hadjusted _).trans (isolated_updateLinks _ ?_)
    intro l hl hcond
    refine (hadjusted _).touchesOutside_iff.not.mpr (hlinks hon l (List.mem_filter.mpr ⟨hl, ?_⟩))
    rcases hrelevant : params.relevant with _ | _
    · simpa [hrelevant, ReconsolidateAction.limited] using hcond
    · simpa [hrelevant, ReconsolidateAction.limited] using hcond
  · exact hadjusted _

/-- No id that the request hands to an unguarded statement is one of a row outside: the pointers and
supersessions of a new remember, the pointers of the batch items that become rows, what points to the
rows that a forget removes, and the links that a feedback reconsolidates. -/
def Contained (settings : Settings) (draws : Draws) (store : Store) (tenant : Tenant) : Request → Prop
  | .remember params =>
    ¬ (params.sessionScope ∧ params.session.isSome) → checkIdempotency store params (some tenant.key) = none →
      params.dryRun = false →
      (NoneHolds store (some tenant.key) (computeContentHash settings.digests (requestContent settings params)) →
        PointsInside tenant.scope store params.linkedTo) ∧
      PointsInside tenant.scope store params.supersedes
  | .batchRemember context items =>
    ∀ item ∈ validFragments settings.digests settings.tools { context with
        keyId := some tenant.key
        agentId := tenant.agentId
        redisReady := settings.redisReady } items,
      NoneHolds store (some tenant.key) item.2.contentHash → PointsInside tenant.scope store item.2.linkedTo
  | .amend _ => True
  | .link _ => True
  | .forget params =>
    params.dryRun = false → match params.target with
      | .id id => ∀ f, getById store id tenant.agentId (some tenant.key) (tenant.caller.groups.getD []) = some f →
          f.keyId = some tenant.key → (f.ttlTier = .permanent → params.force = true) →
          Detached tenant.scope store [f.id]
      | .topic topic => Detached tenant.scope store
          ((eligibleRows store topic tenant.agentId (some tenant.key) params.force).map Fragment.id)
  | .toolFeedback params =>
    settings.reconsolidation = true →
      ∀ l ∈ feedbackLinks draws store params, ¬ TouchesOutside tenant.scope store l

/-- A contained request changes nothing outside its tenant's scope. -/
theorem isolated_requestStep (tenant : Tenant) {store : Store} {request : Request}
    (hcontained : Contained settings draws store tenant request) :
    Isolated tenant.scope store (requestStep settings draws store tenant.caller request) := by
  cases request with
  | remember params => exact isolated_remember tenant hcontained
  | batchRemember context items => exact isolated_process (key_mem_scope tenant) rfl hcontained
  | amend params => exact isolated_amend tenant store params
  | link params => exact isolated_link tenant store params
  | forget params => exact isolated_forget tenant hcontained
  | toolFeedback params => exact isolated_toolFeedback tenant hcontained

/-- A request of a tenant with what it draws. -/
structure Event where
  draws : Draws
  tenant : Tenant
  request : Request

def step (settings : Settings) (store : Store) (event : Event) : Store :=
  requestStep settings event.draws store event.tenant.caller event.request

/-- In a run of contained requests no request touches what lies outside the scope of its tenant. -/
theorem requests_isolated {start : Store} {events : List Event}
    (hcontained : StepsMeet (step settings)
      (fun store event => Contained settings event.draws store event.tenant event.request) start events) :
    StepsMeet (step settings)
      (fun store event => Isolated event.tenant.scope store (step settings store event)) start events := by
  have hstep : ∀ (store : Store) (event : Event), True →
      Contained settings event.draws store event.tenant event.request →
      True ∧ Isolated event.tenant.scope store (step settings store event) := by
    intro store event _ h
    exact ⟨trivial, isolated_requestStep event.tenant h⟩
  exact stepsMeet_of_invariant hstep trivial hcontained

/-- The key of another tenant. -/
def otherKey : KeyId := ⟨"7e3ad9f0-42c8-4b16-9d57-0c8fb1e6a254", by decide⟩

def sampleRemember (now : Time) (newId : FragmentId) (key : KeyId) (supersedes : List FragmentId) : Event where
  draws := sampleDraws now newId
  tenant := { key := key }
  request := .remember (sampleParams sampleContent supersedes)

/-- Two tenants remember one content each. -/
theorem requests_isolated_remember :
    StepsMeet (step sampleSettings)
      (fun store event => Isolated event.tenant.scope store (step sampleSettings store event)) {}
      [sampleRemember 1 "frag-01" sampleKey [], sampleRemember 2 "frag-02" otherKey []] :=
  requests_isolated
    ⟨fun _ _ _ => ⟨fun _ => by decide, by decide⟩, fun _ _ _ => ⟨fun _ => by decide, by decide⟩, trivial⟩

/-- A tenant that names another's row in its supersessions changes that row. -/
theorem requests_not_isolated :
    ¬ StepsMeet (step sampleSettings)
      (fun store event => Isolated event.tenant.scope store (step sampleSettings store event)) {}
      [sampleRemember 1 "frag-01" sampleKey [], sampleRemember 2 "frag-02" otherKey ["frag-01"]] := by
  intro h
  exact absurd h.2.1.rows (by decide +kernel)

end FragmentMemory.TenantRequestIsolation
