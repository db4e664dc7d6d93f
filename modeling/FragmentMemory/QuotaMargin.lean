import FragmentMemory.LiveCounts
import FragmentMemory.QuotaChecker
import FragmentMemory.RememberPaths

/-! # The quota of sequential calls

Remembers and batches of one key, one after the other, with the usage cache between them.  A remember
that the cached usage lets through is not counted, and its insert does not reach the cache.
-/
namespace FragmentMemory.QuotaMargin
open ApiKeyStore FragmentTables FragmentFactory FragmentWriter BatchRememberProcessor MemoryRememberer QuotaChecker
  LiveCounts RememberLiveness RememberPaths RowPersistence TransitionRuns
open ContentUniqueness (sampleKey sampleTools)

structure State where
  store : Store
  usageCache : UsageCache := []

structure RememberCall where
  draws : Draws
  params : RememberParams
  agentId : String := "default"
  groupKeyIds : Option (List KeyId) := none

inductive Call
  | remember (call : RememberCall)
  | batchRemember (context : BatchContext) (items : List (Option BatchItem))

variable (settings : Settings) (margin limit : ℕ) (keyId : KeyId)

def RememberCall.caller (call : RememberCall) : Caller :=
  { agentId := call.agentId, keyId := some keyId, groupKeyIds := call.groupKeyIds }

/-- The quota step of a remember: the cache after it, and whether the call is refused.  A dry run reads
the usage only. -/
def quotaStep (state : State) (call : RememberCall) : UsageCache × Bool :=
  let caller := call.caller keyId
  if (call.params.content.bind contentInputError).isSome then (state.usageCache, false)
  else if call.params.sessionScope ∧ call.params.session.isSome then (state.usageCache, false)
  else if (checkIdempotency state.store call.params caller.keyId).isSome then (state.usageCache, false)
  else if call.params.dryRun then
    match buildFragment settings call.draws call.params call.params.caseId caller with
    | .error _ => (state.usageCache, false)
    | .ok f => ((getUsage (some limit) call.draws.now (detectConflicts settings call.draws state.store f.agentId
        caller.keyId) state.usageCache caller.keyId).1, false)
  else check margin (some limit) call.draws.now state.store state.usageCache caller.keyId

/-- The state after a call of the default path. -/
def step (state : State) : Call → State
  | .remember call =>
    let quota := quotaStep settings margin limit keyId state call
    { store := (remember (withAtomic settings false) { call.draws with quotaRefuses := quota.2 } state.store
        call.params (call.caller keyId)).1
      usageCache := quota.1 }
  | .batchRemember context items =>
    { state with store := (process settings.digests settings.tools
        { context with keyId := some keyId, fragmentLimit := some limit } state.store items).1 }

/-- The key has no more live rows than its limit. -/
def WithinLimit (state : State) : Prop := liveCount state.store keyId ≤ limit

instance (state : State) : Decidable (WithinLimit limit keyId state) :=
  inferInstanceAs (Decidable (liveCount state.store keyId ≤ limit))

/-- No row of the key, live or not, holds the content of the call. -/
def Unmet (store : Store) (call : RememberCall) : Prop :=
  ∀ f ∈ store.fragments.rows, f.keyId = some keyId →
    f.contentHash ≠ computeContentHash settings.digests (requestContent settings call.params)

/-- The call is one that adds a row, if the quota lets it: it reaches its insert, and the insert succeeds
and meets no row. -/
structure Adds (store : Store) (call : RememberCall) : Prop where
  stores : Stores settings { call.draws with quotaRefuses := false } store call.params (call.caller keyId)
  unmet : Unmet settings keyId store call

/-- The live rows of the key that the call does not supersede fill the limit. -/
def NoSlot (store : Store) (call : RememberCall) : Prop :=
  limit ≤ ((liveIds store keyId).filter fun id => !call.params.supersedes.contains id).length

/-- The call adds a row to a full key, and the usage that was cached for the key lets it through. -/
def Outruns (state : State) : Call → Prop
  | .remember call => passesOnCache margin call.draws.now state.usageCache keyId = true ∧
      Adds settings keyId state.store call ∧ NoSlot limit keyId state.store call
  | .batchRemember _ _ => False

variable {settings margin limit keyId}

/-- A batch takes the free slots and no more. -/
theorem liveCount_process {context : BatchContext} {store : Store} {items : List (Option BatchItem)}
    (hkey : context.keyId = some keyId) (hlimit : context.fragmentLimit = some limit)
    (h : liveCount store keyId ≤ limit) :
    liveCount (process settings.digests settings.tools context store items).1 keyId ≤ limit := by
  have hslots : remainingSlots context store = some (limit - liveCount store keyId) := by
    simp only [remainingSlots, hkey, hlimit]
  simp only [process]
  split
  · exact h
  · split
    · exact h
    · split
      · exact h
      · split
        · exact h
        · rename_i next inserted hinsert
          rw [hslots, Option.getD_some] at hinsert
          have hgrown := @liveCount_insertAll_le keyId _ _ _ _ _ hinsert
          have htaken := List.length_take_le (limit - liveCount store keyId)
            (validFragments settings.digests settings.tools context items)
          simp only [liveCount, indexInserted_fragments] at hgrown ⊢
          simp only [liveCount] at h htaken
          omega

/-- What follows the insert of a remember ends the live rows that it supersedes. -/
theorem liveIds_finalizeRemember {store : Store} {draws : Draws} {f : Fragment} {indexSession : Option String}
    {call : RememberCall} (hrow : ∃ g ∈ store.fragments.rows, g.id = f.id) :
    liveIds (finalizeRemember settings draws store f indexSession (call.caller keyId) call.params) keyId =
      (liveIds store keyId).filter fun id => id = f.id || !call.params.supersedes.contains id := by
  have hlinked :=
    @rewrites_linkedStore _ settings draws admits_sameView store f indexSession (call.caller keyId) call.params
  have hsame := @liveIds_of_rewrites keyId _ _ hlinked
  have hkept : ∃ g ∈ (linkedStore settings draws store f indexSession (call.caller keyId) call.params).fragments.rows,
      g.id = f.id := by
    obtain ⟨g, hg, hid⟩ := hrow
    obtain ⟨k, hk, hview⟩ := hlinked.persists g hg
    simp only [SameView, rowView, Prod.mk.injEq] at hview
    exact ⟨k, hk, hview.1.trans hid⟩
  have hsuperseded := @liveIds_supersedeAll keyId draws f.id call.params.supersedes _ hkept
  have hlowered : ∀ current : Store, liveIds (lowerTier current f call.params (some keyId)) keyId =
      liveIds current keyId := by
    intro current
    simp only [lowerTier]
    split
    · exact liveIds_of_views (map_updateFragments current rowView fun _ => rfl)
    · rfl
  have hfragments := @fragments_finalizeRemember settings draws store f indexSession (call.caller keyId) call.params
  calc liveIds (finalizeRemember settings draws store f indexSession (call.caller keyId) call.params) keyId
      = liveIds (lowerTier (supersedeAll draws (linkedStore settings draws store f indexSession (call.caller keyId)
          call.params) f.id call.params.supersedes (some keyId)) f call.params (some keyId)) keyId := by
        rw [liveIds, hfragments]
        rfl
    _ = _ := by rw [hlowered, hsuperseded, hsame]

theorem liveIds_detectConflicts {draws : Draws} {store : Store} {agentId : String} {key : Option KeyId} :
    liveIds (detectConflicts settings draws store agentId key) keyId = liveIds store keyId :=
  liveIds_of_rewrites (rewrites_afterSearch admits_sameView store _ key)

/-- The rows of a store after the case assignment, as far as an upsert and the count look at them. -/
theorem unmet_autoAssignCaseId {draws : Draws} {store : Store} {params : RememberParams} {caller : Caller}
    {hash : String} :
    (∀ f ∈ (autoAssignCaseId draws store params caller).1.fragments.rows, ¬ (f.keyId = some keyId ∧
      f.contentHash = hash)) ↔
      ∀ f ∈ store.fragments.rows, f.keyId = some keyId → f.contentHash ≠ hash := by
  have hviews := @map_autoAssignCaseId draws store params caller
  constructor
  · intro hfree f hf hkey hhash
    have hmem := List.mem_map_of_mem (f := rowView) hf
    rw [← hviews] at hmem
    obtain ⟨g, hg, hview⟩ := List.mem_map.mp hmem
    simp only [rowView, Prod.mk.injEq] at hview
    exact hfree g hg ⟨hview.2.1.trans hkey, hview.2.2.1.trans hhash⟩
  · rintro hunmet g hg ⟨hkey, hhash⟩
    have hmem := List.mem_map_of_mem (f := rowView) hg
    rw [hviews] at hmem
    obtain ⟨f, hf, hview⟩ := List.mem_map.mp hmem
    simp only [rowView, Prod.mk.injEq] at hview
    exact hunmet f hf (hview.2.1.trans hkey) (hview.2.2.1.trans hhash)

/-- An accepted call adds its row and ends what it supersedes, or meets a row of its content. -/
theorem liveCount_accepted {store : Store} {draws : Draws} {call : RememberCall} {indexSession : Option String}
    {accepted : Accepted}
    (h : acceptNew (withAtomic settings false) draws store call.params (call.caller keyId) = .ok accepted) :
    (¬ Unmet settings keyId store call ∧
        liveCount (finalizeRemember (withAtomic settings false) draws accepted.store
          { accepted.fragment with id := accepted.id } indexSession (call.caller keyId) call.params) keyId ≤
            liveCount store keyId) ∨
      (Unmet settings keyId store call ∧
        liveCount (finalizeRemember (withAtomic settings false) draws accepted.store
          { accepted.fragment with id := accepted.id } indexSession (call.caller keyId) call.params) keyId =
            ((liveIds store keyId).filter fun id => !call.params.supersedes.contains id).length + 1) := by
  obtain ⟨caseId, hbuild, hinsert⟩ := acceptNew_spec h
  obtain ⟨hkey, -, -, -, hcontent⟩ := buildFragment_spec hbuild
  have hassigned :
    liveIds (autoAssignCaseId draws store call.params (call.caller keyId)).1 keyId = liveIds store keyId :=
    liveIds_of_views (map_autoAssignCaseId store call.params (call.caller keyId))
  have hrow : ∃ g ∈ accepted.store.fragments.rows, g.id = accepted.id := by
    rcases insert_row hinsert with ⟨held, -, -, -, g, hg, hid, -⟩ | ⟨-, g, hg, hid, -⟩
    · exact ⟨g, hg, hid⟩
    · exact ⟨g, hg, hid⟩
  have hfinal : liveIds (finalizeRemember (withAtomic settings false) draws accepted.store
      { accepted.fragment with id := accepted.id } indexSession (call.caller keyId) call.params) keyId =
        (liveIds accepted.store keyId).filter fun id => id = accepted.id || !call.params.supersedes.contains id :=
    @liveIds_finalizeRemember (withAtomic settings false) keyId accepted.store draws _ indexSession call hrow
  rw [← length_liveIds, hfinal]
  rcases upsertRow_cases hinsert with ⟨held, hheld, hheldKey, hheldHash, -, hnext⟩ | ⟨hfree, hid, fragments, hadded, hnext⟩
  · left
    refine ⟨fun hunmet => ?_, ?_⟩
    · have hfree := unmet_autoAssignCaseId.mpr hunmet held hheld
      refine hfree ⟨hheldKey.trans hkey, hheldHash.trans ?_⟩
      exact congrArg (computeContentHash settings.digests) hcontent
    · have hpromoted : liveIds accepted.store keyId = liveIds store keyId := by
        rw [← hassigned, hnext]
        exact liveIds_of_views (map_updateFragments _ rowView fun _ => rfl)
      rw [hpromoted, ← length_liveIds]
      exact List.length_filter_le _ _
  · have hunmet : Unmet settings keyId store call := by
      refine unmet_autoAssignCaseId.mp fun f hf hsame => hfree f hf ⟨hsame.1.trans hkey.symm, hsame.2.trans ?_⟩
      exact congrArg (computeContentHash settings.digests) hcontent.symm
    refine Or.inr ⟨hunmet, ?_⟩
    have hnew : liveIds accepted.store keyId = liveIds store keyId ++ [accepted.id] := by
      have hrows := UniqueIndexTable.Table.rows_insert hadded
      have hfragments : accepted.store.fragments = fragments := congrArg Store.fragments hnext
      rw [← hfragments] at hrows
      rw [← hassigned, hid]
      exact liveIds_added hrows hkey rfl
    have hfresh : accepted.id ∉ liveIds store keyId := by
      intro hmem
      have hnodup := @nodup_liveIds keyId accepted.store
      rw [hnew] at hnodup
      exact (List.nodup_append.mp hnodup).2.2 _ hmem _ (List.mem_singleton.mpr rfl) rfl
    rw [hnew, List.filter_append, List.length_append]
    have hself :
      ([accepted.id].filter fun id => decide (id = accepted.id) || !call.params.supersedes.contains id).length = 1 := by
      simp only [List.filter_singleton, decide_true, Bool.true_or, cond_true, List.length_singleton]
    have hothers : ((liveIds store keyId).filter fun id => decide (id = accepted.id) || !call.params.supersedes.contains id) =
        (liveIds store keyId).filter fun id => !call.params.supersedes.contains id := by
      refine List.filter_congr fun id hlive => ?_
      have hne : ¬ id = accepted.id := fun h => hfresh (h ▸ hlive)
      rw [decide_eq_false hne, Bool.false_or]
    rw [hself, hothers]

/-- A remember adds no live row, or it is one that adds its row and ends what it supersedes. -/
theorem liveCount_remember (store : Store) (call : RememberCall) (refuses : Bool) :
    (liveCount (remember (withAtomic settings false) { call.draws with quotaRefuses := refuses } store call.params
          (call.caller keyId)).1 keyId ≤ liveCount store keyId ∧ (refuses = false → ¬ Adds settings keyId store call)) ∨
      (refuses = false ∧ Adds settings keyId store call ∧
        liveCount (remember (withAtomic settings false) { call.draws with quotaRefuses := refuses } store call.params
            (call.caller keyId)).1 keyId =
          ((liveIds store keyId).filter fun id => !call.params.supersedes.contains id).length + 1) := by
  simp only [remember]
  cases hcontent : call.params.content.bind contentInputError with
  | some reason => exact Or.inl ⟨Nat.le_refl _, fun _ h => by cases hcontent.symm.trans h.stores.content⟩
  | none =>
    by_cases hsession : call.params.sessionScope ∧ call.params.session.isSome
    · rw [if_pos hsession]
      refine Or.inl ⟨?_, fun _ h => h.stores.permanent hsession⟩
      cases create (withAtomic settings false).digests (withAtomic settings false).tools call.draws.newId call.draws.now
          { call.params.toFragmentParams with sessionId := call.params.session } with
      | error reason => simp only [Nat.le_refl]
      | ok f => simp only [Nat.le_refl]
    · rw [if_neg hsession]
      cases hidempotent : checkIdempotency store call.params (call.caller keyId).keyId with
      | some existing => exact Or.inl ⟨Nat.le_refl _, fun _ h => by cases hidempotent.symm.trans h.stores.fresh⟩
      | none =>
        cases hdry : call.params.dryRun with
        | true =>
          refine Or.inl ⟨?_, fun _ h => by cases hdry.symm.trans h.stores.effective⟩
          simp only [if_true]
          split
          · exact Nat.le_refl _
          · rw [← length_liveIds, ← length_liveIds, liveIds_detectConflicts]
        | false =>
          simp only [Bool.false_eq_true, if_false]
          cases haccept : acceptNew (withAtomic settings false) { call.draws with quotaRefuses := refuses } store
              call.params (call.caller keyId) with
          | error reason =>
            refine Or.inl ⟨Nat.le_refl _, fun hpassed h => ?_⟩
            obtain ⟨accepted, haccepted⟩ := h.stores.accepted
            rw [hpassed] at haccept
            cases haccept.symm.trans haccepted
          | ok accepted =>
            have hpassed : refuses = false := by
              by_contra hrefused
              simp only [acceptNew, withAtomic, Bool.of_not_eq_false hrefused, Bool.false_and, Bool.not_false,
                Bool.and_self, if_true] at haccept
              cases haccept
            subst hpassed
            simp only
            rcases @liveCount_accepted settings keyId store { call.draws with quotaRefuses := false } call
                (if ((withAtomic settings false).rememberAtomic && (call.caller keyId).keyId.isSome) = true then
                  accepted.fragment.sessionId else call.params.sessionId) accepted haccept with ⟨hmet, hle⟩ | ⟨hunmet, heq⟩
            · exact Or.inl ⟨hle, fun _ h => hmet h.unmet⟩
            · refine Or.inr ⟨trivial, ⟨⟨hcontent, hsession, hidempotent, hdry, accepted, haccept⟩, hunmet⟩, heq⟩

/-- A call that adds a row has gone through the check. -/
theorem quotaStep_of_adds {state : State} {call : RememberCall} (h : Adds settings keyId state.store call) :
    (quotaStep settings margin limit keyId state call).2 =
      (check margin (some limit) call.draws.now state.store state.usageCache (some keyId)).2 := by
  have hidempotent : checkIdempotency state.store call.params (call.caller keyId).keyId = none := h.stores.fresh
  simp only [quotaStep, h.stores.content, h.stores.effective, hidempotent, Option.isSome_none, Bool.false_eq_true,
    if_false, if_neg h.stores.permanent]
  rfl

/-- A call within the limit ends within it exactly when it does not outrun the cached usage. -/
theorem withinLimit_step_iff (state : State) (call : Call) (h : WithinLimit limit keyId state) :
    WithinLimit limit keyId (step settings margin limit keyId state call) ↔
      ¬ Outruns settings margin limit keyId state call := by
  cases call with
  | batchRemember context items =>
    refine iff_of_true ?_ id
    exact liveCount_process rfl rfl h
  | remember call =>
    have hstep : WithinLimit limit keyId (step settings margin limit keyId state (.remember call)) ↔
        liveCount (remember (withAtomic settings false) { call.draws with
          quotaRefuses := (quotaStep settings margin limit keyId state call).2 } state.store call.params
            (call.caller keyId)).1 keyId ≤ limit := Iff.rfl
    rw [hstep]
    have hwithin : liveCount state.store keyId ≤ limit := h
    rcases @liveCount_remember settings keyId state.store call (quotaStep settings margin limit keyId state call).2 with
      ⟨hle, hnot⟩ | ⟨hpassed, hadds, heq⟩
    · refine iff_of_true (hle.trans hwithin) ?_
      rintro ⟨hcached, hadds, -⟩
      refine hnot ?_ hadds
      rw [quotaStep_of_adds hadds, check_passes hcached]
    · rw [heq]
      cases hcached : passesOnCache margin call.draws.now state.usageCache keyId with
      | true =>
        simp only [Outruns, hcached, hadds, NoSlot, true_and]
        omega
      | false =>
        have hcounted := @check_refuses margin limit _ state.store _ _ hcached
        rw [← quotaStep_of_adds hadds, hpassed] at hcounted
        have hslot : ¬ limit ≤ liveCount state.store keyId := of_decide_eq_false hcounted.symm
        have hfewer := List.length_filter_le (fun id => !call.params.supersedes.contains id) (liveIds state.store keyId)
        rw [length_liveIds] at hfewer
        refine iff_of_true (by omega) ?_
        rintro ⟨hcached', -⟩
        rw [hcached] at hcached'
        cases hcached'

/-- After every call of a sequence the key is within its limit exactly when no call of it outruns the
cached usage. -/
theorem withinLimit_iff {state : State} (hstart : WithinLimit limit keyId state) (calls : List Call) :
    (∀ earlier, earlier <+: calls →
        WithinLimit limit keyId (run (step settings margin limit keyId) state earlier)) ↔
      StepsMeet (step settings margin limit keyId) (fun current call => ¬ Outruns settings margin limit keyId current call)
        state calls :=
  @throughout_iff_stepsMeet _ _ (step settings margin limit keyId) (WithinLimit limit keyId) (fun _ => True) _
    (fun _ _ _ => trivial) (fun current call _ h => withinLimit_step_iff current call h) state trivial hstart calls

/-- Twelve contents with their SHA-256. -/
def sampleNotes : List (String × String) := [
  ("1 jobs ran", "c25a2bbb730b46a115ba93ab93cf4b679855d8e84455a4116b3cd29c0f8e3461"),
  ("2 jobs ran", "edf39c499bce1dc6ce24011d54fc201e2d054b8d9b0b67064594c0130cb1e129"),
  ("3 jobs ran", "98d4d70703691b26433002f20066ef8ccb4f9a10dea039c63f791d5e7c03b55a"),
  ("4 jobs ran", "9e20d834d91d7d9c12c687480384b10f272c72afcbd8d56e3cd847f24bef9f8d"),
  ("5 jobs ran", "9e29f54a8c441c771db5edeb6db6b77893e9d7c7b622e89b4a9f079f8888af9e"),
  ("6 jobs ran", "a9dc644870398951837c35bc6ec4ff6a730eb1c0b7ff99a591d9a322eceb17b4"),
  ("7 jobs ran", "a64493850022d08c63c378df47cfa3d3552428b005ce0dc74270ecad6fd237d4"),
  ("8 jobs ran", "c2f435c253142930196ec6ae1b126f902816c037e4a6ec725fa36215623f72a8"),
  ("9 jobs ran", "d7ba17e704b79edf3fb954f886d84f02a5c3cea19fd9585c9b984fd6171556ab"),
  ("10 jobs ran", "19e83b093c64f95289ad7dfc000958f00a1db4e82e0cbc400357c86ba3685ac8"),
  ("11 jobs ran", "706a09b0a0ecc69409aff93e7fa4caba26b44eebb4d6d56b9caa675482e70040"),
  ("12 jobs ran", "fb5707e1663c42508f0a4b7a3bdba617fddfae9105429d2cdc6d5dacb33a3717")]

def noteSettings : Settings where
  digests := {
    hex := fun text => (sampleNotes.lookup text).getD ""
    base64Url := fun _ => "" }
  tools := sampleTools
  redisReady := false

def noteContent (position : ℕ) : String := ((sampleNotes[position]?).map Prod.fst).getD ""

def rememberNote (position : ℕ) (now : Time) (newId : FragmentId) : Call :=
  .remember {
    draws := sampleDraws now newId
    params := { sampleParams (noteContent position) [] with skipConflictDetection := true } }

def noteIds : List FragmentId :=
  ["frag-02", "frag-03", "frag-04", "frag-05", "frag-06", "frag-07", "frag-08", "frag-09", "frag-10", "frag-11"]

/-- The ten notes in the middle. -/
def rememberNotes (now : Time) : Call :=
  .batchRemember { keyId := some sampleKey, newId := fun position => noteIds.getD position "", now := now, redisReady := false }
    ((List.range noteIds.length).map fun position =>
      some { content := some (noteContent (position + 1)), type := some .fact, topic := some "jobs" })

/-- A count that finds the key empty stays in the cache for ten seconds: after a batch that fills the key
one more remember passes. -/
theorem limit_outrun :
    ¬ ∀ earlier, earlier <+: [rememberNote 0 0 "frag-01", rememberNotes 1000, rememberNote 11 2000 "frag-12"] →
        WithinLimit 11 sampleKey (run (step noteSettings quotaNearLimitMargin 11 sampleKey) { store := {} } earlier) :=
  fun h => absurd (h _ (List.prefix_refl _)) (by decide +kernel)

/-- The first remember counts the key itself. -/
theorem withinLimit_counted : WithinLimit 11 sampleKey
    (run (step noteSettings quotaNearLimitMargin 11 sampleKey) { store := {} } [rememberNote 0 0 "frag-01"]) :=
  (@withinLimit_iff noteSettings quotaNearLimitMargin 11 sampleKey { store := {} } (Nat.zero_le 11)
    [rememberNote 0 0 "frag-01"]).mpr ⟨fun h => Bool.false_ne_true h.1, trivial⟩ _ List.prefix_rfl

end FragmentMemory.QuotaMargin
