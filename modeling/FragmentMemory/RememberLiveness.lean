import FragmentMemory.ContentUniqueness
import FragmentMemory.MemoryRememberer

/-! # Liveness of remembered rows

An insert that meets a row of its key with the same content hash promotes that row and leaves its
validity alone.  A remember therefore returns a live row exactly when the row it meets is not an
expired one, and a row its caller can read when that row is not another agent's either.
-/
namespace FragmentMemory.RememberLiveness
open ApiKeyStore FragmentTables FragmentFactory FragmentWriter FragmentReader CaseEventStore
  MemoryRememberer UniqueIndexTable JsString ContentUniqueness

/-- The id that a permanent remember reports as remembered. -/
def acceptedId : RememberResult → Option FragmentId
  | .idempotent id => some id
  | .stored id => some id
  | _ => none

variable (settings : Settings) (draws : Draws)

/-- The state immediately after the insert of a remember, or after the lookup that replaces it. -/
def insertedStore (store : Store) (params : RememberParams) (caller : Caller) : Store :=
  if (checkIdempotency store params caller.keyId).isSome then store
  else match acceptNew settings draws store params caller with
    | .ok accepted => accepted.store
    | .error _ => store

/-- The row of an id is live. -/
def LiveRow (store : Store) (id : FragmentId) : Prop :=
  ∃ f ∈ store.fragments.rows, f.id = id ∧ f.live = true

instance (store : Store) (id : FragmentId) : Decidable (LiveRow store id) :=
  inferInstanceAs (Decidable (∃ f ∈ store.fragments.rows, f.id = id ∧ f.live = true))

/-- The row of an id is among those that the caller's read by id returns. -/
def ReadableRow (store : Store) (id : FragmentId) (caller : Caller) : Prop :=
  ∃ f ∈ getByIds store [id] caller.agentId caller.keyId (caller.groups.getD []), f.id = id

/-- The text that the request stores. -/
def requestContent (params : RememberParams) : String :=
  storedContent settings.tools (trim (params.content.getD "")) params.type

/-- The row that the request meets, if any, has a property: the one that its idempotency key finds,
or else the one that holds the hash of its content under the caller's key. -/
def MeetsOnly (property : Fragment → Prop) (store : Store) (params : RememberParams) (caller : Caller) :
    Prop :=
  match checkIdempotency store params caller.keyId with
  | some existing => property existing
  | none => ∀ f ∈ store.fragments.rows, f.keyId = caller.keyId →
      f.contentHash = computeContentHash settings.digests (requestContent settings params) → property f

variable {settings draws}

/-- A remember is stored and finalized, or it writes nothing but the accesses of a dry run. -/
theorem remember_cases (settings : Settings) (draws : Draws) (store : Store) (params : RememberParams)
    (caller : Caller) :
    (∃ accepted indexSession, acceptNew settings draws store params caller = .ok accepted ∧
      remember settings draws store params caller =
        (finalizeRemember settings draws accepted.store { accepted.fragment with id := accepted.id } indexSession
          caller params, .stored accepted.id)) ∨
    ((∀ id, (remember settings draws store params caller).2 ≠ .stored id) ∧
      ((remember settings draws store params caller).1 = store ∨
        ∃ found, (remember settings draws store params caller).1 = afterSearch settings draws store found caller.keyId)) := by
  generalize hresult : remember settings draws store params caller = result
  simp only [remember] at hresult
  split at hresult
  · subst hresult
    exact Or.inr ⟨nofun, Or.inl rfl⟩
  · split at hresult
    · split at hresult <;> subst hresult <;> exact Or.inr ⟨nofun, Or.inl rfl⟩
    · split at hresult
      · subst hresult
        exact Or.inr ⟨nofun, Or.inl rfl⟩
      · split at hresult
        · split at hresult
          · subst hresult
            exact Or.inr ⟨nofun, Or.inl rfl⟩
          · subst hresult
            exact Or.inr ⟨nofun, Or.inr ⟨_, rfl⟩⟩
        · split at hresult
          · subst hresult
            exact Or.inr ⟨nofun, Or.inl rfl⟩
          · rename_i accepted haccepted
            exact Or.inl ⟨accepted, _, haccepted, hresult.symm⟩

/-- The outcomes of a remember that reports an id. -/
theorem remember_accepted {store : Store} {params : RememberParams} {caller : Caller} {id : FragmentId}
    (h : acceptedId (remember settings draws store params caller).2 = some id) :
    (∃ existing, checkIdempotency store params caller.keyId = some existing ∧ existing.id = id) ∨
    (checkIdempotency store params caller.keyId = none ∧
      ∃ accepted, acceptNew settings draws store params caller = .ok accepted ∧ accepted.id = id) := by
  simp only [remember] at h
  split at h
  · cases h
  · split at h
    · split at h <;> cases h
    · split at h
      · rename_i existing hexisting
        left
        exact ⟨existing, hexisting, Option.some.inj h⟩
      · rename_i hnone
        split at h
        · split at h <;> cases h
        · split at h
          · cases h
          · rename_i accepted haccepted
            right
            exact ⟨hnone, accepted, haccepted, Option.some.inj h⟩

/-- The columns that decide which row an insert meets and whether the caller can read it. -/
def rowView (f : Fragment) : FragmentId × Option KeyId × String × Bool × String :=
  (f.id, f.keyId, f.contentHash, f.live, f.agentId)

theorem map_updateCaseIds (ids : List FragmentId) (store : Store) (caseId : String) (keyId : Option KeyId) :
    (ids.foldl (fun current id => updateCaseId current id caseId keyId) store).fragments.rows.map rowView =
      store.fragments.rows.map rowView := by
  induction ids generalizing store with
  | nil => rfl
  | cons id later ih =>
    have hstep : (updateCaseId store id caseId keyId).fragments.rows.map rowView =
        store.fragments.rows.map rowView := map_updateFragments store rowView fun _ => rfl
    rw [List.foldl_cons, ih, hstep]

/-- The case assignment leaves the view of every row. -/
theorem map_autoAssignCaseId (store : Store) (params : RememberParams) (caller : Caller) :
    (autoAssignCaseId draws store params caller).1.fragments.rows.map rowView =
      store.fragments.rows.map rowView := by
  simp only [autoAssignCaseId]
  split
  · split
    · split
      · rfl
      · split
        · rfl
        · split
          · rfl
          · exact map_updateCaseIds _ _ _ _
    · rfl
  · rfl

/-- The fragment that a remember builds belongs to its caller and holds the request's content. -/
theorem buildFragment_spec {params : RememberParams} {caseId : Option String} {caller : Caller}
    {f : Fragment} (h : buildFragment settings draws params caseId caller = .ok f) :
    f.keyId = caller.keyId ∧ f.agentId = caller.agentId ∧ f.id = draws.newId ∧
      f.linkedTo = params.linkedTo ∧ f.content = requestContent settings params := by
  simp only [buildFragment] at h
  cases hcreate : create settings.digests settings.tools draws.newId draws.now
      (params.factoryParams caseId) with
  | error reason =>
    rw [hcreate] at h
    cases h
  | ok created =>
    rw [hcreate] at h
    cases h
    have hfields := create_linkedTo hcreate
    have hcontent := create_content hcreate
    exact ⟨rfl, rfl, hfields.2.1, hfields.1, hcontent⟩

/-- The importance that a remember asks for. -/
def requestImportance (params : RememberParams) : ℚ :=
  params.importance.getD (importanceWeight (params.type.getD .fact))

theorem buildFragment_importance {params : RememberParams} {caseId : Option String} {caller : Caller}
    {f : Fragment} (h : buildFragment settings draws params caseId caller = .ok f) :
    f.importance = requestImportance params ∧ f.isAnchor = params.isAnchor := by
  simp only [buildFragment] at h
  cases hcreate : create settings.digests settings.tools draws.newId draws.now
      (params.factoryParams caseId) with
  | error reason =>
    rw [hcreate] at h
    cases h
  | ok created =>
    rw [hcreate] at h
    cases h
    obtain ⟨himportance, hanchor⟩ := create_importance hcreate
    simp only [RememberParams.factoryParams] at himportance hanchor
    simp only [requestImportance, himportance, hanchor, and_self]

/-- A new remember inserts its fragment into the store after the case assignment. -/
theorem acceptNew_spec {store : Store} {params : RememberParams} {caller : Caller} {accepted : Accepted}
    (h : acceptNew settings draws store params caller = .ok accepted) :
    ∃ caseId, buildFragment settings draws params caseId caller = .ok accepted.fragment ∧
      insert settings.digests draws.now (autoAssignCaseId draws store params caller).1 accepted.fragment =
        some (accepted.store, accepted.id) := by
  simp only [acceptNew] at h
  split at h
  · cases h
  · split at h
    · cases h
    · rename_i f hbuild
      split at h
      · cases h
      · split at h
        · cases h
        · split at h
          · cases h
          · rename_i next id hinsert
            cases h
            exact ⟨_, hbuild, hinsert⟩

/-- The row that an insert reports is the promoted row it met or the new one. -/
theorem insert_row {digests : Digests} {now : Time} {store next : Store} {f : Fragment} {id : FragmentId}
    (h : insert digests now store f = some (next, id)) :
    (∃ held ∈ store.fragments.rows, held.keyId = f.keyId ∧
      held.contentHash = computeContentHash digests f.content ∧
      ∃ g ∈ next.fragments.rows, g.id = id ∧ rowView g = rowView held) ∨
    ((∀ r ∈ store.fragments.rows, ¬ (r.keyId = f.keyId ∧
        r.contentHash = computeContentHash digests f.content)) ∧
      ∃ g ∈ next.fragments.rows, g.id = id ∧ g.live = true ∧ g.agentId = f.agentId ∧ g.keyId = f.keyId) := by
  rcases upsertRow_cases h with ⟨held, hheld, hkey, hhash, hid, hnext⟩ | ⟨hnone, hid, fragments, hinsert, hnext⟩
  · left
    refine ⟨held, hheld, hkey, hhash, ?_⟩
    have hmem := updated_mem_updateFragments hheld
      (fun r => decide (FragmentEntry.contentHash (prepareInsertRow digests now f).keyId
        (prepareInsertRow digests now f).contentHash ∈ r.entries)) (promote now (prepareInsertRow digests now f))
    rw [← hnext] at hmem
    refine ⟨_, hmem, ?_, ?_⟩
    · rw [hid]
      split <;> rfl
    · split <;> rfl
  · right
    have hrows := Table.rows_insert hinsert
    have hmem : prepareInsertRow digests now f ∈ next.fragments.rows := by
      rw [hnext]
      simp only [hrows]
      exact List.mem_append_right _ (List.mem_singleton.mpr rfl)
    exact ⟨hnone, _, hmem, hid.symm, rfl, rfl, rfl⟩

/-- Whether the reported row has a property of its liveness, agent and key is decided by the row that
the request meets. -/
theorem accepted_row_iff {property : Fragment → Prop}
    (hview : ∀ f g, f.live = g.live → f.agentId = g.agentId → f.keyId = g.keyId → property f → property g)
    {store : Store} {params : RememberParams} {caller : Caller} {id : FragmentId}
    (hnew : ∀ f : Fragment, f.live = true → f.agentId = caller.agentId → f.keyId = caller.keyId → property f)
    (h : acceptedId (remember settings draws store params caller).2 = some id) :
    (∃ f ∈ (insertedStore settings draws store params caller).fragments.rows, f.id = id ∧ property f) ↔
      MeetsOnly settings property store params caller := by
  rcases remember_accepted h with ⟨existing, hexisting, hid⟩ | ⟨hnone, accepted, haccepted, hid⟩
  · have hmem : existing ∈ store.fragments.rows := by
      obtain ⟨key, -, hfound⟩ := Option.bind_eq_some_iff.mp hexisting
      exact (findByIdempotencyKey_eq_some hfound).1
    simp only [insertedStore, MeetsOnly, hexisting, Option.isSome_some, if_true]
    constructor
    · rintro ⟨f, hf, hfid, hproperty⟩
      rw [← eq_of_id _ hf hmem (hfid.trans hid.symm)]
      exact hproperty
    · intro hproperty
      exact ⟨existing, hmem, hid, hproperty⟩
  · obtain ⟨caseId, hbuild, hinsert⟩ := acceptNew_spec haccepted
    have hf := buildFragment_spec hbuild
    have hview' : (autoAssignCaseId draws store params caller).1.fragments.rows.map rowView =
        store.fragments.rows.map rowView := map_autoAssignCaseId store params caller
    have hback : ∀ held ∈ (autoAssignCaseId draws store params caller).1.fragments.rows,
        ∃ before ∈ store.fragments.rows, rowView before = rowView held := by
      intro held hheld
      have hmap := List.mem_map_of_mem (f := rowView) hheld
      rw [hview'] at hmap
      exact List.mem_map.mp hmap
    have hforth : ∀ before ∈ store.fragments.rows,
        ∃ held ∈ (autoAssignCaseId draws store params caller).1.fragments.rows,
          rowView held = rowView before := by
      intro before hbefore
      have hmap := List.mem_map_of_mem (f := rowView) hbefore
      rw [← hview'] at hmap
      exact List.mem_map.mp hmap
    simp only [insertedStore, MeetsOnly, hnone, haccepted, Option.isSome_none, Bool.false_eq_true, if_false]
    rcases insert_row hinsert with
      ⟨held, hheld, hkey, hhash, g, hg, hgid, hgview⟩ | ⟨hfree, g, hg, hgid, hglive, hgagent, hgkey⟩
    · obtain ⟨before, hbefore, hbeforeView⟩ := hback held hheld
      simp only [rowView, Prod.mk.injEq] at hbeforeView hgview
      obtain ⟨-, hbkey, hbhash, hblive, hbagent⟩ := hbeforeView
      obtain ⟨-, hgkey, -, hglive, hgagent⟩ := hgview
      have hbeforeKey : before.keyId = caller.keyId := by rw [hbkey, hkey, hf.1]
      have hbeforeHash : before.contentHash =
          computeContentHash settings.digests (requestContent settings params) := by
        rw [hbhash, hhash, hf.2.2.2.2]
      constructor
      · rintro ⟨r, hr, hrid, hproperty⟩ x hx hxkey hxhash
        have hrg : r = g := eq_of_id _ hr hg (by rw [hrid, hgid, hid])
        have hxbefore : x = before := eq_of_contentHash _ hx hbefore (by rw [hxkey, hbeforeKey])
          (by rw [hxhash, hbeforeHash])
        rw [hrg] at hproperty
        rw [hxbefore]
        exact hview g before (by rw [hglive, hblive]) (by rw [hgagent, hbagent]) (by rw [hgkey, hbkey]) hproperty
      · intro hall
        have hproperty := hall before hbefore hbeforeKey hbeforeHash
        have hg' := hview before g (by rw [hglive, hblive]) (by rw [hgagent, hbagent])
          (by rw [hgkey, hbkey]) hproperty
        exact ⟨g, hg, by rw [hgid, hid], hg'⟩
    · have hg' := hnew g hglive (by rw [hgagent, hf.2.1]) (by rw [hgkey, hf.1])
      constructor
      · rintro - x hx hxkey hxhash
        obtain ⟨held, hheld, hheldView⟩ := hforth x hx
        simp only [rowView, Prod.mk.injEq] at hheldView
        have hmeets : held.keyId = accepted.fragment.keyId ∧
            held.contentHash = computeContentHash settings.digests accepted.fragment.content := by
          constructor
          · rw [hheldView.2.1, hxkey, hf.1]
          · rw [hheldView.2.2.1, hxhash, hf.2.2.2.2]
        exact absurd hmeets (hfree held hheld)
      · intro _
        exact ⟨g, hg, by rw [hgid, hid], hg'⟩

/-- What holds of the row met follows from what holds of it as a row of the caller's key. -/
theorem meetsOnly_iff {property stronger : Fragment → Prop} {store : Store} {params : RememberParams}
    {caller : Caller} (h : ∀ f, f.keyId = caller.keyId → (property f ↔ stronger f)) :
    MeetsOnly settings property store params caller ↔ MeetsOnly settings stronger store params caller := by
  simp only [MeetsOnly]
  rcases hidempotent : checkIdempotency store params caller.keyId with _ | existing
  · constructor
    · intro hall f hf hkey hhash
      exact (h f hkey).mp (hall f hf hkey hhash)
    · intro hall f hf hkey hhash
      exact (h f hkey).mpr (hall f hf hkey hhash)
  · obtain ⟨key, -, hfound⟩ := Option.bind_eq_some_iff.mp hidempotent
    exact h existing (findByIdempotencyKey_eq_some hfound).2.1

/-- A remember returns a live row exactly when the row it meets is live, and a row that its caller
reads by id exactly when that row is moreover one in the scope of the caller's agent. -/
theorem accepted_row_live_iff {store : Store} {params : RememberParams} {caller : Caller} {id : FragmentId}
    (h : acceptedId (remember settings draws store params caller).2 = some id) :
    (LiveRow (insertedStore settings draws store params caller) id ↔
      MeetsOnly settings (fun f => f.live = true) store params caller) ∧
    (ReadableRow (insertedStore settings draws store params caller) id caller ↔
      MeetsOnly settings (fun f => f.live = true ∧ agentScope caller.agentId f = true) store params caller) := by
  constructor
  · refine accepted_row_iff ?_ ?_ h
    · intro f g hlive _ _ hf
      rw [← hlive, hf]
    · intro f hlive _ _
      exact hlive
  · have hscoped : (∃ f ∈ (insertedStore settings draws store params caller).fragments.rows, f.id = id ∧
          (f.live = true ∧ agentScope caller.agentId f = true ∧
            keyScope caller.keyId (caller.groups.getD []) f = true)) ↔
        MeetsOnly settings (fun f => f.live = true ∧ agentScope caller.agentId f = true ∧
          keyScope caller.keyId (caller.groups.getD []) f = true) store params caller := by
      refine accepted_row_iff ?_ ?_ h
      · intro f g hlive hagent hkey hf
        simp only [agentScope, keyScope, ← hlive, ← hagent, ← hkey] at hf ⊢
        exact hf
      · intro f hlive hagent hkey
        refine ⟨hlive, ?_, keyScope_of_ownedBy ?_⟩
        · simp [agentScope, hagent]
        · simp [ownedBy, hkey]
    have hread : ReadableRow (insertedStore settings draws store params caller) id caller ↔
        ∃ f ∈ (insertedStore settings draws store params caller).fragments.rows, f.id = id ∧
          (f.live = true ∧ agentScope caller.agentId f = true ∧
            keyScope caller.keyId (caller.groups.getD []) f = true) := by
      simp only [ReadableRow, getByIds, List.mem_filter, Bool.and_eq_true, List.contains_iff_mem,
        List.mem_singleton]
      constructor
      · rintro ⟨f, ⟨hf, ⟨⟨hid, hagent⟩, hlive⟩, hkey⟩, -⟩
        exact ⟨f, hf, hid, hlive, hagent, hkey⟩
      · rintro ⟨f, hf, hid, hlive, hagent, hkey⟩
        exact ⟨f, ⟨hf, ⟨⟨hid, hagent⟩, hlive⟩, hkey⟩, hid⟩
    rw [hread, hscoped]
    refine meetsOnly_iff fun f hkey => ?_
    have hscope : keyScope caller.keyId (caller.groups.getD []) f = true :=
      keyScope_of_ownedBy (by simp [ownedBy, hkey])
    constructor
    · intro hf
      exact ⟨hf.1, hf.2.1⟩
    · intro hf
      exact ⟨hf.1, hf.2, hscope⟩

def replacementContent : String := "deploy runs without the vpn tunnel now"

/-- SHA-256 on the two sample contents. -/
def sampleSettings : Settings where
  digests := {
    hex := fun text =>
      if text = sampleContent then "77dcdc41cdc3789120882cbf0383cede824aa0a0220f3d57b8b36bd33415aa8f"
      else if text = replacementContent then
        "84540520a92a90af91a54e39b986924f7eba198b87905a23003be5a0c3c5aa2a"
      else ""
    base64Url := fun _ => "" }
  tools := sampleTools
  redisReady := false

def sampleCaller : Caller where
  keyId := some sampleKey

def sampleDraws (now : Time) (newId : FragmentId) : Draws where
  now := now
  newId := newId

def sampleParams (content : String) (supersedes : List FragmentId) : RememberParams where
  content := some content
  type := some .fact
  topic := some "deploy"
  keywords := ["vpn"]
  supersedes := supersedes

/-- The store in which the sample content was remembered and then superseded. -/
def supersededStore : Store :=
  let first := (remember sampleSettings (sampleDraws 1 "frag-01") {} (sampleParams sampleContent [])
    sampleCaller).1
  (remember sampleSettings (sampleDraws 2 "frag-02") first
    (sampleParams replacementContent ["frag-01"]) sampleCaller).1

/-- A content that the key does not hold is remembered as a live row. -/
theorem accepted_row_live_new :
    LiveRow (insertedStore sampleSettings (sampleDraws 1 "frag-01") {} (sampleParams sampleContent [])
      sampleCaller) "frag-01" :=
  have haccepted : acceptedId (remember sampleSettings (sampleDraws 1 "frag-01") {}
      (sampleParams sampleContent []) sampleCaller).2 = some "frag-01" := by decide +kernel
  (accepted_row_live_iff haccepted).1.mpr fun _ hf => absurd hf List.not_mem_nil

/-- Remembering the superseded content again reports its expired row. -/
theorem remembered_row_not_live :
    acceptedId (remember sampleSettings (sampleDraws 3 "frag-03") supersededStore
      (sampleParams sampleContent []) sampleCaller).2 = some "frag-01" ∧
    ¬ LiveRow (insertedStore sampleSettings (sampleDraws 3 "frag-03") supersededStore
      (sampleParams sampleContent []) sampleCaller) "frag-01" := by
  decide +kernel

end FragmentMemory.RememberLiveness
