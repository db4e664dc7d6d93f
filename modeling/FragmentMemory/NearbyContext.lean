import FragmentMemory.RememberPaths
import FragmentMemory.RowPersistence
import FragmentMemory.TenantReadIsolation
import FragmentMemory.TrimmedText

/-! # The nearby context of a recalled fragment

A remember without a source labels its row with the first eight code units of the session id; a recall looks
for the label of the whole id.  What is attached to a returned fragment is compared with the fragments that
stand beside it in its session.
-/
namespace FragmentMemory.NearbyContext
open ApiKeyStore FragmentTables FragmentFactory FragmentWriter FragmentReader RecallQueries FragmentSearch
  MemoryRecaller MemoryRememberer RememberLiveness RememberPaths RowPersistence RecallScope SearchProvenance
  UniqueIndexTable JsString LinkStore TransitionRuns

/-! ## The label of a session -/

/-- `remember` without a source: `session:${sessionId.slice(0, 8)}`. -/
def sourceLabel (sessionId : String) : String := "session:" ++ clip sessionId 8

/-- The row was remembered in a session and without a source. -/
def Labelled (f : Fragment) : Prop :=
  ∃ sessionId, sessionId ≠ "" ∧ f.sessionId = some sessionId ∧ f.source = some (sourceLabel sessionId)

def AllLabelled (store : Store) : Prop := ∀ f ∈ store.fragments.rows, Labelled f

theorem clip_of_le {text : String} {units : ℕ} (h : utf16Length text ≤ units) : clip text units = text := by
  have hunits : units = unitCount text.toList + (units - utf16Length text) := by
    have hcount : unitCount text.toList = utf16Length text := rfl
    omega
  have hclip := clipChars_append text.toList [] (units - utf16Length text)
  rw [← hunits, List.append_nil] at hclip
  have hnil : clipChars (units - utf16Length text) [] = [] := by
    cases units - utf16Length text <;> rw [clipChars]
  rw [clip, hclip, hnil, List.append_nil, String.ofList_toList]

theorem utf16Length_clip_le (text : String) (units : ℕ) : utf16Length (clip text units) ≤ units := by
  by_cases h : units ≤ utf16Length text
  · exact (utf16Length_clip h).le
  · have hshort : utf16Length text ≤ units := by omega
    rw [clip_of_le hshort]
    exact hshort

/-- The label of a session is found under the whole id exactly for the ids that it does not cut. -/
theorem sourceLabel_eq_iff {sessionId other : String} (h : sourceLabel other = "session:" ++ sessionId) :
    utf16Length sessionId ≤ 8 := by
  have hlist := congrArg String.toList h
  simp only [sourceLabel, String.toList_append] at hlist
  have hclip : clip other 8 = sessionId := String.toList_injective (List.append_cancel_left hlist)
  rw [← hclip]
  exact utf16Length_clip_le other 8

/-! ### What `remember` writes -/

/-- The columns that no later statement of a remember rewrites. -/
def SameLabel (f g : Fragment) : Prop := g.sessionId = f.sessionId ∧ g.source = f.source

theorem admits_sameLabel : Admits SameLabel where
  refl _ := ⟨rfl, rfl⟩
  trans _ _ _ h h' := ⟨h'.1.trans h.1, h'.2.trans h.2⟩
  linked _ _ := ⟨rfl, rfl⟩
  accessed _ _ _ _ := ⟨rfl, rfl⟩
  asserted _ _ := ⟨rfl, rfl⟩
  cased _ _ := ⟨rfl, rfl⟩

theorem AllLabelled.rewritten {store next : Store} (h : AllLabelled store) (hrewrites : Rewrites SameLabel store next) :
    AllLabelled next := by
  intro g hg
  obtain ⟨f, hf, hsession, hsource⟩ := hrewrites.covers g hg
  obtain ⟨sessionId, hne, hid, hlabel⟩ := h f hf
  exact ⟨sessionId, hne, hsession.trans hid, hsource.trans hlabel⟩

variable {settings : Settings} {draws : Draws}

/-- The row of a fragment that `_buildFragment` makes in a session without a source. -/
theorem labelled_prepareInsertRow {params : RememberParams} {caseId : Option String} {caller : Caller} {f : Fragment}
    {sessionId : String} (hsource : params.source = none) (hsession : params.session = some sessionId)
    (h : buildFragment settings draws params caseId caller = .ok f) :
    Labelled (prepareInsertRow settings.digests draws.now f) := by
  have htruthy : truthy (some sessionId) = some sessionId := by
    rw [← hsession]
    exact truthy_session params
  have hne : sessionId ≠ "" := by
    rintro rfl
    cases htruthy
  have hid : f.sessionId = some sessionId := (buildFragment_sessionId h).trans hsession
  have hlabel : f.source = truthy (some (sourceLabel sessionId)) := by
    unfold buildFragment at h
    rcases hcreate : create settings.digests settings.tools draws.newId draws.now (params.factoryParams caseId) with
      reason | made
    · rw [hcreate] at h
      cases h
    · rw [hcreate] at h
      cases h
      have hcolumn := (create_columns hcreate).2.1
      rw [RememberParams.factoryParams, hsource, hsession] at hcolumn
      exact hcolumn
  have hfilled : truthy (some (sourceLabel sessionId)) = some (sourceLabel sessionId) := by
    have hnonempty : sourceLabel sessionId ≠ "" := by
      intro hempty
      have hlength := congrArg String.length hempty
      simp [sourceLabel] at hlength
    simp [truthy, Option.filter, hnonempty]
  refine ⟨sessionId, hne, ?_, ?_⟩
  · have hrow : (prepareInsertRow settings.digests draws.now f).sessionId = truthy f.sessionId := rfl
    rw [hrow, hid, htruthy]
  · have hrow : (prepareInsertRow settings.digests draws.now f).source = truthy f.source := rfl
    rw [hrow, hlabel, truthy_truthy, hfilled]

/-- A call of `remember` with what it meets. -/
structure RememberCall where
  settings : Settings
  draws : Draws
  params : RememberParams
  caller : Caller

def rememberStep (store : Store) (call : RememberCall) : Store :=
  (remember call.settings call.draws store call.params call.caller).1

/-- The call has a session id and no source. -/
def RememberCall.inSession (call : RememberCall) : Prop :=
  call.params.source = none ∧ call.params.session ≠ none

theorem allLabelled_step {store : Store} (h : AllLabelled store) {call : RememberCall} (hcall : call.inSession) :
    AllLabelled (rememberStep store call) := by
  obtain ⟨settings, draws, params, caller⟩ := call
  obtain ⟨hsource, hsession⟩ := hcall
  obtain ⟨sessionId, hid⟩ := Option.ne_none_iff_exists'.mp hsession
  unfold rememberStep
  rcases remember_cases settings draws store params caller with
    ⟨accepted, indexSession, haccepted, hstored⟩ | ⟨-, hsame | ⟨found, hsearched⟩⟩
  · obtain ⟨caseId, hbuild, hinsert⟩ := acceptNew_spec haccepted
    have hassigned : AllLabelled (autoAssignCaseId draws store params caller).1 :=
      h.rewritten (rewrites_autoAssignCaseId admits_sameLabel store params caller)
    have hinserted : AllLabelled accepted.store := by
      rcases upsertRow_cases hinsert with ⟨held, -, -, -, -, hnext⟩ | ⟨-, -, fragments, hfragments, hnext⟩
      · rw [hnext]
        exact hassigned.rewritten (rewrites_updateFragments admits_sameLabel fun f _ _ => ⟨rfl, rfl⟩)
      · intro g hg
        rw [hnext] at hg
        simp only [Table.rows_insert hfragments, List.mem_append, List.mem_singleton] at hg
        rcases hg with hold | rfl
        · exact hassigned g hold
        · exact labelled_prepareInsertRow hsource hid hbuild
    rw [hstored]
    exact hinserted.rewritten (rewrites_finalizeRemember admits_sameLabel _ _ indexSession caller params
      (fun _ _ _ _ _ _ => ⟨rfl, rfl⟩) fun _ _ _ => ⟨rfl, rfl⟩)
  · rw [hsame]
    exact h
  · rw [hsearched]
    exact h.rewritten (rewrites_afterSearch admits_sameLabel store found caller.keyId)

/-- The store after any remembers in sessions without a source. -/
theorem allLabelled_run (calls : List RememberCall) (hcalls : ∀ call ∈ calls, call.inSession) :
    AllLabelled (run rememberStep {} calls) := by
  have hrun : ∀ store, AllLabelled store → AllLabelled (run rememberStep store calls) := by
    induction calls with
    | nil => exact fun store h => h
    | cons call later ih =>
      intro store h
      exact ih (fun other hother => hcalls other (List.mem_cons_of_mem _ hother)) _
        (allLabelled_step h (hcalls call List.mem_cons_self))
  refine hrun {} ?_
  intro f hf
  cases hf

/-! ## What a recall attaches -/

/-- The rows of a label in the reach of the lookup, in its order. -/
def sourceRows (store : Store) (source : String) (caller : Caller) : List Fragment :=
  (store.fragments.rows.filter fun f =>
    f.source = some source && agentScope caller.agentId f && f.live && ownedBy caller.keyId f).insertionSort
      (byImportance · ·)

/-- The rows that a recall of the caller may read beside its results: the agent, the key and the workspace. -/
def inScope (caller : Caller) (params : RecallParams) (f : Fragment) : Bool :=
  agentScope caller.agentId f && f.live && ownedBy caller.keyId f &&
    workspaceCond (truthy (params.workspace.or params.defaultWorkspace)) f

/-- Another fragment, created within thirty minutes. -/
def beside (f g : Fragment) : Bool := g.id ≠ f.id && distance g.createdAt f.createdAt < 1800000

/-- A fragment of the same session and in scope that was created near another one. -/
structure Belongs (caller : Caller) (params : RecallParams) (f g : Fragment) : Prop where
  session : g.sessionId = f.sessionId
  scope : inScope caller params g = true
  beside : beside f g = true

/-- What a nearby context shows of a row. -/
def contextItem (g : Fragment) : FragmentId × String × FragmentType × Time := (g.id, g.content, g.type, g.createdAt)

/-- The label under which a recall looks for the session of a row. -/
def soughtLabel (f : Fragment) : String := "session:" ++ f.sessionId.getD ""

/-- The nearby context of a row holds only what belongs beside it, and something of it when the lookup is not
cut at its limit of five rows. -/
structure Attached (store : Store) (caller : Caller) (params : RecallParams) (f : Fragment)
    (nearby : List (FragmentId × String × FragmentType × Time)) : Prop where
  only : ∀ item ∈ nearby, ∃ g ∈ store.fragments.rows, item = contextItem g ∧ Belongs caller params f g
  given : (sourceRows store (soughtLabel f) caller).length ≤ 5 →
    (∃ g ∈ store.fragments.rows, Belongs caller params f g) → nearby ≠ []

/-- The session of the row is sought and found: the result carries its session id, which has at most eight code
units. -/
def Sought (f shown : Fragment) : Prop := shown.sessionId.isSome = true ∧ utf16Length (f.sessionId.getD "") ≤ 8

instance (f shown : Fragment) : Decidable (Sought f shown) :=
  inferInstanceAs (Decidable (shown.sessionId.isSome = true ∧ utf16Length (f.sessionId.getD "") ≤ 8))

/-- Where the session is sought, every row near the fragment that carries the label without belonging beside it
stands behind five rows of the label or behind three near ones.  Elsewhere nothing belongs beside it, or the
lookup would be cut. -/
def NearbyReached (store : Store) (caller : Caller) (params : RecallParams) (f shown : Fragment) : Prop :=
  if Sought f shown then
    ∀ g before after, sourceRows store (soughtLabel f) caller = before ++ g :: after → beside f g = true →
      ¬ Belongs caller params f g → 5 ≤ before.length ∨ 3 ≤ (before.filter (beside f)).length
  else (sourceRows store (soughtLabel f) caller).length ≤ 5 →
    ∀ g ∈ store.fragments.rows, ¬ Belongs caller params f g

/-- An element is among the first filtered ones of a front exactly when few elements stand before it. -/
theorem mem_take_filter_take {α : Type*} {p : α → Bool} {a : α} (items : List α) (cut kept : ℕ) :
    a ∈ ((items.take cut).filter p).take kept ↔ ∃ before after, items = before ++ a :: after ∧ p a = true ∧
      before.length < cut ∧ (before.filter p).length < kept := by
  induction items generalizing cut kept with
  | nil => simp
  | cons first later ih =>
    cases cut with
    | zero => simp
    | succ cut =>
      have hsplit : ∀ before after, first :: later = before ++ a :: after ↔
          (before = [] ∧ first = a ∧ later = after) ∨ ∃ rest, before = first :: rest ∧ later = rest ++ a :: after := by
        intro before after
        cases before with
        | nil => simp
        | cons other rest => simp [and_assoc, eq_comm]
      by_cases hp : p first = true
      · cases kept with
        | zero => simp
        | succ kept =>
          rw [List.take_succ_cons, List.filter_cons_of_pos hp, List.take_succ_cons, List.mem_cons, ih]
          constructor
          · rintro (rfl | ⟨before, after, rfl, ha, hcut, hkept⟩)
            · exact ⟨[], later, rfl, hp, by simp, by simp⟩
            · refine ⟨first :: before, after, rfl, ha, ?_, ?_⟩
              · simpa using hcut
              · simpa [List.filter_cons_of_pos hp] using hkept
          · rintro ⟨before, after, hitems, ha, hcut, hkept⟩
            rcases (hsplit before after).mp hitems with ⟨-, hfirst, -⟩ | ⟨rest, rfl, hlater⟩
            · exact Or.inl hfirst.symm
            · refine Or.inr ⟨rest, after, hlater, ha, ?_, ?_⟩
              · simpa using hcut
              · simpa [List.filter_cons_of_pos hp] using hkept
      · rw [List.take_succ_cons, List.filter_cons_of_neg hp, ih]
        constructor
        · rintro ⟨before, after, rfl, ha, hcut, hkept⟩
          refine ⟨first :: before, after, rfl, ha, ?_, ?_⟩
          · simpa using hcut
          · rwa [List.filter_cons_of_neg hp]
        · rintro ⟨before, after, hitems, ha, hcut, hkept⟩
          rcases (hsplit before after).mp hitems with ⟨-, rfl, -⟩ | ⟨rest, rfl, hlater⟩
          · exact absurd ha hp
          · refine ⟨rest, after, hlater, ha, ?_, ?_⟩
            · simpa using hcut
            · rwa [List.filter_cons_of_neg hp] at hkept

variable {store : Store} {caller : Caller} {params : RecallParams} {f shown : Fragment}

theorem mem_sourceRows {source : String} {g : Fragment} :
    g ∈ sourceRows store source caller ↔ g ∈ store.fragments.rows ∧ g.source = some source ∧
      agentScope caller.agentId g = true ∧ g.live = true ∧ ownedBy caller.keyId g = true := by
  simp [sourceRows, List.mem_insertionSort, and_assoc]

/-- The rows that a found session id attaches. -/
theorem nearbyContext_eq {sessionId : String} (hid : truthy shown.sessionId = some sessionId) (hid' : Shown f shown) :
    nearbyContext store caller shown =
      ((((sourceRows store ("session:" ++ sessionId) caller).take 5).filter (beside f)).take 3).map contextItem := by
  have hbeside : beside f = fun g => decide (g.id ≠ shown.id) && decide (distance g.createdAt shown.createdAt < 1800000) := by
    funext g
    rw [beside, hid'.id, hid'.createdAt]
  rw [nearbyContext, hid, hbeside]
  simp only [Option.elim_some]
  rfl

theorem nearbyContext_nil (hid : truthy shown.sessionId = none) : nearbyContext store caller shown = [] := by
  rw [nearbyContext, hid, Option.elim_none]

/-- A label that is sought and not cut is the one of every row of the session. -/
theorem Belongs.sought (hlabelled : AllLabelled store) (hshort : utf16Length (f.sessionId.getD "") ≤ 8)
    {g : Fragment} (hg : g ∈ store.fragments.rows) (h : Belongs caller params f g) :
    g ∈ sourceRows store (soughtLabel f) caller := by
  obtain ⟨sessionId, -, hid, hsource⟩ := hlabelled g hg
  have hsession : f.sessionId = some sessionId := h.session.symm.trans hid
  have hscope := h.scope
  simp only [inScope, Bool.and_eq_true] at hscope
  rw [hsession, Option.getD_some] at hshort
  rw [sourceLabel, clip_of_le hshort] at hsource
  rw [soughtLabel, hsession, Option.getD_some]
  exact mem_sourceRows.mpr ⟨hg, hsource, hscope.1.1.1, hscope.1.1.2, hscope.1.2⟩

/-- No row carries a label that is sought whole and was cut. -/
theorem sourceRows_long (hlabelled : AllLabelled store) {sessionId : String} (hlong : 8 < utf16Length sessionId) :
    sourceRows store ("session:" ++ sessionId) caller = [] := by
  refine List.eq_nil_iff_forall_not_mem.mpr fun g hg => ?_
  obtain ⟨hmem, hsource, -⟩ := mem_sourceRows.mp hg
  obtain ⟨other, -, -, hlabel⟩ := hlabelled g hmem
  have hshort := sourceLabel_eq_iff (Option.some.inj (hlabel.symm.trans hsource))
  omega

theorem attached_sought (hlabelled : AllLabelled store) (hf : f ∈ store.fragments.rows) (hshown : Shown f shown)
    (hsought : Sought f shown) :
    Attached store caller params f (nearbyContext store caller shown) ↔
      ∀ g before after, sourceRows store (soughtLabel f) caller = before ++ g :: after → beside f g = true →
        ¬ Belongs caller params f g → 5 ≤ before.length ∨ 3 ≤ (before.filter (beside f)).length := by
  obtain ⟨sessionId, hne, hid, -⟩ := hlabelled f hf
  obtain ⟨hsome, hshort⟩ := hsought
  have hsame : shown.sessionId = some sessionId := by
    rcases hshown.sessionId with hkept | hdropped
    · exact hkept.trans hid
    · rw [hdropped] at hsome
      cases hsome
  have htruthy : truthy shown.sessionId = some sessionId := by
    rw [hsame]
    simp [truthy, Option.filter, hne]
  have hlabel : soughtLabel f = "session:" ++ sessionId := by
    rw [soughtLabel, hid, Option.getD_some]
  rw [nearbyContext_eq htruthy hshown, ← hlabel]
  constructor
  · intro h g before after hrows hbeside hout
    by_contra hfar
    rw [not_or, Nat.not_le, Nat.not_le] at hfar
    have hmem := (mem_take_filter_take (sourceRows store (soughtLabel f) caller) 5 3).mpr
      ⟨before, after, hrows, hbeside, hfar.1, hfar.2⟩
    obtain ⟨other, hother, hitem, hbelongs⟩ := h.only (contextItem g) (List.mem_map_of_mem hmem)
    have hstored : g ∈ sourceRows store (soughtLabel f) caller := by
      rw [hrows]
      exact List.mem_append_right _ List.mem_cons_self
    have hsameRow : g = other :=
      eq_of_id _ (mem_sourceRows.mp hstored).1 hother (congrArg Prod.fst hitem)
    rw [← hsameRow] at hbelongs
    exact hout hbelongs
  · intro h
    constructor
    · intro item hitem
      obtain ⟨g, hg, rfl⟩ := List.mem_map.mp hitem
      obtain ⟨before, after, hrows, hbeside, hcut, hkept⟩ := (mem_take_filter_take _ 5 3).mp hg
      have hstored : g ∈ sourceRows store (soughtLabel f) caller := by
        rw [hrows]
        exact List.mem_append_right _ List.mem_cons_self
      refine ⟨g, (mem_sourceRows.mp hstored).1, rfl, ?_⟩
      by_contra hout
      have := h g before after hrows hbeside hout
      omega
    · rintro hlimit ⟨g, hg, hbelongs⟩
      rw [List.take_of_length_le hlimit]
      have hmem : g ∈ (sourceRows store (soughtLabel f) caller).filter (beside f) :=
        List.mem_filter.mpr ⟨hbelongs.sought hlabelled hshort hg, hbelongs.beside⟩
      rw [Ne, List.map_eq_nil_iff, List.take_eq_nil_iff]
      rintro (hzero | hnil)
      · cases hzero
      · rw [hnil] at hmem
        cases hmem

theorem attached_nil_iff :
    Attached store caller params f [] ↔ ((sourceRows store (soughtLabel f) caller).length ≤ 5 →
      ∀ g ∈ store.fragments.rows, ¬ Belongs caller params f g) := by
  constructor
  · intro h hlimit g hg hbelongs
    exact h.given hlimit ⟨g, hg, hbelongs⟩ rfl
  · intro h
    refine ⟨by simp, ?_⟩
    rintro hlimit ⟨g, hg, hbelongs⟩
    exact absurd hbelongs (h hlimit g hg)

/-- What is attached to a shown row of a store of labelled rows. -/
theorem attached_iff (hlabelled : AllLabelled store) (hf : f ∈ store.fragments.rows) (hshown : Shown f shown) :
    Attached store caller params f (nearbyContext store caller shown) ↔
      NearbyReached store caller params f shown := by
  unfold NearbyReached
  by_cases hsought : Sought f shown
  · rw [if_pos hsought]
    exact attached_sought hlabelled hf hshown hsought
  · rw [if_neg hsought, ← attached_nil_iff]
    have hnil : nearbyContext store caller shown = [] := by
      cases hid : truthy shown.sessionId with
      | none => exact nearbyContext_nil hid
      | some sessionId =>
        have hsome := truthy_eq_some hid
        have hsession : f.sessionId = some sessionId := by
          rcases hshown.sessionId with hkept | hdropped
          · exact hkept.symm.trans hsome
          · rw [hdropped] at hsome
            cases hsome
        have hlong : 8 < utf16Length sessionId := by
          by_contra hshort
          refine hsought ⟨by rw [hsome]; rfl, ?_⟩
          rw [hsession, Option.getD_some]
          omega
        rw [nearbyContext_eq hid hshown, sourceRows_long hlabelled hlong]
        rfl
    rw [hnil]

/-! ## The response of a recall -/

/-- The fragments of a response. -/
def returnedEntries : RecallResponse → List RecallEntry
  | .cases _ _ _ => []
  | .fragments entries _ _ _ _ => entries

variable {model : SearchModel} {context : RecallContext}

theorem mem_returnedEntries {entry : RecallEntry}
    (h : entry ∈ returnedEntries (toolRecall model context store caller params)) :
    ∃ hit ∈ (recallRows model context store caller params).1, entry = recallEntry context store caller params hit := by
  unfold toolRecall at h
  simp only at h
  split at h
  · cases h
  · obtain ⟨hit, hhit, rfl⟩ := List.mem_map.mp h
    exact ⟨hit, List.mem_of_mem_drop (List.mem_of_mem_take hhit), rfl⟩

/-- In a store whose rows were remembered in sessions and without a source, the nearby context of a returned
fragment is right exactly when it is reached. -/
theorem nearby_attached_iff (model : SearchModel) (context : RecallContext) (hlabelled : AllLabelled store)
    (hcontext : params.includeContext = true) {entry : RecallEntry}
    (hentry : entry ∈ returnedEntries (toolRecall model context store caller params))
    (hf : f ∈ store.fragments.rows) (hid : f.id = entry.fragment.id) :
    Attached store caller params f entry.nearby ↔ NearbyReached store caller params f entry.fragment := by
  obtain ⟨hit, hhit, rfl⟩ := mem_returnedEntries hentry
  obtain ⟨g, hg, -, hshown⟩ := allRead_recallRows hit hhit
  have hsame : g = f := eq_of_id _ hg hf (hshown.id.symm.trans hid.symm)
  rw [hsame] at hshown
  have hnearby : (recallEntry context store caller params hit).nearby = nearbyContext store caller hit.row := by
    simp only [recallEntry, hcontext, if_true]
  rw [hnearby]
  exact attached_iff hlabelled hf hshown

/-! ## A short and a long session id -/

open ContentUniqueness (sampleFragment sampleKey)
open TenantReadIsolation (sampleModel sampleContext)

def sessionRow (sessionId : String) (id : FragmentId) (createdAt : Time) : Fragment :=
  { sampleFragment with
    id := id
    contentHash := id
    sessionId := some sessionId
    source := some (sourceLabel sessionId)
    createdAt := createdAt }

/-- Two rows of one session, a minute apart. -/
def sessionStore (sessionId : String) : Store where
  fragments := [sessionRow sessionId "frag-01" 0, sessionRow sessionId "frag-02" 60000].foldl
    (fun table f => (table.insert f).getD table) Table.empty

def sessionRecall : RecallParams := { keywords := ["vpn"], includeContext := true }

def sessionCaller : Caller := { keyId := some sampleKey }

theorem sessionStore_rows (sessionId : String) : (sessionStore sessionId).fragments.rows =
    [sessionRow sessionId "frag-01" 0, sessionRow sessionId "frag-02" 60000] := rfl

theorem sessionStore_labelled {sessionId : String} (hne : sessionId ≠ "") : AllLabelled (sessionStore sessionId) := by
  intro f hf
  rw [sessionStore_rows, List.mem_cons, List.mem_singleton] at hf
  rcases hf with rfl | rfl
  · exact ⟨sessionId, hne, rfl, rfl⟩
  · exact ⟨sessionId, hne, rfl, rfl⟩

theorem sessionRow_belongs (sessionId : String) : Belongs sessionCaller sessionRecall
    (sessionRow sessionId "frag-01" 0) (sessionRow sessionId "frag-02" 60000) :=
  ⟨rfl, rfl, by simp [beside, sessionRow, distance]⟩

/-- In a session with a short id, the fragment beside the returned one is attached. -/
theorem nearby_attached_short :
    ∃ entry ∈ returnedEntries (toolRecall sampleModel sampleContext (sessionStore "team-7") sessionCaller sessionRecall),
      Attached (sessionStore "team-7") sessionCaller sessionRecall (sessionRow "team-7" "frag-01" 0) entry.nearby := by
  obtain ⟨entry, hentry, hid, hsession⟩ : ∃ entry ∈ returnedEntries (toolRecall sampleModel sampleContext
      (sessionStore "team-7") sessionCaller sessionRecall),
      (sessionRow "team-7" "frag-01" 0).id = entry.fragment.id ∧ entry.fragment.sessionId.isSome = true := by
    decide +kernel
  refine ⟨entry, hentry, (nearby_attached_iff sampleModel sampleContext (sessionStore_labelled (by decide)) rfl hentry
    List.mem_cons_self hid).mpr ?_⟩
  rw [NearbyReached, if_pos ⟨hsession, by decide⟩]
  intro g before after hrows hbeside hout
  have hg : g ∈ (sessionStore "team-7").fragments.rows := by
    have hfound : g ∈ sourceRows (sessionStore "team-7") (soughtLabel (sessionRow "team-7" "frag-01" 0))
        sessionCaller := by
      rw [hrows]
      exact List.mem_append_right _ List.mem_cons_self
    exact (mem_sourceRows.mp hfound).1
  rw [sessionStore_rows, List.mem_cons, List.mem_singleton] at hg
  rcases hg with rfl | rfl
  · exact absurd hbeside (by decide)
  · exact absurd (sessionRow_belongs "team-7") hout

/-- In a session with the id of the transport, a UUID, nothing is attached. -/
theorem nearby_not_attached :
    ¬ ∀ (model : SearchModel) (context : RecallContext) (store : Store) (caller : Caller) (params : RecallParams)
      (entry : RecallEntry) (f : Fragment), AllLabelled store → params.includeContext = true →
      entry ∈ returnedEntries (toolRecall model context store caller params) → f ∈ store.fragments.rows →
      f.id = entry.fragment.id → Attached store caller params f entry.nearby := by
  intro h
  obtain ⟨entry, hentry, hid, hnone⟩ : ∃ entry ∈ returnedEntries (toolRecall sampleModel sampleContext
      (sessionStore "3f2b8c1e-9d47-4c58-a1b2-7e6f5d4c3b2a") sessionCaller sessionRecall),
      (sessionRow "3f2b8c1e-9d47-4c58-a1b2-7e6f5d4c3b2a" "frag-01" 0).id = entry.fragment.id ∧ entry.nearby = [] := by
    decide +kernel
  have hattached := h sampleModel sampleContext _ sessionCaller sessionRecall entry _
    (sessionStore_labelled (by decide)) rfl hentry List.mem_cons_self hid
  refine hattached.given ?_ ⟨_, ?_, sessionRow_belongs _⟩ hnone
  · rw [soughtLabel, sessionRow, Option.getD_some, sourceRows_long (sessionStore_labelled (by decide)) (by decide)]
    exact Nat.zero_le 5
  · rw [sessionStore_rows]
    exact List.mem_cons_of_mem _ (List.mem_singleton.mpr rfl)

end FragmentMemory.NearbyContext
