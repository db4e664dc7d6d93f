import FragmentMemory.ReflectProcessor

/-! # The rows that a reflect adds

No statement of a batch, of a remember or of a link within a session rewrites the text, the type, the source or the
resolution of a row.  So a row after a reflect is one from before, or it carries these columns of an item of the reflect
or of its episode.
-/
namespace FragmentMemory.AddedRows
open ApiKeyStore FragmentTables FragmentFactory FragmentWriter FragmentIndex LinkStore CaseEventStore CaseHistory
  MemoryRememberer RememberLiveness RowPersistence BatchRememberProcessor EpisodeContinuityService SessionLinker
  ReflectProcessor UniqueIndexTable JsString

/-- The columns that a reflect writes once. -/
structure SameOrigin (f g : Fragment) : Prop where
  id : g.id = f.id
  content : g.content = f.content
  type : g.type = f.type
  source : g.source = f.source
  resolutionStatus : g.resolutionStatus = f.resolutionStatus

theorem SameOrigin.refl (f : Fragment) : SameOrigin f f := ⟨rfl, rfl, rfl, rfl, rfl⟩

theorem SameOrigin.trans {f g k : Fragment} (h : SameOrigin f g) (h' : SameOrigin g k) : SameOrigin f k where
  id := h'.id.trans h.id
  content := h'.content.trans h.content
  type := h'.type.trans h.type
  source := h'.source.trans h.source
  resolutionStatus := h'.resolutionStatus.trans h.resolutionStatus

theorem admits_sameOrigin : Admits SameOrigin where
  refl := SameOrigin.refl
  trans _ _ _ := SameOrigin.trans
  linked _ _ := ⟨rfl, rfl, rfl, rfl, rfl⟩
  accessed _ _ _ _ := ⟨rfl, rfl, rfl, rfl, rfl⟩
  asserted _ _ := ⟨rfl, rfl, rfl, rfl, rfl⟩
  cased _ _ := ⟨rfl, rfl, rfl, rfl, rfl⟩

theorem sameOrigin_promote (now : Time) (row f : Fragment) : SameOrigin f ((promote now row).set f) :=
  ⟨rfl, rfl, rfl, rfl, rfl⟩

/-- Every row afterwards goes back to one from before or to an added one. -/
def Adds (P : Fragment → Prop) (before after : Store) : Prop :=
  ∀ g ∈ after.fragments.rows, (∃ f ∈ before.fragments.rows, SameOrigin f g) ∨ ∃ f, P f ∧ SameOrigin f g

variable {P : Fragment → Prop}

namespace Adds

theorem of_rewrites {before after : Store} (h : Rewrites SameOrigin before after) : Adds P before after :=
  fun g hg => Or.inl (h.covers g hg)

theorem of_eq {before after : Store} (h : after.fragments = before.fragments) : Adds P before after :=
  of_rewrites (Rewrites.of_eq admits_sameOrigin h)

theorem trans {first second third : Store} (h : Adds P first second) (h' : Adds P second third) :
    Adds P first third := by
  intro g hg
  rcases h' g hg with ⟨f, hf, hsame⟩ | hadded
  · rcases h f hf with ⟨e, he, horigin⟩ | ⟨e, he, horigin⟩
    · exact Or.inl ⟨e, he, horigin.trans hsame⟩
    · exact Or.inr ⟨e, he, horigin.trans hsame⟩
  · exact Or.inr hadded

theorem mono {Q : Fragment → Prop} {before after : Store} (h : Adds P before after) (hPQ : ∀ f, P f → Q f) :
    Adds Q before after := by
  intro g hg
  rcases h g hg with hold | ⟨f, hf, hsame⟩
  · exact Or.inl hold
  · exact Or.inr ⟨f, hPQ f hf, hsame⟩

end Adds

/-- An upsert adds its row, or promotes the one that holds its hash. -/
theorem adds_upsertRow {now : Time} {store next : Store} {row : Fragment} {id : FragmentId} (hrow : P row)
    (h : upsertRow now store row = some (next, id)) : Adds P store next := by
  rcases upsertRow_cases h with ⟨held, -, -, -, -, rfl⟩ | ⟨-, -, fragments, hinsert, rfl⟩
  · exact Adds.of_rewrites (rewrites_updateFragments admits_sameOrigin fun f _ _ => sameOrigin_promote now row f)
  · intro g hg
    simp only [Table.rows_insert hinsert, List.mem_append, List.mem_singleton] at hg
    rcases hg with hold | rfl
    · exact Or.inl ⟨g, hold, SameOrigin.refl g⟩
    · exact Or.inr ⟨g, hrow, SameOrigin.refl g⟩

variable {settings : Settings} {draws : Draws}

/-- A remember that supersedes nothing adds the row of its fragment. -/
theorem adds_remember (store : Store) (params : RememberParams) (caller : Caller) (hnone : params.supersedes = []) :
    Adds (fun row => ∃ caseId f, buildFragment settings draws params caseId caller = .ok f ∧
      row = prepareInsertRow settings.digests draws.now f) store (remember settings draws store params caller).1 := by
  rcases remember_cases settings draws store params caller with
    ⟨accepted, indexSession, haccepted, hstored⟩ | ⟨-, hsame | ⟨found, hsearched⟩⟩
  · obtain ⟨caseId, hbuild, hinsert⟩ := acceptNew_spec haccepted
    have hassigned := @Adds.of_rewrites (fun row => ∃ caseId f,
      buildFragment settings draws params caseId caller = .ok f ∧
        row = prepareInsertRow settings.digests draws.now f) _ _
      (@rewrites_autoAssignCaseId _ draws admits_sameOrigin store params caller)
    have hinserted := hassigned.trans (adds_upsertRow ⟨caseId, accepted.fragment, hbuild, rfl⟩ hinsert)
    rw [hstored]
    refine hinserted.trans (Adds.of_rewrites (rewrites_finalizeRemember admits_sameOrigin _ _ indexSession caller params
      (fun oldId hold => ?_) fun _ g _ => ⟨rfl, rfl, rfl, rfl, rfl⟩))
    rw [hnone] at hold
    cases hold
  · rw [hsame]
    exact Adds.of_eq rfl
  · rw [hsearched]
    exact Adds.of_rewrites (rewrites_afterSearch admits_sameOrigin store found caller.keyId)

/-! ## A batch and the links within a session -/

variable {digests : Digests} {tools : TextTools} {context : BatchContext}

theorem adds_insertAll {items : List (ℕ × Fragment)} {store next : Store} {inserted : List (ℕ × Fragment × FragmentId)}
    (hitems : ∀ item ∈ items, P (insertRow context item.2)) (h : insertAll context store items = some (next, inserted)) :
    Adds P store next := by
  induction items generalizing store inserted with
  | nil =>
    cases h
    exact Adds.of_eq rfl
  | cons item later ih =>
    obtain ⟨position, f⟩ := item
    simp only [insertAll] at h
    split at h
    · cases h
    · rename_i middle id hupsert
      obtain ⟨⟨done, rest⟩, hlater, hresult⟩ := Option.map_eq_some_iff.mp h
      obtain rfl : done = next := (Prod.mk.inj hresult).1
      have hfirst : Adds P store middle := adds_upsertRow (hitems _ List.mem_cons_self) hupsert
      exact hfirst.trans (ih (fun other hother => hitems other (List.mem_cons_of_mem _ hother)) hlater)

/-- A batch adds the rows of its valid items. -/
theorem adds_process (store : Store) (items : List (Option BatchItem))
    (hitems : ∀ item ∈ validFragments digests tools context items, P (insertRow context item.2)) :
    Adds P store (process digests tools context store items).1 := by
  rcases @process_cases digests tools context store items with hsame | ⟨kept, next, inserted, results, hkept, hinsert, -, hstore⟩
  · rw [hsame]
    exact Adds.of_eq rfl
  · rw [hstore]
    have hinserted : Adds P store next := adds_insertAll (fun item hitem => hitems item (hkept item hitem)) hinsert
    exact hinserted.trans (Adds.of_eq (indexInserted_fragments next inserted results))

theorem fragments_insertLinks {pairs : List LinkPair} {store next : Store} (h : insertLinks store pairs = some next) :
    next.fragments = store.fragments := by
  induction pairs generalizing store with
  | nil =>
    cases h
    rfl
  | cons pair later ih =>
    simp only [insertLinks] at h
    split at h
    · obtain ⟨links, -, hnext⟩ := Option.bind_eq_some_iff.mp h
      have hlater := ih hnext
      exact hlater
    · cases h

theorem adds_autoLink (store : Store) (fragments : List SessionFragment) (callerKey : Option KeyId) :
    Adds P store (autoLinkSessionFragments tools store fragments callerKey).store := by
  have heach : ∀ pairs current, Adds P current (createEach current pairs) := by
    intro pairs
    induction pairs with
    | nil => exact fun current => Adds.of_eq rfl
    | cons pair later ih =>
      intro current
      have hfirst : Adds P current (tryLink current pair.fromId pair.toId pair.relationType 1) :=
        Adds.of_rewrites (rewrites_tryLink admits_sameOrigin current pair.fromId pair.toId pair.relationType 1)
      exact hfirst.trans (ih _)
  simp only [autoLinkSessionFragments]
  rcases hcreated : createLinks store (validPairs tools store fragments callerKey) with _ | next
  · exact heach _ store
  · simp only [createLinks] at hcreated
    split at hcreated
    · obtain ⟨inserted, hinserted, rfl⟩ := Option.map_eq_some_iff.mp hcreated
      have hlinks : Adds P store inserted := Adds.of_eq (fragments_insertLinks hinserted)
      refine (hlinks.trans (Adds.of_rewrites (rewrites_updateFragments admits_sameOrigin ?_))).trans
        (Adds.of_rewrites (rewrites_updateFragments admits_sameOrigin ?_))
      · exact fun f _ _ => ⟨rfl, rfl, rfl, rfl, rfl⟩
      · exact fun f _ _ => ⟨rfl, rfl, rfl, rfl, rfl⟩
    · cases hcreated

/-! ## A reflect -/

/-- The row of a fragment that a reflect hands to the batch, where its text is masked and cut once more. -/
structure BatchedFrom (tools : TextTools) (f row : Fragment) : Prop where
  content : row.content = storedContent tools (trim f.content) (some f.type)
  type : row.type = f.type
  source : row.source = truthy f.source
  resolutionStatus : row.resolutionStatus = f.resolutionStatus

theorem batchedFrom_of_mem {workspace : Option String} {fragments : List Fragment} {item : ℕ × Fragment}
    (h : item ∈ validFragments digests tools context (fragments.map fun f => some (batchItem workspace f))) :
    ∃ f ∈ fragments, BatchedFrom tools f (insertRow context item.2) := by
  obtain ⟨position, built⟩ := item
  obtain ⟨given, created, hgiven, hcreate, hbuilt⟩ := mem_validFragments h
  obtain ⟨f, hf, hitem⟩ := List.mem_map.mp hgiven
  cases hitem
  obtain ⟨htype, hsource, hresolution⟩ := create_columns hcreate
  have hcontent := create_content hcreate
  rw [hbuilt]
  refine ⟨f, hf, ⟨hcontent, htype, ?_, hresolution⟩⟩
  simp only [insertRow, hsource, batchItem, truthy_truthy]

theorem truthy_sourceOf (params : ReflectParams) : truthy (some (sourceOf params)) = some (sourceOf params) := by
  have hne : sourceOf params ≠ "" := by
    intro hempty
    have hlist := congrArg String.toList hempty
    rw [sourceOf, String.toList_append] at hlist
    exact absurd (List.append_eq_nil_iff.mp hlist).1 (by decide)
  simp [truthy, Option.filter_some, hne]

/-- A list that is made item by item has what is made of each item, and nothing else. -/
theorem mapM_ok_spec {ε α β : Type*} {make : α → Except ε β} {items : List α} {made : List β}
    (h : items.mapM make = .ok made) :
    (∀ b ∈ made, ∃ a ∈ items, make a = .ok b) ∧ ∀ a ∈ items, ∃ b ∈ made, make a = .ok b := by
  induction items generalizing made with
  | nil =>
    cases h
    exact ⟨nofun, nofun⟩
  | cons item later ih =>
    rw [List.mapM_cons] at h
    cases hmake : make item with
    | error reason =>
      rw [hmake] at h
      cases h
    | ok first =>
      rw [hmake] at h
      cases hlater : later.mapM make with
      | error reason =>
        rw [hlater] at h
        cases h
      | ok rest =>
        rw [hlater] at h
        cases h
        obtain ⟨hmade, hitems⟩ := ih hlater
        refine ⟨fun b hb => ?_, fun a ha => ?_⟩
        · rcases List.mem_cons.mp hb with rfl | hrest
          · exact ⟨item, List.mem_cons_self, hmake⟩
          · obtain ⟨a, ha, hab⟩ := hmade b hrest
            exact ⟨a, List.mem_cons_of_mem _ ha, hab⟩
        · rcases List.mem_cons.mp ha with rfl | hrest
          · exact ⟨first, List.mem_cons_self, hmake⟩
          · obtain ⟨b, hb, hab⟩ := hitems a hrest
            exact ⟨b, List.mem_cons_of_mem _ hb, hab⟩

/-- The fragments of a reflect are those of its items. -/
theorem reflectFragments_spec {draws : ReflectDraws} {params : ReflectParams} {fragments : List Fragment}
    (h : reflectFragments settings draws params = .ok fragments) :
    ∃ summary, (∀ f ∈ fragments, ∃ item ∈ allItems params summary, createItem settings draws item = .ok f) ∧
      ∀ item ∈ allItems params summary, ∃ f ∈ fragments, createItem settings draws item = .ok f := by
  simp only [reflectFragments] at h
  cases hsummary : summaryItems settings draws params with
  | error reason =>
    rw [hsummary] at h
    cases h
  | ok summary =>
    rw [hsummary] at h
    exact ⟨summary, mapM_ok_spec h⟩

theorem mem_allItems_source {params : ReflectParams} {summary : List String} {item : FragmentParams}
    (h : item ∈ allItems params summary) : item.source = some (sourceOf params) := by
  simp only [allItems, List.mem_append, List.mem_map] at h
  rcases h with (((⟨text, -, rfl⟩ | ⟨text, -, rfl⟩) | ⟨text, -, rfl⟩) | ⟨text, -, rfl⟩) | ⟨text, -, rfl⟩
  all_goals rfl

theorem fragments_linkEpisodeMilestone (state : Continuity) (params : MilestoneParams) :
    (linkEpisodeMilestone state params).store.fragments = state.store.fragments := by
  simp only [linkEpisodeMilestone]
  split
  · split
    · split
      · exact (eventsOnly_addEdge _ _).fragments
      · rfl
    · rfl
  · rfl

/-- What a reflect adds: the row of one of its fragments, or that of its episode. -/
structure ReflectRow (settings : Settings) (draws : ReflectDraws) (params : ReflectParams) (row : Fragment) : Prop where
  source : row.source = some (sourceOf params)
  resolution : row.resolutionStatus = none ∨ ∃ fragments, reflectFragments settings draws params = .ok fragments ∧
    ∃ f ∈ fragments, BatchedFrom settings.tools f row

theorem adds_storeFragments {draws : ReflectDraws} (store : Store) {params : ReflectParams} {fragments : List Fragment}
    (hfragments : reflectFragments settings draws params = .ok fragments) :
    Adds (ReflectRow settings draws params) store (storeFragments settings draws store params fragments).1 := by
  simp only [storeFragments]
  split
  · exact Adds.of_eq rfl
  · refine adds_process store _ fun item hitem => ?_
    obtain ⟨f, hf, hrow⟩ := batchedFrom_of_mem hitem
    obtain ⟨summary, hmade, -⟩ := reflectFragments_spec hfragments
    obtain ⟨entry, hentry, hcreated⟩ := hmade f hf
    have hsource : f.source = some (sourceOf params) := by
      rw [(create_columns hcreated).2.1, mem_allItems_source hentry, truthy_sourceOf]
    refine ⟨?_, Or.inr ⟨fragments, hfragments, f, hf, hrow⟩⟩
    rw [hrow.source, hsource, truthy_sourceOf]

theorem adds_rememberEpisode {draws : ReflectDraws} (store : Store) (params : ReflectParams)
    (fragments : List SessionFragment) :
    Adds (ReflectRow settings draws params) store (rememberEpisode settings draws store params fragments).1 := by
  simp only [rememberEpisode]
  split
  · exact Adds.of_eq rfl
  · refine (adds_remember store _ _ rfl).mono ?_
    rintro row ⟨caseId, f, hbuild, rfl⟩
    simp only [buildFragment] at hbuild
    cases hcreate : create settings.digests settings.tools draws.episode.newId draws.episode.now
        ((episodeParams params _ fragments).factoryParams caseId) with
    | error reason =>
      rw [hcreate] at hbuild
      cases hbuild
    | ok created =>
      rw [hcreate] at hbuild
      cases hbuild
      obtain ⟨-, hsource, hresolution⟩ := create_columns hcreate
      have hgiven : created.source = some (sourceOf params) := hsource.trans (truthy_sourceOf params)
      refine ⟨?_, Or.inl hresolution⟩
      simp only [prepareInsertRow, hgiven, truthy_sourceOf]

/-- A reflect adds the rows of its fragments and of its episode. -/
theorem adds_reflect {draws : ReflectDraws} (state : ReflectState) (request : ReflectParams) :
    Adds (ReflectRow settings draws (completed state request)) state.continuity.store
      (reflect settings draws state request).1.continuity.store := by
  simp only [reflect]
  split
  · exact Adds.of_eq rfl
  · rename_i fragments hfragments
    have hstored := @adds_storeFragments settings draws state.continuity.store _ fragments hfragments
    split
    · exact hstored
    · rename_i stored hok
      have hlinked := hstored.trans (@adds_autoLink _ settings.tools _ stored (completed state request).keyId)
      have hepisode := hlinked.trans (@adds_rememberEpisode settings draws _ (completed state request) stored)
      split
      · exact hepisode
      · refine hepisode.trans (Adds.of_eq ?_)
        simp only [milestone]
        split
        · rfl
        · exact fragments_linkEpisodeMilestone _ _

end FragmentMemory.AddedRows
