import FragmentMemory.InterleavedRuns
import FragmentMemory.StageSelection
import Mathlib.Data.Finset.Card

/-! # Concurrent runs of the duplicate gate

The `embedding_ready` events of one batch start a run of `linkFragment` each, and nobody awaits them.
Here a run is cut into its SQL statements, each with the rows that the run has read before it.
-/
namespace FragmentMemory.DedupGate
open ApiKeyStore FragmentTables FragmentReader FragmentWriter LinkStore MemoryRememberer PairSteps TransitionRuns
  InterleavedRuns GraphLinker RememberLiveness RowPersistence RowStanding PairPersistence StageSelection ContentUniqueness

/-- What is left of a run of `linkFragment`, by its next statement. -/
inductive LinkRun
  | selectFragment (id : FragmentId)
  | selectDuplicate (f : Fragment)
  | expireNew (f existing : Fragment)
  | touchExisting (existing : Fragment)
  | selectCandidates (f : Fragment)
  | insertLink (f existing : Fragment) (later : List Fragment)
  | appendFrom (f existing : Fragment) (later : List Fragment)
  | appendTo (f existing : Fragment) (later : List Fragment)
  | expireOld (f existing : Fragment) (later : List Fragment)
  | finished
  deriving DecidableEq

/-- The `INSERT` of `createLink`, none when a foreign key is violated. -/
def insertLinkRow (store : Store) (fromId toId : FragmentId) (relationType : RelationType) (weight : ℚ) :
    Option Store :=
  if (store.fragments.byId fromId).isSome && (store.fragments.byId toId).isSome then
    let row := { fromId := fromId, toId := toId, relationType := relationType, weight := weight }
    (store.links.upsert (fromId, toId) row (renewLink relationType weight) (renewLink_entries relationType weight)).map fun links =>
      { store with links := links }
  else none

def nextCandidate (f : Fragment) : List Fragment → LinkRun
  | [] => .finished
  | existing :: later => .insertLink f existing later

variable (embeddings : Embeddings) (keyId : Option KeyId) (groupKeyIds : List KeyId)

/-- One statement of `linkFragment`. -/
def advance (now : Time) (store : Store) : LinkRun → Store × LinkRun
  | .selectFragment id =>
    match (store.fragments.byId id).filter fun f => embeddings.embedded f.id with
    | none => (store, .finished)
    | some f => (store, .selectDuplicate f)
  | .selectDuplicate f =>
    match (nearestDuplicate embeddings store keyId groupKeyIds f).filter
        fun g => 95 / 100 ≤ embeddings.similarity f.id g.id with
    | some existing => (store, .expireNew f existing)
    | none => (store, .selectCandidates f)
  | .expireNew f existing => (expireRow now store f.id, .touchExisting existing)
  | .touchExisting existing =>
    (store.updateFragments (fun g => g.id = existing.id) incrementAccessCount, .finished)
  | .selectCandidates f => (store, nextCandidate f (linkCandidates embeddings store keyId groupKeyIds f))
  | .insertLink f existing later =>
    match insertLinkRow store existing.id f.id (relationOf embeddings f existing) 1 with
    | none => (store, nextCandidate f later)
    | some linked => (linked, .appendFrom f existing later)
  | .appendFrom f existing later => (linkArray store existing.id f.id, .appendTo f existing later)
  | .appendTo f existing later =>
    (linkArray store f.id existing.id,
      if relationOf embeddings f existing = .supersededBy then .expireOld f existing later else nextCandidate f later)
  | .expireOld f existing later => (expireRow now store existing.id, nextCandidate f later)
  | .finished => (store, .finished)

/-- One run for each of the given fragments. -/
def startRuns (store : Store) (ids : List FragmentId) : Pool Store LinkRun where
  shared := store
  threads := ids.map .selectFragment

/-- The runs over the store, a statement of one of them after the other. -/
def runLinks : Pool Store LinkRun → List (ℕ × Time) → Pool Store LinkRun :=
  run (Pool.step (advance embeddings keyId groupKeyIds))

theorem createLink_eq_insertLinkRow (store : Store) (fromId toId : FragmentId) (relationType : RelationType)
    (weight : ℚ) : createLink store fromId toId relationType weight =
      (insertLinkRow store fromId toId relationType weight).map fun linked =>
        linkArray (linkArray linked fromId toId) toId fromId := by
  simp only [createLink, insertLinkRow]
  split
  · rw [Option.map_map]
    rfl
  · rfl

variable {embeddings keyId groupKeyIds}

/-- A run that takes all its steps without another in between ends with the given store. -/
def EndsAlone (embeddings : Embeddings) (keyId : Option KeyId) (groupKeyIds : List KeyId) (now : Time) (store : Store)
    (thread : LinkRun) (last : Store) : Prop :=
  ∃ n, runLinks embeddings keyId groupKeyIds ⟨store, [thread]⟩ (List.replicate n (0, now)) = ⟨last, [.finished]⟩

theorem endsAlone_finished (now : Time) (store : Store) :
    EndsAlone embeddings keyId groupKeyIds now store .finished store := ⟨0, rfl⟩

theorem endsAlone_next {now : Time} {store last : Store} {thread : LinkRun}
    (h : EndsAlone embeddings keyId groupKeyIds now (advance embeddings keyId groupKeyIds now store thread).1
      (advance embeddings keyId groupKeyIds now store thread).2 last) :
    EndsAlone embeddings keyId groupKeyIds now store thread last := by
  obtain ⟨n, hn⟩ := h
  exact ⟨n + 1, hn⟩

/-- The candidates of a run, treated one after the other. -/
theorem endsAlone_candidates (settings : Settings) (now : Time) (f : Fragment) (candidates : List Fragment)
    (store : Store) : EndsAlone embeddings keyId groupKeyIds now store (nextCandidate f candidates)
      (run (pairStep settings) store (candidates.map fun g => .relate now f g (relationOf embeddings f g))) := by
  induction candidates generalizing store with
  | nil => exact endsAlone_finished now store
  | cons existing later ih =>
    rw [List.map_cons, run_cons]
    apply endsAlone_next
    simp only [pairStep, relateCandidate, createLink_eq_insertLinkRow, advance, nextCandidate]
    rcases hinsert : insertLinkRow store existing.id f.id (relationOf embeddings f existing) 1 with _ | linked
    · exact ih store
    · apply endsAlone_next
      apply endsAlone_next
      simp only [advance, Option.map_some]
      by_cases hrelation : relationOf embeddings f existing = .supersededBy
      · rw [if_pos hrelation, if_pos hrelation]
        apply endsAlone_next
        exact ih _
      · rw [if_neg hrelation, if_neg hrelation]
        exact ih _

/-- Without another run in between the statements amount to `linkFragment`. -/
theorem endsAlone_linkFragment (settings : Settings) (now : Time) (store : Store) (id : FragmentId) :
    EndsAlone embeddings keyId groupKeyIds now store (.selectFragment id)
      (run (pairStep settings) store (linkFragment embeddings now store id keyId groupKeyIds)) := by
  have hgate : ∀ f, EndsAlone embeddings keyId groupKeyIds now store (.selectDuplicate f)
      (run (pairStep settings) store (match (nearestDuplicate embeddings store keyId groupKeyIds f).filter
          fun g => 95 / 100 ≤ embeddings.similarity f.id g.id with
        | some existing => [.duplicate now f existing]
        | none => (linkCandidates embeddings store keyId groupKeyIds f).map fun g =>
            .relate now f g (relationOf embeddings f g))) := by
    intro f
    apply endsAlone_next
    simp only [advance]
    cases (nearestDuplicate embeddings store keyId groupKeyIds f).filter
        fun g => 95 / 100 ≤ embeddings.similarity f.id g.id with
    | none =>
      apply endsAlone_next
      exact endsAlone_candidates settings now f _ store
    | some existing =>
      apply endsAlone_next
      apply endsAlone_next
      exact endsAlone_finished now _
  apply endsAlone_next
  simp only [advance, linkFragment]
  cases (store.fragments.byId id).filter fun f => embeddings.embedded f.id with
  | none => exact endsAlone_finished now store
  | some f => exact hgate f

/-- The rows whose validity the next statement of a run ends. -/
def expiring : LinkRun → List FragmentId
  | .expireNew f _ => [f.id]
  | .expireOld _ existing _ => [existing.id]
  | _ => []

theorem insertLinkRow_fragments {store linked : Store} {fromId toId : FragmentId} {relationType : RelationType}
    {weight : ℚ} (h : insertLinkRow store fromId toId relationType weight = some linked) :
    linked.fragments = store.fragments := by
  simp only [insertLinkRow] at h
  split at h
  · obtain ⟨links, -, rfl⟩ := Option.map_eq_some_iff.mp h
    rfl
  · cases h

/-- A statement rewrites the rows, if the relation bears the end of those it expires. -/
theorem rewrites_advance {R : Fragment → Fragment → Prop} (hR : Admits R) (now : Time) (store : Store)
    (thread : LinkRun) (hend : BearsEnd R (expiring thread)) :
    Rewrites R store (advance embeddings keyId groupKeyIds now store thread).1 := by
  cases thread with
  | selectFragment id =>
    simp only [advance]
    cases (store.fragments.byId id).filter fun f => embeddings.embedded f.id with
    | none => exact Rewrites.of_eq hR rfl
    | some f => exact Rewrites.of_eq hR rfl
  | selectDuplicate f =>
    simp only [advance]
    cases (nearestDuplicate embeddings store keyId groupKeyIds f).filter
        fun g => 95 / 100 ≤ embeddings.similarity f.id g.id with
    | none => exact Rewrites.of_eq hR rfl
    | some existing => exact Rewrites.of_eq hR rfl
  | expireNew f existing => exact rewrites_expireRow hR hend List.mem_cons_self
  | touchExisting existing =>
    exact rewrites_updateFragments hR fun f _ _ => hR.accessed f (f.accessCount + 1) f.accessedAt f.emaActivation
  | selectCandidates f => exact Rewrites.of_eq hR rfl
  | insertLink f existing later =>
    simp only [advance]
    rcases hinsert : insertLinkRow store existing.id f.id (relationOf embeddings f existing) 1 with _ | linked
    · exact Rewrites.of_eq hR rfl
    · exact Rewrites.of_eq hR (insertLinkRow_fragments hinsert)
  | appendFrom f existing later => exact rewrites_updateFragments hR fun g _ _ => hR.linked g _
  | appendTo f existing later => exact rewrites_updateFragments hR fun g _ _ => hR.linked g _
  | expireOld f existing later => exact rewrites_expireRow hR hend List.mem_cons_self
  | finished => exact Rewrites.of_eq hR rfl

theorem descends_advance (now : Time) (store : Store) (thread : LinkRun) :
    Rewrites Descends store (advance embeddings keyId groupKeyIds now store thread).1 :=
  rewrites_advance admits_descends now store thread
    fun _ _ hlive _ _ => ⟨rfl, rfl, rfl, rfl, rfl, rfl, fun _ => hlive⟩

/-- No statement revives a row. -/
theorem not_liveRow_advance {now : Time} {store : Store} {thread : LinkRun} {id : FragmentId}
    (h : ¬ LiveRow store id) : ¬ LiveRow (advance embeddings keyId groupKeyIds now store thread).1 id := by
  rintro ⟨g, hg, hid, hlive⟩
  obtain ⟨f, hf, hfg⟩ := (descends_advance now store thread).covers g hg
  exact h ⟨f, hf, hfg.id.symm.trans hid, hfg.live hlive⟩

/-- A live row stays live through a statement that does not expire it. -/
theorem liveRow_advance {now : Time} {store : Store} {thread : LinkRun} {id : FragmentId} (h : LiveRow store id)
    (hid : id ∉ expiring thread) : LiveRow (advance embeddings keyId groupKeyIds now store thread).1 id := by
  have hadmits : Admits (Follows id fun f => f.live = true) :=
    admits_follows (fun _ _ h => h) (fun _ _ _ _ h => h) (fun _ _ h => h) (fun _ _ h => h)
  have hkeeps := @rewrites_advance embeddings keyId groupKeyIds _ hadmits now store thread fun f hf _ _ _ =>
    ⟨rfl, fun hsame => absurd (hsame ▸ hf) hid⟩
  obtain ⟨f, hf, hfid, hlive⟩ := h
  exact Persists.follow hkeeps.persists hf hfid hlive

/-- No live row of the topic reaches the threshold of the gate, when the most similar one does not. -/
theorem similarity_lt_of_nearestDuplicate {store : Store} {f g : Fragment}
    (h : (nearestDuplicate embeddings store keyId groupKeyIds f).filter
      (fun g => 95 / 100 ≤ embeddings.similarity f.id g.id) = none)
    (hg : g ∈ store.fragments.rows) (htopic : sameTopic embeddings keyId groupKeyIds f g = true) (hlive : g.live = true) :
    embeddings.similarity f.id g.id < 95 / 100 := by
  by_contra hnot
  have hsimilar := le_of_not_gt hnot
  have hfound : g ∈ bySimilarity embeddings f (store.fragments.rows.filter fun g =>
      sameTopic embeddings keyId groupKeyIds f g && g.live && 90 / 100 ≤ embeddings.similarity f.id g.id) := by
    refine (List.mem_insertionSort _).mpr (List.mem_filter.mpr ⟨hg, ?_⟩)
    have hgate : (90 / 100 : ℚ) ≤ embeddings.similarity f.id g.id := le_trans (by norm_num) hsimilar
    simp only [htopic, hlive, hgate, decide_true, Bool.and_self]
  have hsorted : (bySimilarity embeddings f (store.fragments.rows.filter fun g =>
      sameTopic embeddings keyId groupKeyIds f g && g.live && 90 / 100 ≤ embeddings.similarity f.id g.id)).Pairwise
        fun g h => embeddings.similarity f.id h.id ≤ embeddings.similarity f.id g.id := by
    have htotal : Std.Total fun g h : Fragment => embeddings.similarity f.id h.id ≤ embeddings.similarity f.id g.id :=
      ⟨fun g h => le_total _ _⟩
    have htrans : IsTrans Fragment fun g h => embeddings.similarity f.id h.id ≤ embeddings.similarity f.id g.id :=
      ⟨fun _ _ _ hab hbc => le_trans hbc hab⟩
    exact List.pairwise_insertionSort _ _
  rw [nearestDuplicate] at h
  generalize bySimilarity embeddings f _ = found at h hfound hsorted
  cases found with
  | nil => exact absurd hfound List.not_mem_nil
  | cons nearest later =>
    have hnearest : embeddings.similarity f.id g.id ≤ embeddings.similarity f.id nearest.id := by
      rcases List.mem_cons.mp hfound with rfl | hlater
      · exact le_refl _
      · exact (List.pairwise_cons.mp hsorted).1 g hlater
    rw [List.head?_cons, Option.filter_some, if_pos (decide_eq_true (hsimilar.trans hnearest))] at h
    cases h

/-- Two or more live fragments of one topic and key, each pair of which the gate takes for duplicates. -/
structure NearDuplicates (embeddings : Embeddings) (store : Store) (members : Finset FragmentId) : Prop where
  two : 1 < members.card
  live : ∀ id ∈ members, LiveRow store id ∧ embeddings.embedded id = true
  together : ∀ f ∈ store.fragments.rows, ∀ g ∈ store.fragments.rows, f.id ∈ members → g.id ∈ members →
    f.topic = g.topic ∧ f.keyId = g.keyId
  similar : ∀ x ∈ members, ∀ y ∈ members, x ≠ y → 95 / 100 ≤ embeddings.similarity x y

def LiveMember (members : Finset FragmentId) (store : Store) : Prop := ∃ id ∈ members, LiveRow store id

/-- The next statement of the run is the `UPDATE` that expires the fragment of the run. -/
def ExpiresNew (id : FragmentId) (_ : Time) (_ : Store) (thread : LinkRun) : Prop :=
  ∃ existing f, thread = .expireNew f existing ∧ f.id = id

/-- When a run expires its live fragment, the duplicate that it selected is a live member of the set. -/
def DuplicateHeld (members : Finset FragmentId) (_ : Time) (store : Store) (thread : LinkRun) : Prop :=
  ∀ f existing, thread = .expireNew f existing → LiveRow store f.id → existing.id ∈ members ∧ LiveRow store existing.id

theorem duplicateHeld_expireNew {members : Finset FragmentId} {now : Time} {store : Store} {f existing : Fragment} :
    DuplicateHeld members now store (.expireNew f existing) ↔
      (LiveRow store f.id → existing.id ∈ members ∧ LiveRow store existing.id) := by
  constructor
  · intro h
    exact h f existing rfl
  · rintro h _ _ ⟨⟩
    exact h

instance (members : Finset FragmentId) (now : Time) (store : Store) (thread : LinkRun) :
    Decidable (DuplicateHeld members now store thread) :=
  match thread with
  | .expireNew _ _ => decidable_of_iff' _ duplicateHeld_expireNew
  | .selectFragment _ | .selectDuplicate _ | .touchExisting _ | .selectCandidates _ | .insertLink _ _ _
  | .appendFrom _ _ _ | .appendTo _ _ _ | .expireOld _ _ _ | .finished => isTrue fun _ _ h => LinkRun.noConfusion h

/-- The candidates that belong to the set have expired. -/
def SpentCandidates (members : Finset FragmentId) (store : Store) (candidates : List Fragment) : Prop :=
  ∀ g ∈ candidates, g.id ∈ members → ¬ LiveRow store g.id

/-- What a run on a member knows by its next statement: it goes on to the candidates only after every
other member in its scope has expired. -/
def Sound (embeddings : Embeddings) (keyId : Option KeyId) (groupKeyIds : List KeyId) (members : Finset FragmentId)
    (store : Store) : LinkRun → Prop
  | .selectFragment id => id ∈ members
  | .selectDuplicate f => f.id ∈ members
  | .expireNew f existing => f.id ∈ members ∧ existing.id ≠ f.id
  | .touchExisting _ => True
  | .selectCandidates f => ∀ g ∈ store.fragments.rows, sameTopic embeddings keyId groupKeyIds f g = true →
      g.id ∈ members → ¬ LiveRow store g.id
  | .insertLink _ existing later => SpentCandidates members store (existing :: later)
  | .appendFrom _ existing later => SpentCandidates members store (existing :: later)
  | .appendTo _ existing later => SpentCandidates members store (existing :: later)
  | .expireOld _ existing later => SpentCandidates members store (existing :: later)
  | .finished => True

theorem SpentCandidates.advance {members : Finset FragmentId} {store : Store} {candidates : List Fragment}
    (h : SpentCandidates members store candidates) (now : Time) (thread : LinkRun) :
    SpentCandidates members (advance embeddings keyId groupKeyIds now store thread).1 candidates :=
  fun g hg hmember => not_liveRow_advance (h g hg hmember)

theorem sound_nextCandidate {members : Finset FragmentId} {store : Store} {f : Fragment} {candidates : List Fragment}
    (h : SpentCandidates members store candidates) :
    Sound embeddings keyId groupKeyIds members store (nextCandidate f candidates) := by
  cases candidates with
  | nil => trivial
  | cons existing later => exact h

/-- What a run knows, the statements of the others leave true. -/
theorem sound_other {members : Finset FragmentId} {store : Store} (now : Time) (thread other : LinkRun)
    (h : Sound embeddings keyId groupKeyIds members store other) :
    Sound embeddings keyId groupKeyIds members (advance embeddings keyId groupKeyIds now store thread).1 other := by
  cases other with
  | selectFragment id => exact h
  | selectDuplicate f => exact h
  | expireNew f existing => exact h
  | touchExisting existing => trivial
  | selectCandidates f =>
    intro g' hg' htopic hmember
    obtain ⟨g, hg, hdescends⟩ := (descends_advance now store thread).covers g' hg'
    rw [hdescends.id] at hmember ⊢
    apply not_liveRow_advance
    refine h g hg ?_ hmember
    simpa only [sameTopic, keyScope, hdescends.id, hdescends.topic, hdescends.keyId] using htopic
  | insertLink f existing later => exact SpentCandidates.advance h now thread
  | appendFrom f existing later => exact SpentCandidates.advance h now thread
  | appendTo f existing later => exact SpentCandidates.advance h now thread
  | expireOld f existing later => exact SpentCandidates.advance h now thread
  | finished => trivial

/-- What a run knows after its own statement. -/
theorem sound_own {members : Finset FragmentId} {store : Store} (now : Time) (thread : LinkRun)
    (hsimilar : ∀ x ∈ members, ∀ y ∈ members, x ≠ y → 95 / 100 ≤ embeddings.similarity x y)
    (h : Sound embeddings keyId groupKeyIds members store thread) :
    Sound embeddings keyId groupKeyIds members (advance embeddings keyId groupKeyIds now store thread).1
      (advance embeddings keyId groupKeyIds now store thread).2 := by
  cases thread with
  | selectFragment id =>
    rcases hfound : (store.fragments.byId id).filter fun f => embeddings.embedded f.id with _ | f
    · simp only [advance, hfound]
      trivial
    · simp only [advance, hfound]
      have hid := ((byId_eq_some_iff store.fragments).mp (Option.filter_eq_some_iff.mp hfound).1).2
      rw [← hid] at h
      exact h
  | selectDuplicate f =>
    rcases hfound : (nearestDuplicate embeddings store keyId groupKeyIds f).filter
        fun g => 95 / 100 ≤ embeddings.similarity f.id g.id with _ | existing
    · simp only [advance, hfound]
      intro g hg htopic hmember
      rintro ⟨row, hrow, hid, hlive⟩
      rw [eq_of_id _ hrow hg hid] at hlive
      have hne : f.id ≠ g.id := by
        intro hsame
        simp only [sameTopic, hsame, ne_eq, not_true_eq_false, decide_false, Bool.false_and] at htopic
        cases htopic
      have hlow := similarity_lt_of_nearestDuplicate hfound hg htopic hlive
      exact absurd (hsimilar f.id h g.id hmember hne) (not_le_of_gt hlow)
    · simp only [advance, hfound]
      refine ⟨h, ?_⟩
      have hnearest := List.mem_of_head? (Option.filter_eq_some_iff.mp hfound).1
      have hcond := (List.mem_filter.mp ((List.mem_insertionSort _).mp hnearest)).2
      simp only [sameTopic, Bool.and_eq_true, decide_eq_true_eq] at hcond
      exact hcond.1.1.1.1.1
  | expireNew f existing => trivial
  | touchExisting existing => trivial
  | selectCandidates f =>
    apply sound_nextCandidate
    intro g hg
    obtain ⟨hrow, hcond⟩ := List.mem_filter.mp ((List.mem_insertionSort _).mp (List.mem_of_mem_take hg))
    simp only [Bool.and_eq_true] at hcond
    exact h g hrow hcond.1
  | insertLink f existing later =>
    rcases hinsert : insertLinkRow store existing.id f.id (relationOf embeddings f existing) 1 with _ | linked
    · simp only [advance, hinsert]
      exact sound_nextCandidate fun g hg => h g (List.mem_cons_of_mem _ hg)
    · simp only [advance, hinsert]
      intro g hg hmember
      rw [LiveRow, insertLinkRow_fragments hinsert]
      exact h g hg hmember
  | appendFrom f existing later => exact SpentCandidates.advance h now (.appendFrom f existing later)
  | appendTo f existing later =>
    have hspent : SpentCandidates members
        (advance embeddings keyId groupKeyIds now store (.appendTo f existing later)).1 (existing :: later) :=
      SpentCandidates.advance h now _
    by_cases hrelation : relationOf embeddings f existing = .supersededBy
    · simp only [advance, if_pos hrelation]
      exact hspent
    · simp only [advance, if_neg hrelation]
      exact sound_nextCandidate fun g hg => hspent g (List.mem_cons_of_mem _ hg)
  | expireOld f existing later =>
    have hspent : SpentCandidates members
        (advance embeddings keyId groupKeyIds now store (.expireOld f existing later)).1 (existing :: later) :=
      SpentCandidates.advance h now _
    exact sound_nextCandidate fun g hg => hspent g (List.mem_cons_of_mem _ hg)
  | finished => trivial

/-- A statement that does not expire the last member leaves one of them live. -/
theorem liveMember_advance {members : Finset FragmentId} {store : Store} (now : Time) {thread : LinkRun}
    (hlive : LiveMember members store) (hsound : Sound embeddings keyId groupKeyIds members store thread)
    (hheld : DuplicateHeld members now store thread) :
    LiveMember members (advance embeddings keyId groupKeyIds now store thread).1 := by
  obtain ⟨id, hmember, hrow⟩ := hlive
  by_cases hexpired : id ∈ expiring thread
  · cases thread with
    | expireNew f existing =>
      have hid : id = f.id := List.mem_singleton.mp hexpired
      obtain ⟨hexisting, hexistingLive⟩ := hheld f existing rfl (hid ▸ hrow)
      have hne : existing.id ∉ expiring (.expireNew f existing) := fun h => hsound.2 (List.mem_singleton.mp h)
      exact ⟨existing.id, hexisting, liveRow_advance hexistingLive hne⟩
    | expireOld f existing later =>
      have hid : id = existing.id := List.mem_singleton.mp hexpired
      exact absurd (hid ▸ hrow) (hsound existing List.mem_cons_self (hid ▸ hmember))
    | _ => exact absurd hexpired List.not_mem_nil
  · exact ⟨id, hmember, liveRow_advance hrow hexpired⟩

/-- A live member stays live until its own run expires it. -/
theorem liveRow_unless_expiresNew {members : Finset FragmentId} {store : Store} (now : Time) {thread : LinkRun}
    {id : FragmentId} (hmember : id ∈ members) (hrow : LiveRow store id)
    (hsound : Sound embeddings keyId groupKeyIds members store thread) (hnot : ¬ ExpiresNew id now store thread) :
    LiveRow (advance embeddings keyId groupKeyIds now store thread).1 id := by
  apply liveRow_advance hrow
  intro hexpired
  cases thread with
  | expireNew f existing => exact hnot ⟨existing, f, rfl, (List.mem_singleton.mp hexpired).symm⟩
  | expireOld f existing later =>
    have hid : id = existing.id := List.mem_singleton.mp hexpired
    exact hsound existing List.mem_cons_self (hid ▸ hmember) (hid ▸ hrow)
  | _ => exact absurd hexpired List.not_mem_nil

theorem not_liveRow_expireRow (now : Time) (store : Store) (id : FragmentId) :
    ¬ LiveRow (expireRow now store id) id := by
  rintro ⟨g, hg, hid, hlive⟩
  obtain ⟨f, hf, rfl⟩ := (mem_updateFragments_iff store).mp hg
  split at hlive
  · cases hlive
  · rename_i hcond
    have hkept : f.id = id := by
      rw [if_neg hcond] at hid
      exact hid
    simp only [hkept, hlive, decide_true, Bool.and_self, not_true_eq_false] at hcond

/-- The runs start on members, whatever the scope of their queries. -/
theorem holds_startRuns {members : Finset FragmentId} {store : Store} {ids : List FragmentId}
    (hids : ∀ id ∈ ids, id ∈ members) {invariant : Store → Prop} (hstart : invariant store) :
    (startRuns store ids).Holds invariant (Sound embeddings keyId groupKeyIds members) := by
  refine ⟨hstart, fun thread hthread => ?_⟩
  obtain ⟨id, hid, rfl⟩ := List.mem_map.mp hthread
  exact hids id hid

/-- However the runs on the members are interleaved, a member stays live as long as every run that
expires its live fragment finds the selected duplicate still a live member.  Over a whole schedule a
member is live exactly when one of them is never expired by its own runs. -/
theorem gate_keeps_member {members : Finset FragmentId} {store : Store} (hset : NearDuplicates embeddings store members)
    {ids : List FragmentId} (hids : ∀ id ∈ ids, id ∈ members) (schedule : List (ℕ × Time)) :
    (StepsMeet (Pool.step (advance embeddings keyId groupKeyIds)) (ActsOnly (DuplicateHeld members))
        (startRuns store ids) schedule →
      LiveMember members (runLinks embeddings keyId groupKeyIds (startRuns store ids) schedule).shared) ∧
    (LiveMember members (runLinks embeddings keyId groupKeyIds (startRuns store ids) schedule).shared ↔
      ∃ id ∈ members, ¬ Happens (Pool.step (advance embeddings keyId groupKeyIds)) (Acts (ExpiresNew id))
        (startRuns store ids) schedule) := by
  refine ⟨fun hmeet => ?_, fun ⟨id, hmember, hrow⟩ => ⟨id, hmember, fun hexpired => ?_⟩, fun ⟨id, hmember, hnever⟩ => ?_⟩
  · have hstart : LiveMember members store := by
      obtain ⟨id, hmember⟩ := Finset.card_pos.mp (Nat.zero_lt_of_lt hset.two)
      exact ⟨id, hmember, (hset.live id hmember).1⟩
    have hown : ∀ now store thread, LiveMember members store → Sound embeddings keyId groupKeyIds members store thread →
        DuplicateHeld members now store thread →
        LiveMember members (advance embeddings keyId groupKeyIds now store thread).1 ∧
          Sound embeddings keyId groupKeyIds members (advance embeddings keyId groupKeyIds now store thread).1
            (advance embeddings keyId groupKeyIds now store thread).2 :=
      fun now _ thread hlive hsound hheld =>
        ⟨liveMember_advance now hlive hsound hheld, sound_own now thread hset.similar hsound⟩
    exact (Pool.holds_run hown (fun now _ thread other _ _ _ h => sound_other now thread other h)
      (holds_startRuns hids hstart) hmeet).shared
  · have hset' : ∀ (pool : Pool Store LinkRun) event, Acts (ExpiresNew id) pool event →
        ¬ LiveRow (pool.step (advance embeddings keyId groupKeyIds) event).shared id := by
      rintro pool event ⟨thread, hthread, existing, f, rfl, rfl⟩
      rcases Pool.step_cases (advance embeddings keyId groupKeyIds) pool event with ⟨hnone, -⟩ |
        ⟨other, hother, -, hshared, -⟩
      · rw [hthread] at hnone
        cases hnone
      · rw [hthread] at hother
        cases hother
        rw [hshared]
        exact not_liveRow_expireRow event.2 pool.shared f.id
    have hkeep : ∀ (pool : Pool Store LinkRun) event, ¬ LiveRow pool.shared id →
        ¬ LiveRow (pool.step (advance embeddings keyId groupKeyIds) event).shared id :=
      Pool.shared_step (I := fun store => ¬ LiveRow store id) fun _ _ _ h => not_liveRow_advance h
    exact established_of_happens hset' hkeep hexpired hrow
  · have hown : ∀ now store thread, LiveRow store id → Sound embeddings keyId groupKeyIds members store thread →
        ¬ ExpiresNew id now store thread →
        LiveRow (advance embeddings keyId groupKeyIds now store thread).1 id ∧
          Sound embeddings keyId groupKeyIds members (advance embeddings keyId groupKeyIds now store thread).1
            (advance embeddings keyId groupKeyIds now store thread).2 :=
      fun now _ thread hrow hsound hno =>
        ⟨liveRow_unless_expiresNew now hmember hrow hsound hno, sound_own now thread hset.similar hsound⟩
    have hstart : (startRuns store ids).Holds (fun store => LiveRow store id)
        (Sound embeddings keyId groupKeyIds members) := holds_startRuns hids (hset.live id hmember).1
    have hnone := stepsMeet_of_not_happens hnever
    have hmeet := hnone.mono fun pool event hnot thread hthread hexpires => hnot ⟨thread, hthread, hexpires⟩
    exact ⟨id, hmember, (Pool.holds_run hown (fun now _ thread other _ _ _ h => sound_other now thread other h) hstart
      hmeet).shared⟩

/-- Two fragments of one topic and key, embedded in one batch. -/
def batchRows : Store :=
  let first := (remember sampleSettings (sampleDraws 1 "frag-01") {} (sampleParams sampleContent []) sampleCaller).1
  (remember sampleSettings (sampleDraws 2 "frag-02") first (sampleParams replacementContent []) sampleCaller).1

def closeEmbeddings : Embeddings where
  embedded _ := true
  similarity _ _ := 97 / 100

theorem nearDuplicates_batchRows : NearDuplicates closeEmbeddings batchRows {"frag-01", "frag-02"} where
  two := by decide
  live := by decide +kernel
  together := by decide +kernel
  similar _ _ _ _ _ := by norm_num [closeEmbeddings]

/-- One run after the other. -/
def oneByOne : List (ℕ × Time) := List.replicate 4 (0, 9) ++ List.replicate 7 (1, 9)

/-- The second of two runs that follow each other keeps its fragment. -/
theorem gate_keeps_member_oneByOne :
    LiveMember {"frag-01", "frag-02"}
      (runLinks closeEmbeddings none [] (startRuns batchRows ["frag-01", "frag-02"]) oneByOne).shared := by
  have hheld : StepsMeet (Pool.step (advance closeEmbeddings none [])) (ActsOnly (DuplicateHeld {"frag-01", "frag-02"}))
      (startRuns batchRows ["frag-01", "frag-02"]) oneByOne := by decide +kernel
  exact (gate_keeps_member nearDuplicates_batchRows (by decide) oneByOne).1 hheld

/-- The two runs statement by statement in turn. -/
def inTurn : List (ℕ × Time) := (List.replicate 4 [(0, 9), (1, 9)]).flatten

/-- Each run selects the other's fragment as the duplicate and expires its own. -/
theorem gate_expires_both :
    NearDuplicates closeEmbeddings batchRows {"frag-01", "frag-02"} ∧
    (runLinks closeEmbeddings none [] (startRuns batchRows ["frag-01", "frag-02"]) inTurn).threads =
      [.finished, .finished] ∧
    ¬ LiveMember {"frag-01", "frag-02"}
      (runLinks closeEmbeddings none [] (startRuns batchRows ["frag-01", "frag-02"]) inTurn).shared := by
  have hnone : ∀ id ∈ ({"frag-01", "frag-02"} : Finset FragmentId),
      ¬ LiveRow (runLinks closeEmbeddings none [] (startRuns batchRows ["frag-01", "frag-02"]) inTurn).shared id := by
    decide +kernel
  exact ⟨nearDuplicates_batchRows, by decide +kernel, fun ⟨id, hmember, hrow⟩ => hnone id hmember hrow⟩

end FragmentMemory.DedupGate
