import FragmentMemory.PairPersistence
import FragmentMemory.RowStanding
import Mathlib.Tactic.NormNum

/-! # The pairs that a stage selects

A stage reads rows and treats pairs of them later, when the rows may have changed.  What the treatments
keep of a row is enough to say what holds of a pair when its turn has come.
-/
namespace FragmentMemory.StageSelection
open ApiKeyStore FragmentTables FragmentWriter MemoryRememberer PairSteps GraphLinker ContradictionDetector
  MemoryConsolidator RowPersistence RowStanding PairPersistence RememberLiveness TransitionRuns

/-- A row after some treatments of pairs: it is never live again once it has expired. -/
structure Descends (before after : Fragment) : Prop where
  id : after.id = before.id
  keyId : after.keyId = before.keyId
  topic : after.topic = before.topic
  type : after.type = before.type
  createdAt : after.createdAt = before.createdAt
  isAnchor : after.isAnchor = before.isAnchor
  live : after.live = true → before.live = true

theorem Descends.refl (f : Fragment) : Descends f f := ⟨rfl, rfl, rfl, rfl, rfl, rfl, fun h => h⟩

theorem Descends.trans {f g h : Fragment} (hfg : Descends f g) (hgh : Descends g h) : Descends f h :=
  ⟨hgh.id.trans hfg.id, hgh.keyId.trans hfg.keyId, hgh.topic.trans hfg.topic, hgh.type.trans hfg.type,
    hgh.createdAt.trans hfg.createdAt, hgh.isAnchor.trans hfg.isAnchor, fun hlive => hfg.live (hgh.live hlive)⟩

theorem admits_descends : Admits Descends where
  refl := Descends.refl
  trans _ _ _ := Descends.trans
  linked _ _ := ⟨rfl, rfl, rfl, rfl, rfl, rfl, fun h => h⟩
  accessed _ _ _ _ := ⟨rfl, rfl, rfl, rfl, rfl, rfl, fun h => h⟩
  asserted _ _ := ⟨rfl, rfl, rfl, rfl, rfl, rfl, fun h => h⟩
  cased _ _ := ⟨rfl, rfl, rfl, rfl, rfl, rfl, fun h => h⟩

variable {settings : Settings}

/-- The audit record of a contradiction, for a relation that bears a promotion without an anchor. -/
theorem persists_recordAudit {R : Fragment → Fragment → Prop} (hR : Admits R)
    (hpromote : ∀ now g (row : Fragment), row.isAnchor = false → R g ((promote now row).set g)) (draws : Draws)
    (store : Store) (winner loser : Fragment) (topic reasoning : String) :
    Persists R store (recordAudit settings draws store winner loser topic reasoning) := by
  refine persists_remember hR store (auditParams winner loser topic reasoning) masterCaller ?_ ?_ ?_
  · intro accepted haccepted g
    obtain ⟨caseId, hbuild, -⟩ := acceptNew_spec haccepted
    exact hpromote draws.now g _ (buildFragment_importance hbuild).2
  · intro _ _ oldId hmem
    exact absurd hmem List.not_mem_nil
  · intro accepted haccepted hlow
    obtain ⟨caseId, hbuild, -⟩ := acceptNew_spec haccepted
    have himportance : accepted.fragment.importance = 6 / 10 := (buildFragment_importance hbuild).1
    rw [himportance] at hlow
    exact absurd hlow.1 (by norm_num)

/-- Every treatment keeps the rows. -/
theorem descends_pairStep (settings : Settings) (store : Store) (pair : PairStep) :
    Persists Descends store (pairStep settings store pair) := by
  by_cases haudit : isAudit pair = false
  · refine (rewrites_pairStep admits_descends store haudit ?_ ?_).persists
    · exact fun f _ hlive _ _ => ⟨rfl, rfl, rfl, rfl, rfl, rfl, fun _ => hlive⟩
    · exact fun f _ => ⟨rfl, rfl, rfl, rfl, rfl, rfl, fun h => h⟩
  · cases pair with
    | audit draws winner loser topic reasoning =>
      refine persists_recordAudit admits_descends (fun now g row hrow => ?_) draws store winner loser topic reasoning
      refine ⟨rfl, rfl, rfl, rfl, rfl, ?_, fun h => h⟩
      simp only [promote, hrow, Bool.or_false]
    | _ => exact absurd rfl haudit

/-- A fragment as a stage has read it at some time before. -/
def Read (store : Store) (f : Fragment) : Prop := ∃ g ∈ store.fragments.rows, Descends f g

theorem Read.of_mem {store : Store} {f : Fragment} (hf : f ∈ store.fragments.rows) : Read store f :=
  ⟨f, hf, Descends.refl f⟩

theorem Read.step {store : Store} {f : Fragment} (h : Read store f) (settings : Settings) (pair : PairStep) :
    Read (pairStep settings store pair) f := by
  obtain ⟨g, hg, hfg⟩ := h
  obtain ⟨k, hk, hgk⟩ := descends_pairStep settings store pair g hg
  exact ⟨k, hk, hfg.trans hgk⟩

/-- The row of the id now. -/
theorem Read.row {store : Store} {f g : Fragment} (h : Read store f) (hg : g ∈ store.fragments.rows)
    (hid : g.id = f.id) : Descends f g := by
  obtain ⟨k, hk, hfk⟩ := h
  rw [eq_of_id _ hg hk (hid.trans hfk.id.symm)]
  exact hfk

/-- A live row stays live through a treatment that does not expire it. -/
theorem liveRow_pairStep {store : Store} {id : FragmentId} (h : LiveRow store id) {pair : PairStep}
    (hid : id ∉ expiredIds pair) : LiveRow (pairStep settings store pair) id := by
  have hadmits : Admits (Follows id fun f => f.live = true) := by
    refine admits_follows ?_ ?_ ?_ ?_
    · exact fun _ _ h => h
    · exact fun _ _ _ _ h => h
    · exact fun _ _ h => h
    · exact fun _ _ h => h
  have hkeeps : Persists (Follows id fun f => f.live = true) store (pairStep settings store pair) := by
    by_cases haudit : isAudit pair = false
    · refine (rewrites_pairStep hadmits store haudit ?_ ?_).persists
      · intro f hf _ _ _
        exact ⟨rfl, fun hsame => absurd (hsame ▸ hf) hid⟩
      · exact fun f _ => ⟨rfl, fun _ h => h⟩
    · cases pair with
      | audit draws winner loser topic reasoning =>
        exact persists_recordAudit hadmits (fun _ _ _ _ => ⟨rfl, fun _ h => h⟩) draws store winner loser topic reasoning
      | _ => exact absurd rfl haudit
  obtain ⟨f, hf, hfid, hlive⟩ := h
  exact Persists.follow hkeeps hf hfid hlive

/-- Every row of the second store was one of the first. -/
def Covers (before after : Store) : Prop := ∀ g ∈ after.fragments.rows, ∃ f ∈ before.fragments.rows, Descends f g

theorem Covers.refl (store : Store) : Covers store store := fun g hg => ⟨g, hg, Descends.refl g⟩

theorem Covers.step {before store : Store} (h : Covers before store) {pair : PairStep} (haudit : isAudit pair = false) :
    Covers before (pairStep settings store pair) := by
  intro g hg
  have hrewrites : Rewrites Descends store (pairStep settings store pair) := by
    refine rewrites_pairStep admits_descends store haudit ?_ ?_
    · exact fun f _ hlive _ _ => ⟨rfl, rfl, rfl, rfl, rfl, rfl, fun _ => hlive⟩
    · exact fun f _ => ⟨rfl, rfl, rfl, rfl, rfl, rfl, fun h => h⟩
  obtain ⟨f, hf, hfg⟩ := hrewrites.covers g hg
  obtain ⟨k, hk, hkf⟩ := h f hf
  exact ⟨k, hk, hkf.trans hfg⟩

/-- What holds of a pair when its turn has come; the relation is that of the pairs a stage finds by
their similarity alone. -/
def Selected (related : Fragment → Fragment → Prop) (store : Store) : PairStep → Prop
  | .settle _ newFrag candidate =>
    Read store newFrag ∧ Read store candidate ∧ newFrag.id ≠ candidate.id ∧ newFrag.keyId = candidate.keyId
  | .audit _ winner loser _ _ => Read store winner ∧ Read store loser ∧ winner.keyId = loser.keyId
  | .supersede _ older newer =>
    Read store older ∧ Read store newer ∧ older.id ≠ newer.id ∧ older.keyId = newer.keyId
  | .duplicate _ newFrag existing =>
    newFrag ∈ store.fragments.rows ∧ existing ∈ store.fragments.rows ∧ newFrag.id ≠ existing.id ∧
      existing.live = true ∧ related newFrag existing
  | .relate _ newFrag existing _ =>
    Read store newFrag ∧ Read store existing ∧ newFrag.id ≠ existing.id ∧ related newFrag existing
  | .merge _ frag candidate =>
    Read store frag ∧ Read store candidate ∧ frag.id ≠ candidate.id ∧ frag.isAnchor = false ∧
      candidate.isAnchor = false ∧ related frag candidate
  | .compress _ keeper others =>
    ((keeper :: others).map Fragment.id).Nodup ∧
      (∀ f ∈ keeper :: others, Read store f ∧ f.isAnchor = false) ∧
      ∃ seed ∈ keeper :: others, ∀ f ∈ keeper :: others, f = seed ∨ related seed f

theorem selected_mono {stronger weaker : Fragment → Fragment → Prop} (hweaker : ∀ f g, stronger f g → weaker f g)
    {store : Store} {pair : PairStep} (h : Selected stronger store pair) : Selected weaker store pair := by
  cases pair with
  | settle now newFrag candidate => exact h
  | audit draws winner loser topic reasoning => exact h
  | supersede now older newer => exact h
  | duplicate now newFrag existing => exact ⟨h.1, h.2.1, h.2.2.1, h.2.2.2.1, hweaker _ _ h.2.2.2.2⟩
  | relate now newFrag existing relationType => exact ⟨h.1, h.2.1, h.2.2.1, hweaker _ _ h.2.2.2⟩
  | merge now frag candidate =>
    exact ⟨h.1, h.2.1, h.2.2.1, h.2.2.2.1, h.2.2.2.2.1, hweaker _ _ h.2.2.2.2.2⟩
  | compress now keeper others =>
    obtain ⟨hnodup, hmembers, seed, hseed, hjoined⟩ := h
    exact ⟨hnodup, hmembers, seed, hseed, fun f hf => (hjoined f hf).imp_right (hweaker _ _)⟩

variable {start : Store}

theorem mem_bySimilarity {embeddings : Embeddings} {f g : Fragment} {found : List Fragment} :
    g ∈ bySimilarity embeddings f found ↔ g ∈ found :=
  (List.perm_insertionSort _ _).mem_iff

theorem nearestDuplicate_spec {embeddings : Embeddings} {store : Store} {keyId : Option KeyId}
    {groupKeyIds : List KeyId} {f g : Fragment}
    (h : nearestDuplicate embeddings store keyId groupKeyIds f = some g) :
    g ∈ store.fragments.rows ∧ sameTopic embeddings keyId groupKeyIds f g = true ∧ g.live = true ∧
      90 / 100 ≤ embeddings.similarity f.id g.id := by
  have hmem := mem_bySimilarity.mp (List.mem_of_mem_head? h)
  obtain ⟨hrow, hcond⟩ := List.mem_filter.mp hmem
  simp only [Bool.and_eq_true, decide_eq_true_eq] at hcond
  exact ⟨hrow, hcond.1.1, hcond.1.2, hcond.2⟩

theorem linkCandidates_spec {embeddings : Embeddings} {store : Store} {keyId : Option KeyId}
    {groupKeyIds : List KeyId} {f g : Fragment} (h : g ∈ linkCandidates embeddings store keyId groupKeyIds f) :
    g ∈ store.fragments.rows ∧ sameTopic embeddings keyId groupKeyIds f g = true ∧
      70 / 100 < embeddings.similarity f.id g.id := by
  obtain ⟨hrow, hcond⟩ := List.mem_filter.mp (mem_bySimilarity.mp (List.mem_of_mem_take h))
  simp only [Bool.and_eq_true, decide_eq_true_eq] at hcond
  exact ⟨hrow, hcond.1, hcond.2⟩

theorem sameTopic_spec {embeddings : Embeddings} {keyId : Option KeyId} {groupKeyIds : List KeyId} {f g : Fragment}
    (h : sameTopic embeddings keyId groupKeyIds f g = true) :
    g.id ≠ f.id ∧ g.topic = f.topic ∧ embeddings.embedded g.id = true := by
  simp only [sameTopic, Bool.and_eq_true, decide_eq_true_eq] at h
  exact ⟨h.1.1.1, h.1.1.2, h.1.2⟩

/-- What `linkFragment` treats: the row of the id and an embedded row of its topic. -/
theorem linkFragment_spec {embeddings : Embeddings} {now : Time} {store : Store} {id : FragmentId}
    {keyId : Option KeyId} {groupKeyIds : List KeyId} {pair : PairStep}
    (h : pair ∈ linkFragment embeddings now store id keyId groupKeyIds) :
    ∃ f g, f ∈ store.fragments.rows ∧ g ∈ store.fragments.rows ∧ f.id = id ∧ embeddings.embedded f.id = true ∧
      sameTopic embeddings keyId groupKeyIds f g = true ∧ 70 / 100 < embeddings.similarity f.id g.id ∧
      ((linkFragment embeddings now store id keyId groupKeyIds = [.duplicate now f g] ∧
          pair = .duplicate now f g ∧ g.live = true) ∨
        pair = .relate now f g (relationOf embeddings f g)) := by
  simp only [linkFragment] at h ⊢
  rcases hfound : (store.fragments.byId id).filter fun f => embeddings.embedded f.id with _ | f
  · simp only [hfound, List.not_mem_nil] at h
  · obtain ⟨hbyId, hembedded⟩ := Option.filter_eq_some_iff.mp hfound
    obtain ⟨hf, hid⟩ := (byId_eq_some_iff _).mp hbyId
    rcases hgate : (nearestDuplicate embeddings store keyId groupKeyIds f).filter
        fun g => 95 / 100 ≤ embeddings.similarity f.id g.id with _ | g
    · simp only [hfound, hgate] at h
      obtain ⟨g, hg, rfl⟩ := List.mem_map.mp h
      obtain ⟨hrow, htopic, hsimilar⟩ := linkCandidates_spec hg
      exact ⟨f, g, hf, hrow, hid, hembedded, htopic, hsimilar, Or.inr rfl⟩
    · simp only [hfound, hgate, List.mem_singleton] at h
      obtain ⟨hnearest, hsimilar⟩ := Option.filter_eq_some_iff.mp hgate
      obtain ⟨hrow, htopic, hlive, -⟩ := nearestDuplicate_spec hnearest
      refine ⟨f, g, hf, hrow, hid, hembedded, htopic, ?_, Or.inl ⟨?_, h, hlive⟩⟩
      · have hlarge : 95 / 100 ≤ embeddings.similarity f.id g.id := of_decide_eq_true hsimilar
        exact lt_of_lt_of_le (by norm_num) hlarge
      · simp only [hfound, hgate]

/-- Two rows that the linker relates. -/
def Linkable (embeddings : Embeddings) (f g : Fragment) : Prop :=
  g.id ≠ f.id ∧ g.topic = f.topic ∧ embeddings.embedded f.id = true ∧ embeddings.embedded g.id = true ∧
    70 / 100 < embeddings.similarity f.id g.id

theorem Linkable.of_descends {embeddings : Embeddings} {f f' g g' : Fragment} (hf : Descends f f')
    (hg : Descends g g') (h : Linkable embeddings f' g') : Linkable embeddings f g := by
  simp only [Linkable, hf.id, hg.id, hf.topic, hg.topic] at h
  exact h

variable {P : Store → PairStep → Prop} {related : Fragment → Fragment → Prop}

/-- The treatments of an `embedding_ready` event. -/
theorem onEmbeddingReady_meets {embeddings : Embeddings} {now : Time} {journal : Journal settings start}
    {id : FragmentId} {origin : Store} (hmeets : journal.Meets P) (hcovers : Covers origin journal.store)
    (hrelated : ∀ f ∈ journal.store.fragments.rows, ∀ g ∈ journal.store.fragments.rows, f.id = id →
      Linkable embeddings f g → related f g)
    (hP : ∀ store pair, Selected related store pair → P store pair) :
    (onEmbeddingReady embeddings now journal id).Meets P ∧
      Covers origin (onEmbeddingReady embeddings now journal id).store := by
  have hspec : ∀ pair ∈ linkFragment embeddings now journal.store id none [], ∃ f g,
      f ∈ journal.store.fragments.rows ∧ g ∈ journal.store.fragments.rows ∧ g.id ≠ f.id ∧ related f g ∧
      ((linkFragment embeddings now journal.store id none [] = [.duplicate now f g] ∧
          pair = .duplicate now f g ∧ g.live = true) ∨ pair = .relate now f g (relationOf embeddings f g)) := by
    intro pair hpair
    obtain ⟨f, g, hf, hg, hid, hembedded, htopic, hsimilar, hcase⟩ := linkFragment_spec hpair
    obtain ⟨hne, hsame, hembedded'⟩ := sameTopic_spec htopic
    exact ⟨f, g, hf, hg, hne, hrelated f hf g hg hid ⟨hne, hsame, hembedded, hembedded', hsimilar⟩, hcase⟩
  by_cases hgate : ∃ f g, linkFragment embeddings now journal.store id none [] = [.duplicate now f g]
  · obtain ⟨f, g, hgate⟩ := hgate
    simp only [onEmbeddingReady]
    obtain ⟨f', g', hf, hg, hne, hrel, hcase⟩ :=
      hspec (.duplicate now f g) (by rw [hgate]; exact List.mem_singleton.mpr rfl)
    rcases hcase with ⟨-, hpair, hlive⟩ | hpair
    · cases hpair
      rw [hgate]
      exact ⟨Journal.meets_perform.mpr ⟨hmeets, hP _ _ ⟨hf, hg, hne.symm, hlive, hrel⟩⟩, hcovers.step rfl⟩
    · cases hpair
  · have hstep : ∀ store, Persists Descends journal.store store ∧ Covers origin store →
        ∀ pair ∈ linkFragment embeddings now journal.store id none [], P store pair ∧
          (Persists Descends journal.store (pairStep settings store pair) ∧
            Covers origin (pairStep settings store pair)) := by
      intro store hstore pair hpair
      obtain ⟨f, g, hf, hg, hne, hrel, hcase⟩ := hspec pair hpair
      rcases hcase with ⟨hduplicate, -, -⟩ | hpair
      · exact absurd ⟨f, g, hduplicate⟩ hgate
      · subst hpair
        refine ⟨hP _ _ ⟨hstore.1 f hf, hstore.1 g hg, hne.symm, hrel⟩, ?_, hstore.2.step rfl⟩
        exact hstore.1.trans admits_descends (descends_pairStep settings store _)
    have hstart : Persists Descends journal.store journal.store := Persists.of_eq admits_descends rfl
    obtain ⟨hdone, -, hcovered⟩ := Journal.meets_performAll hmeets ⟨hstart, hcovers⟩ hstep
    exact ⟨hdone, hcovered⟩

/-- The treatments of a retroactive linking. -/
theorem retroLink_meets {embeddings : Embeddings} {now : Time} {journal : Journal settings start} {batchSize : ℕ}
    (hmeets : journal.Meets P)
    (hrelated : ∀ f ∈ isolatedRows embeddings journal.store batchSize, ∀ g ∈ journal.store.fragments.rows,
      Linkable embeddings f g → ∀ f' g', Descends f f' → Descends g g' → related f' g')
    (hP : ∀ store pair, Selected related store pair → P store pair) :
    (retroLink embeddings now journal batchSize).Meets P := by
  have hloop : (retroLink embeddings now journal batchSize).Meets P ∧
      Covers journal.store (retroLink embeddings now journal batchSize).store := by
    refine List.foldlRecOn (motive := fun current : Journal settings start =>
      current.Meets P ∧
        Covers journal.store current.store) _ _ ⟨hmeets, Covers.refl journal.store⟩ fun current hcurrent f hisolated => ?_
    refine onEmbeddingReady_meets hcurrent.1 hcurrent.2 ?_ hP
    intro f' hf' g' hg' hid hlinkable
    obtain ⟨f₀, hf₀, hf₀f'⟩ := hcurrent.2 f' hf'
    obtain ⟨g₀, hg₀, hg₀g'⟩ := hcurrent.2 g' hg'
    have hrow : f ∈ journal.store.fragments.rows := by
      have hfound := (List.perm_insertionSort _ _).mem_iff.mp (List.mem_of_mem_take hisolated)
      exact (List.mem_filter.mp hfound).1
    have hsame : f₀ = f := eq_of_id _ hf₀ hrow (hf₀f'.id.symm.trans hid)
    subst hsame
    exact hrelated f₀ hisolated g₀ hg₀ (hlinkable.of_descends hf₀f' hg₀g') f' g' hf₀f' hg₀g'
  exact hloop.1

/-- Two rows that the deduplication merges. -/
def Mergeable (embeddings : Embeddings) (f g : Fragment) : Prop :=
  f.id ≠ g.id ∧ g.topic = f.topic ∧ f.live = true ∧ g.live = true ∧ f.isAnchor = false ∧ g.isAnchor = false ∧
    92 / 100 ≤ embeddings.similarity f.id g.id

theorem Mergeable.of_descends {embeddings : Embeddings} {f f' g g' : Fragment} (hf : Descends f f')
    (hg : Descends g g') (h : Mergeable embeddings f' g') : Mergeable embeddings f g := by
  obtain ⟨hne, htopic, hlive, hlive', hanchor, hanchor', hsimilar⟩ := h
  rw [hf.id, hg.id] at hne hsimilar
  rw [hf.topic, hg.topic] at htopic
  exact ⟨hne, htopic, hf.live hlive, hg.live hlive', hf.isAnchor ▸ hanchor, hg.isAnchor ▸ hanchor', hsimilar⟩

theorem topicFragments_spec {embeddings : Embeddings} {store : Store} {topic : String} {f : Fragment}
    (h : f ∈ topicFragments embeddings store topic) :
    f ∈ store.fragments.rows ∧ f.topic = topic ∧ embeddings.embedded f.id = true ∧ f.live = true := by
  obtain ⟨hrow, hcond⟩ := List.mem_filter.mp ((List.perm_insertionSort _ _).mem_iff.mp h)
  simp only [Bool.and_eq_true, decide_eq_true_eq] at hcond
  exact ⟨hrow, hcond.1.1, hcond.1.2, hcond.2⟩

theorem nearestNeighbors_spec {embeddings : Embeddings} {store : Store} {f g : Fragment}
    (h : g ∈ nearestNeighbors embeddings store f) :
    g ∈ store.fragments.rows ∧ g.topic = f.topic ∧ g.id ≠ f.id ∧ g.live = true := by
  obtain ⟨hrow, hcond⟩ := List.mem_filter.mp (mem_bySimilarity.mp (List.mem_of_mem_take h))
  simp only [Bool.and_eq_true, decide_eq_true_eq] at hcond
  exact ⟨hrow, hcond.1.1.1, hcond.1.1.2, hcond.2⟩

/-- What a deduplication has done so far, in a store that has kept the rows of an earlier one. -/
structure DedupInvariant (P : Store → PairStep → Prop) (origin earlier : Store) (dedup : Dedup settings start) : Prop where
  meets : dedup.journal.Meets P
  covers : Covers origin dedup.journal.store
  keeps : Persists Descends earlier dedup.journal.store

/-- The merges of one row with its neighbours. -/
theorem dedupFragment_meets {embeddings : Embeddings} {now : Time} {origin earlier : Store}
    {dedup : Dedup settings start} {frag : Fragment} (h : DedupInvariant P origin earlier dedup)
    (hfrag : frag ∈ earlier.fragments.rows) (hlive : frag.live = true)
    (hrelated : ∀ f ∈ origin.fragments.rows, ∀ g ∈ origin.fragments.rows, Mergeable embeddings f g →
      ∀ f' g', Descends f f' → Descends g g' → f'.topic = frag.topic → related f' g')
    (hearlier : Covers origin earlier)
    (hP : ∀ store frag candidate, Selected related store (.merge now frag candidate) →
      P store (.merge now frag candidate)) :
    DedupInvariant P origin earlier (dedupFragment embeddings now dedup frag) := by
  simp only [dedupFragment]
  split
  · exact h
  · rename_i hskip
    simp only [Bool.or_eq_true, not_or, Bool.not_eq_true] at hskip
    have hloop : ∀ candidates : List Fragment,
        (∀ g ∈ candidates, g ∈ nearestNeighbors embeddings dedup.journal.store frag) →
        DedupInvariant P origin earlier (candidates.foldl (mergeNeighbor embeddings now frag) dedup) ∧
          Persists Descends dedup.journal.store
            (candidates.foldl (mergeNeighbor embeddings now frag) dedup).journal.store := by
      intro candidates hcandidates
      refine List.foldlRecOn (motive := fun current => DedupInvariant P origin earlier current ∧
        Persists Descends dedup.journal.store current.journal.store) _ _ ⟨h, Persists.of_eq admits_descends rfl⟩
        fun current hcurrent g hg => ?_
      simp only [mergeNeighbor]
      split
      · exact hcurrent
      · rename_i hmerge
        simp only [Bool.or_eq_true, not_or, Bool.not_eq_true, decide_eq_false_iff_not, not_lt] at hmerge
        obtain ⟨hrow, htopic, hne, hglive⟩ := nearestNeighbors_spec (hcandidates g hg)
        have hmergeable : Mergeable embeddings frag g :=
          ⟨hne.symm, htopic, hlive, hglive, hskip.1, hmerge.1.2, hmerge.1.1⟩
        obtain ⟨f₀, hf₀, hf₀frag⟩ := hearlier frag hfrag
        obtain ⟨g₀, hg₀, hg₀g⟩ := h.covers g hrow
        have hpair : related frag g :=
          hrelated f₀ hf₀ g₀ hg₀ (hmergeable.of_descends hf₀frag hg₀g) frag g hf₀frag hg₀g rfl
        have hselected : Selected related current.journal.store (.merge now frag g) :=
          ⟨hcurrent.1.keeps frag hfrag, hcurrent.2 g hrow, hne.symm, hskip.1, hmerge.1.2, hpair⟩
        have hstep := descends_pairStep settings current.journal.store (.merge now frag g)
        refine ⟨⟨Journal.meets_perform.mpr ⟨hcurrent.1.meets, hP _ _ _ hselected⟩, hcurrent.1.covers.step rfl,
          hcurrent.1.keeps.trans admits_descends hstep⟩, hcurrent.2.trans admits_descends hstep⟩
    exact (hloop _ fun g hg => hg).1

/-- The treatments of a deduplication. -/
theorem semanticDedup_meets {embeddings : Embeddings} {now : Time} {config : ConsolidationConfig}
    {journal : Journal settings start} (hmeets : journal.Meets P)
    (hrelated : ∀ f ∈ journal.store.fragments.rows, ∀ g ∈ journal.store.fragments.rows, Mergeable embeddings f g →
      f.topic ∈ dedupTopics embeddings config journal.store →
      ∀ f' g', Descends f f' → Descends g g' → related f' g')
    (hP : ∀ store frag candidate, Selected related store (.merge now frag candidate) →
      P store (.merge now frag candidate)) :
    (semanticDedup embeddings now config journal).Meets P := by
  have htopics : ∀ topics : List String, (∀ topic ∈ topics, topic ∈ dedupTopics embeddings config journal.store) →
      (topics.foldl (dedupTopic embeddings now) { journal := journal }).journal.Meets P ∧
        Covers journal.store (topics.foldl (dedupTopic embeddings now) { journal := journal }).journal.store := by
    intro topics htopics
    refine List.foldlRecOn (motive := fun dedup : Dedup settings start =>
      dedup.journal.Meets P ∧
        Covers journal.store dedup.journal.store) _ _ ⟨hmeets, Covers.refl journal.store⟩ fun dedup hdedup topic htopic => ?_
    have hrows : DedupInvariant P journal.store dedup.journal.store (dedupTopic embeddings now dedup topic) := by
      refine List.foldlRecOn _ _ ⟨hdedup.1, hdedup.2, Persists.of_eq admits_descends rfl⟩ fun current hcurrent frag hfrag => ?_
      obtain ⟨hrow, hsame, -, hlive⟩ := topicFragments_spec hfrag
      refine dedupFragment_meets hcurrent hrow hlive ?_ hdedup.2 hP
      intro f hf g hg hmergeable f' g' hff' hgg' hf'topic
      refine hrelated f hf g hg hmergeable ?_ f' g' hff' hgg'
      rw [← hff'.topic, hf'topic, hsame]
      exact htopics topic htopic
    exact ⟨hrows.meets, hrows.covers⟩
  exact (htopics _ fun topic h => h).1

/-- Two rows that a compression puts into one group. -/
def Groupable (embeddings : Embeddings) (now : Time) (config : ConsolidationConfig) (f g : Fragment) : Prop :=
  f.topic ≠ "" ∧ g.topic = f.topic ∧ compressible embeddings now config f = true ∧
    compressible embeddings now config g = true ∧ 80 / 100 ≤ embeddings.similarity f.id g.id

/-- A group around a row: distinct rows of the store, each the row itself or one that joins it. -/
structure GroupOf (embeddings : Embeddings) (now : Time) (config : ConsolidationConfig) (store : Store) (seed : Fragment)
    (group : List Fragment) : Prop where
  nodup : (group.map Fragment.id).Nodup
  seed_mem : seed ∈ group
  members : ∀ f ∈ group, f ∈ store.fragments.rows ∧ compressible embeddings now config f = true ∧
    (f = seed ∨ Groupable embeddings now config seed f)

theorem compressNeighbors_spec {embeddings : Embeddings} {now : Time} {config : ConsolidationConfig} {store : Store}
    {f g : Fragment} (h : g ∈ compressNeighbors embeddings now config store f) :
    g ∈ store.fragments.rows ∧ g.topic = f.topic ∧ compressible embeddings now config g = true := by
  obtain ⟨hrow, hcond⟩ := List.mem_filter.mp (mem_bySimilarity.mp (List.mem_of_mem_take h))
  simp only [Bool.and_eq_true, decide_eq_true_eq] at hcond
  exact ⟨hrow, hcond.1.1, hcond.2⟩

theorem groupOf_joinGroup {embeddings : Embeddings} {now : Time} {config : ConsolidationConfig} {store : Store}
    {seed : Fragment} {assigned : List FragmentId} {neighbors group : List Fragment}
    (hseed : seed.topic ≠ "" ∧ compressible embeddings now config seed = true)
    (hneighbors : ∀ g ∈ neighbors, g ∈ compressNeighbors embeddings now config store seed)
    (hgroup : GroupOf embeddings now config store seed group) :
    GroupOf embeddings now config store seed (joinGroup embeddings seed assigned group neighbors) := by
  induction neighbors generalizing group with
  | nil => exact hgroup
  | cons g later ih =>
    have hlater : ∀ k ∈ later, k ∈ compressNeighbors embeddings now config store seed :=
      fun k hk => hneighbors k (List.mem_cons_of_mem _ hk)
    simp only [joinGroup]
    split
    · exact ih hlater hgroup
    · rename_i hnew
      split
      · exact hgroup
      · rename_i hsimilar
        split
        · exact hgroup
        · refine ih hlater ⟨?_, List.mem_append_left _ hgroup.seed_mem, ?_⟩
          · simp only [Bool.or_eq_true, List.contains_iff_mem, not_or] at hnew
            rw [List.map_append, List.nodup_append]
            refine ⟨hgroup.nodup, List.nodup_singleton _, ?_⟩
            intro id hid other hother heq
            rw [List.map_cons, List.map_nil, List.mem_singleton] at hother
            exact hnew.2 (hother ▸ heq ▸ hid)
          · intro f hf
            rcases List.mem_append.mp hf with hold | hadded
            · exact hgroup.members f hold
            · rw [List.mem_singleton.mp hadded]
              obtain ⟨hrow, htopic, hcompressible⟩ := compressNeighbors_spec (hneighbors g List.mem_cons_self)
              exact ⟨hrow, hcompressible, Or.inr ⟨hseed.1, htopic, hseed.2, hcompressible, not_lt.mp hsimilar⟩⟩

/-- Every group of a compression is one around some row. -/
theorem compressionGroups_spec {embeddings : Embeddings} {now : Time} {config : ConsolidationConfig} {store : Store}
    {group : List Fragment} (h : group ∈ compressionGroups embeddings now config store) :
    ∃ seed, GroupOf embeddings now config store seed group := by
  simp only [compressionGroups] at h
  obtain ⟨topic, -, hgroup⟩ := List.mem_flatMap.mp h
  have hrows : ∀ f ∈ ((compressCandidates embeddings now config store).filter fun f => f.topic ≠ "").filter
      (fun f => f.topic = topic), f ∈ store.fragments.rows ∧ f.topic ≠ "" ∧
        compressible embeddings now config f = true := by
    intro f hf
    obtain ⟨hnonempty, -⟩ := List.mem_filter.mp hf
    obtain ⟨hcandidate, htopic⟩ := List.mem_filter.mp hnonempty
    obtain ⟨hrow, hcompressible⟩ := List.mem_filter.mp ((List.perm_insertionSort _ _).mem_iff.mp hcandidate)
    exact ⟨hrow, of_decide_eq_true htopic, hcompressible⟩
  generalize ((compressCandidates embeddings now config store).filter fun f => f.topic ≠ "").filter
      (fun f => f.topic = topic) = rows at hgroup hrows
  have hloop : ∀ group ∈ (rows.foldl (groupFragment embeddings now config store) ([], [])).2,
      ∃ seed, GroupOf embeddings now config store seed group := by
    refine List.foldlRecOn (motive := fun state : List FragmentId × List (List Fragment) =>
      ∀ group ∈ state.2, ∃ seed, GroupOf embeddings now config store seed group) _ _ ?_ fun state hstate seed hseed =>
        ?_
    · intro group hmem
      exact absurd hmem List.not_mem_nil
    · obtain ⟨hrow, htopic, hcompressible⟩ := hrows seed hseed
      have hsingle : GroupOf embeddings now config store seed [seed] := by
        refine ⟨List.nodup_singleton _, List.mem_singleton.mpr rfl, fun f hf => ?_⟩
        rw [List.mem_singleton.mp hf]
        exact ⟨hrow, hcompressible, Or.inl rfl⟩
      intro group hmem
      simp only [groupFragment] at hmem
      split at hmem
      · exact hstate group hmem
      · split at hmem
        · rcases List.mem_append.mp hmem with hold | hnew
          · exact hstate group hold
          · rw [List.mem_singleton.mp hnew]
            exact ⟨seed, groupOf_joinGroup ⟨htopic, hcompressible⟩ (fun g hg => hg) hsingle⟩
        · exact hstate group hmem
  exact hloop group hgroup

/-- The treatments of a compression. -/
theorem compressOldFragments_meets {embeddings : Embeddings} {now : Time} {config : ConsolidationConfig}
    {journal : Journal settings start} (hmeets : journal.Meets P)
    (hrelated : ∀ f ∈ journal.store.fragments.rows, ∀ g ∈ journal.store.fragments.rows,
      Groupable embeddings now config f g → related f g)
    (hP : ∀ store keeper others, Selected related store (.compress now keeper others) →
      P store (.compress now keeper others)) :
    (compressOldFragments embeddings now config journal).Meets P := by
  have hstep : ∀ store, Persists Descends journal.store store →
      ∀ pair ∈ (compressionGroups embeddings now config journal.store).filterMap (compressionStep now),
        P store pair ∧ Persists Descends journal.store (pairStep settings store pair) := by
    intro store hstore pair hpair
    obtain ⟨group, hgroup, hpair⟩ := List.mem_filterMap.mp hpair
    obtain ⟨seed, hseed⟩ := compressionGroups_spec hgroup
    refine ⟨?_, hstore.trans admits_descends (descends_pairStep settings store pair)⟩
    have hperm := List.perm_insertionSort (fun f g : Fragment => g.importance ≤ f.importance) group
    simp only [compressionStep] at hpair
    split at hpair
    · cases hpair
    · rename_i keeper others hsorted
      cases hpair
      rw [hsorted] at hperm
      refine hP _ _ _ ⟨((hperm.map Fragment.id).nodup_iff).mpr hseed.nodup, ?_, seed, hperm.mem_iff.mpr hseed.seed_mem, ?_⟩
      · intro f hf
        obtain ⟨hrow, hcompressible, -⟩ := hseed.members f (hperm.mem_iff.mp hf)
        simp only [compressible, Bool.and_eq_true, Bool.not_eq_true'] at hcompressible
        exact ⟨hstore f hrow, hcompressible.1.1.2⟩
      · intro f hf
        obtain ⟨hrow, -, hjoined⟩ := hseed.members f (hperm.mem_iff.mp hf)
        refine hjoined.imp_right fun hgroupable => ?_
        exact hrelated seed (hseed.members seed hseed.seed_mem).1 f hrow hgroupable
  exact (Journal.meets_performAll hmeets (Persists.of_eq admits_descends rfl) hstep).1

end FragmentMemory.StageSelection
