import FragmentMemory.StageSelection

/-! # Runs of the automatic stages

What holds of every pair that the detector selects, and from it what holds of every pair of a run of
stages in any order.
-/
namespace FragmentMemory.StageRuns
open ApiKeyStore FragmentTables MemoryRememberer PairSteps GraphLinker ContradictionDetector MemoryConsolidator
  RowPersistence StageSelection TransitionRuns

variable {settings : Settings} {start : Store} {P : Store → PairStep → Prop} {related : Fragment → Fragment → Prop}

/-- A contradiction settled between fragments of a key, or its record. -/
def SettledUnder (key : Option KeyId) : PairStep → Prop
  | .settle _ newFrag _ => newFrag.keyId = key
  | .audit _ winner _ _ _ => winner.keyId = key
  | _ => False

theorem resolveContradiction_meets {journal : Journal settings start} {draws : Draws} {newFrag candidate : Fragment}
    {candidateKey : Option KeyId} {topic reasoning : String} (hmeets : journal.Meets P)
    (hnew : Read journal.store newFrag) (hcandidate : Read journal.store candidate) (hne : newFrag.id ≠ candidate.id)
    (hkey : newFrag.keyId = candidateKey → newFrag.keyId = candidate.keyId)
    (hP : ∀ store pair, Selected related store pair → SettledUnder candidateKey pair → P store pair) :
    (journal.resolveContradiction draws newFrag candidate candidateKey topic reasoning).Meets P ∧
      Persists Descends journal.store
        (journal.resolveContradiction draws newFrag candidate candidateKey topic reasoning).store := by
  simp only [Journal.resolveContradiction]
  split
  · exact ⟨hmeets, Persists.of_eq admits_descends rfl⟩
  · rename_i hsame
    have hguard : newFrag.keyId = candidateKey := not_not.mp hsame
    have hkeys := hkey hguard
    have hsettled := Journal.meets_perform.mpr
      ⟨hmeets, hP _ (.settle draws.now newFrag candidate) ⟨hnew, hcandidate, hne, hkeys⟩ hguard⟩
    have hnew' := hnew.step settings (.settle draws.now newFrag candidate)
    have hcandidate' := hcandidate.step settings (.settle draws.now newFrag candidate)
    refine ⟨Journal.meets_perform.mpr ⟨hsettled, hP _ _ ?_ ?_⟩, ?_⟩
    · simp only [Selected, contradictionWinner, contradictionLoser]
      split
      · exact ⟨hnew', hcandidate', hkeys⟩
      · exact ⟨hcandidate', hnew', hkeys.symm⟩
    · simp only [SettledUnder, contradictionWinner]
      split
      · exact hguard
      · exact hkeys.symm.trans hguard
    · have hsettle := descends_pairStep settings journal.store (.settle draws.now newFrag candidate)
      rw [Journal.store_perform, Journal.store_perform]
      exact hsettle.trans admits_descends (descends_pairStep settings _ _)

/-- The entries of the queue name two fragments each. -/
def Distinct (detector : Detector) : Prop := ∀ entry ∈ detector.pending, entry.idA ≠ entry.idB

/-- What a detection has done so far, in a store that has kept the rows of an earlier one. -/
structure DetectionInvariant (P : Store → PairStep → Prop) (earlier : Store) (origin : Detector)
    (detection : Detection settings start) : Prop where
  meets : detection.journal.Meets P
  keeps : Persists Descends earlier detection.journal.store
  distinct : Distinct origin → Distinct detection.detector

theorem contradictionCandidates_spec {services : Services} {store : Store} {f g : Fragment}
    (h : g ∈ contradictionCandidates services store f) :
    g ∈ store.fragments.rows ∧ g.id ≠ f.id ∧ g.topic = f.topic ∧ g.keyId = f.keyId := by
  obtain ⟨hrow, hcond⟩ := List.mem_filter.mp (mem_bySimilarity.mp (List.mem_of_mem_take h))
  simp only [Bool.and_eq_true, decide_eq_true_eq] at hcond
  exact ⟨hrow, hcond.1.1.1.1.1, hcond.1.1.1.1.2, hcond.1.1.2⟩

theorem newFragments_spec {services : Services} {store : Store} {detector : Detector} {f : Fragment}
    (h : f ∈ newFragments services store detector) :
    f ∈ store.fragments.rows ∧ eligible services detector f = true :=
  List.mem_filter.mp ((List.perm_insertionSort _ _).mem_iff.mp (List.mem_of_mem_take h))

/-- The examination of one candidate. -/
theorem examine_invariant {services : Services} {earlier : Store} {origin : Detector} {newFrag candidate : Fragment}
    {detection : Detection settings start} (h : DetectionInvariant P earlier origin detection)
    (hnew : Read detection.journal.store newFrag) (hcandidate : Read detection.journal.store candidate)
    (hne : newFrag.id ≠ candidate.id) (hkey : newFrag.keyId = candidate.keyId)
    (hP : ∀ store pair, Selected related store pair → SettledUnder none pair → P store pair) :
    DetectionInvariant P earlier origin (Detection.examine services newFrag detection candidate) ∧
      Persists Descends detection.journal.store (Detection.examine services newFrag detection candidate).journal.store := by
  have hsame : Persists Descends detection.journal.store detection.journal.store := Persists.of_eq admits_descends rfl
  have hresolved : ∀ draws reasoning,
      (detection.journal.resolveContradiction draws newFrag candidate none newFrag.topic reasoning).Meets P ∧
      Persists Descends detection.journal.store
        (detection.journal.resolveContradiction draws newFrag candidate none newFrag.topic reasoning).store :=
    fun _ _ => resolveContradiction_meets h.meets hnew hcandidate hne (fun _ => hkey) hP
  simp only [Detection.examine]
  split
  · exact ⟨h, hsame⟩
  · rename_i detector hacquired
    have hdistinct : Distinct origin → Distinct detector := by
      simp only [acquirePairCheck] at hacquired
      split at hacquired
      · cases hacquired
      · cases hacquired
        exact h.distinct
    split
    · obtain ⟨hmeets, hkeeps⟩ := hresolved (services.draws detection.detector.checkedPairs.length)
        ("NLI contradiction (conf=" ++ _ ++ ")")
      exact ⟨⟨hmeets, h.keeps.trans admits_descends hkeeps, hdistinct⟩, hkeeps⟩
    · exact ⟨⟨h.meets, h.keeps, hdistinct⟩, hsame⟩
    · simp only [Detection.escalate]
      split
      · split
        · obtain ⟨hmeets, hkeeps⟩ := hresolved (services.draws detection.detector.checkedPairs.length) _
          exact ⟨⟨hmeets, h.keeps.trans admits_descends hkeeps, hdistinct⟩, hkeeps⟩
        · exact ⟨⟨h.meets, h.keeps, hdistinct⟩, hsame⟩
      · split
        · simp only [Detection.flag]
          split
          · refine ⟨⟨h.meets, h.keeps, fun horigin entry hentry => ?_⟩, hsame⟩
            rcases List.mem_append.mp hentry with hold | hadded
            · exact hdistinct horigin entry hold
            · rw [List.mem_singleton.mp hadded]
              exact hne
          · exact ⟨⟨h.meets, h.keeps, hdistinct⟩, hsame⟩
        · exact ⟨⟨h.meets, h.keeps, hdistinct⟩, hsame⟩

/-- The treatments of a detection of contradictions, all of them of fragments without a key. -/
theorem detectContradictions_meets {services : Services} {journal : Journal settings start} {detector : Detector}
    (hmeets : journal.Meets P)
    (hP : ∀ store pair, Selected related store pair → SettledUnder none pair → P store pair) :
    (detectContradictions services journal detector).journal.Meets P ∧
      (Distinct detector → Distinct (detectContradictions services journal detector).detector) := by
  have hloop : DetectionInvariant P journal.store detector (detectionOf services journal detector) := by
    refine List.foldlRecOn (motive := fun detection : Detection settings start =>
      DetectionInvariant P journal.store detector detection) _ _
      ⟨hmeets, Persists.of_eq admits_descends rfl, fun h => h⟩ fun detection hdetection newFrag hnew => ?_
    have hrow := (newFragments_spec hnew).1
    have hcandidates : DetectionInvariant P journal.store detector (detection.examineAll services newFrag) ∧
        Persists Descends detection.journal.store (detection.examineAll services newFrag).journal.store := by
      refine List.foldlRecOn (motive := fun current : Detection settings start =>
        DetectionInvariant P journal.store detector current ∧
          Persists Descends detection.journal.store current.journal.store)
        _ _ ⟨hdetection, Persists.of_eq admits_descends rfl⟩ fun current hcurrent candidate hcandidate => ?_
      obtain ⟨hcandidateRow, hne, -, hkey⟩ := contradictionCandidates_spec hcandidate
      obtain ⟨hinvariant, hkeeps⟩ := examine_invariant hcurrent.1 (hcurrent.1.keeps newFrag hrow)
        (hcurrent.2 candidate hcandidateRow) hne.symm hkey.symm hP
      exact ⟨hinvariant, hcurrent.2.trans admits_descends hkeeps⟩
    exact hcandidates.1
  refine ⟨hloop.meets, ?_⟩
  simp only [detectContradictions, updateCheckpoint]
  split
  · exact hloop.distinct
  · exact hloop.distinct

/-- One turn of the queue. -/
theorem processPending_meets {services : Services} {state : Journal settings start × Detector}
    (hmeets : state.1.Meets P) (hdistinct : Distinct state.2)
    (hP : ∀ store pair, Selected related store pair → P store pair) :
    (processPending services state).1.Meets P ∧ Distinct (processPending services state).2 := by
  simp only [processPending]
  split
  · exact ⟨hmeets, hdistinct⟩
  · rename_i entry later hpending
    have hlater : Distinct { state.2 with pending := later } := by
      intro other hother
      exact hdistinct other (hpending ▸ List.mem_cons_of_mem _ hother)
    split
    · exact ⟨hmeets, hlater⟩
    · rename_i acquired hacquired
      have hdistinct' : Distinct acquired := by
        simp only [acquirePairCheck] at hacquired
        split at hacquired
        · cases hacquired
        · cases hacquired
          exact hlater
      split
      · rename_i fragA fragB hfragA hfragB
        split
        · obtain ⟨hrowA, hidA⟩ := (byId_eq_some_iff _).mp hfragA
          obtain ⟨hrowB, hidB⟩ := (byId_eq_some_iff _).mp hfragB
          have hne : fragA.id ≠ fragB.id := by
            rw [hidA, hidB]
            exact hdistinct entry (hpending ▸ List.mem_cons_self)
          exact ⟨(resolveContradiction_meets hmeets (Read.of_mem hrowA) (Read.of_mem hrowB) hne (fun h => h)
            fun store pair hselected _ => hP store pair hselected).1, hdistinct'⟩
        · exact ⟨hmeets, hdistinct'⟩
      · exact ⟨hmeets, hdistinct'⟩

/-- The treatments of the pending contradictions. -/
theorem processPendingContradictions_meets {services : Services} {journal : Journal settings start}
    {detector : Detector} (hmeets : journal.Meets P) (hdistinct : Distinct detector)
    (hP : ∀ store pair, Selected related store pair → P store pair) :
    (processPendingContradictions services journal detector).1.Meets P ∧
      Distinct (processPendingContradictions services journal detector).2 := by
  have hturns : ∀ turns, ((processPending services)^[turns] (journal, detector)).1.Meets P ∧
      Distinct ((processPending services)^[turns] (journal, detector)).2 := by
    intro turns
    induction turns with
    | zero => exact ⟨hmeets, hdistinct⟩
    | succ turns ih =>
      rw [Function.iterate_succ_apply']
      exact processPending_meets ih.1 ih.2 hP
  simp only [processPendingContradictions]
  split
  · exact hturns 10
  · exact ⟨hmeets, hdistinct⟩

theorem supersessionPairs_spec {services : Services} {store : Store} {a b : Fragment}
    (h : (a, b) ∈ supersessionPairs services store) :
    a ∈ store.fragments.rows ∧ b ∈ store.fragments.rows ∧ a.id ≠ b.id ∧ a.keyId = b.keyId := by
  have hpairs := (List.perm_insertionSort _ _).mem_iff.mp (List.mem_of_mem_take h)
  obtain ⟨f, hf, hmem⟩ := List.mem_flatMap.mp hpairs
  obtain ⟨g, hg, hpair⟩ := List.mem_map.mp hmem
  cases hpair
  obtain ⟨hrow, hcond⟩ := List.mem_filter.mp hg
  simp only [Bool.and_eq_true, decide_eq_true_eq] at hcond
  have hless := hcond.1.1.1.1.1.1.1.2
  refine ⟨hf, hrow, fun heq => ?_, hcond.1.1.1.1.1.1.2⟩
  rw [heq] at hless
  exact String.lt_irrefl _ hless

/-- The treatments of a detection of supersessions. -/
theorem detectSupersessions_meets {services : Services} {journal : Journal settings start} (hmeets : journal.Meets P)
    (hP : ∀ store pair, Selected related store pair → P store pair) :
    (detectSupersessions services journal).Meets P := by
  simp only [detectSupersessions]
  split
  · refine (Journal.meets_performAll hmeets (Persists.of_eq admits_descends rfl) fun store hstore pair hpair => ?_).1
    obtain ⟨⟨⟨a, b⟩, i⟩, hjudged, rfl⟩ := List.mem_map.mp hpair
    have hmem := List.fst_mem_of_mem_zipIdx (List.mem_filter.mp hjudged).1
    obtain ⟨ha, hb, hne, hkey⟩ := supersessionPairs_spec hmem
    refine ⟨hP _ _ ?_, hstore.trans admits_descends (descends_pairStep settings store _)⟩
    simp only [supersessionStep]
    split
    · exact ⟨hstore a ha, hstore b hb, hne, hkey⟩
    · exact ⟨hstore b hb, hstore a ha, hne.symm, hkey.symm⟩
  · exact hmeets

/-- The pairs of rows that a stage relates by their similarity alone. -/
def SimilarPair (stage : Stage) (store : Store) (f g : Fragment) : Prop :=
  match stage with
  | .embeddingReady embeddings _ id => f.id = id ∧ Linkable embeddings f g
  | .retroLink embeddings _ batchSize => f ∈ isolatedRows embeddings store batchSize ∧ Linkable embeddings f g
  | .semanticDedup embeddings _ config =>
    f.topic ∈ dedupTopics embeddings config store ∧ Mergeable embeddings f g
  | .compressOldFragments embeddings now config => Groupable embeddings now config f g
  | .detectContradictions _ | .processPendingContradictions _ | .detectSupersessions _ | .resetCheckedPairs => False

/-- Two fragments as a stage has read them that come from such a pair of rows. -/
def ReadPair (stage : Stage) (store : Store) (f' g' : Fragment) : Prop :=
  ∃ f ∈ store.fragments.rows, ∃ g ∈ store.fragments.rows, Descends f f' ∧ Descends g g' ∧ SimilarPair stage store f g

/-- What every selected pair has, every pair that a stage treats has. -/
theorem runStage_meets {state : Consolidation settings start} {stage : Stage} (hmeets : state.journal.Meets P)
    (hdistinct : Distinct state.detector)
    (hP : ∀ store pair, Selected (ReadPair stage state.journal.store) store pair → P store pair) :
    (runStage state stage).journal.Meets P ∧ Distinct (runStage state stage).detector := by
  cases stage with
  | detectContradictions services =>
    have hcall : (detectContradictions services state.journal state.detector).journal.Meets P ∧
        (Distinct state.detector → Distinct (detectContradictions services state.journal state.detector).detector) :=
      detectContradictions_meets hmeets fun store pair hselected _ => hP store pair hselected
    exact ⟨hcall.1, hcall.2 hdistinct⟩
  | processPendingContradictions services => exact processPendingContradictions_meets hmeets hdistinct hP
  | detectSupersessions services => exact ⟨detectSupersessions_meets hmeets hP, hdistinct⟩
  | semanticDedup embeddings now config =>
    refine ⟨semanticDedup_meets hmeets ?_ fun store _ _ => hP store _, hdistinct⟩
    intro f hf g hg hmergeable htopic f' g' hff' hgg'
    exact ⟨f, hf, g, hg, hff', hgg', htopic, hmergeable⟩
  | compressOldFragments embeddings now config =>
    refine ⟨compressOldFragments_meets hmeets ?_ fun store _ _ => hP store _, hdistinct⟩
    intro f hf g hg hgroupable
    exact ⟨f, hf, g, hg, Descends.refl f, Descends.refl g, hgroupable⟩
  | embeddingReady embeddings now id =>
    refine ⟨(onEmbeddingReady_meets hmeets (Covers.refl _) ?_ hP).1, hdistinct⟩
    intro f hf g hg hid hlinkable
    exact ⟨f, hf, g, hg, Descends.refl f, Descends.refl g, hid, hlinkable⟩
  | retroLink embeddings now batchSize =>
    refine ⟨retroLink_meets hmeets ?_ hP, hdistinct⟩
    intro f hisolated g hg hlinkable f' g' hff' hgg'
    have hrow := (List.perm_insertionSort _ _).mem_iff.mp (List.mem_of_mem_take hisolated)
    exact ⟨f, (List.mem_filter.mp hrow).1, g, hg, hff', hgg', hisolated, hlinkable⟩
  | resetCheckedPairs => exact ⟨hmeets, hdistinct⟩

/-- The journal of a run of stages. -/
def journalOf (settings : Settings) (start : Store) (detector : Detector) (stages : List Stage) : Journal settings start :=
  (run runStage (begin settings start detector) stages).journal

/-- A run of stages that each meet a condition: what the condition gives for every selected pair, every
pair of the run has. -/
theorem run_meets {condition : Consolidation settings start → Stage → Prop} {detector : Detector} {stages : List Stage}
    (hdistinct : Distinct detector)
    (hcondition : StepsMeet runStage condition (begin settings start detector) stages)
    (hP : ∀ state stage, condition state stage →
      ∀ store pair, Selected (ReadPair stage state.journal.store) store pair → P store pair) :
    (journalOf settings start detector stages).Meets P := by
  have hbegin : (begin settings start detector).journal.Meets P := trivial
  have hrun := invariant_run_of_meets (I := fun state : Consolidation settings start =>
      state.journal.Meets P ∧ Distinct state.detector)
    (fun state stage hstate hmeets => runStage_meets hstate.1 hstate.2 (hP state stage hmeets))
    ⟨hbegin, hdistinct⟩ hcondition
  exact hrun.1

end FragmentMemory.StageRuns
