import FragmentMemory.StageRuns
import FragmentMemory.MasterRemember

/-! # Key isolation of the automatic stages

Contradictions and supersessions compare fragments of one key.  Deduplication, compression and the
linker compare rows of a topic whatever their keys, and the audit record of a contradiction is
remembered by the master, who reaches the rows of every key.
-/
namespace FragmentMemory.ConsolidationIsolation
open ApiKeyStore FragmentTables FragmentWriter LinkStore MemoryRememberer RememberLiveness PairSteps PairPersistence
  GraphLinker ContradictionDetector MemoryConsolidator StageSelection StageRuns TransitionRuns KeyFrame MasterRemember
  ContentUniqueness

/-- The fragments that a treatment is about. -/
def treated : PairStep → List Fragment
  | .settle _ newFrag candidate => [newFrag, candidate]
  | .audit _ winner loser _ _ => [winner, loser]
  | .supersede _ older newer => [older, newer]
  | .duplicate _ newFrag existing => [newFrag, existing]
  | .relate _ newFrag existing _ => [newFrag, existing]
  | .merge _ frag candidate => [frag, candidate]
  | .compress _ keeper others => keeper :: others

/-- The fragments of a treatment have one key, and no row of another key and no link at one changes. -/
def WithinKey (settings : Settings) (store : Store) (pair : PairStep) : Prop :=
  ∃ key, (∀ f ∈ treated pair, f.keyId = key) ∧
    Untouched (fun keyId => keyId ≠ key) store (pairStep settings store pair)

theorem forall_pair {α : Type*} {property : α → Prop} {a b : α} : (∀ x ∈ [a, b], property x) ↔ property a ∧
    property b := by
  simp

variable {settings : Settings} {related : Fragment → Fragment → Prop}

/-- What a stage selects, it has read. -/
theorem read_of_selected {store : Store} {pair : PairStep} (h : Selected related store pair) :
    ∀ f ∈ treated pair, Read store f := by
  cases pair with
  | settle now newFrag candidate => exact forall_pair.mpr ⟨h.1, h.2.1⟩
  | audit draws winner loser topic reasoning => exact forall_pair.mpr ⟨h.1, h.2.1⟩
  | supersede now older newer => exact forall_pair.mpr ⟨h.1, h.2.1⟩
  | duplicate now newFrag existing => exact forall_pair.mpr ⟨Read.of_mem h.1, Read.of_mem h.2.1⟩
  | relate now newFrag existing relationType => exact forall_pair.mpr ⟨h.1, h.2.1⟩
  | merge now frag candidate => exact forall_pair.mpr ⟨h.1, h.2.1⟩
  | compress now keeper others => exact fun f hf => (h.2.1 f hf).1

/-- Pairs related only within a key are about fragments of one key. -/
theorem sameKey_of_selected (hrelated : ∀ f g, related f g → f.keyId = g.keyId) {store : Store} {pair : PairStep}
    (h : Selected related store pair) : ∃ key, ∀ f ∈ treated pair, f.keyId = key := by
  cases pair with
  | settle now newFrag candidate => exact ⟨_, forall_pair.mpr ⟨h.2.2.2, rfl⟩⟩
  | audit draws winner loser topic reasoning => exact ⟨_, forall_pair.mpr ⟨h.2.2, rfl⟩⟩
  | supersede now older newer => exact ⟨_, forall_pair.mpr ⟨h.2.2.2, rfl⟩⟩
  | duplicate now newFrag existing => exact ⟨_, forall_pair.mpr ⟨hrelated _ _ h.2.2.2.2, rfl⟩⟩
  | relate now newFrag existing relationType => exact ⟨_, forall_pair.mpr ⟨hrelated _ _ h.2.2.2, rfl⟩⟩
  | merge now frag candidate => exact ⟨_, forall_pair.mpr ⟨hrelated _ _ h.2.2.2.2.2, rfl⟩⟩
  | compress now keeper others =>
    obtain ⟨-, -, seed, -, hjoined⟩ := h
    refine ⟨seed.keyId, fun f hf => ?_⟩
    rcases hjoined f hf with hseed | hrel
    · rw [hseed]
    · exact (hrelated _ _ hrel).symm

/-- A fragment as it was read has the id of a row of its key. -/
theorem Read.not_outId {key : Option KeyId} {store : Store} {f : Fragment} (h : Read store f) (hkey : f.keyId = key) :
    ¬ OutId (fun keyId => keyId ≠ key) store f.id := by
  obtain ⟨g, hg, hfg⟩ := h
  exact KeyFrame.not_outId hg hfg.id (decide_eq_false (not_not.mpr (hfg.keyId.trans hkey)))

variable {out : Option KeyId → Bool}

theorem untouched_expireRow {store : Store} {now : Time} {id : FragmentId} (hid : ¬ OutId out store id) :
    Untouched out store (expireRow now store id) := by
  refine untouched_updateById hid fun f hcond => ?_
  simp only [Bool.and_eq_true, decide_eq_true_eq] at hcond
  exact hcond.1

/-- A treatment of fragments in the frame stays in it; the audit record aside. -/
theorem untouched_pairStep {store : Store} {pair : PairStep} (haudit : isAudit pair = false)
    (hin : ∀ f ∈ treated pair, ¬ OutId out store f.id) : Untouched out store (pairStep settings store pair) := by
  cases pair with
  | settle now newFrag candidate =>
    obtain ⟨hnew, hcandidate⟩ := forall_pair.mp hin
    have hloser : ¬ OutId out store (contradictionLoser newFrag candidate).id := by
      simp only [contradictionLoser]
      split
      · exact hcandidate
      · exact hnew
    have hwinner : ¬ OutId out store (contradictionWinner newFrag candidate).id := by
      simp only [contradictionWinner]
      split
      · exact hnew
      · exact hcandidate
    have hlinked : Untouched out store (tryLink store newFrag.id candidate.id .contradicts 1) :=
      untouched_tryLink hnew hcandidate
    have hweakened : Untouched out store
        (if candidate.createdAt < newFrag.createdAt && candidate.isAnchor then
          tryLink store newFrag.id candidate.id .contradicts 1
        else (tryLink store newFrag.id candidate.id .contradicts 1).updateFragments
          (fun f => f.id = (contradictionLoser newFrag candidate).id) halve) := by
      split
      · exact hlinked
      · exact hlinked.trans (untouched_updateById (hlinked.outId_iff.not.mpr hloser) fun f hcond => of_decide_eq_true hcond)
    have hsuperseded := hweakened.trans (@untouched_tryLink out _ _ _ .supersededBy 1
      (hweakened.outId_iff.not.mpr hloser) (hweakened.outId_iff.not.mpr hwinner))
    exact hsuperseded.trans (untouched_expireRow (hsuperseded.outId_iff.not.mpr hloser))
  | audit draws winner loser topic reasoning => cases haudit
  | supersede now older newer =>
    obtain ⟨holder, hnewer⟩ := forall_pair.mp hin
    have hlinked : Untouched out store (tryLink store older.id newer.id .supersededBy 1) :=
      untouched_tryLink holder hnewer
    refine hlinked.trans (untouched_updateById (hlinked.outId_iff.not.mpr holder) fun f hcond => ?_)
    simp only [Bool.and_eq_true, decide_eq_true_eq] at hcond
    exact hcond.1
  | duplicate now newFrag existing =>
    obtain ⟨hnew, hexisting⟩ := forall_pair.mp hin
    have hexpired : Untouched out store (expireRow now store newFrag.id) := untouched_expireRow hnew
    exact hexpired.trans (untouched_updateById (hexpired.outId_iff.not.mpr hexisting) fun f hcond =>
      of_decide_eq_true hcond)
  | relate now newFrag existing relationType =>
    obtain ⟨hnew, hexisting⟩ := forall_pair.mp hin
    simp only [pairStep, relateCandidate]
    split
    · exact Untouched.refl store
    · rename_i linked hcreate
      have hlinked : Untouched out store linked := untouched_createLink hexisting hnew hcreate
      split
      · exact hlinked.trans (untouched_expireRow (hlinked.outId_iff.not.mpr hexisting))
      · exact hlinked
  | merge now frag candidate =>
    obtain ⟨hfrag, hcandidate⟩ := forall_pair.mp hin
    have hkept : ¬ OutId out store (keptOf frag candidate).id := by
      simp only [keptOf]
      split
      · exact hfrag
      · exact hcandidate
    have hdropped : ¬ OutId out store (droppedOf frag candidate).id := by
      simp only [droppedOf]
      split
      · exact hcandidate
      · exact hfrag
    have hunlinked : Untouched out store { store with
        links := store.links.delete fun l =>
          (l.fromId = (droppedOf frag candidate).id && l.toId = (keptOf frag candidate).id) ||
            (l.fromId = (keptOf frag candidate).id && l.toId = (droppedOf frag candidate).id) } := by
      refine untouched_deleteLinks fun l _ hcond => ?_
      simp only [Bool.or_eq_true, Bool.and_eq_true, decide_eq_true_eq] at hcond
      rcases hcond with ⟨hfrom, hto⟩ | ⟨hfrom, hto⟩
      · rw [TouchesOut, hfrom, hto]
        exact not_or.mpr ⟨hdropped, hkept⟩
      · rw [TouchesOut, hfrom, hto]
        exact not_or.mpr ⟨hkept, hdropped⟩
    have hexpired := hunlinked.trans (@untouched_expireRow out _ now _ (hunlinked.outId_iff.not.mpr hdropped))
    exact hexpired.trans (untouched_updateById (hexpired.outId_iff.not.mpr hkept) fun f hcond => of_decide_eq_true hcond)
  | compress now keeper others =>
    have hexpired : Untouched out store (others.foldl (fun current old => expireRow now current old.id) store) :=
      Untouched.foldl fun current hcurrent old hold =>
        untouched_expireRow (hcurrent.outId_iff.not.mpr (hin old (List.mem_cons_of_mem _ hold)))
    refine hexpired.trans (untouched_updateById (hexpired.outId_iff.not.mpr (hin keeper List.mem_cons_self)) ?_)
    exact fun f hcond => of_decide_eq_true hcond

/-- No audit record is remembered of fragments with a key, or where the queries of the master reach one. -/
def AuditUnkeyed (store : Store) : PairStep → Prop
  | .audit draws winner _ topic _ => winner.keyId = none ∧ UnkeyedReach draws (auditTopic topic) store
  | _ => True

/-- A pair of one key is treated within its key. -/
theorem withinKey_pairStep (hrelated : ∀ f g, related f g → f.keyId = g.keyId) {store : Store} {pair : PairStep}
    (hselected : Selected related store pair) (haudit : AuditUnkeyed store pair) : WithinKey settings store pair := by
  obtain ⟨key, hkey⟩ := sameKey_of_selected hrelated hselected
  have hread := read_of_selected hselected
  have hin : ∀ f ∈ treated pair, ¬ OutId (fun keyId => keyId ≠ key) store f.id := fun f hf =>
    Read.not_outId (hread f hf) (hkey f hf)
  refine ⟨key, hkey, ?_⟩
  by_cases hrecord : isAudit pair = false
  · exact untouched_pairStep hrecord hin
  · cases pair with
    | audit draws winner loser topic reasoning =>
      obtain ⟨hunkeyed, hreach⟩ := haudit
      obtain ⟨hwinner, hloser⟩ := forall_pair.mp hin
      have hnone : key = none := (hkey winner List.mem_cons_self).symm.trans hunkeyed
      subst hnone
      exact untouched_recordAudit hreach hwinner hloser
    | _ => exact absurd rfl hrecord

variable {start : Store}

/-- The rows that a stage relates by their similarity alone have one key. -/
def RelatesWithinKey (state : Consolidation settings start) (stage : Stage) : Prop :=
  ∀ f ∈ state.journal.store.fragments.rows, ∀ g ∈ state.journal.store.fragments.rows,
    SimilarPair stage state.journal.store f g → f.keyId = g.keyId

/-- In a run of stages that relate rows of one key only, and in which no audit record reaches a row with a
key, every treatment stays within a key. -/
theorem keys_isolated {detector : Detector} {stages : List Stage} (hdistinct : Distinct detector)
    (hsimilar : StepsMeet runStage RelatesWithinKey (begin settings start detector) stages)
    (haudits : (journalOf settings start detector stages).Meets AuditUnkeyed) :
    (journalOf settings start detector stages).Meets (WithinKey settings) := by
  have hselected : (journalOf settings start detector stages).Meets (Selected fun f g => f.keyId = g.keyId) := by
    refine run_meets hdistinct hsimilar fun state stage hstage store pair hpair => ?_
    refine selected_mono (fun f' g' hread => ?_) hpair
    obtain ⟨f, hf, g, hg, hff', hgg', hrelated⟩ := hread
    rw [hff'.keyId, hgg'.keyId]
    exact hstage f hf g hg hrelated
  exact (StepsMeet.and hselected haudits).mono fun _ _ hpair =>
    withinKey_pairStep (fun _ _ h => h) hpair.1 hpair.2

instance (embeddings : Embeddings) (f g : Fragment) : Decidable (Linkable embeddings f g) :=
  inferInstanceAs (Decidable (g.id ≠ f.id ∧ g.topic = f.topic ∧ embeddings.embedded f.id = true ∧
    embeddings.embedded g.id = true ∧ 70 / 100 < embeddings.similarity f.id g.id))

instance (embeddings : Embeddings) (f g : Fragment) : Decidable (Mergeable embeddings f g) :=
  inferInstanceAs (Decidable (f.id ≠ g.id ∧ g.topic = f.topic ∧ f.live = true ∧ g.live = true ∧ f.isAnchor = false ∧
    g.isAnchor = false ∧ 92 / 100 ≤ embeddings.similarity f.id g.id))

instance (embeddings : Embeddings) (now : Time) (config : ConsolidationConfig) (f g : Fragment) :
    Decidable (Groupable embeddings now config f g) :=
  inferInstanceAs (Decidable (f.topic ≠ "" ∧ g.topic = f.topic ∧ compressible embeddings now config f = true ∧
    compressible embeddings now config g = true ∧ 80 / 100 ≤ embeddings.similarity f.id g.id))

instance (stage : Stage) (store : Store) (f g : Fragment) : Decidable (SimilarPair stage store f g) :=
  match stage with
  | .embeddingReady embeddings _ id => inferInstanceAs (Decidable (f.id = id ∧ Linkable embeddings f g))
  | .retroLink embeddings _ batchSize =>
    inferInstanceAs (Decidable (f ∈ isolatedRows embeddings store batchSize ∧ Linkable embeddings f g))
  | .semanticDedup embeddings _ config =>
    inferInstanceAs (Decidable (f.topic ∈ dedupTopics embeddings config store ∧ Mergeable embeddings f g))
  | .compressOldFragments embeddings now config => inferInstanceAs (Decidable (Groupable embeddings now config f g))
  | .detectContradictions _ | .processPendingContradictions _ | .detectSupersessions _ | .resetCheckedPairs =>
    inferInstanceAs (Decidable False)

instance (state : Consolidation settings start) (stage : Stage) : Decidable (RelatesWithinKey state stage) :=
  inferInstanceAs (Decidable (∀ f ∈ state.journal.store.fragments.rows, ∀ g ∈ state.journal.store.fragments.rows,
    SimilarPair stage state.journal.store f g → f.keyId = g.keyId))

instance (store : Store) (pair : PairStep) : Decidable (AuditUnkeyed store pair) :=
  match pair with
  | .audit draws winner _ topic _ =>
    inferInstanceAs (Decidable (winner.keyId = none ∧ UnkeyedReach draws (auditTopic topic) store))
  | .settle _ _ _ | .supersede _ _ _ | .duplicate _ _ _ | .relate _ _ _ _ | .merge _ _ _ | .compress _ _ _ =>
    inferInstanceAs (Decidable True)

def otherTenant : KeyId := ⟨"c21f0a84-93d7-4e05-8a6b-5be10d7f2a39", by decide⟩

/-- Two contents of one topic under one key, and the first of them under another key. -/
def twoTenantStore : Store :=
  let remembered := fun store time id content key =>
    (remember sampleSettings (sampleDraws time id) store (sampleParams content []) { keyId := some key }).1
  remembered (remembered (remembered {} 1 "frag-a" sampleContent sampleKey) 2 "frag-b" replacementContent sampleKey)
    3 "frag-c" sampleContent otherTenant

/-- Vectors by which only the fragments of the first key are close. -/
def separateEmbeddings : Embeddings where
  embedded _ := true
  similarity id other := if id = "frag-c" || other = "frag-c" then 1 / 10 else 8 / 10

def closeEmbeddings : Embeddings := { separateEmbeddings with similarity := fun _ _ => 8 / 10 }

/-- The linker links the two fragments of the first key. -/
theorem keys_isolated_separate :
    (journalOf sampleSettings twoTenantStore {} [.embeddingReady separateEmbeddings 4 "frag-b"]).steps ≠ [] ∧
      (journalOf sampleSettings twoTenantStore {} [.embeddingReady separateEmbeddings 4 "frag-b"]).Meets
        (WithinKey sampleSettings) :=
  have hdistinct : Distinct {} := fun _ h => absurd h List.not_mem_nil
  have hsome :
    (journalOf sampleSettings twoTenantStore {} [.embeddingReady separateEmbeddings 4 "frag-b"]).steps.length ≠ 0 := by
    decide +kernel
  have hsimilar : StepsMeet runStage RelatesWithinKey (begin sampleSettings twoTenantStore {})
      [.embeddingReady separateEmbeddings 4 "frag-b"] := by decide +kernel
  have haudits : (journalOf sampleSettings twoTenantStore {} [.embeddingReady separateEmbeddings 4 "frag-b"]).Meets
      AuditUnkeyed := by decide +kernel
  ⟨fun hnil => hsome (hnil ▸ rfl), keys_isolated hdistinct hsimilar haudits⟩

/-- It links the fragment of the other key too when the vectors are close. -/
theorem keys_mixed :
    ¬ (journalOf sampleSettings twoTenantStore {} [.embeddingReady closeEmbeddings 4 "frag-c"]).Meets
      (WithinKey sampleSettings) := by
  have hmixed : Happens (pairStep sampleSettings) (fun _ pair => ∃ f ∈ treated pair, ∃ g ∈ treated pair, f.keyId ≠ g.keyId)
      twoTenantStore (journalOf sampleSettings twoTenantStore {} [.embeddingReady closeEmbeddings 4 "frag-c"]).steps := by
    decide +kernel
  intro hwithin
  refine StepsMeet.not_happens hwithin (fun store pair hpair hdiffer => ?_) hmixed
  obtain ⟨key, hkey, -⟩ := hpair
  obtain ⟨f, hf, g, hg, hne⟩ := hdiffer
  exact hne ((hkey f hf).trans (hkey g hg).symm)

end FragmentMemory.ConsolidationIsolation
