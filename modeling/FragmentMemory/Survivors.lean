import FragmentMemory.StageRuns
import FragmentMemory.Replacements

/-! # Survivors of the automatic stages

A stage that expires a fragment does so in favour of another one.  Which of the two that is depends on
their creation times, and not every stage looks whether it is live itself.
-/
namespace FragmentMemory.Survivors
open ApiKeyStore FragmentTables MemoryRememberer RememberLiveness PairSteps GraphLinker ContradictionDetector
  MemoryConsolidator PairPersistence RowPersistence StageSelection StageRuns TransitionRuns Replacements ContentUniqueness

/-- The fragment in favour of which a treatment expires others. -/
def winnerOf : PairStep → Option FragmentId
  | .settle _ newFrag candidate => some (contradictionWinner newFrag candidate).id
  | .audit _ _ _ _ _ => none
  | .supersede _ _ newer => some newer.id
  | .duplicate _ _ existing => some existing.id
  | .relate _ newFrag _ _ => some newFrag.id
  | .merge _ frag candidate => some (keptOf frag candidate).id
  | .compress _ keeper _ => some keeper.id

/-- A treatment expires the first fragment in favour of the second. -/
def Expires (settings : Settings) (store : Store) (pair : PairStep) (x w : FragmentId) : Prop :=
  winnerOf pair = some w ∧ LiveRow store x ∧ ¬ LiveRow (pairStep settings store pair) x

instance (settings : Settings) (store : Store) (pair : PairStep) (x w : FragmentId) :
    Decidable (Expires settings store pair x w) :=
  inferInstanceAs (Decidable (winnerOf pair = some w ∧ LiveRow store x ∧ ¬ LiveRow (pairStep settings store pair) x))

/-- The survivor law of the treatments of a run. -/
abbrev SurvivorLaw (settings : Settings) (start : Store) (pairs : List PairStep) : Prop :=
  ReplacementLaw (pairStep settings) LiveRow (Expires settings) start pairs

def isDuplicate : PairStep → Bool
  | .duplicate _ _ _ => true
  | _ => false

/-- The fragment that the creation times favour is live, or none is left to expire.  Of a full duplicate
the query asks as much. -/
def Sound (store : Store) (pair : PairStep) : Prop :=
  isDuplicate pair = true ∨ ∀ w ∈ winnerOf pair, LiveRow store w ∨ ∀ x ∈ expiredIds pair, ¬ LiveRow store x

instance (store : Store) (pair : PairStep) : Decidable (Sound store pair) :=
  inferInstanceAs (Decidable (isDuplicate pair = true ∨
    ∀ w ∈ winnerOf pair, LiveRow store w ∨ ∀ x ∈ expiredIds pair, ¬ LiveRow store x))

/-- The row of an id has expired. -/
def ExpiredRow (store : Store) (id : FragmentId) : Prop := ∃ f ∈ store.fragments.rows, f.id = id ∧ f.live = false

theorem ExpiredRow.not_live {store : Store} {id : FragmentId} (h : ExpiredRow store id) : ¬ LiveRow store id := by
  obtain ⟨f, hf, hid, hexpired⟩ := h
  rintro ⟨g, hg, hgid, hlive⟩
  rw [eq_of_id _ hg hf (hgid.trans hid.symm), hexpired] at hlive
  cases hlive

theorem expiredRow_pairStep {settings : Settings} {store : Store} {id : FragmentId} (h : ExpiredRow store id)
    (pair : PairStep) : ExpiredRow (pairStep settings store pair) id := by
  obtain ⟨f, hf, hid, hexpired⟩ := h
  obtain ⟨g, hg, hfg⟩ := descends_pairStep settings store pair f hf
  refine ⟨g, hg, hfg.id.trans hid, Bool.eq_false_iff.mpr fun hlive => ?_⟩
  rw [hfg.live hlive] at hexpired
  cases hexpired

variable {settings : Settings} {related : Fragment → Fragment → Prop}

theorem contradiction_ids {newFrag candidate : Fragment} (h : newFrag.id ≠ candidate.id) :
    (contradictionWinner newFrag candidate).id ≠ (contradictionLoser newFrag candidate).id := by
  simp only [contradictionWinner, contradictionLoser]
  split
  · exact h
  · exact h.symm

theorem merge_ids {frag candidate : Fragment} (h : frag.id ≠ candidate.id) :
    (keptOf frag candidate).id ≠ (droppedOf frag candidate).id := by
  simp only [keptOf, droppedOf]
  split
  · exact h
  · exact h.symm

/-- A selected pair never expires its winner. -/
theorem winner_not_expired {store : Store} {pair : PairStep} (h : Selected related store pair) {w : FragmentId}
    (hw : winnerOf pair = some w) : w ∉ expiredIds pair := by
  cases pair with
  | settle now newFrag candidate =>
    cases hw
    simp only [expiredIds, List.mem_singleton]
    exact contradiction_ids h.2.2.1
  | audit draws winner loser topic reasoning => cases hw
  | supersede now older newer =>
    cases hw
    simp only [expiredIds, List.mem_singleton]
    exact h.2.2.1.symm
  | duplicate now newFrag existing =>
    cases hw
    simp only [expiredIds, List.mem_singleton]
    exact h.2.2.1.symm
  | relate now newFrag existing relationType =>
    cases hw
    simp only [expiredIds]
    split
    · rw [List.mem_singleton]
      exact h.2.2.1
    · exact List.not_mem_nil
  | merge now frag candidate =>
    cases hw
    simp only [expiredIds, List.mem_singleton]
    exact merge_ids h.2.2.1
  | compress now keeper others =>
    cases hw
    exact (List.nodup_cons.mp h.1).1

/-- Whatever a sound pair expires, it expires in favour of a live fragment. -/
theorem winner_live {store : Store} {pair : PairStep} (hselected : Selected related store pair)
    (hsound : Sound store pair) {x w : FragmentId} (h : Expires settings store pair x w) : LiveRow store w := by
  obtain ⟨hw, hlive, hexpired⟩ := h
  have hmem : x ∈ expiredIds pair := by
    by_contra hnot
    exact hexpired (liveRow_pairStep hlive hnot)
  rcases hsound with hduplicate | hall
  · cases pair with
    | duplicate now newFrag existing =>
      cases hw
      exact ⟨existing, hselected.2.1, rfl, hselected.2.2.2.1⟩
    | _ => cases hduplicate
  · rcases hall w hw with hlive' | hnone
    · exact hlive'
    · exact absurd hlive (hnone x hmem)

/-- What a stage selects, when it is sound, replaces fragments lawfully. -/
theorem lawful_pairStep (settings : Settings) (related : Fragment → Fragment → Prop) :
    Lawful (pairStep settings) LiveRow (Expires settings) ExpiredRow
      fun store pair => Selected related store pair ∧ Sound store pair where
  winner store pair x w hpair h := by
    have hlive := winner_live hpair.1 hpair.2 h
    exact ⟨hlive, liveRow_pairStep hlive (winner_not_expired hpair.1 h.1)⟩
  loser store pair x w h := by
    obtain ⟨-, ⟨f, hf, hid, -⟩, hexpired⟩ := h
    obtain ⟨g, hg, hfg⟩ := descends_pairStep settings store pair f hf
    refine ⟨g, hg, hfg.id.trans hid, Bool.eq_false_iff.mpr fun hlive => ?_⟩
    exact hexpired ⟨g, hg, hfg.id.trans hid, hlive⟩
  replaced store pair x hlive := by
    by_cases hstays : LiveRow (pairStep settings store pair) x
    · exact Or.inl hstays
    · right
      have hmem : x ∈ expiredIds pair := by
        by_contra hnot
        exact hstays (liveRow_pairStep hlive hnot)
      rcases hwinner : winnerOf pair with _ | w
      · cases pair with
        | audit draws winner loser topic reasoning => exact absurd hmem List.not_mem_nil
        | _ => cases hwinner
      · exact ⟨w, hwinner, hlive, hstays⟩
  stays store pair x h := expiredRow_pairStep h pair
  retired_not_active store x h := h.not_live

/-- Every run of stages whose treatments are sound obeys the survivor law. -/
theorem survivorLaw_of_sound {settings : Settings} {start : Store} {detector : Detector} {stages : List Stage}
    (hdistinct : Distinct detector) (hsound : (journalOf settings start detector stages).Meets Sound) :
    SurvivorLaw settings start (journalOf settings start detector stages).steps := by
  have hany : StepsMeet runStage (fun _ _ => True) (begin settings start detector) stages :=
    stepsMeet_of_forall (fun _ _ => trivial) _ stages
  have hselected : (journalOf settings start detector stages).Meets (Selected fun _ _ => True) := by
    refine run_meets hdistinct hany fun state stage _ store pair hpair => ?_
    exact selected_mono (fun _ _ _ => trivial) hpair
  exact replacementLaw (lawful_pairStep settings fun _ _ => True) (hselected.and hsound)

def thirdContent : String := "deploy uses the office network"

/-- SHA-256 on three sample contents. -/
def threeSettings : Settings :=
  { sampleSettings with digests := { sampleSettings.digests with
      hex := fun text =>
        if text = thirdContent then "204c0609b4ca47217e8801950bb31b86d94fb7e95c75eb5cc7dc3b0a816f17b3"
        else sampleSettings.digests.hex text } }

/-- The three contents, of one topic, that a batch of the master has stored at one time. -/
def batchStore : Store :=
  let item := fun content : String => some { content := some content, type := some .fact, topic := some "deploy" }
  let context := {
    keyId := none
    newId := fun position => if position = 0 then "frag-a" else if position = 1 then "frag-b" else "frag-c"
    now := 1 }
  (BatchRememberProcessor.process threeSettings.digests threeSettings.tools context {}
    [item sampleContent, item replacementContent, item thirdContent]).1

/-- Vectors in the range of the supersessions for all pairs but one, and a language model that finds a
supersession in every pair. -/
def supersedingServices : Services where
  embeddings := {
    embedded := fun _ => true
    similarity := fun id other => if id = "frag-a" && other = "frag-c" then 6 / 10 else 8 / 10 }
  supersession := fun _ _ _ => some ⟨true, "the later one replaces the earlier one"⟩
  draws := fun _ => sampleDraws 2 "frag-d"
  now := 2

def supersessionRun : List Stage := [.detectSupersessions supersedingServices]

def gateRun : List Stage :=
  [.embeddingReady { embedded := fun _ => true, similarity := fun _ _ => 96 / 100 } 2 "frag-b"]

/-- The gate of the linker expires a fragment in favour of a live one. -/
theorem survivorLaw_of_gate : SurvivorLaw threeSettings batchStore (journalOf threeSettings batchStore {} gateRun).steps :=
  have hdistinct : Distinct {} := fun _ h => absurd h List.not_mem_nil
  have hsound : (journalOf threeSettings batchStore {} gateRun).Meets Sound := by decide +kernel
  survivorLaw_of_sound hdistinct hsound

/-- Of three fragments of one time the second is expired in favour of the first, and then the third in
favour of the second. -/
theorem expired_for_expired :
    ¬ SurvivorLaw threeSettings batchStore (journalOf threeSettings batchStore {} supersessionRun).steps := by
  have hdead : Happens (pairStep threeSettings)
      (fun store pair => Expires threeSettings store pair "frag-c" "frag-b" ∧ ¬ LiveRow store "frag-b") batchStore
      (journalOf threeSettings batchStore {} supersessionRun).steps := by decide +kernel
  intro law
  exact law.winners.not_happens (fun _ _ hwinner h => h.2 (hwinner _ _ h.1)) hdead

end FragmentMemory.Survivors
