import FragmentMemory.StageRuns
import FragmentMemory.ConsolidatorGC

/-! # Retention of anchors

Most of the automatic stages leave anchors alone.  Contradictions, supersessions and the linker do not
look whether the fragment that they expire is one, and the transition from warm to cold does not either.
-/
namespace FragmentMemory.AnchorRetention
open ApiKeyStore FragmentTables FragmentWriter LinkStore MemoryRememberer RememberLiveness PairSteps PairPersistence
  ContradictionDetector MemoryConsolidator RowPersistence RowStanding StageSelection StageRuns FragmentGC ConsolidatorGC
  TransitionRuns UniqueIndexTable ContentUniqueness

/-- A later form of a row with at least its standing, live if the row was. -/
structure Retained (before after : Fragment) : Prop where
  standing : NotDemoted before after
  live : before.live = true → after.live = true

instance (before after : Fragment) : Decidable (Retained before after) :=
  decidable_of_iff (NotDemoted before after ∧ (before.live = true → after.live = true))
    ⟨fun h => ⟨h.1, h.2⟩, fun h => ⟨h.standing, h.live⟩⟩

theorem Retained.refl (f : Fragment) : Retained f f := ⟨NotDemoted.refl f, fun h => h⟩

theorem Retained.trans {f g h : Fragment} (hfg : Retained f g) (hgh : Retained g h) : Retained f h :=
  ⟨hfg.standing.trans hgh.standing, fun hlive => hgh.live (hfg.live hlive)⟩

/-- Every anchor keeps its row, its standing and its validity. -/
def KeepsAnchors (before after : Store) : Prop :=
  ∀ f ∈ before.fragments.rows, f.isAnchor = true → ∃ g ∈ after.fragments.rows, g.id = f.id ∧ Retained f g

instance (before after : Store) : Decidable (KeepsAnchors before after) :=
  inferInstanceAs (Decidable (∀ f ∈ before.fragments.rows, f.isAnchor = true →
    ∃ g ∈ after.fragments.rows, g.id = f.id ∧ Retained f g))

theorem KeepsAnchors.refl (store : Store) : KeepsAnchors store store := fun f hf _ => ⟨f, hf, rfl, Retained.refl f⟩

theorem KeepsAnchors.trans {first second third : Store} (h : KeepsAnchors first second)
    (h' : KeepsAnchors second third) : KeepsAnchors first third := by
  intro f hf hanchor
  obtain ⟨g, hg, hid, hfg⟩ := h f hf hanchor
  obtain ⟨k, hk, hid', hgk⟩ := h' g hg (hfg.standing.isAnchor hanchor)
  exact ⟨k, hk, hid'.trans hid, hfg.trans hgk⟩

theorem keepsAnchors_updateFragments {store : Store} {cond : Fragment → Bool} {change : ColumnUpdate}
    (hset : ∀ f ∈ store.fragments.rows, f.isAnchor = true → cond f = true → Retained f (change.set f)) :
    KeepsAnchors store (store.updateFragments cond change) := by
  intro f hf hanchor
  refine ⟨_, updated_mem_updateFragments hf cond change, ?_⟩
  split
  · rename_i hcond
    exact ⟨change.id_set f, hset f hf hanchor hcond⟩
  · exact ⟨rfl, Retained.refl f⟩

theorem keepsAnchors_deleteFragments {store : Store} {found : List Fragment}
    (hfound : ∀ f ∈ found, f ∈ store.fragments.rows ∧ f.isAnchor = false) :
    KeepsAnchors store (store.deleteFragments fun f => (found.map Fragment.id).contains f.id) := by
  intro f hf hanchor
  refine ⟨f, (Table.mem_delete_iff _).mpr ⟨hf, Bool.eq_false_iff.mpr fun hgone => ?_⟩, rfl, Retained.refl f⟩
  obtain ⟨g, hg, hid⟩ := List.mem_map.mp (List.contains_iff_mem.mp hgone)
  obtain ⟨hrow, hplain⟩ := hfound g hg
  rw [← eq_of_id _ hrow hf hid, hplain] at hanchor
  cases hanchor

/-- The row of an anchor against its form before; an expired one stays expired. -/
def Held (anchor g : Fragment) : Prop := Retained anchor g ∧ (anchor.live = false → g.live = false)

theorem admits_held (anchor : Fragment) : Admits (Follows anchor.id (Held anchor)) := by
  have hsame : ∀ g g' : Fragment, g'.importance = g.importance → g'.isAnchor = g.isAnchor →
      g'.ttlTier = g.ttlTier → g'.live = g.live → Held anchor g → Held anchor g' := by
    intro g g' himportance hisAnchor htier hlive h
    refine ⟨⟨⟨?_, ?_, ?_⟩, ?_⟩, ?_⟩
    · rw [himportance]
      exact h.1.standing.importance
    · rw [hisAnchor]
      exact h.1.standing.isAnchor
    · rw [htier]
      exact h.1.standing.ttlTier
    · rw [hlive]
      exact h.1.live
    · rw [hlive]
      exact h.2
  exact admits_follows (fun g _ => hsame g _ rfl rfl rfl rfl) (fun g _ _ _ => hsame g _ rfl rfl rfl rfl)
    (fun g _ => hsame g _ rfl rfl rfl rfl) (fun g _ => hsame g _ rfl rfl rfl rfl)

theorem held_promote (anchor g row : Fragment) (now : Time) :
    Follows anchor.id (Held anchor) g ((promote now row).set g) :=
  ⟨rfl, fun _ h => ⟨⟨h.1.standing.trans (notDemoted_promote now row g), h.1.live⟩, h.2⟩⟩

/-- What keeps the row of each anchor keeps the anchors. -/
theorem keepsAnchors_of_persists {before after : Store}
    (h : ∀ anchor ∈ before.fragments.rows, anchor.isAnchor = true →
      Persists (Follows anchor.id (Held anchor)) before after) : KeepsAnchors before after := by
  intro anchor hmem hanchor
  obtain ⟨g, hg, hid, hheld⟩ := Persists.follow (h anchor hmem hanchor) hmem rfl ⟨Retained.refl anchor, fun h => h⟩
  exact ⟨g, hg, hid, hheld.1⟩

/-- Merges and compressions select no anchors. -/
def guarded : PairStep → Bool
  | .merge _ _ _ => true
  | .compress _ _ _ => true
  | _ => false

/-- The treatment of a pair spares the anchors: it expires no live one, and halves the importance of
none. -/
def SparesAnchors (store : Store) (pair : PairStep) : Prop :=
  guarded pair = true ∨ ∀ f ∈ store.fragments.rows, f.isAnchor = true →
    (f.live = true → f.id ∉ expiredIds pair) ∧ (0 < f.importance → f.id ∉ halvedIds pair)

instance (store : Store) (pair : PairStep) : Decidable (SparesAnchors store pair) :=
  inferInstanceAs (Decidable (guarded pair = true ∨ ∀ f ∈ store.fragments.rows, f.isAnchor = true →
    (f.live = true → f.id ∉ expiredIds pair) ∧ (0 < f.importance → f.id ∉ halvedIds pair)))

variable {settings : Settings} {related : Fragment → Fragment → Prop}

/-- A merge or a compression treats no row of an anchor. -/
theorem guarded_spares {store : Store} {pair : PairStep} (hselected : Selected related store pair)
    (hguarded : guarded pair = true) {anchor : Fragment} (hmem : anchor ∈ store.fragments.rows)
    (hanchor : anchor.isAnchor = true) : anchor.id ∉ expiredIds pair := by
  have hplain : ∀ f : Fragment, Read store f → f.isAnchor = false → anchor.id ≠ f.id := by
    intro f hread hfalse hid
    rw [(hread.row hmem hid).isAnchor, hfalse] at hanchor
    cases hanchor
  cases pair with
  | merge now frag candidate =>
    obtain ⟨hfrag, hcandidate, -, hplainFrag, hplainCandidate, -⟩ := hselected
    simp only [expiredIds, List.mem_singleton, droppedOf]
    split
    · exact hplain candidate hcandidate hplainCandidate
    · exact hplain frag hfrag hplainFrag
  | compress now keeper others =>
    intro hexpired
    obtain ⟨f, hf, hid⟩ := List.mem_map.mp hexpired
    obtain ⟨hread, hfalse⟩ := hselected.2.1 f (List.mem_cons_of_mem _ hf)
    exact hplain f hread hfalse hid.symm
  | _ => cases hguarded

/-- A selected pair that spares the anchors keeps them. -/
theorem keepsAnchors_pairStep {store : Store} {pair : PairStep} (hselected : Selected related store pair)
    (hspares : SparesAnchors store pair) : KeepsAnchors store (pairStep settings store pair) := by
  refine keepsAnchors_of_persists fun anchor hmem hanchor => ?_
  have hspared : (anchor.live = true → anchor.id ∉ expiredIds pair) ∧
      (0 < anchor.importance → anchor.id ∉ halvedIds pair) := by
    rcases hspares with hguarded | hall
    · refine ⟨fun _ => guarded_spares hselected hguarded hmem hanchor, fun _ => ?_⟩
      cases pair with
      | merge now frag candidate => exact List.not_mem_nil
      | compress now keeper others => exact List.not_mem_nil
      | _ => cases hguarded
    · exact hall anchor hmem hanchor
  by_cases haudit : isAudit pair = false
  · refine (rewrites_pairStep (admits_held anchor) store haudit ?_ ?_).persists
    · intro f hexpired hlive now importance
      refine ⟨rfl, fun hsame hheld => ?_⟩
      rcases hanchorLive : anchor.live with _ | _
      · rw [hheld.2 hanchorLive] at hlive
        cases hlive
      · exact absurd (hsame ▸ hexpired) (hspared.1 hanchorLive)
    · intro f hhalved
      refine ⟨rfl,
        fun hsame hheld => ⟨⟨⟨?_, hheld.1.standing.isAnchor, hheld.1.standing.ttlTier⟩, hheld.1.live⟩, hheld.2⟩⟩
      have hnone : ¬ 0 < anchor.importance := fun hpos => hspared.2 hpos (hsame ▸ hhalved)
      have hle := hheld.1.standing.importance
      simp only [halve]
      linarith
  · cases pair with
    | audit draws winner loser topic reasoning =>
      exact persists_recordAudit (admits_held anchor) (fun now g row _ => held_promote anchor g row now) draws store
        winner loser topic reasoning
    | _ => exact absurd rfl haudit

theorem tierRank_le (tier : TtlTier) : tierRank tier ≤ tierRank .permanent := by
  cases tier <;> decide

theorem keepsAnchors_deleteExpired (policy : GcPolicy) (now : Time) (utilityScore : FragmentId → ℚ) (store : Store) :
    KeepsAnchors store (deleteExpired policy now utilityScore store) := by
  refine keepsAnchors_deleteFragments fun f hf => ?_
  obtain ⟨hrow, hcond⟩ := List.mem_filter.mp ((List.perm_insertionSort _ _).mem_iff.mp (List.mem_of_mem_take hf))
  simp only [Bool.and_eq_true, Bool.not_eq_true'] at hcond
  exact ⟨hrow, hcond.1.1.2⟩

theorem keepsAnchors_decayImportance (factor : Fragment → ℚ) (store : Store) :
    KeepsAnchors store (decayImportance factor store) := by
  refine keepsAnchors_updateFragments fun f _ hanchor hcond => ?_
  simp only [hanchor, Bool.not_true, Bool.and_false, Bool.false_eq_true] at hcond

theorem keepsAnchors_purgeStaleReflections (policy : ReflectionPolicy) (now : Time) (store : Store) :
    KeepsAnchors store (purgeStaleReflections policy now store) := by
  refine keepsAnchors_deleteFragments fun f hf => ?_
  obtain ⟨hrow, hcond⟩ := List.mem_filter.mp (List.mem_of_mem_take hf)
  simp only [Bool.and_eq_true, Bool.not_eq_true'] at hcond
  exact ⟨hrow, hcond.1.2⟩

/-- The tiers of the anchors through a transition that cools none of them down. -/
theorem keepsAnchors_transitionTTL {now : Time} {qualityVerified : FragmentId → Option Bool} {store : Store}
    (hspares : ∀ f ∈ store.fragments.rows, f.isAnchor = true → promoted qualityVerified f = false →
      coolsDown now f = false) : KeepsAnchors store (transitionTTL now qualityVerified store) := by
  have hfirst : KeepsAnchors store (store.updateFragments
      (fun f => promoted qualityVerified f && f.ttlTier ≠ .permanent) (setTtlTier .permanent)) := by
    exact keepsAnchors_updateFragments fun f _ _ _ => ⟨⟨le_refl _, fun h => h, tierRank_le _⟩, fun h => h⟩
  refine (hfirst.trans (keepsAnchors_updateFragments fun f hf hanchor hcond => ?_)).trans
    (keepsAnchors_updateFragments fun f _ hanchor hcond => ?_)
  · -- the row was promoted and is not warm, or it is as it was before
    obtain ⟨before, hbefore, hset⟩ := (mem_updateFragments_iff store).mp hf
    exfalso
    by_cases hpromoted : (promoted qualityVerified before && before.ttlTier ≠ .permanent) = true
    · rw [hset, if_pos hpromoted] at hcond
      simp [coolsDown, setTtlTier] at hcond
    · rw [hset, if_neg hpromoted] at hcond hanchor
      have hwarm : before.ttlTier = .warm := by
        simp only [coolsDown, Bool.and_eq_true, decide_eq_true_eq] at hcond
        exact hcond.1
      have hplain : promoted qualityVerified before = false := by
        simpa [hwarm] using hpromoted
      rw [hspares before hbefore hanchor hplain] at hcond
      cases hcond
  · simp only [paroled, hanchor, Bool.not_true, Bool.and_false, Bool.false_and, Bool.false_eq_true] at hcond

section Split
variable {R : Fragment → Fragment → Prop} {digests : Digests} {policy : SplitPolicy} {services : SplitServices}

theorem persists_insertChildren (hR : Admits R) (hpromote : ∀ now row g, R g ((promote now row).set g))
    {parent : Fragment} (accepted : List (String × ℚ)) (store : Store) :
    Persists R store (insertChildren digests services parent store accepted).1 := by
  refine List.foldlRecOn (motive := fun state : Store × Option (List FragmentId) => Persists R store state.1) _ _
    (Persists.of_eq hR rfl) fun state hstate child _ => ?_
  simp only [insertChild]
  split
  · exact hstate
  · split
    · exact hstate
    · rename_i next id hinsert
      exact hstate.trans hR (persists_insert hR (fun g _ _ => hpromote _ _ g) hinsert)

/-- A split, for a relation that bears the end of its parent. -/
theorem persists_processFragmentSplit (hR : Admits R) (hpromote : ∀ now row g, R g ((promote now row).set g))
    {parent : Fragment} (hretire : ∀ now f, f.id = parent.id → R f ((retireParent now).set f)) (store : Store) :
    Persists R store (processFragmentSplit digests policy services store parent) := by
  simp only [processFragmentSplit]
  split
  · exact Persists.of_eq hR rfl
  · rename_i items hitems
    split
    · exact Persists.of_eq hR rfl
    · have hinserted : Persists R store
          (insertChildren digests services parent store (gateSplitChildren policy items parent)).1 :=
        persists_insertChildren hR hpromote _ store
      simp only [commitSplit]
      split
      · rename_i inserted hchildren
        rw [hchildren] at hinserted
        exact hinserted
      · rename_i inserted ids hchildren
        rw [hchildren] at hinserted
        have hchained : Persists R inserted ((ids.zip (ids.drop 1)).foldl
            (fun current pair => tryLink current pair.1 pair.2 .related 1) inserted) :=
          (Rewrites.foldl hR fun current pair _ => rewrites_tryLink hR current pair.1 pair.2 _ _).persists
        have hlinked : Persists R _ (ids.foldl (fun current id => tryLink current id parent.id .partOf 1)
            ((ids.zip (ids.drop 1)).foldl (fun current pair => tryLink current pair.1 pair.2 .related 1) inserted)) :=
          (Rewrites.foldl hR fun current id _ => rewrites_tryLink hR current id parent.id _ _).persists
        refine ((hinserted.trans hR hchained).trans hR hlinked).trans hR ?_
        exact (rewrites_updateFragments hR fun f _ hcond => hretire _ f (of_decide_eq_true hcond)).persists

theorem keepsAnchors_splitLongFragments (digests : Digests) (policy : SplitPolicy) (services : SplitServices)
    (store : Store) : KeepsAnchors store (splitLongFragments digests policy services store) := by
  simp only [splitLongFragments]
  split
  · refine keepsAnchors_of_persists fun anchor hmem hanchor => ?_
    have hadmits := admits_held anchor
    refine Persists.foldl hadmits fun current parent hparent => ?_
    refine persists_processFragmentSplit hadmits (fun now row g => held_promote anchor g row now) ?_ current
    intro now f hid
    refine ⟨rfl, fun hsame => ?_⟩
    obtain ⟨hrow, hcond⟩ :=
      List.mem_filter.mp ((List.perm_insertionSort _ _).mem_iff.mp (List.mem_of_mem_take hparent))
    have hplain : parent.isAnchor = false := by
      simp only [Bool.and_eq_true, Bool.not_eq_true'] at hcond
      exact hcond.1.1.1.2
    rw [← eq_of_id _ hrow hmem (hid.symm.trans hsame), hplain] at hanchor
    cases hanchor
  · exact KeepsAnchors.refl store

end Split

/-- The automatic stages: those that treat pairs of fragments, and those that write rows by themselves. -/
inductive AutomaticStage
  | pairs (stage : Stage)
  | deleteExpired (policy : GcPolicy) (now : Time) (utilityScore : FragmentId → ℚ)
  | decayImportance (factor : Fragment → ℚ)
  | transitionTTL (now : Time) (qualityVerified : FragmentId → Option Bool)
  | splitLongFragments (policy : SplitPolicy) (services : SplitServices)
  | purgeStaleReflections (policy : ReflectionPolicy) (now : Time)

def runAutomatic (settings : Settings) (state : Store × Detector) : AutomaticStage → Store × Detector
  | .pairs stage =>
    let after := runStage (begin settings state.1 state.2) stage
    (after.journal.store, after.detector)
  | .deleteExpired policy now utilityScore => (FragmentGC.deleteExpired policy now utilityScore state.1, state.2)
  | .decayImportance factor => (FragmentGC.decayImportance factor state.1, state.2)
  | .transitionTTL now qualityVerified => (FragmentGC.transitionTTL now qualityVerified state.1, state.2)
  | .splitLongFragments policy services =>
    (ConsolidatorGC.splitLongFragments settings.digests policy services state.1, state.2)
  | .purgeStaleReflections policy now => (ConsolidatorGC.purgeStaleReflections policy now state.1, state.2)

/-- No treated pair ends or weakens an anchor, and no anchor is about to cool down. -/
def StageSpares (settings : Settings) (state : Store × Detector) : AutomaticStage → Prop
  | .pairs stage => (runStage (begin settings state.1 state.2) stage).journal.Meets SparesAnchors
  | .transitionTTL now qualityVerified => ∀ f ∈ state.1.fragments.rows, f.isAnchor = true →
      promoted qualityVerified f = false → coolsDown now f = false
  | .deleteExpired _ _ _ | .decayImportance _ | .splitLongFragments _ _ | .purgeStaleReflections _ _ => True

instance (settings : Settings) (state : Store × Detector) (stage : AutomaticStage) :
    Decidable (StageSpares settings state stage) :=
  match stage with
  | .pairs stage => inferInstanceAs (Decidable ((runStage (begin settings state.1 state.2) stage).journal.Meets SparesAnchors))
  | .transitionTTL now qualityVerified => inferInstanceAs (Decidable (∀ f ∈ state.1.fragments.rows, f.isAnchor = true →
      promoted qualityVerified f = false → coolsDown now f = false))
  | .deleteExpired _ _ _ | .decayImportance _ | .splitLongFragments _ _ | .purgeStaleReflections _ _ =>
    inferInstanceAs (Decidable True)

theorem keepsAnchors_pairs {store : Store} {detector : Detector} {stage : Stage} (hdistinct : Distinct detector)
    (hspares : (runStage (begin settings store detector) stage).journal.Meets SparesAnchors) :
    KeepsAnchors store (runStage (begin settings store detector) stage).journal.store := by
  have hbegin : (begin settings store detector).journal.Meets (Selected (ReadPair stage store)) := trivial
  have hselected := (runStage_meets hbegin hdistinct fun _ _ h => h).1
  refine Journal.invariant (I := KeepsAnchors store) ?_ (KeepsAnchors.refl store) (StepsMeet.and hselected hspares)
  intro current pair hkeeps hpair
  exact hkeeps.trans (keepsAnchors_pairStep hpair.1 hpair.2)

/-- One stage that spares the anchors keeps them. -/
theorem keepsAnchors_runAutomatic {state : Store × Detector} {stage : AutomaticStage} (hdistinct : Distinct state.2)
    (hspares : StageSpares settings state stage) : KeepsAnchors state.1 (runAutomatic settings state stage).1 := by
  cases stage with
  | pairs stage => exact keepsAnchors_pairs hdistinct hspares
  | deleteExpired policy now utilityScore => exact keepsAnchors_deleteExpired policy now utilityScore state.1
  | decayImportance factor => exact keepsAnchors_decayImportance factor state.1
  | transitionTTL now qualityVerified => exact keepsAnchors_transitionTTL hspares
  | splitLongFragments policy services =>
    exact keepsAnchors_splitLongFragments settings.digests policy services state.1
  | purgeStaleReflections policy now => exact keepsAnchors_purgeStaleReflections policy now state.1

theorem distinct_runAutomatic {state : Store × Detector} (hdistinct : Distinct state.2) (stage : AutomaticStage) :
    Distinct (runAutomatic settings state stage).2 := by
  cases stage with
  | pairs stage =>
    have hbegin : (begin settings state.1 state.2).journal.Meets fun _ _ => True := trivial
    exact (runStage_meets hbegin hdistinct fun _ _ _ => trivial).2
  | _ => exact hdistinct

/-- In a run of stages that spare the anchors every stage keeps them, and so does the run. -/
theorem anchors_retained {start : Store} {detector : Detector} {stages : List AutomaticStage}
    (hdistinct : Distinct detector)
    (hspares : StepsMeet (runAutomatic settings) (StageSpares settings) (start, detector) stages) :
    StepsMeet (runAutomatic settings) (fun state stage => KeepsAnchors state.1 (runAutomatic settings state stage).1)
        (start, detector) stages ∧
      KeepsAnchors start (run (runAutomatic settings) (start, detector) stages).1 := by
  constructor
  · refine stepsMeet_of_invariant (I := fun state => Distinct state.2) ?_ hdistinct hspares
    intro state stage hstate hstage
    exact ⟨distinct_runAutomatic hstate stage, keepsAnchors_runAutomatic hstate hstage⟩
  · have hrun := invariant_run_of_meets (I := fun state : Store × Detector =>
        Distinct state.2 ∧ KeepsAnchors start state.1) ?_ ⟨hdistinct, KeepsAnchors.refl start⟩ hspares
    · exact hrun.2
    · intro state stage hstate hstage
      exact ⟨distinct_runAutomatic hstate.1 stage, hstate.2.trans (keepsAnchors_runAutomatic hstate.1 hstage)⟩

/-- Two anchors of one topic that a batch of the master has stored. -/
def anchorStore : Store :=
  let item := fun content : String =>
    some { content := some content, type := some .fact, topic := some "deploy", isAnchor := true }
  let context := {
    keyId := none
    newId := fun position => if position = 0 then "frag-a" else "frag-b"
    now := 1 }
  (BatchRememberProcessor.process sampleSettings.digests sampleSettings.tools context {}
    [item sampleContent, item replacementContent]).1

/-- The event of an embedding, with a similarity to every other row. -/
def embeddedAt (similarity : ℚ) : AutomaticStage :=
  .pairs (.embeddingReady { embedded := fun _ => true, similarity := fun _ _ => similarity } 2 "frag-b")

/-- Linking, decay and a transition a day later keep two anchors. -/
theorem anchors_retained_anchorStore :
    KeepsAnchors anchorStore (run (runAutomatic sampleSettings) (anchorStore, {})
      [embeddedAt (8 / 10), .decayImportance fun _ => 1 / 2, .transitionTTL dayMs fun _ => none]).1 :=
  have hdistinct : Distinct {} := fun _ h => absurd h List.not_mem_nil
  have hspares : StepsMeet (runAutomatic sampleSettings) (StageSpares sampleSettings) (anchorStore, {})
      [embeddedAt (8 / 10), .decayImportance fun _ => 1 / 2, .transitionTTL dayMs fun _ => none] := by decide +kernel
  (anchors_retained hdistinct hspares).2

/-- A month without an access cools an anchor down, and the gate of the linker expires one. -/
theorem anchors_retired :
    ¬ KeepsAnchors anchorStore (runAutomatic sampleSettings (anchorStore, {}) (.transitionTTL (31 * dayMs) fun _ => none)).1 ∧
      ¬ KeepsAnchors anchorStore (runAutomatic sampleSettings (anchorStore, {}) (embeddedAt (96 / 100))).1 := by
  decide +kernel

end FragmentMemory.AnchorRetention
