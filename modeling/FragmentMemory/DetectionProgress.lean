import FragmentMemory.ContradictionDetector

/-! # The progress of a detection of contradictions

A call looks at the twenty newest eligible rows and moves the checkpoint to the newest row for which
some pair came to a decision.  When no pair does, the call leaves checkpoint and tables alone.
-/
namespace FragmentMemory.ContradictionDetector
open ApiKeyStore FragmentTables MemoryRememberer PairSteps GraphLinker TransitionRuns

variable {settings : Settings} {start : Store} {services : Services}

/-- An answer that the classifier leaves open, or does not give. -/
def leavesOpen : Option NliResult → Bool
  | some ⟨_, false, _⟩ => false
  | _ => true

/-- The pairs of a call, in its order, in a store that it leaves alone. -/
def candidatePairs (services : Services) (store : Store) (newFrags : List Fragment) : List (Fragment × Fragment) :=
  newFrags.flatMap fun f => (contradictionCandidates services store f).map fun g => (f, g)

/-- No pair of a list comes to a decision: each is refused by the pair check, or the classifier leaves it
open without a language model to ask. -/
def Undecided (services : Services) : List (FragmentId × FragmentId) → List (Fragment × Fragment) → Prop
  | _, [] => True
  | checked, (f, g) :: later =>
    if MAX_CONTRADICTION_DEPTH ≤ checked.count (orderedPair f.id g.id) then Undecided services checked later
    else (leavesOpen (services.nli checked.length f.content g.content) = true ∧ services.cliAvailable = false) ∧
      Undecided services (checked ++ [orderedPair f.id g.id]) later

namespace Detection

/-- What an examination of pairs of some rows keeps, and what it may add. -/
structure Advances (newFrags : List Fragment) (before after : Detection settings start) : Prop where
  lastCheckAt : after.detector.lastCheckAt = before.detector.lastCheckAt
  pending : before.detector.pending <+: after.detector.pending
  idle : after.latestProcessed = none → before.latestProcessed = none ∧ after.journal.store = before.journal.store
  dated : ∀ t, after.latestProcessed = some t → before.latestProcessed = some t ∨ ∃ f ∈ newFrags, t = f.createdAt

theorem Advances.refl (newFrags : List Fragment) (detection : Detection settings start) :
    Advances newFrags detection detection :=
  ⟨rfl, List.prefix_rfl, fun h => ⟨h, rfl⟩, fun _ h => Or.inl h⟩

theorem Advances.mono {newFrags more : List Fragment} {before after : Detection settings start}
    (h : Advances newFrags before after) (hsub : newFrags ⊆ more) : Advances more before after where
  lastCheckAt := h.lastCheckAt
  pending := h.pending
  idle := h.idle
  dated t ht := (h.dated t ht).imp id fun ⟨f, hf, hdate⟩ => ⟨f, hsub hf, hdate⟩

theorem Advances.trans {newFrags : List Fragment} {first second third : Detection settings start}
    (h : Advances newFrags first second) (h' : Advances newFrags second third) : Advances newFrags first third where
  lastCheckAt := h'.lastCheckAt.trans h.lastCheckAt
  pending := h.pending.trans h'.pending
  idle hnone := by
    obtain ⟨hsecond, hstore⟩ := h'.idle hnone
    obtain ⟨hfirst, hstore'⟩ := h.idle hsecond
    exact ⟨hfirst, hstore.trans hstore'⟩
  dated t ht := by
    rcases h'.dated t ht with hsecond | hdate
    · exact h.dated t hsecond
    · exact Or.inr hdate

theorem processed_isSome (detection : Detection settings start) (f : Fragment) :
    (detection.processed f).latestProcessed.isSome = true := by
  cases hlatest : detection.latestProcessed with
  | none => simp only [processed, hlatest, Option.all_none, if_true, Option.isSome_some]
  | some t =>
    simp only [processed, hlatest]
    split <;> rfl

/-- A decision of a pair, which has left queue and checkpoint alone. -/
theorem advances_processed {newFrag : Fragment} {before after : Detection settings start}
    (hchecked : after.detector.lastCheckAt = before.detector.lastCheckAt)
    (hpending : after.detector.pending = before.detector.pending)
    (hlatest : after.latestProcessed = before.latestProcessed) :
    Advances [newFrag] before (after.processed newFrag) where
  lastCheckAt := hchecked
  pending := by
    simp only [processed, hpending]
    exact List.prefix_rfl
  idle hnone := by
    have hsome := processed_isSome after newFrag
    rw [hnone] at hsome
    cases hsome
  dated t ht := by
    simp only [processed] at ht
    split at ht
    · exact Or.inr ⟨newFrag, List.mem_singleton.mpr rfl, (Option.some.inj ht).symm⟩
    · exact Or.inl (hlatest ▸ ht)

theorem acquired_spec {detector acquired : Detector} {idA idB : FragmentId}
    (h : acquirePairCheck detector idA idB = some acquired) :
    detector.checkedPairs.count (orderedPair idA idB) < MAX_CONTRADICTION_DEPTH ∧
      acquired = { detector with checkedPairs := detector.checkedPairs ++ [orderedPair idA idB] } := by
  simp only [acquirePairCheck] at h
  split at h
  · cases h
  · rename_i hless
    exact ⟨not_le.mp hless, (Option.some.inj h).symm⟩

theorem refused_iff {detector : Detector} {idA idB : FragmentId} :
    acquirePairCheck detector idA idB = none ↔
      MAX_CONTRADICTION_DEPTH ≤ detector.checkedPairs.count (orderedPair idA idB) := by
  simp only [acquirePairCheck]
  split
  · rename_i hle
    exact ⟨fun _ => hle, fun _ => rfl⟩
  · rename_i hless
    exact ⟨nofun, fun hle => absurd hle hless⟩

theorem advances_escalate {newFrag candidate : Fragment} {before acquired : Detection settings start} (check : ℕ)
    (hchecked : acquired.detector.lastCheckAt = before.detector.lastCheckAt)
    (hpending : acquired.detector.pending = before.detector.pending) (hjournal : acquired.journal = before.journal)
    (hlatest : acquired.latestProcessed = before.latestProcessed) :
    Advances [newFrag] before (acquired.escalate services check newFrag candidate) := by
  simp only [escalate]
  split
  · split
    · exact advances_processed hchecked hpending hlatest
    · exact advances_processed hchecked hpending hlatest
  · have hkept : Advances [newFrag] before acquired := by
      refine ⟨hchecked, ?_, fun hnone => ⟨hlatest ▸ hnone, by rw [hjournal]⟩, fun t ht => Or.inl (hlatest ▸ ht)⟩
      exact hpending ▸ List.prefix_rfl
    split
    · simp only [flag]
      split
      · refine hkept.trans ⟨rfl, ?_, fun h => ⟨h, rfl⟩, fun _ h => Or.inl h⟩
        exact List.prefix_append _ _
      · exact hkept
    · exact hkept

theorem advances_examine (newFrag candidate : Fragment) (detection : Detection settings start) :
    Advances [newFrag] detection (examine services newFrag detection candidate) := by
  simp only [examine]
  split
  · exact Advances.refl [newFrag] detection
  · rename_i detector hacquired
    obtain ⟨-, rfl⟩ := acquired_spec hacquired
    split
    · exact advances_processed rfl rfl rfl
    · exact advances_processed rfl rfl rfl
    · exact advances_escalate _ rfl rfl rfl rfl

theorem advances_examineEach (newFrag : Fragment) (candidates : List Fragment) (detection : Detection settings start) :
    Advances [newFrag] detection (candidates.foldl (examine services newFrag) detection) := by
  induction candidates generalizing detection with
  | nil => exact Advances.refl [newFrag] detection
  | cons candidate later ih => exact (advances_examine newFrag candidate detection).trans (ih _)

theorem advances_examineAll (newFrags : List Fragment) (detection : Detection settings start) :
    Advances newFrags detection (newFrags.foldl (examineAll services) detection) := by
  induction newFrags generalizing detection with
  | nil => exact Advances.refl [] detection
  | cons f later ih =>
    have hfirst : Advances (f :: later) detection (examineAll services detection f) :=
      (advances_examineEach f _ detection).mono (List.cons_subset_cons f (List.nil_subset later))
    exact hfirst.trans ((ih _).mono (List.subset_cons_self f later))

/-- A pair that comes to no decision leaves at most its pair check. -/
theorem examine_open {newFrag candidate : Fragment} {detection : Detection settings start}
    (hcheck : detection.detector.checkedPairs.count (orderedPair newFrag.id candidate.id) < MAX_CONTRADICTION_DEPTH) :
    (leavesOpen (services.nli detection.detector.checkedPairs.length newFrag.content candidate.content) = true ∧
        services.cliAvailable = false →
      (examine services newFrag detection candidate).latestProcessed = detection.latestProcessed ∧
        (examine services newFrag detection candidate).detector.checkedPairs =
          detection.detector.checkedPairs ++ [orderedPair newFrag.id candidate.id]) ∧
    (¬ (leavesOpen (services.nli detection.detector.checkedPairs.length newFrag.content candidate.content) = true ∧
        services.cliAvailable = false) →
      (examine services newFrag detection candidate).latestProcessed.isSome = true) := by
  have hacquired : acquirePairCheck detection.detector newFrag.id candidate.id =
      some { detection.detector with
        checkedPairs := detection.detector.checkedPairs ++ [orderedPair newFrag.id candidate.id] } := by
    rw [acquirePairCheck, if_neg (not_le.mpr hcheck)]
  simp only [examine, hacquired]
  constructor
  · rintro ⟨hopen, hcli⟩
    split
    · rename_i hanswer
      rw [hanswer] at hopen
      cases hopen
    · rename_i hanswer
      rw [hanswer] at hopen
      cases hopen
    · simp only [escalate, hcli, Bool.false_eq_true, if_false, flag]
      split
      · split <;> exact ⟨rfl, rfl⟩
      · exact ⟨rfl, rfl⟩
  · intro hdecided
    split
    · exact processed_isSome _ _
    · exact processed_isSome _ _
    · rename_i hnotTrue hnotFalse
      have hopen : leavesOpen (services.nli detection.detector.checkedPairs.length newFrag.content candidate.content) =
          true := by
        simp only [leavesOpen]
        split
        · rename_i contradicts confidence hanswer
          cases contradicts with
          | false => exact absurd hanswer (hnotFalse confidence)
          | true => exact absurd hanswer (hnotTrue confidence)
        · rfl
      have hcli : services.cliAvailable = true := by
        cases hcli : services.cliAvailable with
        | true => rfl
        | false => exact absurd ⟨hopen, hcli⟩ hdecided
      simp only [escalate, hcli, if_true]
      exact processed_isSome _ _

theorem examine_refused {newFrag candidate : Fragment} {detection : Detection settings start}
    (hrefused : MAX_CONTRADICTION_DEPTH ≤ detection.detector.checkedPairs.count (orderedPair newFrag.id candidate.id)) :
    examine services newFrag detection candidate = detection := by
  simp only [examine, refused_iff.mpr hrefused]

/-- The candidates of one row: no decision is reached exactly when none of their pairs comes to one. -/
theorem undecided_examineEach {newFrag : Fragment} {candidates : List Fragment} {detection : Detection settings start}
    (hnone : detection.latestProcessed = none) (later : List (Fragment × Fragment)) :
    Undecided services detection.detector.checkedPairs (candidates.map (newFrag, ·) ++ later) ↔
      (candidates.foldl (examine services newFrag) detection).latestProcessed = none ∧
        Undecided services (candidates.foldl (examine services newFrag) detection).detector.checkedPairs later := by
  induction candidates generalizing detection with
  | nil => exact ⟨fun h => ⟨hnone, h⟩, fun h => h.2⟩
  | cons candidate rest ih =>
    simp only [List.map_cons, List.cons_append, Undecided, List.foldl_cons]
    split
    · rename_i hrefused
      rw [examine_refused hrefused]
      exact ih hnone
    · rename_i hless
      obtain ⟨hopen, hdecided⟩ := @examine_open settings start services newFrag candidate detection (not_le.mp hless)
      by_cases hleft : leavesOpen (services.nli detection.detector.checkedPairs.length newFrag.content
          candidate.content) = true ∧ services.cliAvailable = false
      · obtain ⟨hlatest, hchecked⟩ := hopen hleft
        rw [← hchecked, ih (hlatest.trans hnone)]
        exact and_iff_right hleft
      · have hsome := hdecided hleft
        constructor
        · intro h
          exact absurd h.1 hleft
        · rintro ⟨hlast, -⟩
          have hfirst := ((advances_examineEach newFrag rest _).idle hlast).1
          rw [hfirst] at hsome
          cases hsome

/-- The rows of a call: no decision is reached exactly when no pair of theirs comes to one, and then the
tables stay. -/
theorem undecided_examineAll {newFrags : List Fragment} {detection : Detection settings start}
    (hnone : detection.latestProcessed = none) :
    Undecided services detection.detector.checkedPairs (candidatePairs services detection.journal.store newFrags) ↔
      (newFrags.foldl (examineAll services) detection).latestProcessed = none := by
  induction newFrags generalizing detection with
  | nil => exact ⟨fun _ => hnone, fun _ => trivial⟩
  | cons f rest ih =>
    have hpairs : candidatePairs services detection.journal.store (f :: rest) =
        (contradictionCandidates services detection.journal.store f).map (f, ·) ++
          candidatePairs services detection.journal.store rest := List.flatMap_cons
    rw [hpairs, undecided_examineEach hnone, List.foldl_cons]
    change (examineAll services detection f).latestProcessed = none ∧
      Undecided services (examineAll services detection f).detector.checkedPairs _ ↔ _
    constructor
    · rintro ⟨hfirst, hrest⟩
      have hstore := ((advances_examineEach f _ detection).idle hfirst).2
      refine (ih hfirst).mp ?_
      rw [show (examineAll services detection f).journal.store = detection.journal.store from hstore]
      exact hrest
    · intro hlast
      have hfirst := ((advances_examineAll rest _).idle hlast).1
      have hstore := ((advances_examineEach f _ detection).idle hfirst).2
      refine ⟨hfirst, ?_⟩
      rw [← show (examineAll services detection f).journal.store = detection.journal.store from hstore]
      exact (ih hfirst).mpr hlast

end Detection

variable {journal : Journal settings start} {detector : Detector}

/-- The rows that a call leaves out are none of the newer ones. -/
theorem createdAt_le_of_not_selected {store : Store} {f g : Fragment} (hf : f ∈ store.fragments.rows)
    (heligible : eligible services detector f = true) (hout : f ∉ newFragments services store detector)
    (hg : g ∈ newFragments services store detector) : f.createdAt ≤ g.createdAt := by
  let newest : Fragment → Fragment → Prop := fun f g => g.createdAt ≤ f.createdAt
  have htotal : Std.Total newest := ⟨fun a b => Nat.le_total b.createdAt a.createdAt⟩
  have htrans : IsTrans Fragment newest := ⟨fun _ _ _ hab hbc => Nat.le_trans hbc hab⟩
  let sorted := (store.fragments.rows.filter (eligible services detector)).insertionSort newest
  have hmem : f ∈ sorted := (List.mem_insertionSort _).mpr (List.mem_filter.mpr ⟨hf, heligible⟩)
  have hsorted : (sorted.take 20 ++ sorted.drop 20).Pairwise newest := by
    rw [List.take_append_drop]
    exact List.pairwise_insertionSort newest _
  rw [← List.take_append_drop 20 sorted] at hmem
  rcases List.mem_append.mp hmem with hselected | hleft
  · exact absurd hselected hout
  · exact (List.pairwise_append.mp hsorted).2.2 g hg f hleft

/-- A call appends to the queue. -/
theorem pending_detectContradictions :
    detector.pending <+: (detectContradictions services journal detector).detector.pending := by
  have hadvances : Detection.Advances _ { journal := journal, detector := detector }
      (detectionOf services journal detector) := Detection.advances_examineAll _ _
  simp only [detectContradictions, updateCheckpoint]
  split
  · exact hadvances.pending
  · exact hadvances.pending

/-- A call leaves the checkpoint alone when the store is away or no pair comes to a decision; otherwise
it moves it to the date of a row that it has looked at. -/
theorem lastCheckAt_detectContradictions :
    ((services.redisReady = false ∨ Undecided services detector.checkedPairs
        (candidatePairs services journal.store (newFragments services journal.store detector))) →
      (detectContradictions services journal detector).detector.lastCheckAt = detector.lastCheckAt) ∧
    (¬ (services.redisReady = false ∨ Undecided services detector.checkedPairs
        (candidatePairs services journal.store (newFragments services journal.store detector))) →
      ∃ f ∈ newFragments services journal.store detector,
        (detectContradictions services journal detector).detector.lastCheckAt = some f.createdAt) := by
  let begun : Detection settings start := { journal := journal, detector := detector }
  have hadvances : Detection.Advances (newFragments services journal.store detector) begun
      (detectionOf services journal detector) := Detection.advances_examineAll _ begun
  have hidle : Undecided services detector.checkedPairs
      (candidatePairs services journal.store (newFragments services journal.store detector)) ↔
      (detectionOf services journal detector).latestProcessed = none :=
    @Detection.undecided_examineAll settings start services _ begun rfl
  have hcheckpoint : (detectContradictions services journal detector).detector.lastCheckAt =
      if services.redisReady && (detectionOf services journal detector).latestProcessed.isSome then
        (detectionOf services journal detector).latestProcessed
      else detector.lastCheckAt := by
    simp only [detectContradictions, updateCheckpoint]
    split
    · rfl
    · exact hadvances.lastCheckAt
  rw [hcheckpoint]
  constructor
  · rintro (hready | hundecided)
    · rw [hready, Bool.false_and, if_neg Bool.false_ne_true]
    · have hnone : (detectionOf services journal detector).latestProcessed = none := hidle.mp hundecided
      rw [hnone, Option.isSome_none, Bool.and_false, if_neg Bool.false_ne_true]
  · intro hmoved
    obtain ⟨hready, hdecided⟩ := not_or.mp hmoved
    cases hlatest : (detectionOf services journal detector).latestProcessed with
    | none => exact absurd (hidle.mpr hlatest) hdecided
    | some t =>
      obtain ⟨f, hf, hdate⟩ := (hadvances.dated t hlatest).resolve_left nofun
      rw [Bool.eq_true_of_not_eq_false hready, Option.isSome_some, Bool.and_true, if_pos rfl, hdate]
      exact ⟨f, hf, rfl⟩

end FragmentMemory.ContradictionDetector
