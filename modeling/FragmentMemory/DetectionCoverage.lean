import FragmentMemory.DetectionProgress
import FragmentMemory.StageSelection

/-! # What incremental detection covers

Runs of detections and of the treatment of the queue between inserts and late embeddings.  A row is
covered when a call has looked at it or a later one still will; a queued pair is kept when it is in the
queue or has been judged.  A step keeps both exactly when it meets a condition on the state before it.
-/
namespace FragmentMemory.DetectionCoverage
open ApiKeyStore FragmentTables FragmentWriter MemoryRememberer PairSteps GraphLinker ContradictionDetector
  RowPersistence StageSelection TransitionRuns UniqueIndexTable ContentUniqueness RememberLiveness

/-- The tables, the ids that have an embedding and the detector, with a record of the rows looked at, of
the pairs queued and of those judged. -/
structure Monitored where
  store : Store
  embedded : List FragmentId := []
  detector : Detector
  examined : List FragmentId := []
  flagged : List PendingPair
  judged : List PendingPair := []

inductive Event
  | insert (digests : Digests) (now : Time) (f : Fragment)
  | embed (id : FragmentId)
  | detectContradictions (services : Services)
  | processPendingContradictions (services : Services)
  | resetCheckedPairs

/-- The start of a record; no row has its embedding yet. -/
def begin (store : Store) (detector : Detector) : Monitored :=
  { store := store, detector := detector, flagged := detector.pending }

/-- The services of a call that sees these embeddings. -/
def seeing (embedded : List FragmentId) (services : Services) : Services :=
  { services with embeddings := { services.embeddings with embedded := fun id => decide (id ∈ embedded) } }

/-- The entry for which a turn of the queue obtains a verdict. -/
def judgedIn (services : Services) (detector : Detector) : Option PendingPair :=
  detector.pending.head?.filter fun entry =>
    (acquirePairCheck detector entry.idA entry.idB).isSome &&
      (services.contradiction detector.checkedPairs.length entry.contentA entry.contentB).isSome

/-- The entries judged in some turns of the queue. -/
def judgedWithin {settings : Settings} {start : Store} (services : Services) (turns : ℕ)
    (state : Journal settings start × Detector) : List PendingPair :=
  (List.range turns).filterMap fun turn => judgedIn services ((processPending services)^[turn] state).2

variable (settings : Settings)

def step (state : Monitored) : Event → Monitored
  | .insert digests now f =>
    match insert digests now state.store f with
    | none => state
    | some (next, _) => { state with store := next }
  | .embed id =>
    match state.store.fragments.byId id with
    | none => state
    | some _ => { state with embedded := state.embedded ++ [id] }
  | .detectContradictions services =>
    let seen := seeing state.embedded services
    let detection := ContradictionDetector.detectContradictions seen (Journal.empty settings state.store) state.detector
    { state with
      store := detection.journal.store
      detector := detection.detector
      examined := state.examined ++ (newFragments seen state.store state.detector).map Fragment.id
      flagged := state.flagged ++ detection.detector.pending.drop state.detector.pending.length }
  | .processPendingContradictions services =>
    let before := (Journal.empty settings state.store, state.detector)
    let after := ContradictionDetector.processPendingContradictions services before.1 before.2
    { state with
      store := after.1.store
      detector := after.2
      judged := state.judged ++
        if services.cliAvailable && services.redisReady then judgedWithin services 10 before else [] }
  | .resetCheckedPairs => { state with detector := resetCheckedPairs state.detector }

/-- A time that a later call still looks at. -/
def awaited (detector : Detector) (createdAt : Time) : Bool := detector.lastCheckAt.all (· < createdAt)

/-- Every embedded row has been looked at or is after the checkpoint. -/
def Covered (state : Monitored) : Prop :=
  ∀ f ∈ state.store.fragments.rows, f.id ∈ state.embedded → f.id ∈ state.examined ∨ awaited state.detector f.createdAt = true

/-- The pairs queued are those judged and those still in the queue. -/
def Kept (state : Monitored) : Prop := state.flagged.Perm (state.judged ++ state.detector.pending)

/-- Detection has skipped nothing so far. -/
def SkipsNothing (state : Monitored) : Prop := Covered state ∧ Kept state

/-- The first entries of a queue may all be checked again, and the language model answers for each. -/
def Answerable (services : Services) : List (FragmentId × FragmentId) → List PendingPair → Prop
  | _, [] => True
  | checked, entry :: later =>
    checked.count (orderedPair entry.idA entry.idB) < MAX_CONTRADICTION_DEPTH ∧
      (services.contradiction checked.length entry.contentA entry.contentB).isSome = true ∧
        Answerable services (checked ++ [orderedPair entry.idA entry.idB]) later

/-- The condition of a step.  An embedding must not come too late; a detection that moves the checkpoint
must not leave out a row for the first time; the entries taken off the queue must be answerable. -/
def Condition (state : Monitored) : Event → Prop
  | .insert _ _ _ | .resetCheckedPairs => True
  | .embed id => ∀ f ∈ state.store.fragments.rows, f.id = id →
      f.id ∈ state.examined ∨ awaited state.detector f.createdAt = true
  | .detectContradictions services =>
    let seen := seeing state.embedded services
    let selected := newFragments seen state.store state.detector
    (services.redisReady = false ∨
      Undecided seen state.detector.checkedPairs (candidatePairs seen state.store selected)) ∨
      ∀ f ∈ state.store.fragments.rows, eligible seen state.detector f = true → f ∈ selected ∨ f.id ∈ state.examined
  | .processPendingContradictions services =>
    (services.cliAvailable && services.redisReady) = true →
      Answerable services state.detector.checkedPairs (state.detector.pending.take 10)

/-- Only rows have embeddings. -/
def EmbedsRows (state : Monitored) : Prop := ∀ id ∈ state.embedded, ∃ f ∈ state.store.fragments.rows, f.id = id

variable {settings}

/-- Id and date of a row stay. -/
def SameDate (f g : Fragment) : Prop := g.id = f.id ∧ g.createdAt = f.createdAt

theorem admits_sameDate : Admits SameDate where
  refl _ := ⟨rfl, rfl⟩
  trans _ _ _ h h' := ⟨h'.1.trans h.1, h'.2.trans h.2⟩
  linked _ _ := ⟨rfl, rfl⟩
  accessed _ _ _ _ := ⟨rfl, rfl⟩
  asserted _ _ := ⟨rfl, rfl⟩
  cased _ _ := ⟨rfl, rfl⟩

theorem sameDate_journal {start : Store} (journal : Journal settings start) :
    Persists SameDate start journal.store := by
  have hpersists : Persists Descends start journal.store := by
    have hmeets : journal.Meets fun _ _ => True := stepsMeet_of_forall (fun _ _ => trivial) _ _
    refine Journal.invariant (I := fun store => Persists Descends start store) (fun store pair hstore _ => ?_)
      (Persists.of_eq admits_descends rfl) hmeets
    exact hstore.trans admits_descends (descends_pairStep settings store pair)
  intro f hf
  obtain ⟨g, hg, hdescends⟩ := hpersists f hf
  exact ⟨g, hg, hdescends.id, hdescends.createdAt⟩

theorem sameDate_step (state : Monitored) (event : Event) :
    Persists SameDate state.store (step settings state event).store := by
  have hsame : Persists SameDate state.store state.store := Persists.of_eq admits_sameDate rfl
  cases event with
  | insert digests now f =>
    simp only [step]
    split
    · exact hsame
    · rename_i next id hinsert
      exact persists_insert admits_sameDate (fun _ _ _ => ⟨rfl, rfl⟩) hinsert
  | embed id =>
    simp only [step]
    split <;> exact hsame
  | detectContradictions services => exact sameDate_journal _
  | processPendingContradictions services => exact sameDate_journal _
  | resetCheckedPairs => exact hsame

/-- Only the embedding of a row adds to those that have one. -/
theorem embedded_step {state : Monitored} {event : Event} {id : FragmentId}
    (h : id ∈ (step settings state event).embedded) :
    id ∈ state.embedded ∨ event = .embed id ∧ ∃ f ∈ state.store.fragments.rows, f.id = id := by
  cases event with
  | insert digests now f =>
    simp only [step] at h
    split at h <;> exact Or.inl h
  | embed late =>
    simp only [step] at h
    split at h
    · exact Or.inl h
    · rename_i f hf
      rcases List.mem_append.mp h with hold | hnew
      · exact Or.inl hold
      · have hid : id = late := List.mem_singleton.mp hnew
        rw [← hid] at hf
        exact Or.inr ⟨by rw [hid], f, (byId_eq_some_iff _).mp hf⟩
  | detectContradictions services => exact Or.inl h
  | processPendingContradictions services => exact Or.inl h
  | resetCheckedPairs => exact Or.inl h

theorem embedsRows_step (state : Monitored) (event : Event) (h : EmbedsRows state) :
    EmbedsRows (step settings state event) := by
  intro id hid
  have hrow : ∃ f ∈ state.store.fragments.rows, f.id = id := by
    rcases embedded_step hid with hold | ⟨-, hrow⟩
    · exact h id hold
    · exact hrow
  obtain ⟨f, hf, hfid⟩ := hrow
  obtain ⟨g, hg, hsame⟩ := sameDate_step state event f hf
  exact ⟨g, hg, hsame.1.trans hfid⟩

/-- An embedded row after a step is one from before, with its date. -/
theorem row_before {state : Monitored} {event : Event} (h : EmbedsRows state) {g : Fragment}
    (hg : g ∈ (step settings state event).store.fragments.rows) (hid : g.id ∈ state.embedded) :
    ∃ f ∈ state.store.fragments.rows, f.id = g.id ∧ f.createdAt = g.createdAt := by
  obtain ⟨f, hf, hfid⟩ := h g.id hid
  obtain ⟨k, hk, hsame⟩ := sameDate_step state event f hf
  have hrow : k = g := eq_of_id _ hk hg (hsame.1.trans hfid)
  exact ⟨f, hf, hfid, by rw [← hrow, hsame.2]⟩

/-- A step that leaves the checkpoint alone and forgets no examination covers what was covered. -/
theorem covered_of_unmoved {state : Monitored} {event : Event} (hrows : EmbedsRows state) (h : Covered state)
    (hembedded : (step settings state event).embedded = state.embedded)
    (hexamined : state.examined ⊆ (step settings state event).examined)
    (hunmoved : (step settings state event).detector.lastCheckAt = state.detector.lastCheckAt) :
    Covered (step settings state event) := by
  intro g hg hid
  rw [hembedded] at hid
  obtain ⟨f, hf, hfid, hdate⟩ := row_before hrows hg hid
  have hcovered := h f hf (hfid ▸ hid)
  rw [hfid, hdate] at hcovered
  simp only [awaited, hunmoved]
  exact hcovered.imp (fun hmem => hexamined hmem) id

theorem covered_embed {state : Monitored} {id : FragmentId} (h : Covered state) :
    Covered (step settings state (.embed id)) ↔ Condition state (.embed id) := by
  cases hrow : state.store.fragments.byId id with
  | none =>
    have hmissing := (byId_eq_none_iff _).mp hrow
    simp only [step, hrow, Condition]
    exact ⟨fun _ f hf hid => absurd hid (hmissing f hf), fun _ => h⟩
  | some held =>
    simp only [step, hrow, Condition]
    constructor
    · intro hnext f hf hid
      exact hnext f hf (List.mem_append_right _ (List.mem_singleton.mpr hid))
    · intro hcondition f hf hid
      rcases List.mem_append.mp hid with hold | hnew
      · exact h f hf hold
      · exact hcondition f hf (List.mem_singleton.mp hnew)

/-- An awaited row with an embedding is eligible. -/
theorem eligible_of_awaited {services : Services} {embedded : List FragmentId} {detector : Detector} {f : Fragment}
    (hid : f.id ∈ embedded) (h : awaited detector f.createdAt = true) :
    eligible (seeing embedded services) detector f = true := by
  have hread : (readCheckpoint (seeing embedded services) detector).all (· < f.createdAt) = true := by
    simp only [readCheckpoint]
    split
    · exact h
    · rfl
  rw [eligible, hread, Bool.and_true]
  exact decide_eq_true hid

theorem covered_detectContradictions {state : Monitored} {services : Services} (hrows : EmbedsRows state)
    (h : Covered state) :
    Covered (step settings state (.detectContradictions services)) ↔
    Condition state (.detectContradictions services) := by
  obtain ⟨hunmoved, hmoved⟩ := @lastCheckAt_detectContradictions settings state.store (seeing state.embedded services)
    (Journal.empty settings state.store) state.detector
  constructor
  · intro hnext
    refine or_iff_not_imp_left.mpr fun hdecided f hf heligible => ?_
    obtain ⟨newest, hnewest, hcheckpoint⟩ := hmoved hdecided
    obtain ⟨g, hg, hsame⟩ := @sameDate_step settings state (.detectContradictions services) f hf
    have hid : f.id ∈ state.embedded := by
      simp only [eligible, Bool.and_eq_true] at heligible
      exact of_decide_eq_true heligible.1
    rcases hnext g hg (hsame.1 ▸ hid) with hexamined | hawaited
    · rw [hsame.1] at hexamined
      rcases List.mem_append.mp hexamined with hbefore | hselected
      · exact Or.inr hbefore
      · obtain ⟨other, hother, hotherId⟩ := List.mem_map.mp hselected
        have hrow : other = f := by
          refine eq_of_id _ ?_ hf hotherId
          exact (List.mem_filter.mp ((List.mem_insertionSort _).mp (List.mem_of_mem_take hother))).1
        exact Or.inl (hrow ▸ hother)
    · left
      by_contra hout
      have hle := createdAt_le_of_not_selected hf heligible hout hnewest
      simp only [step, awaited, hcheckpoint, Option.all_some, decide_eq_true_eq] at hawaited
      rw [hsame.2] at hawaited
      exact absurd hawaited (not_lt.mpr hle)
  · rintro (hidle | hselected)
    · exact covered_of_unmoved hrows h rfl (List.subset_append_left _ _) (hunmoved hidle)
    · intro g hg hid
      obtain ⟨f, hf, hfid, hdate⟩ := row_before hrows hg hid
      have hlooked : f ∈ newFragments (seeing state.embedded services) state.store state.detector ∨
          f.id ∈ state.examined := by
        rcases h f hf (hfid ▸ hid) with hexamined | hawaited
        · exact Or.inr hexamined
        · exact hselected f hf (eligible_of_awaited (hfid ▸ hid) hawaited)
      left
      rw [← hfid]
      rcases hlooked with hnew | hexamined
      · exact List.mem_append_right _ (List.mem_map_of_mem hnew)
      · exact List.mem_append_left _ hexamined

variable {services : Services} {start : Store}

/-- One turn of the queue takes its first entry off and leaves the checkpoint alone. -/
theorem processPending_detector (state : Journal settings start × Detector) :
    (processPending services state).2.pending = state.2.pending.drop 1 ∧
      (processPending services state).2.lastCheckAt = state.2.lastCheckAt ∧
        ∀ entry ∈ state.2.pending.head?,
          state.2.checkedPairs.count (orderedPair entry.idA entry.idB) < MAX_CONTRADICTION_DEPTH →
            (processPending services state).2.checkedPairs = state.2.checkedPairs ++ [orderedPair entry.idA entry.idB] := by
  simp only [processPending]
  split
  · rename_i hempty
    simp only [hempty, List.drop_nil, List.head?_nil, Option.not_mem_none, true_and]
    exact nofun
  · rename_i entry later hpending
    simp only [hpending, List.drop_succ_cons, List.drop_zero, List.head?_cons, Option.mem_some_iff]
    split
    · rename_i hrefused
      refine ⟨rfl, rfl, ?_⟩
      rintro _ rfl hless
      exact absurd (Detection.refused_iff.mp hrefused) (not_le.mpr hless)
    · rename_i acquired hacquired
      obtain ⟨-, rfl⟩ := Detection.acquired_spec hacquired
      have hacquiredHere : ∀ other : PendingPair, entry = other →
          state.2.checkedPairs.count (orderedPair other.idA other.idB) < MAX_CONTRADICTION_DEPTH →
          state.2.checkedPairs ++ [orderedPair entry.idA entry.idB] =
            state.2.checkedPairs ++ [orderedPair other.idA other.idB] := by
        rintro _ rfl _
        rfl
      split
      · split <;> exact ⟨rfl, rfl, hacquiredHere⟩
      · exact ⟨rfl, rfl, hacquiredHere⟩

theorem judgedIn_cons {detector : Detector} {entry : PendingPair} {later : List PendingPair}
    (hpending : detector.pending = entry :: later) :
    judgedIn services detector = if detector.checkedPairs.count (orderedPair entry.idA entry.idB) < MAX_CONTRADICTION_DEPTH ∧
      (services.contradiction detector.checkedPairs.length entry.contentA entry.contentB).isSome = true then some entry
      else none := by
  have hcheck : (acquirePairCheck detector entry.idA entry.idB).isSome =
      decide (detector.checkedPairs.count (orderedPair entry.idA entry.idB) < MAX_CONTRADICTION_DEPTH) := by
    simp only [acquirePairCheck]
    split
    · rename_i hle
      exact (decide_eq_false (not_lt.mpr hle)).symm
    · rename_i hless
      exact (decide_eq_true (not_le.mp hless)).symm
  simp only [judgedIn, hpending, List.head?_cons, Option.filter_some, hcheck, Bool.and_eq_true, decide_eq_true_eq]

theorem judgedWithin_succ (turns : ℕ) (state : Journal settings start × Detector) :
    judgedWithin services (turns + 1) state =
      (judgedIn services state.2).toList ++ judgedWithin services turns (processPending services state) := by
  simp only [judgedWithin, List.range_succ_eq_map, List.filterMap_cons, List.filterMap_map, Function.iterate_zero,
    id_eq]
  cases judgedIn services state.2 with
  | none => rfl
  | some entry => rfl

/-- The turns judge entries from the front of the queue, and all of them exactly when these are
answerable. -/
theorem judgedWithin_spec (turns : ℕ) (state : Journal settings start × Detector) :
    ((processPending services)^[turns] state).2.pending = state.2.pending.drop turns ∧
      ((processPending services)^[turns] state).2.lastCheckAt = state.2.lastCheckAt ∧
        (judgedWithin services turns state).Sublist (state.2.pending.take turns) ∧
          (judgedWithin services turns state = state.2.pending.take turns ↔
            Answerable services state.2.checkedPairs (state.2.pending.take turns)) := by
  induction turns generalizing state with
  | zero => exact ⟨rfl, rfl, List.Sublist.slnil, fun _ => trivial, fun _ => rfl⟩
  | succ turns ih =>
    obtain ⟨hpending, hcheckpoint, hchecked⟩ := @processPending_detector settings services start state
    obtain ⟨hpending', hcheckpoint', hsublist, hanswerable⟩ := ih (processPending services state)
    rw [Function.iterate_succ_apply, judgedWithin_succ]
    refine ⟨by rw [hpending', hpending, List.drop_drop, Nat.add_comm], hcheckpoint'.trans hcheckpoint, ?_⟩
    cases hqueue : state.2.pending with
    | nil =>
      have hnone : judgedIn services state.2 = none := by
        simp only [judgedIn, hqueue, List.head?_nil, Option.filter_none]
      rw [hqueue, List.drop_nil] at hpending
      rw [hpending, List.take_nil] at hsublist hanswerable
      rw [hnone, List.take_nil, List.eq_nil_of_sublist_nil hsublist]
      exact ⟨List.Sublist.slnil, fun _ => trivial, fun _ => rfl⟩
    | cons entry later =>
      rw [hqueue, List.drop_succ_cons, List.drop_zero] at hpending
      rw [hpending] at hsublist hanswerable
      rw [List.take_succ_cons, judgedIn_cons hqueue, Answerable]
      split
      · rename_i hanswered
        rw [hchecked entry (by rw [hqueue]; rfl) hanswered.1] at hanswerable
        refine ⟨hsublist.cons_cons entry, ?_⟩
        constructor
        · intro hall
          exact ⟨hanswered.1, hanswered.2, hanswerable.mp (List.cons.inj hall).2⟩
        · intro h
          exact congrArg (entry :: ·) (hanswerable.mpr h.2.2)
      · rename_i hunanswered
        refine ⟨hsublist.cons entry, ?_⟩
        constructor
        · intro hall
          have hlength := hsublist.length_le
          simp only [Option.toList_none, List.nil_append] at hall
          rw [hall, List.length_cons] at hlength
          omega
        · intro h
          exact absurd ⟨h.1, h.2.1⟩ hunanswered

/-- The treatment of the queue keeps every pair exactly when the entries it takes off are answerable. -/
theorem kept_processPendingContradictions {state : Monitored} (h : Kept state) :
    Kept (step settings state (.processPendingContradictions services)) ↔
      Condition state (.processPendingContradictions services) := by
  by_cases hrun : (services.cliAvailable && services.redisReady) = true
  · obtain ⟨hpending, -, hsublist, hanswerable⟩ :=
      @judgedWithin_spec settings services state.store 10 (Journal.empty settings state.store, state.detector)
    simp only [Kept, step, ContradictionDetector.processPendingContradictions, hrun, if_true, Condition, forall_const]
    rw [hpending, ← hanswerable]
    have hbefore : state.flagged.Perm
        (state.judged ++ (state.detector.pending.take 10 ++ state.detector.pending.drop 10)) := by
      rw [List.take_append_drop]
      exact h
    rw [List.append_assoc]
    constructor
    · intro hnext
      have hsame := (List.perm_append_left_iff _).mp (hbefore.symm.trans hnext)
      exact hsublist.eq_of_length ((List.perm_append_right_iff _).mp hsame).length_eq.symm
    · intro hall
      rw [hall]
      exact hbefore
  · simp only [Kept, step, ContradictionDetector.processPendingContradictions, if_neg hrun, List.append_nil]
    exact ⟨fun _ hready => absurd hready hrun, fun _ => h⟩

theorem kept_detectContradictions {state : Monitored} (h : Kept state) :
    Kept (step settings state (.detectContradictions services)) := by
  have hprefix := @pending_detectContradictions settings state.store (seeing state.embedded services)
    (Journal.empty settings state.store) state.detector
  have hqueue := List.prefix_iff_eq_append.mp hprefix
  simp only [Kept, step]
  rw [← hqueue, List.drop_left, ← List.append_assoc]
  exact h.append_right _

/-- A step skips nothing exactly when it meets its condition. -/
theorem skipsNothing_step {state : Monitored} {event : Event} (hrows : EmbedsRows state) (h : SkipsNothing state) :
    SkipsNothing (step settings state event) ↔ Condition state event := by
  obtain ⟨hcovered, hkept⟩ := h
  cases event with
  | insert digests now f =>
    have hdetector : (step settings state (.insert digests now f)) =
        { state with store := (step settings state (.insert digests now f)).store } := by
      simp only [step]
      split <;> rfl
    refine ⟨fun _ => trivial, fun _ => ⟨?_, ?_⟩⟩
    · refine covered_of_unmoved hrows hcovered ?_ ?_ ?_
      · rw [hdetector]
      · rw [hdetector]
        exact List.Subset.refl _
      · rw [hdetector]
    · rw [hdetector]
      exact hkept
  | embed id =>
    have hqueue : Kept (step settings state (.embed id)) := by
      simp only [step]
      split <;> exact hkept
    exact (and_iff_left hqueue).trans (covered_embed hcovered)
  | detectContradictions services =>
    exact (and_iff_left (kept_detectContradictions hkept)).trans (covered_detectContradictions hrows hcovered)
  | processPendingContradictions services =>
    have hunmoved : (step settings state (.processPendingContradictions services)).detector.lastCheckAt =
        state.detector.lastCheckAt := by
      simp only [step, ContradictionDetector.processPendingContradictions]
      split
      · exact (judgedWithin_spec 10 _).2.1
      · rfl
    have hrowsKept : Covered (step settings state (.processPendingContradictions services)) :=
      covered_of_unmoved hrows hcovered rfl (List.Subset.refl _) hunmoved
    exact (and_iff_right hrowsKept).trans (kept_processPendingContradictions hkept)
  | resetCheckedPairs => exact ⟨fun _ => trivial, fun _ => ⟨hcovered, hkept⟩⟩

instance (state : Monitored) : Decidable (Covered state) :=
  inferInstanceAs (Decidable (∀ f ∈ state.store.fragments.rows,
    f.id ∈ state.embedded → f.id ∈ state.examined ∨ awaited state.detector f.createdAt = true))

instance (state : Monitored) : Decidable (Kept state) :=
  inferInstanceAs (Decidable (state.flagged.Perm (state.judged ++ state.detector.pending)))

def samplePort : String := "the vpn tunnel opens on port 1194"

/-- The insert of a row without a key, with the SHA-256 of its content. -/
def insertSample (now : Time) (id : FragmentId) (content hash : String) : Event :=
  .insert { hex := fun _ => hash, base64Url := fun _ => "" } now
    { sampleFragment with id := id, content := content, contentHash := hash, keyId := none }

/-- Three contents of one topic. -/
def sampleInserts : List Event := [
  insertSample 1 "frag-01" sampleContent "77dcdc41cdc3789120882cbf0383cede824aa0a0220f3d57b8b36bd33415aa8f",
  insertSample 2 "frag-02" replacementContent "84540520a92a90af91a54e39b986924f7eba198b87905a23003be5a0c3c5aa2a",
  insertSample 3 "frag-03" samplePort "4d8a432a6d96813f26c2510cfd2b800edeefe95601443e179a21dafe6cd24758"]

/-- Services that find all vectors close, with the answers of classifier and language model. -/
def sampleServices (cliAvailable : Bool) (nli : Option NliResult) : Services where
  embeddings := { embedded := fun _ => false, similarity := fun _ _ => 95 / 100 }
  nli := fun _ _ _ => nli
  cliAvailable := cliAvailable
  draws := fun check => sampleDraws (4 + check) "frag-04"
  now := 4

/-- The first row gets its vector after a call has compared the two newer ones. -/
def lateEmbedding : List Event :=
  sampleInserts ++ [.embed "frag-02", .embed "frag-03",
    .detectContradictions (sampleServices false (some ⟨false, false, "0.030"⟩)), .embed "frag-01"]

/-- A pair is queued without a language model, whose first answer then fails. -/
def failedVerdict : List Event :=
  sampleInserts ++ [.embed "frag-02", .embed "frag-03",
    .detectContradictions (sampleServices false none), .processPendingContradictions (sampleServices true none)]

end FragmentMemory.DetectionCoverage
