import FragmentMemory.LinkSurvival
import Mathlib.Tactic.Linarith

/-! # Which way a reconsolidation moves a link

`reconsolidate` brings every weight into the range from 0 to 2, while explicit links take any number and common
retrievals count upwards.  A confidence stays between 0 and 1, so that it always moves the right way; a weight does
when it is in the range before.
-/
namespace FragmentMemory.LinkWeights
open FragmentTables LinkStore LinkMirror LinkSurvival GraphLinker TransitionRuns UniqueIndexTable

/-- The actions that are to strengthen a link; those that are to weaken it are the limited ones. -/
def strengthens : ReconsolidateAction → Bool
  | .reinforce | .restore => true
  | .decay | .quarantine | .softDelete => false

/-- No link that is strengthened loses weight or confidence, and none that is weakened gains any. -/
def MovesRight (store : Store) : LinkEvent → Prop
  | .reconsolidate e action now recentlyDecayed => ∀ ends l after, store.links.holder ends = some l →
      (linkEventStep store (.reconsolidate e action now recentlyDecayed)).links.holder ends = some after →
        (strengthens action = true → l.weight ≤ after.weight ∧ l.confidence ≤ after.confidence) ∧
          (action.limited = true → after.weight ≤ l.weight ∧ after.confidence ≤ l.confidence)
  | _ => True

/-- A link that a reconsolidation changes has no weight beyond the end of the range towards which it moves. -/
def InRange (store : Store) : LinkEvent → Prop
  | .reconsolidate e action _ recentlyDecayed => ∀ l, store.links.holder e = some l → l.deletedAt = none →
      (action.limited && recentlyDecayed e) = false →
        (strengthens action = true → l.weight ≤ 2) ∧ (action.limited = true → 0 ≤ l.weight)
  | _ => True

/-- `CHECK (confidence >= 0 AND confidence <= 1)`. -/
def Confident (store : Store) : Prop := ∀ l ∈ store.links.rows, 0 ≤ l.confidence ∧ l.confidence ≤ 1

/-- A store without links. -/
def unlinked (store : Store) : Store := { store with links := Table.empty }

/-- The weight of a link that an operation adds. -/
def newWeight : LinkEvent → ℚ
  | .explicit _ _ _ weight | .related _ _ weight | .temporal _ _ weight => weight
  | .coRetrieved _ | .reconsolidate _ _ _ _ => 1

/-! ## What an operation does to the rows -/

/-- A row after an operation: a new one, one that has at least the weight that it had, or a reconsolidated one. -/
inductive Outcome (rows : List Link) (event : LinkEvent) (l : Link) : Prop
  | added (hconfidence : l.confidence = 1) (hweight : l.weight = newWeight event)
  | kept (before : Link) (hbefore : before ∈ rows) (hconfidence : l.confidence = before.confidence)
      (hweight : before.weight ≤ l.weight)
  | changed (before : Link) (hbefore : before ∈ rows) (action : ReconsolidateAction) (now : Time)
      (hafter : l = reconsolidated action now before)

variable {store : Store}

/-- The rows after an upsert that only adds to weights. -/
theorem outcome_upsert {links : LinkTable} {row : Link} {arbiter : FragmentId × FragmentId} {set : Link → Link}
    {hset : ∀ l, (set l).entries = l.entries} {event : LinkEvent}
    (h : store.links.upsert arbiter row set hset = some links) (hconfidence : row.confidence = 1)
    (hweight : row.weight = newWeight event)
    (hraises : ∀ l, (set l).confidence = l.confidence ∧ l.weight ≤ (set l).weight) {l : Link} (hl : l ∈ links.rows) :
    Outcome store.links.rows event l := by
  rcases Table.upsert_cases h with ⟨held, -, rfl⟩ | ⟨-, hinsert⟩
  · obtain ⟨before, hbefore, hafter⟩ := (Table.mem_update_iff _ hset).mp hl
    rw [hafter]
    split
    · exact .kept before hbefore (hraises before).1 (hraises before).2
    · exact .kept before hbefore rfl le_rfl
  · rw [Table.rows_insert hinsert] at hl
    rcases List.mem_append.mp hl with hold | hnew
    · exact .kept l hold rfl le_rfl
    · rw [List.mem_singleton.mp hnew]
      exact .added hconfidence hweight

theorem outcome_tryLink {fromId toId : FragmentId} {relationType : RelationType} {weight : ℚ} {event : LinkEvent}
    (hevent : newWeight event = weight) {l : Link} (hl : l ∈ (tryLink store fromId toId relationType weight).links.rows) :
    Outcome store.links.rows event l := by
  have hkept : l ∈ store.links.rows → Outcome store.links.rows event l := fun hl => .kept l hl rfl le_rfl
  rw [tryLink] at hl
  cases hcreated : createLink store fromId toId relationType weight with
  | none =>
    rw [hcreated] at hl
    exact hkept hl
  | some next =>
    rw [hcreated] at hl
    obtain ⟨-, -, links, hupsert, rfl⟩ := createLink_eq_some hcreated
    exact outcome_upsert hupsert rfl hevent.symm (fun _ => ⟨rfl, le_max_left _ _⟩) hl

theorem reconsolidated_entries (action : ReconsolidateAction) (now : Time) (l : Link) :
    (reconsolidated action now l).entries = l.entries := rfl

theorem outcome_linkEventStep {event : LinkEvent} {l : Link} (hl : l ∈ (linkEventStep store event).links.rows) :
    Outcome store.links.rows event l := by
  have hkept : l ∈ store.links.rows → Outcome store.links.rows event l := fun hl => .kept l hl rfl le_rfl
  cases event with
  | explicit fromId toId relationType weight => exact outcome_tryLink rfl hl
  | related fromId toId weight => exact outcome_tryLink rfl hl
  | temporal fromId toId weight => exact outcome_tryLink rfl hl
  | coRetrieved e =>
    simp only [linkEventStep, coRetrieve] at hl
    split at hl
    · cases hupsert : store.links.upsert e { fromId := e.1, toId := e.2, relationType := .coRetrieved }
          (fun l => { l with weight := l.weight + 1 }) fun _ => rfl with
      | none =>
        rw [hupsert] at hl
        exact hkept hl
      | some links =>
        rw [hupsert] at hl
        exact outcome_upsert hupsert rfl rfl (fun l => ⟨rfl, by linarith only []⟩) hl
    · exact hkept hl
  | reconsolidate e action now recentlyDecayed =>
    obtain ⟨before, hbefore, hafter⟩ := (Table.mem_update_iff store.links (reconsolidated_entries action now)).mp hl
    rw [hafter]
    split
    · exact .changed before hbefore action now rfl
    · exact .kept before hbefore rfl le_rfl

/-! ## The range of the confidence -/

theorem confidence_reconsolidated (action : ReconsolidateAction) (now : Time) {l : Link}
    (h : 0 ≤ l.confidence ∧ l.confidence ≤ 1) :
    0 ≤ (reconsolidated action now l).confidence ∧ (reconsolidated action now l).confidence ≤ 1 := by
  obtain ⟨hlower, hupper⟩ := h
  simp only [reconsolidated]
  split
  · exact ⟨le_max_left _ _, max_le (by norm_num) (by linarith only [hupper])⟩
  · split
    · exact ⟨le_min (by norm_num) (by linarith only [hlower]), min_le_left _ _⟩
    · exact ⟨hlower, hupper⟩

theorem Confident.step (h : Confident store) (event : LinkEvent) : Confident (linkEventStep store event) := by
  intro l hl
  cases outcome_linkEventStep hl with
  | added hconfidence =>
    rw [hconfidence]
    exact ⟨by norm_num, le_rfl⟩
  | kept before hbefore hconfidence =>
    rw [hconfidence]
    exact h before hbefore
  | changed before hbefore action now hafter =>
    rw [hafter]
    exact confidence_reconsolidated action now (h before hbefore)

theorem confident_unlinked (store : Store) : Confident (unlinked store) := fun _ hl => absurd hl List.not_mem_nil

/-! ## One reconsolidation -/

theorem weight_reconsolidated (action : ReconsolidateAction) (now : Time) (l : Link) :
    (reconsolidated action now l).weight = max 0 (min 2 (l.weight + action.delta)) := rfl

theorem strengthens_iff (action : ReconsolidateAction) : strengthens action = true ↔ 0 < action.delta := by
  cases action <;> decide +kernel

theorem limited_iff (action : ReconsolidateAction) : action.limited = true ↔ action.delta < 0 := by
  cases action <;> decide +kernel

/-- A link is strengthened exactly when its weight was not above the range. -/
theorem strengthened_iff {action : ReconsolidateAction} (haction : strengthens action = true) (now : Time) (l : Link) :
    l.weight ≤ (reconsolidated action now l).weight ↔ l.weight ≤ 2 := by
  have hdelta := (strengthens_iff action).mp haction
  rw [weight_reconsolidated]
  constructor
  · intro h
    exact h.trans (max_le (by norm_num) (min_le_left _ _))
  · intro h
    exact le_max_of_le_right (le_min h (by linarith only [hdelta]))

/-- A link is weakened exactly when its weight was not below the range. -/
theorem weakened_iff {action : ReconsolidateAction} (haction : action.limited = true) (now : Time) (l : Link) :
    (reconsolidated action now l).weight ≤ l.weight ↔ 0 ≤ l.weight := by
  have hdelta := (limited_iff action).mp haction
  rw [weight_reconsolidated]
  constructor
  · intro h
    exact (le_max_left _ _).trans h
  · intro h
    exact max_le h ((min_le_right _ _).trans (by linarith only [hdelta]))

theorem confidence_strengthened {action : ReconsolidateAction} (haction : strengthens action = true) (now : Time)
    {l : Link}
    (h : l.confidence ≤ 1) : l.confidence ≤ (reconsolidated action now l).confidence := by
  have hdelta := (strengthens_iff action).mp haction
  simp only [reconsolidated, if_neg (not_lt.mpr hdelta.le), if_pos hdelta]
  exact le_min h (by linarith only [])

theorem confidence_weakened {action : ReconsolidateAction} (haction : action.limited = true) (now : Time) {l : Link}
    (h : 0 ≤ l.confidence) : (reconsolidated action now l).confidence ≤ l.confidence := by
  have hdelta := (limited_iff action).mp haction
  simp only [reconsolidated, if_pos hdelta]
  exact max_le h (by linarith only [])

theorem holder_reconsolidate (store : Store) (e ends : FragmentId × FragmentId) (action : ReconsolidateAction)
    (now : Time)
    (recentlyDecayed : FragmentId × FragmentId → Bool) :
    (linkEventStep store (.reconsolidate e action now recentlyDecayed)).links.holder ends =
      (store.links.holder ends).map fun l =>
        if decide ((l.fromId, l.toId) = e) && l.deletedAt.isNone &&
            !(action.limited && recentlyDecayed (l.fromId, l.toId)) then reconsolidated action now l else l :=
  Table.holder_update store.links (reconsolidated_entries action now) ends

theorem movesRight_iff (h : Confident store) (event : LinkEvent) : MovesRight store event ↔ InRange store event := by
  cases event with
  | reconsolidate e action now recentlyDecayed =>
    constructor
    · intro hmoves l hl hlive hfree
      have hends : (l.fromId, l.toId) = e :=
        (LinkWrites.ends_mem_entries.mp ((Table.holder_eq_some_iff _).mp hl).2).symm
      have hafter := holder_reconsolidate store e e action now recentlyDecayed
      rw [hl, Option.map_some, hends, hlive, hfree] at hafter
      obtain ⟨hup, hdown⟩ := hmoves e l (reconsolidated action now l) hl (by rw [hafter]; simp)
      exact ⟨fun haction => (strengthened_iff haction now l).mp (hup haction).1,
        fun haction => (weakened_iff haction now l).mp (hdown haction).1⟩
    · intro hrange ends l after hl hafter
      rw [holder_reconsolidate, hl, Option.map_some] at hafter
      have hconfident := h l ((Table.holder_eq_some_iff _).mp hl).1
      split at hafter
      · rename_i hreached
        simp only [Bool.and_eq_true, decide_eq_true_eq, Option.isNone_iff_eq_none, Bool.not_eq_true'] at hreached
        obtain ⟨⟨hends, hlive⟩, hfree⟩ := hreached
        have hsame : ends = e := by
          rw [← hends]
          exact LinkWrites.ends_mem_entries.mp ((Table.holder_eq_some_iff _).mp hl).2
        obtain ⟨hupper, hlower⟩ := hrange l (hsame ▸ hl) hlive (hends ▸ hfree)
        rw [← Option.some.inj hafter]
        exact ⟨fun haction => ⟨(strengthened_iff haction now l).mpr (hupper haction),
            confidence_strengthened haction now hconfident.2⟩,
          fun haction => ⟨(weakened_iff haction now l).mpr (hlower haction),
            confidence_weakened haction now hconfident.1⟩⟩
      · rw [← Option.some.inj hafter]
        exact ⟨fun _ => ⟨le_rfl, le_rfl⟩, fun _ => ⟨le_rfl, le_rfl⟩⟩
  | explicit fromId toId relationType weight => exact Iff.rfl
  | related fromId toId weight => exact Iff.rfl
  | temporal fromId toId weight => exact Iff.rfl
  | coRetrieved e => exact Iff.rfl

/-- In every run the reconsolidations move the links the right way exactly when each finds the link that it changes in
range. -/
theorem links_moveRight_iff (start : Store) (events : List LinkEvent) :
    StepsMeet linkEventStep MovesRight (unlinked start) events ↔
    StepsMeet linkEventStep InRange (unlinked start) events := by
  have hrun : ∀ store, Confident store →
      (StepsMeet linkEventStep MovesRight store events ↔ StepsMeet linkEventStep InRange store events) := by
    induction events with
    | nil => exact fun _ _ => Iff.rfl
    | cons event later ih =>
      intro store h
      rw [StepsMeet, StepsMeet, movesRight_iff h event, ih _ (h.step event)]
  exact hrun _ (confident_unlinked start)

/-- Where no link is asked for with a negative weight there is none: what is weakened was in range. -/
theorem weights_nonnegative (start : Store) {events : List LinkEvent} (h : ∀ event ∈ events, 0 ≤ newWeight event) :
    ∀ l ∈ (run linkEventStep (unlinked start) events).links.rows, 0 ≤ l.weight := by
  have hrun : ∀ store : Store, (∀ l ∈ store.links.rows, 0 ≤ l.weight) →
      ∀ l ∈ (run linkEventStep store events).links.rows, 0 ≤ l.weight := by
    induction events with
    | nil => exact fun _ hstore => hstore
    | cons event later ih =>
      intro store hstore
      refine ih (fun other hother => h other (List.mem_cons_of_mem _ hother)) _ fun l hl => ?_
      cases outcome_linkEventStep hl with
      | added hconfidence hweight =>
        rw [hweight]
        exact h event List.mem_cons_self
      | kept before hbefore hconfidence hweight => exact (hstore before hbefore).trans hweight
      | changed before hbefore action now hafter =>
        rw [hafter, weight_reconsolidated]
        exact le_max_left _ _
  exact hrun _ fun _ hl => absurd hl List.not_mem_nil

section Sample

def weightAt (store : Store) (e : FragmentId × FragmentId) : Option ℚ := (store.links.holder e).map Link.weight

/-- A link of weight 5, one of weight -1 and one that three common retrievals have strengthened. -/
def heavyLink : List LinkEvent := [.explicit "frag-01" "frag-02" .causedBy 5]

theorem weights_nonnegative_heavy :
    (run linkEventStep (unlinked apartStore) heavyLink).links.rows.all (0 ≤ ·.weight) = true :=
  List.all_eq_true.mpr fun l hl =>
    decide_eq_true (weights_nonnegative apartStore (by simp [heavyLink, newWeight]) l hl)

def negativeLink : List LinkEvent := [.explicit "frag-01" "frag-02" .causedBy (-1)]

def retrievedLink : List LinkEvent := List.replicate 3 (.coRetrieved ("frag-01", "frag-02"))

def reconsolidation (action : ReconsolidateAction) : LinkEvent :=
  .reconsolidate ("frag-01", "frag-02") action 3 fun _ => false

/-- The heavy link loses 3 and the retrieved one loses 1 when they are reinforced; the negative one gains 1 when it
decays. -/
theorem weights_moved :
    (weightAt (run linkEventStep (unlinked apartStore) heavyLink) ("frag-01", "frag-02") = some 5 ∧
        weightAt (run linkEventStep (unlinked apartStore) (heavyLink ++ [reconsolidation .reinforce])) ("frag-01", "frag-02") =
          some 2) ∧
      (weightAt (run linkEventStep (unlinked apartStore) retrievedLink) ("frag-01", "frag-02") = some 3 ∧
        weightAt (run linkEventStep (unlinked apartStore) (retrievedLink ++ [reconsolidation .reinforce]))
          ("frag-01", "frag-02") = some 2) ∧
      weightAt (run linkEventStep (unlinked apartStore) negativeLink) ("frag-01", "frag-02") = some (-1) ∧
        weightAt (run linkEventStep (unlinked apartStore) (negativeLink ++ [reconsolidation .decay])) ("frag-01", "frag-02") =
          some 0 := by
  decide +kernel

theorem reinforce_lowers :
    ¬ ∀ start events, StepsMeet linkEventStep MovesRight (unlinked start) events := by
  intro h
  obtain ⟨⟨hbefore, hafter⟩, -⟩ := weights_moved
  obtain ⟨l, hl, hweight⟩ := Option.map_eq_some_iff.mp hbefore
  obtain ⟨after, hchanged, hlowered⟩ := Option.map_eq_some_iff.mp hafter
  have hmoves := (stepsMeet_concat.mp (h apartStore (heavyLink ++ [reconsolidation .reinforce]))).2
  rw [run_append] at hchanged
  have hraised := ((hmoves ("frag-01", "frag-02") l after hl hchanged).1 rfl).1
  rw [hweight, hlowered] at hraised
  exact absurd hraised (by decide)

end Sample

end FragmentMemory.LinkWeights
