import FragmentMemory.ExponentialDecay
import FragmentMemory.FragmentGC

/-! # Runs of the decay of importance

`decayImportance` over the real numbers.  One statement updates every row that is neither permanent
nor an anchor; the rows that follow a run carry its time as their reference, and a run that would
break the check on the importance leaves the table as it was.
-/
namespace FragmentMemory.DecayRuns
open FragmentTables FragmentGC ExponentialDecay

theorem two_atLeastTwo : Nat.AtLeastTwo 2 := ⟨le_rfl⟩

attribute [local instance] two_atLeastTwo

/-- The columns that `decayImportance` reads or writes; times are in seconds. -/
structure DecayRow where
  type : FragmentType
  importance : ℝ
  emaActivation : Option ℝ := none
  lastDecayAt : Option ℝ := none
  accessedAt : Option ℝ := none
  createdAt : Option ℝ := none
  ttlTier : Option TtlTier := some .warm
  isAnchor : Option Bool := some false

/-- `CHECK (importance >= 0 AND importance <= 1)`. -/
def DecayRow.Check (f : DecayRow) : Prop := 0 ≤ f.importance ∧ f.importance ≤ 1

abbrev DecayTable := {rows : List DecayRow // ∀ f ∈ rows, f.Check}

/-- `WHERE ttl_tier != 'permanent' AND is_anchor = FALSE`; a null column does not meet it. -/
def DecayRow.decays (f : DecayRow) : Bool := f.ttlTier.any (· ≠ .permanent) && f.isAnchor = some false

/-- The seconds of the `CASE` over the type. -/
def halfLifeSeconds : FragmentType → ℕ
  | .procedure => 2592000
  | .fact => 5184000
  | .decision => 7776000
  | .error => 3888000
  | .preference => 10368000
  | .relation => 7776000
  | _ => 5184000

/-- The half-life of the statement, in seconds. -/
noncomputable def halfLife (type : FragmentType) (emaActivation : Option ℝ) : ℝ :=
  halfLifeSeconds type * min 2 (max 1 (1 + emaActivation.getD 0 * 0.5))

/-- `COALESCE(last_decay_at, accessed_at, created_at, NOW())`. -/
def DecayRow.reference (now : ℝ) (f : DecayRow) : ℝ :=
  (f.lastDecayAt <|> f.accessedAt <|> f.createdAt).getD now

/-- One of the three times is recorded. -/
def DecayRow.recorded (f : DecayRow) : Bool := (f.lastDecayAt <|> f.accessedAt <|> f.createdAt).isSome

/-- The importance at `time` of a row that has decayed since `start`. -/
noncomputable def DecayRow.importanceAt (f : DecayRow) (start time : ℝ) : ℝ :=
  floored 0.05 f.importance (remaining (halfLife f.type f.emaActivation) start time)

/-- The row as a run at `time` leaves it when it has decayed since `start`. -/
noncomputable def DecayRow.after (f : DecayRow) (start time : ℝ) : DecayRow :=
  { f with importance := f.importanceAt start time, lastDecayAt := some time }

/-- One row after the statement. -/
noncomputable def decayRow (now : ℝ) (f : DecayRow) : DecayRow :=
  if f.decays then f.after (f.reference now) now else f

open Classical in
/-- `decayImportance` at `NOW() = now`. -/
noncomputable def decayImportance (now : ℝ) (table : DecayTable) : DecayTable :=
  if hcheck : ∀ f ∈ table.val.map (decayRow now), f.Check then ⟨table.val.map (decayRow now), hcheck⟩ else table

/-- The runs of `decayImportance` at the given times. -/
noncomputable def decayRuns (times : List ℝ) (table : DecayTable) : DecayTable :=
  times.foldl (fun table now => decayImportance now table) table

/-! ## The reference of `decay.js` -/

/-- `HALF_LIFE_DAYS`, without its `default`. -/
def HALF_LIFE_DAYS : FragmentType → Option ℕ
  | .procedure => some 30
  | .fact => some 60
  | .decision => some 90
  | .error => some 45
  | .preference => some 120
  | .relation => some 90
  | .episode => none

/-- `HALF_LIFE_DAYS[type] ?? HALF_LIFE_DAYS.default`. -/
def baseHalfLife (type : FragmentType) : ℕ := (HALF_LIFE_DAYS type).getD 60

/-- `computeDynamicHalfLife`, in days. -/
noncomputable def computeDynamicHalfLife (type : FragmentType) (emaActivation : Option ℝ) : ℝ :=
  baseHalfLife type * min 2 (max 1 (1 + emaActivation.getD 0 * 0.5))

/-- `computeDecayedImportance`. -/
noncomputable def computeDecayedImportance (initial deltaMs : ℝ) (type : FragmentType) (isAnchor : Bool) : ℝ :=
  if isAnchor then initial else max 0.05 (initial * 2 ^ (-(deltaMs / (baseHalfLife type * 86400000))))

theorem halfLifeSeconds_eq (type : FragmentType) : halfLifeSeconds type = 86400 * baseHalfLife type := by
  cases type <;> rfl

theorem halfLife_eq (type : FragmentType) (emaActivation : Option ℝ) :
    halfLife type emaActivation = 86400 * computeDynamicHalfLife type emaActivation := by
  rw [halfLife, halfLifeSeconds_eq, Nat.cast_mul, Nat.cast_ofNat, mul_assoc, computeDynamicHalfLife]

theorem halfLife_pos (type : FragmentType) (emaActivation : Option ℝ) : 0 < halfLife type emaActivation := by
  have hseconds : 0 < halfLifeSeconds type := by cases type <;> decide
  have hmultiplier : (1 : ℝ) ≤ min 2 (max 1 (1 + emaActivation.getD 0 * 0.5)) := le_min one_le_two (le_max_left _ _)
  exact mul_pos (Nat.cast_pos.mpr hseconds) (by linarith)

/-- Without activation the statement computes what the reference function does. -/
theorem importanceAt_eq_computeDecayedImportance {f : DecayRow} (hinactive : f.emaActivation.getD 0 ≤ 0)
    (start time : ℝ) :
    f.importanceAt start time = computeDecayedImportance f.importance (1000 * (time - start)) f.type false := by
  have hmultiplier : min 2 (max 1 (1 + f.emaActivation.getD 0 * 0.5)) = (1 : ℝ) := by
    rw [max_eq_left (by linarith), min_eq_right one_le_two]
  have hexponent : -(time - start) / halfLife f.type f.emaActivation =
      -(1000 * (time - start) / (baseHalfLife f.type * 86400000)) := by
    rw [halfLife, hmultiplier, halfLifeSeconds_eq]
    push_cast
    ring
  rw [DecayRow.importanceAt, floored, remaining, hexponent]
  rfl

/-- The stage of a cycle is this statement with its power as the factor. -/
theorem decayed_importance {factor : Fragment → ℚ} {f : Fragment} {row : DecayRow} {now : ℝ}
    (himportance : row.importance = f.importance)
    (hfactor : (factor f : ℝ) = remaining (halfLife row.type row.emaActivation) (row.reference now) now) :
    (((decayed factor).set f).importance : ℝ) = row.importanceAt (row.reference now) now := by
  rw [DecayRow.importanceAt, floored, ← hfactor, himportance]
  simp only [decayed]
  push_cast
  norm_num

/-! ## One run -/

theorem decayRow_of_decays {f : DecayRow} (h : f.decays) (now : ℝ) :
    decayRow now f = f.after (f.reference now) now := if_pos h

theorem decayRow_of_not_decays {f : DecayRow} (h : ¬f.decays) (now : ℝ) : decayRow now f = f := if_neg h

@[simp] theorem decays_after (f : DecayRow) (start time : ℝ) : (f.after start time).decays = f.decays := rfl

@[simp] theorem reference_after (f : DecayRow) (start time now : ℝ) : (f.after start time).reference now = time := rfl

theorem reference_of_recorded {f : DecayRow} (h : f.recorded) (now later : ℝ) :
    f.reference now = f.reference later := by
  obtain ⟨time, htime⟩ := Option.isSome_iff_exists.mp h
  rw [DecayRow.reference, DecayRow.reference, htime]
  rfl

theorem after_after (f : DecayRow) {start time later : ℝ} (hle : time ≤ later) :
    (f.after start time).after time later = f.after start later := by
  have himportance : (f.after start time).importanceAt time later = f.importanceAt start later :=
    floored_remaining (by norm_num) (halfLife_pos f.type f.emaActivation) hle
  rw [DecayRow.after, himportance]
  rfl

theorem check_after {f : DecayRow} (hcheck : f.Check) {start time : ℝ} (hle : start ≤ time) :
    (f.after start time).Check := by
  have hfactor := remaining_le_one (halfLife_pos f.type f.emaActivation) hle
  have hproduct : f.importance * remaining (halfLife f.type f.emaActivation) start time ≤ 1 :=
    mul_le_one₀ hcheck.2 remaining_pos.le hfactor
  exact ⟨le_max_of_le_left (by norm_num), max_le (by norm_num) hproduct⟩

theorem importance_after_le {f : DecayRow} (hfloor : 0.05 ≤ f.importance) {start time : ℝ} (hle : start ≤ time) :
    (f.after start time).importance ≤ f.importance := by
  apply floored_le hfloor
  · linarith
  · exact remaining_le_one (halfLife_pos f.type f.emaActivation) hle

/-- Two runs leave a row that decays as its reference at the first and the time of the second say. -/
theorem decayRow_decayRow {f : DecayRow} (h : f.decays) {now later : ℝ} (hle : now ≤ later) :
    decayRow later (decayRow now f) = f.after (f.reference now) later := by
  have hagain : (f.after (f.reference now) now).decays := h
  rw [decayRow_of_decays h, decayRow_of_decays hagain, reference_after, after_after f hle]

theorem decayRow_absorb {f : DecayRow} (hrecorded : f.decays → f.recorded) {now later : ℝ} (hle : now ≤ later) :
    decayRow later (decayRow now f) = decayRow later f := by
  by_cases h : f.decays
  · rw [decayRow_decayRow h hle, decayRow_of_decays h, reference_of_recorded (hrecorded h) later now]
  · rw [decayRow_of_not_decays h]

theorem check_decayRow {f : DecayRow} (hcheck : f.Check) {now : ℝ} (hpast : f.decays → f.reference now ≤ now) :
    (decayRow now f).Check := by
  by_cases h : f.decays
  · rw [decayRow_of_decays h]
    exact check_after hcheck (hpast h)
  · rwa [decayRow_of_not_decays h]

/-- A row that has passed a run passes every later one. -/
theorem check_decayRow_decayRow {f : DecayRow} {now later : ℝ} (hcheck : (decayRow now f).Check) (hle : now ≤ later) :
    (decayRow later (decayRow now f)).Check := by
  apply check_decayRow hcheck
  intro h
  by_cases hdecays : f.decays
  · rwa [decayRow_of_decays hdecays, reference_after]
  · rw [decayRow_of_not_decays hdecays] at h
    exact absurd h hdecays

/-! ## Runs of a table -/

theorem decayImportance_of_check {now : ℝ} {table : DecayTable} (hcheck : ∀ f ∈ table.val, (decayRow now f).Check) :
    (decayImportance now table).val = table.val.map (decayRow now) := by
  rw [decayImportance, dif_pos (List.forall_mem_map.mpr hcheck)]

theorem decayImportance_of_not_check {now : ℝ} {table : DecayTable}
    (hcheck : ¬∀ f ∈ table.val, (decayRow now f).Check) :
    decayImportance now table = table := by
  rw [decayImportance, dif_neg]
  rwa [List.forall_mem_map]

/-- An earlier run is not seen after a later one, refused or not. -/
theorem decayImportance_absorb {table : DecayTable} (hrecorded : ∀ f ∈ table.val, f.decays → f.recorded) {now later : ℝ}
    (hle : now ≤ later) :
    decayImportance later (decayImportance now table) = decayImportance later table := by
  by_cases hcheck : ∀ f ∈ table.val, (decayRow now f).Check
  · have hfirst := decayImportance_of_check hcheck
    have hagain : ∀ f ∈ (decayImportance now table).val, (decayRow later f).Check := by
      rw [hfirst, List.forall_mem_map]
      intro f hf
      exact check_decayRow_decayRow (hcheck f hf) hle
    have hrows : (decayImportance now table).val.map (decayRow later) = table.val.map (decayRow later) := by
      rw [hfirst, List.map_map]
      apply List.map_congr_left
      intro f hf
      exact decayRow_absorb (hrecorded f hf) hle
    have halone : ∀ f ∈ table.val, (decayRow later f).Check := by
      rw [← List.forall_mem_map, ← hrows, List.forall_mem_map]
      exact hagain
    apply Subtype.ext
    rw [decayImportance_of_check hagain, hrows, decayImportance_of_check halone]
  · rw [decayImportance_of_not_check hcheck]

theorem le_getLastD {now : ℝ} {later : List ℝ} (hsorted : (now :: later).Pairwise (· ≤ ·)) :
    now ≤ later.getLastD now := by
  cases later with
  | nil => exact le_refl now
  | cons next rest =>
    rw [List.getLastD_cons]
    apply List.rel_of_pairwise_cons hsorted
    exact List.getLastD_mem_cons ..

/-- Of the runs of a table whose references are recorded only the last is seen. -/
theorem decayRuns_absorb {table : DecayTable} (hrecorded : ∀ f ∈ table.val, f.decays → f.recorded) {now : ℝ}
    {later : List ℝ} (hsorted : (now :: later).Pairwise (· ≤ ·)) :
    decayRuns (now :: later) table = decayImportance (later.getLastD now) table := by
  induction later generalizing now with
  | nil => rfl
  | cons next rest ih =>
    have hle : now ≤ next := List.rel_of_pairwise_cons hsorted (List.mem_cons_self ..)
    have hskip : decayRuns (now :: next :: rest) table = decayRuns (next :: rest) table := by
      simp only [decayRuns, List.foldl_cons]
      rw [decayImportance_absorb hrecorded hle]
    rw [hskip, ih hsorted.tail, List.getLastD_cons]

/-- When no reference lies after the first run, every run passes and each row that decays has lost
what the time from its reference to the last run says. -/
theorem decayRuns_eq_after {table : DecayTable} {now : ℝ} {later : List ℝ} (hsorted : (now :: later).Pairwise (· ≤ ·))
    (hpast : ∀ f ∈ table.val, f.decays → f.reference now ≤ now) :
    (decayRuns (now :: later) table).val =
      table.val.map fun f => if f.decays then f.after (f.reference now) (later.getLastD now) else f := by
  have hpass : ∀ f ∈ table.val, (decayRow now f).Check := fun f hf => check_decayRow (table.prop f hf) (hpast f hf)
  have hfirst := decayImportance_of_check hpass
  induction later generalizing now table with
  | nil => exact hfirst
  | cons next rest ih =>
    have hnext : now ≤ next := List.rel_of_pairwise_cons hsorted (List.mem_cons_self ..)
    have hafter : ∀ f ∈ (decayImportance now table).val, f.decays → f.reference next ≤ next := by
      rw [hfirst, List.forall_mem_map]
      intro f hf hdecays
      by_cases h : f.decays
      · rwa [decayRow_of_decays h, reference_after]
      · rw [decayRow_of_not_decays h] at hdecays
        exact absurd hdecays h
    have hpass' : ∀ f ∈ (decayImportance now table).val, (decayRow next f).Check := fun f hf =>
      check_decayRow ((decayImportance now table).prop f hf) (hafter f hf)
    have hlast : now ≤ rest.getLastD next := hnext.trans (le_getLastD hsorted.tail)
    have hlater := ih hsorted.tail hafter hpass' (decayImportance_of_check hpass')
    rw [hfirst, List.map_map] at hlater
    rw [List.getLastD_cons]
    refine hlater.trans (List.map_congr_left fun f _ => ?_)
    by_cases h : f.decays
    · have hdecays : (f.after (f.reference now) now).decays := h
      simp only [Function.comp_apply, decayRow_of_decays h, if_pos hdecays, if_pos h, reference_after]
      exact after_after f hlast
    · simp only [Function.comp_apply, decayRow_of_not_decays h, if_neg h]

/-- The runs act row by row, and keep the rows that do not decay. -/
theorem decayRuns_eq_map (times : List ℝ) (table : DecayTable) :
    ∃ row : DecayRow → DecayRow, (∀ f, ¬f.decays → row f = f) ∧ (decayRuns times table).val = table.val.map row := by
  induction times generalizing table with
  | nil => exact ⟨id, fun _ _ => rfl, (List.map_id _).symm⟩
  | cons now rest ih =>
    obtain ⟨row, hkeep, hrow⟩ := ih (decayImportance now table)
    by_cases hcheck : ∀ f ∈ table.val, (decayRow now f).Check
    · refine ⟨row ∘ decayRow now, ?_, ?_⟩
      · intro f h
        rw [Function.comp_apply, decayRow_of_not_decays h, hkeep f h]
      · rw [← List.map_map, ← decayImportance_of_check hcheck]
        exact hrow
    · rw [decayImportance_of_not_check hcheck] at hrow
      have hrefused : decayRuns (now :: rest) table = decayRuns rest table := by
        rw [decayRuns, List.foldl_cons, decayImportance_of_not_check hcheck]
        rfl
      exact ⟨row, hkeep, by rw [hrefused]; exact hrow⟩

/-- Runs at non-decreasing times leave the table as the last of them alone, when the rows that decay
have a recorded reference; when none of the references lies after the first run they leave each such
row what the time since its reference says and raise none; rows that do not decay are kept by any
runs; the half-life is that of `computeDynamicHalfLife`. -/
theorem decayRuns_compose (table : DecayTable) (now : ℝ) (later : List ℝ) (hsorted : (now :: later).Pairwise (· ≤ ·)) :
    ((∀ f ∈ table.val, f.decays → f.recorded) →
      decayRuns (now :: later) table = decayRuns [later.getLastD now] table) ∧
    ((∀ f ∈ table.val, f.decays → f.reference now ≤ now) →
      List.Forall₂
        (fun f g =>
          (f.decays → g.importance = max 0.05 (f.importance *
            2 ^ (-(later.getLastD now - f.reference now) / (86400 * computeDynamicHalfLife f.type f.emaActivation)))) ∧
          (0.05 ≤ f.importance → g.importance ≤ f.importance))
        table.val (decayRuns (now :: later) table).val) ∧
    List.Forall₂ (fun f g => ¬f.decays → g = f) table.val (decayRuns (now :: later) table).val ∧
    ∀ type emaActivation, halfLife type emaActivation = 86400 * computeDynamicHalfLife type emaActivation := by
  refine ⟨fun hrecorded => decayRuns_absorb hrecorded hsorted, fun hpast => ?_, ?_, halfLife_eq⟩
  · rw [decayRuns_eq_after hsorted hpast, List.forall₂_map_right_iff, List.forall₂_same]
    intro f hf
    by_cases h : f.decays
    · have hlast : f.reference now ≤ later.getLastD now := (hpast f hf h).trans (le_getLastD hsorted)
      rw [if_pos h, ← halfLife_eq]
      exact ⟨fun _ => rfl, fun hfloor => importance_after_le hfloor hlast⟩
    · rw [if_neg h]
      exact ⟨fun hdecays => absurd hdecays h, fun _ => le_refl _⟩
  · obtain ⟨row, hkeep, hrow⟩ := decayRuns_eq_map (now :: later) table
    rw [hrow, List.forall₂_map_right_iff, List.forall₂_same]
    exact fun f _ => hkeep f

/-- A table of one row. -/
def single (f : DecayRow) (hcheck : f.Check) : DecayTable := ⟨[f], List.forall_mem_singleton.mpr hcheck⟩

@[simp] theorem rows_single {f : DecayRow} (hcheck : f.Check) : (single f hcheck).val = [f] := rfl

theorem decayRuns_single {f : DecayRow} (hcheck : f.Check) (h : f.decays) {now : ℝ}
    (hpass : (f.after (f.reference now) now).Check) :
    (decayRuns [now] (single f hcheck)).val = [f.after (f.reference now) now] := by
  have hrow := decayRow_of_decays h now
  have hpasses : ∀ g ∈ (single f hcheck).val, (decayRow now g).Check := by
    rw [rows_single, List.forall_mem_singleton, hrow]
    exact hpass
  calc (decayImportance now (single f hcheck)).val
      = (single f hcheck).val.map (decayRow now) := decayImportance_of_check hpasses
    _ = [f.after (f.reference now) now] := by rw [rows_single, List.map_singleton, hrow]

theorem importance_single {f : DecayRow} (hcheck : f.Check) (h : f.decays) {now : ℝ} {later : List ℝ}
    (hsorted : (now :: later).Pairwise (· ≤ ·)) (hpast : f.reference now ≤ now) :
    (decayRuns (now :: later) (single f hcheck)).val.map DecayRow.importance =
      [f.importanceAt (f.reference now) (later.getLastD now)] := by
  have hrows := @decayRuns_eq_after (single f hcheck) now later hsorted (List.forall_mem_singleton.mpr fun _ => hpast)
  rw [hrows, single, List.map_singleton, if_pos h, List.map_singleton, DecayRow.after]

/-- Half of the importance is left after one half-life. -/
theorem importanceAt_halfLife (f : DecayRow) {start time : ℝ}
    (hlapse : time - start = halfLife f.type f.emaActivation) :
    f.importanceAt start time = max 0.05 (f.importance / 2) := by
  have hexponent : -halfLife f.type f.emaActivation / halfLife f.type f.emaActivation = -1 := by
    rw [neg_div, div_self (halfLife_pos _ _).ne']
  rw [DecayRow.importanceAt, floored, remaining, hlapse, hexponent, Real.rpow_neg_one]
  rfl

theorem halfLife_fact : halfLife .fact none = 5184000 := by
  have hmultiplier : min 2 (max 1 (1 + 0 * 0.5)) = (1 : ℝ) := by norm_num
  rw [halfLife, Option.getD_none, hmultiplier, halfLifeSeconds]
  norm_num

/-- A fact created at a given time, if any. -/
def fact (importance : ℝ) (createdAt : Option ℝ) (isAnchor : Option Bool := some false) : DecayRow where
  type := .fact
  importance := importance
  createdAt := createdAt
  isAnchor := isAnchor

theorem importanceAt_fact (importance : ℝ) (createdAt : Option ℝ) {start time : ℝ} (hlapse : time - start = 5184000) :
    (fact importance createdAt).importanceAt start time = max 0.05 (importance / 2) :=
  importanceAt_halfLife _ (hlapse.trans halfLife_fact.symm)

theorem importanceAt_future : (fact 0.25 (some 5184000)).importanceAt 5184000 0 = 0.5 := by
  have hexponent : -(0 - 5184000) / halfLife .fact none = 1 := by
    rw [halfLife_fact]
    norm_num
  calc (fact 0.25 (some 5184000)).importanceAt 5184000 0
      = max 0.05 (0.25 * 2 ^ (-(0 - 5184000) / halfLife .fact none)) := rfl
    _ = 0.5 := by
      rw [hexponent, Real.rpow_one]
      norm_num

/-- A fact without any time decays from the first run on and so depends on where it was; one whose
creation lies in the future rises; one whose anchor flag is null never decays. -/
theorem decayRuns_depend_on_first :
    (∃ hcheck : (fact 0.8 none).Check,
      (decayRuns [0, 5184000] (single (fact 0.8 none) hcheck)).val.map DecayRow.importance = [0.4] ∧
      (decayRuns [5184000] (single (fact 0.8 none) hcheck)).val.map DecayRow.importance = [0.8]) ∧
    (∃ hcheck : (fact 0.25 (some 5184000)).Check,
      (decayRuns [0] (single (fact 0.25 (some 5184000)) hcheck)).val.map DecayRow.importance = [0.5]) ∧
    ∃ hcheck : (fact 0.8 (some 0) none).Check,
      (decayRuns [5184000] (single (fact 0.8 (some 0) none) hcheck)).val.map DecayRow.importance = [0.8] := by
  have hcheck : (fact 0.8 none).Check := by constructor <;> norm_num [fact]
  have hcheck' : (fact 0.25 (some 5184000)).Check := by constructor <;> norm_num [fact]
  have hcheck'' : (fact 0.8 (some 0) none).Check := by constructor <;> norm_num [fact]
  refine ⟨⟨hcheck, ?_, ?_⟩, ⟨hcheck', ?_⟩, ⟨hcheck'', ?_⟩⟩
  · rw [importance_single hcheck rfl (by norm_num) (le_refl _), importanceAt_fact 0.8 none (by norm_num [fact, DecayRow.reference])]
    norm_num
  · rw [importance_single hcheck rfl (by norm_num) (le_refl _), DecayRow.importanceAt, floored]
    norm_num [fact, DecayRow.reference]
  · have hpass : ((fact 0.25 (some 5184000)).after 5184000 0).Check := by
      rw [DecayRow.Check, DecayRow.after, importanceAt_future]
      constructor <;> norm_num
    rw [decayRuns_single hcheck' rfl hpass, List.map_singleton]
    exact congrArg (fun importance => [importance]) importanceAt_future
  · obtain ⟨row, hkeep, hrow⟩ := decayRuns_eq_map [5184000] (single (fact 0.8 (some 0) none) hcheck'')
    rw [hrow, rows_single, List.map_singleton, hkeep _ (by decide), List.map_singleton, fact]

/-- Two runs a month apart halve a fact that is then two months old. -/
theorem fact_halved : ∃ hcheck : (fact 0.8 (some 0)).Check,
    ∃ g, (decayRuns [2592000, 5184000] (single (fact 0.8 (some 0)) hcheck)).val = [g] ∧ g.importance = 0.4 := by
  have hcheck : (fact 0.8 (some 0)).Check := by constructor <;> norm_num [fact]
  have hsorted : ([2592000, 5184000] : List ℝ).Pairwise (· ≤ ·) := by norm_num
  have hpast : ∀ f ∈ (single (fact 0.8 (some 0)) hcheck).val, f.decays → f.reference 2592000 ≤ 2592000 := by
    rw [rows_single, List.forall_mem_singleton]
    intro _
    norm_num [fact, DecayRow.reference]
  have hvalues := (decayRuns_compose (single (fact 0.8 (some 0)) hcheck) 2592000 [5184000] hsorted).2.1 hpast
  rw [rows_single, List.forall₂_cons_left_iff] at hvalues
  obtain ⟨g, rest, ⟨himportance, _⟩, hrest, hrows⟩ := hvalues
  rw [List.forall₂_nil_left_iff.mp hrest] at hrows
  refine ⟨hcheck, g, hrows, ?_⟩
  calc g.importance
      = (fact 0.8 (some 0)).importanceAt 0 5184000 := by
        rw [himportance rfl, ← halfLife_eq]
        rfl
    _ = 0.4 := by
        rw [importanceAt_fact 0.8 (some 0) (by norm_num)]
        norm_num

end FragmentMemory.DecayRuns
