import Mathlib.Data.List.Infix
import Mathlib.Tactic.Linarith
import FragmentMemory.TransitionRuns

/-! # SearchParamAdaptor

The similarity threshold that is learnt for a key, a query type and an hour.  `recordOutcome` is one UPSERT:
the first call on a row inserts the default and every later one updates the row from its old values.
-/
namespace FragmentMemory.SearchParamAdaptor
open TransitionRuns

def MIN_SAMPLE : ℕ := 50
def CLAMP_MIN : ℚ := 10 / 100
def CLAMP_MAX : ℚ := 60 / 100

/-- `semanticSearch.minSimilarity` of the configuration. -/
def DEFAULT_SIM : ℚ := 4 / 10

/-- A key id as the callers hold it: none, one key, or the members of a group. -/
inductive RawKeyId
  | absent
  | one (key : String)
  | group (keys : List (Option String))

/-- `normalizeKeyId` in its mode for searches; the column is NOT NULL. -/
def normalizeKeyId : RawKeyId → String
  | .absent => "-1"
  | .one key => key
  | .group keys => keys.head?.join.getD "-1"

/-- The columns of the UNIQUE constraint. -/
structure RowKey where
  keyId : String
  queryType : String
  hourBucket : ℤ
  deriving DecidableEq

structure Threshold where
  minSimilarity : ℚ
  sampleCount : ℕ
  totalResultCount : ℕ
  deriving DecidableEq

/-- The table `search_param_thresholds`, with at most one row for a key. -/
abbrev Thresholds := RowKey → Option Threshold

/-- A call of `recordOutcome`; without a pool, or when the statement fails, nothing is written. -/
structure Outcome where
  keyId : RawKeyId
  queryType : String
  hour : ℤ
  resultCount : ℕ
  committed : Bool

def Outcome.rowKey (call : Outcome) : RowKey := ⟨normalizeKeyId call.keyId, call.queryType, call.hour⟩

/-- The row that the statement proposes, its `EXCLUDED`. -/
def proposed (defaultSim : ℚ) (resultCount : ℕ) : Threshold := ⟨defaultSim, 1, resultCount⟩

/-- The update on a conflict; all its branches read the old row. -/
def Threshold.update (row excluded : Threshold) : Threshold where
  sampleCount := row.sampleCount + 1
  totalResultCount := row.totalResultCount + excluded.totalResultCount
  minSimilarity :=
    if row.sampleCount + 1 ≥ MIN_SAMPLE then
      if ((row.totalResultCount + excluded.totalResultCount : ℕ) : ℚ) / (row.sampleCount + 1 : ℕ) < 1 then
        max CLAMP_MIN (row.minSimilarity - 1 / 100)
      else if ((row.totalResultCount + excluded.totalResultCount : ℕ) : ℚ) / (row.sampleCount + 1 : ℕ) > 8 then
        min CLAMP_MAX (row.minSimilarity + 1 / 100)
      else row.minSimilarity
    else row.minSimilarity

/-- What the statement leaves under its key. -/
def upsert (defaultSim : ℚ) (found : Option Threshold) (resultCount : ℕ) : Option Threshold :=
  match found with
  | none => some (proposed defaultSim resultCount)
  | some row => some (row.update (proposed defaultSim resultCount))

def recordOutcome (defaultSim : ℚ) (table : Thresholds) (call : Outcome) : Thresholds :=
  if call.committed then
    Function.update table call.rowKey (upsert defaultSim (table call.rowKey) call.resultCount)
  else table

/-- The lower bound that the environment sets, when it is a finite number. -/
def applyFloor (floorRaw : Option ℚ) (v : ℚ) : ℚ :=
  match floorRaw with
  | none => v
  | some floor => max floor v

/-- The row of the hour, else the one of the bucket -1: `ORDER BY hour_bucket DESC LIMIT 1`. -/
def selectThreshold (table : Thresholds) (key : RowKey) : Option Threshold :=
  if key.hourBucket < -1 then (table { key with hourBucket := -1 }).or (table key)
  else (table key).or (table { key with hourBucket := -1 })

/-- The threshold of a search; `reachable` says that the query ran. -/
def getMinSimilarity (defaultSim : ℚ) (floorRaw : Option ℚ) (reachable : Bool) (table : Thresholds) (key : RowKey) : ℚ :=
  if reachable then
    match selectThreshold table key with
    | none => applyFloor floorRaw defaultSim
    | some row =>
      if row.sampleCount < MIN_SAMPLE then applyFloor floorRaw defaultSim else applyFloor floorRaw row.minSimilarity
  else applyFloor floorRaw defaultSim

/-! ## One row among the calls of all keys -/

/-- The counts that the committed calls report on a row, in the order of the commits. -/
def countsOn (key : RowKey) (calls : List Outcome) : List ℕ :=
  (calls.filter fun call => call.committed && call.rowKey = key).map Outcome.resultCount

variable {defaultSim : ℚ} {table : Thresholds} {key : RowKey}

theorem countsOn_concat (calls : List Outcome) (call : Outcome) :
    countsOn key (calls ++ [call]) = countsOn key calls ++ countsOn key [call] := by
  simp only [countsOn, List.filter_append, List.map_append]

/-- A call changes the row of its own key and no other one. -/
theorem recordOutcome_at (call : Outcome) :
    recordOutcome defaultSim table call key = run (upsert defaultSim) (table key) (countsOn key [call]) := by
  by_cases hcommitted : call.committed = true
  · by_cases hkey : call.rowKey = key
    · subst hkey
      simp [recordOutcome, countsOn, hcommitted, run]
    · have hother : key ≠ call.rowKey := Ne.symm hkey
      simp [recordOutcome, countsOn, hcommitted, hkey, Function.update_of_ne hother]
  · simp [recordOutcome, countsOn, hcommitted]

/-- In every interleaving a row depends on the counts that are reported on it alone. -/
theorem run_recordOutcome_at (calls : List Outcome) :
    run (recordOutcome defaultSim) table calls key =
      run (upsert defaultSim) (table key) (countsOn key calls) := by
  induction calls using List.reverseRecOn with
  | nil => rfl
  | append_singleton calls call ih =>
    rw [run_append, run_cons, run_nil, recordOutcome_at, ih, countsOn_concat, run_append]

/-! ## What a row has learnt -/

/-- A row against the counts that were reported on it. -/
structure Learned (defaultSim : ℚ) (counts : List ℕ) (row : Threshold) : Prop where
  sampleCount : row.sampleCount = counts.length
  totalResultCount : row.totalResultCount = counts.sum
  lower : CLAMP_MIN ≤ row.minSimilarity
  upper : row.minSimilarity ≤ CLAMP_MAX
  unlearnt : counts.length < MIN_SAMPLE → row.minSimilarity = defaultSim

def average (counts : List ℕ) : ℚ := (counts.sum : ℚ) / counts.length

/-- How one call may move a threshold, by the average that includes it. -/
structure Adjusted (average before after : ℚ) : Prop where
  near : |after - before| ≤ 1 / 100
  down : after < before → average < 1
  up : before < after → 8 < average

theorem learned_proposed (hlower : CLAMP_MIN ≤ defaultSim) (hupper : defaultSim ≤ CLAMP_MAX) (count : ℕ) :
    Learned defaultSim [count] (proposed defaultSim count) where
  sampleCount := rfl
  totalResultCount := by simp [proposed]
  lower := hlower
  upper := hupper
  unlearnt _ := rfl

/-- The three outcomes of an update, with the average of all the counts. -/
theorem Learned.update_cases {counts : List ℕ} {row : Threshold} (h : Learned defaultSim counts row) (count : ℕ) :
    (row.update (proposed defaultSim count)).minSimilarity = row.minSimilarity ∨
    (MIN_SAMPLE ≤ (counts ++ [count]).length ∧ average (counts ++ [count]) < 1 ∧
      (row.update (proposed defaultSim count)).minSimilarity = max CLAMP_MIN (row.minSimilarity - 1 / 100)) ∨
    (MIN_SAMPLE ≤ (counts ++ [count]).length ∧ 8 < average (counts ++ [count]) ∧
      (row.update (proposed defaultSim count)).minSimilarity = min CLAMP_MAX (row.minSimilarity + 1 / 100)) := by
  have haverage : ((row.totalResultCount + (proposed defaultSim count).totalResultCount : ℕ) : ℚ) /
      (row.sampleCount + 1 : ℕ) = average (counts ++ [count]) := by
    rw [h.sampleCount, h.totalResultCount, average, List.sum_append, List.length_append]
    rfl
  have hlength : row.sampleCount + 1 = (counts ++ [count]).length := by
    rw [h.sampleCount, List.length_append, List.length_singleton]
  rw [Threshold.update, haverage, hlength]
  by_cases hsample : (counts ++ [count]).length ≥ MIN_SAMPLE
  · by_cases hdown : average (counts ++ [count]) < 1
    · exact Or.inr (Or.inl ⟨hsample, hdown, by simp only [if_pos hsample, if_pos hdown]⟩)
    · by_cases hup : average (counts ++ [count]) > 8
      · exact Or.inr (Or.inr ⟨hsample, hup, by simp only [if_pos hsample, if_neg hdown, if_pos hup]⟩)
      · exact Or.inl (by simp only [if_pos hsample, if_neg hdown, if_neg hup])
  · exact Or.inl (by simp only [if_neg hsample])

theorem Learned.update {counts : List ℕ} {row : Threshold} (h : Learned defaultSim counts row) (count : ℕ) :
    Learned defaultSim (counts ++ [count]) (row.update (proposed defaultSim count)) := by
  have hclamp : CLAMP_MIN ≤ CLAMP_MAX := by norm_num [CLAMP_MIN, CLAMP_MAX]
  have hlower := h.lower
  have hupper := h.upper
  have hshort : (counts ++ [count]).length < MIN_SAMPLE → counts.length < MIN_SAMPLE := by
    rw [List.length_append, List.length_singleton]
    omega
  refine ⟨?_, ?_, ?_, ?_, ?_⟩
  · rw [Threshold.update, h.sampleCount, List.length_append, List.length_singleton]
  · rw [Threshold.update, h.totalResultCount, List.sum_append, List.sum_singleton, proposed]
  · obtain heq | ⟨-, -, heq⟩ | ⟨-, -, heq⟩ := h.update_cases count
    · rw [heq]
      exact hlower
    · rw [heq]
      exact le_max_left _ _
    · rw [heq]
      exact le_min hclamp (by linarith)
  · obtain heq | ⟨-, -, heq⟩ | ⟨-, -, heq⟩ := h.update_cases count
    · rw [heq]
      exact hupper
    · rw [heq]
      exact max_le hclamp (by linarith)
    · rw [heq]
      exact min_le_left _ _
  · intro hfew
    obtain heq | ⟨hsample, -, -⟩ | ⟨hsample, -, -⟩ := h.update_cases count
    · rw [heq]
      exact h.unlearnt (hshort hfew)
    · exact absurd hfew (Nat.not_lt.mpr hsample)
    · exact absurd hfew (Nat.not_lt.mpr hsample)

/-- A step moves the threshold towards a bound, by a hundredth at most. -/
theorem Learned.adjusted {counts : List ℕ} {row : Threshold} (h : Learned defaultSim counts row) (count : ℕ) :
    Adjusted (average (counts ++ [count])) row.minSimilarity
      (row.update (proposed defaultSim count)).minSimilarity := by
  have hlower := h.lower
  have hupper := h.upper
  obtain heq | ⟨-, haverage, heq⟩ | ⟨-, haverage, heq⟩ := h.update_cases count
  · rw [heq]
    refine ⟨?_, fun hless => absurd hless (lt_irrefl _), fun hless => absurd hless (lt_irrefl _)⟩
    norm_num
  · have hle : max CLAMP_MIN (row.minSimilarity - 1 / 100) ≤ row.minSimilarity := max_le hlower (by linarith)
    have hge := le_max_right CLAMP_MIN (row.minSimilarity - 1 / 100)
    rw [heq]
    refine ⟨?_, fun _ => haverage, fun hless => absurd hless (not_lt.mpr hle)⟩
    rw [abs_le]
    constructor
    · linarith
    · linarith
  · have hge : row.minSimilarity ≤ min CLAMP_MAX (row.minSimilarity + 1 / 100) := le_min hupper (by linarith)
    have hle := min_le_right CLAMP_MAX (row.minSimilarity + 1 / 100)
    rw [heq]
    refine ⟨?_, fun hless => absurd hless (not_lt.mpr hge), fun _ => haverage⟩
    rw [abs_le]
    constructor
    · linarith
    · linarith

/-! ## Runs -/

/-- No row before the first report, and from then on one that has learnt from every report. -/
def LearnedFrom (defaultSim : ℚ) (counts : List ℕ) (found : Option Threshold) : Prop :=
  match found with
  | none => counts = []
  | some row => Learned defaultSim counts row

theorem learnedFrom_upsert (hlower : CLAMP_MIN ≤ defaultSim) (hupper : defaultSim ≤ CLAMP_MAX)
    {counts : List ℕ} {found : Option Threshold} (h : LearnedFrom defaultSim counts found) (count : ℕ) :
    LearnedFrom defaultSim (counts ++ [count]) (upsert defaultSim found count) := by
  cases found with
  | none =>
    have hnil : counts = [] := h
    rw [hnil]
    exact learned_proposed hlower hupper count
  | some row => exact Learned.update h count

theorem learnedFrom_run (hlower : CLAMP_MIN ≤ defaultSim) (hupper : defaultSim ≤ CLAMP_MAX) (counts : List ℕ) :
    LearnedFrom defaultSim counts (run (upsert defaultSim) none counts) := by
  induction counts using List.reverseRecOn with
  | nil => rfl
  | append_singleton counts count ih =>
    rw [run_append]
    exact learnedFrom_upsert hlower hupper ih count

/-- In every interleaving of the calls of all keys, a row that its first call creates has counted and summed the
reports on it, keeps its threshold within the bounds and at the default for the first samples, and moves it by a
hundredth at most, down below an average of one result and up above eight. -/
theorem recordOutcome_learned (hlower : CLAMP_MIN ≤ defaultSim) (hupper : defaultSim ≤ CLAMP_MAX)
    (hnew : table key = none) (calls : List Outcome) :
    LearnedFrom defaultSim (countsOn key calls) (run (recordOutcome defaultSim) table calls key) ∧
    ∀ call row row', run (recordOutcome defaultSim) table calls key = some row →
      run (recordOutcome defaultSim) table (calls ++ [call]) key = some row' →
        Adjusted (average (countsOn key (calls ++ [call]))) row.minSimilarity row'.minSimilarity := by
  have hlearned : LearnedFrom defaultSim (countsOn key calls) (run (recordOutcome defaultSim) table calls key) := by
    rw [run_recordOutcome_at, hnew]
    exact learnedFrom_run hlower hupper _
  refine ⟨hlearned, ?_⟩
  intro call row row' hrow hrow'
  rw [hrow] at hlearned
  rw [run_append, run_cons, run_nil, recordOutcome_at, hrow] at hrow'
  rw [countsOn_concat]
  by_cases hcall : (call.committed && call.rowKey = key) = true
  · have hcounts : countsOn key [call] = [call.resultCount] := by
      simp only [countsOn, List.filter_cons, hcall, if_true, List.filter_nil, List.map_singleton]
    rw [hcounts] at hrow' ⊢
    obtain rfl : row.update (proposed defaultSim call.resultCount) = row' := Option.some.inj hrow'
    exact Learned.adjusted hlearned call.resultCount
  · have hcounts : countsOn key [call] = [] := by
      simp only [countsOn, List.filter_cons, hcall, Bool.false_eq_true, if_false, List.filter_nil, List.map_nil]
    rw [hcounts] at hrow'
    obtain rfl : row = row' := Option.some.inj hrow'
    refine ⟨?_, fun hless => absurd hless (lt_irrefl _), fun hless => absurd hless (lt_irrefl _)⟩
    norm_num

theorem configured_learned : LearnedFrom DEFAULT_SIM (countsOn ⟨"-1", "text", 10⟩ [⟨.absent, "text", 10, 3, true⟩])
    (run (recordOutcome DEFAULT_SIM) (fun _ => none) [⟨.absent, "text", 10, 3, true⟩] ⟨"-1", "text", 10⟩) :=
  (recordOutcome_learned (by norm_num [CLAMP_MIN, DEFAULT_SIM]) (by norm_num [CLAMP_MAX, DEFAULT_SIM]) rfl _).1

/-- The default lies between the bounds, and so does every threshold that a search reads after a run from an empty
table. -/
theorem getMinSimilarity_bounds (hlower : CLAMP_MIN ≤ defaultSim) (hupper : defaultSim ≤ CLAMP_MAX)
    (calls : List Outcome) (reachable : Bool) (key : RowKey) :
    CLAMP_MIN ≤ getMinSimilarity defaultSim none reachable (run (recordOutcome defaultSim) (fun _ => none) calls) key ∧
      getMinSimilarity defaultSim none reachable (run (recordOutcome defaultSim) (fun _ => none) calls) key ≤ CLAMP_MAX := by
  have hrow : ∀ other row, run (recordOutcome defaultSim) (fun _ => none) calls other = some row →
      CLAMP_MIN ≤ row.minSimilarity ∧ row.minSimilarity ≤ CLAMP_MAX := by
    intro other row hfound
    have hlearned := learnedFrom_run hlower hupper (countsOn other calls)
    rw [run_recordOutcome_at] at hfound
    rw [hfound] at hlearned
    exact ⟨Learned.lower hlearned, Learned.upper hlearned⟩
  rw [getMinSimilarity]
  split
  · cases hselect : selectThreshold (run (recordOutcome defaultSim) (fun _ => none) calls) key with
    | none => exact ⟨hlower, hupper⟩
    | some row =>
      have hbounds : CLAMP_MIN ≤ row.minSimilarity ∧ row.minSimilarity ≤ CLAMP_MAX := by
        rw [selectThreshold] at hselect
        split at hselect
        · rcases Option.or_eq_some_iff.mp hselect with hfound | hfound
          · exact hrow _ _ hfound
          · exact hrow _ _ hfound.2
        · rcases Option.or_eq_some_iff.mp hselect with hfound | hfound
          · exact hrow _ _ hfound
          · exact hrow _ _ hfound.2
      dsimp only
      split
      · exact ⟨hlower, hupper⟩
      · exact hbounds
  · exact ⟨hlower, hupper⟩

end FragmentMemory.SearchParamAdaptor
