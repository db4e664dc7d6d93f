import FragmentMemory.ClaimExtractor
import FragmentMemory.FragmentTables
import Mathlib.Tactic.NormNum

/-! # Polarity conflicts

`ClaimStore` with its unique index and `ClaimConflictDetector` over the claims of remembered fragments.  The query joins
two claims on their predicates, which name their polarities.
-/
namespace FragmentMemory.ClaimConflicts
open ApiKeyStore FragmentTables ClaimExtractor

/-- A row of `fragment_claims`. -/
structure ClaimRow where
  fragmentId : FragmentId
  keyId : Option KeyId
  claim : Claim
  deriving DecidableEq

/-- The unique indexes of the master's and of a tenant's claims. -/
def sameEntry (row other : ClaimRow) : Bool :=
  row.keyId = other.keyId && row.fragmentId = other.fragmentId && row.claim.subject = other.claim.subject &&
    row.claim.predicate = other.claim.predicate && row.claim.object.getD "" = other.claim.object.getD ""

/-- One row of `INSERT … ON CONFLICT DO NOTHING`. -/
def insertRow (rows : List ClaimRow) (row : ClaimRow) : List ClaimRow :=
  if rows.any (sameEntry row) then rows else rows ++ [row]

/-- `ClaimStore.insert`, none for a tenant violation. -/
def insert (rows : List ClaimRow) (fragmentId : FragmentId) (fragmentKey ctxKey : Option KeyId) (claims : List Claim) :
    Option (List ClaimRow) :=
  if claims.isEmpty then some rows
  else if fragmentKey ≠ ctxKey then none
  else some ((claims.map fun claim => { fragmentId := fragmentId, keyId := fragmentKey, claim := claim }).foldl insertRow rows)

/-- A fragment that was remembered, with the key of the request and the tokens of its text. -/
structure Remembered where
  fragmentId : FragmentId
  keyId : Option KeyId
  ctxKey : Option KeyId
  content : String
  topic : Option String
  tokenized : Option (List String)

/-- `_extractSymbolicClaims`, which drops the claims of a tenant violation. -/
def extractSymbolicClaims (toLowerCase : String → String) (ruleVersion : String) (rows : List ClaimRow) (f : Remembered) :
    List ClaimRow :=
  (insert rows f.fragmentId f.keyId f.ctxKey (extract toLowerCase ruleVersion f.content f.topic f.tokenized)).getD rows

/-- The claims of fragments remembered one after another. -/
def claimRows (toLowerCase : String → String) (ruleVersion : String) (remembered : List Remembered) : List ClaimRow :=
  remembered.foldl (extractSymbolicClaims toLowerCase ruleVersion) []

structure Conflict where
  f1 : FragmentId
  f2 : FragmentId
  subject : String
  predicate : String
  object : Option String
  deriving DecidableEq

/-- `DEFAULT_CONFLICT_THRESHOLD`. -/
def defaultThreshold : ℚ := 7 / 10

/-- The join condition and the conditions on both rows. -/
def joins (fragmentId : FragmentId) (keyId : Option KeyId) (threshold : ℚ) (c1 c2 : ClaimRow) : Bool :=
  c1.claim.subject = c2.claim.subject && c1.claim.predicate = c2.claim.predicate &&
    c1.claim.object.getD "" = c2.claim.object.getD "" && c1.claim.polarity = .positive && c2.claim.polarity = .negative &&
    c1.fragmentId ≠ c2.fragmentId && (c1.fragmentId = fragmentId || c2.fragmentId = fragmentId) &&
    c1.keyId = keyId && c2.keyId = keyId && threshold ≤ c1.claim.confidence && threshold ≤ c2.claim.confidence

def findPolarityConflicts (rows : List ClaimRow) (fragmentId : FragmentId) (keyId : Option KeyId)
    (minConfidence : Option ℚ := none) : List Conflict :=
  let threshold := minConfidence.getD defaultThreshold
  rows.flatMap fun c1 => (rows.filter (joins fragmentId keyId threshold c1)).map fun c2 =>
    { f1 := c1.fragmentId
      f2 := c2.fragmentId
      subject := c1.claim.subject
      predicate := c1.claim.predicate
      object := c1.claim.object }

inductive Severity
  | none | low | medium | high
  deriving DecidableEq

def severityFromRows (conflicts : List Conflict) : Severity :=
  if 4 ≤ conflicts.length then .high else if 2 ≤ conflicts.length then .medium else .low

/-- `detectPolarityConflicts`: the other fragments and the severity. -/
def detectPolarityConflicts (rows : List ClaimRow) (fragmentId : FragmentId) (keyId : Option KeyId)
    (minConfidence : Option ℚ := none) : List FragmentId × Severity :=
  match findPolarityConflicts rows fragmentId keyId minConfidence with
  | [] => ([], .none)
  | conflict :: others =>
    ((conflict :: others).map fun r => if r.f1 = fragmentId then r.f2 else r.f1, severityFromRows (conflict :: others))

/-! ## What is reported -/

/-- Claims of two fragments of one key with equal subject and object and opposite polarities. -/
structure Opposing (c1 c2 : ClaimRow) : Prop where
  fragments : c1.fragmentId ≠ c2.fragmentId
  key : c1.keyId = c2.keyId
  subject : c1.claim.subject = c2.claim.subject
  object : c1.claim.object = c2.claim.object
  positive : c1.claim.polarity = .positive
  negative : c2.claim.polarity = .negative

/-- The query on one fragment of a key reports the pair of another two. -/
def Reports (rows : List ClaimRow) (fragmentId : FragmentId) (keyId : Option KeyId) (c1 c2 : ClaimRow) : Prop :=
  ∃ conflict ∈ findPolarityConflicts rows fragmentId keyId, conflict.f1 = c1.fragmentId ∧ conflict.f2 = c2.fragmentId

/-- Opposing claims are reported for either fragment, and a reported pair has opposite polarities and one key. -/
structure ConflictsDetected (rows : List ClaimRow) : Prop where
  complete : ∀ c1 ∈ rows, ∀ c2 ∈ rows, Opposing c1 c2 →
    Reports rows c1.fragmentId c1.keyId c1 c2 ∧ Reports rows c2.fragmentId c2.keyId c1 c2
  sound : ∀ fragmentId keyId, ∀ conflict ∈ findPolarityConflicts rows fragmentId keyId, ∃ c1 ∈ rows, ∃ c2 ∈ rows,
    (c1.fragmentId = conflict.f1 ∧ c2.fragmentId = conflict.f2) ∧
      (c1.claim.polarity = .positive ∧ c2.claim.polarity = .negative) ∧ c1.keyId = keyId ∧ c2.keyId = keyId

/-- A reported pair has opposite polarities and the key of the query, whatever rows there are. -/
theorem sound_findPolarityConflicts {rows : List ClaimRow} {fragmentId : FragmentId} {keyId : Option KeyId}
    {minConfidence : Option ℚ} {conflict : Conflict}
    (h : conflict ∈ findPolarityConflicts rows fragmentId keyId minConfidence) : ∃ c1 ∈ rows, ∃ c2 ∈ rows,
      (c1.fragmentId = conflict.f1 ∧ c2.fragmentId = conflict.f2) ∧
        (c1.claim.polarity = .positive ∧ c2.claim.polarity = .negative) ∧ c1.keyId = keyId ∧ c2.keyId = keyId := by
  obtain ⟨c1, h1, hpair⟩ := List.mem_flatMap.mp h
  obtain ⟨c2, h2, rfl⟩ := List.mem_map.mp hpair
  obtain ⟨hrow, hjoins⟩ := List.mem_filter.mp h2
  simp only [joins, Bool.and_eq_true, decide_eq_true_eq] at hjoins
  obtain ⟨⟨⟨⟨⟨⟨⟨⟨-, hpositive⟩, hnegative⟩, -⟩, -⟩, hkey1⟩, hkey2⟩, -⟩, -⟩ := hjoins
  exact ⟨c1, h1, c2, hrow, ⟨rfl, rfl⟩, ⟨hpositive, hnegative⟩, hkey1, hkey2⟩

/-- Every row names the polarity of its claim by its predicate. -/
def Marked (rows : List ClaimRow) : Prop :=
  ∀ row ∈ rows, (row.claim.polarity = .positive → row.claim.predicate ∈ positiveMarkers) ∧
    (row.claim.polarity = .negative → row.claim.predicate ∈ negativeMarkers)

theorem marked_insertRow {rows : List ClaimRow} {row : ClaimRow} (h : Marked rows) (hrow : Marked [row]) :
    Marked (insertRow rows row) := by
  rw [insertRow]
  split
  · exact h
  · intro other hother
    rcases List.mem_append.mp hother with hold | hnew
    · exact h other hold
    · exact hrow other hnew

theorem marked_foldl {rows more : List ClaimRow} (h : Marked rows) (hmore : Marked more) :
    Marked (more.foldl insertRow rows) := by
  induction more generalizing rows with
  | nil => exact h
  | cons row later ih =>
    have hrow : Marked [row] := fun other hother => hmore other (List.mem_singleton.mp hother ▸ List.mem_cons_self)
    exact ih (marked_insertRow h hrow) fun other hother => hmore other (List.mem_cons_of_mem _ hother)

variable {toLowerCase : String → String} {ruleVersion : String}

theorem marked_extractSymbolicClaims {rows : List ClaimRow} (h : Marked rows) (f : Remembered) :
    Marked (extractSymbolicClaims toLowerCase ruleVersion rows f) := by
  rw [extractSymbolicClaims, insert]
  split
  · exact h
  · split
    · exact h
    · refine marked_foldl h fun row hrow => ?_
      obtain ⟨claim, hclaim, rfl⟩ := List.mem_map.mp hrow
      exact predicate_of_extract hclaim

theorem marked_claimRows (remembered : List Remembered) : Marked (claimRows toLowerCase ruleVersion remembered) := by
  have hfold : ∀ (later : List Remembered) (rows : List ClaimRow), Marked rows →
      Marked (later.foldl (extractSymbolicClaims toLowerCase ruleVersion) rows) := by
    intro later
    induction later with
    | nil => exact fun _ h => h
    | cons f later ih => exact fun rows h => ih _ (marked_extractSymbolicClaims h f)
  exact hfold remembered [] nofun

/-- Claims that name their polarities never join. -/
theorem joins_eq_false {rows : List ClaimRow} (h : Marked rows) {c1 c2 : ClaimRow} (h1 : c1 ∈ rows) (h2 : c2 ∈ rows)
    (fragmentId : FragmentId) (keyId : Option KeyId) (threshold : ℚ) :
    joins fragmentId keyId threshold c1 c2 = false := by
  rw [Bool.eq_false_iff]
  intro hjoins
  simp only [joins, Bool.and_eq_true, decide_eq_true_eq] at hjoins
  obtain ⟨⟨⟨⟨⟨⟨⟨⟨⟨⟨-, hpredicate⟩, -⟩, hpositive⟩, hnegative⟩, -⟩, -⟩, -⟩, -⟩, -⟩, -⟩ := hjoins
  have hmarker := (h c1 h1).1 hpositive
  rw [hpredicate] at hmarker
  exact markers_disjoint hmarker ((h c2 h2).2 hnegative)

theorem findPolarityConflicts_eq_nil {rows : List ClaimRow} (h : Marked rows) (fragmentId : FragmentId)
    (keyId : Option KeyId) (minConfidence : Option ℚ) :
    findPolarityConflicts rows fragmentId keyId minConfidence = [] := by
  refine List.flatMap_eq_nil_iff.mpr fun c1 h1 => ?_
  rw [List.map_eq_nil_iff, List.filter_eq_nil_iff]
  intro c2 h2
  rw [joins_eq_false h h1 h2]
  exact Bool.false_ne_true

/-- No pair of opposing claims is detected: over the claims of remembered fragments the detection is complete only where
there is none. -/
theorem conflictsDetected_iff (toLowerCase : String → String) (ruleVersion : String) (remembered : List Remembered) :
    ConflictsDetected (claimRows toLowerCase ruleVersion remembered) ↔
      ¬ ∃ c1 ∈ claimRows toLowerCase ruleVersion remembered, ∃ c2 ∈ claimRows toLowerCase ruleVersion remembered,
        Opposing c1 c2 := by
  have hnone := fun fragmentId keyId =>
    findPolarityConflicts_eq_nil (@marked_claimRows toLowerCase ruleVersion remembered) fragmentId keyId none
  constructor
  · rintro hdetected ⟨c1, h1, c2, h2, hopposing⟩
    obtain ⟨⟨conflict, hconflict, -⟩, -⟩ := hdetected.complete c1 h1 c2 h2 hopposing
    rw [hnone] at hconflict
    cases hconflict
  · intro hno
    exact ⟨fun c1 h1 c2 h2 hopposing => absurd ⟨c1, h1, c2, h2, hopposing⟩ hno,
      fun _ _ _ hconflict => sound_findPolarityConflicts hconflict⟩

def useRedis : Remembered where
  fragmentId := "frag-01"
  keyId := none
  ctxKey := none
  content := "use redis"
  topic := some "cache"
  tokenized := some ["use", "redis"]

def avoidRedis : Remembered where
  fragmentId := "frag-02"
  keyId := none
  ctxKey := none
  content := "do not use redis"
  topic := some "cache"
  tokenized := some ["do", "not", "use", "redis"]

/-- The predicates of these claims are `use` and `do not use`. -/
theorem redis_conflict_missed : ¬ ConflictsDetected (claimRows id "v1" [useRedis, avoidRedis]) := by
  intro h
  have hrows : claimRows id "v1" [useRedis, avoidRedis] =
      [⟨"frag-01", none, { subject := "cache", predicate := "use", object := some "redis", polarity := .positive,
                           confidence := 7 / 10, ruleVersion := "v1" }⟩,
       ⟨"frag-02", none, { subject := "cache", predicate := "do not use", object := some "redis", polarity := .negative,
                           confidence := 75 / 100, ruleVersion := "v1" }⟩] := by
    decide +kernel
  rw [hrows] at h
  obtain ⟨⟨conflict, hconflict, -⟩, -⟩ := h.complete _ List.mem_cons_self _ (List.mem_cons_of_mem _ List.mem_cons_self)
    ⟨by decide, rfl, rfl, rfl, rfl, rfl⟩
  have hnone : conflict ∈ ([] : List Conflict) := hconflict
  cases hnone

end FragmentMemory.ClaimConflicts
