import FragmentMemory.RecallScope

/-! # CbrEligibility

The filter on the candidates of a case search.  It decides on the fields of the objects that the layers
return, so a column that a layer does not select reads as null, and it compares the owner of an object
with one key even when the caller holds a group of keys.
-/
namespace FragmentMemory.CbrEligibility
open ApiKeyStore FragmentTables RecallQueries RecallScope

/-- The columns of `fragments` that the filter reads. -/
inductive Column | keyId | caseId | resolutionStatus deriving DecidableEq

/-- The columns of `searchByKeywords`, `searchByTopic` and `searchBySemantic`. -/
def SEARCH_COLS_BASE : List Column := [.keyId, .caseId, .resolutionStatus]

/-- The columns of `getByIds`, which the hot cache and the misses of L1 are read with. -/
def BY_IDS_COLS : List Column := [.keyId, .caseId, .resolutionStatus]

def TIME_RANGE_COLS : List Column := [.caseId, .resolutionStatus]

/-- `fetchGraphNeighbors` selects none of them. -/
def NEIGHBOR_COLS : List Column := []

inductive Layer | l2 | l3 | graph | temporal | hotCache deriving DecidableEq

def Layer.columns : Layer → List Column
  | .l2 => SEARCH_COLS_BASE
  | .l3 => SEARCH_COLS_BASE
  | .graph => NEIGHBOR_COLS
  | .temporal => TIME_RANGE_COLS
  | .hotCache => BY_IDS_COLS

/-- The fields of a candidate object; an absent one reads as null. -/
structure CaseObject where
  keyId : Option KeyId
  caseId : Option String
  quarantineState : Option String
  resolutionStatus : Option ResolutionStatus

/-- The object of a row.  `quarantine_state` is a column of `fragment_links` alone, and no row of
`fragments` has one. -/
def CaseObject.ofRow (columns : List Column) (f : Fragment) : CaseObject where
  keyId := if columns.contains .keyId then f.keyId else none
  caseId := if columns.contains .caseId then f.caseId else none
  quarantineState := none
  resolutionStatus := if columns.contains .resolutionStatus then f.resolutionStatus else none

/-- `normalizeKeyId` in its mode for this filter: the first key of a group. -/
def normalizeKeyId (keyIds : Option (List KeyId)) : Option KeyId := keyIds.bind List.head?

inductive BlockReason | tenant | noCase | quarantine | unresolved deriving DecidableEq

/-- One turn of the loop: why the object is left out, or none when it is kept. -/
def blocked (keyId : Option KeyId) (fragment : CaseObject) : Option BlockReason :=
  if fragment.keyId ≠ keyId then some .tenant
  else if (JsString.truthy fragment.caseId).isNone then some .noCase
  else if fragment.quarantineState = some "soft" then some .quarantine
  else if fragment.resolutionStatus.any (· ≠ .resolved) then some .unresolved
  else none

/-- A result of a layer under the key clause of the caller: the row and the layer that supplied it. -/
structure Candidate (keyIds : Option (List KeyId)) where
  layer : Layer
  row : Fragment
  inScope : keyCond keyIds row = true

variable {keyIds : Option (List KeyId)} {members : List KeyId}

def Candidate.object (candidate : Candidate keyIds) : CaseObject := .ofRow candidate.layer.columns candidate.row

/-- `CbrEligibility.filter`. -/
def filter (candidates : List (Candidate keyIds)) : List (Candidate keyIds) :=
  candidates.filter fun candidate => (blocked (normalizeKeyId keyIds) candidate.object).isNone

/-- The candidates that a layer makes of its rows. -/
def supplied (keyIds : Option (List KeyId)) (layer : Layer) (rows : List Fragment) : List (Candidate keyIds) :=
  rows.filterMap fun f => if h : keyCond keyIds f = true then some ⟨layer, f, h⟩ else none

/-- The purpose of the filter, on the row itself: an owner among the caller's keys, a case, and no
status other than `resolved`. -/
def eligible (members : List KeyId) (f : Fragment) : Bool :=
  keyCond (some members) f && (JsString.truthy f.caseId).isSome && f.resolutionStatus.all (· = .resolved)

/-- A layer loses no row of an answer that keeps to the key clause. -/
theorem supplied_rows {layer : Layer} {rows : List Fragment} (h : ∀ f ∈ rows, keyCond keyIds f = true) :
    (supplied keyIds layer rows).map Candidate.row = rows := by
  induction rows with
  | nil => rfl
  | cons f rows ih =>
    have hf : keyCond keyIds f = true := h f List.mem_cons_self
    have hrest := ih fun g hg => h g (List.mem_cons_of_mem f hg)
    simp only [supplied, List.filterMap_cons, dif_pos hf, List.map_cons]
    exact congrArg (f :: ·) hrest

theorem supplied_layer {layer : Layer} {rows : List Fragment} :
    ∀ candidate ∈ supplied keyIds layer rows, candidate.layer = layer := by
  intro candidate hcandidate
  obtain ⟨f, -, hf⟩ := List.mem_filterMap.mp hcandidate
  split at hf
  · rw [← Option.some.inj hf]
  · cases hf

/-- The answers of the layers to a query, as the stored rows behind them. -/
inductive Answer (store : Store) (q : SearchQuery) : Layer → List Fragment → Prop
  | keywords (words : List String) : Answer store q .l2 (searchByKeywords store q words)
  | topic (topic : String) : Answer store q .l2 (searchTopicRows store q topic)
  | misses (ids : List FragmentId) : Answer store q .l2 (getScopedByIds store q ids)
  | semantic (similarity : Fragment → Option ℚ) (minSimilarity : ℚ) (limit : ℕ) (affectOn : Bool) :
      Answer store q .l3 ((searchBySemantic store q similarity minSimilarity limit affectOn).map Hit.row)
  | graph (graphScore : Link → ℚ) (seedIds : List FragmentId) (rows : List Fragment)
      (h : rows.map neighborColumns = fetchGraphNeighbors graphScore store q seedIds) : Answer store q .graph rows
  | temporal : Answer store q .temporal (searchByTimeRange store q)
  | hotCache (ready : Bool) (ids : List FragmentId) : Answer store q .hotCache (tryHotCache ready store q ids)

variable {store : Store} {q : SearchQuery}

theorem getScopedByIds_key {ids : List FragmentId} :
    ∀ f ∈ getScopedByIds store q ids, keyCond q.keyIds f = true := by
  intro f hf
  have hcond := (List.mem_filter.mp ((List.mem_insertionSort _).mp hf)).2
  simp only [Bool.and_eq_true] at hcond
  exact hcond.2

theorem fetchGraphNeighbors_key {graphScore : Link → ℚ} {seedIds : List FragmentId} :
    ∀ f ∈ fetchGraphNeighbors graphScore store q seedIds, keyCond q.keyIds f = true := by
  intro f hf
  obtain ⟨item, hitem, rfl⟩ := List.mem_map.mp hf
  have hstrongest := List.mem_of_mem_take ((List.mem_insertionSort _).mp hitem)
  have hdistinct := mem_of_mem_distinctOnId ((List.mem_insertionSort _).mp hstrongest)
  have hkeep := (mem_neighborRows ((List.mem_insertionSort _).mp hdistinct)).2
  simp only [Bool.and_eq_true] at hkeep
  exact hkeep.1.1.2

/-- Every layer keeps to the key clause of the caller. -/
theorem Answer.inScope {layer : Layer} {rows : List Fragment} (h : Answer store q layer rows) :
    ∀ f ∈ rows, keyCond q.keyIds f = true := by
  intro f hf
  cases h with
  | keywords words =>
    have hcond := (List.mem_filter.mp ((List.mem_insertionSort _).mp (List.mem_of_mem_take hf))).2
    simp only [Bool.and_eq_true] at hcond
    exact metadataCond_key hcond.1.1.1
  | topic topic =>
    have hcond := (List.mem_filter.mp ((List.mem_insertionSort _).mp (List.mem_of_mem_take hf))).2
    simp only [Bool.and_eq_true] at hcond
    exact metadataCond_key hcond.1
  | misses ids => exact getScopedByIds_key f hf
  | semantic similarity minSimilarity limit affectOn =>
    obtain ⟨hit, hhit, rfl⟩ := List.mem_map.mp hf
    obtain ⟨g, hg, rfl⟩ := List.mem_map.mp hhit
    have hcond := (List.mem_filter.mp ((List.mem_insertionSort _).mp (List.mem_of_mem_take hg))).2
    simp only [Bool.and_eq_true] at hcond
    exact rowCond_key hcond.1.1
  | graph graphScore seedIds _ hrows =>
    have hneighbor : neighborColumns f ∈ fetchGraphNeighbors graphScore store q seedIds := by
      rw [← hrows]
      exact List.mem_map_of_mem hf
    have hkey := fetchGraphNeighbors_key _ hneighbor
    exact hkey
  | temporal =>
    have hcond := (List.mem_filter.mp ((List.mem_insertionSort _).mp (List.mem_of_mem_take hf))).2
    simp only [Bool.and_eq_true] at hcond
    exact rowCond_key hcond.1
  | hotCache ready ids => exact getScopedByIds_key f (List.mem_filter.mp hf).1

/-- The candidates of a layer carry all the rows of its answer. -/
theorem Answer.supplied_rows {layer : Layer} {rows : List Fragment} (h : Answer store q layer rows) :
    (supplied q.keyIds layer rows).map Candidate.row = rows := CbrEligibility.supplied_rows h.inScope

/-- The owner of a temporal or a graph result never reaches the filter. -/
theorem object_keyId_eq_none {layer : Layer} (hlayer : layer = .temporal ∨ layer = .graph) {rows : List Fragment} :
    ∀ candidate ∈ supplied keyIds layer rows, candidate.object.keyId = none := by
  intro candidate hcandidate
  have hcolumns : ¬candidate.layer.columns.contains .keyId = true := by
    rw [supplied_layer candidate hcandidate]
    rcases hlayer with rfl | rfl <;> decide
  exact if_neg hcolumns

/-- What the filter asks of an object. -/
theorem blocked_eq_none_iff {keyId : Option KeyId} {fragment : CaseObject} :
    blocked keyId fragment = none ↔ fragment.keyId = keyId ∧ (JsString.truthy fragment.caseId).isSome = true ∧
      fragment.quarantineState ≠ some "soft" ∧ fragment.resolutionStatus.all (· = .resolved) = true := by
  have hstatus : fragment.resolutionStatus.any (· ≠ .resolved) = !fragment.resolutionStatus.all (· = .resolved) := by
    cases fragment.resolutionStatus <;> simp
  simp only [blocked, hstatus]
  split_ifs with htenant hcase hquarantine hopen
  · simp [htenant]
  · simp [hcase]
  · simp [hquarantine]
  · simp_all
  · have hsome : (JsString.truthy fragment.caseId).isSome = true := by
      rw [Option.isSome_iff_ne_none]
      exact mt Option.isNone_iff_eq_none.mpr hcase
    have hall : fragment.resolutionStatus.all (· = .resolved) = true := by simpa using hopen
    exact iff_of_true rfl ⟨not_not.mp htenant, hsome, hquarantine, hall⟩

/-- A layer that selects the owner selects the other columns too. -/
theorem Layer.columns_of_keyId {layer : Layer} (h : layer.columns.contains .keyId = true) :
    layer.columns.contains .caseId = true ∧ layer.columns.contains .resolutionStatus = true := by
  cases layer <;> revert h <;> decide

/-- Under the key clause of a group, an owner is a key of the group. -/
theorem keyId_of_keyCond {f : Fragment} (h : keyCond (some members) f = true) :
    ∃ key ∈ members, f.keyId = some key := by
  obtain ⟨key, hkey, hmember⟩ := (Option.any_eq_true _ _).mp h
  exact ⟨key, List.contains_iff_mem.mp hmember, hkey⟩

/-- Kept for a caller with keys: the layer selects the owner, which is the first key, and the row is eligible. -/
theorem kept_iff (candidate : Candidate (some members)) :
    (blocked (normalizeKeyId (some members)) candidate.object).isNone = true ↔
      eligible members candidate.row = true ∧ candidate.layer.columns.contains .keyId = true ∧
        candidate.row.keyId = members.head? := by
  obtain ⟨key, hkey, howner⟩ := keyId_of_keyCond candidate.inScope
  have hnonempty : members.head? ≠ none := by
    intro hnone
    rw [List.head?_eq_none_iff.mp hnone] at hkey
    exact List.not_mem_nil hkey
  rw [Option.isNone_iff_eq_none, blocked_eq_none_iff]
  by_cases hselects : candidate.layer.columns.contains .keyId = true
  · obtain ⟨hcase, hstatus⟩ := Layer.columns_of_keyId hselects
    simp only [Candidate.object, CaseObject.ofRow, hselects, hcase, hstatus, if_true, normalizeKeyId,
      Option.bind_some, eligible, candidate.inScope, Bool.true_and, Bool.and_eq_true, true_and]
    constructor
    · intro h
      exact ⟨⟨h.2.1, h.2.2.2⟩, h.1⟩
    · intro h
      exact ⟨h.2, h.1.1, by simp, h.1.2⟩
  · have hobject : candidate.object.keyId = none := if_neg hselects
    apply iff_of_false
    · intro h
      exact hnonempty (h.1.symm.trans hobject)
    · intro h
      exact hselects h.2.1

/-- The filter never keeps a row that is not eligible. -/
theorem filter_sound (candidates : List (Candidate (some members))) :
    ∀ candidate ∈ filter candidates, eligible members candidate.row = true := by
  intro candidate hcandidate
  exact ((kept_iff candidate).mp (List.mem_filter.mp hcandidate).2).1

/-- The filter keeps exactly the eligible rows, in their order, when every eligible row comes from a layer
that selects its owner and belongs to the first key of the group, and only then. -/
theorem filter_eligible_iff (members : List KeyId) (candidates : List (Candidate (some members))) :
    filter candidates = candidates.filter (fun candidate => eligible members candidate.row) ↔
      ∀ candidate ∈ candidates, eligible members candidate.row = true →
        candidate.layer.columns.contains .keyId = true ∧ candidate.row.keyId = members.head? := by
  constructor
  · intro hkept candidate hcandidate heligible
    have hmem : candidate ∈ filter candidates := by
      rw [hkept]
      exact List.mem_filter.mpr ⟨hcandidate, heligible⟩
    exact ((kept_iff candidate).mp (List.mem_filter.mp hmem).2).2
  · intro hsupplied
    apply List.filter_congr
    intro candidate hcandidate
    rw [Bool.eq_iff_iff, kept_iff]
    constructor
    · intro h
      exact h.1
    · intro heligible
      exact ⟨heligible, hsupplied candidate hcandidate heligible⟩

def firstKey : KeyId := ⟨"1f0a9c44-63de-4b7a-8c25-9be1d2704a10", by decide⟩

def secondKey : KeyId := ⟨"b82c5e17-0d94-4f3b-a6e8-37510fc9d2ab", by decide⟩

/-- A resolved row of a case. -/
def resolvedRow (id : FragmentId) (owner : KeyId) : Fragment where
  id := id
  content := "raise the pool size"
  topic := "database"
  type := .procedure
  importance := 7 / 10
  contentHash := id
  keyId := some owner
  caseId := some "case-pool"
  resolutionStatus := some .resolved
  createdAt := 0

/-- A row of the second key found by keywords, and a row of the first key found by its time. -/
def poolCandidates : List (Candidate (some [firstKey, secondKey])) :=
  [⟨.l2, resolvedRow "frag-keyword" secondKey, by decide⟩,
    ⟨.temporal, resolvedRow "frag-time" firstKey, by decide⟩]

/-- Both rows are eligible and neither is kept. -/
theorem poolCandidates_dropped :
    filter poolCandidates = [] ∧
      poolCandidates.filter (fun candidate => eligible [firstKey, secondKey] candidate.row) = poolCandidates :=
  ⟨by rfl, by rfl⟩

end FragmentMemory.CbrEligibility
