import FragmentMemory.LinkWrites

/-! # Links within a session

`SessionLinker.autoLinkSessionFragments`: errors are linked to the decisions that they come from and procedures
to the errors that they resolve, one partner for each, unless the link would close a cycle.
-/
namespace FragmentMemory.SessionLinker
open ApiKeyStore FragmentTables FragmentFactory JsString LinkStore LinkWrites LinkGrowth

structure SessionFragment where
  id : FragmentId
  type : FragmentType
  content : String := ""
  keywords : List String := []
  caseId : Option String := none
  sessionId : Option String := none
  phase : Option String := none

variable (tools : TextTools)

/-- The white space and the punctuation between two tokens, the braces and the quotes among it. -/
def separator (c : Char) : Bool := isSpace c || ",;:!?()[]\x7b\x7d\x22\x27".toList.contains c

def tokenize (text : String) : List String :=
  (((tools.toLowerCase text).toList.splitOnP separator).map String.ofList).filter fun token => 1 < utf16Length token

/-- The share of common keywords, of common tokens where one of the two has no keywords. -/
def keywordOverlap (a b : SessionFragment) : ℚ :=
  if !a.keywords.isEmpty && !b.keywords.isEmpty then
    let setA := a.keywords.map tools.toLowerCase
    let shared := (b.keywords.filter fun word => setA.contains (tools.toLowerCase word)).length
    (shared : ℚ) / (min a.keywords.length b.keywords.length : ℕ)
  else
    let tokensA := (tokenize tools a.content).dedup
    let tokensB := tokenize tools b.content
    if tokensA.isEmpty || tokensB.isEmpty then 0
    else ((tokensB.filter tokensA.contains).length : ℚ) / (min tokensA.length tokensB.length : ℕ)

/-- `PHASE_ORDER`. -/
def phaseOrder : String → Option ℕ
  | "planning" => some 0
  | "debugging" => some 1
  | "implementation" => some 1
  | "verification" => some 2
  | _ => none

def phaseOk (source target : SessionFragment) : Bool :=
  match source.phase.bind phaseOrder, target.phase.bind phaseOrder with
  | some a, some b => a ≤ b
  | _, _ => true

def sameGroup (a b : Option String) : Bool := (truthy a).isSome && truthy a = truthy b

def schemaFit (source target : SessionFragment) : Bool :=
  (sameGroup source.caseId target.caseId || sameGroup source.sessionId target.sessionId) &&
    6 / 10 ≤ keywordOverlap tools source target && phaseOk source target

/-- The first fragment of the highest score. -/
def bestMatch (score : SessionFragment → ℚ) (found : List SessionFragment) : Option SessionFragment :=
  (found.foldl (fun best f => if best.1 < score f then (score f, some f) else best) (-1, none)).2

/-- One candidate for each source that finds a target, and whether it fits. -/
def matchPairs (sources targets : List SessionFragment) (relationType : RelationType) : List (LinkPair × Bool) :=
  sources.filterMap fun f =>
    (bestMatch (keywordOverlap tools f) targets).map fun g => (⟨f.id, g.id, relationType⟩, schemaFit tools f g)

def candidatePairs (fragments : List SessionFragment) : List (LinkPair × Bool) :=
  let errors := fragments.filter fun f => f.type = .error
  let decisions := fragments.filter fun f => f.type = .decision
  let procedures := fragments.filter fun f => f.type = .procedure
  matchPairs tools errors decisions .causedBy ++ matchPairs tools procedures errors .resolvedBy

def sortedKey (pair : LinkPair) : String :=
  if pair.fromId < pair.toId then pair.fromId ++ "|" ++ pair.toId else pair.toId ++ "|" ++ pair.fromId

/-- The candidates that fit, in the order in which their rows are locked. -/
def autoLinks (fragments : List SessionFragment) : List LinkPair :=
  (((candidatePairs tools fragments).filter Prod.snd).map Prod.fst).insertionSort fun a b => sortedKey a ≤ sortedKey b

/-- `wouldCreateCycle`. -/
def wouldCreateCycle (store : Store) (fromId toId : FragmentId) (keyId : Option KeyId) : Bool :=
  isReachable store toId fromId keyId

/-- The pairs that are not refused; all of them are checked in the store before the first insert. -/
def validPairs (store : Store) (fragments : List SessionFragment) (keyId : Option KeyId) : List LinkPair :=
  (autoLinks tools fragments).filter fun pair => !wouldCreateCycle store pair.fromId pair.toId keyId

/-- One pair after another, where the transaction for all of them has failed. -/
def createEach (store : Store) (pairs : List LinkPair) : Store :=
  pairs.foldl (fun current pair => tryLink current pair.fromId pair.toId pair.relationType 1) store

structure LinkSuggestion where
  pair : LinkPair
  reason : String

structure AutoLinked where
  store : Store
  linkedCount : ℕ
  linkSuggestions : List LinkSuggestion

/-- `autoLinkSessionFragments`. -/
def autoLinkSessionFragments (store : Store) (fragments : List SessionFragment) (keyId : Option KeyId) : AutoLinked :=
  let pairs := validPairs tools store fragments keyId
  { store := (createLinks store pairs).getD (createEach store pairs)
    linkedCount := pairs.length
    linkSuggestions := ((candidatePairs tools fragments).filter fun candidate => !candidate.2).map fun candidate =>
      ⟨candidate.1, "schema_fit_failed"⟩ }

theorem relationType_of_mem_matchPairs {sources targets : List SessionFragment} {relationType : RelationType}
    {candidate : LinkPair × Bool} (h : candidate ∈ matchPairs tools sources targets relationType) :
    candidate.1.relationType = relationType := by
  obtain ⟨f, -, hf⟩ := List.mem_filterMap.mp h
  obtain ⟨g, -, rfl⟩ := Option.map_eq_some_iff.mp hf
  rfl

/-- Only the two causal relations are linked here. -/
theorem causal_of_mem_validPairs {store : Store} {fragments : List SessionFragment} {keyId : Option KeyId}
    {pair : LinkPair}
    (h : pair ∈ validPairs tools store fragments keyId) :
    pair.relationType = .causedBy ∨ pair.relationType = .resolvedBy := by
  have hauto := (List.perm_insertionSort _ _).mem_iff.mp (List.mem_filter.mp h).1
  obtain ⟨candidate, hcandidate, rfl⟩ := List.mem_map.mp hauto
  rcases List.mem_append.mp (List.mem_filter.mp hcandidate).1 with hcaused | hresolved
  · exact Or.inl (relationType_of_mem_matchPairs tools hcaused)
  · exact Or.inr (relationType_of_mem_matchPairs tools hresolved)

theorem hasRow_iff_byId (store : Store) (id : FragmentId) : HasRow store id ↔
    (store.fragments.byId id).isSome = true := by
  simp only [HasRow, Option.isSome_iff_exists, byId_eq_some_iff]

theorem present_tryLink (store : Store) (pair : LinkPair) :
    present (tryLink store pair.fromId pair.toId pair.relationType 1) = present store := by
  obtain ⟨joined, hgrows⟩ := gains_tryLink store pair.fromId pair.toId pair.relationType 1
  have hrow : ∀ id, ((tryLink store pair.fromId pair.toId pair.relationType 1).fragments.byId id).isSome =
      (store.fragments.byId id).isSome := by
    intro id
    rw [Bool.eq_iff_iff, ← hasRow_iff_byId, ← hasRow_iff_byId]
    exact hgrows.hasRow_iff
  funext other
  simp only [present, hrow]

theorem written_createEach (store : Store) (pairs : List LinkPair) :
    Written (pairs.filter (present store)) store.links (createEach store pairs).links := by
  induction pairs generalizing store with
  | nil => exact Written.refl store.links
  | cons pair later ih =>
    have hlater := ih (tryLink store pair.fromId pair.toId pair.relationType 1)
    rw [present_tryLink] at hlater
    have hboth := (written_tryLink store pair 1).trans hlater
    rw [← List.filter_append] at hboth
    exact hboth

/-- In one transaction or one by one, the pairs with their rows are written. -/
theorem written_autoLink (store : Store) (fragments : List SessionFragment) (keyId : Option KeyId) :
    Written ((validPairs tools store fragments keyId).filter (present store)) store.links
      (autoLinkSessionFragments tools store fragments keyId).store.links := by
  simp only [autoLinkSessionFragments]
  cases hcreated : createLinks store (validPairs tools store fragments keyId) with
  | none => exact written_createEach store _
  | some next =>
    obtain ⟨hwritten, -, hrows⟩ := written_createLinks hcreated
    rw [List.filter_eq_self.mpr hrows]
    exact hwritten

end FragmentMemory.SessionLinker
