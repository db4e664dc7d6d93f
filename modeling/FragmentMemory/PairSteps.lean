import FragmentMemory.MemoryRememberer
import FragmentMemory.TransitionRuns

/-! # What a stage does with a pair of fragments

The automatic stages select pairs of fragments and treat one pair after the other.  Here is what the
treatment of one pair writes, with the rows as the stage has read them, and the journal of the pairs
that a stage has treated.
-/
namespace FragmentMemory.PairSteps
open ApiKeyStore FragmentTables FragmentWriter LinkStore MemoryRememberer TransitionRuns JsString

/-- The vectors of the rows: which ones have one, and the cosine similarity of two of them. -/
structure Embeddings where
  embedded : FragmentId → Bool
  similarity : FragmentId → FragmentId → ℚ

def halve : ColumnUpdate where
  set f := { f with importance := f.importance * (5 / 10) }
  entries_set _ := rfl

def endValidity (now : Time) : ColumnUpdate where
  set f := { f with validTo := some now }
  entries_set _ := rfl

def setAccessCount (count : ℕ) : ColumnUpdate where
  set f := { f with accessCount := count }
  entries_set _ := rfl

def incrementAccessCount : ColumnUpdate where
  set f := { f with accessCount := f.accessCount + 1 }
  entries_set _ := rfl

/-- `SET valid_to = NOW() WHERE id = $1 AND valid_to IS NULL`. -/
def expireRow (now : Time) (store : Store) (id : FragmentId) : Store :=
  store.updateFragments (fun f => f.id = id && f.live) (endValidity now)

/-- The decision that `resolveContradiction` remembers, under no key. -/
def auditParams (winner loser : Fragment) (topic reasoning : String) : RememberParams where
  content := some ("[모순 해결] \"" ++ clip loser.content 80 ++ "\" 파편이 \"" ++ clip winner.content 80 ++
    "\" 으로 대체됨. 판단 근거: " ++ (truthy (some reasoning)).getD "시간 순서 기준")
  type := some .decision
  topic := some ((truthy (some topic)).getD "contradiction")
  keywords := ["contradiction", "superseded", "resolved"]
  importance := some (6 / 10)
  linkedTo := [winner.id, loser.id]

def masterCaller : Caller where
  keyId := none

/-- The fragment that stays when two contradict: the newer one, the candidate when neither is. -/
def contradictionWinner (newFrag candidate : Fragment) : Fragment :=
  if candidate.createdAt < newFrag.createdAt then newFrag else candidate

def contradictionLoser (newFrag candidate : Fragment) : Fragment :=
  if candidate.createdAt < newFrag.createdAt then candidate else newFrag

/-- What `resolveContradiction` writes of the pair.  Only the candidate is spared as an anchor, and only
in its importance. -/
def settleContradiction (now : Time) (store : Store) (newFrag candidate : Fragment) : Store :=
  let winner := contradictionWinner newFrag candidate
  let loser := contradictionLoser newFrag candidate
  let linked := tryLink store newFrag.id candidate.id .contradicts 1
  let weakened := if candidate.createdAt < newFrag.createdAt && candidate.isAnchor then linked
    else linked.updateFragments (fun f => f.id = loser.id) halve
  expireRow now (tryLink weakened loser.id winner.id .supersededBy 1) loser.id

/-- The audit record of a settled contradiction. -/
def recordAudit (settings : Settings) (draws : Draws) (store : Store) (winner loser : Fragment)
    (topic reasoning : String) : Store :=
  (remember settings draws store (auditParams winner loser topic reasoning) masterCaller).1

/-- One pair of `detectSupersessions`. -/
def supersedeOlder (now : Time) (store : Store) (older newer : Fragment) : Store :=
  (tryLink store older.id newer.id .supersededBy 1).updateFragments (fun f => f.id = older.id && f.live) (expire now)

/-- The gate of `linkFragment` on a full duplicate. -/
def dropDuplicate (now : Time) (store : Store) (newFrag existing : Fragment) : Store :=
  (expireRow now store newFrag.id).updateFragments (fun f => f.id = existing.id) incrementAccessCount

/-- One candidate of `linkFragment`; without the link nothing is expired. -/
def relateCandidate (now : Time) (store : Store) (newFrag existing : Fragment) (relationType : RelationType) : Store :=
  match createLink store existing.id newFrag.id relationType 1 with
  | none => store
  | some linked => if relationType = .supersededBy then expireRow now linked existing.id else linked

/-- The fragment that `_semanticDedup` keeps of a pair: the newer one, the first when neither is. -/
def keptOf (frag candidate : Fragment) : Fragment := if candidate.createdAt ≤ frag.createdAt then frag else candidate

def droppedOf (frag candidate : Fragment) : Fragment := if candidate.createdAt ≤ frag.createdAt then candidate else frag

/-- The merge of a pair.  The two statements that should move the links are an `UPDATE` with an
`ON CONFLICT` clause, which the database refuses and the caller ignores; the links of the pair itself
go. -/
def mergePair (now : Time) (store : Store) (frag candidate : Fragment) : Store :=
  let kept := keptOf frag candidate
  let dropped := droppedOf frag candidate
  let unlinked := { store with
    links := store.links.delete fun l =>
      (l.fromId = dropped.id && l.toId = kept.id) || (l.fromId = kept.id && l.toId = dropped.id) }
  (expireRow now unlinked dropped.id).updateFragments (fun f => f.id = kept.id)
    (setAccessCount (frag.accessCount + candidate.accessCount))

/-- A group of `_commitCompressionGroups`.  The `supersedes` links fail the check constraint of the
table, and the caller ignores it. -/
def compressGroup (now : Time) (store : Store) (keeper : Fragment) (others : List Fragment) : Store :=
  let expired := others.foldl (fun current old => expireRow now current old.id) store
  expired.updateFragments (fun f => f.id = keeper.id)
    (setAccessCount (others.foldl (fun total old => total + old.accessCount) keeper.accessCount))

/-- The treatment of one pair, or of one group of a compression. -/
inductive PairStep
  | settle (now : Time) (newFrag candidate : Fragment)
  | audit (draws : Draws) (winner loser : Fragment) (topic reasoning : String)
  | supersede (now : Time) (older newer : Fragment)
  | duplicate (now : Time) (newFrag existing : Fragment)
  | relate (now : Time) (newFrag existing : Fragment) (relationType : RelationType)
  | merge (now : Time) (frag candidate : Fragment)
  | compress (now : Time) (keeper : Fragment) (others : List Fragment)

def pairStep (settings : Settings) (store : Store) : PairStep → Store
  | .settle now newFrag candidate => settleContradiction now store newFrag candidate
  | .audit draws winner loser topic reasoning => recordAudit settings draws store winner loser topic reasoning
  | .supersede now older newer => supersedeOlder now store older newer
  | .duplicate now newFrag existing => dropDuplicate now store newFrag existing
  | .relate now newFrag existing relationType => relateCandidate now store newFrag existing relationType
  | .merge now frag candidate => mergePair now store frag candidate
  | .compress now keeper others => compressGroup now store keeper others

variable {settings : Settings} {start : Store}

/-- The pairs treated since a start, and the store after them. -/
structure Journal (settings : Settings) (start : Store) where
  steps : List PairStep
  store : Store
  run_steps : run (pairStep settings) start steps = store

namespace Journal

def empty (settings : Settings) (start : Store) : Journal settings start := ⟨[], start, rfl⟩

def perform (journal : Journal settings start) (pair : PairStep) : Journal settings start where
  steps := journal.steps ++ [pair]
  store := pairStep settings journal.store pair
  run_steps := by rw [run_append, journal.run_steps]; rfl

def performAll (journal : Journal settings start) (pairs : List PairStep) : Journal settings start :=
  pairs.foldl perform journal

/-- `resolveContradiction`, with the key of the candidate as its caller has selected it: nothing happens
under different keys. -/
def resolveContradiction (journal : Journal settings start) (draws : Draws) (newFrag candidate : Fragment)
    (candidateKey : Option KeyId) (topic reasoning : String) : Journal settings start :=
  if newFrag.keyId ≠ candidateKey then journal
  else
    (journal.perform (.settle draws.now newFrag candidate)).perform
      (.audit draws (contradictionWinner newFrag candidate) (contradictionLoser newFrag candidate) topic reasoning)

@[simp] theorem store_perform (journal : Journal settings start) (pair : PairStep) :
    (journal.perform pair).store = pairStep settings journal.store pair := rfl

@[simp] theorem steps_perform (journal : Journal settings start) (pair : PairStep) :
    (journal.perform pair).steps = journal.steps ++ [pair] := rfl

/-- Every pair of the journal meets a condition in the store in which it was treated. -/
def Meets (condition : Store → PairStep → Prop) (journal : Journal settings start) : Prop :=
  StepsMeet (pairStep settings) condition start journal.steps

instance (condition : Store → PairStep → Prop) [∀ store pair, Decidable (condition store pair)]
    (journal : Journal settings start) : Decidable (journal.Meets condition) :=
  inferInstanceAs (Decidable (StepsMeet (pairStep settings) condition start journal.steps))

/-- An invariant of the treatments that meet a condition holds at the end of a journal of such ones. -/
theorem invariant {condition : Store → PairStep → Prop} {I : Store → Prop} {journal : Journal settings start}
    (hstep : ∀ store pair, I store → condition store pair → I (pairStep settings store pair)) (hstart : I start)
    (hmeets : journal.Meets condition) : I journal.store := by
  rw [← journal.run_steps]
  exact invariant_run_of_meets hstep hstart hmeets

theorem meets_perform {condition : Store → PairStep → Prop} {journal : Journal settings start} {pair : PairStep} :
    (journal.perform pair).Meets condition ↔ journal.Meets condition ∧ condition journal.store pair := by
  rw [Meets, perform, stepsMeet_concat, journal.run_steps]
  rfl

/-- A loop over pairs: what each of them needs, it has in the store that the loop has reached. -/
theorem meets_performAll {condition : Store → PairStep → Prop} {I : Store → Prop} {pairs : List PairStep}
    {journal : Journal settings start} (hmeets : journal.Meets condition) (hstart : I journal.store)
    (hstep : ∀ store, I store → ∀ pair ∈ pairs, condition store pair ∧ I (pairStep settings store pair)) :
    (journal.performAll pairs).Meets condition ∧ I (journal.performAll pairs).store := by
  induction pairs generalizing journal with
  | nil => exact ⟨hmeets, hstart⟩
  | cons pair later ih =>
    obtain ⟨hcondition, hnext⟩ := hstep _ hstart pair List.mem_cons_self
    have hperformed := meets_perform.mpr ⟨hmeets, hcondition⟩
    exact ih hperformed hnext fun store hstore other hother =>
      hstep store hstore other (List.mem_cons_of_mem _ hother)

end Journal
end FragmentMemory.PairSteps
