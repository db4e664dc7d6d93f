import FragmentMemory.ForgetOutcome

/-! # Forgetting a topic

`FragmentWriter.deleteByTopic` statement by statement.  All of it is one transaction, so that a statement that fails
leaves the database as it was; a dry run asks the same question and counts.
-/
namespace FragmentMemory.TopicDeletion
open ApiKeyStore FragmentTables FragmentFactory FragmentWriter UniqueIndexTable

/-! ## The transaction -/

/-- The statements of `deleteByTopic`. -/
inductive TopicStatement | searchPath | begin | setAgent | select | countLinks | deleteLinks | clearLinkedTo | deleteRows | commit
  deriving DecidableEq

/-- What a deletion is asked for. -/
structure TopicRequest where
  topic : String
  agentId : String
  keyId : Option KeyId
  force : Bool

/-- The selected columns. -/
structure TopicRow where
  id : FragmentId
  keywords : List String
  topic : String
  type : FragmentType
  keyId : Option KeyId
  ttlTier : TtlTier
  deriving DecidableEq

def topicRow (f : Fragment) : TopicRow where
  id := f.id
  keywords := f.keywords
  topic := f.topic
  type := f.type
  keyId := f.keyId
  ttlTier := f.ttlTier

/-- The counts of a dry run. -/
structure TopicCounts where
  matched : ℕ
  wouldDelete : ℕ
  protected_ : ℕ
  linked : ℕ
  deriving DecidableEq

inductive TopicOutcome
  | simulated (topic : String) (counts : TopicCounts)
  | removed (fragments : List TopicRow) (protected_ : ℕ)
  deriving DecidableEq

variable (fails : TopicStatement → Bool)

/-- A statement and its answer, none when it fails. -/
def attempt {α : Type} (statement : TopicStatement) (answer : α) : Option α :=
  if fails statement then none else some answer

/-- `SELECT … ORDER BY id`, locking the rows unless it is for a dry run. -/
def selectTopic (store : Store) (request : TopicRequest) : List TopicRow :=
  ((topicRows store request.topic request.agentId request.keyId).insertionSort fun f g => f.id ≤ g.id).map topicRow

def eligible (request : TopicRequest) (rows : List TopicRow) : List TopicRow :=
  rows.filter fun row => request.force || row.ttlTier ≠ .permanent

/-- `DELETE … RETURNING id`. -/
def deleteReturning (store : Store) (ids : List FragmentId) : Store × List FragmentId :=
  (store.deleteFragments fun f => ids.contains f.id,
    (store.fragments.rows.filter fun f => ids.contains f.id).map Fragment.id)

/-- The link rows that a dry run counts; without eligible rows it asks nothing. -/
def countLinks (store : Store) (ids : List FragmentId) : Option ℕ :=
  if ids.isEmpty then some 0
  else attempt fails .countLinks (store.links.rows.filter fun l => ids.any l.touches).length

/-- The deletion of the eligible rows with what mentions them, and the ids that come back. -/
def removeEligible (store : Store) (ids : List FragmentId) : Option (Store × List FragmentId) :=
  if ids.isEmpty then some (store, [])
  else do
    let detached ← attempt fails .deleteLinks { store with links := store.links.delete fun l => ids.any l.touches }
    let cleared ← attempt fails .clearLinkedTo (detached.updateFragments (fun f => f.linkedTo.any ids.contains) (unlinked ids))
    attempt fails .deleteRows (deleteReturning cleared ids)

/-- The rest of a dry run after its selection. -/
def simulate (store : Store) (request : TopicRequest) (rows : List TopicRow) : Option (Store × TopicOutcome) := do
  let ids := (eligible request rows).map TopicRow.id
  let linked ← countLinks fails store ids
  attempt fails .commit
    (store, .simulated request.topic ⟨rows.length, ids.length, rows.length - (eligible request rows).length, linked⟩)

/-- The rest of a deletion after its selection. -/
def remove (store : Store) (request : TopicRequest) (rows : List TopicRow) : Option (Store × TopicOutcome) := do
  let removal ← removeEligible fails store ((eligible request rows).map TopicRow.id)
  attempt fails .commit
    (removal.1, .removed ((eligible request rows).filter fun row => removal.2.contains row.id)
      (rows.length - (eligible request rows).length))

/-- The body of the transaction on its own copy of the database, none where a statement throws. -/
def transaction (store : Store) (request : TopicRequest) (dryRun : Bool) : Option (Store × TopicOutcome) := do
  attempt fails .searchPath ()
  attempt fails .begin ()
  attempt fails .setAgent ()
  let rows ← attempt fails .select (selectTopic store request)
  if dryRun then simulate fails store request rows else remove fails store request rows

/-- `deleteByTopic`: the database after it and its result, none when it throws.  What is not committed is rolled back. -/
def deleteByTopicWith (store : Store) (request : TopicRequest) (dryRun : Bool) : Store × Option TopicOutcome :=
  match transaction fails store request dryRun with
  | none => (store, none)
  | some (remaining, outcome) => (remaining, some outcome)

/-- The answer of `forget` for a topic. -/
inductive ForgetAnswer
  | simulated (topic : String) (counts : TopicCounts)
  | done (deleted protected_ : ℕ)
  deriving DecidableEq

def forgetAnswer : TopicOutcome → ForgetAnswer
  | .simulated topic counts => .simulated topic counts
  | .removed fragments protected_ => .done fragments.length protected_

/-! ## What it is to do -/

/-- The rows that a request deletes. -/
def owns (request : TopicRequest) (f : Fragment) : Bool :=
  f.topic = request.topic && agentScope request.agentId f && ownedBy request.keyId f && (request.force || f.ttlTier ≠ .permanent)

/-- The ids of the rows that a request deletes. -/
def gone (store : Store) (request : TopicRequest) : List FragmentId :=
  (store.fragments.rows.filter (owns request)).map Fragment.id

/-- The deleted rows have gone with the links and the array entries that mention them, and everything else stays. -/
structure Removed (store after : Store) (request : TopicRequest) (returned : List TopicRow) : Prop where
  returned : returned.Perm ((store.fragments.rows.filter (owns request)).map topicRow)
  rows : after.fragments.rows = (store.fragments.rows.filter fun f => !owns request f).map (unlinked (gone store request)).set
  others : ∀ f ∈ store.fragments.rows, ownedBy request.keyId f = false →
    ∃ g ∈ after.fragments.rows, g = { f with linkedTo := g.linkedTo }
  links : after.links.rows = store.links.rows.filter fun l => !(gone store request).any l.touches
  evidence : after.evidence = store.evidence.filter fun e => !(gone store request).contains e.fragmentId
  events : after.caseEvents = store.caseEvents ∧ after.caseEventEdges = store.caseEventEdges
  index : after.index = store.index

/-- The counts of a request in a store. -/
def countsOf (store : Store) (request : TopicRequest) : TopicCounts where
  matched := (topicRows store request.topic request.agentId request.keyId).length
  wouldDelete := (store.fragments.rows.filter (owns request)).length
  protected_ := (topicRows store request.topic request.agentId request.keyId).length -
    (store.fragments.rows.filter (owns request)).length
  linked := (store.links.rows.filter fun l => (gone store request).any l.touches).length

variable {fails} {store : Store} {request : TopicRequest}

theorem attempt_eq_some {α : Type} {statement : TopicStatement} {answer result : α}
    (h : attempt fails statement answer = some result) : answer = result := by
  rw [attempt] at h
  split at h
  · cases h
  · exact Option.some.inj h

/-! ## The selected rows -/

theorem eligible_selectTopic (store : Store) (request : TopicRequest) :
    (eligible request (selectTopic store request)).Perm ((store.fragments.rows.filter (owns request)).map topicRow) := by
  have howned : store.fragments.rows.filter (owns request) =
      (topicRows store request.topic request.agentId request.keyId).filter fun f =>
        request.force || f.ttlTier ≠ .permanent := by
    rw [topicRows, List.filter_filter]
    refine List.filter_congr fun f _ => ?_
    rw [owns, Bool.and_comm]
  rw [eligible, selectTopic, List.filter_map, howned]
  exact ((List.perm_insertionSort _ _).filter _).map topicRow

theorem ids_eligible (store : Store) (request : TopicRequest) :
    ((eligible request (selectTopic store request)).map TopicRow.id).Perm (gone store request) := by
  have hids := (eligible_selectTopic store request).map TopicRow.id
  rwa [List.map_map] at hids

theorem contains_gone {f : Fragment} (hf : f ∈ store.fragments.rows) :
    (gone store request).contains f.id = owns request f := by
  rw [Bool.eq_iff_iff, List.contains_iff_mem, gone, List.mem_map]
  constructor
  · rintro ⟨g, hg, hid⟩
    obtain ⟨hrow, howns⟩ := List.mem_filter.mp hg
    rwa [← FragmentTables.eq_of_id store.fragments hrow hf hid]
  · intro howns
    exact ⟨f, List.mem_filter.mpr ⟨hf, howns⟩, rfl⟩

/-! ## The removal -/

/-- An array that mentions none of the ids is not rewritten. -/
theorem set_unlinked (ids : List FragmentId) (f : Fragment) :
    (if f.linkedTo.any ids.contains then (unlinked ids).set f else f) = (unlinked ids).set f := by
  split
  · rfl
  · rename_i hnone
    have hkept : f.linkedTo.filter (fun id => !ids.contains id) = f.linkedTo := by
      refine List.filter_eq_self.mpr fun id hid => ?_
      rw [Bool.not_eq_true']
      exact Bool.eq_false_iff.mpr fun hlisted => hnone (List.any_eq_true.mpr ⟨id, hid, hlisted⟩)
    show f = { f with linkedTo := f.linkedTo.filter fun id => !ids.contains id }
    rw [hkept]

theorem any_touches (ids : List FragmentId) (l : Link) :
    ids.any l.touches = (ids.contains l.fromId || ids.contains l.toId) := by
  rw [Bool.eq_iff_iff, List.any_eq_true, Bool.or_eq_true, List.contains_iff_mem, List.contains_iff_mem]
  constructor
  · rintro ⟨id, hid, htouches⟩
    rcases Bool.or_eq_true _ _ ▸ htouches with hfrom | hto
    · exact Or.inl (of_decide_eq_true hfrom ▸ hid)
    · exact Or.inr (of_decide_eq_true hto ▸ hid)
  · rintro (hfrom | hto)
    · exact ⟨l.fromId, hfrom, by simp [Link.touches]⟩
    · exact ⟨l.toId, hto, by simp [Link.touches]⟩

/-- The cascade of the rows finds no links, which went before. -/
theorem removed_removeRows (store : Store) (request : TopicRequest) {returned : List TopicRow}
    (hreturned : returned.Perm ((store.fragments.rows.filter (owns request)).map topicRow)) :
    Removed store (removeRows store (gone store request)) request returned := by
  have hcleared : (store.fragments.rows.map fun f => if f.linkedTo.any (gone store request).contains then
      (unlinked (gone store request)).set f else f) = store.fragments.rows.map (unlinked (gone store request)).set :=
    List.map_congr_left fun f _ => set_unlinked _ f
  have hdeleted : ((store.fragments.rows.map (unlinked (gone store request)).set).filter fun f =>
      (gone store request).contains f.id).map Fragment.id = gone store request := by
    rw [List.filter_map, List.map_map]
    refine congrArg (List.map Fragment.id) (List.filter_congr fun f hf => ?_)
    exact @contains_gone store request f hf
  have hcascade : (removeRows store (gone store request)).links.rows =
      (store.links.rows.filter fun l => !(gone store request).any l.touches).filter fun l =>
        !((((store.fragments.rows.map fun f => if f.linkedTo.any (gone store request).contains then
            (unlinked (gone store request)).set f else f).filter fun f =>
              (gone store request).contains f.id).map Fragment.id).contains l.fromId ||
          (((store.fragments.rows.map fun f => if f.linkedTo.any (gone store request).contains then
            (unlinked (gone store request)).set f else f).filter fun f =>
              (gone store request).contains f.id).map Fragment.id).contains l.toId) := rfl
  have hevidence : (removeRows store (gone store request)).evidence = store.evidence.filter fun e =>
      !(((store.fragments.rows.map fun f => if f.linkedTo.any (gone store request).contains then
          (unlinked (gone store request)).set f else f).filter fun f =>
            (gone store request).contains f.id).map Fragment.id).contains e.fragmentId := rfl
  have hkept : (removeRows store (gone store request)).fragments.rows =
      (store.fragments.rows.filter fun f => !owns request f).map (unlinked (gone store request)).set := by
    show (store.fragments.rows.map fun f => if f.linkedTo.any (gone store request).contains then
      (unlinked (gone store request)).set f else f).filter (fun f => !(gone store request).contains f.id) = _
    rw [hcleared, List.filter_map]
    refine congrArg (List.map _) (List.filter_congr fun f hf => ?_)
    show (!(gone store request).contains f.id) = !owns request f
    rw [contains_gone hf]
  refine ⟨hreturned, hkept, ?_, ?_, ?_, ⟨rfl, rfl⟩, rfl⟩
  · intro f hf hforeign
    refine ⟨(unlinked (gone store request)).set f, ?_, rfl⟩
    rw [hkept]
    refine List.mem_map_of_mem (List.mem_filter.mpr ⟨hf, ?_⟩)
    rw [owns, hforeign, Bool.and_false, Bool.false_and, Bool.not_false]
  · rw [hcascade, hcleared, hdeleted, List.filter_filter]
    refine List.filter_congr fun l _ => ?_
    rw [← any_touches, Bool.and_self]
  · rw [hevidence, hcleared, hdeleted]

theorem any_touches_congr {ids others : List FragmentId} (h : ids.Perm others) (l : Link) :
    ids.any l.touches = others.any l.touches := by
  rw [Bool.eq_iff_iff, List.any_eq_true, List.any_eq_true]
  exact exists_congr fun id => and_congr_left' h.mem_iff

theorem removeRows_congr (store : Store) {ids others : List FragmentId} (h : ids.Perm others) :
    removeRows store ids = removeRows store others := by
  have hcontains : ids.contains = others.contains := by
    funext id
    rw [Bool.eq_iff_iff, List.contains_iff_mem, List.contains_iff_mem]
    exact h.mem_iff
  have hany : (fun l : Link => ids.any l.touches) = fun l => others.any l.touches := by
    funext l
    exact any_touches_congr h l
  have hset : (unlinked ids).set = (unlinked others).set := by
    funext f
    show { f with linkedTo := f.linkedTo.filter fun id => !ids.contains id } =
      { f with linkedTo := f.linkedTo.filter fun id => !others.contains id }
    rw [hcontains]
  have hcleared : ∀ cleared : Store, cleared.updateFragments (fun f => f.linkedTo.any others.contains) (unlinked ids) =
      cleared.updateFragments (fun f => f.linkedTo.any others.contains) (unlinked others) := by
    intro cleared
    simp only [Store.updateFragments, hset]
  have hrow : (fun f : Fragment => ids.contains f.id) = fun f => others.contains f.id := by
    funext f
    rw [hcontains]
  simp only [removeRows, hany, hrow, hcontains, hcleared]

/-! ## Every outcome -/

/-- Without eligible rows there is nothing to remove. -/
theorem removeRows_nil (store : Store) : removeRows store [] = store := by
  have hlinks : (store.links.delete fun l => ([] : List FragmentId).any l.touches) = store.links :=
    Table.ext (List.filter_eq_self.mpr fun _ _ => rfl)
  have hset : ∀ f : Fragment, (unlinked []).set f = f := by
    intro f
    have hkept : f.linkedTo.filter (fun id => !([] : List FragmentId).contains id) = f.linkedTo :=
      List.filter_eq_self.mpr fun _ _ => rfl
    show { f with linkedTo := f.linkedTo.filter fun id => !([] : List FragmentId).contains id } = f
    rw [hkept]
  have hcleared :
    store.updateFragments (fun f => f.linkedTo.any ([] : List FragmentId).contains) (unlinked []) = store := by
    have hrows : (store.fragments.update (fun f => f.linkedTo.any ([] : List FragmentId).contains) (unlinked []).set
        (unlinked []).entries_set) = store.fragments := by
      refine Table.ext ((List.map_congr_left fun f _ => ?_).trans (List.map_id _))
      rw [set_unlinked, hset]
      rfl
    rw [Store.updateFragments, hrows]
  have hrows : (store.fragments.rows.filter fun f => ([] : List FragmentId).contains f.id) = [] :=
    List.filter_eq_nil_iff.mpr fun _ _ => Bool.false_ne_true
  have hfragments : (store.fragments.delete fun f => ([] : List FragmentId).contains f.id) = store.fragments :=
    Table.ext (List.filter_eq_self.mpr fun _ _ => rfl)
  have hcascade :
    (store.links.delete fun l => ([] : List FragmentId).contains l.fromId || ([] : List FragmentId).contains l.toId) =
      store.links := Table.ext (List.filter_eq_self.mpr fun _ _ => rfl)
  have hevidence : (store.evidence.filter fun e => !([] : List FragmentId).contains e.fragmentId) = store.evidence :=
    List.filter_eq_self.mpr fun _ _ => rfl
  rw [removeRows, hlinks, hcleared, Store.deleteFragments, hrows, List.map_nil, hfragments, hcascade, hevidence]

/-- The three statements are the removal of the rows, and all the ids that are stored come back. -/
theorem removeEligible_eq_some {ids : List FragmentId} {removal : Store × List FragmentId}
    (h : removeEligible fails store ids = some removal) :
    removal.1 = removeRows store ids ∧ ∀ f ∈ store.fragments.rows, f.id ∈ ids → f.id ∈ removal.2 := by
  rw [removeEligible] at h
  split at h
  · rename_i hempty
    rw [List.isEmpty_iff.mp hempty, ← Option.some.inj h, removeRows_nil]
    exact ⟨rfl, fun _ _ hid => absurd hid List.not_mem_nil⟩
  · obtain ⟨detached, hdetached, hrest⟩ := Option.bind_eq_some_iff.mp h
    obtain ⟨cleared, hcleared, hdeleted⟩ := Option.bind_eq_some_iff.mp hrest
    have hfirst := attempt_eq_some hdetached
    have hsecond := attempt_eq_some hcleared
    rw [← hfirst] at hsecond
    rw [← attempt_eq_some hdeleted, deleteReturning, ← hsecond]
    refine ⟨rfl, fun f hf hid => ?_⟩
    have hrow : (if f.linkedTo.any ids.contains then (unlinked ids).set f else f).id = f.id := by
      rw [set_unlinked]
      rfl
    refine List.mem_map.mpr ⟨_, List.mem_filter.mpr ⟨updated_mem_updateFragments hf _ _, ?_⟩, hrow⟩
    rw [hrow]
    exact List.contains_iff_mem.mpr hid

theorem length_eligible (store : Store) (request : TopicRequest) :
    (eligible request (selectTopic store request)).length = (countsOf store request).wouldDelete := by
  rw [(eligible_selectTopic store request).length_eq, List.length_map]
  rfl

theorem length_selectTopic (store : Store) (request : TopicRequest) :
    (selectTopic store request).length = (countsOf store request).matched := by
  rw [selectTopic, List.length_map, List.length_insertionSort]
  rfl

/-- Every statement before the first write has answered. -/
theorem transaction_eq_some {dryRun : Bool} {result : Store × TopicOutcome}
    (h : transaction fails store request dryRun = some result) :
    (if dryRun then simulate fails store request (selectTopic store request)
      else remove fails store request (selectTopic store request)) = some result := by
  obtain ⟨-, -, h⟩ := Option.bind_eq_some_iff.mp h
  obtain ⟨-, -, h⟩ := Option.bind_eq_some_iff.mp h
  obtain ⟨-, -, h⟩ := Option.bind_eq_some_iff.mp h
  obtain ⟨rows, hrows, h⟩ := Option.bind_eq_some_iff.mp h
  rw [← attempt_eq_some hrows] at h
  exact h

theorem simulate_eq_some {result : Store × TopicOutcome}
    (h : simulate fails store request (selectTopic store request) = some result) :
    result = (store, .simulated request.topic (countsOf store request)) := by
  obtain ⟨linked, hlinked, hcommit⟩ := Option.bind_eq_some_iff.mp h
  rw [← attempt_eq_some hcommit, length_selectTopic, List.length_map, length_eligible]
  have hany : (fun l : Link => ((eligible request (selectTopic store request)).map TopicRow.id).any l.touches) =
      fun l => (gone store request).any l.touches := by
    funext l
    exact any_touches_congr (ids_eligible store request) l
  have hcount : linked = (countsOf store request).linked := by
    rw [countsOf, ← hany]
    rw [countLinks] at hlinked
    split at hlinked
    · rename_i hempty
      rw [List.isEmpty_iff.mp hempty, ← Option.some.inj hlinked]
      exact (List.length_eq_zero_iff.mpr (List.filter_eq_nil_iff.mpr fun _ _ => Bool.false_ne_true)).symm
    · exact (attempt_eq_some hlinked).symm
  rw [hcount]
  rfl

theorem remove_eq_some {result : Store × TopicOutcome}
    (h : remove fails store request (selectTopic store request) = some result) :
    ∃ returned, result.2 = .removed returned (countsOf store request).protected_ ∧
    Removed store result.1 request returned := by
  obtain ⟨removal, hremoval, hcommit⟩ := Option.bind_eq_some_iff.mp h
  obtain ⟨hafter, hids⟩ := removeEligible_eq_some hremoval
  rw [← attempt_eq_some hcommit]
  refine ⟨_, by rw [length_selectTopic, length_eligible]; rfl, ?_⟩
  dsimp only
  rw [hafter, removeRows_congr store (ids_eligible store request)]
  refine removed_removeRows store request ?_
  have hall : (eligible request (selectTopic store request)).filter (fun row => removal.2.contains row.id) =
      eligible request (selectTopic store request) := by
    refine List.filter_eq_self.mpr fun row hrow => List.contains_iff_mem.mpr ?_
    obtain ⟨f, hf, rfl⟩ := List.mem_map.mp ((eligible_selectTopic store request).mem_iff.mp hrow)
    exact hids f (List.mem_filter.mp hf).1 (List.mem_map_of_mem hrow)
  rw [hall]
  exact eligible_selectTopic store request

theorem matched_eq (store : Store) (request : TopicRequest) :
    (countsOf store request).wouldDelete + (countsOf store request).protected_ = (countsOf store request).matched := by
  have hle : (countsOf store request).wouldDelete ≤ (countsOf store request).matched := by
    rw [← length_eligible, ← length_selectTopic]
    exact List.length_filter_le _ _
  exact Nat.add_sub_of_le hle

/-- The links that a removal takes are those that a dry run counts. -/
theorem Removed.links_length {after : Store} {returned : List TopicRow} (h : Removed store after request returned) :
    after.links.rows.length + (countsOf store request).linked = store.links.rows.length := by
  rw [h.links, Nat.add_comm]
  exact (List.length_eq_length_filter_add _).symm

/-- Without a failing statement the deletion commits, and it is that of the writer. -/
theorem deleteByTopicWith_committed (store : Store) (request : TopicRequest) :
    ∃ outcome, deleteByTopicWith (fun _ => false) store request false =
      ((deleteByTopic store request.topic request.agentId request.keyId request.force).1, some outcome) := by
  have hids : ((eligible request (selectTopic store request)).map TopicRow.id).Perm
      ((eligibleRows store request.topic request.agentId request.keyId request.force).map Fragment.id) := by
    refine (ids_eligible store request).trans (List.Perm.of_eq ?_)
    rw [gone, eligibleRows, topicRows, List.filter_filter]
    refine congrArg _ (List.filter_congr fun f _ => ?_)
    rw [owns, Bool.and_comm]
  have hremoval : ∃ removal, removeEligible (fun _ => false) store
      ((eligible request (selectTopic store request)).map TopicRow.id) = some removal := by
    rw [removeEligible]
    split
    · exact ⟨_, rfl⟩
    · exact ⟨_, rfl⟩
  obtain ⟨removal, hremoval⟩ := hremoval
  have hafter := (removeEligible_eq_some hremoval).1
  have htransaction : transaction (fun _ => false) store request false =
      (removeEligible (fun _ => false) store ((eligible request (selectTopic store request)).map TopicRow.id)).bind
        fun removal => some (removal.1, TopicOutcome.removed
          ((eligible request (selectTopic store request)).filter fun row => removal.2.contains row.id)
          ((selectTopic store request).length - (eligible request (selectTopic store request)).length)) := rfl
  rw [hremoval, Option.bind_some] at htransaction
  rw [deleteByTopicWith, htransaction, deleteByTopic]
  dsimp only
  rw [hafter, removeRows_congr store hids]
  exact ⟨_, rfl⟩

end FragmentMemory.TopicDeletion
