import FragmentMemory.MemoryRequests
import FragmentMemory.RememberLiveness

/-! # The outcome of a forget

`forget` by id registers the fragment out of the index first and then deletes it, in several statements
of which each commits by itself.  Here is what it reports against what it has changed, also when one of
the statements fails.
-/
namespace FragmentMemory.ForgetOutcome
open ApiKeyStore FragmentTables FragmentFactory FragmentWriter FragmentReader FragmentIndex MemoryRememberer
  MemoryRequests UniqueIndexTable LinkStore ContentUniqueness RememberLiveness

/-- The statements of `FragmentWriter.delete`. -/
inductive DeleteStatement | ownership | links | linkedTo | row deriving DecidableEq

/-- `FragmentWriter.delete` with a statement that may fail.  Only the failure of the removal of the links
is caught; for any other one there is no answer. -/
def deleteWith (failing : Option DeleteStatement) (store : Store) (id : FragmentId) (keyId : Option KeyId) :
    Store × Option Bool :=
  if keyId.isSome ∧ failing = some .ownership then (store, none)
  else if keyId.isSome ∧ ¬ store.fragments.rows.any (fun f => f.id = id && f.keyId = keyId) then (store, some false)
  else
    let detached := if failing = some .links then store
      else { store with links := store.links.delete fun l => l.touches id }
    if failing = some .linkedTo then (detached, none)
    else
      let cleared := detached.updateFragments (fun f => f.linkedTo.contains id) (unlinked [id])
      if failing = some .row then (cleared, none)
      else (cleared.deleteFragments fun f => f.id = id, some (store.fragments.byId id).isSome)

/-- The figures that `forget` reports. -/
structure ForgetReport where
  deleted : ℕ
  protected_ : ℕ
  deriving DecidableEq

variable (settings : Settings)

/-- `forget` by id, with its report; none where a statement throws. -/
def forgetById (failing : Option DeleteStatement) (store : Store) (id : FragmentId) (force : Bool) (caller : Caller) :
    Store × Option ForgetReport :=
  match getById store id caller.agentId caller.keyId (caller.groups.getD []) with
  | none => (store, some ⟨0, 0⟩)
  | some f =>
    if f.ttlTier = .permanent ∧ ¬ force then (store, some ⟨0, 1⟩)
    else
      let deindexed := deindex settings.redisReady settings.tools store f f.keyId
      let outcome := deleteWith failing deindexed f.id caller.keyId
      (outcome.1, outcome.2.map fun ok => ⟨if ok then 1 else 0, 0⟩)

/-- Nothing has changed. -/
structure Untouched (before after : Store) : Prop where
  rows : after.fragments.rows = before.fragments.rows
  links : after.links.rows = before.links.rows
  index : after.index = before.index

/-- Nothing mentions the id. -/
structure Gone (id : FragmentId) (store : Store) : Prop where
  rows : ∀ f ∈ store.fragments.rows, f.id ≠ id
  arrays : ∀ f ∈ store.fragments.rows, id ∉ f.linkedTo
  links : ∀ l ∈ store.links.rows, l.touches id = false
  index : ∀ member ∈ store.index, member.2 ≠ id

/-- A forget that reports no deletion has changed nothing, one that reports a deletion has left nothing,
and one that fails has done the one or the other. -/
def AllOrNothing (id : FragmentId) (before after : Store) (report : Option ForgetReport) : Prop :=
  match report.map ForgetReport.deleted with
  | some 0 => Untouched before after
  | some (_ + 1) => Gone id after
  | none => Untouched before after ∨ Gone id after

instance (before after : Store) : Decidable (Untouched before after) :=
  decidable_of_iff (after.fragments.rows = before.fragments.rows ∧ after.links.rows = before.links.rows ∧
      after.index = before.index)
    ⟨fun h => ⟨h.1, h.2.1, h.2.2⟩, fun h => ⟨h.rows, h.links, h.index⟩⟩

instance (id : FragmentId) (store : Store) : Decidable (Gone id store) :=
  decidable_of_iff ((∀ f ∈ store.fragments.rows, f.id ≠ id) ∧ (∀ f ∈ store.fragments.rows, id ∉ f.linkedTo) ∧
      (∀ l ∈ store.links.rows, l.touches id = false) ∧ ∀ member ∈ store.index, member.2 ≠ id)
    ⟨fun h => ⟨h.1, h.2.1, h.2.2.1, h.2.2.2⟩, fun h => ⟨h.rows, h.arrays, h.links, h.index⟩⟩

instance (id : FragmentId) (before after : Store) (report : Option ForgetReport) :
    Decidable (AllOrNothing id before after report) := by
  unfold AllOrNothing
  split <;> infer_instance

/-- The index has nothing that `deindex` would remove. -/
def Unregistered (store : Store) (f : Fragment) : Prop :=
  settings.redisReady = true → ∀ key ∈ deindexSets settings.tools f f.keyId, (key, f.id) ∉ store.index

/-- The index has nothing on the fragment but what `deindex` removes. -/
def RemovableOnly (store : Store) (f : Fragment) : Prop :=
  ∀ member ∈ store.index, member.2 = f.id →
    settings.redisReady = true ∧ member.1 ∈ deindexSets settings.tools f f.keyId

def Detached (store : Store) (id : FragmentId) : Prop := ∀ l ∈ store.links.rows, l.touches id = false

def Unmentioned (store : Store) (id : FragmentId) : Prop := ∀ f ∈ store.fragments.rows, id ∉ f.linkedTo

/-- What a deletion that stops at some statement asks of the store before it. -/
def StopsCleanly (failing : Option DeleteStatement) (store : Store) (f : Fragment) (keyId : Option KeyId) : Prop :=
  if keyId.isSome ∧ (failing = some .ownership ∨ f.keyId ≠ keyId) then Unregistered settings store f
  else match failing with
    | some .linkedTo => Unregistered settings store f ∧ Detached store f.id
    | some .row => Unregistered settings store f ∧ Detached store f.id ∧ Unmentioned store f.id
    | some .ownership | some .links | none => RemovableOnly settings store f

/-- What a forget asks of the store before it. -/
def ForgetsCleanly (failing : Option DeleteStatement) (store : Store) (id : FragmentId) (force : Bool)
    (caller : Caller) : Prop :=
  ∀ f, getById store id caller.agentId caller.keyId (caller.groups.getD []) = some f →
    (f.ttlTier = .permanent → force = true) → StopsCleanly settings failing store f caller.keyId

/-- Without a failing statement `delete` is the one of the writer. -/
theorem deleteWith_none (store : Store) (id : FragmentId) (keyId : Option KeyId) :
    deleteWith none store id keyId = ((delete store id keyId).1, some (delete store id keyId).2) := by
  simp only [deleteWith, delete, reduceCtorEq, and_false, if_false]
  split
  · rfl
  · have hremove : ({ store with links := store.links.delete fun l => l.touches id }.updateFragments
        (fun f => f.linkedTo.contains id) (unlinked [id])).deleteFragments (fun f => f.id = id) =
        removeRows store [id] := by
      have htouches : (fun l : Link => [id].any l.touches) = fun l => l.touches id := by
        funext l
        simp
      have hmentions : (fun f : Fragment => f.linkedTo.any [id].contains) = fun f => f.linkedTo.contains id := by
        funext f
        rw [Bool.eq_iff_iff]
        simp
      have hrow : (fun f : Fragment => [id].contains f.id) = fun f => decide (f.id = id) := by
        funext f
        rw [Bool.eq_iff_iff]
        simp
      simp only [removeRows, htouches, hmentions, hrow]
    rw [hremove]

/-- Without a failing statement `forget` is that of the requests. -/
theorem forgetById_none (store : Store) (id : FragmentId) (force : Bool) (caller : Caller) :
    (forgetById settings none store id force caller).1 =
      forget settings store { target := .id id, force := force } caller := by
  simp only [forgetById, forget, deleteWith_none, Bool.false_eq_true, if_false]
  cases getById store id caller.agentId caller.keyId (caller.groups.getD []) with
  | none => rfl
  | some f =>
    by_cases hprotected : f.ttlTier = .permanent ∧ ¬ force
    · simp only [if_pos hprotected]
    · simp only [if_neg hprotected]

theorem deindex_eq (store : Store) (f : Fragment) :
    deindex settings.redisReady settings.tools store f f.keyId = { store with
      index := if settings.redisReady then removeAll store.index (deindexSets settings.tools f f.keyId) f.id
        else store.index } := by
  simp only [deindex]
  split <;> rfl

/-- A deindexing changes nothing if and only if there is nothing to remove. -/
theorem deindexed_eq_iff (store : Store) (f : Fragment) :
    (deindex settings.redisReady settings.tools store f f.keyId).index = store.index ↔
    Unregistered settings store f := by
  rw [deindex_eq]
  cases hready : settings.redisReady with
  | false =>
    refine iff_of_true rfl fun h => ?_
    rw [hready] at h
    cases h
  | true =>
    simp only [if_true, removeAll, List.filter_eq_self, Unregistered, hready, true_implies]
    constructor
    · intro h key hkey hmem
      have hkept := h (key, f.id) hmem
      simp [hkey] at hkept
    · intro h member hmember
      by_contra hremoved
      simp only [Bool.not_eq_true', Bool.not_eq_false, Bool.and_eq_true, decide_eq_true_eq, List.contains_iff_mem]
        at hremoved
      exact h member.1 hremoved.2 (hremoved.1 ▸ hmember)

/-- A deindexing leaves nothing on the fragment if and only if there was nothing else. -/
theorem deindexed_gone_iff (store : Store) (f : Fragment) :
    (∀ member ∈ (deindex settings.redisReady settings.tools store f f.keyId).index, member.2 ≠ f.id) ↔
      RemovableOnly settings store f := by
  rw [deindex_eq]
  simp only [RemovableOnly]
  cases settings.redisReady with
  | false =>
    simp only [Bool.false_eq_true, if_false, false_and, ne_eq]
  | true =>
    simp only [if_true, true_and, removeAll, List.mem_filter, Bool.not_eq_true', Bool.and_eq_false_iff,
      decide_eq_false_iff_not, and_imp]
    constructor
    · intro h member hmember hid
      by_contra hother
      exact h member hmember (Or.inr (by simpa using hother)) hid
    · intro h member hmember hkept hid
      have hset := h member hmember hid
      rcases hkept with hne | hother
      · exact hne hid
      · simp [hset] at hother

theorem detached_iff (store : Store) (id : FragmentId) :
    (store.links.delete fun l => l.touches id).rows = store.links.rows ↔ Detached store id := by
  simp only [Table.delete, List.filter_eq_self, Bool.not_eq_true', Detached]

theorem unmentioned_iff (store : Store) (id : FragmentId) :
    (store.updateFragments (fun f => f.linkedTo.contains id) (unlinked [id])).fragments.rows = store.fragments.rows ↔
      Unmentioned store id := by
  have hfixed : ∀ f : Fragment, (if f.linkedTo.contains id then (unlinked [id]).set f else f) = f ↔
    id ∉ f.linkedTo := by
    intro f
    split
    · rename_i hmem
      refine iff_of_false (fun hsame => ?_) (not_not.mpr (List.contains_iff_mem.mp hmem))
      have harray : f.linkedTo.filter (fun other => !([id].contains other)) = f.linkedTo :=
        congrArg Fragment.linkedTo hsame
      have hkept := List.filter_eq_self.mp harray id (List.contains_iff_mem.mp hmem)
      simp at hkept
    · rename_i hmem
      exact iff_of_true rfl fun h => hmem (List.contains_iff_mem.mpr h)
  have hmap : store.fragments.rows.map (fun f => if f.linkedTo.contains id then (unlinked [id]).set f else f) =
      store.fragments.rows.map (fun f => f) ↔ Unmentioned store id := by
    rw [List.map_inj_left]
    exact forall₂_congr fun f _ => hfixed f
  rw [List.map_id'] at hmap
  exact hmap

theorem unmentioned_updateFragments (store : Store) (id : FragmentId) :
    Unmentioned (store.updateFragments (fun f => f.linkedTo.contains id) (unlinked [id])) id := by
  intro f hf
  obtain ⟨g, -, rfl⟩ := (mem_updateFragments_iff store).mp hf
  split
  · simp [unlinked]
  · rename_i hmem
    exact fun h => hmem (List.contains_iff_mem.mpr h)

/-- After a deletion that comes to its end only the index can mention the id. -/
theorem gone_deleteFragments {store cleared : Store} {id : FragmentId}
    (hcleared : ∀ f ∈ cleared.fragments.rows, id ∉ f.linkedTo)
    (hlinks : ∀ l ∈ cleared.links.rows, l.touches id = true → ∃ f ∈ cleared.fragments.rows, f.id = id)
    (hindex : cleared.index = store.index) :
    Gone id (cleared.deleteFragments fun f => f.id = id) ↔ ∀ member ∈ store.index, member.2 ≠ id := by
  have hrows : ∀ f ∈ (cleared.deleteFragments fun f => f.id = id).fragments.rows,
      f ∈ cleared.fragments.rows ∧ f.id ≠ id := by
    intro f hf
    obtain ⟨hrow, hkept⟩ := (Table.mem_delete_iff cleared.fragments).mp hf
    exact ⟨hrow, of_decide_eq_false hkept⟩
  constructor
  · intro h
    have hafter := h.index
    rwa [show (cleared.deleteFragments fun f => f.id = id).index = store.index from hindex] at hafter
  · intro h
    refine ⟨fun f hf => (hrows f hf).2, fun f hf => hcleared f (hrows f hf).1, fun l hl => ?_, ?_⟩
    · obtain ⟨hrow, hkept⟩ := (Table.mem_delete_iff cleared.links).mp hl
      by_contra htouches
      obtain ⟨f, hf, hid⟩ := hlinks l hrow (Bool.eq_true_of_not_eq_false htouches)
      have hgone : ((cleared.fragments.rows.filter fun f => f.id = id).map Fragment.id).contains id = true := by
        rw [List.contains_iff_mem]
        exact List.mem_map.mpr ⟨f, List.mem_filter.mpr ⟨hf, decide_eq_true hid⟩, hid⟩
      simp only [Link.touches, Bool.not_eq_false, Bool.or_eq_true, decide_eq_true_eq] at htouches
      simp only [Bool.or_eq_false_iff] at hkept
      rcases htouches with hfrom | hto
      · rw [hfrom, hgone] at hkept
        cases hkept.1
      · rw [hto, hgone] at hkept
        cases hkept.2
    · rwa [show (cleared.deleteFragments fun f => f.id = id).index = store.index from hindex]

/-- A deindexed store differs from the original in the index alone. -/
theorem untouched_deindex_iff (store : Store) (f : Fragment) :
    Untouched store (deindex settings.redisReady settings.tools store f f.keyId) ↔ Unregistered settings store f := by
  constructor
  · exact fun h => (deindexed_eq_iff settings store f).mp h.index
  · exact fun h =>
      ⟨congrArg Table.rows deindex_fragments, congrArg Table.rows deindex_links, (deindexed_eq_iff settings store f).mpr h⟩

/-- The deletion of a row in the reach of the key. -/
theorem deleteWith_owned {failing : Option DeleteStatement} {store : Store} {f : Fragment} {keyId : Option KeyId}
    (hf : f ∈ store.fragments.rows) (howned : ¬ (keyId.isSome ∧ (failing = some .ownership ∨ f.keyId ≠ keyId))) :
    deleteWith failing store f.id keyId =
      (let detached := if failing = some .links then store
        else { store with links := store.links.delete fun l => l.touches f.id }
      if failing = some .linkedTo then (detached, none)
      else
        let cleared := detached.updateFragments (fun g => g.linkedTo.contains f.id) (unlinked [f.id])
        if failing = some .row then (cleared, none)
        else (cleared.deleteFragments fun g => g.id = f.id, some true)) := by
  have hbyId : store.fragments.byId f.id = some f := (byId_eq_some_iff _).mpr ⟨hf, rfl⟩
  have hquery : ¬ (keyId.isSome ∧ failing = some .ownership) := fun h => howned ⟨h.1, Or.inl h.2⟩
  have hfound : ¬ (keyId.isSome ∧ ¬ store.fragments.rows.any (fun g => g.id = f.id && g.keyId = keyId)) := by
    rintro ⟨hkey, hnone⟩
    have hsame : f.keyId = keyId := by
      by_contra hne
      exact howned ⟨hkey, Or.inr hne⟩
    refine hnone (List.any_eq_true.mpr ⟨f, hf, ?_⟩)
    simp only [hsame, decide_true, Bool.and_self]
  simp only [deleteWith, if_neg hquery, if_neg hfound, hbyId, Option.isSome_some]

/-- The deletion that the ownership query stops. -/
theorem deleteWith_refused {failing : Option DeleteStatement} {store : Store} {f : Fragment} {keyId : Option KeyId}
    (hf : f ∈ store.fragments.rows) (hrefused : keyId.isSome ∧ (failing = some .ownership ∨ f.keyId ≠ keyId)) :
    deleteWith failing store f.id keyId = (store, none) ∨
    deleteWith failing store f.id keyId = (store, some false) := by
  by_cases hquery : keyId.isSome ∧ failing = some .ownership
  · left
    simp only [deleteWith, if_pos hquery]
  · right
    have hforeign : f.keyId ≠ keyId := hrefused.2.resolve_left fun h => hquery ⟨hrefused.1, h⟩
    have hnone : ¬ store.fragments.rows.any (fun g => g.id = f.id && g.keyId = keyId) := by
      intro hany
      obtain ⟨g, hg, hcond⟩ := List.any_eq_true.mp hany
      simp only [Bool.and_eq_true, decide_eq_true_eq] at hcond
      exact hforeign (eq_of_id _ hg hf hcond.1 ▸ hcond.2)
    simp only [deleteWith, if_neg hquery, if_pos (And.intro hrefused.1 hnone)]

/-- The outcome of a deletion that has begun, against the store before the deindexing. -/
theorem allOrNothing_delete {failing : Option DeleteStatement} {store : Store} {f : Fragment} {keyId : Option KeyId}
    (hf : f ∈ store.fragments.rows) :
    (let outcome := deleteWith failing (deindex settings.redisReady settings.tools store f f.keyId) f.id keyId
    AllOrNothing f.id store outcome.1 (outcome.2.map fun ok => ⟨if ok then 1 else 0, 0⟩)) ↔
      StopsCleanly settings failing store f keyId := by
  have hdeindexed := untouched_deindex_iff settings store f
  have hremaining := deindexed_gone_iff settings store f
  have hindex := deindexed_eq_iff settings store f
  have hf' : f ∈ (deindex settings.redisReady settings.tools store f f.keyId).fragments.rows := by
    rw [deindex_fragments]
    exact hf
  have hfragments :
    (deindex settings.redisReady settings.tools store f f.keyId).fragments.rows = store.fragments.rows :=
    congrArg Table.rows deindex_fragments
  have hlinks : (deindex settings.redisReady settings.tools store f f.keyId).links = store.links := deindex_links
  generalize deindex settings.redisReady settings.tools store f f.keyId = deindexed at *
  by_cases hrefused : keyId.isSome ∧ (failing = some .ownership ∨ f.keyId ≠ keyId)
  · simp only [StopsCleanly, if_pos hrefused]
    rcases deleteWith_refused hf' hrefused with hstops | hstops
    · rw [hstops]
      simp only [AllOrNothing, Option.map_none]
      exact (or_iff_left fun hgone => hgone.rows f hf' rfl).trans hdeindexed
    · rw [hstops]
      simp only [AllOrNothing, Option.map_some, Bool.false_eq_true, if_false]
      exact hdeindexed
  · rw [deleteWith_owned hf' hrefused]
    simp only [StopsCleanly, if_neg hrefused]
    have hends : ∀ detached : Store, f ∈ detached.fragments.rows → detached.index = deindexed.index →
        (Gone f.id ((detached.updateFragments (fun g => g.linkedTo.contains f.id) (unlinked [f.id])).deleteFragments
          fun g => g.id = f.id) ↔ RemovableOnly settings store f) := by
      intro detached hrow hsame
      have hgone := @gone_deleteFragments deindexed
        (detached.updateFragments (fun g => g.linkedTo.contains f.id) (unlinked [f.id])) f.id
      refine (hgone (unmentioned_updateFragments detached f.id) (fun _ _ _ => ?_) hsame).trans hremaining
      refine ⟨_, updated_mem_updateFragments hrow _ _, ?_⟩
      split <;> rfl
    have hdetached : (deindexed.links.delete fun l => l.touches f.id).rows = store.links.rows ↔
      Detached store f.id := by
      rw [hlinks]
      exact detached_iff store f.id
    have hstops : ∀ after : Store, (∃ g ∈ after.fragments.rows, g.id = f.id) →
        (AllOrNothing f.id store after none ↔ Untouched store after) := by
      rintro after ⟨g, hg, hid⟩
      exact or_iff_left fun hgone => hgone.rows g hg hid
    rcases failing with _ | statement
    · exact hends _ hf' rfl
    · cases statement with
      | ownership => exact hends _ hf' rfl
      | links => exact hends _ hf' rfl
      | linkedTo =>
        simp only [if_true, Option.some.injEq, reduceCtorEq, if_false, Option.map_none]
        refine Iff.trans (hstops _ ⟨f, hf', rfl⟩) ⟨fun h => ?_, fun h => ?_⟩
        · exact ⟨hindex.mp h.index, hdetached.mp h.links⟩
        · exact ⟨hfragments, hdetached.mpr h.2, hindex.mpr h.1⟩
      | row =>
        simp only [if_true, Option.some.injEq, reduceCtorEq, if_false, Option.map_none]
        have hunmentioned := unmentioned_iff deindexed f.id
        simp only [Unmentioned, hfragments] at hunmentioned
        refine Iff.trans (hstops _ ⟨_, updated_mem_updateFragments hf' _ _, ?_⟩) ⟨fun h => ?_, fun h => ?_⟩
        · split <;> rfl
        · exact ⟨hindex.mp h.index, hdetached.mp h.links, hunmentioned.mp h.rows⟩
        · exact ⟨hunmentioned.mpr h.2.2, hdetached.mpr h.2.1, hindex.mpr h.1⟩

/-- A forget is all or nothing exactly when the deletion it begins stops cleanly. -/
theorem allOrNothing_forgetById (failing : Option DeleteStatement) (store : Store) (id : FragmentId) (force : Bool)
    (caller : Caller) :
    AllOrNothing id store (forgetById settings failing store id force caller).1
      (forgetById settings failing store id force caller).2 ↔
        ForgetsCleanly settings failing store id force caller := by
  have hsame : AllOrNothing id store store (some ⟨0, 0⟩) ∧ AllOrNothing id store store (some ⟨0, 1⟩) :=
    ⟨⟨rfl, rfl, rfl⟩, ⟨rfl, rfl, rfl⟩⟩
  simp only [forgetById, ForgetsCleanly]
  cases hfound : getById store id caller.agentId caller.keyId (caller.groups.getD []) with
  | none => exact iff_of_true hsame.1 fun f h => by cases h
  | some f =>
    obtain ⟨hf, hid, -, -⟩ := getById_eq_some hfound
    simp only [Option.some.injEq, forall_eq']
    by_cases hprotected : f.ttlTier = .permanent ∧ ¬ force
    · rw [if_pos hprotected]
      exact iff_of_true hsame.2 fun hforce => absurd (hforce hprotected.1) hprotected.2
    · rw [if_neg hprotected, ← hid]
      have hforce : f.ttlTier = .permanent → force = true := by
        intro hpermanent
        by_contra hnot
        exact hprotected ⟨hpermanent, hnot⟩
      exact (allOrNothing_delete settings hf).trans ⟨fun h _ => h, fun h => h hforce⟩

/-- A deletion of several ids leaves the listed rows of other keys alone: the rows with their arrays, and
the links at them. -/
def LeavesForeign (ids : List FragmentId) (keyId : Option KeyId) (before after : Store) : Prop :=
  ∀ f ∈ before.fragments.rows, f.id ∈ ids → ownedBy keyId f = false →
    f ∈ after.fragments.rows ∧ ∀ l : Link, l.touches f.id → (l ∈ after.links.rows ↔ l ∈ before.links.rows)

/-- The listed rows of other keys have no links and mention no listed row. -/
def ForeignDetached (ids : List FragmentId) (keyId : Option KeyId) (store : Store) : Prop :=
  ∀ f ∈ store.fragments.rows, f.id ∈ ids → ownedBy keyId f = false →
    Detached store f.id ∧ ∀ other ∈ f.linkedTo, other ∉ ids

/-- The rows that stay after `deleteMany` are those of other keys, without the listed ids in their
arrays. -/
theorem mem_deleteMany_iff {store : Store} {ids : List FragmentId} {keyId : Option KeyId} {f : Fragment}
    (hf : f ∈ store.fragments.rows) (hforeign : ownedBy keyId f = false) :
    f ∈ (deleteMany store ids keyId).1.fragments.rows ↔ ∀ other ∈ f.linkedTo, other ∉ ids := by
  have howner : ∀ g : Fragment, ownedBy keyId ((unlinked ids).set g) = ownedBy keyId g := fun _ => rfl
  have hcleared : ∀ {g : Fragment}, g ∈ (deleteMany store ids keyId).1.fragments.rows ↔
      g ∈ ({ store with links := store.links.delete fun l => ids.any l.touches }.updateFragments
        (fun g => g.linkedTo.any ids.contains) (unlinked ids)).fragments.rows ∧
        (ids.contains g.id && ownedBy keyId g) = false :=
    Table.mem_delete_iff _
  rw [hcleared, mem_updateFragments_iff]
  constructor
  · rintro ⟨⟨g, hg, hset⟩, -⟩ other hother hlisted
    have hid : g.id = f.id := by
      rw [hset]
      split <;> rfl
    have hsame : g = f := eq_of_id _ hg hf hid
    rw [hsame] at hset
    have hmentions : f.linkedTo.any ids.contains = true :=
      List.any_eq_true.mpr ⟨other, hother, List.contains_iff_mem.mpr hlisted⟩
    rw [if_pos hmentions] at hset
    have harray : f.linkedTo = f.linkedTo.filter fun x => !ids.contains x := congrArg Fragment.linkedTo hset
    rw [harray, List.mem_filter] at hother
    simp [hlisted] at hother
  · intro hclean
    refine ⟨⟨f, hf, (if_neg fun hmentions => ?_).symm⟩, ?_⟩
    · obtain ⟨other, hother, hlisted⟩ := List.any_eq_true.mp hmentions
      exact hclean other hother (List.contains_iff_mem.mp hlisted)
    · rw [hforeign, Bool.and_false]

/-- No link at a listed row is left. -/
theorem links_deleteMany {store : Store} {ids : List FragmentId} {keyId : Option KeyId} {id : FragmentId}
    (hid : id ∈ ids) {l : Link} (htouches : l.touches id = true) : l ∉ (deleteMany store ids keyId).1.links.rows := by
  intro hl
  obtain ⟨hkept, -⟩ := (Table.mem_delete_iff _).mp hl
  obtain ⟨-, huntouched⟩ := (Table.mem_delete_iff store.links).mp hkept
  rw [List.any_eq_true.mpr ⟨id, hid, htouches⟩] at huntouched
  cases huntouched

theorem leavesForeign_iff (store : Store) (ids : List FragmentId) (keyId : Option KeyId) :
    LeavesForeign ids keyId store (deleteMany store ids keyId).1 ↔ ForeignDetached ids keyId store := by
  refine forall₂_congr fun f hf => forall₂_congr fun hid hforeign => ?_
  rw [mem_deleteMany_iff hf hforeign, and_comm]
  refine and_congr_left fun _ => ⟨fun h l hl => ?_, fun h l htouches => ?_⟩
  · by_contra htouches
    have hpresent := Bool.eq_true_of_not_eq_false htouches
    exact links_deleteMany hid hpresent ((h l hpresent).mpr hl)
  · refine iff_of_false (links_deleteMany hid htouches) fun hl => ?_
    rw [h l hl] at htouches
    cases htouches

/-- The deletions of one key: a forget by id with a statement that may fail, and a deletion of several
ids.  They are all or nothing exactly when the index, the links and the arrays hold nothing that they
would remove too early, too much of, or not at all. -/
theorem deletions_allOrNothing_iff (failing : Option DeleteStatement) (store : Store) (id : FragmentId) (force : Bool)
    (caller : Caller) (ids : List FragmentId) :
    (AllOrNothing id store (forgetById settings failing store id force caller).1
        (forgetById settings failing store id force caller).2 ∧
      LeavesForeign ids caller.keyId store (deleteMany store ids caller.keyId).1) ↔
      ForgetsCleanly settings failing store id force caller ∧ ForeignDetached ids caller.keyId store :=
  and_congr (allOrNothing_forgetById settings failing store id force caller) (leavesForeign_iff store ids caller.keyId)

def peerKey : KeyId := ⟨"22222222-2222-4222-8222-222222222222", by decide⟩

def peerFragment : Fragment :=
  { sampleFragment with
    id := "frag-02"
    content := replacementContent
    contentHash := "84540520a92a90af91a54e39b986924f7eba198b87905a23003be5a0c3c5aa2a"
    keyId := some peerKey }

def readySettings : Settings := { sampleSettings with redisReady := true }

/-- Two linked fragments of two keys, both of them in the index. -/
def linkedPair : Store :=
  let rows := [{ sampleFragment with contentHash := "77dcdc41cdc3789120882cbf0383cede824aa0a0220f3d57b8b36bd33415aa8f" },
    peerFragment]
  let stored := tryLink { fragments := rows.foldl (fun table f => (table.insert f).getD table) Table.empty }
    "frag-01" "frag-02" .related 1
  index true sampleTools (index true sampleTools stored sampleFragment none (some sampleKey)) peerFragment none (some peerKey)

/-- A caller of the group of both keys. -/
def groupCaller (keyId : KeyId) : Caller where
  keyId := some keyId
  groupKeyIds := some [sampleKey, peerKey]

/-- A member of the group that does not own the fragment takes it out of the index and reports no deletion;
the owner deletes it and leaves its content in the index; where the deletion of the row fails, the links
are gone; and the deletion of both ids removes the link of the row of the other key. -/
theorem forget_half_done :
    ((forgetById readySettings none linkedPair "frag-01" false (groupCaller peerKey)).2 = some ⟨0, 0⟩ ∧
      ¬ AllOrNothing "frag-01" linkedPair
        (forgetById readySettings none linkedPair "frag-01" false (groupCaller peerKey)).1 (some ⟨0, 0⟩)) ∧
    ((forgetById readySettings none linkedPair "frag-01" false (groupCaller sampleKey)).2 = some ⟨1, 0⟩ ∧
      ¬ AllOrNothing "frag-01" linkedPair
        (forgetById readySettings none linkedPair "frag-01" false (groupCaller sampleKey)).1 (some ⟨1, 0⟩)) ∧
    ¬ AllOrNothing "frag-01" linkedPair
        (forgetById readySettings (some .row) linkedPair "frag-01" false (groupCaller sampleKey)).1
        (forgetById readySettings (some .row) linkedPair "frag-01" false (groupCaller sampleKey)).2 ∧
    ¬ LeavesForeign ["frag-01", "frag-02"] (some sampleKey) linkedPair
        (deleteMany linkedPair ["frag-01", "frag-02"] (some sampleKey)).1 := by
  refine ⟨by decide +kernel, by decide +kernel, by decide +kernel, fun h => ?_⟩
  have hforeign : ∃ f ∈ linkedPair.fragments.rows, f.id ∈ ["frag-01", "frag-02"] ∧ ownedBy (some sampleKey) f = false ∧
      f ∉ (deleteMany linkedPair ["frag-01", "frag-02"] (some sampleKey)).1.fragments.rows := by decide +kernel
  obtain ⟨f, hf, hid, hother, hgone⟩ := hforeign
  exact hgone (h f hf hid hother).1

end FragmentMemory.ForgetOutcome
