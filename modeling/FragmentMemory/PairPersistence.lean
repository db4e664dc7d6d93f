import FragmentMemory.RowPersistence
import FragmentMemory.MemoryConsolidator

/-! # What the treatment of a pair leaves of the rows

Apart from the audit record a pair only rewrites rows in place: it ends the validity of some rows,
lowers the importance of some, and counts accesses.
-/
namespace FragmentMemory.PairPersistence
open ApiKeyStore FragmentTables FragmentWriter LinkStore MemoryRememberer PairSteps RowPersistence TransitionRuns
  UniqueIndexTable

/-- The rows whose validity a pair may end. -/
def expiredIds : PairStep → List FragmentId
  | .settle _ newFrag candidate => [(contradictionLoser newFrag candidate).id]
  | .audit _ _ _ _ _ => []
  | .supersede _ older _ => [older.id]
  | .duplicate _ newFrag _ => [newFrag.id]
  | .relate _ _ existing relationType => if relationType = .supersededBy then [existing.id] else []
  | .merge _ frag candidate => [(droppedOf frag candidate).id]
  | .compress _ _ others => others.map Fragment.id

/-- The rows whose importance a pair halves whether they are live or not. -/
def halvedIds : PairStep → List FragmentId
  | .settle _ newFrag candidate =>
    if candidate.createdAt < newFrag.createdAt && candidate.isAnchor then []
    else [(contradictionLoser newFrag candidate).id]
  | _ => []

/-- A relation bears the end of the rows whose validity a pair ends. -/
def BearsEnd (R : Fragment → Fragment → Prop) (ids : List FragmentId) : Prop :=
  ∀ f : Fragment, f.id ∈ ids → f.live = true → ∀ now importance,
    R f { f with validTo := some now, importance := importance }

def isAudit : PairStep → Bool
  | .audit _ _ _ _ _ => true
  | _ => false

variable {R : Fragment → Fragment → Prop}

theorem rewrites_expireRow (hR : Admits R) {now : Time} {store : Store} {id : FragmentId}
    {ids : List FragmentId} (hend : BearsEnd R ids) (hid : id ∈ ids) : Rewrites R store (expireRow now store id) := by
  refine rewrites_updateFragments hR fun f _ hcond => ?_
  simp only [Bool.and_eq_true, decide_eq_true_eq] at hcond
  exact hend f (hcond.1 ▸ hid) hcond.2 now f.importance

theorem admits_setAccessCount (hR : Admits R) (f : Fragment) (count : ℕ) : R f ((setAccessCount count).set f) :=
  hR.accessed f count f.accessedAt f.emaActivation

theorem rewrites_compressGroup (hR : Admits R) {now : Time} {keeper : Fragment} {others : List Fragment}
    (hend : BearsEnd R (others.map Fragment.id)) (store : Store) :
    Rewrites R store (compressGroup now store keeper others) := by
  have hfold : ∀ (rest : List Fragment) (current : Store), (∀ old ∈ rest, old ∈ others) →
      Rewrites R current (rest.foldl (fun state old => expireRow now state old.id) current) := by
    intro rest
    induction rest with
    | nil =>
      intro current _
      exact Rewrites.of_eq hR rfl
    | cons old later ih =>
      intro current hrest
      have hfirst : Rewrites R current (expireRow now current old.id) :=
        rewrites_expireRow hR hend (List.mem_map_of_mem (hrest old List.mem_cons_self))
      exact hfirst.trans hR (ih _ fun other hother => hrest other (List.mem_cons_of_mem _ hother))
  exact (hfold others store fun _ h => h).trans hR
    (rewrites_updateFragments hR fun f _ _ => admits_setAccessCount hR f _)

/-- A pair rewrites the rows, if the relation bears what it does to the rows it names. -/
theorem rewrites_pairStep (hR : Admits R) {settings : Settings} (store : Store) {pair : PairStep}
    (haudit : isAudit pair = false) (hend : BearsEnd R (expiredIds pair))
    (hhalve : ∀ f : Fragment, f.id ∈ halvedIds pair → R f (halve.set f)) :
    Rewrites R store (pairStep settings store pair) := by
  cases pair with
  | settle now newFrag candidate =>
    have hlinked : Rewrites R store (tryLink store newFrag.id candidate.id .contradicts 1) :=
      rewrites_tryLink hR store _ _ _ _
    have hweakened : Rewrites R store
        (if candidate.createdAt < newFrag.createdAt && candidate.isAnchor then
          tryLink store newFrag.id candidate.id .contradicts 1
        else (tryLink store newFrag.id candidate.id .contradicts 1).updateFragments
          (fun f => f.id = (contradictionLoser newFrag candidate).id) halve) := by
      split
      · exact hlinked
      · rename_i hspared
        refine hlinked.trans hR (rewrites_updateFragments hR fun f _ hcond => hhalve f ?_)
        simp only [halvedIds, if_neg hspared, List.mem_singleton]
        exact of_decide_eq_true hcond
    exact (hweakened.trans hR (rewrites_tryLink hR _ _ _ _ _)).trans hR
      (rewrites_expireRow hR hend (List.mem_singleton.mpr rfl))
  | audit draws winner loser topic reasoning => cases haudit
  | supersede now older newer =>
    refine (rewrites_tryLink hR store _ _ _ _).trans hR (rewrites_updateFragments hR fun f _ hcond => ?_)
    simp only [Bool.and_eq_true, decide_eq_true_eq] at hcond
    exact hend f (List.mem_singleton.mpr hcond.1) hcond.2 now _
  | duplicate now newFrag existing =>
    refine (rewrites_expireRow hR hend (List.mem_singleton.mpr rfl)).trans hR (rewrites_updateFragments hR fun f _ _ => ?_)
    exact hR.accessed f (f.accessCount + 1) f.accessedAt f.emaActivation
  | relate now newFrag existing relationType =>
    simp only [pairStep, relateCandidate]
    split
    · exact Rewrites.of_eq hR rfl
    · rename_i linked hcreate
      split
      · rename_i hsuperseded
        refine (rewrites_createLink hR hcreate).trans hR (rewrites_expireRow hR hend ?_)
        simp only [expiredIds, if_pos hsuperseded, List.mem_singleton]
      · exact rewrites_createLink hR hcreate
  | merge now frag candidate =>
    have hunlinked : Rewrites R store { store with
        links := store.links.delete fun l =>
          (l.fromId = (droppedOf frag candidate).id && l.toId = (keptOf frag candidate).id) ||
            (l.fromId = (keptOf frag candidate).id && l.toId = (droppedOf frag candidate).id) } :=
      Rewrites.of_eq hR rfl
    exact (hunlinked.trans hR (rewrites_expireRow hR hend (List.mem_singleton.mpr rfl))).trans hR
      (rewrites_updateFragments hR fun f _ _ => admits_setAccessCount hR f _)
  | compress now keeper others => exact rewrites_compressGroup hR hend store

end FragmentMemory.PairPersistence
