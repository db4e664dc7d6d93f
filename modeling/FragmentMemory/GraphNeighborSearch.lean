import FragmentMemory.NeighborQueries

/-! # The neighbours of a search result

`GraphNeighborSearch.fetchGraphNeighbors` with its limit and its scope as arguments.  The scores by which it sorts the
neighbours it has chosen are floating point and given.
-/
namespace FragmentMemory.GraphNeighborSearch
open ApiKeyStore FragmentTables FragmentFactory FragmentWriter RecallQueries DistinctOn NeighborQueries

structure Options where
  workspace : Option String := none
  includePeerAgents : Bool := false

/-- Empty strings are no seeds. -/
def validIds (seedIds : List FragmentId) : List FragmentId := seedIds.filter (· ≠ "")

/-- `keyId` as a list of strings, none for a master. -/
def effectiveKeyId : KeyArgument → Option (List String)
  | .master => none
  | .one key => some [key]
  | .many keys => some (keys.filter (· ≠ ""))

def effectiveAgentId (agentId : String) : String := if agentId = "" then "default" else agentId

/-- `f.valid_to IS NULL` and the three filters. -/
def admits (agentId : String) (keyId : KeyArgument) (opts : Options) (f : Fragment) : Bool :=
  f.live && keyFilter (effectiveKeyId keyId) f && (opts.includePeerAgents || agentScope (effectiveAgentId agentId) f) &&
    workspaceCond opts.workspace f

def fetchGraphNeighbors (graphScore : Link → ℚ) (store : Store) (seedIds : List FragmentId) (maxTotal : ℕ := 10)
    (agentId : String := "default") (keyId : KeyArgument := .master) (opts : Options := {}) : List LinkedRow :=
  if (validIds seedIds).isEmpty || effectiveKeyId keyId = some [] then []
  else
    let sub := neighborRows store (validIds seedIds) (fun _ => true) (validIds seedIds).contains
      (admits agentId keyId opts)
    let neighbors := distinctOnId (sub.insertionSort (byIdWeight · ·))
    let rows := (neighbors.insertionSort (byWeightId · ·)).take maxTotal
    (rows.insertionSort fun a b => graphScore b.2 ≤ graphScore a.2).map linkedRow

/-- A live row in the scope of the caller, which is no seed, and a link that is not deleted and joins it to a seed. -/
def IsNeighbor (store : Store) (seedIds : List FragmentId) (agentId : String) (keyId : KeyArgument) (opts : Options) :
    Fragment → Link → Prop :=
  Joined store (validIds seedIds) (fun _ => true) (validIds seedIds).contains (admits agentId keyId opts)

variable {graphScore : Link → ℚ} {store : Store} {seedIds : List FragmentId} {maxTotal : ℕ} {agentId : String}
  {keyId : KeyArgument} {opts : Options}

/-- Without seeds or without keys nothing is a neighbour. -/
theorem not_isNeighbor (h : ((validIds seedIds).isEmpty || effectiveKeyId keyId = some []) = true) {f : Fragment}
    {l : Link} :
    ¬IsNeighbor store seedIds agentId keyId opts f l := by
  intro hjoined
  simp only [Bool.or_eq_true, List.isEmpty_iff, decide_eq_true_eq] at h
  rcases h with hseeds | hkeys
  · have hends := hjoined.ends
    rw [hseeds] at hends
    rcases hends with ⟨hmem, -⟩ | ⟨hmem, -⟩
    · cases hmem
    · cases hmem
  · have hkept := hjoined.kept
    simp only [admits, Bool.and_eq_true, hkeys, keyFilter] at hkept
    have hkey := hkept.1.1.2
    rcases hfk : f.keyId with _ | key
    · simp [hfk] at hkey
    · simp [hfk] at hkey

/-- A search follows the links of its seeds to the neighbours with the strongest ones, within its limit. -/
theorem fetchGraphNeighbors_strongest (graphScore : Link → ℚ) (store : Store) (seedIds : List FragmentId) (maxTotal : ℕ)
    (agentId : String) (keyId : KeyArgument) (opts : Options) :
    StrongestLinked (IsNeighbor store seedIds agentId keyId opts) maxTotal
      (fetchGraphNeighbors graphScore store seedIds maxTotal agentId keyId opts) := by
  by_cases hnone : ((validIds seedIds).isEmpty || effectiveKeyId keyId = some []) = true
  · rw [fetchGraphNeighbors, if_pos hnone]
    refine ⟨Nat.zero_le _, List.nodup_nil, fun hit hmem => ?_, fun f l hjoined => ?_, fun f l hjoined => ?_⟩
    · cases hmem
    · exact absurd hjoined (not_isNeighbor hnone)
    · exact absurd hjoined (not_isNeighbor hnone)
  · rw [fetchGraphNeighbors, if_neg hnone]
    simp only [distinctOnId_eq_distinctOn]
    generalize hsub : neighborRows store (validIds seedIds) (fun _ => true) (validIds seedIds).contains
      (admits agentId keyId opts) = sub
    generalize hneighbors : distinctOn (fun item : Fragment × Link => item.1.id) (sub.insertionSort (byIdWeight · ·)) =
      neighbors
    generalize hrows : (neighbors.insertionSort (byWeightId · ·)).take maxTotal = rows
    have hscored := List.perm_insertionSort (fun a b : Fragment × Link => graphScore b.2 ≤ graphScore a.2) rows
    have hresorted : (neighbors.insertionSort (byWeightId · ·)).Perm neighbors := List.perm_insertionSort _ _
    have hchosen : List.Subperm rows neighbors := by
      rw [← hrows]
      exact (List.take_sublist _ _).subperm.trans hresorted.subperm
    have hstrongest : ∀ item ∈ neighbors, IsNeighbor store seedIds agentId keyId opts item.1 item.2 ∧
        ∀ other, IsNeighbor store seedIds agentId keyId opts item.1 other → other.weight ≤ item.2.weight := by
      rw [← hneighbors]
      refine fun item hitem => strongest_of_distinct ((sorted_byIdWeight sub).imp fun hle hid => ?_) (fun item => ?_) hitem
      · simp only [byIdWeight, hid, lt_self_iff_false, decide_false, Bool.false_or, decide_true, Bool.true_and,
          decide_eq_true_eq] at hle
        exact hle
      · rw [List.mem_insertionSort, ← hsub]
        exact mem_neighborRows_iff
    have hnodup : (neighbors.map fun item => item.1.id).Nodup := by
      rw [← hneighbors]
      exact nodup_distinctOn _ _
    -- A neighbour that is left out is beyond the limit.
    have hbeyond : ∀ f l, IsNeighbor store seedIds agentId keyId opts f l →
        f.id ∉ ((rows.insertionSort fun a b => graphScore b.2 ≤ graphScore a.2).map linkedRow).map (fun hit => hit.row.id) →
        ∃ best ∈ neighbors, best.1 = f ∧ best ∉ rows := by
      intro f l hjoined hout
      have hpresent : (f, l) ∈ sub.insertionSort (byIdWeight · ·) := by
        rw [List.mem_insertionSort, ← hsub]
        exact mem_neighborRows_iff.mpr hjoined
      obtain ⟨best, hbest, hid⟩ := exists_mem_distinctOn (fun item : Fragment × Link => item.1.id) hpresent
      rw [hneighbors] at hbest
      refine ⟨best, hbest, eq_of_id _ (hstrongest best hbest).1.stored hjoined.stored hid, fun hmem => hout ?_⟩
      exact List.mem_map.mpr ⟨linkedRow best, List.mem_map_of_mem (hscored.mem_iff.mpr hmem), hid⟩
    refine ⟨?_, ?_, ?_, ?_, ?_⟩
    · rw [List.length_map, hscored.length_eq, ← hrows]
      exact List.length_take_le _ _
    · rw [List.map_map]
      obtain ⟨picked, hperm, hpicked⟩ := hscored.subperm.trans hchosen
      exact (hperm.map _).nodup_iff.mp (hnodup.sublist (hpicked.map _))
    · intro hit hhit
      obtain ⟨item, hitem, rfl⟩ := List.mem_map.mp hhit
      have hmem : item ∈ neighbors := hchosen.subset (hscored.mem_iff.mp hitem)
      exact ⟨item.1, item.2, (hstrongest item hmem).1, rfl, (hstrongest item hmem).2⟩
    · intro f l hjoined hout hit hhit
      obtain ⟨item, hitem, rfl⟩ := List.mem_map.mp hhit
      obtain ⟨best, hbest, rfl, hmissing⟩ := hbeyond f l hjoined hout
      have hweight := (hstrongest best hbest).2 l hjoined
      have hbefore := take_before (sorted_byWeightId neighbors) (hrows ▸ hscored.mem_iff.mp hitem)
        (hresorted.mem_iff.mpr hbest) (hrows ▸ hmissing)
      simp only [byWeightId, Bool.or_eq_true, Bool.and_eq_true, decide_eq_true_eq] at hbefore
      rcases hbefore with hlt | ⟨heq, -⟩
      · exact hweight.trans (le_of_lt hlt)
      · exact hweight.trans (le_of_eq heq.symm)
    · intro f l hjoined hout
      obtain ⟨best, hbest, rfl, hmissing⟩ := hbeyond f l hjoined hout
      rw [List.length_map, hscored.length_eq, ← hrows]
      exact length_take_of_left_out (hresorted.mem_iff.mpr hbest) (hrows ▸ hmissing)

/-! ## The search of a normalized query -/

theorem effectiveKeyId_keyArgument (keyIds : Option (List KeyId)) :
    effectiveKeyId (keyArgument keyIds) = keyIds.map (·.map Subtype.val) := by
  rcases keyIds with _ | members
  · rfl
  · refine congrArg some (List.filter_eq_self.mpr fun text htext => decide_eq_true ?_)
    obtain ⟨key, -, rfl⟩ := List.mem_map.mp htext
    intro hempty
    have huuid := key.property
    rw [hempty] at huuid
    cases huuid

theorem keyFilter_keyArgument (keyIds : Option (List KeyId)) (f : Fragment) :
    keyFilter (effectiveKeyId (keyArgument keyIds)) f = keyCond keyIds f := by
  rw [effectiveKeyId_keyArgument]
  rcases keyIds with _ | members
  · rfl
  · exact keyFilter_members members f

/-- The third layer of a search takes ten of these neighbours. -/
theorem rows_fetchGraphNeighbors (q : SearchQuery) (hseeds : "" ∉ seedIds) (hagent : q.agentId ≠ "") :
    RecallQueries.fetchGraphNeighbors graphScore store q seedIds =
      (fetchGraphNeighbors graphScore store seedIds 10 q.agentId (keyArgument q.keyIds)
        { workspace := q.workspace, includePeerAgents := q.includePeerAgents }).map LinkedRow.row := by
  have hvalid : validIds seedIds = seedIds :=
    List.filter_eq_self.mpr fun id hid => decide_eq_true fun hempty => hseeds (hempty ▸ hid)
  have hadmits : admits q.agentId (keyArgument q.keyIds)
      { workspace := q.workspace, includePeerAgents := q.includePeerAgents } =
        fun f => f.live && keyCond q.keyIds f && q.agentCond f && workspaceCond q.workspace f := by
    funext f
    rw [admits, keyFilter_keyArgument, effectiveAgentId, if_neg hagent]
    rfl
  rw [fetchGraphNeighbors, RecallQueries.fetchGraphNeighbors, hvalid, hadmits]
  split
  · rename_i hnone
    have hsub : neighborRows store seedIds (fun _ => true) seedIds.contains (fun f : Fragment =>
        f.live && keyCond q.keyIds f && q.agentCond f && workspaceCond q.workspace f) = [] := by
      refine List.eq_nil_iff_forall_not_mem.mpr fun item hitem => ?_
      have hjoined := mem_neighborRows_iff.mp hitem
      rw [← hvalid] at hnone hjoined
      rw [← hadmits] at hjoined
      exact not_isNeighbor hnone hjoined
    rw [hsub]
    rfl
  · rw [List.map_map]
    rfl

end FragmentMemory.GraphNeighborSearch
