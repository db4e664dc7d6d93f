import FragmentMemory.NeighborQueries
import FragmentMemory.LiveCounts

/-! # Linked expansion

`LinkStore.getLinkedFragments` with its limit and its scope as arguments and the link columns of its rows.  The query
sorts by id before its limit, so the rows with the smallest ids stay and not those with the strongest links.
-/
namespace FragmentMemory.LinkedFragments
open ApiKeyStore FragmentTables FragmentFactory FragmentWriter RecallQueries DistinctOn NeighborQueries

/-- `ALLOWED_RELATION_TYPES`. -/
def relationOfName : String → Option RelationType
  | "related" => some .related
  | "caused_by" => some .causedBy
  | "resolved_by" => some .resolvedBy
  | "part_of" => some .partOf
  | "contradicts" => some .contradicts
  | "superseded_by" => some .supersededBy
  | "co_retrieved" => some .coRetrieved
  | "temporal" => some .temporal
  | _ => none

structure Options where
  workspace : Option String := none
  includePeerAgents : Bool := false
  includeSuperseded : Bool := false

/-- The key list of the query, which keeps empty strings. -/
def keyParam : KeyArgument → Option (List String)
  | .master => none
  | .one key => some [key]
  | .many keys => some keys

/-- The validity filter and the three scope filters. -/
def admits (agentId : String) (keyId : KeyArgument) (opts : Options) (f : Fragment) : Bool :=
  (opts.includeSuperseded || f.live) && keyFilter (keyParam keyId) f &&
    (opts.includePeerAgents || agentScope (if agentId = "" then "default" else agentId) f) && workspaceCond opts.workspace f

def safeRelationType (relationType : Option String) : Option RelationType := relationType.bind relationOfName

def getLinkedFragments (store : Store) (fromIds : List FragmentId) (relationType : Option String := none)
    (agentId : String := "default") (keyId : KeyArgument := .master) (opts : Options := {})
    (linkedFragmentLimit : ℕ := 10) : List LinkedRow :=
  if fromIds.isEmpty then []
  else
    let sub := neighborRows store fromIds (linkedRelation (safeRelationType relationType)) (fun _ => false)
      (admits agentId keyId opts)
    ((distinctOnId (sub.insertionSort (byIdWeightOrder · ·))).take linkedFragmentLimit).map linkedRow

/-- A row in the scope of the caller and a link of an asked relation that is not deleted and joins it to a source. -/
def IsLinked (store : Store) (fromIds : List FragmentId) (relationType : Option String) (agentId : String)
    (keyId : KeyArgument) (opts : Options) : Fragment → Link → Prop :=
  Joined store fromIds (linkedRelation (safeRelationType relationType)) (fun _ => false) (admits agentId keyId opts)

/-! ## Which rows the limit keeps -/

/-- The condition of the query on a row and a link. -/
def joins (fromIds : List FragmentId) (relationType : Option String) (f : Fragment) (l : Link) : Bool :=
  l.deletedAt.isNone && linkedRelation (safeRelationType relationType) l &&
    ((fromIds.contains l.fromId && l.toId = f.id) || (fromIds.contains l.toId && l.fromId = f.id))

def eligibleRows (store : Store) (fromIds : List FragmentId) (relationType : Option String) (agentId : String)
    (keyId : KeyArgument) (opts : Options) : List Fragment :=
  store.fragments.rows.filter fun f => admits agentId keyId opts f && store.links.rows.any (joins fromIds relationType f)

/-- How many eligible rows have a smaller id. -/
def idRank (eligible : List Fragment) (f : Fragment) : ℕ := (eligible.filter fun g => g.id < f.id).length

/-- Every eligible row beyond the limit in the order of ids is linked no more strongly than those within it. -/
def WeakBeyondLimit (store : Store) (fromIds : List FragmentId) (relationType : Option String) (agentId : String)
    (keyId : KeyArgument) (opts : Options) (linkedFragmentLimit : ℕ) : Prop :=
  let eligible := eligibleRows store fromIds relationType agentId keyId opts
  ∀ f ∈ eligible, ∀ g ∈ eligible, linkedFragmentLimit ≤ idRank eligible f → idRank eligible g < linkedFragmentLimit →
    ∀ l ∈ store.links.rows, joins fromIds relationType f l = true →
      ∃ other ∈ store.links.rows, joins fromIds relationType g other = true ∧ l.weight ≤ other.weight

variable {store : Store} {fromIds : List FragmentId} {relationType : Option String} {agentId : String}
  {keyId : KeyArgument} {opts : Options} {linkedFragmentLimit : ℕ} {f : Fragment} {l : Link}

theorem isLinked_iff : IsLinked store fromIds relationType agentId keyId opts f l ↔
    (f ∈ store.fragments.rows ∧ admits agentId keyId opts f = true) ∧ l ∈ store.links.rows ∧
      joins fromIds relationType f l = true := by
  simp only [joins, Bool.and_eq_true, Bool.or_eq_true, decide_eq_true_eq, List.contains_iff_mem,
    Option.isNone_iff_eq_none]
  constructor
  · exact fun h => ⟨⟨h.stored, h.kept⟩, h.link, ⟨h.current, h.ofKind⟩, h.ends⟩
  · rintro ⟨⟨hstored, hkept⟩, hlink, ⟨hcurrent, hkind⟩, hends⟩
    exact ⟨hstored, hkept, rfl, hlink, hcurrent, hkind, hends⟩

theorem mem_eligibleRows : f ∈ eligibleRows store fromIds relationType agentId keyId opts ↔
    ∃ l, IsLinked store fromIds relationType agentId keyId opts f l := by
  simp only [isLinked_iff, eligibleRows, List.mem_filter, Bool.and_eq_true, List.any_eq_true]
  constructor
  · rintro ⟨hstored, hkept, l, hl, hjoins⟩
    exact ⟨l, ⟨hstored, hkept⟩, hl, hjoins⟩
  · rintro ⟨l, ⟨hstored, hkept⟩, hl, hjoins⟩
    exact ⟨hstored, hkept, l, hl, hjoins⟩

/-- The joined rows in the order of the query. -/
theorem mem_sorted_iff (item : Fragment × Link) :
    item ∈ (neighborRows store fromIds (linkedRelation (safeRelationType relationType)) (fun _ => false)
        (admits agentId keyId opts)).insertionSort (byIdWeightOrder · ·) ↔
      IsLinked store fromIds relationType agentId keyId opts item.1 item.2 := by
  rw [List.mem_insertionSort]
  exact mem_neighborRows_iff

theorem getLinkedFragments_of_sources (h : fromIds ≠ []) :
    getLinkedFragments store fromIds relationType agentId keyId opts linkedFragmentLimit =
      ((distinctOn (fun item => item.1.id) ((neighborRows store fromIds (linkedRelation (safeRelationType relationType))
        (fun _ => false) (admits agentId keyId opts)).insertionSort (byIdWeightOrder · ·))).take
          linkedFragmentLimit).map linkedRow := by
  have hsources : ¬fromIds.isEmpty = true := fun hempty => h (List.isEmpty_iff.mp hempty)
  simp only [getLinkedFragments, if_neg hsources, distinctOnId_eq_distinctOn]

theorem not_isLinked_nil : ¬IsLinked store [] relationType agentId keyId opts f l := by
  intro h
  rcases h.ends with ⟨hmem, -⟩ | ⟨hmem, -⟩
  · cases hmem
  · cases hmem

/-- The query keeps the eligible rows with the smallest ids. -/
theorem mem_ids_getLinkedFragments {id : FragmentId} :
    id ∈ (getLinkedFragments store fromIds relationType agentId keyId opts linkedFragmentLimit).map
        (fun hit => hit.row.id) ↔
      ∃ f ∈ eligibleRows store fromIds relationType agentId keyId opts, f.id = id ∧
        idRank (eligibleRows store fromIds relationType agentId keyId opts) f < linkedFragmentLimit := by
  by_cases hsources : fromIds = []
  · subst hsources
    refine iff_of_false (fun hmem => ?_) ?_
    · cases hmem
    · rintro ⟨f, hf, -⟩
      obtain ⟨l, hl⟩ := mem_eligibleRows.mp hf
      exact not_isLinked_nil hl
  · rw [getLinkedFragments_of_sources hsources, List.map_map]
    generalize hsorted : (neighborRows store fromIds (linkedRelation (safeRelationType relationType)) (fun _ => false)
      (admits agentId keyId opts)).insertionSort (byIdWeightOrder · ·) = sorted
    have hmem : ∀ item, item ∈ sorted ↔ IsLinked store fromIds relationType agentId keyId opts item.1 item.2 := by
      rw [← hsorted]
      exact mem_sorted_iff
    have hbefore := sorted_byIdWeightOrder (neighborRows store fromIds (linkedRelation (safeRelationType relationType))
      (fun _ => false) (admits agentId keyId opts))
    rw [hsorted] at hbefore
    generalize heligible : eligibleRows store fromIds relationType agentId keyId opts = eligible
    have hkeys : ((distinctOn (fun item => item.1.id) sorted).map fun item => item.1.id).Pairwise (· < ·) := by
      refine sorted_keys _ hbefore fun x y hxy => ?_
      simp only [byIdWeightOrder, Bool.or_eq_true, Bool.and_eq_true, decide_eq_true_eq] at hxy
      rcases hxy with hlt | ⟨heq, -⟩
      · exact le_of_lt hlt
      · exact le_of_eq heq
    have hperm : ((distinctOn (fun item => item.1.id) sorted).map fun item => item.1.id).Perm (eligible.map Fragment.id) := by
      have hids : (eligible.map Fragment.id).Nodup := by
        rw [← heligible]
        exact (LiveCounts.nodup_ids store.fragments).sublist (List.filter_sublist.map _)
      refine (List.perm_ext_iff_of_nodup (nodup_distinctOn _ _) hids).mpr fun k => ?_
      rw [List.mem_map, List.mem_map]
      constructor
      · rintro ⟨item, hitem, rfl⟩
        have hlinked := (hmem item).mp ((distinctOn_sublist _ sorted).subset hitem)
        exact ⟨item.1, heligible ▸ mem_eligibleRows.mpr ⟨item.2, hlinked⟩, rfl⟩
      · rintro ⟨f, hf, rfl⟩
        obtain ⟨l, hl⟩ := mem_eligibleRows.mp (heligible ▸ hf)
        exact exists_mem_distinctOn (fun item : Fragment × Link => item.1.id) ((hmem (f, l)).mpr hl)
    have hkept : ((distinctOn (fun item => item.1.id) sorted).take linkedFragmentLimit).map
        (fun item => (linkedRow item).row.id) =
          ((distinctOn (fun item => item.1.id) sorted).map fun item => item.1.id).take linkedFragmentLimit :=
      List.map_take
    have hrank : ∀ f, (((distinctOn (fun item => item.1.id) sorted).map fun item => item.1.id).filter (· < f.id)).length =
        idRank eligible f := by
      intro f
      rw [(hperm.filter _).length_eq, List.filter_map, List.length_map]
      rfl
    rw [show (fun hit : LinkedRow => hit.row.id) ∘ linkedRow = fun item => (linkedRow item).row.id from rfl, hkept,
      mem_take_iff hkeys, hperm.mem_iff, List.mem_map]
    constructor
    · rintro ⟨⟨f, hf, rfl⟩, hcount⟩
      exact ⟨f, hf, rfl, (hrank f).symm ▸ hcount⟩
    · rintro ⟨f, hf, rfl, hcount⟩
      exact ⟨⟨f, hf, rfl⟩, (hrank f).symm ▸ hcount⟩

/-- Links of one row are sorted by their weights. -/
theorem sorted_weights (items : List (Fragment × Link)) :
    (items.insertionSort (byIdWeightOrder · ·)).Pairwise fun a b => a.1.id = b.1.id → b.2.weight ≤ a.2.weight := by
  refine (sorted_byIdWeightOrder items).imp fun {a b} hle hid => ?_
  simp only [byIdWeightOrder, hid, lt_self_iff_false, decide_false, Bool.false_or, decide_true, Bool.true_and,
    Bool.or_eq_true, Bool.and_eq_true, decide_eq_true_eq] at hle
  rcases hle with hlt | ⟨heq, -⟩
  · exact le_of_lt hlt
  · exact le_of_eq heq.symm

/-- Every row of an answer comes with its strongest link. -/
theorem ofStrongestLink_getLinkedFragments :
    ∀ hit ∈ getLinkedFragments store fromIds relationType agentId keyId opts linkedFragmentLimit,
      ∃ f l, IsLinked store fromIds relationType agentId keyId opts f l ∧ hit = linkedRow (f, l) ∧
        ∀ other, IsLinked store fromIds relationType agentId keyId opts f other → other.weight ≤ l.weight := by
  intro hit hhit
  by_cases hsources : fromIds = []
  · subst hsources
    cases hhit
  · rw [getLinkedFragments_of_sources hsources] at hhit
    obtain ⟨item, hitem, rfl⟩ := List.mem_map.mp hhit
    obtain ⟨hlinked, hstrongest⟩ :=
      strongest_of_distinct (sorted_weights _) mem_sorted_iff (List.mem_of_mem_take hitem)
    exact ⟨item.1, item.2, hlinked, rfl, hstrongest⟩

theorem length_getLinkedFragments_le :
    (getLinkedFragments store fromIds relationType agentId keyId opts linkedFragmentLimit).length ≤
      linkedFragmentLimit := by
  simp only [getLinkedFragments]
  split
  · exact Nat.zero_le _
  · rw [List.length_map]
    exact List.length_take_le _ _

theorem nodup_getLinkedFragments :
    ((getLinkedFragments store fromIds relationType agentId keyId opts linkedFragmentLimit).map
      fun hit => hit.row.id).Nodup := by
  by_cases hsources : fromIds = []
  · subst hsources
    exact List.nodup_nil
  · rw [getLinkedFragments_of_sources hsources, List.map_map]
    exact (nodup_distinctOn _ _).sublist ((List.take_sublist _ _).map _)

/-- Rows are left out of a full answer only. -/
theorem length_getLinkedFragments (hlinked : IsLinked store fromIds relationType agentId keyId opts f l)
    (hout : f.id ∉ (getLinkedFragments store fromIds relationType agentId keyId opts linkedFragmentLimit).map
      fun hit => hit.row.id) :
    (getLinkedFragments store fromIds relationType agentId keyId opts linkedFragmentLimit).length =
      linkedFragmentLimit := by
  by_cases hsources : fromIds = []
  · subst hsources
    exact absurd hlinked not_isLinked_nil
  · rw [getLinkedFragments_of_sources hsources] at hout ⊢
    obtain ⟨kept, hkept, hid⟩ := exists_mem_distinctOn (fun item : Fragment × Link => item.1.id)
      ((mem_sorted_iff (f, l)).mpr hlinked)
    rw [List.length_map]
    refine length_take_of_left_out hkept fun hmem => hout ?_
    exact List.mem_map.mpr ⟨linkedRow kept, List.mem_map_of_mem hmem, hid⟩

/-- The query answers with the strongest links exactly when no eligible row beyond its limit, in the order of ids, has a
stronger link than one within it. -/
theorem getLinkedFragments_strongest_iff (store : Store) (fromIds : List FragmentId) (relationType : Option String)
    (agentId : String) (keyId : KeyArgument) (opts : Options) (linkedFragmentLimit : ℕ) :
    StrongestLinked (IsLinked store fromIds relationType agentId keyId opts) linkedFragmentLimit
        (getLinkedFragments store fromIds relationType agentId keyId opts linkedFragmentLimit) ↔
      WeakBeyondLimit store fromIds relationType agentId keyId opts linkedFragmentLimit := by
  generalize hfound : getLinkedFragments store fromIds relationType agentId keyId opts linkedFragmentLimit = found
  have hids : ∀ f l, IsLinked store fromIds relationType agentId keyId opts f l →
      (f.id ∈ found.map (fun hit => hit.row.id) ↔
        idRank (eligibleRows store fromIds relationType agentId keyId opts) f < linkedFragmentLimit) := by
    intro f l hlinked
    rw [← hfound, mem_ids_getLinkedFragments]
    constructor
    · rintro ⟨g, hg, hid, hrank⟩
      obtain ⟨other, hother⟩ := mem_eligibleRows.mp hg
      exact eq_of_id _ hother.stored hlinked.stored hid ▸ hrank
    · exact fun hrank => ⟨f, mem_eligibleRows.mpr ⟨l, hlinked⟩, rfl, hrank⟩
  constructor
  · intro hstrongest f hf g hg hbeyond hwithin l hl hjoins
    obtain ⟨m, hm⟩ := mem_eligibleRows.mp hg
    have hlinked : IsLinked store fromIds relationType agentId keyId opts f l :=
      isLinked_iff.mpr ⟨(isLinked_iff.mp (mem_eligibleRows.mp hf).choose_spec).1, hl, hjoins⟩
    have hout : f.id ∉ found.map (fun hit => hit.row.id) := fun hmem => absurd ((hids f l hlinked).mp hmem) (by omega)
    obtain ⟨hit, hhit, hid⟩ := List.mem_map.mp ((hids g m hm).mpr hwithin)
    obtain ⟨g', other, hother, rfl, -⟩ := hstrongest.ofStrongestLink hit hhit
    obtain rfl : g' = g := eq_of_id _ hother.stored hm.stored hid
    obtain ⟨-, hrow, hjoined⟩ := isLinked_iff.mp hother
    exact ⟨other, hrow, hjoined, hstrongest.strongest f l hlinked hout _ hhit⟩
  · intro hweak
    subst hfound
    refine ⟨length_getLinkedFragments_le, nodup_getLinkedFragments, ofStrongestLink_getLinkedFragments, ?_,
      fun f l hlinked hout => length_getLinkedFragments hlinked hout⟩
    intro f l hlinked hout hit hhit
    obtain ⟨g, m, hm, rfl, hmax⟩ := ofStrongestLink_getLinkedFragments hit hhit
    have hwithin := (hids g m hm).mp (List.mem_map_of_mem hhit)
    have hbeyond := fun hrank => hout ((hids f l hlinked).mpr hrank)
    obtain ⟨-, hrow, hjoins⟩ := isLinked_iff.mp hlinked
    obtain ⟨other, hother, hjoined, hweight⟩ := hweak f (mem_eligibleRows.mpr ⟨l, hlinked⟩) g
      (mem_eligibleRows.mpr ⟨m, hm⟩) (Nat.le_of_not_lt hbeyond) hwithin l hrow hjoins
    exact hweight.trans (hmax other (isLinked_iff.mpr ⟨(isLinked_iff.mp hm).1, hother, hjoined⟩))

/-! ## Eleven linked rows -/

def linkedIds : List FragmentId :=
  ["frag-01", "frag-02", "frag-03", "frag-04", "frag-05", "frag-06", "frag-07", "frag-08", "frag-09", "frag-10", "frag-11"]

def starRow (id : FragmentId) : Fragment := { ContentUniqueness.sampleFragment with id := id, contentHash := id }

/-- The link to the row with the largest id is the strongest one. -/
def starLink (id : FragmentId) : Link :=
  { fromId := "frag-00", toId := id, relationType := .related, weight := if id = "frag-11" then 2 else 1 }

def starStore : Store where
  fragments := ("frag-00" :: linkedIds).foldl (fun table id => (table.insert (starRow id)).getD table) UniqueIndexTable.Table.empty
  links := linkedIds.foldl (fun table id => (table.insert (starLink id)).getD table) UniqueIndexTable.Table.empty

/-- The strongest link is beyond the limit of ten. -/
theorem strongest_link_beyond_limit :
    ¬ StrongestLinked (IsLinked starStore ["frag-00"] none "default" .master {}) 10
      (getLinkedFragments starStore ["frag-00"]) := by
  intro h
  have hlinked : IsLinked starStore ["frag-00"] none "default" .master {} (starRow "frag-11") (starLink "frag-11") :=
    isLinked_iff.mpr (by decide +kernel)
  have hout : (starRow "frag-11").id ∉ (getLinkedFragments starStore ["frag-00"]).map (fun hit => hit.row.id) := by
    decide
  have hkept : linkedRow (starRow "frag-01", starLink "frag-01") ∈ getLinkedFragments starStore ["frag-00"] := by
    decide +kernel
  exact absurd (h.strongest _ _ hlinked hout _ hkept) (by decide)

/-! ## The expansion of a recall -/

/-- A recall takes the rows of this query under its limit of ten. -/
theorem rows_getLinkedFragments (q : SearchQuery) (hagent : q.agentId ≠ "") (relationType : Option String) :
    RecallQueries.getLinkedFragments store q fromIds (safeRelationType relationType) =
      (getLinkedFragments store fromIds relationType q.agentId (keyArgument q.keyIds)
        { workspace := q.workspace, includePeerAgents := q.includePeerAgents,
          includeSuperseded := q.includeSuperseded }).map fun hit => { hit.row with isAnchor := false } := by
  have hkeys : ∀ f, keyFilter (keyParam (keyArgument q.keyIds)) f = keyCond q.keyIds f := by
    intro f
    rcases q.keyIds with _ | members
    · rfl
    · exact keyFilter_members members f
  have hadmits : admits q.agentId (keyArgument q.keyIds)
      { workspace := q.workspace, includePeerAgents := q.includePeerAgents, includeSuperseded := q.includeSuperseded } =
        fun f =>
          (q.includeSuperseded || f.live) && keyCond q.keyIds f && q.agentCond f && workspaceCond q.workspace f := by
    funext f
    rw [admits, hkeys, if_neg hagent]
    rfl
  rw [getLinkedFragments, RecallQueries.getLinkedFragments, hadmits]
  split
  · rename_i hnone
    rw [List.isEmpty_iff.mp hnone]
    have hsub : neighborRows store [] (linkedRelation (safeRelationType relationType)) (fun _ => false) (fun f : Fragment =>
        (q.includeSuperseded || f.live) && keyCond q.keyIds f && q.agentCond f && workspaceCond q.workspace f) = [] := by
      refine List.eq_nil_iff_forall_not_mem.mpr fun item hitem => ?_
      rcases (mem_neighborRows_iff.mp hitem).ends with ⟨hmem, -⟩ | ⟨hmem, -⟩
      · cases hmem
      · cases hmem
    rw [hsub]
    rfl
  · rw [List.map_map]
    rfl

end FragmentMemory.LinkedFragments
