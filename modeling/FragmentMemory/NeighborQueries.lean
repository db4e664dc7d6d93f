import FragmentMemory.RecallQueries
import FragmentMemory.DistinctOn
import Mathlib.Data.Prod.Lex
import Mathlib.Data.String.Basic

/-! # Queries of linked rows

What the two neighbour queries share: the rows they join, the orders they sort by and what it means that an answer
holds the strongest links.
-/
namespace FragmentMemory.NeighborQueries
open ApiKeyStore FragmentTables FragmentFactory FragmentWriter RecallQueries DistinctOn

/-- The key argument of a query: none for the master key, one key or the keys of a group. -/
inductive KeyArgument
  | master
  | one (key : String)
  | many (keys : List String)

/-- `key_id = ANY(…)` for a list of strings. -/
def keyFilter (keys : Option (List String)) (f : Fragment) : Bool :=
  keys.all fun members => f.keyId.any fun key => members.contains key.val

/-- The key argument that a normalized query passes on. -/
def keyArgument : Option (List KeyId) → KeyArgument
  | none => .master
  | some members => .many (members.map Subtype.val)

theorem keyFilter_members (members : List KeyId) (f : Fragment) :
    keyFilter (some (members.map Subtype.val)) f = keyCond (some members) f := by
  have hcontains : ∀ key : KeyId, (members.map Subtype.val).contains key.val = members.contains key := by
    intro key
    rw [Bool.eq_iff_iff, List.contains_iff_mem, List.contains_iff_mem]
    exact List.mem_map_of_injective Subtype.val_injective
  simp only [keyFilter, keyCond, Option.all_some, hcontains]

/-- A row of an answer with the columns of its link. -/
structure LinkedRow where
  row : Fragment
  linkWeight : ℚ
  relationType : RelationType
  deriving DecidableEq

def linkedRow (item : Fragment × Link) : LinkedRow :=
  { row := neighborColumns item.1, linkWeight := item.2.weight, relationType := item.2.relationType }

/-- A link joins a stored row to one of the ids, in either direction. -/
structure Joined (store : Store) (ids : List FragmentId) (chosen : Link → Bool) (skipped : FragmentId → Bool)
    (keep : Fragment → Bool) (f : Fragment) (l : Link) : Prop where
  stored : f ∈ store.fragments.rows
  kept : keep f = true
  notSkipped : skipped f.id = false
  link : l ∈ store.links.rows
  current : l.deletedAt = none
  ofKind : chosen l = true
  ends : (l.fromId ∈ ids ∧ l.toId = f.id) ∨ (l.toId ∈ ids ∧ l.fromId = f.id)

variable {store : Store} {ids : List FragmentId} {chosen : Link → Bool} {skipped : FragmentId → Bool}
  {keep : Fragment → Bool} {f : Fragment} {l : Link}

/-- The row that one direction of the query joins to a link. -/
theorem join_eq_some_iff {id : FragmentId} {other : Link} :
    ((store.fragments.byId id).filter keep).map (fun g => (g, other)) = some (f, l) ↔
      (f ∈ store.fragments.rows ∧ f.id = id) ∧ keep f = true ∧ other = l := by
  rw [Option.map_eq_some_iff]
  constructor
  · rintro ⟨g, hg, hpair⟩
    obtain ⟨rfl, rfl⟩ := Prod.mk.injEq .. ▸ hpair
    obtain ⟨hfound, hkept⟩ := Option.filter_eq_some_iff.mp hg
    exact ⟨(byId_eq_some_iff _).mp hfound, hkept, rfl⟩
  · rintro ⟨hfound, hkept, rfl⟩
    exact ⟨f, Option.filter_eq_some_iff.mpr ⟨(byId_eq_some_iff _).mpr hfound, hkept⟩, rfl⟩

theorem mem_neighborRows_iff :
    (f, l) ∈ neighborRows store ids chosen skipped keep ↔ Joined store ids chosen skipped keep f l := by
  have hside : ∀ (cond : Link → Bool) (far : Link → FragmentId),
      (f, l) ∈ store.links.rows.filterMap (fun other =>
          if cond other then ((store.fragments.byId (far other)).filter keep).map fun g => (g, other) else none) ↔
        l ∈ store.links.rows ∧ cond l = true ∧ (f ∈ store.fragments.rows ∧ f.id = far l) ∧ keep f = true := by
    intro cond far
    rw [List.mem_filterMap]
    constructor
    · rintro ⟨other, hother, hitem⟩
      split at hitem
      · rename_i hcond
        obtain ⟨hfound, hkept, rfl⟩ := join_eq_some_iff.mp hitem
        exact ⟨hother, hcond, hfound, hkept⟩
      · cases hitem
    · rintro ⟨hl, hcond, hfound, hkept⟩
      exact ⟨l, hl, by rw [if_pos hcond]; exact join_eq_some_iff.mpr ⟨hfound, hkept, rfl⟩⟩
  rw [neighborRows, List.mem_append, hside, hside]
  simp only [Bool.and_eq_true, Bool.not_eq_true', List.contains_iff_mem, Option.isNone_iff_eq_none]
  constructor
  · rintro (⟨hl, ⟨⟨⟨hid, hskip⟩, hcurrent⟩, hkind⟩, ⟨hf, hfar⟩, hkept⟩ | ⟨hl, ⟨⟨⟨hid, hskip⟩, hcurrent⟩, hkind⟩, ⟨hf, hfar⟩, hkept⟩)
    · exact ⟨hf, hkept, hfar ▸ hskip, hl, hcurrent, hkind, Or.inl ⟨hid, hfar.symm⟩⟩
    · exact ⟨hf, hkept, hfar ▸ hskip, hl, hcurrent, hkind, Or.inr ⟨hid, hfar.symm⟩⟩
  · rintro ⟨hf, hkept, hskip, hl, hcurrent, hkind, ⟨hid, hfar⟩ | ⟨hid, hfar⟩⟩
    · exact Or.inl ⟨hl, ⟨⟨⟨hid, hfar ▸ hskip⟩, hcurrent⟩, hkind⟩, ⟨hf, hfar.symm⟩, hkept⟩
    · exact Or.inr ⟨hl, ⟨⟨⟨hid, hfar ▸ hskip⟩, hcurrent⟩, hkind⟩, ⟨hf, hfar.symm⟩, hkept⟩

/-! ## The orders -/

theorem sorted_byIdWeight (items : List (Fragment × Link)) :
    (items.insertionSort (byIdWeight · ·)).Pairwise fun a b => byIdWeight a b = true := by
  let rank : Fragment × Link → FragmentId ×ₗ ℚᵒᵈ := fun item => toLex (item.1.id, OrderDual.toDual item.2.weight)
  have hrank : ∀ a b, byIdWeight a b = true ↔ rank a ≤ rank b := by
    intro a b
    simp only [byIdWeight, Bool.or_eq_true, Bool.and_eq_true, decide_eq_true_eq, rank, Prod.Lex.toLex_le_toLex,
      OrderDual.toDual_le_toDual]
  exact sorted_of_rank (FragmentId ×ₗ ℚᵒᵈ) hrank items

theorem sorted_byWeightId (items : List (Fragment × Link)) :
    (items.insertionSort (byWeightId · ·)).Pairwise fun a b => byWeightId a b = true := by
  let rank : Fragment × Link → ℚᵒᵈ ×ₗ FragmentId := fun item => toLex (OrderDual.toDual item.2.weight, item.1.id)
  have hrank : ∀ a b, byWeightId a b = true ↔ rank a ≤ rank b := by
    intro a b
    simp only [byWeightId, Bool.or_eq_true, Bool.and_eq_true, decide_eq_true_eq, rank, Prod.Lex.toLex_le_toLex,
      OrderDual.toDual_lt_toDual, OrderDual.toDual_inj]
  exact sorted_of_rank (ℚᵒᵈ ×ₗ FragmentId) hrank items

theorem sorted_byIdWeightOrder (items : List (Fragment × Link)) :
    (items.insertionSort (byIdWeightOrder · ·)).Pairwise fun a b => byIdWeightOrder a b = true := by
  let rank : Fragment × Link → FragmentId ×ₗ ℚᵒᵈ ×ₗ ℕ := fun item =>
    toLex (item.1.id, toLex (OrderDual.toDual item.2.weight, relationOrder item.2.relationType))
  have hrank : ∀ a b, byIdWeightOrder a b = true ↔ rank a ≤ rank b := by
    intro a b
    simp only [byIdWeightOrder, Bool.or_eq_true, Bool.and_eq_true, decide_eq_true_eq, rank, Prod.Lex.toLex_le_toLex,
      OrderDual.toDual_lt_toDual, OrderDual.toDual_inj]
  exact sorted_of_rank (FragmentId ×ₗ ℚᵒᵈ ×ₗ ℕ) hrank items

theorem distinctOnId_eq_distinctOn (items : List (Fragment × Link)) :
    distinctOnId items = distinctOn (fun item => item.1.id) items := by
  induction items with
  | nil => rfl
  | cons first later ih => rw [distinctOnId, distinctOn, ih]

/-! ## The strongest links -/

/-- The row that an id keeps comes with its strongest link, where links of one row are sorted by their weights. -/
theorem strongest_of_distinct {sorted : List (Fragment × Link)}
    (hsorted : sorted.Pairwise fun a b => a.1.id = b.1.id → b.2.weight ≤ a.2.weight)
    (hmem : ∀ item, item ∈ sorted ↔ Joined store ids chosen skipped keep item.1 item.2) {item : Fragment × Link}
    (hitem : item ∈ distinctOn (fun item => item.1.id) sorted) :
    Joined store ids chosen skipped keep item.1 item.2 ∧
      ∀ other, Joined store ids chosen skipped keep item.1 other → other.weight ≤ item.2.weight := by
  have hjoined := (hmem item).mp ((distinctOn_sublist _ sorted).subset hitem)
  refine ⟨hjoined, fun other hother => ?_⟩
  have hpresent : (item.1, other) ∈ sorted := (hmem (item.1, other)).mpr hother
  rcases distinctOn_first hsorted hitem hpresent rfl with hsame | hbefore
  · exact le_of_eq (congrArg (fun kept => kept.2.weight) hsame)
  · exact hbefore rfl

/-- An answer holds at most `limit` rows with ids of their own, each with the columns of its strongest link, and no row
that is left out has a stronger link than one of them.  Rows are left out of a full answer only. -/
structure StrongestLinked (joined : Fragment → Link → Prop) (limit : ℕ) (found : List LinkedRow) : Prop where
  length_le : found.length ≤ limit
  distinct : (found.map fun hit => hit.row.id).Nodup
  ofStrongestLink : ∀ hit ∈ found, ∃ f l, joined f l ∧ hit = linkedRow (f, l) ∧
    ∀ other, joined f other → other.weight ≤ l.weight
  strongest : ∀ f l, joined f l → f.id ∉ found.map (fun hit => hit.row.id) → ∀ hit ∈ found, l.weight ≤ hit.linkWeight
  full : ∀ f l, joined f l → f.id ∉ found.map (fun hit => hit.row.id) → found.length = limit

end FragmentMemory.NeighborQueries
