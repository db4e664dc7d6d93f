import FragmentMemory.RowPersistence

/-! # The standing of a row

How important a row is, whether it is an anchor and how long its tier keeps it.  A remember that meets
its content under its key leaves the row at least the standing it had, unless it lowers the tier for the
importance of its own request, or expires a row with the content that the index did not show it.
-/
namespace FragmentMemory.RowStanding
open ApiKeyStore FragmentTables FragmentFactory FragmentWriter LinkStore MemoryRememberer RememberLiveness
  RowPersistence UniqueIndexTable

/-- The tiers by how long they keep a row. -/
def tierRank : TtlTier → ℕ
  | .short => 0
  | .cold => 1
  | .warm => 2
  | .hot => 3
  | .permanent => 4

theorem tierRank_pos {tier : TtlTier} (h : tier ≠ .short) : 0 < tierRank tier := by
  cases tier <;> first | exact absurd rfl h | exact Nat.succ_pos _

/-- A row has at least the standing of an earlier one. -/
structure NotDemoted (before after : Fragment) : Prop where
  importance : before.importance ≤ after.importance
  isAnchor : before.isAnchor = true → after.isAnchor = true
  ttlTier : tierRank before.ttlTier ≤ tierRank after.ttlTier

instance (before after : Fragment) : Decidable (NotDemoted before after) :=
  decidable_of_iff (before.importance ≤ after.importance ∧ (before.isAnchor = true → after.isAnchor = true) ∧
      tierRank before.ttlTier ≤ tierRank after.ttlTier)
    ⟨fun h => ⟨h.1, h.2.1, h.2.2⟩, fun h => ⟨h.importance, h.isAnchor, h.ttlTier⟩⟩

theorem NotDemoted.refl (f : Fragment) : NotDemoted f f := ⟨le_refl _, id, le_refl _⟩

theorem NotDemoted.trans {f g h : Fragment} (hfg : NotDemoted f g) (hgh : NotDemoted g h) : NotDemoted f h :=
  ⟨hfg.importance.trans hgh.importance, fun hf => hgh.isAnchor (hfg.isAnchor hf), hfg.ttlTier.trans hgh.ttlTier⟩

theorem notDemoted_promote (now : Time) (row f : Fragment) : NotDemoted f ((promote now row).set f) := by
  refine ⟨le_max_left _ _, fun hf => ?_, le_refl _⟩
  simp only [promote, hf, Bool.true_or]

/-- The row of a fragment is still there with at least its standing. -/
def KeepsStanding (f : Fragment) (store : Store) : Prop := ∃ g ∈ store.fragments.rows, g.id = f.id ∧ NotDemoted f g

instance (f : Fragment) (store : Store) : Decidable (KeepsStanding f store) :=
  inferInstanceAs (Decidable (∃ g ∈ store.fragments.rows, g.id = f.id ∧ NotDemoted f g))

/-- A property of the row of one id that every change of another row leaves alone. -/
def Follows (id : FragmentId) (property : Fragment → Prop) (f g : Fragment) : Prop :=
  g.id = f.id ∧ (f.id = id → property f → property g)

variable {id : FragmentId} {property : Fragment → Prop}

/-- A property that reads none of the columns that a remember writes unconditionally. -/
theorem admits_follows
    (hlinked : ∀ f ids, property f → property { f with linkedTo := ids })
    (haccessed : ∀ f count at_ activation, property f →
      property { f with accessCount := count, accessedAt := at_, emaActivation := activation })
    (hasserted : ∀ f status, property f → property { f with assertionStatus := status })
    (hcased : ∀ f caseId, property f → property { f with caseId := caseId }) :
    Admits (Follows id property) where
  refl _ := ⟨rfl, fun _ h => h⟩
  trans _ _ _ hfg hgh := ⟨hgh.1.trans hfg.1, fun hid hf => hgh.2 (hfg.1.trans hid) (hfg.2 hid hf)⟩
  linked f ids := ⟨rfl, fun _ => hlinked f ids⟩
  accessed f count at_ activation := ⟨rfl, fun _ => haccessed f count at_ activation⟩
  asserted f status := ⟨rfl, fun _ => hasserted f status⟩
  cased f caseId := ⟨rfl, fun _ => hcased f caseId⟩

theorem Persists.follow {before after : Store} (h : Persists (Follows id property) before after) {f : Fragment}
    (hf : f ∈ before.fragments.rows) (hid : f.id = id) (hproperty : property f) :
    ∃ g ∈ after.fragments.rows, g.id = id ∧ property g := by
  obtain ⟨g, hg, hgid, hfollow⟩ := h f hf
  exact ⟨g, hg, hgid.trans hid, hfollow hid hproperty⟩

end FragmentMemory.RowStanding
