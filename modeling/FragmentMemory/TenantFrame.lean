import FragmentMemory.MemoryRequests

/-! # What lies outside a tenant's scope

The rows outside a list of keys, the links and index members at them, and the relation between two
stores that have the same of all of these and in which no row inside the scope has gained a pointer
to one outside.  The relation is reflexive and transitive, and each statement of the store keeps it
under a condition on the rows it selects.
-/
namespace FragmentMemory.TenantFrame
open ApiKeyStore FragmentTables FragmentFactory FragmentWriter FragmentIndex LinkStore UniqueIndexTable

/-- A row whose key is not of the scope; a row without a key is outside every scope. -/
def outside (scope : List KeyId) (f : Fragment) : Bool := !f.keyId.any scope.contains

theorem any_contains_iff {keyId : Option KeyId} {members : List KeyId} :
    keyId.any members.contains = true ↔ ∃ owner, keyId = some owner ∧ owner ∈ members := by
  cases keyId <;> simp

theorem outside_eq_false_iff {scope : List KeyId} {f : Fragment} :
    outside scope f = false ↔ ∃ owner, f.keyId = some owner ∧ owner ∈ scope := by
  rw [outside, Bool.not_eq_false', any_contains_iff]

/-- The id of a row outside the scope. -/
def OutsideId (scope : List KeyId) (store : Store) (id : FragmentId) : Prop :=
  ∃ f ∈ store.fragments.rows, outside scope f = true ∧ f.id = id

instance (scope : List KeyId) (store : Store) (id : FragmentId) : Decidable (OutsideId scope store id) :=
  inferInstanceAs (Decidable (∃ f ∈ store.fragments.rows, outside scope f = true ∧ f.id = id))

def TouchesOutside (scope : List KeyId) (store : Store) (l : Link) : Prop :=
  OutsideId scope store l.fromId ∨ OutsideId scope store l.toId

instance (scope : List KeyId) (store : Store) (l : Link) : Decidable (TouchesOutside scope store l) :=
  inferInstanceAs (Decidable (_ ∨ _))

/-- Nothing outside the scope differs, and no row inside it has gained a pointer to the outside. -/
structure Isolated (scope : List KeyId) (before after : Store) : Prop where
  rows : after.fragments.rows.filter (outside scope) = before.fragments.rows.filter (outside scope)
  links : ∀ l, TouchesOutside scope before l → (l ∈ after.links.rows ↔ l ∈ before.links.rows)
  index : ∀ member, OutsideId scope before member.2 → (member ∈ after.index ↔ member ∈ before.index)
  arrays : ∀ f ∈ after.fragments.rows, outside scope f = false → ∀ id ∈ f.linkedTo,
    OutsideId scope before id → ∃ g ∈ before.fragments.rows, g.id = f.id ∧ outside scope g = false ∧ id ∈ g.linkedTo

variable {scope : List KeyId}

/-- The id of a row inside the scope is not the id of one outside. -/
theorem not_outsideId {store : Store} {f : Fragment} (hf : f ∈ store.fragments.rows)
    (hinside : outside scope f = false) : ¬ OutsideId scope store f.id := by
  rintro ⟨g, hg, houtside, hid⟩
  have hsame := eq_of_id _ hg hf hid
  rw [hsame, hinside] at houtside
  cases houtside

theorem not_outsideId_of_id {store : Store} {f : Fragment} {id : FragmentId} (hf : f ∈ store.fragments.rows)
    (hid : f.id = id) (hinside : outside scope f = false) : ¬ OutsideId scope store id :=
  hid ▸ not_outsideId hf hinside

theorem outside_set (change : ColumnUpdate) (f : Fragment) :
    outside scope (change.set f) = outside scope f := by
  simp only [outside, change.keyId_set]

namespace Isolated

/-- The relation keeps what is outside. -/
theorem outsideId_iff {before after : Store} (h : Isolated scope before after) {id : FragmentId} :
    OutsideId scope after id ↔ OutsideId scope before id := by
  have hmem : ∀ f, (f ∈ after.fragments.rows ∧ outside scope f = true) ↔
      (f ∈ before.fragments.rows ∧ outside scope f = true) := by
    intro f
    rw [← List.mem_filter, ← List.mem_filter, h.rows]
  constructor
  · rintro ⟨f, hf, houtside, hid⟩
    have hbefore := (hmem f).mp ⟨hf, houtside⟩
    exact ⟨f, hbefore.1, houtside, hid⟩
  · rintro ⟨f, hf, houtside, hid⟩
    have hafter := (hmem f).mpr ⟨hf, houtside⟩
    exact ⟨f, hafter.1, houtside, hid⟩

theorem touchesOutside_iff {before after : Store} (h : Isolated scope before after) {l : Link} :
    TouchesOutside scope after l ↔ TouchesOutside scope before l :=
  or_congr h.outsideId_iff h.outsideId_iff

theorem of_eq {before after : Store} (hfragments : after.fragments = before.fragments)
    (hlinks : after.links = before.links) (hindex : after.index = before.index) :
    Isolated scope before after where
  rows := by rw [hfragments]
  links l _ := by rw [hlinks]
  index member _ := by rw [hindex]
  arrays f hf hinside id hid _ := by
    rw [hfragments] at hf
    exact ⟨f, hf, rfl, hinside, hid⟩

theorem refl (store : Store) : Isolated scope store store := of_eq rfl rfl rfl

theorem trans {first second third : Store} (h : Isolated scope first second)
    (h' : Isolated scope second third) : Isolated scope first third where
  rows := h'.rows.trans h.rows
  links l hl := (h'.links l (h.touchesOutside_iff.mpr hl)).trans (h.links l hl)
  index member hmember := (h'.index member (h.outsideId_iff.mpr hmember)).trans (h.index member hmember)
  arrays f hf hinside id hid houtside := by
    obtain ⟨g, hg, hgid, hginside, hgmem⟩ := h'.arrays f hf hinside id hid (h.outsideId_iff.mpr houtside)
    obtain ⟨r, hr, hrid, hrinside, hrmem⟩ := h.arrays g hg hginside id hgmem houtside
    exact ⟨r, hr, hrid.trans hgid, hrinside, hrmem⟩

/-- A loop of isolated steps, by induction on its items. -/
theorem foldl {α : Type*} {items : List α} {op : Store → α → Store} {start : Store}
    (h : ∀ current, Isolated scope start current → ∀ item ∈ items, Isolated scope current (op current item)) :
    Isolated scope start (items.foldl op start) := by
  have hloop : ∀ (rest : List α) (current : Store), (∀ item ∈ rest, item ∈ items) →
      Isolated scope start current → Isolated scope start (rest.foldl op current) := by
    intro rest
    induction rest with
    | nil =>
      intro current _ hcurrent
      exact hcurrent
    | cons item later ih =>
      intro current hrest hcurrent
      have hitem := h current hcurrent item (hrest item List.mem_cons_self)
      exact ih _ (fun x hx => hrest x (List.mem_cons_of_mem _ hx)) (hcurrent.trans hitem)
  exact hloop items start (fun _ hx => hx) (refl start)

end Isolated

/-- An update of rows inside the scope that adds no pointer to the outside. -/
theorem isolated_updateFragments {store : Store} {cond : Fragment → Bool} {change : ColumnUpdate}
    (hcond : ∀ f ∈ store.fragments.rows, cond f = true → outside scope f = false)
    (hlinked : ∀ f, ∀ id ∈ (change.set f).linkedTo, OutsideId scope store id → id ∈ f.linkedTo) :
    Isolated scope store (store.updateFragments cond change) where
  rows := store.fragments.filter_update change.entries_set (outside scope) (outside_set change) hcond
  links _ _ := Iff.rfl
  index _ _ := Iff.rfl
  arrays := by
    intro f hf hinside id hid houtside
    obtain ⟨before, hbefore, rfl⟩ := (mem_updateFragments_iff store).mp hf
    refine ⟨before, hbefore, ?_, ?_, ?_⟩
    · split
      · exact (change.id_set before).symm
      · rfl
    · split at hinside
      · rwa [outside_set] at hinside
      · exact hinside
    · split at hid
      · exact hlinked before id hid houtside
      · exact hid

/-- The two arrays of a link are appended to with ids inside the scope. -/
theorem isolated_linkArray {store : Store} {id other : FragmentId} (hid : ¬ OutsideId scope store id)
    (hother : ¬ OutsideId scope store other) : Isolated scope store (linkArray store id other) := by
  refine isolated_updateFragments ?_ ?_
  · intro f hf hcond
    simp only [Bool.and_eq_true, decide_eq_true_eq] at hcond
    by_contra houtside
    exact hid ⟨f, hf, by simpa using houtside, hcond.1⟩
  · intro f x hx houtside
    rcases List.mem_append.mp hx with hold | hnew
    · exact hold
    · rw [List.mem_singleton.mp hnew] at houtside
      exact absurd houtside hother

/-- An update of links that touch nothing outside. -/
theorem isolated_updateLinks {store : Store} {cond : Link → Bool} {set : Link → Link}
    (hset : ∀ l, (set l).entries = l.entries)
    (hcond : ∀ l ∈ store.links.rows, cond l = true → ¬ TouchesOutside scope store l) :
    Isolated scope store { store with links := store.links.update cond set hset } where
  rows := rfl
  links l hl := by
    have hkept : ∀ x, decide (TouchesOutside scope store (set x)) = decide (TouchesOutside scope store x) := by
      intro x
      have hends := hset x
      simp only [Link.entries, List.cons.injEq, Prod.mk.injEq, and_true] at hends
      have hsame : TouchesOutside scope store (set x) ↔ TouchesOutside scope store x := by
        simp only [TouchesOutside, hends.1, hends.2]
      exact decide_eq_decide.mpr hsame
    have hfilter := store.links.filter_update hset (fun x => decide (TouchesOutside scope store x)) hkept
      (fun x hx hc => decide_eq_false (hcond x hx hc))
    exact Table.mem_iff_of_filter_eq hfilter (decide_eq_true hl)
  index _ _ := Iff.rfl
  arrays f hf hinside id hid _ := ⟨f, hf, rfl, hinside, hid⟩

/-- A link between rows inside the scope. -/
theorem isolated_tryLink {store : Store} {fromId toId : FragmentId} {relationType : RelationType} {weight : ℚ}
    (hfrom : ¬ OutsideId scope store fromId) (hto : ¬ OutsideId scope store toId) :
    Isolated scope store (tryLink store fromId toId relationType weight) := by
  simp only [tryLink]
  rcases hlink : createLink store fromId toId relationType weight with _ | next
  · exact Isolated.refl store
  · obtain ⟨-, -, links, hupsert, rfl⟩ := createLink_eq_some hlink
    have hlinks : Isolated scope store { store with links := links } := by
      rcases Table.upsert_cases hupsert with ⟨held, -, rfl⟩ | ⟨-, hinsert⟩
      · refine isolated_updateLinks _ ?_
        intro l _ hcond
        simp only [Link.entries, List.mem_singleton, decide_eq_true_eq, Prod.mk.injEq] at hcond
        rw [hcond.1] at hfrom
        rw [hcond.2] at hto
        exact not_or.mpr ⟨hfrom, hto⟩
      · refine ⟨rfl, ?_, fun _ _ => Iff.rfl, fun f hf hinside id hid _ => ⟨f, hf, rfl, hinside, hid⟩⟩
        intro l hl
        simp only [Table.rows_insert hinsert, List.mem_append, List.mem_singleton]
        constructor
        · rintro (hold | rfl)
          · exact hold
          · exact absurd hl (not_or.mpr ⟨hfrom, hto⟩)
        · exact Or.inl
    have hfirst := isolated_linkArray (hlinks.outsideId_iff.not.mpr hfrom) (hlinks.outsideId_iff.not.mpr hto)
    have hboth := hlinks.trans hfirst
    have hsecond := isolated_linkArray (hboth.outsideId_iff.not.mpr hto) (hboth.outsideId_iff.not.mpr hfrom)
    exact hboth.trans hsecond

/-- Index members of a row inside the scope. -/
theorem isolated_addAll {store : Store} {sets : List IndexSet} {id : FragmentId}
    (hid : ¬ OutsideId scope store id) :
    Isolated scope store { store with index := addAll store.index sets id } where
  rows := rfl
  links _ _ := Iff.rfl
  index _ hmember := mem_addAll_of_ne fun hsame => hid (hsame ▸ hmember)
  arrays f hf hinside _ hx _ := ⟨f, hf, rfl, hinside, hx⟩

theorem isolated_removeAll {store : Store} {sets : List IndexSet} {id : FragmentId}
    (hid : ¬ OutsideId scope store id) :
    Isolated scope store { store with index := removeAll store.index sets id } where
  rows := rfl
  links _ _ := Iff.rfl
  index _ hmember := mem_removeAll_of_ne fun hsame => hid (hsame ▸ hmember)
  arrays f hf hinside _ hx _ := ⟨f, hf, rfl, hinside, hx⟩

theorem isolated_index {ready : Bool} {tools : TextTools} {store : Store} {f : Fragment}
    {sessionId : Option String} {keyId : Option KeyId} (hid : ¬ OutsideId scope store f.id) :
    Isolated scope store (index ready tools store f sessionId keyId) := by
  simp only [index]
  split
  · exact isolated_addAll hid
  · exact Isolated.refl store

theorem isolated_deindex {ready : Bool} {tools : TextTools} {store : Store} {f : Fragment}
    {keyId : Option KeyId} (hid : ¬ OutsideId scope store f.id) :
    Isolated scope store (deindex ready tools store f keyId) := by
  simp only [deindex]
  split
  · exact isolated_removeAll hid
  · exact Isolated.refl store

theorem isolated_cacheFragment {ready : Bool} {store : Store} {id : FragmentId} {keyId : Option KeyId}
    (hid : ¬ OutsideId scope store id) : Isolated scope store (cacheFragment ready store id keyId) := by
  simp only [cacheFragment]
  split
  · exact isolated_addAll hid
  · exact Isolated.refl store

/-- The upsert of a row of the scope whose pointers, when it is new, are not to the outside. -/
theorem isolated_upsertRow {now : Time} {store next : Store} {row : Fragment} {id : FragmentId}
    (hrow : outside scope row = false)
    (hlinked : (∀ f ∈ store.fragments.rows, ¬ (f.keyId = row.keyId ∧ f.contentHash = row.contentHash)) →
      ∀ x ∈ row.linkedTo, ¬ OutsideId scope store x)
    (h : upsertRow now store row = some (next, id)) : Isolated scope store next := by
  rcases upsertRow_cases h with ⟨held, -, -, -, -, rfl⟩ | ⟨hnone, -, fragments, hinsert, rfl⟩
  · refine isolated_updateFragments ?_ fun f x hx _ => hx
    intro f _ hcond
    have hkey := (contentHash_mem_entries.mp (of_decide_eq_true hcond)).1
    simp only [outside, ← hkey] at hrow ⊢
    exact hrow
  · have hrows := Table.rows_insert hinsert
    refine ⟨?_, fun _ _ => Iff.rfl, fun _ _ => Iff.rfl, ?_⟩
    · simp [hrows, List.filter_append, hrow]
    · intro f hf hinside x hx houtside
      simp only [hrows, List.mem_append, List.mem_singleton] at hf
      rcases hf with hold | rfl
      · exact ⟨f, hold, rfl, hinside, hx⟩
      · exact absurd houtside (hlinked hnone x hx)

/-- The replacement of a row inside the scope that keeps its key and array. -/
theorem isolated_replace {store : Store} {id : FragmentId} {existing row : Fragment} {fragments : FragmentTable}
    (hexisting : store.fragments.byId id = some existing) (hinside : outside scope existing = false)
    (hid : row.id = existing.id) (hkey : row.keyId = existing.keyId) (hlinked : row.linkedTo = existing.linkedTo)
    (h : store.fragments.replace (.primary id) row = some fragments) :
    Isolated scope store { store with fragments := fragments } where
  rows := by
    have hrow : outside scope row = false := by
      simp only [outside, hkey] at hinside ⊢
      exact hinside
    have hheld := (byId_eq_some_iff _).mp hexisting
    refine Table.filter_replace h hrow fun f hf hentry => ?_
    have hsame : f = existing := eq_of_id _ hf hheld.1 (by rw [hheld.2, primary_mem_entries.mp hentry])
    rw [hsame, hinside]
  links _ _ := Iff.rfl
  index _ _ := Iff.rfl
  arrays := by
    intro f hf hfinside x hx _
    have hheld := (byId_eq_some_iff _).mp hexisting
    simp only [Table.rows_replace h, List.mem_map] at hf
    obtain ⟨before, hbefore, rfl⟩ := hf
    split at hx
    · rename_i hentry
      refine ⟨existing, hheld.1, ?_, hinside, hlinked ▸ hx⟩
      rw [if_pos hentry, hid]
    · rename_i hentry
      rw [if_neg hentry] at hfinside ⊢
      exact ⟨before, hbefore, rfl, hfinside, hx⟩

/-- What the removal of rows inside the scope must not meet: a link between one of them and a row
outside, and an array outside that points to one of them. -/
def Detached (scope : List KeyId) (store : Store) (ids : List FragmentId) : Prop :=
  (∀ l ∈ store.links.rows, ids.any l.touches = true → ¬ TouchesOutside scope store l) ∧
    ∀ f ∈ store.fragments.rows, outside scope f = true → ∀ id ∈ f.linkedTo, id ∉ ids

theorem detached_congr {store other : Store} {ids : List FragmentId} (hfragments : other.fragments = store.fragments)
    (hlinks : other.links = store.links) : Detached scope other ids ↔ Detached scope store ids := by
  simp only [Detached, TouchesOutside, OutsideId, hfragments, hlinks]

theorem isolated_deleteLinks {store : Store} {cond : Link → Bool}
    (hcond : ∀ l ∈ store.links.rows, cond l = true → ¬ TouchesOutside scope store l) :
    Isolated scope store { store with links := store.links.delete cond } where
  rows := rfl
  links l hl := by
    have hfilter := store.links.filter_delete (fun x => decide (TouchesOutside scope store x))
      (fun x hx hc => decide_eq_false (hcond x hx hc))
    exact Table.mem_iff_of_filter_eq hfilter (decide_eq_true hl)
  index _ _ := Iff.rfl
  arrays f hf hinside id hid _ := ⟨f, hf, rfl, hinside, hid⟩

theorem isolated_deleteFragments {store : Store} {cond : Fragment → Bool}
    (hcond : ∀ f ∈ store.fragments.rows, cond f = true → outside scope f = false)
    (hlinks : ∀ l ∈ store.links.rows, (∃ f ∈ store.fragments.rows, cond f = true ∧ l.touches f.id = true) →
      ¬ TouchesOutside scope store l) :
    Isolated scope store (store.deleteFragments cond) where
  rows := by
    refine store.fragments.filter_delete (outside scope) ?_
    exact hcond
  links l hl := by
    have hgone : ∀ x ∈ store.links.rows, (((store.fragments.rows.filter cond).map Fragment.id).contains x.fromId ||
        ((store.fragments.rows.filter cond).map Fragment.id).contains x.toId) = true →
        decide (TouchesOutside scope store x) = false := by
      intro x hx hcontains
      refine decide_eq_false (hlinks x hx ?_)
      simp only [Bool.or_eq_true, List.contains_iff_mem, List.mem_map, List.mem_filter] at hcontains
      rcases hcontains with ⟨f, ⟨hf, hc⟩, hid⟩ | ⟨f, ⟨hf, hc⟩, hid⟩
      · exact ⟨f, hf, hc, by simp [Link.touches, hid]⟩
      · exact ⟨f, hf, hc, by simp [Link.touches, hid]⟩
    have hfilter := store.links.filter_delete (fun x => decide (TouchesOutside scope store x)) hgone
    exact Table.mem_iff_of_filter_eq hfilter (decide_eq_true hl)
  index _ _ := Iff.rfl
  arrays := by
    intro f hf hinside id hid _
    exact ⟨f, (store.fragments.mem_delete_iff.mp hf).1, rfl, hinside, hid⟩

/-- Removing detached rows inside the scope. -/
theorem isolated_removeRows {store : Store} {ids : List FragmentId}
    (hids : ∀ f ∈ store.fragments.rows, f.id ∈ ids → outside scope f = false)
    (hdetached : Detached scope store ids) : Isolated scope store (removeRows store ids) := by
  have hlinks : Isolated scope store { store with links := store.links.delete fun l => ids.any l.touches } :=
    isolated_deleteLinks hdetached.1
  have hcleared : Isolated scope { store with links := store.links.delete fun l => ids.any l.touches }
      (Store.updateFragments { store with links := store.links.delete fun l => ids.any l.touches }
        (fun f => f.linkedTo.any ids.contains) (unlinked ids)) := by
    refine isolated_updateFragments ?_ ?_
    · intro f hf hpoints
      obtain ⟨id, hid, hcontains⟩ := List.any_eq_true.mp hpoints
      by_contra houtside
      have hfree := hdetached.2 f hf (by simpa using houtside) id hid
      exact hfree (List.contains_iff_mem.mp hcontains)
    · intro f id hid _
      exact (List.mem_filter.mp hid).1
  have hboth := hlinks.trans hcleared
  refine hboth.trans (isolated_deleteFragments ?_ ?_)
  · intro f hf hid
    by_contra houtside
    obtain ⟨g, hg, hgoutside, hgid⟩ := hboth.outsideId_iff.mp ⟨f, hf, by simpa using houtside, rfl⟩
    have hginside := hids g hg (hgid ▸ List.contains_iff_mem.mp hid)
    rw [hgoutside] at hginside
    cases hginside
  · rintro l hl ⟨f, -, hid, htouches⟩
    have hkept := (store.links.mem_delete_iff.mp hl).2
    have htouched : ids.any l.touches = true :=
      List.any_eq_true.mpr ⟨f.id, List.contains_iff_mem.mp hid, htouches⟩
    rw [htouched] at hkept
    cases hkept

end FragmentMemory.TenantFrame
