import Mathlib.Data.List.Induction
import Mathlib.Data.List.Nodup

/-! # Insertion-ordered accumulation of a stream by key

An accumulator keeps one entry for each key it has seen, in the order in which the keys first
appeared.  The first occurrence of a key creates its entry and every later one is absorbed into it.
-/
namespace FragmentMemory.KeyedAccumulation

/-- How a stream of `β` is collected into entries of type `α`, one for each key in `ι`. -/
structure Accumulator (ι α β : Type*) where
  entryKey : α → ι
  itemKey : β → ι
  create : β → α
  absorb : α → β → α
  entryKey_create : ∀ item, entryKey (create item) = itemKey item
  entryKey_absorb : ∀ entry item, entryKey (absorb entry item) = entryKey entry

namespace Accumulator

variable {ι α β : Type*} (M : Accumulator ι α β)

/-- What the accumulator holds for a key whose occurrences are given. -/
def entryOf : List β → Option α
  | [] => none
  | item :: later => some (later.foldl M.absorb (M.create item))

theorem entryOf_append_singleton (items : List β) (item : β) :
    M.entryOf (items ++ [item]) =
      match M.entryOf items with
      | none => some (M.create item)
      | some entry => some (M.absorb entry item) := by
  cases items <;> simp [entryOf]

theorem entryKey_foldl_absorb (items : List β) (entry : α) :
    M.entryKey (items.foldl M.absorb entry) = M.entryKey entry := by
  induction items generalizing entry with
  | nil => rfl
  | cons item items ih => rw [List.foldl_cons, ih, M.entryKey_absorb]

variable [DecidableEq ι]

/-- Absorb an item into the entry with its key, or append the entry it creates. -/
def put (entries : List α) (item : β) : List α :=
  if entries.any (fun entry => M.entryKey entry = M.itemKey item) then
    entries.map fun entry => if M.entryKey entry = M.itemKey item then M.absorb entry item else entry
  else
    entries ++ [M.create item]

def collect (items : List β) : List α := items.foldl M.put []

/-- The occurrences of one key, in stream order. -/
def occurrences (items : List β) (key : ι) : List β :=
  items.filter fun item => M.itemKey item = key

@[simp] theorem collect_nil : M.collect [] = [] := rfl

theorem collect_append_singleton (items : List β) (item : β) :
    M.collect (items ++ [item]) = M.put (M.collect items) item := by
  simp [collect]

theorem occurrences_append_singleton (items : List β) (item : β) (key : ι) :
    M.occurrences (items ++ [item]) key =
      if M.itemKey item = key then M.occurrences items key ++ [item] else M.occurrences items key := by
  by_cases h : M.itemKey item = key <;> simp [occurrences, h]

theorem entryKey_of_entryOf {items : List β} {key : ι} {entry : α}
    (h : M.entryOf (M.occurrences items key) = some entry) : M.entryKey entry = key := by
  cases hocc : M.occurrences items key with
  | nil => simp [hocc, entryOf] at h
  | cons first later =>
    have hfirst : first ∈ M.occurrences items key := by simp [hocc]
    simp only [hocc, entryOf, Option.some.injEq] at h
    rw [← h, entryKey_foldl_absorb, M.entryKey_create]
    simpa [occurrences] using (List.mem_filter.mp hfirst).2

theorem map_entryKey_put (entries : List α) (item : β) :
    (M.put entries item).map M.entryKey =
      if M.itemKey item ∈ entries.map M.entryKey then entries.map M.entryKey
      else entries.map M.entryKey ++ [M.itemKey item] := by
  have hany : (entries.any fun entry => M.entryKey entry = M.itemKey item) = true ↔
      M.itemKey item ∈ entries.map M.entryKey := by
    simp [List.any_eq_true]
  unfold put
  by_cases h : M.itemKey item ∈ entries.map M.entryKey
  · rw [if_pos (hany.mpr h), if_pos h, List.map_map]
    apply List.map_congr_left
    intro entry _
    by_cases hk : M.entryKey entry = M.itemKey item
    · simp [hk, M.entryKey_absorb]
    · simp [hk]
  · rw [if_neg (mt hany.mp h), if_neg h]
    simp [M.entryKey_create]

theorem nodup_put (entries : List α) (item : β) (h : (entries.map M.entryKey).Nodup) :
    ((M.put entries item).map M.entryKey).Nodup := by
  rw [map_entryKey_put]
  split
  · exact h
  · rename_i hnot
    exact List.nodup_append.mpr ⟨h, by simp, fun a ha b hb => by
      rw [List.mem_singleton.mp hb]
      exact ne_of_mem_of_not_mem ha hnot⟩

/-- The collected entries have pairwise different keys. -/
theorem nodup_collect (items : List β) : ((M.collect items).map M.entryKey).Nodup := by
  induction items using List.reverseRecOn with
  | nil => simp
  | append_singleton items item ih =>
    rw [collect_append_singleton]
    exact M.nodup_put _ _ ih

private theorem mem_put (entries : List α) (item : β) (entry : α) :
    entry ∈ M.put entries item ↔
      (entry ∈ entries ∧ M.entryKey entry ≠ M.itemKey item) ∨
      (∃ earlier ∈ entries, M.entryKey earlier = M.itemKey item ∧ entry = M.absorb earlier item) ∨
      ((∀ earlier ∈ entries, M.entryKey earlier ≠ M.itemKey item) ∧ entry = M.create item) := by
  unfold put
  split
  · rename_i hany
    obtain ⟨witness, hw, hkey⟩ := List.any_eq_true.mp hany
    simp only [decide_eq_true_eq] at hkey
    constructor
    · intro h
      obtain ⟨earlier, he, rfl⟩ := List.mem_map.mp h
      by_cases hk : M.entryKey earlier = M.itemKey item
      · exact Or.inr (Or.inl ⟨earlier, he, hk, by simp [hk]⟩)
      · simp only [hk, if_false]
        exact Or.inl ⟨he, hk⟩
    · rintro (⟨he, hk⟩ | ⟨earlier, he, hk, rfl⟩ | ⟨hno, _⟩)
      · exact List.mem_map.mpr ⟨entry, he, by simp [hk]⟩
      · exact List.mem_map.mpr ⟨earlier, he, by simp [hk]⟩
      · exact absurd hkey (hno witness hw)
  · rename_i hany
    have hno : ∀ earlier ∈ entries, M.entryKey earlier ≠ M.itemKey item := by
      intro earlier he hk
      exact hany (List.any_eq_true.mpr ⟨earlier, he, by simpa using hk⟩)
    constructor
    · intro h
      rcases List.mem_append.mp h with he | he
      · exact Or.inl ⟨he, hno entry he⟩
      · exact Or.inr (Or.inr ⟨hno, List.mem_singleton.mp he⟩)
    · rintro (⟨he, _⟩ | ⟨earlier, he, hk, _⟩ | ⟨_, rfl⟩)
      · exact List.mem_append_left _ he
      · exact absurd hk (hno earlier he)
      · simp

/-- The entry collected for a key is the one its occurrences build, and there is no other. -/
theorem mem_collect_iff (items : List β) (entry : α) :
    entry ∈ M.collect items ↔ M.entryOf (M.occurrences items (M.entryKey entry)) = some entry := by
  induction items using List.reverseRecOn generalizing entry with
  | nil => simp [occurrences, entryOf]
  | append_singleton items item ih =>
    rw [collect_append_singleton, mem_put, occurrences_append_singleton]
    constructor
    · rintro (⟨he, hk⟩ | ⟨earlier, he, hk, rfl⟩ | ⟨hno, rfl⟩)
      · rw [if_neg (Ne.symm hk)]
        exact (ih entry).mp he
      · rw [M.entryKey_absorb, if_pos hk.symm, entryOf_append_singleton, (ih earlier).mp he]
      · rw [M.entryKey_create, if_pos rfl, entryOf_append_singleton]
        cases hprev : M.entryOf (M.occurrences items (M.itemKey item)) with
        | none => rfl
        | some earlier =>
          have hk := M.entryKey_of_entryOf hprev
          exact absurd hk (hno earlier ((ih earlier).mpr (by rw [hk, hprev])))
    · intro h
      by_cases hk : M.itemKey item = M.entryKey entry
      · rw [if_pos hk, entryOf_append_singleton] at h
        cases hprev : M.entryOf (M.occurrences items (M.entryKey entry)) with
        | none =>
          simp only [hprev, Option.some.injEq] at h
          refine Or.inr (Or.inr ⟨?_, h.symm⟩)
          intro earlier he hearlier
          have := (ih earlier).mp he
          rw [hearlier, hk, hprev] at this
          cases this
        | some earlier =>
          simp only [hprev, Option.some.injEq] at h
          have hkey := M.entryKey_of_entryOf hprev
          exact Or.inr (Or.inl ⟨earlier, (ih earlier).mpr (by rw [hkey, hprev]), by rw [hkey, hk], h.symm⟩)
      · rw [if_neg hk] at h
        exact Or.inl ⟨(ih entry).mpr h, Ne.symm hk⟩

/-- A map of the entries and one of the items that agree with both accumulators commute with collecting. -/
theorem collect_map {α' β' : Type*} {N : Accumulator ι α' β'} {entryMap : α → α'} {itemMap : β → β'}
    (hentry : ∀ entry, N.entryKey (entryMap entry) = M.entryKey entry)
    (hitem : ∀ item, N.itemKey (itemMap item) = M.itemKey item)
    (hcreate : ∀ item, N.create (itemMap item) = entryMap (M.create item))
    (habsorb : ∀ entry item, N.absorb (entryMap entry) (itemMap item) = entryMap (M.absorb entry item)) (items : List β) :
    N.collect (items.map itemMap) = (M.collect items).map entryMap := by
  induction items using List.reverseRecOn with
  | nil => rfl
  | append_singleton items item ih =>
    rw [List.map_append, List.map_singleton, collect_append_singleton, collect_append_singleton, ih]
    simp only [put, List.any_map, Function.comp_def, hentry, hitem]
    split
    · simp only [List.map_map]
      refine List.map_congr_left fun entry _ => ?_
      simp only [Function.comp_apply, hentry]
      split
      · exact habsorb entry item
      · rfl
    · rw [List.map_append, List.map_singleton, hcreate]

end Accumulator
end FragmentMemory.KeyedAccumulation
