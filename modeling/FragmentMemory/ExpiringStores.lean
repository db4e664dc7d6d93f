import FragmentMemory.KeyValueStore
import Mathlib.Tactic.Common

/-! # Stores of values that know when they expire

A value names its own expiry.  Two stores agree at a time when they hold the same values among those that
have not expired; what is expired by its own record may be missing from either of them.
-/
namespace FragmentMemory.ExpiringStores
open KeyValueStore

variable {α : Type} (expires : α → ℕ)

/-- The value of a key that is found and has not expired. -/
def effective (now : ℕ) (store : Store α) (key : String) : Option α :=
  (store.get now key).filter fun value => now ≤ expires value

/-- The entry is out of reach although its value has not expired. -/
def Lapsed (now : ℕ) (store : Store α) (key : String) : Prop :=
  ∃ entry ∈ store key, entry.aliveAt now = false ∧ now ≤ expires entry.value

instance (now : ℕ) (store : Store α) (key : String) : Decidable (Lapsed expires now store key) :=
  inferInstanceAs (Decidable (∃ entry ∈ store key, _))

/-- What the key has, if anything, has expired. -/
def Cleared (now : ℕ) (store : Store α) (key : String) : Prop :=
  ∀ entry, store key = some entry → expires entry.value < now

/-- The stores hold the same values, expired ones apart. -/
def Agree (now : ℕ) (first second : Store α) : Prop :=
  ∀ key value, now ≤ expires value →
    ((∃ entry, first key = some entry ∧ entry.value = value) ↔ ∃ entry, second key = some entry ∧ entry.value = value)

/-- Only expired entries were deleted. -/
def Sheds (now : ℕ) (before after : Store α) : Prop :=
  ∀ key, after key = before key ∨ after key = none ∧ Cleared expires now before key

/-- No entry has a deadline. -/
def Undying (store : Store α) : Prop := ∀ key entry, store key = some entry → entry.deadline = none

variable {expires} {now : ℕ} {first second : Store α} {key : String}

theorem effective_eq_some_iff {store : Store α} {value : α} :
    effective expires now store key = some value ↔ store.get now key = some value ∧ now ≤ expires value := by
  rw [effective, Option.filter_eq_some_iff, decide_eq_true_eq]

/-- A deletion of what is found leaves the key cleared, and so does finding nothing that is still good. -/
theorem cleared_of_get_eq_none {store : Store α} (h : store.get now key = none)
    (hlapsed : ¬ Lapsed expires now store key) :
    Cleared expires now store key := by
  intro entry hentry
  by_contra hvalue
  by_cases halive : entry.aliveAt now
  · have hget : store.get now key = some entry.value := Store.get_eq_some_iff.mpr ⟨entry, hentry, halive, rfl⟩
    rw [h] at hget
    cases hget
  · exact hlapsed ⟨entry, hentry, by simpa using halive, by omega⟩

theorem cleared_delete (store : Store α) (key : String) : Cleared expires now (store.delete key) key := by
  intro entry hentry
  simp [Store.delete] at hentry

theorem Undying.get_eq (h : Undying second) {value : α} :
    second.get now key = some value ↔ ∃ entry, second key = some entry ∧ entry.value = value := by
  rw [Store.get_eq_some_iff]
  refine exists_congr fun entry => and_congr_right fun hentry => and_iff_right ?_
  rw [Entry.aliveAt, h key entry hentry]

theorem Undying.put (h : Undying second) (key : String) (value : α) : Undying (second.put key value none) := by
  intro other entry hentry
  simp only [Store.put] at hentry
  split at hentry
  · rw [← Option.some.inj hentry]
  · exact h other entry hentry

theorem Undying.delete (h : Undying second) (key : String) : Undying (second.delete key) := by
  intro other entry hentry
  simp only [Store.delete] at hentry
  split at hentry
  · cases hentry
  · exact h other entry hentry

theorem Undying.drop (h : Undying second) (lost : String → α → Bool) : Undying (second.drop lost) := by
  intro other entry hentry
  exact h other entry (Option.filter_eq_some_iff.mp hentry).1

theorem Undying.sheds {after : Store α} (h : Undying second) (hsheds : Sheds expires now second after) :
    Undying after := by
  intro key entry hentry
  rcases hsheds key with hsame | ⟨hnone, -⟩
  · exact h key entry (hsame ▸ hentry)
  · rw [hnone] at hentry
    cases hentry

theorem sheds_refl (store : Store α) : Sheds expires now store store := fun _ => Or.inl rfl

theorem sheds_delete {store : Store α} {value : α} (h : store.get now key = some value) (hvalue : expires value < now) :
    Sheds expires now store (store.delete key) := by
  intro other
  by_cases hother : other = key
  · subst hother
    obtain ⟨found, hfound, -, rfl⟩ := Store.get_eq_some_iff.mp h
    refine Or.inr ⟨if_pos rfl, fun entry hentry => ?_⟩
    rw [hfound] at hentry
    rw [← Option.some.inj hentry]
    exact hvalue
  · exact Or.inl (if_neg hother)

theorem sheds_drop (store : Store α) : Sheds expires now store (store.drop fun _ value => expires value < now) := by
  intro key
  rcases hentry : store key with _ | entry
  · left
    simp [Store.drop, hentry]
  · by_cases hexpired : expires entry.value < now
    · right
      refine ⟨by simp [Store.drop, hentry, hexpired], fun other hother => ?_⟩
      rw [hentry] at hother
      rw [← Option.some.inj hother]
      exact hexpired
    · left
      simp [Store.drop, hentry, hexpired]

namespace Agree

theorem refl (store : Store α) : Agree expires now store store := fun _ _ _ => Iff.rfl

theorem later (h : Agree expires now first second) {after : ℕ} (hafter : now ≤ after) :
    Agree expires after first second :=
  fun key value hvalue => h key value (Nat.le_trans hafter hvalue)

/-- A key that is not lapsed gives the same in the store with deadlines and in the one without. -/
theorem effective_eq (h : Agree expires now first second) (hundying : Undying second)
    (hlapsed : ¬ Lapsed expires now first key) :
    effective expires now first key = effective expires now second key := by
  apply Option.ext
  intro value
  rw [effective_eq_some_iff, effective_eq_some_iff]
  refine and_congr_left fun hvalue => ?_
  rw [hundying.get_eq, ← h key value hvalue, Store.get_eq_some_iff]
  refine exists_congr fun entry => and_congr_right fun hentry => and_iff_right_of_imp fun hsame => ?_
  by_contra hdead
  exact hlapsed ⟨entry, hentry, by simpa using hdead, hsame ▸ hvalue⟩

theorem put (h : Agree expires now first second) (key : String) (value : α) (deadline other : Option ℕ) :
    Agree expires now (first.put key value deadline) (second.put key value other) := by
  intro asked good hgood
  simp only [Store.put]
  by_cases hasked : asked = key
  · simp [hasked]
  · simp only [if_neg hasked]
    exact h asked good hgood

theorem delete (h : Agree expires now first second) (key : String) :
    Agree expires now (first.delete key) (second.delete key) := by
  intro asked good hgood
  simp only [Store.delete]
  by_cases hasked : asked = key
  · simp [hasked]
  · simp only [if_neg hasked]
    exact h asked good hgood

/-- Two stores that agree and are cleared at the same keys still agree. -/
theorem of_cleared (h : Agree expires now first second) {first' second' : Store α} {changed : String → Prop}
    (hfirst : ∀ key, ¬ changed key → first' key = first key) (hsecond : ∀ key, ¬ changed key → second' key = second key)
    (hclearedFirst : ∀ key, changed key → Cleared expires now first' key)
    (hclearedSecond : ∀ key, changed key → Cleared expires now second' key) : Agree expires now first' second' := by
  intro key value hvalue
  by_cases hchanged : changed key
  · have hnot : ∀ {store : Store α}, Cleared expires now store key → ¬ ∃ entry, store key = some entry ∧
      entry.value = value := by
      rintro store hcleared ⟨entry, hentry, rfl⟩
      have := hcleared entry hentry
      omega
    exact iff_of_false (hnot (hclearedFirst key hchanged)) (hnot (hclearedSecond key hchanged))
  · rw [hfirst key hchanged, hsecond key hchanged]
    exact h key value hvalue

theorem symm (h : Agree expires now first second) : Agree expires now second first :=
  fun key value hvalue => (h key value hvalue).symm

theorem sheds_left (h : Agree expires now first second) {after : Store α} (hsheds : Sheds expires now first after) :
    Agree expires now after second := by
  intro key value hvalue
  rw [← h key value hvalue]
  rcases hsheds key with hsame | ⟨hnone, hcleared⟩
  · rw [hsame]
  · refine iff_of_false ?_ ?_
    · rintro ⟨entry, hentry, -⟩
      rw [hnone] at hentry
      cases hentry
    · rintro ⟨entry, hentry, rfl⟩
      have := hcleared entry hentry
      omega

theorem sheds_right (h : Agree expires now first second) {after : Store α} (hsheds : Sheds expires now second after) :
    Agree expires now first after :=
  (h.symm.sheds_left hsheds).symm

/-- Moving a deadline changes no value. -/
theorem expireAt_left (h : Agree expires now first second) (time : ℕ) (key : String) (deadline : ℕ) :
    Agree expires now (first.expireAt time key deadline) second := by
  intro asked value hvalue
  rw [← h asked value hvalue, Store.expireAt]
  rcases halive : (first key).filter fun entry => entry.aliveAt time with _ | entry
  · simp only [halive]
  · have hentry := (Option.filter_eq_some_iff.mp halive).1
    simp only [halive, Store.put]
    by_cases hasked : asked = key
    · subst hasked
      simp [hentry]
    · simp only [if_neg hasked]

end Agree
end FragmentMemory.ExpiringStores
