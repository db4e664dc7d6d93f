import Mathlib.Data.Nat.Notation

/-! # Key-value stores whose entries may carry a deadline

An in-memory map keeps its entries until they are deleted.  A cache with time to live hides an entry
once its deadline is reached and may also lose entries on its own.
-/
namespace FragmentMemory.KeyValueStore

structure Entry (α : Type) where
  value : α
  deadline : Option ℕ
  deriving DecidableEq

def Entry.aliveAt {α : Type} (entry : Entry α) (now : ℕ) : Bool :=
  match entry.deadline with
  | none => true
  | some deadline => now < deadline

def Store (α : Type) := String → Option (Entry α)

variable {α : Type}

namespace Store

def empty : Store α := fun _ => none

def get (store : Store α) (now : ℕ) (key : String) : Option α :=
  ((store key).filter fun entry => entry.aliveAt now).map Entry.value

def put (store : Store α) (key : String) (value : α) (deadline : Option ℕ) : Store α :=
  fun other => if other = key then some ⟨value, deadline⟩ else store other

def delete (store : Store α) (key : String) : Store α :=
  fun other => if other = key then none else store other

/-- Move the deadline of an entry that is still alive. -/
def expireAt (store : Store α) (now : ℕ) (key : String) (deadline : ℕ) : Store α :=
  match (store key).filter fun entry => entry.aliveAt now with
  | none => store
  | some entry => store.put key entry.value (some deadline)

/-- Drop the entries that the predicate selects. -/
def drop (store : Store α) (lost : String → α → Bool) : Store α :=
  fun key => (store key).filter fun entry => !lost key entry.value

/-- Every stored value, alive or not, has the property. -/
def Holds (property : String → α → Prop) (store : Store α) : Prop :=
  ∀ key entry, store key = some entry → property key entry.value

@[simp] theorem get_empty (now : ℕ) (key : String) : (empty : Store α).get now key = none := rfl

theorem get_eq_some_iff {store : Store α} {now : ℕ} {key : String} {value : α} :
    store.get now key = some value ↔
      ∃ entry, store key = some entry ∧ entry.aliveAt now = true ∧ entry.value = value := by
  unfold get
  cases store key with
  | none => simp
  | some entry => by_cases h : entry.aliveAt now <;> simp [h, Option.filter]

@[simp] theorem get_delete_self (store : Store α) (now : ℕ) (key : String) :
    (store.delete key).get now key = none := by
  simp [get, delete]

variable {property : String → α → Prop} {store : Store α}

theorem holds_empty : Holds property (empty : Store α) := by
  intro key entry h
  cases h

theorem Holds.of_get (h : Holds property store) {now : ℕ} {key : String} {value : α}
    (hget : store.get now key = some value) : property key value := by
  obtain ⟨entry, hentry, _, rfl⟩ := get_eq_some_iff.mp hget
  exact h key entry hentry

theorem Holds.put (h : Holds property store) {key : String} {value : α} (deadline : Option ℕ)
    (hvalue : property key value) : Holds property (store.put key value deadline) := by
  intro other entry hentry
  by_cases hkey : other = key
  · subst hkey
    simp only [Store.put, if_true, Option.some.injEq] at hentry
    rw [← hentry]
    exact hvalue
  · simp only [Store.put, if_neg hkey] at hentry
    exact h other entry hentry

theorem Holds.delete (h : Holds property store) (key : String) : Holds property (store.delete key) := by
  intro other entry hentry
  by_cases hkey : other = key
  · subst hkey
    simp [Store.delete] at hentry
  · simp only [Store.delete, if_neg hkey] at hentry
    exact h other entry hentry

theorem Holds.expireAt (h : Holds property store) (now : ℕ) (key : String) (deadline : ℕ) :
    Holds property (store.expireAt now key deadline) := by
  unfold Store.expireAt
  split
  · exact h
  · rename_i entry halive
    exact Holds.put h (some deadline) (h key entry (Option.filter_eq_some_iff.mp halive).1)

theorem Holds.drop (h : Holds property store) (lost : String → α → Bool) :
    Holds property (store.drop lost) := by
  intro key entry hentry
  exact h key entry (Option.filter_eq_some_iff.mp hentry).1

end Store
end FragmentMemory.KeyValueStore
