import Mathlib.Data.List.Basic

/-! # Lists of a Redis server

The commands of a reliable queue on lists whose first element is the head: `LPUSH`, `RPOPLPUSH` and `LREM` of
one occurrence.  A command may be refused, or executed without its answer arriving.
-/
namespace FragmentMemory.RedisLists

variable {α : Type*}

/-- How a command ends for the client that has sent it. -/
inductive Delivery | answered | unanswered | refused deriving DecidableEq

def Delivery.executed : Delivery → Bool
  | .answered | .unanswered => true
  | .refused => false

def lpush (list : List α) (value : α) : List α := value :: list

/-- The value that moves, the source without it, and the destination with it. -/
def rpoplpush (source destination : List α) : Option α × List α × List α :=
  match source.getLast? with
  | none => (none, source, destination)
  | some value => (some value, source.dropLast, value :: destination)

/-- `LREM list 1 value`. -/
def lrem [DecidableEq α] (list : List α) (value : α) : List α := list.erase value

theorem mem_lpush {list : List α} {value x : α} : x ∈ lpush list value ↔ x = value ∨ x ∈ list := List.mem_cons

/-- A move keeps the source followed by the destination as it is. -/
theorem rpoplpush_append (source destination : List α) :
    (rpoplpush source destination).2.1 ++ (rpoplpush source destination).2.2 = source ++ destination := by
  simp only [rpoplpush]
  rcases hlast : source.getLast? with _ | value
  · rfl
  · have hsource : source.dropLast ++ [value] = source :=
      List.dropLast_append_getLast? value (Option.mem_def.mpr hlast)
    calc source.dropLast ++ value :: destination = source.dropLast ++ [value] ++ destination := by
          rw [List.append_assoc, List.singleton_append]
      _ = source ++ destination := by rw [hsource]

theorem mem_rpoplpush (source destination : List α) (x : α) :
    (x ∈ (rpoplpush source destination).2.1 ∨ x ∈ (rpoplpush source destination).2.2) ↔ x ∈ source ∨
    x ∈ destination := by
  rw [← List.mem_append, ← List.mem_append, rpoplpush_append]

/-- Nothing is moved exactly when the source is empty. -/
theorem rpoplpush_eq_none_iff (source destination : List α) : (rpoplpush source destination).1 = none ↔
    source = [] := by
  rw [rpoplpush]
  rcases hlast : source.getLast? with _ | value
  · exact iff_of_true rfl (List.getLast?_eq_none_iff.mp hlast)
  · refine iff_of_false (Option.some_ne_none value) fun hempty => ?_
    rw [hempty] at hlast
    cases hlast

theorem mem_lrem_of_ne [DecidableEq α] {list : List α} {value x : α} (hne : x ≠ value) : x ∈ lrem list value ↔
    x ∈ list :=
  List.mem_erase_of_ne hne

end FragmentMemory.RedisLists
