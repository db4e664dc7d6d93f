import Mathlib.Algebra.Order.Group.Nat
import Mathlib.Data.List.Nodup
import Mathlib.Data.List.Perm.Subperm

/-! # A counting semaphore with a queue

`acquire` takes a slot at once or joins a queue, `release` hands the slot to the head of the queue without
touching the counter, and a waiter that times out leaves the queue from any place.  Every call of `acquire` has
a ticket, by its number, and a promise that a caller sees as pending, resolved or rejected.  The tickets that
were served and those that were given back are kept for the statements.
-/
namespace FragmentMemory.FifoSemaphore

inductive Promise | pending | resolved | rejected deriving DecidableEq

structure Semaphore where
  limit : ℕ
  active : ℤ := 0
  waiters : List ℕ := []
  promises : List Promise := []
  served : List ℕ := []
  released : List ℕ := []

/-- `createSemaphore`. -/
def createSemaphore (limit : ℕ) : Semaphore := { limit := limit }

/-- The ticket of the next `acquire`. -/
def Semaphore.next (m : Semaphore) : ℕ := m.promises.length

def Semaphore.acquire (m : Semaphore) : Semaphore :=
  if m.active < m.limit then
    { m with
      active := m.active + 1
      promises := m.promises ++ [.resolved]
      served := m.served ++ [m.next] }
  else
    { m with
      waiters := m.waiters ++ [m.next]
      promises := m.promises ++ [.pending] }

/-- The timer of a waiter. -/
def Semaphore.timeOut (m : Semaphore) (ticket : ℕ) : Semaphore :=
  if ticket ∈ m.waiters then
    { m with
      waiters := m.waiters.erase ticket
      promises := m.promises.set ticket .rejected }
  else m

/-- `release`, by the holder of a ticket. -/
def Semaphore.release (m : Semaphore) (ticket : ℕ) : Semaphore :=
  match m.waiters with
  | waiter :: later =>
    { m with
      waiters := later
      promises := m.promises.set waiter .resolved
      served := m.served ++ [waiter]
      released := m.released ++ [ticket] }
  | [] => { m with active := m.active - 1, released := m.released ++ [ticket] }

/-- A ticket that holds a slot. -/
def Semaphore.Holds (m : Semaphore) (ticket : ℕ) : Prop := ticket ∈ m.served ∧ ticket ∉ m.released

structure Semaphore.Sound (m : Semaphore) : Prop where
  queue : ∀ ticket, ticket ∈ m.waiters ↔ m.promises[ticket]? = some .pending
  sorted : m.waiters.Pairwise (· < ·)
  resolved : ∀ ticket, ticket ∈ m.served ↔ m.promises[ticket]? = some .resolved
  fifo : m.served.Pairwise (· < ·)
  behind : ∀ ticket ∈ m.served, ∀ waiter ∈ m.waiters, ticket < waiter
  count : m.active + m.released.length = m.served.length
  bounded : m.active ≤ m.limit
  full : m.waiters ≠ [] → m.active = m.limit
  once : m.released.Nodup
  held : ∀ ticket ∈ m.released, ticket ∈ m.served

theorem getElem?_concat_eq_some {α : Type*} {items : List α} {last item : α} {i : ℕ} :
    (items ++ [last])[i]? = some item ↔ items[i]? = some item ∨ (i = items.length ∧ last = item) := by
  rcases lt_trichotomy i items.length with hlt | rfl | hgt
  · rw [List.getElem?_append_left hlt]
    exact ⟨Or.inl, fun h => h.resolve_right fun hlast => hlt.ne hlast.1⟩
  · simp
  · rw [List.getElem?_eq_none (by rw [List.length_append, List.length_singleton]; omega), List.getElem?_eq_none hgt.le]
    simp [hgt.ne']

theorem pairwise_lt_concat {tickets : List ℕ} {last : ℕ} (h : tickets.Pairwise (· < ·))
    (hlast : ∀ ticket ∈ tickets, ticket < last) : (tickets ++ [last]).Pairwise (· < ·) := by
  rw [List.pairwise_append]
  refine ⟨h, List.pairwise_singleton _ _, fun ticket hticket other hother => ?_⟩
  rw [List.mem_singleton.mp hother]
  exact hlast ticket hticket

namespace Semaphore.Sound

variable {m : Semaphore} {ticket : ℕ}

theorem lt_next_of_served (h : m.Sound) (hticket : ticket ∈ m.served) : ticket < m.next :=
  (List.getElem?_eq_some_iff.mp ((h.resolved ticket).mp hticket)).1

theorem lt_next_of_waiter (h : m.Sound) (hticket : ticket ∈ m.waiters) : ticket < m.next :=
  (List.getElem?_eq_some_iff.mp ((h.queue ticket).mp hticket)).1

theorem nodup_served (h : m.Sound) : m.served.Nodup := h.fifo.imp fun hlt => hlt.ne

theorem nodup_waiters (h : m.Sound) : m.waiters.Nodup := h.sorted.imp fun hlt => hlt.ne

end Semaphore.Sound

theorem sound_createSemaphore (limit : ℕ) : (createSemaphore limit).Sound where
  queue ticket := by simp [createSemaphore]
  sorted := List.Pairwise.nil
  resolved ticket := by simp [createSemaphore]
  fifo := List.Pairwise.nil
  behind ticket hticket := absurd hticket List.not_mem_nil
  count := rfl
  bounded := Int.natCast_nonneg limit
  full h := absurd rfl h
  once := List.nodup_nil
  held ticket hticket := absurd hticket List.not_mem_nil

variable {m : Semaphore}

theorem sound_acquire (h : m.Sound) : m.acquire.Sound := by
  rw [Semaphore.acquire]
  split
  · rename_i hfree
    -- with a free slot nobody waits
    have hnobody : m.waiters = [] := by
      by_contra hwaiting
      exact hfree.ne (h.full hwaiting)
    have hcount := h.count
    refine ⟨?_, h.sorted, ?_, ?_, ?_, ?_, ?_, ?_, h.once, ?_⟩
    · intro ticket
      rw [getElem?_concat_eq_some, ← h.queue]
      simp
    · intro ticket
      rw [getElem?_concat_eq_some, ← h.resolved, List.mem_append, List.mem_singleton, Semaphore.next]
      simp
    · exact pairwise_lt_concat h.fifo fun ticket hticket => h.lt_next_of_served hticket
    · intro ticket _ waiter hwaiter
      rw [hnobody] at hwaiter
      exact absurd hwaiter List.not_mem_nil
    · simp only [List.length_append, List.length_singleton]
      push_cast
      omega
    · exact hfree
    · intro hwaiting
      exact absurd hnobody hwaiting
    · intro ticket hticket
      exact List.mem_append_left _ (h.held ticket hticket)
  · rename_i hbusy
    refine ⟨?_, ?_, ?_, h.fifo, ?_, h.count, h.bounded, ?_, h.once, h.held⟩
    · intro ticket
      rw [getElem?_concat_eq_some, ← h.queue, List.mem_append, List.mem_singleton, Semaphore.next]
      simp
    · exact pairwise_lt_concat h.sorted fun ticket hticket => h.lt_next_of_waiter hticket
    · intro ticket
      rw [getElem?_concat_eq_some, ← h.resolved]
      simp
    · intro ticket hticket waiter hwaiter
      rcases List.mem_append.mp hwaiter with hold | hnew
      · exact h.behind ticket hticket waiter hold
      · rw [List.mem_singleton.mp hnew]
        exact h.lt_next_of_served hticket
    · intro _
      exact le_antisymm h.bounded (not_lt.mp hbusy)

theorem sound_timeOut (h : m.Sound) (ticket : ℕ) : (m.timeOut ticket).Sound := by
  rw [Semaphore.timeOut]
  split
  · rename_i hwaiting
    have hinside : ticket < m.promises.length := h.lt_next_of_waiter hwaiting
    refine ⟨?_, h.sorted.sublist List.erase_sublist, ?_, h.fifo, ?_, h.count, h.bounded, ?_, h.once, h.held⟩
    · intro other
      rw [h.nodup_waiters.mem_erase_iff, h.queue]
      by_cases hsame : other = ticket
      · subst hsame
        simp [hinside]
      · rw [List.getElem?_set_ne (Ne.symm hsame)]
        simp [hsame]
    · intro other
      rw [h.resolved]
      by_cases hsame : other = ticket
      · subst hsame
        rw [(h.queue other).mp hwaiting, List.getElem?_set_self hinside]
        simp
      · rw [List.getElem?_set_ne (Ne.symm hsame)]
    · intro other hother waiter hwaiter
      exact h.behind other hother waiter (List.mem_of_mem_erase hwaiter)
    · intro hothers
      refine h.full fun hnobody => hothers ?_
      rw [hnobody, List.erase_nil]
  · exact h

theorem sound_release (h : m.Sound) {ticket : ℕ} (hholds : m.Holds ticket) : (m.release ticket).Sound := by
  obtain ⟨hserved, hkept⟩ := hholds
  have honce : (m.released ++ [ticket]).Nodup := List.Nodup.append h.once (List.nodup_singleton ticket)
    (List.disjoint_singleton.mpr hkept)
  have hcount := h.count
  rw [Semaphore.release]
  split
  · rename_i waiter later hwaiters
    have hwaiting : waiter ∈ m.waiters := by
      rw [hwaiters]
      exact List.mem_cons_self
    have hsorted := h.sorted
    rw [hwaiters, List.pairwise_cons] at hsorted
    have hinside : waiter < m.promises.length := h.lt_next_of_waiter hwaiting
    refine ⟨?_, hsorted.2, ?_, ?_, ?_, ?_, h.bounded, ?_, honce, ?_⟩
    · intro other
      by_cases hsame : other = waiter
      · subst hsame
        have hgone : other ∉ later := fun hmem => (hsorted.1 other hmem).false
        simp [hgone, hinside]
      · rw [List.getElem?_set_ne (Ne.symm hsame), ← h.queue, hwaiters, List.mem_cons]
        simp [hsame]
    · intro other
      rw [List.mem_append, List.mem_singleton]
      by_cases hsame : other = waiter
      · subst hsame
        simp [hinside]
      · rw [List.getElem?_set_ne (Ne.symm hsame), ← h.resolved]
        simp [hsame]
    · exact pairwise_lt_concat h.fifo fun other hother => h.behind other hother waiter hwaiting
    · intro other hother next hnext
      rcases List.mem_append.mp hother with hold | hnew
      · exact h.behind other hold next (hwaiters ▸ List.mem_cons_of_mem waiter hnext)
      · rw [List.mem_singleton.mp hnew]
        exact hsorted.1 next hnext
    · simp only [List.length_append, List.length_singleton]
      push_cast
      omega
    · intro _
      exact h.full (List.ne_nil_of_mem hwaiting)
    · intro other hother
      rcases List.mem_append.mp hother with hold | hnew
      · exact List.mem_append_left _ (h.held other hold)
      · rw [List.mem_singleton.mp hnew]
        exact List.mem_append_left _ hserved
  · rename_i hnobody
    refine ⟨h.queue, h.sorted, h.resolved, h.fifo, h.behind, ?_, ?_, ?_, honce, ?_⟩
    · simp only [List.length_append, List.length_singleton]
      push_cast
      omega
    · have hbounded := h.bounded
      simp only
      omega
    · intro hwaiting
      exact absurd hnobody hwaiting
    · intro other hother
      rcases List.mem_append.mp hother with hold | hnew
      · exact h.held other hold
      · rw [List.mem_singleton.mp hnew]
        exact hserved

/-! ## The tickets that a semaphore still owes something -/

/-- A ticket that holds a slot or waits for one. -/
def Semaphore.Open (m : Semaphore) (ticket : ℕ) : Prop := m.Holds ticket ∨ m.promises[ticket]? = some .pending

variable {ticket : ℕ}

theorem next_acquire (m : Semaphore) : m.acquire.next = m.next + 1 := by
  rw [Semaphore.acquire]
  split
  · exact List.length_append
  · exact List.length_append

theorem released_acquire (m : Semaphore) : m.acquire.released = m.released := by
  rw [Semaphore.acquire]
  split <;> rfl

theorem mem_served_acquire (h : ticket ∈ m.served) : ticket ∈ m.acquire.served := by
  rw [Semaphore.acquire]
  split
  · exact List.mem_append_left _ h
  · exact h

theorem open_acquire (h : m.acquire.Open ticket) : m.Open ticket ∨ ticket = m.next := by
  rw [Semaphore.Open, Semaphore.Holds, released_acquire, Semaphore.acquire] at h
  split at h
  · rcases h with ⟨hserved, hkept⟩ | hpending
    · rcases List.mem_append.mp hserved with hold | hnew
      · exact Or.inl (Or.inl ⟨hold, hkept⟩)
      · exact Or.inr (List.mem_singleton.mp hnew)
    · rcases getElem?_concat_eq_some.mp hpending with hold | ⟨hnew, -⟩
      · exact Or.inl (Or.inr hold)
      · exact Or.inr hnew
  · rcases h with hholds | hpending
    · exact Or.inl (Or.inl hholds)
    · rcases getElem?_concat_eq_some.mp hpending with hold | ⟨hnew, -⟩
      · exact Or.inl (Or.inr hold)
      · exact Or.inr hnew

theorem timeOut_history (m : Semaphore) (other : ℕ) :
    (m.timeOut other).next = m.next ∧ (m.timeOut other).released = m.released ∧
    (m.timeOut other).served = m.served := by
  rw [Semaphore.timeOut]
  split
  · exact ⟨List.length_set, rfl, rfl⟩
  · exact ⟨rfl, rfl, rfl⟩

theorem open_timeOut {other : ℕ} (h : (m.timeOut other).Open ticket) : m.Open ticket := by
  rw [Semaphore.timeOut] at h
  split at h
  · rcases h with hholds | hpending
    · exact Or.inl hholds
    · refine Or.inr ?_
      by_cases hsame : other = ticket
      · subst hsame
        rw [List.getElem?_set] at hpending
        simp at hpending
      · rw [List.getElem?_set_ne hsame] at hpending
        exact hpending
  · exact h

theorem next_release (m : Semaphore) (other : ℕ) : (m.release other).next = m.next := by
  rw [Semaphore.release]
  split
  · exact List.length_set
  · rfl

theorem released_release (m : Semaphore) (other : ℕ) : (m.release other).released = m.released ++ [other] := by
  rw [Semaphore.release]
  split <;> rfl

theorem mem_served_release {other : ℕ} (h : ticket ∈ m.served) : ticket ∈ (m.release other).served := by
  rw [Semaphore.release]
  split
  · exact List.mem_append_left _ h
  · exact h

/-- After a release its ticket is owed nothing, and every other one is where it was, or has moved from the queue
to a slot. -/
theorem open_release (hsound : m.Sound) {other : ℕ} (hserved : other ∈ m.served) (h : (m.release other).Open ticket) :
    m.Open ticket ∧ ticket ≠ other := by
  have hreleased := released_release m other
  have hnotPending : m.promises[other]? ≠ some .pending := by
    rw [(hsound.resolved other).mp hserved]
    simp
  rcases h with ⟨hin, hkept⟩ | hpending
  · rw [hreleased, List.mem_append, List.mem_singleton, not_or] at hkept
    refine ⟨?_, hkept.2⟩
    rw [Semaphore.release] at hin
    split at hin
    · rename_i waiter later hwaiters
      rcases List.mem_append.mp hin with hold | hnew
      · exact Or.inl ⟨hold, hkept.1⟩
      · rw [List.mem_singleton.mp hnew]
        refine Or.inr ((hsound.queue waiter).mp ?_)
        rw [hwaiters]
        exact List.mem_cons_self
    · exact Or.inl ⟨hin, hkept.1⟩
  · have hbefore : m.promises[ticket]? = some .pending := by
      rw [Semaphore.release] at hpending
      split at hpending
      · rename_i waiter later hwaiters
        by_cases hsame : waiter = ticket
        · subst hsame
          rw [List.getElem?_set] at hpending
          simp at hpending
        · rw [List.getElem?_set_ne hsame] at hpending
          exact hpending
      · exact hpending
    refine ⟨Or.inr hbefore, ?_⟩
    rintro rfl
    exact hnotPending hbefore

/-- Different tickets that hold slots are no more than the slots in use. -/
theorem Semaphore.Sound.length_le_active (h : m.Sound) {tickets : List ℕ} (hnodup : tickets.Nodup)
    (hholds : ∀ ticket ∈ tickets, m.Holds ticket) : (tickets.length : ℤ) ≤ m.active := by
  have hdisjoint : (tickets ++ m.released).Nodup :=
    List.Nodup.append hnodup h.once fun ticket hticket hreleased => (hholds ticket hticket).2 hreleased
  have hsubset : tickets ++ m.released ⊆ m.served := by
    intro ticket hticket
    rcases List.mem_append.mp hticket with hheld | hreleased
    · exact (hholds ticket hheld).1
    · exact h.held ticket hreleased
  have hlength := (hdisjoint.subperm hsubset).length_le
  have hcount := h.count
  rw [List.length_append] at hlength
  omega

/-- With no ticket holding a slot or waiting, the semaphore is back where it started. -/
theorem Semaphore.Sound.drained (h : m.Sound) (hfree : ∀ ticket, ¬ m.Open ticket) : m.active = 0 ∧ m.waiters = [] := by
  constructor
  · have hserved : m.served ⊆ m.released := by
      intro ticket hticket
      by_contra hkept
      exact hfree ticket (Or.inl ⟨hticket, hkept⟩)
    have hmost := (h.nodup_served.subperm hserved).length_le
    have hleast := (h.once.subperm h.held).length_le
    have hcount := h.count
    omega
  · refine List.eq_nil_iff_forall_not_mem.mpr fun ticket hticket => ?_
    exact hfree ticket (Or.inr ((h.queue ticket).mp hticket))

/-! ## What is never taken back -/

/-- A later state of the semaphore: it has served and got back no less, in the same order, and a waiter that timed
out stays rejected. -/
structure Semaphore.Grows (m later : Semaphore) : Prop where
  limit : later.limit = m.limit
  served : m.served <+: later.served
  released : m.released <+: later.released
  rejected : ∀ ticket : ℕ, m.promises[ticket]? = some .rejected → later.promises[ticket]? = some .rejected

theorem Semaphore.Grows.refl (m : Semaphore) : m.Grows m where
  limit := rfl
  served := List.prefix_rfl
  released := List.prefix_rfl
  rejected _ h := h

theorem Semaphore.Grows.trans {later last : Semaphore} (h : m.Grows later) (h' : later.Grows last) : m.Grows last where
  limit := h'.limit.trans h.limit
  served := h.served.trans h'.served
  released := h.released.trans h'.released
  rejected ticket hrejected := h'.rejected ticket (h.rejected ticket hrejected)

theorem grows_acquire (m : Semaphore) : m.Grows m.acquire := by
  rw [Semaphore.acquire]
  split
  · exact ⟨rfl, List.prefix_append _ _, List.prefix_rfl, fun ticket h => getElem?_concat_eq_some.mpr (Or.inl h)⟩
  · exact ⟨rfl, List.prefix_rfl, List.prefix_rfl, fun ticket h => getElem?_concat_eq_some.mpr (Or.inl h)⟩

/-- The promise of a waiter is settled, and no other. -/
theorem rejected_set_of_waiter (h : m.Sound) {waiter : ℕ} (hwaiter : waiter ∈ m.waiters) (promise : Promise)
    (hrejected : m.promises[ticket]? = some .rejected) : (m.promises.set waiter promise)[ticket]? = some .rejected := by
  have hne : waiter ≠ ticket := by
    rintro rfl
    rw [(h.queue waiter).mp hwaiter] at hrejected
    cases hrejected
  rw [List.getElem?_set_ne hne]
  exact hrejected

theorem grows_timeOut (h : m.Sound) (other : ℕ) : m.Grows (m.timeOut other) := by
  rw [Semaphore.timeOut]
  split
  · rename_i hwaiting
    exact ⟨rfl, List.prefix_rfl, List.prefix_rfl, fun ticket hrejected => rejected_set_of_waiter h hwaiting _ hrejected⟩
  · exact .refl m

theorem grows_release (h : m.Sound) (other : ℕ) : m.Grows (m.release other) := by
  rw [Semaphore.release]
  split
  · rename_i waiter later hwaiters
    have hwaiting : waiter ∈ m.waiters := by
      rw [hwaiters]
      exact List.mem_cons_self
    exact ⟨rfl, List.prefix_append _ _, List.prefix_append _ _,
      fun ticket hrejected => rejected_set_of_waiter h hwaiting _ hrejected⟩
  · exact ⟨rfl, List.prefix_rfl, List.prefix_append _ _, fun ticket hrejected => hrejected⟩

end FragmentMemory.FifoSemaphore
