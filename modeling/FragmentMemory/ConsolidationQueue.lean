import FragmentMemory.TransitionRuns
import Mathlib.Data.List.Range
import Mathlib.Algebra.BigOperators.Group.List.Basic
import Mathlib.Algebra.GroupWithZero.Nat

/-! # The consolidation queue

`MemoryConsolidator.consolidate` as a chain of promises: each call waits for the tail before it and hangs its own slot
behind that.  Promises settle and calls resume in any order that their dependencies allow, cycles end at any time with any
outcome, and calls arrive at any time.  Waiting times are left out.
-/
namespace FragmentMemory.ConsolidationQueue
open TransitionRuns

variable {ρ ε : Type*}

/-- Where a call stands: it awaits `previous`, its cycle runs, the cycle has an outcome, or the caller has its answer. -/
inductive Phase (ρ ε : Type*)
  | awaiting
  | cycle
  | ended (outcome : Except ε ρ)
  | settled (answer : Except ε (ρ × Bool))

def Phase.isAwaiting : Phase ρ ε → Bool
  | .awaiting => true
  | _ => false

def Phase.isCycle : Phase ρ ε → Bool
  | .cycle => true
  | _ => false

def Phase.isSettled : Phase ρ ε → Bool
  | .settled _ => true
  | _ => false

/-- The slot is taken from the start of the cycle to its release. -/
def Phase.holds : Phase ρ ε → Bool
  | .cycle | .ended _ => true
  | _ => false

theorem Phase.eq_awaiting {phase : Phase ρ ε} (h : phase.isAwaiting = true) : phase = .awaiting := by
  cases phase with
  | awaiting => rfl
  | cycle | ended | settled => cases h

theorem Phase.eq_cycle {phase : Phase ρ ε} (h : phase.isCycle = true) : phase = .cycle := by
  cases phase with
  | cycle => rfl
  | awaiting | ended | settled => cases h

/-- A settled call waits no more and has released the slot. -/
theorem Phase.of_isSettled {phase : Phase ρ ε} (h : phase.isSettled = true) :
    phase.isAwaiting = false ∧ phase.holds = false := by
  cases phase with
  | settled => exact ⟨rfl, rfl⟩
  | awaiting | cycle | ended => cases h

theorem Phase.isAwaiting_of_holds {phase : Phase ρ ε} (h : phase.holds = true) : phase.isAwaiting = false := by
  cases phase with
  | cycle | ended => rfl
  | awaiting | settled => cases h

/-- The promises and variables of one call; `tail` is `previous.then(() => slot)`. -/
structure Call (ρ ε : Type*) where
  queued : Bool
  previous : Bool := false
  slot : Bool := false
  tail : Bool := false
  phase : Phase ρ ε := .awaiting

/-- `CONSOLIDATION_QUEUE` with the calls in the order of their arrival, and as observations the cycles that have started and
the outcomes of those that have ended. -/
structure Queue (ρ ε : Type*) where
  calls : List (Call ρ ε) := []
  running : Bool := false
  waiting : ℕ := 0
  started : List ℕ := []
  ended : List (ℕ × Except ε ρ) := []

inductive Event (ρ ε : Type*)
  | call
  | previousSettles (i : ℕ)
  | tailSettles (i : ℕ)
  | resume (i : ℕ)
  | cycleSettles (i : ℕ) (outcome : Except ε ρ)
  | finish (i : ℕ)

def Event.isCall : Event ρ ε → Bool
  | .call => true
  | _ => false

/-- The tail that a call finds: the first one finds a resolved promise. -/
def Queue.tailBefore (s : Queue ρ ε) : ℕ → Bool
  | 0 => true
  | i + 1 => (s.calls[i]?).any Call.tail

def Queue.modify (s : Queue ρ ε) (i : ℕ) (f : Call ρ ε → Call ρ ε) : Queue ρ ε := { s with calls := s.calls.modify i f }

/-- What has to hold for an event to happen. -/
def enabled (s : Queue ρ ε) : Event ρ ε → Bool
  | .call => true
  | .previousSettles i => s.tailBefore i && (s.calls[i]?).any fun c => !c.previous
  | .tailSettles i => (s.calls[i]?).any fun c => c.previous && c.slot && !c.tail
  | .resume i => (s.calls[i]?).any fun c => c.previous && c.phase.isAwaiting
  | .cycleSettles i _ => (s.calls[i]?).any fun c => c.phase.isCycle
  | .finish i => (s.calls[i]?).any fun c => c.phase.holds && !c.phase.isCycle

/-- The answer of a caller: the result of its cycle with the flag `queued`, or the error of its cycle. -/
def Call.finished (c : Call ρ ε) : Call ρ ε :=
  match c.phase with
  | .ended outcome => { c with slot := true, phase := .settled (outcome.map fun result => (result, c.queued)) }
  | _ => c

/-- The synchronous code between two awaits. -/
def act (s : Queue ρ ε) : Event ρ ε → Queue ρ ε
  | .call =>
    { s with calls := s.calls ++ [{ queued := s.running || decide (0 < s.waiting) }], waiting := s.waiting + 1 }
  | .previousSettles i => s.modify i fun c => { c with previous := true }
  | .tailSettles i => s.modify i fun c => { c with tail := true }
  | .resume i =>
    { s.modify i fun c => { c with phase := .cycle } with
      waiting := s.waiting - 1, running := true, started := s.started ++ [i] }
  | .cycleSettles i outcome =>
    { s.modify i fun c => { c with phase := .ended outcome } with ended := s.ended ++ [(i, outcome)] }
  | .finish i => { s.modify i Call.finished with running := false }

def step (s : Queue ρ ε) (event : Event ρ ε) : Queue ρ ε := if enabled s event then act s event else s

/-- An invariant holds after a step when each event that is enabled keeps it. -/
theorem step_of_act {P : Queue ρ ε → Prop} {s : Queue ρ ε} {event : Event ρ ε} (h : P s)
    (hact : enabled s event = true → P (act s event)) : P (step s event) := by
  rw [step]
  split
  · exact hact ‹_›
  · exact h

theorem getElem?_modify_some {calls : List (Call ρ ε)} {i j : ℕ} {f : Call ρ ε → Call ρ ε} {d : Call ρ ε} :
    (calls.modify i f)[j]? = some d ↔ ∃ c, calls[j]? = some c ∧ d = if i = j then f c else c := by
  rw [List.getElem?_modify]
  constructor
  · intro h
    obtain ⟨c, hc, rfl⟩ := Option.map_eq_some_iff.mp h
    exact ⟨c, hc, rfl⟩
  · rintro ⟨c, hc, rfl⟩
    rw [hc]
    rfl

theorem getElem?_arrived {calls : List (Call ρ ε)} {c d : Call ρ ε} {i : ℕ} (h : (calls ++ [d])[i]? = some c) :
    calls[i]? = some c ∨ i = calls.length ∧ c = d := by
  rcases Nat.lt_or_ge i calls.length with hlt | hge
  · rw [List.getElem?_append_left hlt] at h
    exact Or.inl h
  · rw [List.getElem?_append_right hge] at h
    have hzero : i - calls.length = 0 := by
      by_contra hpos
      rw [List.getElem?_eq_none (by simp; omega)] at h
      cases h
    rw [hzero] at h
    exact Or.inr ⟨by omega, (Option.some.inj h).symm⟩

/-! ## The chain of promises -/

/-- What the promises of a call say about it. -/
structure Call.Consistent (c : Call ρ ε) : Prop where
  tail : c.tail = true → c.previous = true ∧ c.phase.isSettled = true
  past : c.phase.isAwaiting = false → c.previous = true
  slot : c.slot = c.phase.isSettled

def Queue.SettledBefore (s : Queue ρ ε) (i : ℕ) : Prop := ∀ j < i, ∃ d, s.calls[j]? = some d ∧ d.phase.isSettled = true

/-- A call whose `previous` has settled comes after settled calls only. -/
structure Chain (s : Queue ρ ε) : Prop where
  consistent : ∀ (i : ℕ) (c : Call ρ ε), s.calls[i]? = some c → c.Consistent
  before : ∀ (i : ℕ) (c : Call ρ ε), s.calls[i]? = some c → c.previous = true → s.SettledBefore i

/-- A change of one call that takes no settled phase back. -/
theorem chain_modify {s : Queue ρ ε} (h : Chain s) {i : ℕ} {f : Call ρ ε → Call ρ ε}
    (hchange : ∀ c, s.calls[i]? = some c → (f c).Consistent ∧
      (c.phase.isSettled = true → (f c).phase.isSettled = true) ∧ ((f c).previous = true → s.SettledBefore i)) :
    Chain (s.modify i f) := by
  constructor
  · intro k c hk
    obtain ⟨c₀, hc₀, rfl⟩ := getElem?_modify_some.mp hk
    split
    · rename_i hsame
      exact (hchange c₀ (hsame ▸ hc₀)).1
    · exact h.consistent k c₀ hc₀
  · intro k c hk hc j hj
    obtain ⟨c₀, hc₀, rfl⟩ := getElem?_modify_some.mp hk
    have hold : s.SettledBefore k := by
      by_cases hsame : i = k
      · subst hsame
        rw [if_pos rfl] at hc
        exact (hchange c₀ hc₀).2.2 hc
      · rw [if_neg hsame] at hc
        exact h.before k c₀ hc₀ hc
    obtain ⟨d, hd, hsettled⟩ := hold j hj
    refine ⟨if i = j then f d else d, getElem?_modify_some.mpr ⟨d, hd, rfl⟩, ?_⟩
    split
    · rename_i hij
      exact (hchange d (hij ▸ hd)).2.1 hsettled
    · exact hsettled

/-- What the tail before a call has waited for. -/
theorem settledBefore_of_tailBefore {s : Queue ρ ε} (h : Chain s) {i : ℕ} (htail : s.tailBefore i = true) :
    s.SettledBefore i := by
  cases i with
  | zero => exact fun j hj => absurd hj (Nat.not_lt_zero j)
  | succ i =>
    obtain ⟨d, hd, hdtail⟩ := (Option.any_eq_true _ _).mp htail
    obtain ⟨hprevious, hsettled⟩ := (h.consistent i d hd).tail hdtail
    intro j hj
    rcases Nat.lt_succ_iff_lt_or_eq.mp hj with hlt | rfl
    · exact h.before i d hd hprevious j hlt
    · exact ⟨d, hd, hsettled⟩

/-- A call before its end in another phase before its end. -/
theorem Call.Consistent.reopened {c : Call ρ ε} (h : c.Consistent) (hopen : c.phase.isSettled = false)
    (hprevious : c.previous = true) {phase : Phase ρ ε} (hphase : phase.isSettled = false) {d : Call ρ ε}
    (hd : d = { c with phase := phase }) : d.Consistent := by
  subst hd
  refine ⟨fun htail => ?_, fun _ => hprevious, ?_⟩
  · rw [(h.tail htail).2] at hopen
    cases hopen
  · rw [hphase, ← hopen]
    exact h.slot

/-- A call that can finish has the outcome of its cycle. -/
theorem ended_of_finishable {c : Call ρ ε} (h : (c.phase.holds && !c.phase.isCycle) = true) :
    ∃ outcome, c.phase = .ended outcome := by
  cases hphase : c.phase with
  | ended outcome => exact ⟨outcome, rfl⟩
  | awaiting => simp [hphase, Phase.holds] at h
  | cycle => simp [hphase, Phase.isCycle] at h
  | settled answer => simp [hphase, Phase.holds] at h

theorem chain_step {s : Queue ρ ε} (h : Chain s) (event : Event ρ ε) : Chain (step s event) := by
  refine step_of_act h fun henabled => ?_
  cases event with
  | call =>
    constructor
    · intro i c hc
      rcases getElem?_arrived hc with hold | ⟨-, rfl⟩
      · exact h.consistent i c hold
      · exact ⟨nofun, nofun, rfl⟩
    · intro i c hc hprevious j hj
      rcases getElem?_arrived hc with hold | ⟨-, rfl⟩
      · obtain ⟨d, hd, hsettled⟩ := h.before i c hold hprevious j hj
        exact ⟨d, List.getElem?_append_left (List.getElem?_eq_some_iff.mp hd).1 ▸ hd, hsettled⟩
      · cases hprevious
  | previousSettles i =>
    simp only [enabled, Bool.and_eq_true] at henabled
    refine chain_modify h fun c hc => ⟨?_, id, fun _ => settledBefore_of_tailBefore h henabled.1⟩
    have hconsistent := h.consistent i c hc
    exact ⟨fun htail => ⟨rfl, (hconsistent.tail htail).2⟩, fun _ => rfl, hconsistent.slot⟩
  | tailSettles i =>
    obtain ⟨c', hc', hcond⟩ := (Option.any_eq_true _ _).mp henabled
    simp only [Bool.and_eq_true] at hcond
    refine chain_modify h fun c hc => ?_
    obtain rfl : c' = c := Option.some.inj (hc'.symm.trans hc)
    have hconsistent := h.consistent i c' hc
    exact ⟨⟨fun _ => ⟨hcond.1.1, hconsistent.slot ▸ hcond.1.2⟩, hconsistent.past, hconsistent.slot⟩, id,
      h.before i c' hc⟩
  | resume i =>
    obtain ⟨c', hc', hcond⟩ := (Option.any_eq_true _ _).mp henabled
    simp only [Bool.and_eq_true] at hcond
    have hopen : c'.phase.isSettled = false := by
      rw [Phase.eq_awaiting hcond.2]
      rfl
    have hchain := @chain_modify _ _ s h i (fun c => { c with phase := .cycle }) fun c hc => by
      obtain rfl : c' = c := Option.some.inj (hc'.symm.trans hc)
      exact ⟨(h.consistent i c' hc).reopened hopen hcond.1 rfl rfl, fun hsettled => absurd hsettled (by simp [hopen]),
        h.before i c' hc⟩
    exact ⟨hchain.consistent, hchain.before⟩
  | cycleSettles i outcome =>
    obtain ⟨c', hc', hcond⟩ := (Option.any_eq_true _ _).mp henabled
    have hopen : c'.phase.isSettled = false := by
      rw [Phase.eq_cycle hcond]
      rfl
    have hpast : c'.phase.isAwaiting = false := by
      rw [Phase.eq_cycle hcond]
      rfl
    have hchain := @chain_modify _ _ s h i (fun c => { c with phase := .ended outcome }) fun c hc => by
      obtain rfl : c' = c := Option.some.inj (hc'.symm.trans hc)
      have hconsistent := h.consistent i c' hc
      exact ⟨hconsistent.reopened hopen (hconsistent.past hpast) rfl rfl,
        fun hsettled => absurd hsettled (by simp [hopen]),
        h.before i c' hc⟩
    exact ⟨hchain.consistent, hchain.before⟩
  | finish i =>
    obtain ⟨c', hc', hcond⟩ := (Option.any_eq_true _ _).mp henabled
    have hchain := @chain_modify _ _ s h i Call.finished fun c hc => by
      obtain rfl : c' = c := Option.some.inj (hc'.symm.trans hc)
      obtain ⟨outcome, hended⟩ := ended_of_finishable hcond
      have hprevious := (h.consistent i c' hc).past (by rw [hended]; rfl)
      simp only [Call.finished, hended]
      exact ⟨⟨fun _ => ⟨hprevious, rfl⟩, fun _ => hprevious, rfl⟩, fun _ => rfl, h.before i c' hc⟩
    exact ⟨hchain.consistent, hchain.before⟩

/-! ## Which cycles have started -/

/-- The cycles of the first calls have started, and the other calls wait. -/
structure Counted (s : Queue ρ ε) : Prop where
  inOrder : s.started = List.range s.started.length
  phase : ∀ (i : ℕ) (c : Call ρ ε), s.calls[i]? = some c → (c.phase.isAwaiting = false ↔ i < s.started.length)
  waiting : s.waiting + s.started.length = s.calls.length

/-- A change of one call that leaves it waiting or not waiting. -/
theorem counted_modify {s : Queue ρ ε} (h : Counted s) {i : ℕ} {f : Call ρ ε → Call ρ ε}
    (hsame : ∀ c, s.calls[i]? = some c → (f c).phase.isAwaiting = c.phase.isAwaiting) : Counted (s.modify i f) := by
  refine ⟨h.inOrder, fun k c hk => ?_, ?_⟩
  · obtain ⟨c₀, hc₀, rfl⟩ := getElem?_modify_some.mp hk
    have hphase := h.phase k c₀ hc₀
    split
    · rename_i hik
      rw [hsame c₀ (hik ▸ hc₀)]
      exact hphase
    · exact hphase
  · have hlength : (s.modify i f).calls.length = s.calls.length := List.length_modify f _ i
    rw [hlength]
    exact h.waiting

theorem counted_step {s : Queue ρ ε} (hchain : Chain s) (h : Counted s) (event : Event ρ ε) :
    Counted (step s event) := by
  refine step_of_act h fun henabled => ?_
  cases event with
  | call =>
    refine ⟨h.inOrder, fun i c hc => ?_, ?_⟩
    · rcases getElem?_arrived hc with hold | ⟨rfl, rfl⟩
      · exact h.phase i c hold
      · have hwaiting := h.waiting
        refine iff_of_false Bool.false_ne_true.symm fun hlt => ?_
        have hstarted : s.calls.length < s.started.length := hlt
        omega
    · have hwaiting := h.waiting
      simp only [act, List.length_append, List.length_singleton]
      omega
  | previousSettles i => exact counted_modify h fun _ _ => rfl
  | tailSettles i => exact counted_modify h fun _ _ => rfl
  | resume i =>
    obtain ⟨c, hc, hcond⟩ := (Option.any_eq_true _ _).mp henabled
    simp only [Bool.and_eq_true] at hcond
    have hlt : i < s.calls.length := (List.getElem?_eq_some_iff.mp hc).1
    have hwaiting := h.waiting
    -- All calls before this one have started, and this one has not.
    have hplace : i = s.started.length := by
      have hnot : ¬ i < s.started.length := fun hstarted => by
        rw [(h.phase i c hc).mpr hstarted] at hcond
        cases hcond.2
      by_contra hne
      obtain ⟨d, hd, hsettled⟩ := hchain.before i c hc hcond.1 s.started.length (by omega)
      have hpast : d.phase.isAwaiting = false := (Phase.of_isSettled hsettled).1
      exact absurd ((h.phase _ d hd).mp hpast) (Nat.lt_irrefl _)
    refine ⟨?_, fun k d hk => ?_, ?_⟩
    · simp only [act, List.length_append, List.length_singleton, List.range_succ, ← hplace]
      rw [hplace, ← h.inOrder]
    · obtain ⟨d₀, hd₀, rfl⟩ := getElem?_modify_some.mp hk
      have hphase := h.phase k d₀ hd₀
      simp only [act, List.length_append, List.length_singleton]
      split
      · exact iff_of_true rfl (by omega)
      · rw [hphase]
        omega
    · simp only [act, Queue.modify, List.length_append, List.length_singleton, List.length_modify]
      omega
  | cycleSettles i outcome =>
    obtain ⟨c', hc', hcond⟩ := (Option.any_eq_true _ _).mp henabled
    have hcounted := @counted_modify _ _ s h i (fun c => { c with phase := .ended outcome }) fun c hc => by
      obtain rfl : c' = c := Option.some.inj (hc'.symm.trans hc)
      rw [Phase.eq_cycle hcond]
      rfl
    exact ⟨hcounted.inOrder, hcounted.phase, hcounted.waiting⟩
  | finish i =>
    obtain ⟨c', hc', hcond⟩ := (Option.any_eq_true _ _).mp henabled
    have hcounted := @counted_modify _ _ s h i Call.finished fun c hc => by
      obtain rfl : c' = c := Option.some.inj (hc'.symm.trans hc)
      obtain ⟨outcome, hended⟩ := ended_of_finishable hcond
      simp only [Call.finished, hended]
      rfl
    exact ⟨hcounted.inOrder, hcounted.phase, hcounted.waiting⟩

/-! ## Which cycle runs -/

/-- The call whose cycle runs, or has ended without having released its slot. -/
def Queue.Holds (s : Queue ρ ε) (i : ℕ) : Prop := ∃ c, s.calls[i]? = some c ∧ c.phase.holds = true

/-- Of two calls that hold the slot the later one would come after a settled call. -/
theorem eq_of_holds {s : Queue ρ ε} (h : Chain s) {i j : ℕ} (hi : s.Holds i) (hj : s.Holds j) : i = j := by
  have hnot : ∀ {i j : ℕ}, s.Holds i → s.Holds j → ¬ i < j := by
    rintro i j ⟨c, hc, hcholds⟩ ⟨d, hd, hdholds⟩ hlt
    have hpast : d.phase.isAwaiting = false := Phase.isAwaiting_of_holds hdholds
    obtain ⟨c', hc', hsettled⟩ := h.before j d hd ((h.consistent j d hd).past hpast) i hlt
    obtain rfl : c = c' := Option.some.inj (hc.symm.trans hc')
    rw [(Phase.of_isSettled hsettled).2] at hcholds
    cases hcholds
  have hij := hnot hi hj
  have hji := hnot hj hi
  omega

/-- The flag says whether some call holds the slot. -/
def Flagged (s : Queue ρ ε) : Prop := s.running = true ↔ ∃ i, s.Holds i

/-- A change of one call that keeps or leaves the slot. -/
theorem holds_modify {s : Queue ρ ε} {i : ℕ} {f : Call ρ ε → Call ρ ε}
    (hsame : ∀ c, s.calls[i]? = some c → (f c).phase.holds = c.phase.holds) (k : ℕ) : (s.modify i f).Holds k ↔
    s.Holds k := by
  constructor
  · rintro ⟨c, hc, hholds⟩
    obtain ⟨c₀, hc₀, rfl⟩ := getElem?_modify_some.mp hc
    refine ⟨c₀, hc₀, ?_⟩
    split at hholds
    · rename_i hik
      rw [hsame c₀ (hik ▸ hc₀)] at hholds
      exact hholds
    · exact hholds
  · rintro ⟨c₀, hc₀, hholds⟩
    refine ⟨_, getElem?_modify_some.mpr ⟨c₀, hc₀, rfl⟩, ?_⟩
    split
    · rename_i hik
      rw [hsame c₀ (hik ▸ hc₀)]
      exact hholds
    · exact hholds

theorem flagged_step {s : Queue ρ ε} (hchain : Chain s) (h : Flagged s) (event : Event ρ ε) :
    Flagged (step s event) := by
  refine step_of_act h fun henabled => ?_
  cases event with
  | call =>
    refine h.trans (exists_congr fun i => ⟨?_, ?_⟩)
    · rintro ⟨c, hc, hholds⟩
      exact ⟨c, List.getElem?_append_left (List.getElem?_eq_some_iff.mp hc).1 ▸ hc, hholds⟩
    · rintro ⟨c, hc, hholds⟩
      rcases getElem?_arrived hc with hold | ⟨-, rfl⟩
      · exact ⟨c, hold, hholds⟩
      · cases hholds
  | previousSettles i =>
    have hholds := @holds_modify _ _ s i (fun c => { c with previous := true }) fun _ _ => rfl
    exact h.trans (exists_congr fun k => (hholds k).symm)
  | tailSettles i =>
    have hholds := @holds_modify _ _ s i (fun c => { c with tail := true }) fun _ _ => rfl
    exact h.trans (exists_congr fun k => (hholds k).symm)
  | resume i =>
    obtain ⟨c, hc, -⟩ := (Option.any_eq_true _ _).mp henabled
    refine iff_of_true rfl ⟨i, { c with phase := .cycle }, getElem?_modify_some.mpr ⟨c, hc, ?_⟩, rfl⟩
    rw [if_pos rfl]
  | cycleSettles i outcome =>
    obtain ⟨c', hc', hcond⟩ := (Option.any_eq_true _ _).mp henabled
    have hholds := @holds_modify _ _ s i (fun c => { c with phase := .ended outcome }) fun c hc => by
      obtain rfl : c' = c := Option.some.inj (hc'.symm.trans hc)
      rw [Phase.eq_cycle hcond]
      rfl
    exact h.trans (exists_congr fun k => (hholds k).symm)
  | finish i =>
    obtain ⟨c', hc', hcond⟩ := (Option.any_eq_true _ _).mp henabled
    obtain ⟨outcome, hended⟩ := ended_of_finishable hcond
    rw [Bool.and_eq_true] at hcond
    refine iff_of_false Bool.false_ne_true ?_
    rintro ⟨k, c, hc, hholds⟩
    obtain ⟨c₀, hc₀, rfl⟩ := getElem?_modify_some.mp hc
    -- Only this call held the slot, and it has released it.
    split at hholds
    · rename_i hik
      obtain rfl : c' = c₀ := Option.some.inj (hc'.symm.trans (hik ▸ hc₀))
      simp only [Call.finished, hended] at hholds
      cases hholds
    · rename_i hik
      exact hik (eq_of_holds hchain ⟨c', hc', hcond.1⟩ ⟨c₀, hc₀, hholds⟩)

/-! ## Whose outcome a caller gets -/

/-- The outcomes with which the cycle of a call has ended. -/
def Queue.outcomesOf (s : Queue ρ ε) (i : ℕ) : List (Except ε ρ) := (s.ended.filter fun e => e.1 = i).map Prod.snd

/-- A cycle ends once, and the caller gets its outcome. -/
def Call.Recorded (c : Call ρ ε) (outcomes : List (Except ε ρ)) : Prop :=
  match c.phase with
  | .awaiting | .cycle => outcomes = []
  | .ended outcome => outcomes = [outcome]
  | .settled answer => ∃ outcome, outcomes = [outcome] ∧ answer = outcome.map fun result => (result, c.queued)

structure Answered (s : Queue ρ ε) : Prop where
  recorded : ∀ (i : ℕ) (c : Call ρ ε), s.calls[i]? = some c → c.Recorded (s.outcomesOf i)
  arrived : ∀ e ∈ s.ended, e.1 < s.calls.length

/-- A change of one call that suits what is recorded of it. -/
theorem answered_modify {s : Queue ρ ε} (h : Answered s) {i : ℕ} {f : Call ρ ε → Call ρ ε}
    (hchange : ∀ c, s.calls[i]? = some c → c.Recorded (s.outcomesOf i) → (f c).Recorded (s.outcomesOf i)) :
    Answered (s.modify i f) := by
  refine ⟨fun k c hk => ?_, fun e he => ?_⟩
  · obtain ⟨c₀, hc₀, rfl⟩ := getElem?_modify_some.mp hk
    have hrecorded := h.recorded k c₀ hc₀
    split
    · rename_i hik
      subst hik
      exact hchange c₀ hc₀ hrecorded
    · exact hrecorded
  · have hlength : (s.modify i f).calls.length = s.calls.length := List.length_modify f _ i
    rw [hlength]
    exact h.arrived e he

theorem answered_step {s : Queue ρ ε} (h : Answered s) (event : Event ρ ε) : Answered (step s event) := by
  refine step_of_act h fun henabled => ?_
  cases event with
  | call =>
    refine ⟨fun i c hc => ?_, fun e he => ?_⟩
    · rcases getElem?_arrived hc with hold | ⟨rfl, rfl⟩
      · exact h.recorded i c hold
      · have hnone : s.outcomesOf s.calls.length = [] := by
          refine List.map_eq_nil_iff.mpr (List.filter_eq_nil_iff.mpr fun e he hsame => ?_)
          have harrived := h.arrived e he
          rw [of_decide_eq_true hsame] at harrived
          exact Nat.lt_irrefl _ harrived
        exact hnone
    · have harrived := h.arrived e he
      simp only [act, List.length_append, List.length_singleton]
      omega
  | previousSettles i => exact answered_modify h fun _ _ hrecorded => hrecorded
  | tailSettles i => exact answered_modify h fun _ _ hrecorded => hrecorded
  | resume i =>
    obtain ⟨c', hc', hcond⟩ := (Option.any_eq_true _ _).mp henabled
    have hanswered := @answered_modify _ _ s h i (fun c => { c with phase := .cycle }) fun c hc hrecorded => by
      obtain rfl : c' = c := Option.some.inj (hc'.symm.trans hc)
      cases hphase : c'.phase <;> simp_all [Phase.isAwaiting, Call.Recorded]
    exact ⟨hanswered.recorded, hanswered.arrived⟩
  | cycleSettles i outcome =>
    obtain ⟨c', hc', hcond⟩ := (Option.any_eq_true _ _).mp henabled
    have hnone : s.outcomesOf i = [] := by
      have hrecorded := h.recorded i c' hc'
      cases hphase : c'.phase <;> simp_all [Phase.isCycle, Call.Recorded]
    have houtcomes : ∀ k, Queue.outcomesOf (act s (.cycleSettles i outcome)) k =
        s.outcomesOf k ++ if i = k then [outcome] else [] := by
      intro k
      simp only [Queue.outcomesOf, act, List.filter_append, List.map_append]
      by_cases hik : i = k
      · simp [hik]
      · simp [hik]
    refine ⟨fun k c hk => ?_, fun e he => ?_⟩
    · obtain ⟨c₀, hc₀, rfl⟩ := getElem?_modify_some.mp hk
      rw [houtcomes]
      split
      · rename_i hik
        subst hik
        rw [hnone, List.nil_append]
        rfl
      · rw [List.append_nil]
        exact h.recorded k c₀ hc₀
    · simp only [act, Queue.modify, List.length_modify]
      rcases List.mem_append.mp he with hold | hnew
      · exact h.arrived e hold
      · rw [List.mem_singleton.mp hnew]
        exact (List.getElem?_eq_some_iff.mp hc').1
  | finish i =>
    obtain ⟨c', hc', hcond⟩ := (Option.any_eq_true _ _).mp henabled
    obtain ⟨outcome, hended⟩ := ended_of_finishable hcond
    have hanswered := @answered_modify _ _ s h i Call.finished fun c hc hrecorded => by
      obtain rfl : c' = c := Option.some.inj (hc'.symm.trans hc)
      simp only [Call.Recorded, hended] at hrecorded
      simp only [Call.finished, hended, Call.Recorded]
      exact ⟨outcome, hrecorded, rfl⟩
    exact ⟨hanswered.recorded, hanswered.arrived⟩

/-! ## No call is stuck -/

/-- No promise is left to settle, no call to resume or to finish, and no cycle runs. -/
structure Queue.Drained (s : Queue ρ ε) : Prop where
  noEvent : ∀ event : Event ρ ε, event.isCall = false → enabled s event = false
  noCycle : ∀ (i : ℕ) (c : Call ρ ε), s.calls[i]? = some c → c.phase.isCycle = false

/-- The first call that has no answer could always go on. -/
theorem settled_of_drained {s : Queue ρ ε} (h : Chain s) (hdrained : s.Drained) (i : ℕ) :
    ∀ c, s.calls[i]? = some c → c.phase.isSettled = true := by
  induction i using Nat.strong_induction_on with
  | _ i ih =>
    intro c hc
    have hany : ∀ p : Call ρ ε → Bool, p c = true → (s.calls[i]?).any p = true := fun p hp =>
      (Option.any_eq_true _ _).mpr ⟨c, hc, hp⟩
    have hconsistent := h.consistent i c hc
    cases hphase : c.phase with
    | settled answer => rfl
    | cycle =>
      have hnone := hdrained.noCycle i c hc
      rw [hphase] at hnone
      cases hnone
    | ended outcome =>
      have hstuck := hdrained.noEvent (.finish i) rfl
      rw [enabled, hany _ (by rw [hphase]; rfl)] at hstuck
      cases hstuck
    | awaiting =>
      exfalso
      cases hprevious : c.previous with
      | true =>
        have hstuck := hdrained.noEvent (.resume i) rfl
        rw [enabled, hany _ (by rw [hprevious, hphase]; rfl)] at hstuck
        cases hstuck
      | false =>
        have htail : s.tailBefore i = true := by
          cases i with
          | zero => rfl
          | succ j =>
            obtain ⟨d, hd⟩ : ∃ d, s.calls[j]? = some d :=
              ⟨_, List.getElem?_eq_getElem (Nat.lt_of_succ_lt (List.getElem?_eq_some_iff.mp hc).1)⟩
            have hsettled := ih j (Nat.lt_succ_self j) d hd
            have hpast : d.phase.isAwaiting = false := by
              cases hdphase : d.phase <;> simp_all [Phase.isAwaiting, Phase.isSettled]
            have hdconsistent := h.consistent j d hd
            refine (Option.any_eq_true _ _).mpr ⟨d, hd, ?_⟩
            by_contra hopen
            have hstuck := hdrained.noEvent (.tailSettles j) rfl
            rw [enabled, (Option.any_eq_true _ _).mpr ⟨d, hd, by
              rw [hdconsistent.past hpast, hdconsistent.slot, hsettled, Bool.eq_false_iff.mpr hopen]
              rfl⟩] at hstuck
            cases hstuck
        have hstuck := hdrained.noEvent (.previousSettles i) rfl
        rw [enabled, htail, hany _ (by rw [hprevious]; rfl)] at hstuck
        cases hstuck

/-- How many events a call still has before it. -/
def Call.todo (c : Call ρ ε) : ℕ :=
  (if c.previous then 0 else 1) + (if c.tail then 0 else 1) +
    match c.phase with
    | .awaiting => 3
    | .cycle => 2
    | .ended _ => 1
    | .settled _ => 0

def Queue.todo (s : Queue ρ ε) : ℕ := (s.calls.map Call.todo).sum

theorem todo_modify {calls : List (Call ρ ε)} {i : ℕ} {f : Call ρ ε → Call ρ ε} {c : Call ρ ε} (hc : calls[i]? = some c)
    (hless : (f c).todo + 1 = c.todo) : ((calls.modify i f).map Call.todo).sum + 1 = (calls.map Call.todo).sum := by
  induction calls generalizing i with
  | nil => cases hc
  | cons first later ih =>
    cases i with
    | zero =>
      obtain rfl : first = c := Option.some.inj hc
      rw [List.modify_zero_cons, List.map_cons, List.map_cons, List.sum_cons, List.sum_cons]
      omega
    | succ i =>
      have hlater := ih hc
      rw [List.modify_succ_cons, List.map_cons, List.map_cons, List.sum_cons, List.sum_cons]
      omega

/-- An arrival brings a call with five events before it, and each other event is one of those. -/
theorem todo_step {s : Queue ρ ε} {event : Event ρ ε} (henabled : enabled s event = true) :
    1 + (step s event).todo + 6 * s.calls.length = s.todo + 6 * (step s event).calls.length := by
  rw [step, if_pos henabled]
  cases event with
  | call =>
    simp only [act, Queue.todo, List.map_append, List.sum_append, List.length_append, List.length_singleton,
      List.map_cons,
      List.map_nil, List.sum_cons, List.sum_nil, Call.todo, Bool.false_eq_true, if_false]
    omega
  | previousSettles i =>
    simp only [enabled, Bool.and_eq_true] at henabled
    obtain ⟨c, hc, hcond⟩ := (Option.any_eq_true _ _).mp henabled.2
    have hless := @todo_modify _ _ s.calls i (fun c => { c with previous := true }) c hc (by
      rw [Bool.not_eq_true'] at hcond
      simp only [Call.todo, hcond, if_true, Bool.false_eq_true, if_false]
      omega)
    simp only [act, Queue.modify, Queue.todo, List.length_modify]
    omega
  | tailSettles i =>
    obtain ⟨c, hc, hcond⟩ := (Option.any_eq_true _ _).mp henabled
    have hless := @todo_modify _ _ s.calls i (fun c => { c with tail := true }) c hc (by
      rw [Bool.and_eq_true, Bool.not_eq_true'] at hcond
      simp only [Call.todo, hcond.2, if_true, Bool.false_eq_true, if_false]
      omega)
    simp only [act, Queue.modify, Queue.todo, List.length_modify]
    omega
  | resume i =>
    obtain ⟨c, hc, hcond⟩ := (Option.any_eq_true _ _).mp henabled
    have hless := @todo_modify _ _ s.calls i (fun c => { c with phase := .cycle }) c hc (by
      cases hphase : c.phase <;> simp_all [Phase.isAwaiting, Call.todo])
    simp only [act, Queue.modify, Queue.todo, List.length_modify]
    omega
  | cycleSettles i outcome =>
    obtain ⟨c, hc, hcond⟩ := (Option.any_eq_true _ _).mp henabled
    have hless := @todo_modify _ _ s.calls i (fun c => { c with phase := .ended outcome }) c hc (by
      cases hphase : c.phase <;> simp_all [Phase.isCycle, Call.todo])
    simp only [act, Queue.modify, Queue.todo, List.length_modify]
    omega
  | finish i =>
    obtain ⟨c, hc, hcond⟩ := (Option.any_eq_true _ _).mp henabled
    obtain ⟨outcome, hended⟩ := ended_of_finishable hcond
    have hless := @todo_modify _ _ s.calls i Call.finished c hc (by
      simp only [Call.todo, Call.finished, hended])
    simp only [act, Queue.modify, Queue.todo, List.length_modify]
    omega

theorem todo_run {s : Queue ρ ε} {events : List (Event ρ ε)}
    (h : StepsMeet step (fun state event => enabled state event = true) s events) :
    events.length + (run step s events).todo + 6 * s.calls.length = s.todo + 6 * (run step s events).calls.length := by
  induction events generalizing s with
  | nil => simp
  | cons event later ih =>
    have hstep := todo_step h.1
    have hlater := ih h.2
    simp only [List.length_cons, run_cons]
    omega

/-! ## Every interleaving -/

/-- At most one call holds the slot; cycles have started in the order of the calls, each once; a caller has the outcome of
the one end of its own cycle; where nothing can happen any more every call has its answer, and then nobody waits, nothing
runs and every cycle has run. -/
structure Orderly (s : Queue ρ ε) : Prop where
  exclusive : ∀ i j, s.Holds i → s.Holds j → i = j
  inOrder : s.started = List.range s.started.length
  once : ∀ (i : ℕ) (c : Call ρ ε), s.calls[i]? = some c → (s.started.count i = 1 ↔ c.phase.isAwaiting = false)
  own : ∀ (i : ℕ) (c : Call ρ ε) answer, s.calls[i]? = some c → c.phase = .settled answer →
    ∃ outcome, s.outcomesOf i = [outcome] ∧ answer = outcome.map fun result => (result, c.queued)
  live : s.Drained → ∀ c ∈ s.calls, c.phase.isSettled = true
  quiet : (∀ c ∈ s.calls, c.phase.isSettled = true) →
    s.waiting = 0 ∧ s.running = false ∧ s.started = List.range s.calls.length

structure Sound (s : Queue ρ ε) : Prop where
  chain : Chain s
  counted : Counted s
  flagged : Flagged s
  answered : Answered s

theorem sound_run (events : List (Event ρ ε)) : Sound (run step {} events) := by
  refine invariant_run (fun s event h => ?_) ?_ events
  · exact ⟨chain_step h.chain event, counted_step h.chain h.counted event, flagged_step h.chain h.flagged event,
      answered_step h.answered event⟩
  · refine ⟨⟨nofun, nofun⟩, ⟨rfl, nofun, rfl⟩, iff_of_false Bool.false_ne_true ?_, ⟨nofun, nofun⟩⟩
    rintro ⟨i, c, hc, -⟩
    cases hc

theorem Sound.orderly {s : Queue ρ ε} (h : Sound s) : Orderly s where
  exclusive i j := eq_of_holds h.chain
  inOrder := h.counted.inOrder
  once i c hc := by
    rw [h.counted.phase i c hc, h.counted.inOrder, List.length_range, List.nodup_range.count, ← List.mem_range]
    split
    · exact iff_of_true rfl ‹_›
    · exact iff_of_false (by decide) ‹_›
  own i c answer hc hsettled := by
    have hrecorded := h.answered.recorded i c hc
    rw [Call.Recorded, hsettled] at hrecorded
    exact hrecorded
  live hdrained c hc := by
    obtain ⟨i, hi⟩ := List.mem_iff_getElem?.mp hc
    exact settled_of_drained h.chain hdrained i c hi
  quiet hsettled := by
    have hall : s.started.length = s.calls.length := by
      have hwaiting := h.counted.waiting
      by_contra hne
      have hlt : s.started.length < s.calls.length := by omega
      have hfirst := List.getElem?_eq_getElem hlt
      have hdone := hsettled _ (List.getElem_mem hlt)
      have hpast : (s.calls[s.started.length]).phase.isAwaiting = false := by
        exact (Phase.of_isSettled hdone).1
      exact absurd ((h.counted.phase _ _ hfirst).mp hpast) (Nat.lt_irrefl _)
    have hwaiting := h.counted.waiting
    refine ⟨by omega, ?_, hall ▸ h.counted.inOrder⟩
    rw [Bool.eq_false_iff]
    intro hrunning
    obtain ⟨i, c, hc, hholds⟩ := h.flagged.mp hrunning
    have hdone := hsettled c (List.mem_of_getElem? hc)
    rw [(Phase.of_isSettled hdone).2] at hholds
    cases hholds

/-- A run from the empty queue is orderly after every event, and between arrivals only finitely much can happen. -/
structure OrderlyRun (events : List (Event ρ ε)) : Prop where
  orderly : ∀ before after, events = before ++ after → Orderly (run step {} before)
  finite : StepsMeet step (fun s event => enabled s event = true) {} events →
    events.length ≤ 6 * (run step {} events).calls.length

/-- Every interleaving of arrivals, settlements and turns. -/
theorem consolidate_orderly (events : List (Event ρ ε)) : OrderlyRun events := by
  refine ⟨fun before _ _ => (sound_run before).orderly, fun henabled => ?_⟩
  have htodo := todo_run henabled
  simp only [Queue.todo, List.map_nil, List.sum_nil, List.length_nil] at htodo
  omega

/-- A rejected cycle makes way for the next one. -/
example : (run step ({} : Queue ℕ String) [.call, .call, .previousSettles 0, .resume 0, .cycleSettles 0 (.error "timeout"),
    .finish 0, .tailSettles 0, .previousSettles 1, .resume 1]).started = [0, 1] := rfl

end FragmentMemory.ConsolidationQueue
