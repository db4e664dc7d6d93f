import FragmentMemory.FifoSemaphore
import FragmentMemory.TransitionRuns

/-! # dispatchChain

Calls of `dispatchChain` over chains of providers, interleaved in any order with each other, with the timers of
their semaphores and with the answers of their providers.  `getSemaphore` keeps one semaphore for each chain key,
with the limit that it was created with.
-/
namespace FragmentMemory.DispatchChain
open FifoSemaphore TransitionRuns

/-- The key of a semaphore, from the provider, its base URL, its model and its API key. -/
abbrev ChainKey := String

structure Provider where
  name : String
  chainKey : ChainKey

structure Settings where
  concurrencyEnabled : Bool := true
  chainTimeoutMs : ℕ := 0
  getLimit : ChainKey → String → ℕ

/-- How the promise of `callJson` settles; an error without a message throws in the `catch`. -/
inductive Answer | resolved | failed | failedWithoutMessage

/-- Where a call is: at the head of its loop, or at one of the two promises that it waits for. -/
inductive Phase
  | trying (providers : List Provider)
  | acquiring (provider : Provider) (ticket : ℕ) (later : List Provider)
  | calling (provider : Provider) (ticket : ℕ) (later : List Provider)
  /-- `callJson` without a semaphore. -/
  | unguarded (provider : Provider) (later : List Provider)
  | settled (resolved : Bool)

/-- The ticket of an `acquire` whose slot, if it gets one, is still to be given back. -/
def Phase.ticket : Phase → Option (ChainKey × ℕ)
  | .acquiring provider ticket _ | .calling provider ticket _ => some (provider.chainKey, ticket)
  | _ => none

/-- A call; without a start there is no deadline. -/
structure Entry where
  startedAt : Option ℤ
  phase : Phase

structure State where
  now : ℤ
  semaphores : ChainKey → Option Semaphore
  calls : ℕ → Option Entry

def idle (now : ℤ) : State where
  now := now
  semaphores := fun _ => none
  calls := fun _ => none

inductive Event
  /-- `Date.now()` shows another time. -/
  | clock (now : ℤ)
  | start (i : ℕ) (chain : List Provider) (startedAt : Option ℤ)
  /-- A call runs to its next promise. -/
  | proceeds (i : ℕ)
  /-- The timer of a waiter fires. -/
  | timesOut (key : ChainKey) (ticket : ℕ)
  | answers (i : ℕ) (answer : Answer)

variable (settings : Settings)

namespace State

/-- `remainingMs() <= 0`. -/
def expired (s : State) (entry : Entry) : Bool :=
  0 < settings.chainTimeoutMs &&
    entry.startedAt.any fun startedAt => (settings.chainTimeoutMs : ℤ) - (s.now - startedAt) ≤ 0

def getSemaphore (s : State) (provider : Provider) : Semaphore :=
  (s.semaphores provider.chainKey).getD
    (createSemaphore (settings.getLimit provider.chainKey provider.name))

/-- The call waits for its next promise. -/
def advance (s : State) (i : ℕ) (entry : Entry) (phase : Phase) : State :=
  { s with calls := Function.update s.calls i (some { entry with phase := phase }) }

/-- The call goes on after its `finally`. -/
def release (s : State) (i : ℕ) (entry : Entry) (provider : Provider) (ticket : ℕ) (phase : Phase) : State :=
  { s.advance i entry phase with
    semaphores := Function.update s.semaphores provider.chainKey
      ((s.semaphores provider.chainKey).map fun m => m.release ticket) }

/-- The head of the loop. -/
def attempt (s : State) (i : ℕ) (entry : Entry) : List Provider → State
  | [] => s.advance i entry (.settled false)
  | provider :: later =>
    if s.expired settings entry then s.advance i entry (.settled false)
    else if settings.concurrencyEnabled then
      let m := s.getSemaphore settings provider
      { s.advance i entry (.acquiring provider m.next later) with
        semaphores := Function.update s.semaphores provider.chainKey (some m.acquire) }
    else s.advance i entry (.unguarded provider later)

/-- After `await sem.acquire`, once its promise is settled. -/
def resume (s : State) (i : ℕ) (entry : Entry) (provider : Provider) (ticket : ℕ) (later : List Provider) : State :=
  match (s.semaphores provider.chainKey).bind fun m => m.promises[ticket]? with
  | some .resolved =>
    if s.expired settings entry then s.release i entry provider ticket (.trying later)
    else s.advance i entry (.calling provider ticket later)
  | some .rejected =>
    s.advance i entry (if s.expired settings entry then .settled false else .trying later)
  | _ => s

def proceed (s : State) (i : ℕ) (entry : Entry) : State :=
  match entry.phase with
  | .trying providers => s.attempt settings i entry providers
  | .acquiring provider ticket later => s.resume settings i entry provider ticket later
  | .calling _ _ _ | .unguarded _ _ | .settled _ => s

/-- Where a call goes on after an answer. -/
def afterAnswer (later : List Provider) : Answer → Phase
  | .resolved => .settled true
  | .failed => .trying later
  | .failedWithoutMessage => .settled false

def answer (s : State) (i : ℕ) (entry : Entry) (given : Answer) : State :=
  match entry.phase with
  | .calling provider ticket later => s.release i entry provider ticket (afterAnswer later given)
  | .unguarded _ later => s.advance i entry (afterAnswer later given)
  | .trying _ | .acquiring _ _ _ | .settled _ => s

/-- `dispatchChain`, which throws for an empty chain. -/
def start (s : State) (i : ℕ) (chain : List Provider) (startedAt : Option ℤ) : State :=
  if (s.calls i).isSome then s
  else s.advance i { startedAt := startedAt, phase := .trying chain }
    (if chain.isEmpty then .settled false else .trying chain)

end State

def step (s : State) : Event → State
  | .clock now => { s with now := now }
  | .start i chain startedAt => s.start i chain startedAt
  | .proceeds i => (s.calls i).elim s fun entry => s.proceed settings i entry
  | .timesOut key ticket =>
    { s with semaphores := Function.update s.semaphores key ((s.semaphores key).map fun m => m.timeOut ticket) }
  | .answers i given => (s.calls i).elim s fun entry => s.answer i entry given

/-- A provider call of this key is under way. -/
def InFlight (s : State) (key : ChainKey) (i : ℕ) : Prop :=
  ∃ entry provider later, s.calls i = some entry ∧ provider.chainKey = key ∧
    ((∃ ticket, entry.phase = .calling provider ticket later) ∨ entry.phase = .unguarded provider later)

/-! ## What a step can do -/

/-- The steps of a state: a call leaves its phase without a slot to give back, takes a ticket, goes on with the
slot that it got, or gives it back. -/
inductive Moves (s : State) : State → Prop
  | same : Moves s s
  | time (now : ℤ) : Moves s { s with now := now }
  | started (i : ℕ) (entry : Entry) (phase : Phase) (hnew : s.calls i = none) (hticket : phase.ticket = none)
      (hguarded : ∀ provider later, phase ≠ .unguarded provider later) : Moves s (s.advance i entry phase)
  | plain (i : ℕ) (entry : Entry) (phase : Phase) (hcall : s.calls i = some entry) (hticket : phase.ticket = none)
      (hsettled : ∀ key ticket, entry.phase.ticket = some (key, ticket) →
        ∃ m, s.semaphores key = some m ∧ m.promises[ticket]? = some .rejected)
      (hguarded : ∀ provider later, phase = .unguarded provider later → settings.concurrencyEnabled = false) :
      Moves s (s.advance i entry phase)
  | acquired (i : ℕ) (entry : Entry) (provider : Provider) (later : List Provider) (hcall : s.calls i = some entry)
      (hticket : entry.phase.ticket = none) (henabled : settings.concurrencyEnabled = true) :
      Moves s { s.advance i entry (.acquiring provider (s.getSemaphore settings provider).next later) with
        semaphores := Function.update s.semaphores provider.chainKey (some (s.getSemaphore settings provider).acquire) }
  | called (i : ℕ) (entry : Entry) (provider : Provider) (ticket : ℕ) (later : List Provider) (m : Semaphore)
      (hcall : s.calls i = some entry) (hphase : entry.phase = .acquiring provider ticket later)
      (hm : s.semaphores provider.chainKey = some m) (hresolved : m.promises[ticket]? = some .resolved) :
      Moves s (s.advance i entry (.calling provider ticket later))
  | timedOut (key : ChainKey) (ticket : ℕ) :
      Moves s { s with semaphores := Function.update s.semaphores key ((s.semaphores key).map fun m => m.timeOut ticket) }
  | released (i : ℕ) (entry : Entry) (provider : Provider) (ticket : ℕ) (phase : Phase) (hcall : s.calls i = some entry)
      (hticket : entry.phase.ticket = some (provider.chainKey, ticket))
      (hresolved : (∃ later, entry.phase = .calling provider ticket later) ∨
        ∃ m, s.semaphores provider.chainKey = some m ∧ m.promises[ticket]? = some .resolved)
      (hnext : phase.ticket = none) (hguarded : ∀ other later, phase ≠ .unguarded other later) :
      Moves s (s.release i entry provider ticket phase)

variable {settings} {s s' : State} {i : ℕ} {entry : Entry}

theorem moves_attempt (hcall : s.calls i = some entry) {providers : List Provider}
    (hphase : entry.phase = .trying providers) : Moves settings s (s.attempt settings i entry providers) := by
  have hnone : ∀ key ticket, entry.phase.ticket = some (key, ticket) →
      ∃ m, s.semaphores key = some m ∧ m.promises[ticket]? = some .rejected := by
    intro key ticket hticket
    rw [hphase] at hticket
    cases hticket
  cases providers with
  | nil => exact .plain i entry _ hcall rfl hnone fun _ _ h => by cases h
  | cons provider later =>
    rw [State.attempt]
    split
    · exact .plain i entry _ hcall rfl hnone fun _ _ h => by cases h
    · split
      · rename_i henabled
        exact .acquired i entry provider later hcall (by rw [hphase]; rfl) henabled
      · rename_i hdisabled
        exact .plain i entry _ hcall rfl hnone fun _ _ _ => Bool.of_not_eq_true hdisabled

theorem moves_resume (hcall : s.calls i = some entry) {provider : Provider} {ticket : ℕ} {later : List Provider}
    (hphase : entry.phase = .acquiring provider ticket later) :
    Moves settings s (s.resume settings i entry provider ticket later) := by
  have hticket : entry.phase.ticket = some (provider.chainKey, ticket) := by
    rw [hphase]
    rfl
  rw [State.resume]
  split
  · rename_i hpromise
    obtain ⟨m, hm, hresolved⟩ := Option.bind_eq_some_iff.mp hpromise
    split
    · exact .released i entry provider ticket _ hcall hticket (Or.inr ⟨m, hm, hresolved⟩) rfl fun _ _ => by simp
    · exact .called i entry provider ticket later m hcall hphase hm hresolved
  · rename_i hpromise
    obtain ⟨m, hm, hrejected⟩ := Option.bind_eq_some_iff.mp hpromise
    refine .plain i entry _ hcall ?_ ?_ ?_
    · split <;> rfl
    · intro key other hother
      obtain ⟨rfl, rfl⟩ := Prod.mk.inj (Option.some.inj (hticket.symm.trans hother))
      exact ⟨m, hm, hrejected⟩
    · intro other rest hunguarded
      split at hunguarded <;> cases hunguarded
  · exact .same

theorem afterAnswer_ticket (later : List Provider) (given : Answer) :
    (State.afterAnswer later given).ticket = none := by
  cases given <;> rfl

theorem afterAnswer_guarded (later : List Provider) (given : Answer) (provider : Provider) (rest : List Provider) :
    State.afterAnswer later given ≠ .unguarded provider rest := by
  cases given <;> simp [State.afterAnswer]

theorem moves_answer (hcall : s.calls i = some entry) (given : Answer) : Moves settings s (s.answer i entry given) := by
  rw [State.answer]
  split
  · rename_i provider ticket later hphase
    refine .released i entry provider ticket _ hcall ?_ (Or.inl ⟨later, hphase⟩) (afterAnswer_ticket later given)
      (afterAnswer_guarded later given)
    rw [hphase]
    rfl
  · rename_i provider later hphase
    refine .plain i entry _ hcall (afterAnswer_ticket later given) ?_ fun other rest h =>
      absurd h (afterAnswer_guarded later given other rest)
    intro key ticket hticket
    rw [hphase] at hticket
    cases hticket
  · exact .same
  · exact .same
  · exact .same

theorem moves_proceed (hcall : s.calls i = some entry) : Moves settings s (s.proceed settings i entry) := by
  rw [State.proceed]
  split
  · rename_i providers hphase
    exact moves_attempt hcall hphase
  · rename_i provider ticket later hphase
    exact moves_resume hcall hphase
  · exact .same
  · exact .same
  · exact .same

theorem moves_start (s : State) (i : ℕ) (chain : List Provider) (startedAt : Option ℤ) :
    Moves settings s (s.start i chain startedAt) := by
  rw [State.start]
  split
  · exact .same
  · rename_i hnew
    refine .started i _ _ (Option.not_isSome_iff_eq_none.mp hnew) ?_ ?_
    · split <;> rfl
    · intro provider later
      split <;> simp

theorem moves_step (settings : Settings) (s : State) (event : Event) : Moves settings s (step settings s event) := by
  cases event with
  | clock now => exact .time now
  | start i chain startedAt => exact moves_start s i chain startedAt
  | proceeds i =>
    cases hcall : s.calls i with
    | none =>
      simp only [step, hcall]
      exact .same
    | some entry =>
      simp only [step, hcall]
      exact moves_proceed hcall
  | timesOut key ticket => exact .timedOut key ticket
  | answers i given =>
    cases hcall : s.calls i with
    | none =>
      simp only [step, hcall]
      exact .same
    | some entry =>
      simp only [step, hcall]
      exact moves_answer hcall given

/-! ## Calls and semaphores -/

/-- The calls and the semaphores agree about the tickets. -/
structure Sound (settings : Settings) (s : State) : Prop where
  semaphores : ∀ key m, s.semaphores key = some m → m.Sound
  ticketed : ∀ i entry key ticket, s.calls i = some entry → entry.phase.ticket = some (key, ticket) →
    ∃ m, s.semaphores key = some m ∧ ticket < m.next ∧ ticket ∉ m.released
  serving : ∀ i entry provider ticket later m, s.calls i = some entry → entry.phase = .calling provider ticket later →
    s.semaphores provider.chainKey = some m → ticket ∈ m.served
  alone : ∀ i j first second key ticket, s.calls i = some first → s.calls j = some second →
    first.phase.ticket = some (key, ticket) → second.phase.ticket = some (key, ticket) → i = j
  owned : ∀ key m ticket, s.semaphores key = some m → m.Open ticket →
    ∃ i entry, s.calls i = some entry ∧ entry.phase.ticket = some (key, ticket)
  unguarded : ∀ i entry provider later, s.calls i = some entry → entry.phase = .unguarded provider later →
    settings.concurrencyEnabled = false
  disabled : settings.concurrencyEnabled = false → ∀ key, s.semaphores key = none

/-- A call goes to a phase without a ticket, and the one that it had, if any, is owed nothing. -/
theorem Sound.advance (h : Sound settings s) {phase : Phase} (hticket : phase.ticket = none)
    (hclosed : ∀ entry key ticket m, s.calls i = some entry → entry.phase.ticket = some (key, ticket) →
      s.semaphores key = some m → ¬ m.Open ticket)
    (hguarded : ∀ provider later, phase = .unguarded provider later → settings.concurrencyEnabled = false) :
    Sound settings (s.advance i entry phase) where
  semaphores := h.semaphores
  ticketed j found key ticket hfound hhas := by
    rcases eq_or_of_update hfound with ⟨rfl, rfl⟩ | ⟨-, hold⟩
    · rw [hticket] at hhas
      cases hhas
    · exact h.ticketed j found key ticket hold hhas
  serving j found provider ticket later m hfound hphase hm := by
    rcases eq_or_of_update hfound with ⟨rfl, rfl⟩ | ⟨-, hold⟩
    · have hcalling : phase = .calling provider ticket later := hphase
      rw [hcalling] at hticket
      cases hticket
    · exact h.serving j found provider ticket later m hold hphase hm
  alone j k first second key ticket hfirst hsecond hhas hhas' := by
    rcases eq_or_of_update hfirst with ⟨rfl, rfl⟩ | ⟨-, hold⟩
    · rw [hticket] at hhas
      cases hhas
    · rcases eq_or_of_update hsecond with ⟨rfl, rfl⟩ | ⟨-, hother⟩
      · rw [hticket] at hhas'
        cases hhas'
      · exact h.alone j k first second key ticket hold hother hhas hhas'
  owned key m ticket hm hopen := by
    obtain ⟨j, found, hfound, hhas⟩ := h.owned key m ticket hm hopen
    have hj : j ≠ i := by
      rintro rfl
      exact hclosed found key ticket m hfound hhas hm hopen
    exact ⟨j, found, (Function.update_of_ne hj _ _).trans hfound, hhas⟩
  unguarded j found provider later hfound hphase := by
    rcases eq_or_of_update hfound with ⟨rfl, rfl⟩ | ⟨-, hold⟩
    · exact hguarded provider later hphase
    · exact h.unguarded j found provider later hold hphase
  disabled := h.disabled

theorem not_open_of_rejected {m : Semaphore} (h : m.Sound) {ticket : ℕ}
    (hrejected : m.promises[ticket]? = some .rejected) :
    ¬ m.Open ticket := by
  rintro (⟨hserved, -⟩ | hpending)
  · rw [h.resolved, hrejected] at hserved
    cases hserved
  · rw [hrejected] at hpending
    cases hpending

/-- The semaphore of a provider, new or old. -/
theorem Sound.getSemaphore (h : Sound settings s) (provider : Provider) :
    (s.getSemaphore settings provider).Sound ∧
      (s.semaphores provider.chainKey = some (s.getSemaphore settings provider) ∨
        (s.semaphores provider.chainKey = none ∧ ∀ ticket, ¬ (s.getSemaphore settings provider).Open ticket)) := by
  rw [State.getSemaphore]
  cases hm : s.semaphores provider.chainKey with
  | some m => exact ⟨h.semaphores _ m hm, Or.inl rfl⟩
  | none =>
    refine ⟨sound_createSemaphore _, Or.inr ⟨rfl, fun ticket hopen => ?_⟩⟩
    rcases hopen with ⟨hserved, -⟩ | hpending
    · exact List.not_mem_nil hserved
    · cases hpending

theorem Sound.acquired (h : Sound settings s) (hcall : s.calls i = some entry) (hticket : entry.phase.ticket = none)
    (henabled : settings.concurrencyEnabled = true) (provider : Provider) (later : List Provider) :
    Sound settings { s.advance i entry (.acquiring provider (s.getSemaphore settings provider).next later) with
      semaphores :=
        Function.update s.semaphores provider.chainKey (some (s.getSemaphore settings provider).acquire) } := by
  obtain ⟨hsound, hexists⟩ := h.getSemaphore provider
  have hknown : ∀ {m}, s.semaphores provider.chainKey = some m → s.getSemaphore settings provider = m := by
    intro m hm
    rw [State.getSemaphore, hm, Option.getD_some]
  -- another call's ticket at the same semaphore is older
  have holder : ∀ {j found ticket}, s.calls j = some found → found.phase.ticket = some (provider.chainKey, ticket) →
      ticket < (s.getSemaphore settings provider).next ∧ ticket ∉ (s.getSemaphore settings provider).released := by
    intro j found ticket hfound hhas
    obtain ⟨m, hm, hlt, hkept⟩ := h.ticketed j found _ ticket hfound hhas
    rw [hknown hm]
    exact ⟨hlt, hkept⟩
  have hfresh : (s.getSemaphore settings provider).next ∉ (s.getSemaphore settings provider).released := by
    intro hreleased
    exact (hsound.lt_next_of_served (hsound.held _ hreleased)).false
  refine ⟨?_, ?_, ?_, ?_, ?_, ?_, ?_⟩
  · intro key m hm
    rcases eq_or_of_update hm with ⟨rfl, rfl⟩ | ⟨-, hold⟩
    · exact sound_acquire hsound
    · exact h.semaphores key m hold
  · intro j found key ticket hfound hhas
    rcases eq_or_of_update hfound with ⟨rfl, rfl⟩ | ⟨-, hold⟩
    · obtain ⟨rfl, rfl⟩ := Prod.mk.inj (Option.some.inj hhas)
      refine ⟨_, Function.update_self _ _ _, ?_, ?_⟩
      · rw [next_acquire]
        exact Nat.lt_succ_self _
      · rw [released_acquire]
        exact hfresh
    · by_cases hkey : key = provider.chainKey
      · subst hkey
        obtain ⟨hlt, hkept⟩ := holder hold hhas
        refine ⟨_, Function.update_self _ _ _, ?_, ?_⟩
        · rw [next_acquire]
          exact Nat.lt_succ_of_lt hlt
        · rw [released_acquire]
          exact hkept
      · obtain ⟨m, hm, hlt, hkept⟩ := h.ticketed j found key ticket hold hhas
        exact ⟨m, (Function.update_of_ne hkey _ _).trans hm, hlt, hkept⟩
  · intro j found other ticket rest m hfound hphase hm
    rcases eq_or_of_update hfound with ⟨rfl, rfl⟩ | ⟨-, hold⟩
    · cases hphase
    · rcases eq_or_of_update hm with ⟨hkey, rfl⟩ | ⟨-, hbefore⟩
      · obtain ⟨m, hm, -, -⟩ := h.ticketed j found other.chainKey ticket hold (by rw [hphase]; rfl)
        have hserved := h.serving j found other ticket rest m hold hphase hm
        rw [hkey] at hm
        rw [hknown hm]
        exact mem_served_acquire hserved
      · exact h.serving j found other ticket rest m hold hphase hbefore
  · intro j k first second key ticket hfirst hsecond hhas hhas'
    rcases eq_or_of_update hfirst with ⟨rfl, rfl⟩ | ⟨-, hold⟩
    · rcases eq_or_of_update hsecond with ⟨rfl, -⟩ | ⟨-, hother⟩
      · rfl
      · obtain ⟨rfl, rfl⟩ := Prod.mk.inj (Option.some.inj hhas)
        exact absurd (holder hother hhas').1 (lt_irrefl _)
    · rcases eq_or_of_update hsecond with ⟨rfl, rfl⟩ | ⟨-, hother⟩
      · obtain ⟨rfl, rfl⟩ := Prod.mk.inj (Option.some.inj hhas')
        exact absurd (holder hold hhas).1 (lt_irrefl _)
      · exact h.alone j k first second key ticket hold hother hhas hhas'
  · intro key m ticket hm hopen
    have hothers : ∀ m, s.semaphores key = some m → m.Open ticket → ∃ j found,
        (s.advance i entry (.acquiring provider (s.getSemaphore settings provider).next later)).calls j = some found ∧
          found.phase.ticket = some (key, ticket) := by
      intro m hm hopen
      obtain ⟨j, found, hfound, hhas⟩ := h.owned key m ticket hm hopen
      have hj : j ≠ i := by
        rintro rfl
        obtain rfl := Option.some.inj (hcall.symm.trans hfound)
        rw [hticket] at hhas
        cases hhas
      exact ⟨j, found, (Function.update_of_ne hj _ _).trans hfound, hhas⟩
    rcases eq_or_of_update hm with ⟨rfl, rfl⟩ | ⟨-, hold⟩
    · rcases open_acquire hopen with hbefore | rfl
      · rcases hexists with hm | ⟨-, hnone⟩
        · exact hothers _ hm hbefore
        · exact absurd hbefore (hnone ticket)
      · exact ⟨i, _, Function.update_self _ _ _, rfl⟩
    · exact hothers m hold hopen
  · intro j found other rest hfound hphase
    rcases eq_or_of_update hfound with ⟨rfl, rfl⟩ | ⟨-, hold⟩
    · cases hphase
    · exact h.unguarded j found other rest hold hphase
  · intro hdisabled
    rw [henabled] at hdisabled
    cases hdisabled

theorem Sound.called (h : Sound settings s) {provider : Provider} {ticket : ℕ} {later : List Provider} {m : Semaphore}
    (hcall : s.calls i = some entry) (hphase : entry.phase = .acquiring provider ticket later)
    (hm : s.semaphores provider.chainKey = some m) (hresolved : m.promises[ticket]? = some .resolved) :
    Sound settings (s.advance i entry (.calling provider ticket later)) := by
  have hticket : entry.phase.ticket = some (provider.chainKey, ticket) := by
    rw [hphase]
    rfl
  refine ⟨h.semaphores, ?_, ?_, ?_, ?_, ?_, h.disabled⟩
  · intro j found key other hfound hhas
    rcases eq_or_of_update hfound with ⟨rfl, rfl⟩ | ⟨-, hold⟩
    · exact h.ticketed j entry key other hcall (hticket.trans hhas)
    · exact h.ticketed j found key other hold hhas
  · intro j found other number rest n hfound hcalling hn
    rcases eq_or_of_update hfound with ⟨rfl, rfl⟩ | ⟨-, hold⟩
    · obtain ⟨rfl, rfl, rfl⟩ := Phase.calling.inj hcalling
      obtain rfl := Option.some.inj (hm.symm.trans hn)
      exact ((h.semaphores _ _ hm).resolved ticket).mpr hresolved
    · exact h.serving j found other number rest n hold hcalling hn
  · intro j k first second key other hfirst hsecond hhas hhas'
    rcases eq_or_of_update hfirst with ⟨rfl, rfl⟩ | ⟨-, hold⟩
    · rcases eq_or_of_update hsecond with ⟨rfl, -⟩ | ⟨-, hother⟩
      · rfl
      · exact h.alone j k entry second key other hcall hother (hticket.trans hhas) hhas'
    · rcases eq_or_of_update hsecond with ⟨rfl, rfl⟩ | ⟨-, hother⟩
      · exact h.alone j k first entry key other hold hcall hhas (hticket.trans hhas')
      · exact h.alone j k first second key other hold hother hhas hhas'
  · intro key n other hn hopen
    obtain ⟨j, found, hfound, hhas⟩ := h.owned key n other hn hopen
    by_cases hj : j = i
    · subst hj
      obtain rfl := Option.some.inj (hcall.symm.trans hfound)
      exact ⟨j, _, Function.update_self _ _ _, hticket.symm.trans hhas⟩
    · exact ⟨j, found, (Function.update_of_ne hj _ _).trans hfound, hhas⟩
  · intro j found other rest hfound hunguarded
    rcases eq_or_of_update hfound with ⟨rfl, rfl⟩ | ⟨-, hold⟩
    · cases hunguarded
    · exact h.unguarded j found other rest hold hunguarded

/-- The semaphore of a key after a change of it. -/
theorem eq_or_of_update_map {semaphores : ChainKey → Option Semaphore} {change : Semaphore → Semaphore}
    {changed key : ChainKey} {m : Semaphore}
    (h : Function.update semaphores changed ((semaphores changed).map change) key = some m) :
    (key = changed ∧ ∃ n, semaphores key = some n ∧ m = change n) ∨ (key ≠ changed ∧ semaphores key = some m) := by
  by_cases hkey : key = changed
  · subst hkey
    rw [Function.update_self] at h
    obtain ⟨n, hn, rfl⟩ := Option.map_eq_some_iff.mp h
    exact Or.inl ⟨rfl, n, hn, rfl⟩
  · rw [Function.update_of_ne hkey] at h
    exact Or.inr ⟨hkey, h⟩

/-- The same, from the semaphore before the change. -/
theorem exists_update_map {semaphores : ChainKey → Option Semaphore} {change : Semaphore → Semaphore}
    {key : ChainKey} {m : Semaphore} (changed : ChainKey) (hm : semaphores key = some m) :
    (key = changed ∧ Function.update semaphores changed ((semaphores changed).map change) key = some (change m)) ∨
      (key ≠ changed ∧ Function.update semaphores changed ((semaphores changed).map change) key = some m) := by
  by_cases hkey : key = changed
  · subst hkey
    rw [Function.update_self, hm]
    exact Or.inl ⟨rfl, rfl⟩
  · rw [Function.update_of_ne hkey]
    exact Or.inr ⟨hkey, hm⟩

theorem Sound.timedOut (h : Sound settings s) (key : ChainKey) (ticket : ℕ) :
    Sound settings
      { s with semaphores := Function.update s.semaphores key ((s.semaphores key).map fun m => m.timeOut ticket) } := by
  refine ⟨?_, ?_, ?_, h.alone, ?_, h.unguarded, ?_⟩
  · intro other m hm
    rcases eq_or_of_update_map hm with ⟨-, n, hn, rfl⟩ | ⟨-, hn⟩
    · exact sound_timeOut (h.semaphores other n hn) ticket
    · exact h.semaphores other m hn
  · intro j found other number hfound hhas
    obtain ⟨m, hm, hlt, hkept⟩ := h.ticketed j found other number hfound hhas
    rcases exists_update_map key hm with ⟨-, hafter⟩ | ⟨-, hafter⟩
    · obtain ⟨hnext, hreleased, -⟩ := timeOut_history m ticket
      refine ⟨_, hafter, ?_, ?_⟩
      · rw [hnext]
        exact hlt
      · rw [hreleased]
        exact hkept
    · exact ⟨m, hafter, hlt, hkept⟩
  · intro j found provider number later m hfound hphase hm
    rcases eq_or_of_update_map hm with ⟨-, n, hn, rfl⟩ | ⟨-, hn⟩
    · obtain ⟨-, -, hserved⟩ := timeOut_history n ticket
      rw [hserved]
      exact h.serving j found provider number later n hfound hphase hn
    · exact h.serving j found provider number later m hfound hphase hn
  · intro other m number hm hopen
    rcases eq_or_of_update_map hm with ⟨-, n, hn, rfl⟩ | ⟨-, hn⟩
    · exact h.owned other n number hn (open_timeOut hopen)
    · exact h.owned other m number hn hopen
  · intro hdisabled other
    by_cases hother : other = key
    · subst hother
      exact (Function.update_self _ _ _).trans (by rw [h.disabled hdisabled other, Option.map_none])
    · exact (Function.update_of_ne hother _ _).trans (h.disabled hdisabled other)

/-- The ticket of a call that is being served holds a slot. -/
theorem Sound.holds (h : Sound settings s) {provider : Provider} {ticket : ℕ} (hcall : s.calls i = some entry)
    (hticket : entry.phase.ticket = some (provider.chainKey, ticket))
    (hresolved : (∃ later, entry.phase = .calling provider ticket later) ∨
      ∃ m, s.semaphores provider.chainKey = some m ∧ m.promises[ticket]? = some .resolved) :
    ∃ m, s.semaphores provider.chainKey = some m ∧ m.Holds ticket := by
  obtain ⟨m, hm, -, hkept⟩ := h.ticketed i entry _ ticket hcall hticket
  refine ⟨m, hm, ?_, hkept⟩
  rcases hresolved with ⟨later, hphase⟩ | ⟨n, hn, hpromise⟩
  · exact h.serving i entry provider ticket later m hcall hphase hm
  · obtain rfl := Option.some.inj (hm.symm.trans hn)
    exact ((h.semaphores _ m hm).resolved ticket).mpr hpromise

theorem Sound.released (h : Sound settings s) {provider : Provider} {ticket : ℕ} {phase : Phase} {held : Semaphore}
    (hcall : s.calls i = some entry) (hticket : entry.phase.ticket = some (provider.chainKey, ticket))
    (hheld : s.semaphores provider.chainKey = some held) (hholds : held.Holds ticket) (hnext : phase.ticket = none)
    (hguarded : ∀ other later, phase ≠ .unguarded other later) :
    Sound settings (s.release i entry provider ticket phase) := by
  have hsound := h.semaphores _ held hheld
  -- nobody else has the ticket that is given back
  have hother : ∀ {j found key number}, s.calls j = some found → j ≠ i →
      found.phase.ticket = some (key, number) → key = provider.chainKey → number ≠ ticket := by
    intro j found key number hfound hj hhas hkey hnumber
    subst hkey hnumber
    exact hj (h.alone j i found entry _ _ hfound hcall hhas hticket)
  refine ⟨?_, ?_, ?_, ?_, ?_, ?_, ?_⟩
  · intro key m hm
    rcases eq_or_of_update_map hm with ⟨rfl, n, hn, rfl⟩ | ⟨-, hn⟩
    · obtain rfl := Option.some.inj (hheld.symm.trans hn)
      exact sound_release hsound hholds
    · exact h.semaphores key m hn
  · intro j found key number hfound hhas
    rcases eq_or_of_update hfound with ⟨rfl, rfl⟩ | ⟨hj, hold⟩
    · exact absurd (hnext.symm.trans hhas) (Option.some_ne_none _).symm
    · obtain ⟨m, hm, hlt, hkept⟩ := h.ticketed j found key number hold hhas
      rcases exists_update_map provider.chainKey hm with ⟨hkey, hafter⟩ | ⟨-, hafter⟩
      · refine ⟨_, hafter, ?_, ?_⟩
        · rw [next_release]
          exact hlt
        · rw [released_release, List.mem_append, List.mem_singleton, not_or]
          exact ⟨hkept, hother hold hj hhas hkey⟩
      · exact ⟨m, hafter, hlt, hkept⟩
  · intro j found other number rest m hfound hphase hm
    rcases eq_or_of_update hfound with ⟨rfl, rfl⟩ | ⟨-, hold⟩
    · have hcalling : phase = .calling other number rest := hphase
      rw [hcalling] at hnext
      cases hnext
    · rcases eq_or_of_update_map hm with ⟨-, n, hn, rfl⟩ | ⟨-, hn⟩
      · exact mem_served_release (h.serving j found other number rest n hold hphase hn)
      · exact h.serving j found other number rest m hold hphase hn
  · intro j k first second key number hfirst hsecond hhas hhas'
    rcases eq_or_of_update hfirst with ⟨rfl, rfl⟩ | ⟨-, hold⟩
    · exact absurd (hnext.symm.trans hhas) (Option.some_ne_none _).symm
    · rcases eq_or_of_update hsecond with ⟨rfl, rfl⟩ | ⟨-, hold'⟩
      · exact absurd (hnext.symm.trans hhas') (Option.some_ne_none _).symm
      · exact h.alone j k first second key number hold hold' hhas hhas'
  · intro key m number hm hopen
    have hbefore : ∃ n, s.semaphores key = some n ∧ n.Open number ∧
        (key = provider.chainKey → number ≠ ticket) := by
      rcases eq_or_of_update_map hm with ⟨rfl, n, hn, rfl⟩ | ⟨hkey, hn⟩
      · obtain rfl := Option.some.inj (hheld.symm.trans hn)
        obtain ⟨hstill, hne⟩ := open_release hsound hholds.1 hopen
        exact ⟨held, hn, hstill, fun _ => hne⟩
      · exact ⟨m, hn, hopen, fun hsame => absurd hsame hkey⟩
    obtain ⟨n, hn, hstill, hne⟩ := hbefore
    obtain ⟨j, found, hfound, hhas⟩ := h.owned key n number hn hstill
    have hj : j ≠ i := by
      rintro rfl
      obtain rfl := Option.some.inj (hcall.symm.trans hfound)
      obtain ⟨rfl, rfl⟩ := Prod.mk.inj (Option.some.inj (hticket.symm.trans hhas))
      exact hne rfl rfl
    exact ⟨j, found, (Function.update_of_ne hj _ _).trans hfound, hhas⟩
  · intro j found other rest hfound hphase
    rcases eq_or_of_update hfound with ⟨rfl, rfl⟩ | ⟨-, hold⟩
    · exact absurd hphase (hguarded other rest)
    · exact h.unguarded j found other rest hold hphase
  · intro hdisabled
    rw [h.disabled hdisabled] at hheld
    cases hheld

/-- What a step does keeps the agreement. -/
theorem Sound.moves (h : Sound settings s) (hmoves : Moves settings s s') : Sound settings s' := by
  cases hmoves with
  | same => exact h
  | time now => exact ⟨h.semaphores, h.ticketed, h.serving, h.alone, h.owned, h.unguarded, h.disabled⟩
  | started i entry phase hnew hticket hguarded =>
    refine h.advance hticket ?_ fun provider later hphase => absurd hphase (hguarded provider later)
    intro found key ticket m hfound
    rw [hnew] at hfound
    cases hfound
  | plain i entry phase hcall hticket hsettled hguarded =>
    refine h.advance hticket ?_ hguarded
    intro found key ticket m hfound hhas hm
    obtain rfl := Option.some.inj (hcall.symm.trans hfound)
    obtain ⟨n, hn, hrejected⟩ := hsettled key ticket hhas
    obtain rfl := Option.some.inj (hm.symm.trans hn)
    exact not_open_of_rejected (h.semaphores key m hm) hrejected
  | acquired i entry provider later hcall hticket henabled => exact h.acquired hcall hticket henabled provider later
  | called i entry provider ticket later m hcall hphase hm hresolved => exact h.called hcall hphase hm hresolved
  | timedOut key ticket => exact h.timedOut key ticket
  | released i entry provider ticket phase hcall hticket hresolved hnext hguarded =>
    obtain ⟨m, hm, hholds⟩ := h.holds hcall hticket hresolved
    exact h.released hcall hticket hm hholds hnext hguarded

theorem sound_idle (settings : Settings) (now : ℤ) : Sound settings (idle now) where
  semaphores key m hm := by cases hm
  ticketed i entry key ticket hcall _ := by cases hcall
  serving i entry provider ticket later m hcall _ _ := by cases hcall
  alone i j first second key ticket hfirst _ _ _ := by cases hfirst
  owned key m ticket hm _ := by cases hm
  unguarded i entry provider later hcall _ := by cases hcall
  disabled _ _ := rfl

theorem sound_run (settings : Settings) (now : ℤ) (events : List Event) :
    Sound settings (run (step settings) (idle now) events) :=
  invariant_run (fun s event h => h.moves (moves_step settings s event)) (sound_idle settings now) events

/-! ## Bounded concurrency -/

/-- Every semaphore is kept, with its limit and its history. -/
def Grows (s s' : State) : Prop :=
  ∀ key m, s.semaphores key = some m → ∃ m', s'.semaphores key = some m' ∧ m.Grows m'

theorem grows_of_same (h : s'.semaphores = s.semaphores) : Grows s s' := by
  intro key m hm
  exact ⟨m, (congrFun h key).trans hm, .refl m⟩

theorem grows_of_map {changed : ChainKey} {change : Semaphore → Semaphore}
    (h : s'.semaphores = Function.update s.semaphores changed ((s.semaphores changed).map change))
    (hchange : ∀ m, s.semaphores changed = some m → m.Grows (change m)) : Grows s s' := by
  intro key m hm
  rcases exists_update_map changed hm with ⟨rfl, hafter⟩ | ⟨-, hafter⟩
  · exact ⟨_, (congrFun h key).trans hafter, hchange m hm⟩
  · exact ⟨m, (congrFun h key).trans hafter, .refl m⟩

theorem Sound.grows (h : Sound settings s) (hmoves : Moves settings s s') : Grows s s' := by
  cases hmoves with
  | same => exact grows_of_same rfl
  | time now => exact grows_of_same rfl
  | started i entry phase hnew hticket hguarded => exact grows_of_same rfl
  | plain i entry phase hcall hticket hsettled hguarded => exact grows_of_same rfl
  | called i entry provider ticket later m hcall hphase hm hresolved => exact grows_of_same rfl
  | acquired i entry provider later hcall hticket henabled =>
    intro key m hm
    by_cases hkey : key = provider.chainKey
    · subst hkey
      refine ⟨_, Function.update_self _ _ _, ?_⟩
      rw [State.getSemaphore, hm]
      exact grows_acquire m
    · exact ⟨m, (Function.update_of_ne hkey _ _).trans hm, .refl m⟩
  | timedOut key ticket => exact grows_of_map rfl fun m hm => grows_timeOut (h.semaphores key m hm) ticket
  | released i entry provider ticket phase hcall hticket hresolved hnext hguarded =>
    exact grows_of_map rfl fun m hm => grows_release (h.semaphores _ m hm) ticket

theorem grows_run (h : Sound settings s) (events : List Event) : Grows s (run (step settings) s events) := by
  have hkept : ∀ now event, Sound settings now ∧ Grows s now →
      Sound settings (step settings now event) ∧ Grows s (step settings now event) := by
    rintro now event ⟨hnow, hgrown⟩
    have hmoves := moves_step settings now event
    refine ⟨hnow.moves hmoves, fun key m hm => ?_⟩
    obtain ⟨m', hm', hfirst⟩ := hgrown key m hm
    obtain ⟨m'', hm'', hsecond⟩ := hnow.grows hmoves key m' hm'
    exact ⟨m'', hm'', hfirst.trans hsecond⟩
  exact (invariant_run hkept ⟨h, grows_of_same rfl⟩ events).2

/-- What holds of every semaphore. -/
structure Bounded (s : State) : Prop where
  inFlight : ∀ key m, s.semaphores key = some m → ∀ ids : List ℕ, ids.Nodup → (∀ i ∈ ids, InFlight s key i) →
    ids.length ≤ m.limit
  inOrder : ∀ key m, s.semaphores key = some m → m.served.Pairwise (· < ·) ∧
    ∀ ticket ∈ m.served, ∀ waiter ∈ m.waiters, ticket < waiter
  timedOut : ∀ key m ticket, s.semaphores key = some m → m.promises[ticket]? = some .rejected → ticket ∉ m.served ∧
    ∀ i entry provider later, s.calls i = some entry → provider.chainKey = key →
      entry.phase ≠ .calling provider ticket later
  once : ∀ key m, s.semaphores key = some m → m.released.Nodup ∧ (∀ ticket ∈ m.released, ticket ∈ m.served) ∧
    ∀ ticket, m.Holds ticket → ∃ i entry, s.calls i = some entry ∧ entry.phase.ticket = some (key, ticket)
  drained : (∀ i entry, s.calls i = some entry → ∃ resolved, entry.phase = .settled resolved) →
    ∀ key m, s.semaphores key = some m → m.active = 0 ∧ m.waiters = [] ∧ ∀ ticket ∈ m.served, ticket ∈ m.released

/-- The ticket of a provider call under way, where there is a semaphore. -/
theorem Sound.exists_ticket (h : Sound settings s) {key : ChainKey} {m : Semaphore} (hm : s.semaphores key = some m)
    (hflight : InFlight s key i) :
    ∃ entry ticket, s.calls i = some entry ∧ entry.phase.ticket = some (key, ticket) ∧ m.Holds ticket := by
  obtain ⟨entry, provider, later, hcall, rfl, ⟨ticket, hphase⟩ | hunguarded⟩ := hflight
  · have hticket : entry.phase.ticket = some (provider.chainKey, ticket) := by
      rw [hphase]
      rfl
    obtain ⟨n, hn, hholds⟩ := h.holds hcall hticket (Or.inl ⟨later, hphase⟩)
    obtain rfl := Option.some.inj (hm.symm.trans hn)
    exact ⟨entry, ticket, hcall, hticket, hholds⟩
  · rw [h.disabled (h.unguarded i entry provider later hcall hunguarded)] at hm
    cases hm

/-- Different calls under way hold different slots. -/
theorem Sound.exists_tickets (h : Sound settings s) {key : ChainKey} {m : Semaphore} (hm : s.semaphores key = some m)
    {ids : List ℕ} (hnodup : ids.Nodup) (hflight : ∀ i ∈ ids, InFlight s key i) :
    ∃ tickets : List ℕ, tickets.length = ids.length ∧ tickets.Nodup ∧ ∀ ticket ∈ tickets,
      m.Holds ticket ∧ ∃ i ∈ ids, ∃ entry, s.calls i = some entry ∧ entry.phase.ticket = some (key, ticket) := by
  induction ids with
  | nil => exact ⟨[], rfl, List.nodup_nil, fun ticket hticket => absurd hticket List.not_mem_nil⟩
  | cons i later ih =>
    rw [List.nodup_cons] at hnodup
    obtain ⟨tickets, hlength, hdistinct, htickets⟩ :=
      ih hnodup.2 fun j hj => hflight j (List.mem_cons_of_mem i hj)
    obtain ⟨entry, ticket, hcall, hhas, hholds⟩ := h.exists_ticket hm (hflight i List.mem_cons_self)
    refine ⟨ticket :: tickets, congrArg Nat.succ hlength, List.nodup_cons.mpr ⟨?_, hdistinct⟩, ?_⟩
    · intro hmem
      obtain ⟨-, j, hj, found, hfound, hhas'⟩ := htickets ticket hmem
      have hsame := h.alone i j entry found key ticket hcall hfound hhas hhas'
      subst hsame
      exact hnodup.1 hj
    · intro other hother
      rcases List.mem_cons.mp hother with rfl | hmem
      · exact ⟨hholds, i, List.mem_cons_self, entry, hcall, hhas⟩
      · obtain ⟨hkept, j, hj, hrest⟩ := htickets other hmem
        exact ⟨hkept, j, List.mem_cons_of_mem i hj, hrest⟩

theorem Sound.bounded (h : Sound settings s) : Bounded s where
  inFlight key m hm ids hnodup hflight := by
    have hsound := h.semaphores key m hm
    obtain ⟨tickets, hlength, hdistinct, htickets⟩ := h.exists_tickets hm hnodup hflight
    have hmost := hsound.length_le_active hdistinct fun ticket hticket => (htickets ticket hticket).1
    have hlimit := hsound.bounded
    omega
  inOrder key m hm := by
    have hsound := h.semaphores key m hm
    exact ⟨hsound.fifo, hsound.behind⟩
  timedOut key m ticket hm hrejected := by
    have hnever : ticket ∉ m.served := by
      intro hserved
      rw [(h.semaphores key m hm).resolved ticket, hrejected] at hserved
      cases hserved
    refine ⟨hnever, ?_⟩
    rintro i entry provider later hcall rfl hphase
    exact hnever (h.serving i entry provider ticket later m hcall hphase hm)
  once key m hm := by
    have hsound := h.semaphores key m hm
    exact ⟨hsound.once, hsound.held, fun ticket hholds => h.owned key m ticket hm (Or.inl hholds)⟩
  drained hsettled key m hm := by
    have hsound := h.semaphores key m hm
    have hfree : ∀ ticket, ¬ m.Open ticket := by
      intro ticket hopen
      obtain ⟨i, entry, hcall, hhas⟩ := h.owned key m ticket hm hopen
      obtain ⟨resolved, hphase⟩ := hsettled i entry hcall
      rw [hphase] at hhas
      cases hhas
    obtain ⟨hactive, hwaiters⟩ := hsound.drained hfree
    refine ⟨hactive, hwaiters, fun ticket hserved => ?_⟩
    by_contra hkept
    exact hfree ticket (Or.inl ⟨hserved, hkept⟩)

/-- Calls of `dispatchChain` in any interleaving, from a start without semaphores: in every state the provider calls
under way stay within the limit, the waiters are served in the order of their arrival, who timed out gets no slot,
and every slot is given back once, at the latest when its call has settled.  What was served, given back or rejected
stays so. -/
theorem dispatchChain_bounded (settings : Settings) (now : ℤ) (events later : List Event) :
    Bounded (run (step settings) (idle now) events) ∧
      Grows (run (step settings) (idle now) events) (run (step settings) (idle now) (events ++ later)) := by
  have hsound := sound_run settings now events
  rw [run_append]
  exact ⟨hsound.bounded, grows_run hsound later⟩

/-- With one slot, the second call waits, times out and leaves nothing behind. -/
example : ((run (step { getLimit := fun _ _ => 1 }) (idle 0)
    [.start 0 [⟨"openai", "key"⟩] none, .start 1 [⟨"openai", "key"⟩] none, .proceeds 0, .proceeds 1, .proceeds 0,
      .timesOut "key" 1, .proceeds 1, .answers 0 .resolved, .proceeds 1]).semaphores "key").map
    (fun m => (m.active, m.waiters, m.served, m.released)) = some (0, [], [0], [0]) := by decide

end FragmentMemory.DispatchChain
