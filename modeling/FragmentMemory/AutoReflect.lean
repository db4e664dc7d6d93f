import FragmentMemory.SessionActivityTracker

/-! # Automatic reflects of a session

`autoReflect` looks at the activity log when the session is idle or closed, asks the model for a summary, stores it and
marks the log at the end.  Activity records, idle clean-ups, closes and the reflect tool run side by side on one session,
one command at a time, and an answer of the model may take any time.
-/
namespace FragmentMemory.AutoReflect
open FragmentTables InterleavedRuns SessionActivityTracker TransitionRuns

structure ReflectSettings where
  /-- `IDLE_REFLECT_HOURS` in milliseconds. -/
  idleThresholdMs : Time := 24 * 3600 * 1000
  sessionTtlMs : Time := 43200 * 60 * 1000

/-- `MIN_SESSION_DURATION_MS`. -/
def minSessionDurationMs : Time := 30000

/-- `_shouldSkipReflect`. -/
def shouldSkipReflect (activity : ActivityLog) : Bool :=
  if activity.toolCalls = [] then true
  else match activity.startedAt, activity.lastActivity with
    | some startedAt, some lastActivity =>
      if lastActivity < startedAt + minSessionDurationMs then true else decide (1 ≤ activity.fragments.length)
    | _, _ => true

/-- What the clean-up reads of a session in memory. -/
structure SessionTimes where
  createdAt : Time
  lastAccessedAt : Option Time := none
  expiresAt : Time
  lastReflectedAt : Option Time := none
  deriving DecidableEq

/-- `isIdleEnough && needsReflect`. -/
def idleReflectDue (settings : ReflectSettings) (now : Time) (session : SessionTimes) : Bool :=
  session.lastAccessedAt.getD session.createdAt + settings.idleThresholdMs < now &&
    session.lastReflectedAt.all fun reflected => reflected + settings.idleThresholdMs < now

/-- Where an automatic reflect stands. -/
inductive Progress
  | looking
  | asking
  | storing
  | marking
  | writing (read : Option ActivityLog) (started : Time)
  deriving DecidableEq

/-- What follows the reflect: the session is closed, or the clean-up notes the time of the reflect. -/
inductive Sequel
  | closing
  | stamping (now : Time)
  deriving DecidableEq

/-- What a tool records about activity of the session. -/
abbrev Activity := { data : ActivityRecord // data.action = none }

inductive Thread
  | touching
  | recording (data : Activity) (stage : Stage)
  | cleaning
  | closing
  | reflecting (progress : Progress) (sequel : Sequel)
  | ending (sequel : Sequel)
  | storing
  | settling (own mark : Stage)
  | finished
  deriving DecidableEq

/-- The clock, the answers of the model and which of two commands under way comes first. -/
structure Tick where
  now : Time
  available : Bool := true
  answered : Bool := true
  markFirst : Bool := false

/-- The session with its log, and what has happened to them. -/
structure SessionState where
  tracker : Tracker := {}
  session : Option SessionTimes
  /-- An automatic reflect has begun. -/
  begun : Bool := false
  /-- Activity was recorded after the last automatic reflect had begun. -/
  sinceRun : Bool := false
  /-- Activity was recorded after the last reflect of any kind. -/
  sinceReflect : Bool := false
  /-- An automatic reflect began with no activity recorded after the one before it had begun. -/
  repeated : Bool := false
  deriving DecidableEq

def SessionState.reflected (state : SessionState) : Bool := (getLog state.tracker.log).reflected

/-- What the reflect tool records about itself. -/
def reflectCall : ActivityRecord where
  tool := some "reflect"

/-- `markReflected`. -/
def reflectedMark : ActivityRecord where
  action := some "reflected"

/-- The next command of a record. -/
def recordStep (now : Time) (state : SessionState) (data : ActivityRecord) (stage : Stage) : SessionState × Stage :=
  let next := SessionActivityTracker.advance now state.tracker ⟨data, stage⟩
  ({ state with tracker := next.1 }, next.2.stage)

/-- An activity record, and whether its command wrote the log. -/
def recordActivity (now : Time) (state : SessionState) (data : ActivityRecord) (stage : Stage) : SessionState × Stage :=
  let next := recordStep now state data stage
  match stage with
  | .writing _ _ => ({ next.1 with sinceRun := true, sinceReflect := true }, next.2)
  | _ => next

/-- An automatic reflect begins. -/
def begin (state : SessionState) : SessionState :=
  { state with
    begun := true
    sinceRun := false
    sinceReflect := false
    repeated := state.repeated || (state.begun && !state.sinceRun) }

/-- `autoReflect` up to its next command; all its ways out of a session that is not marked lead to the mark. -/
def reflectStep (tick : Tick) (state : SessionState) (sequel : Sequel) : Progress → SessionState × Thread
  | .looking =>
    if state.reflected then (state, .ending sequel)
    else if shouldSkipReflect (getLog state.tracker.log) || !tick.available then
      (begin state, .reflecting .marking sequel)
    else (begin state, .reflecting .asking sequel)
  | .asking => (state, .reflecting (if tick.answered then .storing else .marking) sequel)
  | .storing => (state, .reflecting .marking sequel)
  | .marking => (state, .reflecting (.writing state.tracker.log tick.now) sequel)
  | .writing read started => ((recordStep tick.now state reflectedMark (.writing read started)).1, .ending sequel)

variable (settings : ReflectSettings)

/-- The next command of a thread: a request of the session, an activity record, the clean-up, a close, or the reflect
tool, which issues its record and its mark at the same time. -/
def advance (tick : Tick) (state : SessionState) : Thread → SessionState × Thread
  | .touching =>
    ({ state with session := state.session.map fun session =>
        { session with lastAccessedAt := some tick.now, expiresAt := tick.now + settings.sessionTtlMs } }, .finished)
  | .recording data stage =>
    let next := recordActivity tick.now state data.val stage
    (next.1, .recording data next.2)
  | .cleaning =>
    match state.session with
    | none => (state, .finished)
    | some session =>
      if session.expiresAt < tick.now then (state, .closing)
      else if idleReflectDue settings tick.now session then (state, .reflecting .looking (.stamping tick.now))
      else (state, .finished)
  | .closing =>
    match state.session with
    | none => (state, .finished)
    | some _ => (state, .reflecting .looking .closing)
  | .reflecting progress sequel => reflectStep tick state sequel progress
  | .ending .closing => ({ state with session := none }, .finished)
  | .ending (.stamping now) =>
    ({ state with session := state.session.map fun session => { session with lastReflectedAt := some now } }, .finished)
  | .storing => ({ state with sinceReflect := false }, .settling .reading .reading)
  | .settling own mark =>
    if tick.markFirst then
      let next := recordStep tick.now state reflectedMark mark
      (next.1, .settling own next.2)
    else
      let next := recordStep tick.now state reflectCall own
      (next.1, .settling next.2 mark)
  | .finished => (state, .finished)

/-- What may run on a session. -/
inductive Program
  | touch
  | record (data : Activity)
  | cleanup
  | close
  | reflect

def Program.thread : Program → Thread
  | .touch => .touching
  | .record data => .recording data .reading
  | .cleanup => .cleaning
  | .close => .closing
  | .reflect => .storing

/-- Programs that have not begun, on a session without a log. -/
def start (session : SessionTimes) (programs : List Program) : Pool SessionState Thread where
  shared := { session := some session }
  threads := programs.map Program.thread

/-- An automatic reflect has begun and has not written its mark. -/
def AutoUnderWay : Thread → Prop
  | .reflecting .looking _ => False
  | .reflecting _ _ => True
  | _ => False

/-- A reflect has begun, or the tool has stored one, and the mark is not written. -/
def ReflectUnderWay : Thread → Prop
  | .settling _ .finished => False
  | .settling _ _ => True
  | thread => AutoUnderWay thread

instance decidableAutoUnderWay : ∀ thread, Decidable (AutoUnderWay thread) := by
  intro thread
  unfold AutoUnderWay
  split <;> infer_instance

instance decidableReflectUnderWay : ∀ thread, Decidable (ReflectUnderWay thread) := by
  intro thread
  unfold ReflectUnderWay
  split <;> infer_instance

/-- What the next command of a thread must meet. -/
def Proper (pool : Pool SessionState Thread) (tick : Tick) : Thread → Prop
  | .reflecting .looking _ => ∀ other ∈ pool.threads, ¬ AutoUnderWay other
  | .recording _ (.writing read _) => (getLog read).reflected = false ∧ ∀ other ∈ pool.threads, ¬ ReflectUnderWay other
  | .settling (.writing read _) _ => tick.markFirst = false → (getLog read).reflected = pool.shared.reflected
  | _ => True

/-- No automatic reflect begins while another one is under way.  No activity is written while a reflect is under way, nor
over a log that was marked when it was read.  The record of the reflect tool leaves the mark as it is. -/
def Regular (pool : Pool SessionState Thread) (event : ℕ × Tick) : Prop :=
  ∀ thread ∈ pool.threads[event.1]?, Proper pool event.2 thread

instance (pool : Pool SessionState Thread) (tick : Tick) (thread : Thread) : Decidable (Proper pool tick thread) := by
  unfold Proper
  split <;> infer_instance

instance (pool : Pool SessionState Thread) (event : ℕ × Tick) : Decidable (Regular pool event) :=
  inferInstanceAs (Decidable (∀ thread ∈ pool.threads[event.1]?, Proper pool event.2 thread))

/-- No piece of activity is reflected twice by automatic reflects, and activity that was recorded after the last reflect
makes the session eligible once no reflect is under way. -/
structure ReflectedOnce (pool : Pool SessionState Thread) : Prop where
  once : pool.shared.repeated = false
  eligible : (∀ thread ∈ pool.threads, ¬ ReflectUnderWay thread) → pool.shared.sinceReflect = true →
    pool.shared.reflected = false

/-- A mark and a reflect under way go with no activity since the reflect, and an automatic reflect that has begun is under
way, is marked, or was followed by activity. -/
structure Sound (pool : Pool SessionState Thread) : Prop where
  marked : pool.shared.reflected = true → pool.shared.sinceReflect = false
  pending : ∀ thread ∈ pool.threads, ReflectUnderWay thread → pool.shared.sinceReflect = false
  covered : pool.shared.begun = true → pool.shared.sinceRun = true ∨ pool.shared.reflected = true ∨
    ∃ thread ∈ pool.threads, AutoUnderWay thread
  once : pool.shared.repeated = false

/-- Nothing that the invariant is about has changed. -/
structure SameFlags (state next : SessionState) : Prop where
  begun : next.begun = state.begun
  sinceRun : next.sinceRun = state.sinceRun
  sinceReflect : next.sinceReflect = state.sinceReflect
  repeated : next.repeated = state.repeated

/-- What a command can do. -/
inductive Effect (state next : SessionState) (thread later : Thread) : Prop
  | quiet (hflags : SameFlags state next) (hreflected : next.reflected = state.reflected)
      (hauto : AutoUnderWay thread → AutoUnderWay later) (hpending : ReflectUnderWay later → ReflectUnderWay thread)
  | marks (hflags : SameFlags state next) (hreflected : next.reflected = true) (hthread : ReflectUnderWay thread)
  | begins (hreflected : state.reflected = false) (hnext : next = begin state) (hlater : AutoUnderWay later)
      (hthread : ∃ sequel, thread = .reflecting .looking sequel)
  | stores (hnext : next = { state with sinceReflect := false }) (hthread : ¬ AutoUnderWay thread)

/-- The command of an activity record that writes the log. -/
structure Records (state next : SessionState) (later : Thread) (read : Option ActivityLog) : Prop where
  reflected : next.reflected = (getLog read).reflected
  begun : next.begun = state.begun
  repeated : next.repeated = state.repeated
  sinceRun : next.sinceRun = true
  sinceReflect : next.sinceReflect = true
  idle : ¬ ReflectUnderWay later

variable {settings : ReflectSettings}

theorem effect_reflectStep (tick : Tick) (state : SessionState) (sequel : Sequel) (progress : Progress) :
    Effect state (reflectStep tick state sequel progress).1 (.reflecting progress sequel)
      (reflectStep tick state sequel progress).2 := by
  have hsame : SameFlags state state := ⟨rfl, rfl, rfl, rfl⟩
  cases progress with
  | looking =>
    rcases hreflected : state.reflected with _ | _
    · rcases hskip : shouldSkipReflect (getLog state.tracker.log) || !tick.available with _ | _
      all_goals
        simp only [reflectStep, hreflected, hskip, Bool.false_eq_true, if_false, if_true]
        exact .begins hreflected rfl trivial ⟨sequel, rfl⟩
    · simp only [reflectStep, hreflected, if_true]
      exact .quiet hsame rfl False.elim False.elim
  | asking =>
    rcases hanswered : tick.answered with _ | _
    all_goals
      simp only [reflectStep, hanswered, Bool.false_eq_true, if_false, if_true]
      exact .quiet hsame rfl (fun _ => trivial) fun _ => trivial
  | storing => exact .quiet hsame rfl (fun _ => trivial) fun _ => trivial
  | marking => exact .quiet hsame rfl (fun _ => trivial) fun _ => trivial
  | writing read started => exact .marks ⟨rfl, rfl, rfl, rfl⟩ (by simp [SessionState.reflected, reflectStep, recordStep,
      SessionActivityTracker.advance, getLog, ActivityLog.record, reflectedMark]) trivial

theorem reflected_recordStep (now : Time) (state : SessionState) (data : ActivityRecord) (read : Option ActivityLog)
    (started : Time) : (recordStep now state data (.writing read started)).1.reflected =
      ((getLog read).reflected || data.action = some "reflected") := rfl

theorem effect_settling (tick : Tick) (state : SessionState) (own mark : Stage)
    (hown : ∀ read started, own = .writing read started → tick.markFirst = false →
      (getLog read).reflected = state.reflected) :
    Effect state (advance settings tick state (.settling own mark)).1 (.settling own mark)
      (advance settings tick state (.settling own mark)).2 := by
  have hsame : SameFlags state state := ⟨rfl, rfl, rfl, rfl⟩
  rcases hfirst : tick.markFirst with _ | _
  · have hpending : ∀ earlier later, ReflectUnderWay (.settling later mark) →
      ReflectUnderWay (.settling earlier mark) := by
      intro earlier later h
      cases mark with
      | reading | writing _ _ => exact trivial
      | finished => exact h
    simp only [advance, hfirst, Bool.false_eq_true, if_false]
    cases own with
    | reading => exact .quiet hsame rfl False.elim (hpending _ _)
    | writing read started =>
      refine .quiet ⟨rfl, rfl, rfl, rfl⟩ ?_ False.elim (hpending _ _)
      rw [reflected_recordStep, hown read started rfl hfirst]
      simp [reflectCall]
    | finished => exact .quiet hsame rfl False.elim (hpending _ _)
  · simp only [advance, hfirst, if_true]
    cases mark with
    | reading => exact .quiet hsame rfl False.elim fun _ => trivial
    | writing read started =>
      refine .marks ⟨rfl, rfl, rfl, rfl⟩ ?_ trivial
      rw [reflected_recordStep]
      simp [reflectedMark]
    | finished => exact .quiet hsame rfl False.elim id

/-- Every command but that of an activity record which writes the log. -/
theorem effect_advance (tick : Tick) (state : SessionState) (thread : Thread)
    (hactivity : ∀ data read started, thread ≠ .recording data (.writing read started))
    (hown : ∀ read started mark, thread = .settling (.writing read started) mark → tick.markFirst = false →
      (getLog read).reflected = state.reflected) :
    Effect state (advance settings tick state thread).1 thread (advance settings tick state thread).2 := by
  have hsame : SameFlags state state := ⟨rfl, rfl, rfl, rfl⟩
  cases thread with
  | touching => exact .quiet ⟨rfl, rfl, rfl, rfl⟩ rfl False.elim False.elim
  | recording data stage =>
    cases stage with
    | reading => exact .quiet hsame rfl False.elim id
    | writing read started => exact absurd rfl (hactivity data read started)
    | finished => exact .quiet hsame rfl False.elim id
  | cleaning =>
    rcases hsession : state.session with _ | session
    · simp only [advance, hsession]
      exact .quiet hsame rfl False.elim False.elim
    · by_cases hexpired : session.expiresAt < tick.now
      · simp only [advance, hsession, if_pos hexpired]
        exact .quiet hsame rfl False.elim id
      · rcases hdue : idleReflectDue settings tick.now session with _ | _
        all_goals
          simp only [advance, hsession, if_neg hexpired, hdue, Bool.false_eq_true, if_false, if_true]
          exact .quiet hsame rfl False.elim id
  | closing =>
    rcases hsession : state.session with _ | session
    all_goals
      simp only [advance, hsession]
      exact .quiet hsame rfl False.elim id
  | reflecting progress sequel => exact effect_reflectStep tick state sequel progress
  | ending sequel =>
    cases sequel with
    | closing => exact .quiet ⟨rfl, rfl, rfl, rfl⟩ rfl False.elim id
    | stamping now => exact .quiet ⟨rfl, rfl, rfl, rfl⟩ rfl False.elim id
  | storing => exact .stores rfl id
  | settling own mark =>
    exact effect_settling tick state own mark fun read started hsame' => hown read started mark (by rw [hsame'])
  | finished => exact .quiet hsame rfl False.elim id

theorem records_advance (tick : Tick) (state : SessionState) (data : Activity) (read : Option ActivityLog)
    (started : Time) :
    Records state (advance settings tick state (.recording data (.writing read started))).1
      (advance settings tick state (.recording data (.writing read started))).2 read where
  reflected := by
    have hreflected := reflected_recordStep tick.now state data.val read started
    rw [data.property] at hreflected
    simp only [reduceCtorEq, decide_false, Bool.or_false] at hreflected
    exact hreflected
  begun := rfl
  repeated := rfl
  sinceRun := rfl
  sinceReflect := rfl
  idle := id

/-- A command with one of the effects, when an automatic reflect begins only while no other one is under way. -/
theorem sound_effect {pool next : Pool SessionState Thread} {i : ℕ} {thread later : Thread} (h : Sound pool)
    (hthread : pool.threads[i]? = some thread) (hthreads : next.threads = pool.threads.set i later)
    (heffect : Effect pool.shared next.shared thread later)
    (halone : ∀ sequel, thread = .reflecting .looking sequel → ∀ other ∈ pool.threads, ¬ AutoUnderWay other) :
    Sound next := by
  have hmem : thread ∈ pool.threads := List.mem_of_getElem? hthread
  have hlater : later ∈ next.threads := by
    rw [hthreads]
    exact List.mem_set (List.getElem?_eq_some_iff.mp hthread).1 later
  have hcases : ∀ other ∈ next.threads, other ∈ pool.threads ∨ other = later := fun other hother =>
    List.mem_or_eq_of_mem_set (hthreads ▸ hother)
  have hstays : ∀ other ∈ pool.threads, other = thread ∨ other ∈ next.threads := fun other hother =>
    hthreads ▸ mem_set_of_mem hthread hother later
  cases heffect with
  | quiet hflags hreflected hauto hpending =>
    refine ⟨fun hmarked => ?_, fun other hother hunder => ?_, fun hbegun => ?_, hflags.repeated.trans h.once⟩
    · rw [hflags.sinceReflect]
      exact h.marked (hreflected ▸ hmarked)
    · rw [hflags.sinceReflect]
      rcases hcases other hother with hold | rfl
      · exact h.pending other hold hunder
      · exact h.pending thread hmem (hpending hunder)
    · rw [hflags.sinceRun, hreflected]
      rcases h.covered (hflags.begun ▸ hbegun) with hsince | hmarked | ⟨other, hother, hunder⟩
      · exact Or.inl hsince
      · exact Or.inr (Or.inl hmarked)
      · rcases hstays other hother with rfl | hsame
        · exact Or.inr (Or.inr ⟨later, hlater, hauto hunder⟩)
        · exact Or.inr (Or.inr ⟨other, hsame, hunder⟩)
  | marks hflags hreflected hunder =>
    have hnone : next.shared.sinceReflect = false := hflags.sinceReflect.trans (h.pending thread hmem hunder)
    exact ⟨fun _ => hnone, fun _ _ _ => hnone, fun _ => Or.inr (Or.inl hreflected), hflags.repeated.trans h.once⟩
  | begins hreflected hnext hunder hlooking =>
    obtain ⟨sequel, hlooking⟩ := hlooking
    have hnone : next.shared.sinceReflect = false := by rw [hnext, begin]
    refine ⟨fun _ => hnone, fun _ _ _ => hnone, fun _ => Or.inr (Or.inr ⟨later, hlater, hunder⟩), ?_⟩
    have hfresh : pool.shared.begun = true → pool.shared.sinceRun = true := by
      intro hbegun
      rcases h.covered hbegun with hsince | hmarked | ⟨other, hother, hother'⟩
      · exact hsince
      · rw [hreflected] at hmarked
        cases hmarked
      · exact absurd hother' (halone sequel hlooking other hother)
    rw [hnext]
    rcases hbegun : pool.shared.begun with _ | _
    · simp [begin, h.once, hbegun]
    · simp [begin, h.once, hfresh hbegun]
  | stores hnext hquiet =>
    have hnone : next.shared.sinceReflect = false := by rw [hnext]
    refine ⟨fun _ => hnone, fun _ _ _ => hnone, fun hbegun => ?_, ?_⟩
    · rw [hnext] at hbegun ⊢
      rcases h.covered hbegun with hsince | hmarked | ⟨other, hother, hunder⟩
      · exact Or.inl hsince
      · exact Or.inr (Or.inl hmarked)
      · rcases hstays other hother with rfl | hsame
        · exact absurd hunder hquiet
        · exact Or.inr (Or.inr ⟨other, hsame, hunder⟩)
    · rw [hnext]
      exact h.once

/-- Activity that is written over an unmarked log while no reflect is under way. -/
theorem sound_records {pool next : Pool SessionState Thread} {i : ℕ} {later : Thread} {read : Option ActivityLog}
    (h : Sound pool) (hthreads : next.threads = pool.threads.set i later)
    (hrecords : Records pool.shared next.shared later read) (hread : (getLog read).reflected = false)
    (hnone : ∀ other ∈ pool.threads, ¬ ReflectUnderWay other) : Sound next := by
  refine ⟨fun hmarked => ?_, fun other hother hunder => ?_, fun _ => Or.inl hrecords.sinceRun, hrecords.repeated.trans h.once⟩
  · rw [hrecords.reflected, hread] at hmarked
    cases hmarked
  · rw [hthreads] at hother
    rcases List.mem_or_eq_of_mem_set hother with hold | rfl
    · exact absurd hunder (hnone other hold)
    · exact absurd hunder hrecords.idle

theorem sound_step (pool : Pool SessionState Thread) (event : ℕ × Tick) (h : Sound pool)
    (hregular : Regular pool event) :
    Sound (pool.step (advance settings) event) := by
  rcases Pool.step_cases (advance settings) pool event with ⟨-, hsame⟩ | ⟨thread, hthread, -, hshared, hthreads⟩
  · rw [hsame]
    exact h
  have hcondition := hregular thread hthread
  by_cases hactivity : ∃ data read started, thread = .recording data (.writing read started)
  · obtain ⟨data, read, started, rfl⟩ := hactivity
    have hrecords := @records_advance settings event.2 pool.shared data read started
    rw [← hshared] at hrecords
    exact sound_records h hthreads hrecords hcondition.1 hcondition.2
  · have heffect := @effect_advance settings event.2 pool.shared thread
      (fun data read started hsame => hactivity ⟨data, read, started, hsame⟩) (by
        rintro read started mark rfl
        exact hcondition)
    rw [← hshared] at heffect
    refine sound_effect h hthread hthreads heffect ?_
    rintro sequel rfl
    exact hcondition

theorem sound_start (session : SessionTimes) (programs : List Program) : Sound (start session programs) where
  marked := fun h => by cases h
  pending := fun _ _ _ => rfl
  covered := fun h => by cases h
  once := rfl

theorem reflectedOnce_of_sound {pool : Pool SessionState Thread} (h : Sound pool) : ReflectedOnce pool where
  once := h.once
  eligible := by
    intro _ hsince
    rcases hreflected : pool.shared.reflected with _ | _
    · rfl
    · rw [h.marked hreflected] at hsince
      cases hsince

/-- Nothing clears a mark: activity that is written over a marked log is not eligible. -/
theorem shut_out {pool : Pool SessionState Thread} {event : ℕ × Tick} {data : Activity} {read : Option ActivityLog}
    {started : Time}
    (hthread : pool.threads[event.1]? = some (.recording data (.writing read started)))
    (hmarked : (getLog read).reflected = true) (hnone : ∀ other ∈ pool.threads, ¬ ReflectUnderWay other) :
    ¬ ReflectedOnce (pool.step (advance settings) event) := by
  intro h
  rcases Pool.step_cases (advance settings) pool event with ⟨hmissing, -⟩ | ⟨thread, hacting, -, hshared, hthreads⟩
  · rw [hmissing] at hthread
    cases hthread
  obtain rfl : thread = .recording data (.writing read started) := Option.some.inj (hacting.symm.trans hthread)
  have hrecords := @records_advance settings event.2 pool.shared data read started
  rw [← hshared] at hrecords
  have hunmarked := h.eligible (fun other hother => ?_) hrecords.sinceReflect
  · rw [hrecords.reflected, hmarked] at hunmarked
    cases hunmarked
  · rw [hthreads] at hother
    rcases List.mem_or_eq_of_mem_set hother with hold | rfl
    · exact hnone other hold
    · exact hrecords.idle

/-- Reflects that do not overlap, with no activity after they have begun. -/
theorem session_reflected_once (settings : ReflectSettings) (session : SessionTimes) (programs : List Program)
    (schedule : List (ℕ × Tick)) (h : StepsMeet (Pool.step (advance settings)) Regular (start session programs) schedule) :
    ∀ earlier, earlier <+: schedule → ReflectedOnce (run (Pool.step (advance settings)) (start session programs) earlier) :=
  fun _ hearlier => reflectedOnce_of_sound (invariant_throughout sound_step (sound_start session programs) h hearlier)

def recallActivity : Activity := ⟨{ tool := some "recall", keywords := some [some "gateway"] }, rfl⟩

def openedSession : SessionTimes where
  createdAt := 0
  expiresAt := 2592000000

/-- Two calls of a tool within forty seconds, from the threads 0 and 1. -/
def twoCalls : List (ℕ × Tick) :=
  [(0, { now := 1 }), (0, { now := 1 }), (1, { now := 40000 }), (1, { now := 40000 })]

/-- A close from its first command to its last one, in the thread 2. -/
def closeAlone : List (ℕ × Tick) := List.replicate 7 (2, { now := 50000 })

theorem session_reflected_once_in_turn :
    ReflectedOnce (run (Pool.step (advance {})) (start openedSession [.record recallActivity, .record recallActivity, .close])
      (twoCalls ++ closeAlone)) :=
  session_reflected_once {} openedSession [.record recallActivity, .record recallActivity, .close] (twoCalls ++ closeAlone)
    (by decide) _ List.prefix_rfl

/-- A clean-up and a close that both look at the log before the model answers, and activity after the mark. -/
theorem session_reflected_twice_or_never :
    ¬ ReflectedOnce (run (Pool.step (advance {}))
        (start openedSession [.record recallActivity, .record recallActivity, .close, .cleanup])
        (twoCalls ++ List.replicate 2 (2, { now := 50000 }) ++ List.replicate 2 (3, { now := 90000000 }))) ∧
      ¬ ReflectedOnce (run (Pool.step (advance {}))
        (start openedSession [.record recallActivity, .record recallActivity, .close, .record recallActivity])
        (twoCalls ++ closeAlone ++ List.replicate 2 (3, { now := 60000 }))) := by
  refine ⟨fun h => ?_, fun h => ?_⟩
  · exact absurd h.once (by decide)
  · exact absurd (h.eligible (by decide) (by decide)) (by decide)

end FragmentMemory.AutoReflect
