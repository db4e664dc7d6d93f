import FragmentMemory.FragmentTables
import FragmentMemory.InterleavedRuns
import FragmentMemory.JsString
import FragmentMemory.RecentList
import Mathlib.Data.List.Perm.Basic

/-! # Activity log of a session

`SessionActivityTracker.record` reads the log of the session with `GET`, changes it in memory and writes all of it back
with `SETEX`.  The tools issue it without waiting, so records of one session run side by side.
-/
namespace FragmentMemory.SessionActivityTracker
open FragmentTables InterleavedRuns JsString RecentList TransitionRuns

/-- The stored log.  A missing array and an empty one are read alike, and so are a missing count and zero. -/
structure ActivityLog where
  startedAt : Option Time := none
  lastActivity : Option Time := none
  toolCalls : List (String × ℕ) := []
  /-- An undefined keyword is stored as null. -/
  keywords : List (Option String) := []
  searchPaths : List String := []
  fragments : List FragmentId := []
  reflected : Bool := false
  deriving DecidableEq

/-- What a tool records. -/
structure ActivityRecord where
  tool : Option String := none
  keywords : Option (List (Option String)) := none
  searchPath : Option String := none
  fragmentId : Option FragmentId := none
  action : Option String := none
  deriving DecidableEq

/-- The counts after one more call of a tool. -/
def countCall (tool : String) : List (String × ℕ) → List (String × ℕ)
  | [] => [(tool, 1)]
  | (name, count) :: others => if name = tool then (name, count + 1) :: others else (name, count) :: countCall tool others

/-- An undefined keyword is never found among the nulls that it was stored as. -/
def noteKeyword (keywords : List (Option String)) (keyword : Option String) : List (Option String) :=
  if keyword.isSome ∧ keyword ∈ keywords then keywords else keywords ++ [keyword]

def noteFragment (fragments : List FragmentId) (id : FragmentId) : List FragmentId :=
  if id ∈ fragments then fragments else fragments ++ [id]

/-- The change that `record` makes to the log in memory. -/
def ActivityLog.record (now : Time) (log : ActivityLog) (data : ActivityRecord) : ActivityLog where
  startedAt := some (log.startedAt.getD now)
  lastActivity := some now
  toolCalls := match truthy data.tool with
    | none => log.toolCalls
    | some tool => countCall tool log.toolCalls
  keywords := match data.keywords with
    | none => log.keywords
    | some keywords => newest 50 (keywords.foldl noteKeyword log.keywords)
  searchPaths := match truthy data.searchPath with
    | none => log.searchPaths
    | some path => newest 50 (log.searchPaths ++ [path])
  fragments := match truthy data.fragmentId with
    | none => log.fragments
    | some id => newest 100 (noteFragment log.fragments id)
  reflected := log.reflected || data.action = some "reflected"

/-- `_getLog`. -/
def getLog (stored : Option ActivityLog) : ActivityLog := stored.getD {}

/-- How often the log says that a tool was called. -/
def calls (log : ActivityLog) (tool : String) : ℕ := ((log.toolCalls.find? fun entry => entry.1 = tool).map Prod.snd).getD 0

/-- The log holds exactly the records that were written, in their order. -/
structure Complete (written : List ActivityRecord) (log : ActivityLog) : Prop where
  calls : ∀ tool, calls log tool = written.countP fun data => truthy data.tool = some tool
  keywords : Recent 50 (written.flatMap fun data => data.keywords.getD []) log.keywords
  keywordsBound : log.keywords.length ≤ 50
  fragments : Recent 100 (written.filterMap fun data => truthy data.fragmentId) log.fragments
  fragmentsBound : log.fragments.length ≤ 100
  distinct : log.fragments.Nodup
  reflected : log.reflected = true ↔ ∃ data ∈ written, data.action = some "reflected"

theorem calls_countCall (log : ActivityLog) (tool other : String) :
    calls { log with toolCalls := countCall tool log.toolCalls } other = calls log other + if tool = other then 1 else 0 := by
  obtain ⟨_, _, toolCalls, _, _, _, _⟩ := log
  simp only [calls]
  induction toolCalls with
  | nil =>
    by_cases hsame : tool = other
    · simp [countCall, hsame]
    · simp [countCall, hsame]
  | cons entry others ih =>
    obtain ⟨name, count⟩ := entry
    by_cases hname : name = tool
    · subst hname
      by_cases hsame : name = other
      · simp [countCall, hsame]
      · simp [countCall, hsame]
    · rw [countCall, if_neg hname]
      by_cases hsame : name = other
      · subst hsame
        simp [Ne.symm hname]
      · simpa [hsame] using ih

theorem recent_noteKeyword {recorded keywords : List (Option String)} (h : Recent 50 recorded keywords)
    (keyword : Option String) :
    Recent 50 (recorded ++ [keyword]) (noteKeyword keywords keyword) := by
  unfold noteKeyword
  split
  · rename_i hknown
    exact h.known hknown.2
  · exact h.push keyword

theorem recent_noteKeywords {recorded keywords : List (Option String)} (h : Recent 50 recorded keywords)
    (more : List (Option String)) : Recent 50 (recorded ++ more) (more.foldl noteKeyword keywords) := by
  induction more generalizing recorded keywords with
  | nil => rwa [List.append_nil]
  | cons keyword later ih =>
    rw [List.append_cons, List.foldl_cons]
    exact ih (recent_noteKeyword h keyword)

theorem recent_noteFragment {recorded fragments : List FragmentId} (h : Recent 100 recorded fragments)
    (id : FragmentId) :
    Recent 100 (recorded ++ [id]) (noteFragment fragments id) := by
  unfold noteFragment
  split
  · rename_i hknown
    exact h.known hknown
  · exact h.push id

theorem nodup_noteFragment {fragments : List FragmentId} (h : fragments.Nodup) (id : FragmentId) :
    (noteFragment fragments id).Nodup := by
  unfold noteFragment
  split
  · exact h
  · rename_i hnew
    exact List.nodup_append.mpr ⟨h, List.nodup_singleton id, fun listed hlisted other hother =>
      List.mem_singleton.mp hother ▸ ne_of_mem_of_not_mem hlisted hnew⟩

theorem complete_empty : Complete [] {} where
  calls := fun _ => rfl
  keywords := recent_nil 50
  keywordsBound := Nat.zero_le 50
  fragments := recent_nil 100
  fragmentsBound := Nat.zero_le 100
  distinct := List.nodup_nil
  reflected := by simp

/-- One more record, made on the log that holds all the others. -/
theorem complete_record {written : List ActivityRecord} {log : ActivityLog} (h : Complete written log) (now : Time)
    (data : ActivityRecord) : Complete (written ++ [data]) (log.record now data) where
  calls := by
    intro tool
    rw [List.countP_append, List.countP_singleton, ← h.calls tool]
    rcases htool : truthy data.tool with _ | called
    · simp only [ActivityLog.record, htool, calls, reduceCtorEq, decide_false, Bool.false_eq_true, if_false,
        Nat.add_zero]
    · have hcalls := calls_countCall log called tool
      simp only [calls] at hcalls
      simp only [ActivityLog.record, htool, calls, hcalls, Option.some.injEq, decide_eq_true_eq]
  keywords := by
    rw [List.flatMap_append, List.flatMap_singleton]
    rcases hkeywords : data.keywords with _ | keywords
    · simp only [ActivityLog.record, hkeywords, Option.getD_none, List.append_nil]
      exact h.keywords
    · simp only [ActivityLog.record, hkeywords, Option.getD_some]
      exact (recent_noteKeywords h.keywords keywords).newest
  keywordsBound := by
    rcases hkeywords : data.keywords with _ | keywords
    · simp only [ActivityLog.record, hkeywords]
      exact h.keywordsBound
    · simp only [ActivityLog.record, hkeywords]
      exact length_newest_le 50 _
  fragments := by
    rw [List.filterMap_append]
    rcases hid : truthy data.fragmentId with _ | id
    · simp only [ActivityLog.record, List.filterMap_cons, hid, List.filterMap_nil, List.append_nil]
      exact h.fragments
    · simp only [ActivityLog.record, List.filterMap_cons, hid, List.filterMap_nil]
      exact (recent_noteFragment h.fragments id).newest
  fragmentsBound := by
    rcases hid : truthy data.fragmentId with _ | id
    · simp only [ActivityLog.record, hid]
      exact h.fragmentsBound
    · simp only [ActivityLog.record, hid]
      exact length_newest_le 100 _
  distinct := by
    rcases hid : truthy data.fragmentId with _ | id
    · simp only [ActivityLog.record, hid]
      exact h.distinct
    · simp only [ActivityLog.record, hid]
      exact (nodup_noteFragment h.distinct id).sublist (newest_sublist 100 _)
  reflected := by
    simp only [ActivityLog.record, Bool.or_eq_true, h.reflected, decide_eq_true_eq, List.mem_append, List.mem_singleton]
    constructor
    · rintro (⟨earlier, hearlier, hreflected⟩ | hreflected)
      · exact ⟨earlier, Or.inl hearlier, hreflected⟩
      · exact ⟨data, Or.inr rfl, hreflected⟩
    · rintro ⟨other, hearlier | rfl, hreflected⟩
      · exact Or.inl ⟨other, hearlier, hreflected⟩
      · exact Or.inr hreflected

/-! ## Records side by side -/

/-- The next command of a record, `GET` and then `SETEX`; between them it holds the log that it read. -/
inductive Stage
  | reading
  | writing (read : Option ActivityLog) (now : Time)
  | finished
  deriving DecidableEq

structure Thread where
  data : ActivityRecord
  stage : Stage := .reading
  deriving DecidableEq

/-- The log in Redis, with the records that were written so far. -/
structure Tracker where
  log : Option ActivityLog := none
  written : List ActivityRecord := []
  deriving DecidableEq

/-- `record`, one command at a time; the clock is read right before the `GET`. -/
def advance (now : Time) (tracker : Tracker) (thread : Thread) : Tracker × Thread :=
  match thread.stage with
  | .reading => (tracker, { thread with stage := .writing tracker.log now })
  | .writing read started =>
    ({ log := some ((getLog read).record started thread.data), written := tracker.written ++ [thread.data] },
      { thread with stage := .finished })
  | .finished => (tracker, thread)

/-- Records that have not begun, for a session without a log. -/
def start (records : List ActivityRecord) : Pool Tracker Thread where
  shared := {}
  threads := records.map fun data => { data := data }

/-- A `SETEX` follows its own `GET` with no other one between them that changed the log. -/
def UpToDate (_ : Time) (tracker : Tracker) (thread : Thread) : Prop :=
  match thread.stage with
  | .writing read _ => read = tracker.log
  | _ => True

instance (now : Time) (tracker : Tracker) (thread : Thread) : Decidable (UpToDate now tracker thread) := by
  unfold UpToDate
  split <;> infer_instance

/-- The records of the calls that are through. -/
def finished (threads : List Thread) : List ActivityRecord :=
  threads.flatMap fun thread => if thread.stage = .finished then [thread.data] else []

/-- The log holds the records of all calls that are through, each one once. -/
def NoUpdateLost (pool : Pool Tracker Thread) : Prop :=
  pool.shared.written.Perm (finished pool.threads) ∧ Complete pool.shared.written (getLog pool.shared.log)

/-- The calls that are through after one more step of a call. -/
theorem perm_finished_set {threads : List Thread} {i : ℕ} {thread next : Thread} {more : List ActivityRecord}
    (h : threads[i]? = some thread) (hnext : finished [next] = finished [thread] ++ more) :
    (finished (threads.set i next)).Perm (finished threads ++ more) := by
  simp only [finished, List.flatMap_singleton] at hnext
  exact perm_flatMap_set h hnext

theorem noUpdateLost_step (pool : Pool Tracker Thread) (event : ℕ × Time) (h : NoUpdateLost pool)
    (hcurrent : ActsOnly UpToDate pool event) : NoUpdateLost (pool.step advance event) := by
  rcases Pool.step_cases advance pool event with ⟨-, hsame⟩ | ⟨thread, hthread, -, hshared, hthreads⟩
  · rw [hsame]
    exact h
  obtain ⟨hwritten, hcomplete⟩ := h
  have hupToDate := hcurrent thread hthread
  rw [NoUpdateLost, hshared, hthreads]
  rcases hstage : thread.stage with _ | ⟨read, started⟩ | _
  · have hnext : finished [(advance event.2 pool.shared thread).2] = finished [thread] ++ [] := by
      simp [finished, advance, hstage]
    have hset := perm_finished_set hthread hnext
    rw [List.append_nil] at hset
    simp only [advance, hstage] at hset ⊢
    exact ⟨hwritten.trans hset.symm, hcomplete⟩
  · have hnext : finished [(advance event.2 pool.shared thread).2] = finished [thread] ++ [thread.data] := by
      simp [finished, advance, hstage]
    have hset := perm_finished_set hthread hnext
    simp only [UpToDate, hstage] at hupToDate
    simp only [advance, hstage] at hset ⊢
    refine ⟨(hwritten.append_right [thread.data]).trans hset.symm, ?_⟩
    rw [hupToDate]
    exact complete_record hcomplete started thread.data
  · have hnext : finished [(advance event.2 pool.shared thread).2] = finished [thread] ++ [] := by
      simp [finished, advance, hstage]
    have hset := perm_finished_set hthread hnext
    rw [List.append_nil] at hset
    simp only [advance, hstage] at hset ⊢
    exact ⟨hwritten.trans hset.symm, hcomplete⟩

theorem noUpdateLost_start (records : List ActivityRecord) : NoUpdateLost (start records) := by
  have hnone : finished (start records).threads = [] := by
    simp [finished, start]
  refine ⟨?_, complete_empty⟩
  rw [hnone]
  exact List.Perm.refl []

/-- No record is lost while every `SETEX` writes over the log that its `GET` returned. -/
theorem activity_log_complete (records : List ActivityRecord) (schedule : List (ℕ × Time))
    (h : StepsMeet (Pool.step advance) (ActsOnly UpToDate) (start records) schedule) :
    ∀ earlier, earlier <+: schedule → NoUpdateLost (run (Pool.step advance) (start records) earlier) :=
  fun _ hearlier => invariant_throughout noUpdateLost_step (noUpdateLost_start records) h hearlier

def rememberRecord : ActivityRecord where
  tool := some "remember"
  keywords := some [some "gateway"]
  fragmentId := some "frag-01"

def reflectedRecord : ActivityRecord where
  action := some "reflected"

/-- One record after the other. -/
theorem activity_log_complete_in_turn :
    NoUpdateLost (run (Pool.step advance) (start [rememberRecord, reflectedRecord]) [(0, 1), (0, 1), (1, 2), (1, 2)]) :=
  activity_log_complete [rememberRecord, reflectedRecord] [(0, 1), (0, 1), (1, 2), (1, 2)] (by decide) _
    List.prefix_rfl

/-- Two records that read the log before either writes it: the mark that comes second is kept, the call that was
counted first is not. -/
theorem activity_log_loses :
    ¬ ∀ records schedule, NoUpdateLost (run (Pool.step advance) (start records) schedule) := by
  intro h
  obtain ⟨-, hcomplete⟩ := h [rememberRecord, reflectedRecord] [(0, 1), (1, 1), (0, 2), (1, 2)]
  exact absurd (hcomplete.calls "remember") (by decide)

end FragmentMemory.SessionActivityTracker
