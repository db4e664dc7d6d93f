import FragmentMemory.SlidingWindow

/-! # Rate limits

`RateLimiter` keeps the times of the allowed calls of each key.  It prunes them lazily and drops the keys that have
none left; its answers are those of a limiter that remembers every call.
-/
namespace FragmentMemory.RateLimits
open SlidingWindow

structure RateLimiter where
  windowMs : ℤ
  maxRequests : ℕ

/-- `_buckets`. -/
abbrev Buckets := String → Option (List ℤ)

def noBuckets : Buckets := fun _ => none

def setBucket (buckets : Buckets) (key : String) (hits : List ℤ) : Buckets :=
  fun other => if other = key then some hits else buckets other

/-- `allow`, at the time that the clock shows. -/
def allow (limiter : RateLimiter) (buckets : Buckets) (key : String) (now : ℤ) : Bool × Buckets :=
  let hits := prune (now - limiter.windowMs) ((buckets key).getD [])
  if limiter.maxRequests ≤ hits.length then (false, setBucket buckets key hits)
  else (true, setBucket buckets key (hits ++ [now]))

/-- `cleanup`. -/
def cleanup (limiter : RateLimiter) (buckets : Buckets) (now : ℤ) : Buckets := fun key =>
  (buckets key).bind fun hits =>
    let kept := prune (now - limiter.windowMs) hits
    if kept.isEmpty then none else some kept

inductive Call
  | allow (key : String) (now : ℤ)
  | cleanup (now : ℤ)

def Call.now : Call → ℤ
  | .allow _ now => now
  | .cleanup now => now

def Call.isAllow : Call → Bool
  | .allow _ _ => true
  | .cleanup _ => false

/-- The calls of a key, and the cleanups. -/
def Call.concerns (key : String) : Call → Bool
  | .allow other _ => other = key
  | .cleanup _ => true

structure Answer where
  key : String
  now : ℤ
  allowed : Bool
  deriving DecidableEq

/-- The answers of the limiter to the calls in their order. -/
def answersFrom (limiter : RateLimiter) : Buckets → List Call → List Answer
  | _, [] => []
  | buckets, .allow key now :: later =>
    ⟨key, now, (allow limiter buckets key now).1⟩ :: answersFrom limiter (allow limiter buckets key now).2 later
  | buckets, .cleanup now :: later => answersFrom limiter (cleanup limiter buckets now) later

def answers (limiter : RateLimiter) (calls : List Call) : List Answer := answersFrom limiter noBuckets calls

/-! ## A limiter that forgets nothing -/

/-- The times at which the key was allowed. -/
def allowedTimes (key : String) (history : List Answer) : List ℤ :=
  (history.filter fun a => a.key = key && a.allowed).map Answer.now

/-- The allowed calls of the key in the window that ends now. -/
def recentCount (limiter : RateLimiter) (history : List Answer) (key : String) (now : ℤ) : ℕ :=
  (allowedTimes key history).countP fun time => now - limiter.windowMs < time && time ≤ now

def exactAnswer (limiter : RateLimiter) (history : List Answer) (key : String) (now : ℤ) : Answer :=
  ⟨key, now, recentCount limiter history key now < limiter.maxRequests⟩

def exactFrom (limiter : RateLimiter) : List Answer → List Call → List Answer
  | _, [] => []
  | history, .allow key now :: later =>
    exactAnswer limiter history key now :: exactFrom limiter (history ++ [exactAnswer limiter history key now]) later
  | history, .cleanup _ :: later => exactFrom limiter history later

/-! ## The refinement -/

/-- Each bucket is the history of its key after some time before the window. -/
structure Tracks (limiter : RateLimiter) (buckets : Buckets) (history : List Answer) (now : ℤ) : Prop where
  bucket : ∀ key, ∃ cutoff ≤ now - limiter.windowMs, (buckets key).getD [] = after cutoff (allowedTimes key history)
  sorted : ∀ key, (allowedTimes key history).Pairwise (· ≤ ·)
  past : ∀ key, ∀ time ∈ allowedTimes key history, time ≤ now

variable {limiter : RateLimiter} {buckets : Buckets} {history : List Answer} {now : ℤ}

theorem allowedTimes_append (key : String) (history more : List Answer) :
    allowedTimes key (history ++ more) = allowedTimes key history ++ allowedTimes key more := by
  rw [allowedTimes, List.filter_append, List.map_append]
  rfl

theorem tracks_noBuckets (limiter : RateLimiter) (now : ℤ) : Tracks limiter noBuckets [] now where
  bucket _ := ⟨now - limiter.windowMs, le_rfl, rfl⟩
  sorted _ := List.Pairwise.nil
  past _ _ habsurd := absurd habsurd List.not_mem_nil

theorem Tracks.later (h : Tracks limiter buckets history now) {next : ℤ} (hnext : now ≤ next) :
    Tracks limiter buckets history next where
  bucket key := by
    obtain ⟨cutoff, hcutoff, hbucket⟩ := h.bucket key
    exact ⟨cutoff, by omega, hbucket⟩
  sorted := h.sorted
  past key time htime := (h.past key time htime).trans hnext

/-- What is left of a bucket after its pruning is the history in the window. -/
theorem Tracks.prune_eq (h : Tracks limiter buckets history now) (key : String) :
    prune (now - limiter.windowMs) ((buckets key).getD []) = after (now - limiter.windowMs) (allowedTimes key history) := by
  obtain ⟨cutoff, hcutoff, hbucket⟩ := h.bucket key
  rw [hbucket, prune_eq_after (pairwise_after (h.sorted key) cutoff), after_after hcutoff]

theorem Tracks.recentCount_eq (h : Tracks limiter buckets history now) (key : String) :
    recentCount limiter history key now = (after (now - limiter.windowMs) (allowedTimes key history)).length := by
  rw [recentCount, after, List.countP_eq_length_filter]
  congr 1
  refine List.filter_congr fun time htime => ?_
  rw [decide_eq_true (h.past key time htime), Bool.and_true]

theorem Tracks.allow_eq (h : Tracks limiter buckets history now) (key : String) :
    (allow limiter buckets key now).1 = (exactAnswer limiter history key now).allowed := by
  rw [allow, h.prune_eq, exactAnswer, h.recentCount_eq]
  by_cases hfull : limiter.maxRequests ≤ (after (now - limiter.windowMs) (allowedTimes key history)).length
  · rw [if_pos hfull]
    exact (decide_eq_false (by omega)).symm
  · rw [if_neg hfull]
    exact (decide_eq_true (by omega)).symm

theorem allowedTimes_singleton (key : String) (a : Answer) :
    allowedTimes key [a] = if a.key = key ∧ a.allowed = true then [a.now] else [] := by
  by_cases h : a.key = key ∧ a.allowed = true
  · rw [if_pos h]
    simp [allowedTimes, h]
  · rw [if_neg h]
    simpa [allowedTimes] using h

/-- A call of the limiter is one step of the history. -/
theorem Tracks.allow (h : Tracks limiter buckets history now) (hwindow : 0 < limiter.windowMs) (key : String) :
    Tracks limiter (allow limiter buckets key now).2 (history ++ [exactAnswer limiter history key now]) now := by
  have hanswer := h.allow_eq key
  have hhits := h.prune_eq key
  have htimes : ∀ other, allowedTimes other (history ++ [exactAnswer limiter history key now]) =
      allowedTimes other history ++
        if key = other ∧ (RateLimits.allow limiter buckets key now).1 = true then [now] else [] := by
    intro other
    rw [allowedTimes_append, allowedTimes_singleton, hanswer]
    rfl
  constructor
  · intro other
    rw [htimes]
    by_cases hother : other = key
    · refine ⟨now - limiter.windowMs, le_rfl, ?_⟩
      rw [hother, RateLimits.allow, hhits]
      by_cases hfull : limiter.maxRequests ≤ (after (now - limiter.windowMs) (allowedTimes key history)).length
      · rw [if_pos hfull, if_neg (fun habsurd => Bool.false_ne_true habsurd.2), List.append_nil]
        simp [setBucket]
      · rw [if_neg hfull, if_pos ⟨rfl, rfl⟩, after_append, after_singleton (by omega)]
        simp [setBucket]
    · obtain ⟨cutoff, hcutoff, hbucket⟩ := h.bucket other
      refine ⟨cutoff, hcutoff, ?_⟩
      rw [if_neg (fun habsurd => hother habsurd.1.symm), List.append_nil, ← hbucket, RateLimits.allow]
      split
      · simp [setBucket, hother]
      · simp [setBucket, hother]
  · intro other
    rw [htimes]
    split
    · refine List.pairwise_append.mpr ⟨h.sorted other, List.pairwise_singleton _ _, ?_⟩
      intro time htime last hlast
      rw [List.mem_singleton.mp hlast]
      exact h.past other time htime
    · rw [List.append_nil]
      exact h.sorted other
  · intro other time htime
    rw [htimes] at htime
    rcases List.mem_append.mp htime with hold | hnew
    · exact h.past other time hold
    · split at hnew
      · exact (List.mem_singleton.mp hnew).le
      · cases hnew

/-- A cleanup leaves the history as it is. -/
theorem Tracks.cleanup (h : Tracks limiter buckets history now) :
    Tracks limiter (cleanup limiter buckets now) history now := by
  refine ⟨?_, h.sorted, h.past⟩
  intro key
  refine ⟨now - limiter.windowMs, le_rfl, ?_⟩
  rw [← h.prune_eq, RateLimits.cleanup]
  cases buckets key with
  | none => rfl
  | some hits =>
    rw [Option.bind_some, Option.getD_some]
    by_cases hempty : (prune (now - limiter.windowMs) hits).isEmpty = true
    · rw [if_pos hempty, List.isEmpty_iff.mp hempty]
      rfl
    · rw [if_neg hempty, Option.getD_some]

/-- The clock does not go back. -/
def InOrder (calls : List Call) : Prop := (calls.map Call.now).Pairwise (· ≤ ·)

/-- The limiter gives the exact answers, by induction on the calls. -/
theorem answersFrom_eq (hwindow : 0 < limiter.windowMs) {calls : List Call} (horder : InOrder calls)
    (h : Tracks limiter buckets history now) (hlater : ∀ call ∈ calls, now ≤ call.now) :
    answersFrom limiter buckets calls = exactFrom limiter history calls := by
  induction calls generalizing buckets history now with
  | nil => rfl
  | cons call later ih =>
    obtain ⟨hfirst, horder'⟩ := List.pairwise_cons.mp horder
    have hreached := hlater call List.mem_cons_self
    have hnext : ∀ other ∈ later, call.now ≤ other.now := fun other hother => hfirst _ (List.mem_map_of_mem hother)
    cases call with
    | allow key time =>
      have hnow : Tracks limiter buckets history time := h.later hreached
      have hanswer : Answer.mk key time (allow limiter buckets key time).1 = exactAnswer limiter history key time := by
        rw [hnow.allow_eq key]
        rfl
      rw [answersFrom, exactFrom, hanswer, ih horder' (hnow.allow hwindow key) hnext]
    | cleanup time =>
      have hnow : Tracks limiter buckets history time := h.later hreached
      rw [answersFrom, exactFrom, ih horder' hnow.cleanup hnext]

/-! ## The exact answers -/

theorem exactFrom_append (history : List Answer) (front back : List Call) :
    exactFrom limiter history (front ++ back) =
      exactFrom limiter history front ++ exactFrom limiter (history ++ exactFrom limiter history front) back := by
  induction front generalizing history with
  | nil => rw [exactFrom, List.nil_append, List.append_nil, List.nil_append]
  | cons call later ih =>
    cases call with
    | allow key time =>
      rw [List.cons_append, exactFrom, exactFrom, ih, List.cons_append, List.append_assoc, List.singleton_append]
    | cleanup time => rw [List.cons_append, exactFrom, exactFrom, ih]

theorem exactFrom_isAllow (history : List Answer) (calls : List Call) :
    exactFrom limiter history (calls.filter Call.isAllow) = exactFrom limiter history calls := by
  induction calls generalizing history with
  | nil => rfl
  | cons call later ih =>
    cases call with
    | allow key time => rw [List.filter_cons_of_pos rfl, exactFrom, exactFrom, ih]
    | cleanup time => rw [List.filter_cons_of_neg Bool.false_ne_true, exactFrom, ih]

/-- The answers of a key are those of its own calls, by induction with two histories that agree on the key. -/
theorem exactFrom_concerns (key : String) {history other : List Answer}
    (hsame : history.filter (fun a => a.key = key) = other.filter fun a => a.key = key) (calls : List Call) :
    (exactFrom limiter history calls).filter (fun a => a.key = key) = exactFrom limiter other (calls.filter (Call.concerns key)) := by
  induction calls generalizing history other with
  | nil => rfl
  | cons call later ih =>
    cases call with
    | allow asked time =>
      by_cases hasked : asked = key
      · have htimes : allowedTimes asked history = allowedTimes asked other := by
          have hsplit : ∀ some : List Answer, allowedTimes asked some =
              ((some.filter fun a => a.key = key).filter Answer.allowed).map Answer.now := by
            intro some
            rw [allowedTimes, List.filter_filter, hasked]
            congr 2
            funext a
            rw [Bool.and_comm]
          rw [hsplit, hsplit, hsame]
        have hanswer : exactAnswer limiter history asked time = exactAnswer limiter other asked time := by
          rw [exactAnswer, exactAnswer, recentCount, recentCount, htimes]
        have hconcerns : Call.concerns key (.allow asked time) = true := decide_eq_true hasked
        have hkey : decide ((exactAnswer limiter other asked time).key = key) = true := decide_eq_true hasked
        rw [List.filter_cons_of_pos hconcerns, exactFrom, exactFrom, hanswer, List.filter_cons, if_pos hkey]
        congr 1
        apply ih
        rw [List.filter_append, List.filter_append, hsame]
      · have hconcerns : ¬ Call.concerns key (.allow asked time) = true :=
          fun habsurd => hasked (of_decide_eq_true habsurd)
        have hkey : ¬ decide ((exactAnswer limiter history asked time).key = key) = true := fun habsurd =>
          hasked (of_decide_eq_true habsurd)
        rw [List.filter_cons_of_neg hconcerns, exactFrom, List.filter_cons, if_neg hkey]
        apply ih
        rw [List.filter_append, List.filter_cons, if_neg hkey, List.filter_nil, List.append_nil, hsame]
    | cleanup time =>
      rw [List.filter_cons_of_pos rfl, exactFrom, exactFrom]
      exact ih hsame

/-- The limiter answers from the unpruned history of the key, whatever cleanups and other keys come between. -/
theorem answers_exact {limiter : RateLimiter} (hwindow : 0 < limiter.windowMs) {calls : List Call}
    (horder : InOrder calls) :
    (∀ before key now later, calls = before ++ .allow key now :: later →
      ∃ rest, answers limiter calls =
        answers limiter before ++ ⟨key, now, recentCount limiter (answers limiter before) key now < limiter.maxRequests⟩ :: rest) ∧
    answers limiter calls = answers limiter (calls.filter Call.isAllow) ∧
    ∀ key, (answers limiter calls).filter (fun a => a.key = key) = answers limiter (calls.filter (Call.concerns key)) := by
  have hexact : ∀ some : List Call, InOrder some → answers limiter some = exactFrom limiter [] some := by
    intro some hsome
    cases some with
    | nil => rfl
    | cons call later =>
      apply answersFrom_eq hwindow hsome (tracks_noBuckets limiter call.now)
      intro other hother
      rcases List.mem_cons.mp hother with rfl | hlater
      · exact le_rfl
      · exact (List.pairwise_cons.mp hsome).1 _ (List.mem_map_of_mem hlater)
  have hpart : ∀ some : List Call, some.Sublist calls → InOrder some :=
    fun some hsome => horder.sublist (hsome.map Call.now)
  refine ⟨?_, ?_, ?_⟩
  · rintro before key now later rfl
    rw [hexact _ horder, hexact before (hpart before (List.sublist_append_left _ _)), exactFrom_append,
      List.nil_append, exactFrom]
    exact ⟨_, rfl⟩
  · rw [hexact _ horder, hexact _ (hpart _ List.filter_sublist), exactFrom_isAllow]
  · intro key
    rw [hexact _ horder, hexact _ (hpart _ List.filter_sublist), exactFrom_concerns key rfl]

/-- Two calls a minute, a third one at the end of the window and one that has left it. -/
def sampleCalls : List Call :=
  [.allow "key:a" 0, .allow "key:a" 10, .allow "key:b" 20, .cleanup 30, .allow "key:a" 59999, .allow "key:a" 60000]

theorem sampleCalls_exact :
    (answers ⟨60000, 2⟩ sampleCalls).map Answer.allowed = [true, true, true, false, true] ∧
      answers ⟨60000, 2⟩ sampleCalls = answers ⟨60000, 2⟩ (sampleCalls.filter Call.isAllow) := by
  have hwindow : (0 : ℤ) < (⟨60000, 2⟩ : RateLimiter).windowMs := by decide
  have horder : InOrder sampleCalls := by
    rw [InOrder]
    decide
  exact ⟨by decide, (answers_exact hwindow horder).2.1⟩

end FragmentMemory.RateLimits
