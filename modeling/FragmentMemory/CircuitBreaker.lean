import FragmentMemory.KeyValueStore
import Mathlib.Data.List.Basic

/-! # CircuitBreaker

The breaker of a provider in its two implementations: in Redis as an unpruned list of failures and a time of
opening, each with a time to live, and in memory as a pruned list and a nullable time.
-/
namespace FragmentMemory.CircuitBreaker
open KeyValueStore

/-- The three values of the configuration. -/
structure Settings where
  failureThreshold : ℕ
  openDurationMs : ℕ
  failureWindowMs : ℕ

/-- `REDIS_TTL_SECONDS`. -/
def Settings.ttlSeconds (settings : Settings) : ℕ :=
  (settings.openDurationMs + settings.failureWindowMs + 999) / 1000 + 60

def Settings.ttlMs (settings : Settings) : ℕ := settings.ttlSeconds * 1000

def Settings.Positive (settings : Settings) : Prop :=
  0 < settings.failureThreshold ∧ 0 < settings.openDurationMs ∧ 0 < settings.failureWindowMs

variable (settings : Settings)

/-! ## In Redis -/

inductive RedisValue
  | string (time : ℕ)
  | list (times : List ℕ)
  deriving DecidableEq

abbrev Redis := Store RedisValue

def openedAtKey (name : String) : String := "llm:cb:" ++ name ++ ":openedAt"

def failuresKey (name : String) : String := "llm:cb:" ++ name ++ ":failures"

/-- `redisIsOpen`. -/
def redisIsOpen (redis : Redis) (name : String) (now : ℕ) : Bool × Redis :=
  match redis.get now (openedAtKey name) with
  | some (.string openedAt) =>
    if settings.openDurationMs ≤ now - openedAt then (false, redis.delete (openedAtKey name)) else (true, redis)
  | _ => (false, redis)

/-- What `rpush` leaves under the key of the failures; none where the key holds a string. -/
def pushed (redis : Redis) (name : String) (now : ℕ) : Option (List ℕ) :=
  match redis.get now (failuresKey name) with
  | some (.list times) => some (times ++ [now])
  | some (.string _) => none
  | none => some [now]

/-- `redisRecordFailure`; what a command throws is caught. -/
def redisRecordFailure (redis : Redis) (name : String) (now : ℕ) : Redis :=
  match pushed redis name now with
  | none => redis
  | some times =>
    let renewed := redis.put (failuresKey name) (.list times) (some (now + settings.ttlMs))
    if settings.failureThreshold ≤ times.countP fun time => now - settings.failureWindowMs ≤ time then
      renewed.put (openedAtKey name) (.string now) (some (now + settings.ttlMs))
    else renewed

/-- `redisRecordSuccess` and `redisReset`. -/
def redisClear (redis : Redis) (name : String) : Redis := (redis.delete (openedAtKey name)).delete (failuresKey name)

/-! ## In memory -/

structure MemState where
  failures : List ℕ := []
  openedAt : Option ℕ := none
  deriving DecidableEq

/-- `memState`. -/
abbrev Memory := String → Option MemState

/-- `getMemState`, without the entry that it adds. -/
def memOf (memory : Memory) (name : String) : MemState := (memory name).getD {}

def setMem (memory : Memory) (name : String) (state : MemState) : Memory :=
  fun other => if other = name then some state else memory other

/-- `memIsOpen`. -/
def memIsOpen (memory : Memory) (name : String) (now : ℕ) : Bool × Memory :=
  let state := memOf memory name
  match state.openedAt with
  | none => (false, setMem memory name state)
  | some openedAt =>
    if settings.openDurationMs ≤ now - openedAt then (false, setMem memory name { state with openedAt := none })
    else (true, setMem memory name state)

/-- `memRecordFailure`. -/
def memRecordFailure (memory : Memory) (name : String) (now : ℕ) : Memory :=
  let state := memOf memory name
  let failures := (state.failures.filter fun time => now - settings.failureWindowMs ≤ time) ++ [now]
  setMem memory name
    { failures := failures, openedAt := if settings.failureThreshold ≤ failures.length then some now else state.openedAt }

/-- `memRecordSuccess`. -/
def memRecordSuccess (memory : Memory) (name : String) : Memory := setMem memory name {}

/-- `memReset`. -/
def memReset (memory : Memory) (name : String) : Memory := fun other => if other = name then none else memory other

/-! ## Runs -/

inductive Operation | isOpen | recordFailure | recordSuccess | reset
  deriving DecidableEq

structure Call where
  operation : Operation
  name : String
  now : ℕ

/-- A call of the Redis implementation, with the answer of `isOpen`. -/
def redisCall (redis : Redis) (call : Call) : Option Bool × Redis :=
  match call.operation with
  | .isOpen =>
    (some (redisIsOpen settings redis call.name call.now).1, (redisIsOpen settings redis call.name call.now).2)
  | .recordFailure => (none, redisRecordFailure settings redis call.name call.now)
  | .recordSuccess | .reset => (none, redisClear redis call.name)

def memCall (memory : Memory) (call : Call) : Option Bool × Memory :=
  match call.operation with
  | .isOpen => (some (memIsOpen settings memory call.name call.now).1, (memIsOpen settings memory call.name call.now).2)
  | .recordFailure => (none, memRecordFailure settings memory call.name call.now)
  | .recordSuccess => (none, memRecordSuccess memory call.name)
  | .reset => (none, memReset memory call.name)

def redisAnswers : Redis → List Call → List (Option Bool)
  | _, [] => []
  | redis, call :: later => (redisCall settings redis call).1 :: redisAnswers (redisCall settings redis call).2 later

def memAnswers : Memory → List Call → List (Option Bool)
  | _, [] => []
  | memory, call :: later => (memCall settings memory call).1 :: memAnswers (memCall settings memory call).2 later

/-! ## Keys -/

theorem openedAtKey_ne_failuresKey (name other : String) : openedAtKey name ≠ failuresKey other := by
  intro h
  have hlast := congrArg (fun key : String => key.toList.getLast?) h
  simp only [openedAtKey, failuresKey, String.toList_append] at hlast
  rw [List.getLast?_append_of_ne_nil _ (by decide), List.getLast?_append_of_ne_nil _ (by decide)] at hlast
  revert hlast
  decide

theorem key_injective (front back : String) {name other : String}
    (h : front ++ name ++ back = front ++ other ++ back) : name = other := by
  have hchars := congrArg String.toList h
  simp only [String.toList_append] at hchars
  exact String.toList_inj.mp (List.append_cancel_left (List.append_cancel_right hchars))

theorem openedAtKey_inj {name other : String} : openedAtKey name = openedAtKey other ↔ name = other :=
  ⟨key_injective "llm:cb:" ":openedAt", congrArg openedAtKey⟩

theorem failuresKey_inj {name other : String} : failuresKey name = failuresKey other ↔ name = other :=
  ⟨key_injective "llm:cb:" ":failures", congrArg failuresKey⟩

/-! ## One provider -/

/-- The two entries of a provider in Redis and its state in memory: the times of opening agree unless the breaker
would close, and so do the failures of the window.  Each entry outlives what it holds. -/
structure Agrees (opened failures : Option (Entry RedisValue)) (state : MemState) (now : ℕ) : Prop where
  openedEntry : ∀ entry, opened = some entry → ∃ time, entry = ⟨.string time, some (time + settings.ttlMs)⟩
  failuresEntry : ∀ entry, failures = some entry →
    ∃ times deadline, entry = ⟨.list times, some deadline⟩ ∧ deadline ≤ now + settings.ttlMs ∧
      ∀ time ∈ times, time + settings.ttlMs ≤ deadline
  opening : ∀ time, now < time + settings.openDurationMs →
    (opened = some ⟨.string time, some (time + settings.ttlMs)⟩ ↔ state.openedAt = some time)
  recent : ∀ start, now ≤ start + settings.failureWindowMs →
    (∀ times deadline, failures = some ⟨.list times, deadline⟩ →
      times.filter (start ≤ ·) = state.failures.filter (start ≤ ·)) ∧
    (failures = none → state.failures.filter (start ≤ ·) = [])

variable {settings} {opened failures : Option (Entry RedisValue)} {state : MemState} {now : ℕ}

theorem openDurationMs_le (settings : Settings) : settings.openDurationMs ≤ settings.ttlMs := by
  rw [Settings.ttlMs, Settings.ttlSeconds]
  omega

theorem failureWindowMs_lt (settings : Settings) : settings.failureWindowMs < settings.ttlMs := by
  rw [Settings.ttlMs, Settings.ttlSeconds]
  omega

theorem agrees_none (now : ℕ) : Agrees settings none none {} now where
  openedEntry _ habsurd := by cases habsurd
  failuresEntry _ habsurd := by cases habsurd
  opening _ _ := by simp
  recent _ _ := ⟨fun _ _ habsurd => (by cases habsurd), fun _ => rfl⟩

theorem Agrees.later (h : Agrees settings opened failures state now) {next : ℕ} (hnext : now ≤ next) :
    Agrees settings opened failures state next where
  openedEntry := h.openedEntry
  failuresEntry entry hentry := by
    obtain ⟨times, deadline, hsame, hdeadline, htimes⟩ := h.failuresEntry entry hentry
    exact ⟨times, deadline, hsame, by omega, htimes⟩
  opening time htime := h.opening time (by omega)
  recent start hstart := h.recent start (by omega)

/-- The breaker is open when a time of opening is found that is not too old. -/
def stillOpen (settings : Settings) (openedAt : Option ℕ) (now : ℕ) : Bool :=
  openedAt.any fun time => now < time + settings.openDurationMs

/-- The time of opening that Redis finds. -/
def foundOpened (opened : Option (Entry RedisValue)) (now : ℕ) : Option ℕ :=
  match (opened.filter fun entry => entry.aliveAt now).map Entry.value with
  | some (.string time) => some time
  | _ => none

theorem Agrees.stillOpen_eq (h : Agrees settings opened failures state now) :
    stillOpen settings (foundOpened opened now) now = stillOpen settings state.openedAt now := by
  rw [Bool.eq_iff_iff, stillOpen, stillOpen, Option.any_eq_true, Option.any_eq_true]
  simp only [decide_eq_true_eq]
  refine exists_congr fun time => and_congr_left fun htime => ?_
  rw [← h.opening time htime]
  cases hopened : opened with
  | none => simp [foundOpened]
  | some entry =>
    obtain ⟨time', rfl⟩ := h.openedEntry entry hopened
    have httl := openDurationMs_le settings
    constructor
    · intro hfound
      rw [foundOpened, Option.filter_some] at hfound
      split at hfound
      · rename_i hvalue
        split at hvalue
        · cases hfound
          cases hvalue
          rfl
        · cases hvalue
      · cases hfound
    · intro hsame
      cases hsame
      have halive : (⟨.string time, some (time + settings.ttlMs)⟩ : Entry RedisValue).aliveAt now = true := by
        rw [Entry.aliveAt, decide_eq_true_eq]
        omega
      rw [foundOpened, Option.filter_some, if_pos halive]
      rfl

theorem not_openedAt (hclosed : stillOpen settings state.openedAt now = false) {time : ℕ}
    (htime : now < time + settings.openDurationMs) : state.openedAt ≠ some time := by
  intro hopened
  rw [stillOpen, hopened, Option.any_some, decide_eq_false_iff_not] at hclosed
  exact hclosed htime

/-- A time of opening that is too old may go in Redis. -/
theorem Agrees.forget (h : Agrees settings opened failures state now)
    (hclosed : stillOpen settings state.openedAt now = false) :
    Agrees settings none failures state now where
  openedEntry _ habsurd := by cases habsurd
  failuresEntry := h.failuresEntry
  opening time htime := by simpa using not_openedAt hclosed htime
  recent := h.recent

/-- It may go in memory. -/
theorem Agrees.close (h : Agrees settings opened failures state now)
    (hclosed : stillOpen settings state.openedAt now = false) :
    Agrees settings opened failures { state with openedAt := none } now where
  openedEntry := h.openedEntry
  failuresEntry := h.failuresEntry
  opening time htime := by
    rw [h.opening time htime]
    simpa using not_openedAt hclosed htime
  recent := h.recent

/-- The failures that Redis finds, those of the window being the ones in memory. -/
theorem Agrees.found (h : Agrees settings opened failures state now) :
    ∃ old, (match (failures.filter fun entry => entry.aliveAt now).map Entry.value with
        | some (.list times) => some (times ++ [now])
        | some (.string _) => none
        | none => some [now]) = some (old ++ [now]) ∧ (∀ time ∈ old, time ≤ now) ∧
      ∀ start, now ≤ start + settings.failureWindowMs → old.filter (start ≤ ·) = state.failures.filter (start ≤ ·) := by
  have httl := failureWindowMs_lt settings
  cases hfailures : failures with
  | none => exact ⟨[], rfl, fun _ habsurd => absurd habsurd List.not_mem_nil, fun start hstart => ((h.recent start hstart).2 hfailures).symm⟩
  | some entry =>
    obtain ⟨times, deadline, rfl, hdeadline, htimes⟩ := h.failuresEntry entry hfailures
    by_cases halive : (⟨.list times, some deadline⟩ : Entry RedisValue).aliveAt now = true
    · refine ⟨times,
        by rw [Option.filter_some, if_pos halive]; rfl, ?_, fun start hstart => (h.recent start hstart).1 _ _ hfailures⟩
      intro time htime
      have hold := htimes time htime
      omega
    · -- the list has expired, and with it every failure of the window
      refine ⟨[], by rw [Option.filter_some, if_neg halive]; rfl, fun _ habsurd => absurd habsurd List.not_mem_nil, ?_⟩
      intro start hstart
      rw [← (h.recent start hstart).1 _ _ hfailures, List.filter_nil]
      refine (List.filter_eq_nil_iff.mpr fun time htime => ?_).symm
      have hold := htimes time htime
      have hpast : deadline ≤ now := by simpa [Entry.aliveAt] using halive
      rw [decide_eq_true_eq]
      omega

/-- The failures after a further one. -/
theorem Agrees.push (h : Agrees settings opened failures state now) {old : List ℕ} (hpast : ∀ time ∈ old, time ≤ now)
    (hold : ∀ start, now ≤ start + settings.failureWindowMs →
      old.filter (start ≤ ·) = state.failures.filter (start ≤ ·)) :
    Agrees settings opened (some ⟨.list (old ++ [now]), some (now + settings.ttlMs)⟩)
      { state with failures := (state.failures.filter fun time => now - settings.failureWindowMs ≤ time) ++ [now] } now where
  openedEntry := h.openedEntry
  failuresEntry entry hentry := by
    cases hentry
    refine ⟨old ++ [now], now + settings.ttlMs, rfl, Nat.le_refl _, ?_⟩
    intro time htime
    rcases List.mem_append.mp htime with hmem | hlast
    · have hle := hpast time hmem
      omega
    · have hsame := List.mem_singleton.mp hlast
      omega
  opening := h.opening
  recent start hstart := by
    refine ⟨?_, fun habsurd => by cases habsurd⟩
    intro times deadline hentry
    cases hentry
    have hwindow : (state.failures.filter fun time => now - settings.failureWindowMs ≤ time).filter (start ≤ ·) =
        state.failures.filter (start ≤ ·) := by
      rw [List.filter_filter]
      refine List.filter_congr fun time _ => ?_
      rw [Bool.and_eq_left_iff_imp, decide_eq_true_eq, decide_eq_true_eq]
      omega
    rw [List.filter_append, List.filter_append, hold start hstart, hwindow]

theorem countP_push {old : List ℕ}
    (hold : ∀ start, now ≤ start + settings.failureWindowMs →
      old.filter (start ≤ ·) = state.failures.filter (start ≤ ·)) :
    (old ++ [now]).countP (fun time => now - settings.failureWindowMs ≤ time) =
      ((state.failures.filter fun time => now - settings.failureWindowMs ≤ time) ++ [now]).length := by
  have hlast : (fun time => decide (now - settings.failureWindowMs ≤ time)) now = true := by
    rw [decide_eq_true_eq]
    omega
  rw [List.countP_append, List.countP_eq_length_filter,
    hold _ (by omega), List.length_append, List.countP_singleton, if_pos hlast]
  rfl

/-- The opening of the breaker. -/
theorem Agrees.trip (h : Agrees settings opened failures state now) :
    Agrees settings (some ⟨.string now, some (now + settings.ttlMs)⟩) failures { state with openedAt := some now } now where
  openedEntry entry hentry := by
    cases hentry
    exact ⟨now, rfl⟩
  failuresEntry := h.failuresEntry
  opening time _ := by
    constructor
    · intro hsame
      cases hsame
      rfl
    · intro hsame
      cases hsame
      rfl
  recent := h.recent

/-! ## All providers -/

variable {redis : Redis} {memory : Memory}

def Matches (settings : Settings) (redis : Redis) (memory : Memory) (now : ℕ) : Prop :=
  ∀ name, Agrees settings (redis (openedAtKey name)) (redis (failuresKey name)) (memOf memory name) now

theorem memOf_setMem (memory : Memory) (name other : String) (state : MemState) :
    memOf (setMem memory name state) other = if other = name then state else memOf memory other := by
  rw [memOf, setMem]
  split
  · rfl
  · rfl

theorem elapsed_iff (hsettings : settings.Positive) (time : ℕ) :
    settings.openDurationMs ≤ now - time ↔ ¬ now < time + settings.openDurationMs := by
  have hpositive := hsettings.2.1
  omega

theorem redisIsOpen_spec (hsettings : settings.Positive) (redis : Redis) (name : String) (now : ℕ) :
    (redisIsOpen settings redis name now).1 = stillOpen settings (foundOpened (redis (openedAtKey name)) now) now ∧
      ((redisIsOpen settings redis name now).2 = redis ∨
        stillOpen settings (foundOpened (redis (openedAtKey name)) now) now = false ∧
          (redisIsOpen settings redis name now).2 = redis.delete (openedAtKey name)) := by
  have hget : redis.get now (openedAtKey name) =
      ((redis (openedAtKey name)).filter fun entry => entry.aliveAt now).map Entry.value := rfl
  rw [redisIsOpen, foundOpened, ← hget]
  cases redis.get now (openedAtKey name) with
  | none => exact ⟨rfl, Or.inl rfl⟩
  | some value =>
    cases value with
    | list times => exact ⟨rfl, Or.inl rfl⟩
    | string time =>
      dsimp only
      rw [stillOpen, Option.any_some]
      by_cases helapsed : settings.openDurationMs ≤ now - time
      · have hclosed := (elapsed_iff hsettings time).mp helapsed
        rw [if_pos helapsed, decide_eq_false hclosed]
        exact ⟨rfl, Or.inr ⟨rfl, rfl⟩⟩
      · have hopen : now < time + settings.openDurationMs := by
          by_contra hclosed
          exact helapsed ((elapsed_iff hsettings time).mpr hclosed)
        rw [if_neg helapsed, decide_eq_true hopen]
        exact ⟨rfl, Or.inl rfl⟩

theorem memIsOpen_spec (hsettings : settings.Positive) (memory : Memory) (name : String) (now : ℕ) :
    (memIsOpen settings memory name now).1 = stillOpen settings (memOf memory name).openedAt now ∧
      ((memIsOpen settings memory name now).2 = setMem memory name (memOf memory name) ∨
        stillOpen settings (memOf memory name).openedAt now = false ∧
          (memIsOpen settings memory name now).2 = setMem memory name { memOf memory name with openedAt := none }) := by
  rw [memIsOpen]
  dsimp only
  cases (memOf memory name).openedAt with
  | none => exact ⟨rfl, Or.inl rfl⟩
  | some time =>
    dsimp only
    rw [stillOpen, Option.any_some]
    by_cases helapsed : settings.openDurationMs ≤ now - time
    · have hclosed := (elapsed_iff hsettings time).mp helapsed
      rw [if_pos helapsed, decide_eq_false hclosed]
      exact ⟨rfl, Or.inr ⟨rfl, rfl⟩⟩
    · have hopen : now < time + settings.openDurationMs := by
        by_contra hclosed
        exact helapsed ((elapsed_iff hsettings time).mpr hclosed)
      rw [if_neg helapsed, decide_eq_true hopen]
      exact ⟨rfl, Or.inl rfl⟩

theorem Matches.redisIsOpen (hsettings : settings.Positive) (h : Matches settings redis memory now) (name : String) :
    Matches settings (redisIsOpen settings redis name now).2 memory now := by
  obtain ⟨-, hredis⟩ := redisIsOpen_spec hsettings redis name now
  rcases hredis with hkept | ⟨hclosed, hdropped⟩
  · rw [hkept]
    exact h
  · intro other
    have hfailures : (redis.delete (openedAtKey name)) (failuresKey other) = redis (failuresKey other) :=
      if_neg fun habsurd => openedAtKey_ne_failuresKey name other habsurd.symm
    rw [hdropped, hfailures]
    by_cases hname : other = name
    · have hgone : (redis.delete (openedAtKey name)) (openedAtKey other) = none := if_pos (by rw [hname])
      rw [(h name).stillOpen_eq, ← hname] at hclosed
      rw [hgone]
      exact (h other).forget hclosed
    · have hkept : (redis.delete (openedAtKey name)) (openedAtKey other) = redis (openedAtKey other) :=
        if_neg fun habsurd => hname (openedAtKey_inj.mp habsurd)
      rw [hkept]
      exact h other

/-- A new state of one provider in memory. -/
theorem Matches.setMem (h : Matches settings redis memory now) {name : String} {state : MemState}
    (hstate : Agrees settings (redis (openedAtKey name)) (redis (failuresKey name)) state now) :
    Matches settings redis (setMem memory name state) now := by
  intro other
  rw [memOf_setMem]
  split
  · rename_i hother
    rw [hother]
    exact hstate
  · exact h other

theorem Matches.memIsOpen (hsettings : settings.Positive) (h : Matches settings redis memory now) (name : String) :
    Matches settings redis (memIsOpen settings memory name now).2 now := by
  obtain ⟨-, hmem⟩ := memIsOpen_spec hsettings memory name now
  rcases hmem with hkept | ⟨hclosed, hdropped⟩
  · rw [hkept]
    exact h.setMem (h name)
  · rw [hdropped]
    exact h.setMem ((h name).close hclosed)

/-- What stands under the keys of a provider after a put under one of them. -/
theorem put_openedAt (redis : Redis) (name other : String) (value : RedisValue) (deadline : Option ℕ) :
    (redis.put (openedAtKey name) value deadline) (openedAtKey other) =
        (if other = name then some ⟨value, deadline⟩ else redis (openedAtKey other)) ∧
      (redis.put (openedAtKey name) value deadline) (failuresKey other) = redis (failuresKey other) := by
  constructor
  · rw [Store.put]
    simp only [openedAtKey_inj]
  · exact if_neg fun habsurd => openedAtKey_ne_failuresKey name other habsurd.symm

theorem put_failures (redis : Redis) (name other : String) (value : RedisValue) (deadline : Option ℕ) :
    (redis.put (failuresKey name) value deadline) (failuresKey other) =
        (if other = name then some ⟨value, deadline⟩ else redis (failuresKey other)) ∧
      (redis.put (failuresKey name) value deadline) (openedAtKey other) = redis (openedAtKey other) := by
  constructor
  · rw [Store.put]
    simp only [failuresKey_inj]
  · exact if_neg (openedAtKey_ne_failuresKey other name)

theorem Matches.recordFailure (h : Matches settings redis memory now) (name : String) :
    Matches settings (redisRecordFailure settings redis name now) (memRecordFailure settings memory name now) now := by
  obtain ⟨old, hpushed, hpast, hold⟩ := (h name).found
  have hpushed' : pushed redis name now = some (old ++ [now]) := hpushed
  have hagrees := (h name).push hpast hold
  rw [redisRecordFailure, hpushed', memRecordFailure]
  dsimp only
  rw [countP_push hold]
  intro other
  rw [memOf_setMem]
  by_cases hother : other = name
  · rw [if_pos hother, hother]
    by_cases hfull : settings.failureThreshold ≤
        (((memOf memory name).failures.filter fun time => now - settings.failureWindowMs ≤ time) ++ [now]).length
    · rw [if_pos hfull, if_pos hfull, (put_openedAt _ name name _ _).1, (put_openedAt _ name name _ _).2, if_pos rfl,
        (put_failures redis name name _ _).1, if_pos rfl]
      exact hagrees.trip
    · rw [if_neg hfull, if_neg hfull, (put_failures redis name name _ _).1, (put_failures redis name name _ _).2,
        if_pos rfl]
      exact hagrees
  · rw [if_neg hother]
    split
    · rw [(put_openedAt _ name other _ _).1, (put_openedAt _ name other _ _).2, if_neg hother,
        (put_failures redis name other _ _).1, (put_failures redis name other _ _).2, if_neg hother]
      exact h other
    · rw [(put_failures redis name other _ _).1, (put_failures redis name other _ _).2, if_neg hother]
      exact h other

/-- A success and a reset clear the provider in both. -/
theorem Matches.clear (h : Matches settings redis memory now) {name : String} {memory' : Memory}
    (hcleared : ∀ other, memOf memory' other = if other = name then {} else memOf memory other) :
    Matches settings (redisClear redis name) memory' now := by
  intro other
  rw [hcleared]
  by_cases hother : other = name
  · have hopened : (redisClear redis name) (openedAtKey other) = none := by
      rw [redisClear, Store.delete, if_neg (openedAtKey_ne_failuresKey other name), Store.delete,
        if_pos (by rw [hother])]
    have hfailures : (redisClear redis name) (failuresKey other) = none := by
      rw [redisClear, Store.delete, if_pos (by rw [hother])]
    rw [if_pos hother, hopened, hfailures]
    exact agrees_none now
  · have hopened : (redisClear redis name) (openedAtKey other) = redis (openedAtKey other) := by
      rw [redisClear, Store.delete, if_neg (openedAtKey_ne_failuresKey other name), Store.delete,
        if_neg fun habsurd => hother (openedAtKey_inj.mp habsurd)]
    have hfailures : (redisClear redis name) (failuresKey other) = redis (failuresKey other) := by
      rw [redisClear, Store.delete, if_neg (fun habsurd => hother (failuresKey_inj.mp habsurd)), Store.delete,
        if_neg fun habsurd => openedAtKey_ne_failuresKey name other habsurd.symm]
    rw [if_neg hother, hopened, hfailures]
    exact h other

/-- The answers of one call are alike, and the states match after it. -/
theorem Matches.call (hsettings : settings.Positive) {call : Call} (h : Matches settings redis memory call.now) :
    (redisCall settings redis call).1 = (memCall settings memory call).1 ∧
      Matches settings (redisCall settings redis call).2 (memCall settings memory call).2 call.now := by
  rw [redisCall, memCall]
  cases call.operation with
  | isOpen =>
    have hredis := (redisIsOpen_spec hsettings redis call.name call.now).1
    have hmem := (memIsOpen_spec hsettings memory call.name call.now).1
    refine ⟨?_, (h.redisIsOpen hsettings call.name).memIsOpen hsettings call.name⟩
    rw [hredis, hmem, (h call.name).stillOpen_eq]
  | recordFailure => exact ⟨rfl, h.recordFailure call.name⟩
  | recordSuccess => exact ⟨rfl, h.clear fun other => memOf_setMem memory call.name other {}⟩
  | reset =>
    refine ⟨rfl, h.clear fun other => ?_⟩
    show (if other = call.name then none else memory other).getD {} = _
    split
    · rfl
    · rfl

/-- In every run with a clock that does not go back the two implementations answer alike; by induction on the calls,
the states of a provider agreeing after each. -/
theorem answers_alike {settings : Settings} (hsettings : settings.Positive) {calls : List Call}
    (horder : (calls.map Call.now).Pairwise (· ≤ ·)) :
    redisAnswers settings Store.empty calls = memAnswers settings (fun _ => none) calls := by
  have hrun : ∀ (redis : Redis) (memory : Memory) (now : ℕ), Matches settings redis memory now →
      (∀ call ∈ calls, now ≤ call.now) → redisAnswers settings redis calls = memAnswers settings memory calls := by
    induction calls with
    | nil => exact fun _ _ _ _ _ => rfl
    | cons call later ih =>
      obtain ⟨hfirst, horder'⟩ := List.pairwise_cons.mp horder
      intro redis memory now h hlater
      have hnow : Matches settings redis memory call.now := fun name => (h name).later (hlater call List.mem_cons_self)
      obtain ⟨hanswer, hnext⟩ := hnow.call hsettings
      rw [redisAnswers, memAnswers, hanswer]
      congr 1
      exact ih horder' _ _ call.now hnext fun other hother => hfirst _ (List.mem_map_of_mem hother)
  exact hrun _ _ 0 (fun _ => agrees_none 0) fun call _ => Nat.zero_le call.now

/-- Two failures open the breaker, a third one after the half-open answer opens it again. -/
def sampleCalls : List Call :=
  [⟨.recordFailure, "gemini", 0⟩, ⟨.recordFailure, "gemini", 10⟩, ⟨.isOpen, "gemini", 20⟩, ⟨.isOpen, "gemini", 1010⟩,
    ⟨.recordFailure, "gemini", 1011⟩, ⟨.isOpen, "gemini", 1012⟩, ⟨.isOpen, "gemini", 100000⟩]

theorem sampleCalls_alike :
    redisAnswers ⟨2, 1000, 2000⟩ Store.empty sampleCalls = [none, none, some true, some false, none, some true, some false] ∧
      redisAnswers ⟨2, 1000, 2000⟩ Store.empty sampleCalls = memAnswers ⟨2, 1000, 2000⟩ (fun _ => none) sampleCalls := by
  have hsettings : (⟨2, 1000, 2000⟩ : Settings).Positive := ⟨by decide, by decide, by decide⟩
  have horder : (sampleCalls.map Call.now).Pairwise (· ≤ ·) := by decide
  exact ⟨by decide, answers_alike hsettings horder⟩

end FragmentMemory.CircuitBreaker
