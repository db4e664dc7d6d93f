import FragmentMemory.InterleavedRuns
import FragmentMemory.StreamableSessions

/-! # Session handlers side by side

The handlers of `StreamableSessions` cut at their awaits.  A handler keeps a reference to the session object it
found, and the object may leave the map of the process while the handler waits.
-/
namespace FragmentMemory.SessionHandlers
open ApiKeyStore KeyValueStore OAuthServer StreamableSessions InterleavedRuns TransitionRuns

structure SessionSettings extends Config where
  idleReflectHours : ℕ := 24

/-- The clock, the objects that were made for each id, the map to the one in use, and the Redis copies. -/
structure SessionProcess where
  clock : ℕ
  objects : String → List Session
  streamableSessions : String → Option ℕ
  redis : Store Session

namespace SessionProcess

def empty (clock : ℕ) : SessionProcess := ⟨clock, fun _ => [], fun _ => none, .empty⟩

/-- `streamableSessions.get`. -/
def held (process : SessionProcess) (sessionId : String) : Option Session :=
  (process.streamableSessions sessionId).bind fun reference => (process.objects sessionId)[reference]?

/-- A new object, put into the map. -/
def install (process : SessionProcess) (sessionId : String) (session : Session) : SessionProcess :=
  { process with
    objects := Function.update process.objects sessionId (process.objects sessionId ++ [session])
    streamableSessions :=
      Function.update process.streamableSessions sessionId (some (process.objects sessionId).length) }

/-- Assignments to the fields of an object, in the map or not. -/
def write (process : SessionProcess) (sessionId : String) (reference : ℕ) (session : Session) : SessionProcess :=
  { process with
    objects := Function.update process.objects sessionId ((process.objects sessionId).set reference session) }

def forget (process : SessionProcess) (sessionId : String) : SessionProcess :=
  { process with streamableSessions := Function.update process.streamableSessions sessionId none }

end SessionProcess

inductive SessionRequest
  | create (sessionId : String) (authenticated : Bool) (context : SessionContext) (negotiatedVersion : Option String)
  | validate (sessionId : String) (requestedVersion : Option String)
  | close (sessionId : String)
  | rotate (oldSessionId newSessionId : String)
  /-- One iteration of `cleanupExpiredSessions`, whose clock was read before its first one. -/
  | cleanup (startedAt : ℕ) (sessionId : String)
  /-- The process starts again with an empty map. -/
  | restart

/-- The session that a request finds, renews or removes. -/
def SessionRequest.sessionId : SessionRequest → Option String
  | .create sessionId _ _ _ | .validate sessionId _ | .close sessionId | .rotate sessionId _ | .cleanup _ sessionId =>
    some sessionId
  | .restart => none

/-- Why a session is removed. -/
inductive Ending
  | closed
  | expired
  | cleaned
  | rotated (keyId : Option KeyId) (workspace : Option String)
  deriving DecidableEq

inductive Answer
  | created
  | valid (reference : ℕ)
  | notFound
  | ended (ending : Ending)
  | kept
  deriving DecidableEq

/-- Where a handler stands: before its first statement, at an await, or at its end. -/
inductive Stage
  | starting
  | reading
  | restoring (reference : ℕ) (copy : Session)
  | saving (copy : Session) (ttlSeconds : ℕ) (validated : Option ℕ)
  | replacing (copy : Session)
  | reflecting (ending : Ending)
  | deleting (ending : Ending)
  | idling (reference : ℕ)
  | finished (answer : Answer)
  deriving DecidableEq

structure Thread where
  request : SessionRequest
  stage : Stage := .starting

/-- What a step meets: the time since the last one, and whether its command fails. -/
structure StepInput where
  elapsed : ℕ := 0
  fails : Bool := false

variable (settings : SessionSettings) (now : ℕ)

/-- `getSession`: a failing read finds nothing, and neither does the stub client of a disabled Redis. -/
def getSession (fails : Bool) (process : SessionProcess) (sessionId : String) : Option Session :=
  if fails || !settings.redisEnabled then none else process.redis.get now sessionId

/-- `saveSession`: a failing write is logged. -/
def saveSession (fails : Bool) (process : SessionProcess) (sessionId : String) (copy : Session) (ttlSeconds : ℕ) :
    SessionProcess :=
  if fails then process
  else { process with redis := process.redis.put sessionId copy (some (now + ttlSeconds * 1000)) }

/-- `deleteSession`: a failing deletion is logged. -/
def deleteSession (fails : Bool) (process : SessionProcess) (sessionId : String) : SessionProcess :=
  if fails then process else { process with redis := process.redis.delete sessionId }

def newSession (sessionId : String) (authenticated : Bool) (context : SessionContext)
    (negotiatedVersion : Option String) : Session where
  sessionId := sessionId
  authenticated := authenticated
  keyId := context.keyId
  groupKeyIds := context.groupKeyIds
  permissions := context.permissions
  defaultWorkspace := context.defaultWorkspace
  mode := context.mode
  createdAt := now
  expiresAt := now + settings.sessionTtlMs
  lastAccessedAt := now
  negotiatedVersion := negotiatedVersion

/-- `closeStreamableSession` up to its first await. -/
def beginClose (process : SessionProcess) (sessionId : String) (ending : Ending) : Stage :=
  if (process.streamableSessions sessionId).isSome then .reflecting ending else .finished (.ended ending)

/-- `session.close`. -/
def closeSession (process : SessionProcess) (sessionId : String) (ending : Ending) : SessionProcess × Stage :=
  (process.forget sessionId, if settings.redisEnabled then .deleting ending else .finished (.ended ending))

/-- The expiry test of `validateStreamableSession` and what follows it. -/
def examine (process : SessionProcess) (sessionId : String) (reference : ℕ) : SessionProcess × Stage :=
  match (process.objects sessionId)[reference]? with
  | none => (process, .finished .notFound)
  | some session =>
    if session.expiresAt < now then (process, beginClose process sessionId .expired)
    else
      let renewed := { session with lastAccessedAt := now, expiresAt := now + settings.sessionTtlMs }
      (process.write sessionId reference renewed,
        if settings.redisEnabled then .saving renewed (max (ceilSeconds settings.sessionTtlMs) 60) (some reference)
        else .finished (.valid reference))

/-- The object made from a Redis copy has a new lifetime, whatever is left of the old one. -/
def restored (requestedVersion : Option String) (copy : Session) : Session :=
  { copy with
    lastAccessedAt := now
    expiresAt := now + settings.sessionTtlMs
    negotiatedVersion :=
      requestedVersion.filter (fun version => settings.supportedProtocolVersions.contains version) <|>
        copy.negotiatedVersion }

/-- `rotateSession` from its expiry test to the next await. -/
def rotateFrom (process : SessionProcess) (oldSessionId newSessionId : String) (existing : Session) :
    SessionProcess × Stage :=
  if existing.expiresAt < now then (process, beginClose process oldSessionId .expired)
  else
    let session := newSession settings now newSessionId existing.authenticated existing.context none
    let created := process.install newSessionId session
    if settings.redisEnabled then (created, .replacing session)
    else closeSession settings created oldSessionId (.rotated existing.keyId existing.defaultWorkspace)

/-- Whether `cleanupExpiredSessions` reflects a session that has not expired. -/
def idleReflects (startedAt : ℕ) (session : Session) : Bool :=
  let idleThresholdMs := settings.idleReflectHours * 3600 * 1000
  let lastAccess := if session.lastAccessedAt = 0 then session.createdAt else session.lastAccessedAt
  idleThresholdMs < startedAt - lastAccess &&
    session.lastReflectedAt.all fun reflectedAt => reflectedAt = 0 || idleThresholdMs < startedAt - reflectedAt

/-- A handler up to its first await. -/
def begin (process : SessionProcess) : SessionRequest → SessionProcess × Stage
  | .create sessionId authenticated context negotiatedVersion =>
    let session := newSession settings now sessionId authenticated context negotiatedVersion
    (process.install sessionId session,
      if settings.redisEnabled then .saving session settings.cacheSessionTtl none else .finished .created)
  | .validate sessionId _ =>
    match process.streamableSessions sessionId with
    | some reference => examine settings now process sessionId reference
    | none => (process, if settings.redisEnabled then .reading else .finished .notFound)
  | .close sessionId => (process, beginClose process sessionId .closed)
  | .rotate oldSessionId newSessionId =>
    match process.held oldSessionId with
    | some existing => rotateFrom settings now process oldSessionId newSessionId existing
    | none => (process, if settings.redisEnabled then .reading else .finished .notFound)
  | .cleanup startedAt sessionId =>
    match process.streamableSessions sessionId, process.held sessionId with
    | some reference, some session =>
      if session.expiresAt < startedAt then (process, beginClose process sessionId .cleaned)
      else (process, if idleReflects settings startedAt session then .idling reference else .finished .kept)
    | _, _ => (process, .finished .kept)
  | .restart => ({ process with streamableSessions := fun _ => none }, .finished .kept)

/-- A handler from one await to the next. -/
def continueFrom (fails : Bool) (process : SessionProcess) (request : SessionRequest) : Stage → SessionProcess × Stage
  | .starting => begin settings now process request
  | .reading =>
    match request with
    | .validate sessionId requestedVersion =>
      match getSession settings now fails process sessionId with
      | none => (process, .finished .notFound)
      | some copy =>
        let session := restored settings now requestedVersion copy
        (process.install sessionId session, .restoring (process.objects sessionId).length session)
    | .rotate oldSessionId newSessionId =>
      match getSession settings now fails process oldSessionId with
      | none => (process, .finished .notFound)
      | some existing => rotateFrom settings now process oldSessionId newSessionId existing
    | _ => (process, .reading)
  | .restoring reference copy =>
    match request.sessionId with
    | some sessionId =>
      examine settings now (saveSession now fails process sessionId copy (ceilSeconds settings.sessionTtlMs)) sessionId
        reference
    | none => (process, .restoring reference copy)
  | .saving copy ttlSeconds validated =>
    match request.sessionId with
    | some sessionId =>
      (saveSession now fails process sessionId copy ttlSeconds,
        .finished (match validated with | none => .created | some reference => .valid reference))
    | none => (process, .saving copy ttlSeconds validated)
  | .replacing copy =>
    match request with
    | .rotate oldSessionId newSessionId =>
      closeSession settings (saveSession now fails process newSessionId copy settings.cacheSessionTtl) oldSessionId
        (.rotated copy.keyId copy.defaultWorkspace)
    | _ => (process, .replacing copy)
  | .reflecting ending =>
    match request.sessionId with
    | some sessionId => closeSession settings process sessionId ending
    | none => (process, .reflecting ending)
  | .deleting ending =>
    match request.sessionId with
    | some sessionId => (deleteSession fails process sessionId, .finished (.ended ending))
    | none => (process, .deleting ending)
  | .idling reference =>
    match request with
    | .cleanup startedAt sessionId =>
      match (process.objects sessionId)[reference]? with
      | some session =>
        (if fails then process
          else process.write sessionId reference { session with lastReflectedAt := some startedAt }, .finished .kept)
      | none => (process, .finished .kept)
    | _ => (process, .idling reference)
  | .finished answer => (process, .finished answer)

def advance (input : StepInput) (process : SessionProcess) (thread : Thread) : SessionProcess × Thread :=
  let now := process.clock + input.elapsed
  let next := continueFrom settings now input.fails process thread.request thread.stage
  ({ next.1 with clock := now }, { thread with stage := next.2 })

/-- Requests that have not begun, over empty stores. -/
def start (clock : ℕ) (requests : List SessionRequest) : Pool SessionProcess Thread where
  shared := .empty clock
  threads := requests.map fun request => { request := request }

/-! ## A handler on its own -/

/-- The stores as the handlers of `StreamableSessions` see them. -/
def SessionProcess.stores (process : SessionProcess) (tokenSessions : Store String) (legacy : Store LegacySession) :
    SessionStores where
  memory := fun sessionId => (process.held sessionId).map fun session => ⟨session, none⟩
  redis := process.redis
  tokenSessions := tokenSessions
  legacy := legacy

/-- What is kept for an id is a session with that id. -/
structure SessionProcess.Keeps (process : SessionProcess) (sessionId : String) : Prop where
  held : ∀ reference, process.streamableSessions sessionId = some reference →
    ∃ session, (process.objects sessionId)[reference]? = some session ∧ session.sessionId = sessionId
  copies : ∀ entry, process.redis sessionId = some entry → entry.value.sessionId = sessionId

variable {settings} {process : SessionProcess} {sessionId : String} {tokenSessions : Store String} {legacy : Store LegacySession}

theorem stores_get (now : ℕ) :
    (process.stores tokenSessions legacy).memory.get now sessionId = process.held sessionId := by
  simp only [SessionProcess.stores, Store.get]
  rcases process.held sessionId with _ | session <;> rfl

theorem held_install (other : String) (session : Session) :
    (process.install sessionId session).held other = if other = sessionId then some session else process.held other := by
  by_cases h : other = sessionId
  · subst h
    simp [SessionProcess.held, SessionProcess.install]
  · simp [SessionProcess.held, SessionProcess.install, h]

theorem held_write {reference : ℕ} {old : Session} (hused : process.streamableSessions sessionId = some reference)
    (hold : (process.objects sessionId)[reference]? = some old) (other : String) (session : Session) :
    (process.write sessionId reference session).held other = if other = sessionId then some session else process.held other := by
  by_cases h : other = sessionId
  · subst h
    have hlt : reference < (process.objects other).length := (List.getElem?_eq_some_iff.mp hold).1
    simp [SessionProcess.held, SessionProcess.write, hused, hlt]
  · simp [SessionProcess.held, SessionProcess.write, h]

theorem held_forget (other : String) :
    (process.forget sessionId).held other = if other = sessionId then none else process.held other := by
  by_cases h : other = sessionId
  · subst h
    simp [SessionProcess.held, SessionProcess.forget]
  · simp [SessionProcess.held, SessionProcess.forget, h]

theorem stores_install (session : Session) : (process.install sessionId session).stores tokenSessions legacy =
    { process.stores tokenSessions legacy with
      memory := (process.stores tokenSessions legacy).memory.put sessionId session none } := by
  have hmemory : ((process.install sessionId session).stores tokenSessions legacy).memory =
      (process.stores tokenSessions legacy).memory.put sessionId session none := by
    funext other
    simp only [SessionProcess.stores, held_install, Store.put]
    split <;> rfl
  exact congrArg (fun memory => SessionStores.mk memory process.redis tokenSessions legacy) hmemory

theorem stores_write {reference : ℕ} {old : Session} (hused : process.streamableSessions sessionId = some reference)
    (hold : (process.objects sessionId)[reference]? = some old) (session : Session) :
    (process.write sessionId reference session).stores tokenSessions legacy =
    { process.stores tokenSessions legacy with
      memory := (process.stores tokenSessions legacy).memory.put sessionId session none } := by
  have hmemory : ((process.write sessionId reference session).stores tokenSessions legacy).memory =
      (process.stores tokenSessions legacy).memory.put sessionId session none := by
    funext other
    simp only [SessionProcess.stores, held_write hused hold, Store.put]
    split <;> rfl
  exact congrArg (fun memory => SessionStores.mk memory process.redis tokenSessions legacy) hmemory

theorem stores_forget : (process.forget sessionId).stores tokenSessions legacy =
    { process.stores tokenSessions legacy with
      memory := (process.stores tokenSessions legacy).memory.delete sessionId } := by
  have hmemory : ((process.forget sessionId).stores tokenSessions legacy).memory =
      (process.stores tokenSessions legacy).memory.delete sessionId := by
    funext other
    simp only [SessionProcess.stores, held_forget, Store.delete]
    split <;> rfl
  exact congrArg (fun memory => SessionStores.mk memory process.redis tokenSessions legacy) hmemory

/-- The first of several steps of a request on its own. -/
theorem run_alone {process next : SessionProcess} {request : SessionRequest} {stage nextStage : Stage}
    (h : continueFrom settings process.clock false process request stage = (next, nextStage))
    (hclock : next.clock = process.clock) (steps : ℕ) :
    run (Pool.step (advance settings)) ⟨process, [⟨request, stage⟩]⟩ (List.replicate (steps + 1) (0, {})) =
      run (Pool.step (advance settings)) ⟨next, [⟨request, nextStage⟩]⟩ (List.replicate steps (0, {})) := by
  have hstep : Pool.step (advance settings) ⟨process, [⟨request, stage⟩]⟩ (0, {}) = ⟨next, [⟨request, nextStage⟩]⟩ := by
    have hadvance : advance settings {} process ⟨request, stage⟩ = (next, ⟨request, nextStage⟩) := by
      simp only [advance, Nat.add_zero, h]
      rw [← hclock]
    simp only [Pool.step, List.getElem?_cons_zero, hadvance, List.set_cons_zero]
  rw [List.replicate_succ, run_cons, hstep]

theorem run_result {process : SessionProcess} {request : SessionRequest} {stage : Stage}
    {result : SessionProcess × Stage}
    (h : continueFrom settings process.clock false process request stage = result) (hclock : result.1.clock = process.clock)
    (steps : ℕ) :
    run (Pool.step (advance settings)) ⟨process, [⟨request, stage⟩]⟩ (List.replicate (steps + 1) (0, {})) =
      run (Pool.step (advance settings)) ⟨result.1, [⟨request, result.2⟩]⟩ (List.replicate steps (0, {})) :=
  run_alone h hclock steps

theorem run_finished (process : SessionProcess) (request : SessionRequest) (answer : Answer) (steps : ℕ) :
    run (Pool.step (advance settings)) ⟨process, [⟨request, .finished answer⟩]⟩ (List.replicate steps (0, {})) =
      ⟨process, [⟨request, .finished answer⟩]⟩ := by
  induction steps with
  | zero => rfl
  | succ steps ih => rw [run_alone rfl rfl, ih]

theorem stores_saveSession (copy : Session) (hkey : copy.sessionId = sessionId) (hredis : settings.redisEnabled = true)
    (now ttlSeconds : ℕ) : (saveSession now false process sessionId copy ttlSeconds).stores tokenSessions legacy =
      saveSessionToRedis settings.toConfig now (process.stores tokenSessions legacy) copy ttlSeconds := by
  simp only [saveSession, Bool.false_eq_true, if_false, saveSessionToRedis, hredis, if_true, hkey]
  rfl

theorem stores_deleteSession (hredis : settings.redisEnabled = true) :
    (deleteSession false (process.forget sessionId) sessionId).stores tokenSessions legacy =
      StreamableSessions.closeSession settings.toConfig (process.stores tokenSessions legacy) sessionId := by
  have hmemory : ((process.forget sessionId).stores tokenSessions legacy).memory =
      (process.stores tokenSessions legacy).memory.delete sessionId := congrArg SessionStores.memory stores_forget
  simp only [deleteSession, Bool.false_eq_true, if_false, StreamableSessions.closeSession, hredis, if_true]
  exact congrArg (fun memory => SessionStores.mk memory (process.redis.delete sessionId) tokenSessions legacy) hmemory

/-- The steps that close a session. -/
theorem run_beginClose (request : SessionRequest) (hrequest : request.sessionId = some sessionId) (ending : Ending)
    (hheld : process.streamableSessions sessionId ≠ none → process.held sessionId ≠ none) (steps : ℕ) :
    (run (Pool.step (advance settings)) ⟨process, [⟨request, beginClose process sessionId ending⟩]⟩
        (List.replicate (steps + 2) (0, {}))).shared.stores tokenSessions legacy =
      closeStreamableSession settings.toConfig process.clock (process.stores tokenSessions legacy) sessionId := by
  simp only [closeStreamableSession, stores_get]
  rcases hused : process.streamableSessions sessionId with _ | reference
  · have hnone : process.held sessionId = none := by
      simp only [SessionProcess.held, hused, Option.bind_none]
    have hends : beginClose process sessionId ending = .finished (.ended ending) := by
      simp only [beginClose, hused, Option.isSome_none, Bool.false_eq_true, if_false]
    rw [hends, run_finished, hnone]
  · obtain ⟨session, hsession⟩ := Option.ne_none_iff_exists'.mp (hheld (by rw [hused]; exact Option.some_ne_none _))
    have hbegins : beginClose process sessionId ending = .reflecting ending := by
      simp only [beginClose, hused, Option.isSome_some, if_true]
    have hcloses : continueFrom settings process.clock false process request (.reflecting ending) =
        closeSession settings process sessionId ending := by
      simp only [continueFrom, hrequest]
    rw [hbegins, run_alone (hcloses.trans rfl) rfl, hsession]
    simp only
    rcases hredis : settings.redisEnabled with _ | _
    · have hkept : StreamableSessions.closeSession settings.toConfig (process.stores tokenSessions legacy) sessionId =
          (process.forget sessionId).stores tokenSessions legacy := by
        rw [stores_forget]
        simp only [StreamableSessions.closeSession, hredis, Bool.false_eq_true, if_false]
      rw [if_neg Bool.false_ne_true, run_finished, hkept]
    · have hdeletes : continueFrom settings (process.forget sessionId).clock false (process.forget sessionId) request
          (.deleting ending) = (deleteSession false (process.forget sessionId) sessionId, .finished (.ended ending)) := by
        simp only [continueFrom, hrequest]
      rw [if_pos rfl, run_alone hdeletes rfl, run_finished, stores_deleteSession hredis]

/-- `closeStreamableSession` on its own. -/
theorem close_alone (settings : SessionSettings) (process : SessionProcess) (sessionId : String)
    (hheld : process.streamableSessions sessionId ≠ none → process.held sessionId ≠ none) :
    (run (Pool.step (advance settings)) ⟨process, [⟨.close sessionId, .starting⟩]⟩
        (List.replicate 3 (0, {}))).shared.stores tokenSessions legacy =
      closeStreamableSession settings.toConfig process.clock (process.stores tokenSessions legacy) sessionId := by
  rw [@run_alone settings process process (.close sessionId) .starting (beginClose process sessionId .closed) rfl rfl]
  exact run_beginClose (.close sessionId) rfl .closed hheld 0

theorem clock_examine (now : ℕ) (process : SessionProcess) (sessionId : String) (reference : ℕ) :
    (examine settings now process sessionId reference).1.clock = process.clock := by
  simp only [examine]
  split
  · rfl
  · split <;> rfl

/-- The steps after the expiry test of a session in the map. -/
theorem run_examine (request : SessionRequest) (hrequest : request.sessionId = some sessionId) {reference : ℕ}
    {session : Session} (hused : process.streamableSessions sessionId = some reference)
    (hobject : (process.objects sessionId)[reference]? = some session) (hkey : session.sessionId = sessionId) (steps : ℕ) :
    (run (Pool.step (advance settings)) ⟨(examine settings process.clock process sessionId reference).1,
        [⟨request, (examine settings process.clock process sessionId reference).2⟩]⟩
        (List.replicate (steps + 2) (0, {}))).shared.stores tokenSessions legacy =
      if session.expiresAt < process.clock then
        closeStreamableSession settings.toConfig process.clock (process.stores tokenSessions legacy) sessionId
      else
        saveSessionToRedis settings.toConfig process.clock
          { process.stores tokenSessions legacy with
            memory := (process.stores tokenSessions legacy).memory.put sessionId { session with
              lastAccessedAt := process.clock, expiresAt := process.clock + settings.sessionTtlMs } none }
          { session with lastAccessedAt := process.clock, expiresAt := process.clock + settings.sessionTtlMs }
          (max (ceilSeconds settings.sessionTtlMs) 60) := by
  have hheld : process.held sessionId = some session := by
    simp only [SessionProcess.held, hused, Option.bind_some, hobject]
  simp only [examine, hobject]
  by_cases hexpired : session.expiresAt < process.clock
  · rw [if_pos hexpired, if_pos hexpired]
    exact run_beginClose request hrequest .expired (fun _ => by rw [hheld]; exact Option.some_ne_none _) steps
  · rw [if_neg hexpired, if_neg hexpired]
    have hwritten := @stores_write process sessionId tokenSessions legacy reference session hused hobject
      { session with lastAccessedAt := process.clock, expiresAt := process.clock + settings.sessionTtlMs }
    generalize hrenewed : ({ session with
      lastAccessedAt := process.clock, expiresAt :=
        process.clock + settings.sessionTtlMs } : Session) = renewed at hwritten ⊢
    have hrenewedKey : renewed.sessionId = sessionId := by
      rw [← hrenewed, hkey]
    simp only
    rcases hredis : settings.redisEnabled with _ | _
    · rw [if_neg Bool.false_ne_true, run_finished, hwritten]
      simp only [saveSessionToRedis, hredis, Bool.false_eq_true, if_false]
    · have hsaves : continueFrom settings (process.write sessionId reference renewed).clock false
          (process.write sessionId reference renewed) request
          (.saving renewed (max (ceilSeconds settings.sessionTtlMs) 60) (some reference)) =
          (saveSession process.clock false (process.write sessionId reference renewed) sessionId renewed
            (max (ceilSeconds settings.sessionTtlMs) 60), .finished (.valid reference)) := by
        simp only [continueFrom, hrequest]
        rfl
      rw [if_pos rfl, run_alone hsaves rfl, run_finished, stores_saveSession renewed hrenewedKey hredis, hwritten]

/-- `validateStreamableSession` on its own. -/
theorem validate_alone (settings : SessionSettings) (process : SessionProcess) (sessionId : String)
    (requestedVersion : Option String) (hkeeps : process.Keeps sessionId) :
    (run (Pool.step (advance settings)) ⟨process, [⟨.validate sessionId requestedVersion, .starting⟩]⟩
        (List.replicate 5 (0, {}))).shared.stores tokenSessions legacy =
      (validateStreamableSession settings.toConfig process.clock (process.stores tokenSessions legacy) sessionId
        requestedVersion).1 := by
  simp only [validateStreamableSession, lookupSession, stores_get]
  rcases hused : process.streamableSessions sessionId with _ | reference
  · have hnone : process.held sessionId = none := by
      simp only [SessionProcess.held, hused, Option.bind_none]
    have hbegins : continueFrom settings process.clock false process (.validate sessionId requestedVersion) .starting =
        (process, if settings.redisEnabled then .reading else .finished .notFound) := by
      simp only [continueFrom, begin, hused]
    rw [run_alone hbegins rfl, hnone]
    simp only [getSessionFromRedis]
    rcases hredis : settings.redisEnabled with _ | _
    · rw [if_neg Bool.false_ne_true, run_finished, if_neg Bool.false_ne_true]
    · rw [if_pos rfl, if_pos rfl]
      have hread :
        getSession settings process.clock false process sessionId = process.redis.get process.clock sessionId := by
        simp only [getSession, hredis, Bool.not_true, Bool.or_self, Bool.false_eq_true, if_false]
      have hsame : (process.stores tokenSessions legacy).redis.get process.clock sessionId =
          process.redis.get process.clock sessionId := rfl
      rw [hsame]
      rcases hcopy : process.redis.get process.clock sessionId with _ | copy
      · have hmisses :
          continueFrom settings process.clock false process (.validate sessionId requestedVersion) .reading =
            (process, .finished .notFound) := by
          simp only [continueFrom, hread, hcopy]
        rw [run_alone hmisses rfl, run_finished]
      · obtain ⟨entry, hentry, -, rfl⟩ := Store.get_eq_some_iff.mp hcopy
        have hkey := hkeeps.copies entry hentry
        have hrestores :
          continueFrom settings process.clock false process (.validate sessionId requestedVersion) .reading =
            (process.install sessionId (restored settings process.clock requestedVersion entry.value),
              .restoring (process.objects sessionId).length (restored settings process.clock requestedVersion entry.value)) := by
          simp only [continueFrom, hread, hcopy]
        have hrestored : restored settings process.clock requestedVersion entry.value = { entry.value with
            sessionId := sessionId, lastAccessedAt := process.clock, expiresAt := process.clock + settings.sessionTtlMs,
            negotiatedVersion := requestedVersion.filter (fun version => settings.supportedProtocolVersions.contains version) <|>
              entry.value.negotiatedVersion } := by
          rw [← hkey]
          rfl
        rw [run_alone hrestores rfl]
        simp only [← hrestored]
        have hlives : (restored settings process.clock requestedVersion entry.value).expiresAt =
            process.clock + settings.sessionTtlMs := rfl
        have hrenewed : { restored settings process.clock requestedVersion entry.value with
            lastAccessedAt := process.clock, expiresAt := process.clock + settings.sessionTtlMs } =
            restored settings process.clock requestedVersion entry.value := rfl
        have hrestoredKey : (restored settings process.clock requestedVersion entry.value).sessionId = sessionId := hkey
        generalize restored settings process.clock requestedVersion entry.value = session at hlives hrenewed hrestoredKey ⊢
        have hsaved : (saveSession process.clock false (process.install sessionId session) sessionId session
            (ceilSeconds settings.sessionTtlMs)).stores tokenSessions legacy =
            saveSessionToRedis settings.toConfig process.clock { process.stores tokenSessions legacy with
              memory := (process.stores tokenSessions legacy).memory.put sessionId session none } session
              (ceilSeconds settings.sessionTtlMs) := by
          rw [stores_saveSession session hrestoredKey hredis, stores_install]
        have hused' : (saveSession process.clock false (process.install sessionId session) sessionId session
            (ceilSeconds settings.sessionTtlMs)).streamableSessions sessionId = some (process.objects sessionId).length := by
          simp [saveSession, SessionProcess.install]
        have hobject : ((saveSession process.clock false (process.install sessionId session) sessionId session
            (ceilSeconds settings.sessionTtlMs)).objects sessionId)[(process.objects sessionId).length]? = some session := by
          simp [saveSession, SessionProcess.install]
        have hclock : (saveSession process.clock false (process.install sessionId session) sessionId session
            (ceilSeconds settings.sessionTtlMs)).clock = process.clock := rfl
        have hexamines :
          continueFrom settings (process.install sessionId session).clock false (process.install sessionId session)
            (.validate sessionId requestedVersion) (.restoring (process.objects sessionId).length session) =
            examine settings process.clock (saveSession process.clock false (process.install sessionId session) sessionId session
              (ceilSeconds settings.sessionTtlMs)) sessionId (process.objects sessionId).length := rfl
        generalize saveSession process.clock false (process.install sessionId session) sessionId session
          (ceilSeconds settings.sessionTtlMs) = saved at hsaved hused' hobject hclock hexamines
        have hlater : ¬ process.clock + settings.sessionTtlMs < process.clock := by omega
        rw [run_result hexamines ((clock_examine _ _ _ _).trans hclock), ← hclock,
          run_examine (.validate sessionId requestedVersion) rfl hused' hobject hrestoredKey, hsaved, hclock]
        simp only [hlives, hrenewed, if_neg hlater]
  · obtain ⟨session, hobject, hkey⟩ := hkeeps.held reference hused
    have hheld : process.held sessionId = some session := by
      simp only [SessionProcess.held, hused, Option.bind_some, hobject]
    have hbegins : continueFrom settings process.clock false process (.validate sessionId requestedVersion) .starting =
        examine settings process.clock process sessionId reference := by
      simp only [continueFrom, begin, hused]
    rw [run_result hbegins (clock_examine _ _ _ _), run_examine (.validate sessionId requestedVersion) rfl hused
      hobject hkey, hheld]
    simp only
    split <;> rfl

theorem clock_rotateFrom (now : ℕ) (process : SessionProcess) (old new : String) (existing : Session) :
    (rotateFrom settings now process old new existing).1.clock = process.clock := by
  simp only [rotateFrom]
  split
  · rfl
  · split <;> rfl

/-- The steps after the lookup of a rotation. -/
theorem run_rotateFrom (old new : String) (existing : Session)
    (hheld : process.streamableSessions old ≠ none → process.held old ≠ none) (steps : ℕ) :
    (run (Pool.step (advance settings)) ⟨(rotateFrom settings process.clock process old new existing).1,
        [⟨.rotate old new, (rotateFrom settings process.clock process old new existing).2⟩]⟩
        (List.replicate (steps + 2) (0, {}))).shared.stores tokenSessions legacy =
      if existing.expiresAt < process.clock then
        closeStreamableSession settings.toConfig process.clock (process.stores tokenSessions legacy) old
      else
        StreamableSessions.closeSession settings.toConfig
          (createStreamableSessionWithId settings.toConfig process.clock (process.stores tokenSessions legacy) new
            existing.authenticated existing.context none) old := by
  simp only [rotateFrom]
  by_cases hexpired : existing.expiresAt < process.clock
  · rw [if_pos hexpired, if_pos hexpired]
    exact run_beginClose (.rotate old new) rfl .expired hheld steps
  · rw [if_neg hexpired, if_neg hexpired]
    have hcreated :
      ∀ session, session = newSession settings process.clock new existing.authenticated existing.context none →
        createStreamableSessionWithId settings.toConfig process.clock (process.stores tokenSessions legacy) new
          existing.authenticated existing.context none =
        saveSessionToRedis settings.toConfig process.clock ((process.install new session).stores tokenSessions legacy) session
          settings.cacheSessionTtl := by
      rintro session rfl
      rw [stores_install]
      rfl
    have hkey :
      ∀ session, session = newSession settings process.clock new existing.authenticated existing.context none →
        session.sessionId = new := by
      rintro session rfl
      rfl
    generalize hsession : newSession settings process.clock new existing.authenticated existing.context none = session
    rw [hcreated session hsession.symm]
    have hsessionKey := hkey session hsession.symm
    rcases hredis : settings.redisEnabled with _ | _
    · have hcloses :
        StreamableSessions.closeSession settings.toConfig ((process.install new session).stores tokenSessions legacy)
          old = ((process.install new session).forget old).stores tokenSessions legacy := by
        rw [stores_forget]
        simp only [StreamableSessions.closeSession, hredis, Bool.false_eq_true, if_false]
      have hsaves :
        saveSessionToRedis settings.toConfig process.clock ((process.install new session).stores tokenSessions legacy)
          session settings.cacheSessionTtl = (process.install new session).stores tokenSessions legacy := by
        simp only [saveSessionToRedis, hredis, Bool.false_eq_true, if_false]
      rw [if_neg Bool.false_ne_true, hsaves, hcloses]
      simp only [closeSession, hredis, Bool.false_eq_true, if_false]
      rw [run_finished]
    · rw [if_pos rfl]
      have hreplaces : continueFrom settings (process.install new session).clock false (process.install new session)
          (.rotate old new) (.replacing session) =
          ((saveSession process.clock false (process.install new session) new session settings.cacheSessionTtl).forget old,
            .deleting (.rotated session.keyId session.defaultWorkspace)) := by
        simp only [continueFrom, closeSession, hredis, if_true]
        rfl
      rw [run_alone hreplaces rfl, ← stores_saveSession session hsessionKey hredis]
      generalize saveSession process.clock false (process.install new session) new session settings.cacheSessionTtl = saved
      have hdeletes : continueFrom settings (saved.forget old).clock false (saved.forget old) (.rotate old new)
          (.deleting (.rotated session.keyId session.defaultWorkspace)) = (deleteSession false (saved.forget old) old,
            .finished (.ended (.rotated session.keyId session.defaultWorkspace))) := rfl
      rw [run_alone hdeletes rfl, run_finished, ← stores_deleteSession hredis]

/-- `rotateSession` on its own. -/
theorem rotate_alone (settings : SessionSettings) (process : SessionProcess) (old new : String)
    (hheld : process.streamableSessions old ≠ none → process.held old ≠ none) :
    (run (Pool.step (advance settings)) ⟨process, [⟨.rotate old new, .starting⟩]⟩
        (List.replicate 4 (0, {}))).shared.stores tokenSessions legacy =
      (rotateSession settings.toConfig process.clock (process.stores tokenSessions legacy) old new).1 := by
  simp only [rotateSession, stores_get]
  rcases hfound : process.held old with _ | existing
  · have hbegins : continueFrom settings process.clock false process (.rotate old new) .starting =
        (process, if settings.redisEnabled then .reading else .finished .notFound) := by
      simp only [continueFrom, begin, hfound]
    rw [run_alone hbegins rfl]
    simp only [getSessionFromRedis]
    rcases hredis : settings.redisEnabled with _ | _
    · rw [if_neg Bool.false_ne_true, run_finished, if_neg Bool.false_ne_true]
    · rw [if_pos rfl, if_pos rfl]
      have hread : getSession settings process.clock false process old = process.redis.get process.clock old := by
        simp only [getSession, hredis, Bool.not_true, Bool.or_self, Bool.false_eq_true, if_false]
      have hsame : (process.stores tokenSessions legacy).redis.get process.clock old =
          process.redis.get process.clock old := rfl
      rw [hsame]
      rcases hcopy : process.redis.get process.clock old with _ | existing
      · have hmisses : continueFrom settings process.clock false process (.rotate old new) .reading =
            (process, .finished .notFound) := by
          simp only [continueFrom, hread, hcopy]
        rw [run_alone hmisses rfl, run_finished]
      · have hreads : continueFrom settings process.clock false process (.rotate old new) .reading =
            rotateFrom settings process.clock process old new existing := by
          simp only [continueFrom, hread, hcopy]
        rw [run_result hreads (clock_rotateFrom _ _ _ _ _), run_rotateFrom old new existing hheld]
        simp only
        split <;> rfl
  · have hbegins : continueFrom settings process.clock false process (.rotate old new) .starting =
        rotateFrom settings process.clock process old new existing := by
      simp only [continueFrom, begin, hfound]
    rw [run_result hbegins (clock_rotateFrom _ _ _ _ _), run_rotateFrom old new existing hheld]
    simp only
    split <;> rfl

end FragmentMemory.SessionHandlers
