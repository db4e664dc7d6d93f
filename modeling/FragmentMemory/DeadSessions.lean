import FragmentMemory.OAuthBinding
import FragmentMemory.SessionHandlers

/-! # Sessions that have expired, were closed or were rotated away

A session id is gone when everything that is kept for it has expired.  The invariant of one id says that the
object in the map outlives the Redis copy and every copy that is still to be written, so that an id whose session
has expired is gone, and stays gone where no handler writes what another one has removed.
-/
namespace FragmentMemory.DeadSessions
open KeyValueStore SessionHandlers InterleavedRuns TransitionRuns
open StreamableSessions (Session SessionContext ceilSeconds)

/-- The session in use has expired. -/
def Expired (settings : SessionSettings) (process : SessionProcess) (sessionId : String) : Prop :=
  match process.held sessionId with
  | some session => session.expiresAt < process.clock
  | none => ∃ copy, getSession settings process.clock false process sessionId = some copy ∧ copy.expiresAt < process.clock

/-- The request has closed the session or has rotated it away. -/
def Removed (sessionId : String) (thread : Thread) : Prop :=
  (thread.request = .close sessionId ∧ thread.stage = .finished (.ended .closed)) ∨
    ∃ new keyId workspace, thread.request = .rotate sessionId new ∧ thread.stage = .finished (.ended (.rotated keyId workspace))

/-- The session has expired, its close has completed, or it has been rotated away. -/
def Dead (settings : SessionSettings) (sessionId : String) (pool : Pool SessionProcess Thread) : Prop :=
  Expired settings pool.shared sessionId ∨ ∃ thread ∈ pool.threads, Removed sessionId thread

/-- The session has passed the expiry test of the request and was renewed. -/
def Validated (sessionId : String) (thread : Thread) : Prop :=
  thread.request.sessionId = some sessionId ∧
    match thread.stage with
    | .saving _ _ (some _) | .finished (.valid _) => True
    | _ => False

/-- The request has given the id of its new session out, or will. -/
def Replaced (stage : Stage) : Prop :=
  match stage with
  | .replacing _ | .reflecting (.rotated _ _) | .deleting (.rotated _ _) | .finished (.ended (.rotated _ _)) => True
  | _ => False

/-- The request has made a successor of the session. -/
def HasSuccessor (sessionId : String) (thread : Thread) : Prop :=
  (∃ new, thread.request = .rotate sessionId new) ∧ Replaced thread.stage

/-- The request has begun, and is about the session or has made it. -/
def Names (sessionId : String) (thread : Thread) : Prop :=
  (thread.stage ≠ .starting ∧ thread.request.sessionId = some sessionId) ∨
    (∃ old, thread.request = .rotate old sessionId) ∧ Replaced thread.stage

instance (request : SessionRequest) (sessionId : String) : Decidable (∃ new, request = .rotate sessionId new) :=
  match request with
  | .rotate old new => decidable_of_iff (old = sessionId)
      ⟨fun h => ⟨new, h ▸ rfl⟩, fun ⟨_, h⟩ => (SessionRequest.rotate.inj h).1⟩
  | .create _ _ _ _ | .validate _ _ | .close _ | .cleanup _ _ | .restart => isFalse fun ⟨_, h⟩ => nomatch h

instance (request : SessionRequest) (sessionId : String) : Decidable (∃ old, request = .rotate old sessionId) :=
  match request with
  | .rotate old new => decidable_of_iff (new = sessionId)
      ⟨fun h => ⟨old, h ▸ rfl⟩, fun ⟨_, h⟩ => (SessionRequest.rotate.inj h).2⟩
  | .create _ _ _ _ | .validate _ _ | .close _ | .cleanup _ _ | .restart => isFalse fun ⟨_, h⟩ => nomatch h

instance (request : SessionRequest) (sessionId : String) : Decidable (request = .close sessionId) :=
  match request with
  | .close other => decidable_of_iff (other = sessionId) ⟨fun h => h ▸ rfl, SessionRequest.close.inj⟩
  | .create _ _ _ _ | .validate _ _ | .rotate _ _ | .cleanup _ _ | .restart => isFalse nofun

instance (stage : Stage) : Decidable (Replaced stage) := by
  unfold Replaced
  split <;> infer_instance

instance (sessionId : String) (thread : Thread) : Decidable (HasSuccessor sessionId thread) :=
  inferInstanceAs (Decidable (_ ∧ _))

instance (sessionId : String) (thread : Thread) : Decidable (Names sessionId thread) :=
  inferInstanceAs (Decidable (_ ∨ _ ∧ _))

instance (stage : Stage) : Decidable (∃ keyId workspace, stage = .finished (.ended (.rotated keyId workspace))) :=
  match stage with
  | .finished (.ended (.rotated keyId workspace)) => isTrue ⟨keyId, workspace, rfl⟩
  | .finished (.ended .closed) | .finished (.ended .expired) | .finished (.ended .cleaned) | .finished .created
  | .finished (.valid _) | .finished .notFound | .finished .kept | .starting | .reading | .restoring _ _ | .saving _ _ _
  | .replacing _ | .reflecting _ | .deleting _ | .idling _ => isFalse nofun

instance (sessionId : String) (thread : Thread) : Decidable (Removed sessionId thread) :=
  decidable_of_iff ((thread.request = .close sessionId ∧ thread.stage = .finished (.ended .closed)) ∨
      (∃ new, thread.request = .rotate sessionId new) ∧
        ∃ keyId workspace, thread.stage = .finished (.ended (.rotated keyId workspace)))
    (or_congr Iff.rfl ⟨fun ⟨⟨new, hrequest⟩, keyId, workspace, hstage⟩ => ⟨new, keyId, workspace, hrequest, hstage⟩,
      fun ⟨new, keyId, workspace, hrequest, hstage⟩ => ⟨⟨new, hrequest⟩, keyId, workspace, hstage⟩⟩)

instance (sessionId : String) (thread : Thread) : Decidable (Validated sessionId thread) := by
  unfold Validated
  refine @instDecidableAnd _ _ _ ?_
  split <;> infer_instance

/-! ## The condition on a step -/

/-- A rotation that finds a session goes on with an unused id, and no other one of that session is under way. -/
def MayReplace (pool : Pool SessionProcess Thread) (now : ℕ) (old new : String) (found : Option Session) : Prop :=
  match found with
  | none => True
  | some existing => existing.expiresAt < now ∨ (old ≠ new ∧ (∀ other ∈ pool.threads, ¬ Names new other) ∧
      ∀ other ∈ pool.threads, HasSuccessor old other → Removed old other)

/-- What a handler does with a session in its step is still right after what others did since its last one. -/
def Orderly (settings : SessionSettings) (pool : Pool SessionProcess Thread) (event : ℕ × StepInput) : Prop :=
  match pool.threads[event.1]? with
  | none => True
  | some thread =>
    let process := pool.shared
    let now := process.clock + event.2.elapsed
    match thread.stage, thread.request with
    | .starting, .create sessionId _ _ _ => ∀ other ∈ pool.threads, ¬ Names sessionId other
    | .starting, .close sessionId =>
      process.streamableSessions sessionId = none →
        ∀ copy ∈ getSession settings now false process sessionId, copy.expiresAt < now
    | .starting, .rotate old new => MayReplace pool now old new (process.held old)
    | .reading, .rotate old new => MayReplace pool now old new (getSession settings now event.2.fails process old)
    | .reading, .validate sessionId _ =>
      ∀ copy ∈ getSession settings now event.2.fails process sessionId, now ≤ copy.expiresAt
    | .restoring reference _, request =>
      ∀ sessionId ∈ request.sessionId, process.streamableSessions sessionId = some reference
    | .saving _ _ _, request =>
      ∀ sessionId ∈ request.sessionId, event.2.fails = false → process.streamableSessions sessionId ≠ none
    | .replacing _, .rotate _ sessionId => event.2.fails = false → process.streamableSessions sessionId ≠ none
    | .deleting .closed, .close sessionId | .deleting (.rotated _ _), .rotate sessionId _ =>
      event.2.fails = false ∧ process.streamableSessions sessionId = none
    | _, _ => True

instance (pool : Pool SessionProcess Thread) (now : ℕ) (old new : String) (found : Option Session) :
    Decidable (MayReplace pool now old new found) := by
  unfold MayReplace
  split <;> infer_instance

instance (settings : SessionSettings) (pool : Pool SessionProcess Thread) (event : ℕ × StepInput) :
    Decidable (Orderly settings pool event) := by
  unfold Orderly
  split
  · infer_instance
  · dsimp only
    split <;> infer_instance

/-! ## What one step does to one id -/

variable {settings : SessionSettings} {unused : Prop} {sessionId : String} {now : ℕ}

/-- When the session in use expires. -/
def expiry (process : SessionProcess) (sessionId : String) : Option ℕ := (process.held sessionId).map Session.expiresAt

/-- The copy that the request has yet to write for the session. -/
def pending (sessionId : String) (thread : Thread) : Option Session :=
  match thread.stage, thread.request with
  | .restoring _ copy, request | .saving copy _ _, request => if request.sessionId = some sessionId then some copy else none
  | .replacing copy, .rotate _ new => if new = sessionId then some copy else none
  | _, _ => none

/-- Everything that is kept for the id has expired. -/
def Gone (settings : SessionSettings) (now : ℕ) (process : SessionProcess) (sessionId : String) : Prop :=
  (∀ expiresAt, expiry process sessionId = some expiresAt → expiresAt < now) ∧
    ∀ copy, getSession settings now false process sessionId = some copy → copy.expiresAt < now

/-- The map has objects only. -/
def Installed (process : SessionProcess) (sessionId : String) : Prop :=
  process.streamableSessions sessionId ≠ none → expiry process sessionId ≠ none

/-- What a step may do to what is kept for an id, which may be new where it is unused. -/
structure Effect (settings : SessionSettings) (unused : Prop) (sessionId : String) (now : ℕ) (before : SessionProcess)
    (thread : Thread) (after : SessionProcess) (next : Thread) : Prop where
  installed : Installed after sessionId
  expires : expiry after sessionId = expiry before sessionId ∨ expiry after sessionId = none ∨
    expiry after sessionId = some (now + settings.sessionTtlMs) ∧ Names sessionId next ∧
      (Gone settings now before sessionId → unused)
  copies : after.redis sessionId = before.redis sessionId ∨ after.redis sessionId = none ∨
    ∃ copy deadline, pending sessionId thread = some copy ∧ expiry before sessionId ≠ none ∧
      after.redis sessionId = some ⟨copy, deadline⟩
  pends : ∀ copy, pending sessionId next = some copy → pending sessionId thread = some copy ∨
    copy.expiresAt = now + settings.sessionTtlMs ∧ expiry after sessionId = some (now + settings.sessionTtlMs)
  validates : Validated sessionId next → Validated sessionId thread ∨ ¬ Gone settings now before sessionId

theorem expiry_install_self (process : SessionProcess) (sessionId : String) (session : Session) :
    expiry (process.install sessionId session) sessionId = some session.expiresAt := by
  simp [expiry, SessionProcess.held, SessionProcess.install]

theorem expiry_install_of_ne (process : SessionProcess) {sessionId other : String} (h : sessionId ≠ other)
    (session : Session) : expiry (process.install other session) sessionId = expiry process sessionId := by
  simp [expiry, SessionProcess.held, SessionProcess.install, Function.update_of_ne h]

theorem expiry_forget_self (process : SessionProcess) (sessionId : String) :
    expiry (process.forget sessionId) sessionId = none := by
  simp [expiry, SessionProcess.held, SessionProcess.forget]

theorem expiry_forget_of_ne (process : SessionProcess) {sessionId other : String} (h : sessionId ≠ other) :
    expiry (process.forget other) sessionId = expiry process sessionId := by
  simp [expiry, SessionProcess.held, SessionProcess.forget, Function.update_of_ne h]

theorem expiry_write_self {process : SessionProcess} {sessionId : String} {reference : ℕ} {old : Session}
    (hused : process.streamableSessions sessionId = some reference)
    (hold : (process.objects sessionId)[reference]? = some old) (session : Session) :
    expiry (process.write sessionId reference session) sessionId = some session.expiresAt := by
  have hlt : reference < (process.objects sessionId).length := (List.getElem?_eq_some_iff.mp hold).1
  simp [expiry, SessionProcess.held, SessionProcess.write, hused, hlt]

/-- An assignment to other fields than the expiry. -/
theorem expiry_write_same {process : SessionProcess} {sessionId : String} {reference : ℕ} {old session : Session}
    (hold : (process.objects sessionId)[reference]? = some old) (hsame : session.expiresAt = old.expiresAt)
    (other : String) : expiry (process.write sessionId reference session) other = expiry process other := by
  by_cases hother : other = sessionId
  · subst hother
    rcases hused : process.streamableSessions other with _ | used
    · simp [expiry, SessionProcess.held, SessionProcess.write, hused]
    · by_cases hreference : used = reference
      · subst hreference
        rw [expiry_write_self hused hold, hsame]
        simp [expiry, SessionProcess.held, hused, hold]
      · simp [expiry, SessionProcess.held, SessionProcess.write, hused, List.getElem?_set_ne (Ne.symm hreference)]
  · simp [expiry, SessionProcess.held, SessionProcess.write, Function.update_of_ne hother]

theorem expiry_write_of_ne (process : SessionProcess) {sessionId other : String} (h : sessionId ≠ other) (reference : ℕ)
    (session : Session) : expiry (process.write other reference session) sessionId = expiry process sessionId := by
  simp [expiry, SessionProcess.held, SessionProcess.write, Function.update_of_ne h]

/-- A handler that has nothing to write and has not found its session valid. -/
def Quiet (stage : Stage) : Prop :=
  match stage with
  | .restoring _ _ | .saving _ _ _ | .replacing _ | .finished (.valid _) => False
  | _ => True

/-- A handler that has found no session, or an expired one. -/
def Refused (stage : Stage) : Prop :=
  match stage with
  | .reflecting .expired | .finished .notFound | .finished (.ended .expired) => True
  | _ => False

theorem Refused.quiet {stage : Stage} (h : Refused stage) : Quiet stage := by
  cases stage with
  | reflecting _ => trivial
  | finished answer =>
    cases answer with
    | valid _ => exact h.elim
    | _ => trivial
  | _ => exact h.elim

theorem Refused.not_replaced {stage : Stage} (h : Refused stage) : ¬ Replaced stage := by
  intro hreplaced
  cases stage with
  | reflecting ending =>
    cases ending with
    | expired => exact hreplaced
    | _ => exact h
  | finished answer =>
    cases answer with
    | ended ending =>
      cases ending with
      | expired => exact hreplaced
      | _ => exact h
    | _ => exact hreplaced
  | _ => exact h

theorem refused_beginClose (process : SessionProcess) (other : String) :
    Refused (beginClose process other .expired) := by
  rw [beginClose]
  split <;> trivial

theorem examine_cases (settings : SessionSettings) (now : ℕ) (process : SessionProcess) (other : String)
    (reference : ℕ) :
    (∃ stage, Refused stage ∧ examine settings now process other reference = (process, stage)) ∨
      ∃ session renewed, (process.objects other)[reference]? = some session ∧ now ≤ session.expiresAt ∧
        renewed.expiresAt = now + settings.sessionTtlMs ∧
        (examine settings now process other reference).1 = process.write other reference renewed ∧
        ((∃ ttlSeconds, (examine settings now process other reference).2 = .saving renewed ttlSeconds (some reference)) ∨
          (examine settings now process other reference).2 = .finished (.valid reference)) := by
  rcases hobject : (process.objects other)[reference]? with _ | session
  · left
    exact ⟨.finished .notFound, trivial, by simp only [examine, hobject]⟩
  · by_cases hexpired : session.expiresAt < now
    · left
      exact ⟨_, refused_beginClose process other, by simp only [examine, hobject, if_pos hexpired]⟩
    · right
      simp only [examine, hobject, if_neg hexpired]
      refine ⟨session, _, rfl, Nat.not_lt.mp hexpired, rfl, rfl, ?_⟩
      split
      · exact Or.inl ⟨_, rfl⟩
      · exact Or.inr rfl

theorem rotateFrom_cases (settings : SessionSettings) (now : ℕ) (process : SessionProcess) (old new : String)
    (existing : Session) :
    (∃ stage, Refused stage ∧ rotateFrom settings now process old new existing = (process, stage)) ∨
      now ≤ existing.expiresAt ∧ ∃ session, session.expiresAt = now + settings.sessionTtlMs ∧
        (rotateFrom settings now process old new existing = (process.install new session, .replacing session) ∨
          settings.redisEnabled = false ∧ ∃ keyId workspace, rotateFrom settings now process old new existing =
            ((process.install new session).forget old, .finished (.ended (.rotated keyId workspace)))) := by
  by_cases hexpired : existing.expiresAt < now
  · left
    exact ⟨_, refused_beginClose process old, by simp only [rotateFrom, if_pos hexpired]⟩
  · right
    refine ⟨Nat.not_lt.mp hexpired, newSession settings now new existing.authenticated existing.context none, rfl, ?_⟩
    rcases hredis : settings.redisEnabled with _ | _
    · right
      exact ⟨rfl, existing.keyId, existing.defaultWorkspace, by
        simp only [rotateFrom, if_neg hexpired, hredis, Bool.false_eq_true, if_false, closeSession]⟩
    · left
      simp only [rotateFrom, if_neg hexpired, hredis, if_true]

theorem getSession_eq_some_iff {process : SessionProcess} {copy : Session} :
    getSession settings now false process sessionId = some copy ↔
      settings.redisEnabled = true ∧ process.redis.get now sessionId = some copy := by
  simp only [getSession, Bool.false_or]
  rcases settings.redisEnabled with _ | _ <;> simp

theorem getSession_of_fails {fails : Bool} {process : SessionProcess} {copy : Session}
    (h : getSession settings now fails process sessionId = some copy) :
    getSession settings now false process sessionId = some copy := by
  simp only [getSession] at h ⊢
  split at h
  · cases h
  · rename_i hworks
    rw [Bool.not_eq_true, Bool.or_eq_false_iff] at hworks
    simp only [hworks.2, Bool.or_self, Bool.false_eq_true, if_false, h]

theorem pending_of_quiet {thread : Thread} (h : Quiet thread.stage) (sessionId : String) :
    pending sessionId thread = none := by
  obtain ⟨request, stage⟩ := thread
  cases stage with
  | restoring _ _ | saving _ _ _ | replacing _ => exact h.elim
  | _ => rfl

theorem not_validated_of_quiet {thread : Thread} (h : Quiet thread.stage) (sessionId : String) :
    ¬ Validated sessionId thread := by
  obtain ⟨request, stage⟩ := thread
  rintro ⟨-, hvalidated⟩
  cases stage with
  | saving _ _ _ => exact h
  | finished answer =>
    cases answer with
    | valid _ => exact h
    | _ => exact hvalidated
  | _ => exact hvalidated

/-- A step that leaves the id alone, or only drops its object. -/
theorem Effect.of_quiet {before after : SessionProcess} {thread next : Thread} (hinstalled : Installed after sessionId)
    (hexpiry : expiry after sessionId = expiry before sessionId ∨ expiry after sessionId = none)
    (hredis : after.redis sessionId = before.redis sessionId) (hquiet : Quiet next.stage) :
    Effect settings unused sessionId now before thread after next where
  installed := hinstalled
  expires := by
    rcases hexpiry with hsame | hnone
    · exact Or.inl hsame
    · exact Or.inr (Or.inl hnone)
  copies := Or.inl hredis
  pends := by
    intro copy h
    rw [pending_of_quiet hquiet] at h
    cases h
  validates := fun h => absurd h (not_validated_of_quiet hquiet sessionId)

theorem installed_install {process : SessionProcess} (h : Installed process sessionId) (other : String)
    (session : Session) :
    Installed (process.install other session) sessionId := by
  by_cases hother : sessionId = other
  · subst hother
    intro _
    rw [expiry_install_self]
    exact Option.some_ne_none _
  · intro hused
    rw [expiry_install_of_ne process hother]
    apply h
    simpa [SessionProcess.install, Function.update_of_ne hother] using hused

theorem installed_forget {process : SessionProcess} (h : Installed process sessionId) (other : String) :
    Installed (process.forget other) sessionId := by
  by_cases hother : sessionId = other
  · subst hother
    intro hused
    simp [SessionProcess.forget] at hused
  · intro hused
    rw [expiry_forget_of_ne process hother]
    apply h
    simpa [SessionProcess.forget, Function.update_of_ne hother] using hused

/-- The end of a session: its object is dropped. -/
theorem expiry_forget (process : SessionProcess) (sessionId other : String) :
    expiry (process.forget other) sessionId = expiry process sessionId ∨
    expiry (process.forget other) sessionId = none := by
  by_cases hother : sessionId = other
  · subst hother
    exact Or.inr (expiry_forget_self process sessionId)
  · exact Or.inl (expiry_forget_of_ne process hother)

theorem redis_saveSession (fails : Bool) (process : SessionProcess) (other : String) (copy : Session) (ttlSeconds : ℕ) :
    (saveSession now fails process other copy ttlSeconds).redis sessionId = process.redis sessionId ∨
      fails = false ∧ sessionId = other ∧
        (saveSession now fails process other copy ttlSeconds).redis sessionId = some ⟨copy, some (now + ttlSeconds * 1000)⟩ := by
  rw [saveSession]
  split
  · exact Or.inl rfl
  · rename_i hfails
    by_cases hother : sessionId = other
    · exact Or.inr ⟨by simpa using hfails, hother, by simp [Store.put, hother]⟩
    · exact Or.inl (by simp [Store.put, hother])

theorem expiry_saveSession (fails : Bool) (process : SessionProcess) (other : String) (copy : Session) (ttlSeconds : ℕ)
    (sessionId : String) :
    expiry (saveSession now fails process other copy ttlSeconds) sessionId = expiry process sessionId := by
  rw [saveSession]
  split <;> rfl

theorem streamableSessions_saveSession (fails : Bool) (process : SessionProcess) (other : String) (copy : Session)
    (ttlSeconds : ℕ) :
    (saveSession now fails process other copy ttlSeconds).streamableSessions = process.streamableSessions := by
  rw [saveSession]
  split <;> rfl

/-- A save that the condition on the step allows. -/
theorem copies_saveSession {fails : Bool} {process : SessionProcess} {other : String} {copy : Session} (ttlSeconds : ℕ)
    {thread : Thread} (hpending : pending other thread = some copy)
    (hheld : sessionId = other → fails = false → expiry process sessionId ≠ none) :
    (saveSession now fails process other copy ttlSeconds).redis sessionId = process.redis sessionId ∨
      (saveSession now fails process other copy ttlSeconds).redis sessionId = none ∨
      ∃ saved deadline, pending sessionId thread = some saved ∧ expiry process sessionId ≠ none ∧
        (saveSession now fails process other copy ttlSeconds).redis sessionId = some ⟨saved, deadline⟩ := by
  rcases @redis_saveSession sessionId now fails process other copy ttlSeconds with hsame | ⟨hfails, rfl, hsaved⟩
  · exact Or.inl hsame
  · exact Or.inr (Or.inr ⟨copy, _, hpending, hheld rfl hfails, hsaved⟩)

theorem effect_examine {process before : SessionProcess} {thread : Thread} {other : String} {reference : ℕ}
    (hrequest : thread.request.sessionId = some other) (hused : process.streamableSessions other = some reference)
    (hinstalled : Installed process sessionId) (hexpiry : expiry process sessionId = expiry before sessionId)
    (hcopies : process.redis sessionId = before.redis sessionId ∨ process.redis sessionId = none ∨
      ∃ copy deadline, pending sessionId thread = some copy ∧ expiry before sessionId ≠ none ∧
        process.redis sessionId = some ⟨copy, deadline⟩) :
    Effect settings unused sessionId now before thread (examine settings now process other reference).1
      { thread with stage := (examine settings now process other reference).2 } := by
  rcases examine_cases settings now process other reference with ⟨stage, hrefused, hexamine⟩ |
    ⟨session, renewed, hobject, hlives, hrenewed, hprocess, hstage⟩
  · rw [hexamine]
    refine ⟨hinstalled, Or.inl hexpiry, hcopies, fun copy h => ?_, fun h => ?_⟩
    · rw [@pending_of_quiet { thread with stage := stage } hrefused.quiet] at h
      cases h
    · exact absurd h (@not_validated_of_quiet { thread with stage := stage } hrefused.quiet sessionId)
  · have hpends : ∀ copy, pending sessionId { thread with stage := (examine settings now process other reference).2 } =
        some copy → sessionId = other ∧ copy = renewed := by
      intro copy h
      rcases hstage with ⟨ttlSeconds, hsaving⟩ | hvalid
      · simp only [pending, hsaving, hrequest] at h
        split at h
        · rename_i hsame
          exact ⟨(Option.some.inj hsame).symm, (Option.some.inj h).symm⟩
        · cases h
      · simp only [pending, hvalid] at h
        cases h
    rw [hprocess]
    by_cases hother : sessionId = other
    · subst hother
      have hwritten := expiry_write_self hused hobject renewed
      rw [hrenewed] at hwritten
      have hfound : ¬ Gone settings now before sessionId := by
        intro hgone
        have hexpires : expiry process sessionId = some session.expiresAt := by
          simp [expiry, SessionProcess.held, hused, hobject]
        have hlapsed := hgone.1 session.expiresAt (hexpiry ▸ hexpires)
        omega
      have hbegun : (examine settings now process sessionId reference).2 ≠ .starting := by
        rcases hstage with ⟨ttlSeconds, hsaving⟩ | hvalid
        · simp only [hsaving, ne_eq, reduceCtorEq, not_false_eq_true]
        · simp only [hvalid, ne_eq, reduceCtorEq, not_false_eq_true]
      refine ⟨fun _ => ?_, Or.inr (Or.inr ⟨hwritten, Or.inl ⟨hbegun, hrequest⟩, fun hgone => absurd hgone hfound⟩), hcopies,
        fun copy h => Or.inr ⟨?_, hwritten⟩, fun _ => Or.inr hfound⟩
      · rw [hwritten]
        exact Option.some_ne_none _
      · rw [(hpends copy h).2, hrenewed]
    · have hsame := expiry_write_of_ne process hother reference renewed
      refine ⟨fun h => ?_, Or.inl (hsame.trans hexpiry), hcopies, fun copy h => absurd (hpends copy h).1 hother, fun h => ?_⟩
      · rw [hsame]
        exact hinstalled h
      · have hnamed := h.1
        rw [show ({ thread with stage := (examine settings now process other reference).2 } : Thread).request.sessionId =
          some other from hrequest] at hnamed
        exact absurd (Option.some.inj hnamed).symm hother

theorem effect_rotateFrom {process before : SessionProcess} {thread : Thread} {old new : String} {existing : Session}
    (hrequest : thread.request = .rotate old new) (hinstalled : Installed process sessionId)
    (hexpiry : expiry process sessionId = expiry before sessionId) (hredis : process.redis sessionId = before.redis sessionId)
    (hunused : sessionId = new → now ≤ existing.expiresAt → unused) :
    Effect settings unused sessionId now before thread (rotateFrom settings now process old new existing).1
      { thread with stage := (rotateFrom settings now process old new existing).2 } := by
  rcases rotateFrom_cases settings now process old new existing with ⟨stage, hrefused, hrotate⟩ |
    ⟨hlives, session, hsession, hrotate | ⟨-, keyId, workspace, hrotate⟩⟩
  · rw [hrotate]
    exact .of_quiet hinstalled (Or.inl hexpiry) hredis hrefused.quiet
  · rw [hrotate]
    have hinvalid : ¬ Validated sessionId { thread with stage := .replacing session } := fun h => h.2
    by_cases hnew : sessionId = new
    · subst hnew
      have hmade : expiry (process.install sessionId session) sessionId = some (now + settings.sessionTtlMs) := by
        rw [expiry_install_self, hsession]
      refine ⟨installed_install hinstalled _ _, Or.inr (Or.inr ⟨hmade, Or.inr ⟨⟨old, hrequest⟩, trivial⟩, fun _ => hunused rfl hlives⟩),
        Or.inl hredis, fun copy h => Or.inr ⟨?_, hmade⟩, fun h => absurd h hinvalid⟩
      simp only [pending, hrequest, if_true, Option.some.injEq] at h
      rw [← h, hsession]
    · refine ⟨installed_install hinstalled _ _, Or.inl ((expiry_install_of_ne process hnew session).trans hexpiry),
        Or.inl hredis, fun copy h => ?_, fun h => absurd h hinvalid⟩
      simp only [pending, hrequest, if_neg (Ne.symm hnew), reduceCtorEq] at h
  · rw [hrotate]
    have hinstalled' := installed_forget (installed_install hinstalled new session) old
    rcases expiry_forget (process.install new session) sessionId old with hsame | hnone
    · by_cases hnew : sessionId = new
      · subst hnew
        have hmade : expiry ((process.install sessionId session).forget old) sessionId =
            some (now + settings.sessionTtlMs) := by
          rw [hsame, expiry_install_self, hsession]
        refine ⟨hinstalled', Or.inr (Or.inr ⟨hmade, Or.inr ⟨⟨old, hrequest⟩, trivial⟩, fun _ => hunused rfl hlives⟩),
          Or.inl hredis, fun copy h => ?_, fun h => h.2.elim⟩
        cases h
      · exact .of_quiet hinstalled' (Or.inl (by rw [hsame, expiry_install_of_ne process hnew, hexpiry])) hredis trivial
    · exact .of_quiet hinstalled' (Or.inr hnone) hredis trivial

/-- `session.close` after a process that has the effect, for a handler with nothing left to write. -/
theorem effect_closeSession {process before : SessionProcess} {thread : Thread} {other : String} {ending : Ending}
    (hinstalled : Installed process sessionId) (hexpiry : expiry process sessionId = expiry before sessionId)
    (hcopies : process.redis sessionId = before.redis sessionId ∨ process.redis sessionId = none ∨
      ∃ copy deadline, pending sessionId thread = some copy ∧ expiry before sessionId ≠ none ∧
        process.redis sessionId = some ⟨copy, deadline⟩) :
    Effect settings unused sessionId now before thread (closeSession settings process other ending).1
      { thread with stage := (closeSession settings process other ending).2 } := by
  have hquiet : Quiet (closeSession settings process other ending).2 := by
    simp only [closeSession]
    split <;> trivial
  refine ⟨installed_forget hinstalled other, ?_, hcopies, fun copy h => ?_, fun h => ?_⟩
  · rcases expiry_forget process sessionId other with hsame | hnone
    · exact Or.inl (hsame.trans hexpiry)
    · exact Or.inr (Or.inl hnone)
  · rw [@pending_of_quiet { thread with stage := (closeSession settings process other ending).2 } hquiet] at h
    cases h
  · exact absurd h (@not_validated_of_quiet { thread with stage := (closeSession settings process other ending).2 } hquiet
      sessionId)

theorem effect_begin {process before : SessionProcess} {thread : Thread} (hinstalled : Installed process sessionId)
    (hexpiry : expiry process sessionId = expiry before sessionId) (hredis : process.redis sessionId = before.redis sessionId)
    (hcreate : ∀ authenticated context version,
      thread.request = .create sessionId authenticated context version → unused)
    (hrotate : ∀ old existing, thread.request = .rotate old sessionId → process.held old = some existing →
      now ≤ existing.expiresAt → unused) :
    Effect settings unused sessionId now before thread (begin settings now process thread.request).1
      { thread with stage := (begin settings now process thread.request).2 } := by
  obtain ⟨request, stage⟩ := thread
  have hquiet : ∀ next, Quiet next →
      Effect settings unused sessionId now before ⟨request, stage⟩ process ⟨request, next⟩ :=
    fun next h => .of_quiet hinstalled (Or.inl hexpiry) hredis h
  have hclosing : ∀ other ending, Quiet (beginClose process other ending) := by
    intro other ending
    rw [beginClose]
    split <;> trivial
  have hmissing : Quiet (if settings.redisEnabled then .reading else .finished .notFound) := by
    split <;> trivial
  cases request with
  | create other authenticated context version =>
    have hpends : ∀ copy, pending sessionId ⟨.create other authenticated context version,
        (begin settings now process (.create other authenticated context version)).2⟩ = some copy →
        other = sessionId ∧ copy = newSession settings now other authenticated context version := by
      intro copy h
      simp only [begin] at h
      split at h
      · simp only [pending, SessionRequest.sessionId, Option.some.injEq] at h
        split at h
        · rename_i hother
          exact ⟨hother, (Option.some.inj h).symm⟩
        · cases h
      · cases h
    refine ⟨installed_install hinstalled _ _, ?_, Or.inl hredis, fun copy h => ?_, fun h => ?_⟩
    · by_cases hother : sessionId = other
      · subst hother
        refine Or.inr (Or.inr ⟨expiry_install_self process _ _, Or.inl ⟨?_, rfl⟩, fun _ => hcreate _ _ _ rfl⟩)
        simp only [begin]
        split <;> simp only [ne_eq, reduceCtorEq, not_false_eq_true]
      · exact Or.inl ((expiry_install_of_ne process hother _).trans hexpiry)
    · obtain ⟨rfl, rfl⟩ := hpends copy h
      exact Or.inr ⟨rfl, expiry_install_self process other _⟩
    · exfalso
      have hvalidated := h.2
      simp only [begin] at hvalidated
      split at hvalidated
      · rename_i heq
        split at heq <;> cases heq
      · rename_i heq
        split at heq <;> cases heq
      · exact hvalidated
  | validate other version =>
    simp only [begin]
    rcases hused : process.streamableSessions other with _ | reference
    · exact hquiet _ hmissing
    · exact @effect_examine _ _ _ _ _ _ ⟨.validate other version, stage⟩ _ _ rfl hused hinstalled hexpiry (Or.inl hredis)
  | close other => exact hquiet _ (hclosing other .closed)
  | rotate old new =>
    simp only [begin]
    rcases hheld : process.held old with _ | existing
    · exact hquiet _ hmissing
    · refine @effect_rotateFrom _ _ _ _ _ _ ⟨.rotate old new, stage⟩ _ _ _ rfl hinstalled hexpiry hredis ?_
      rintro rfl hlives
      exact hrotate old existing rfl hheld hlives
  | cleanup startedAt other =>
    simp only [begin]
    split
    · split
      · exact hquiet _ (hclosing other .cleaned)
      · rename_i session _ _ _
        have hidle : Quiet (if idleReflects settings startedAt session then .idling ‹ℕ› else .finished .kept) := by
          split <;> trivial
        exact hquiet _ hidle
    · exact hquiet _ trivial
  | restart => exact .of_quiet (fun hused => absurd rfl hused) (Or.inr rfl) hredis trivial

/-- What the condition on a step says of the new id of a rotation. -/
theorem MayReplace.unnamed {pool : Pool SessionProcess Thread} {old new : String} {found : Option Session}
    {existing : Session}
    (h : MayReplace pool now old new found) (hfound : found = some existing) (hlives : now ≤ existing.expiresAt) :
    ∀ other ∈ pool.threads, ¬ Names new other := by
  subst hfound
  simp only [MayReplace] at h
  rcases h with hexpired | ⟨-, hunused, -⟩
  · omega
  · exact hunused

theorem effect_advance {pool : Pool SessionProcess Thread} {event : ℕ × StepInput} {thread : Thread}
    (hthread : pool.threads[event.1]? = some thread) (horderly : Orderly settings pool event)
    (hinstalled : Installed pool.shared sessionId) :
    Effect settings (∀ other ∈ pool.threads, ¬ Names sessionId other) sessionId (pool.shared.clock + event.2.elapsed)
      pool.shared thread (advance settings event.2 pool.shared thread).1 (advance settings event.2 pool.shared thread).2 := by
  obtain ⟨i, input⟩ := event
  obtain ⟨request, stage⟩ := thread
  simp only [Orderly, hthread] at horderly
  suffices h :
    Effect settings (∀ other ∈ pool.threads, ¬ Names sessionId other) sessionId (pool.shared.clock + input.elapsed)
      pool.shared ⟨request, stage⟩
      (continueFrom settings (pool.shared.clock + input.elapsed) input.fails pool.shared request stage).1
      ⟨request, (continueFrom settings (pool.shared.clock + input.elapsed) input.fails pool.shared request stage).2⟩ from
    ⟨h.installed, h.expires, h.copies, h.pends, h.validates⟩
  generalize pool.shared.clock + input.elapsed = now at horderly ⊢
  have hquiet : ∀ next, Quiet next → Effect settings (∀ other ∈ pool.threads, ¬ Names sessionId other) sessionId now
      pool.shared ⟨request, stage⟩ pool.shared ⟨request, next⟩ :=
    fun next h => .of_quiet hinstalled (Or.inl rfl) rfl h
  have hstuck : Effect settings (∀ other ∈ pool.threads, ¬ Names sessionId other) sessionId now pool.shared
      ⟨request, stage⟩ pool.shared ⟨request, stage⟩ :=
    ⟨hinstalled, Or.inl rfl, Or.inl rfl, fun copy h => Or.inl h, fun h => Or.inl h⟩
  cases stage with
  | starting =>
    refine @effect_begin _ _ _ _ pool.shared _ ⟨request, .starting⟩ hinstalled rfl rfl ?_ ?_
    · rintro authenticated context version rfl
      exact horderly
    · rintro old existing rfl hheld hlives
      exact MayReplace.unnamed horderly hheld hlives
  | reading =>
    cases request with
    | validate other version =>
      simp only [continueFrom]
      rcases hread : getSession settings now input.fails pool.shared other with _ | copy
      · exact hquiet _ trivial
      · have hfound : sessionId = other → ¬ Gone settings now pool.shared sessionId := by
          rintro rfl hgone
          have hlapsed := hgone.2 copy (getSession_of_fails hread)
          have hlives := horderly copy hread
          omega
        refine ⟨installed_install hinstalled _ _, ?_, Or.inl rfl, fun saved h => ?_, fun h => h.2.elim⟩
        · by_cases hother : sessionId = other
          · have hmade := expiry_install_self pool.shared other (restored settings now version copy)
            rw [← hother] at hmade
            exact Or.inr (Or.inr ⟨by rw [← hother]; exact hmade, Or.inl ⟨by simp, congrArg some hother.symm⟩,
              fun hgone => absurd hgone (hfound hother)⟩)
          · exact Or.inl (expiry_install_of_ne _ hother _)
        · simp only [pending, SessionRequest.sessionId, Option.some.injEq] at h
          split at h
          · rename_i hother
            subst hother
            rw [← Option.some.inj h]
            exact Or.inr ⟨rfl, expiry_install_self _ _ _⟩
          · cases h
    | rotate old new =>
      simp only [continueFrom]
      rcases hread : getSession settings now input.fails pool.shared old with _ | existing
      · exact hquiet _ trivial
      · refine @effect_rotateFrom _ _ _ _ _ _ ⟨.rotate old new, .reading⟩ _ _ _ rfl hinstalled rfl rfl ?_
        rintro rfl hlives
        exact MayReplace.unnamed horderly hread hlives
    | _ => exact hstuck
  | restoring reference copy =>
    rcases hrequest : request.sessionId with _ | other
    · simp only [continueFrom, hrequest]
      exact hstuck
    · simp only [continueFrom, hrequest]
      simp only [hrequest, Option.mem_def, Option.some.injEq, forall_eq'] at horderly
      refine @effect_examine _ _ _ _ _ _ ⟨request, .restoring reference copy⟩ _ _ hrequest ?_ ?_ ?_ ?_
      · rw [streamableSessions_saveSession]
        exact horderly
      · intro hused
        rw [expiry_saveSession]
        rw [streamableSessions_saveSession] at hused
        exact hinstalled hused
      · exact expiry_saveSession _ _ _ _ _ _
      · have hpending : pending other ⟨request, .restoring reference copy⟩ = some copy := by
          simp only [pending, hrequest, if_true]
        refine @copies_saveSession _ _ _ pool.shared _ _ _ _ hpending fun hother _ => ?_
        subst hother
        apply hinstalled
        rw [horderly]
        exact Option.some_ne_none _
  | saving copy ttlSeconds validated =>
    rcases hrequest : request.sessionId with _ | other
    · simp only [continueFrom, hrequest]
      exact hstuck
    · simp only [continueFrom, hrequest]
      simp only [hrequest, Option.mem_def, Option.some.injEq, forall_eq'] at horderly
      have hpending : pending other ⟨request, .saving copy ttlSeconds validated⟩ = some copy := by
        simp only [pending, hrequest, if_true]
      refine ⟨fun hused => ?_, Or.inl (expiry_saveSession _ _ _ _ _ _), ?_, fun saved h => absurd h.symm (Option.some_ne_none saved), fun h => Or.inl ⟨h.1, ?_⟩⟩
      · rw [expiry_saveSession]
        rw [streamableSessions_saveSession] at hused
        exact hinstalled hused
      · refine @copies_saveSession _ _ _ pool.shared _ _ _ _ hpending fun hother hfails => ?_
        subst hother
        exact hinstalled (horderly hfails)
      · have hvalidated := h.2
        cases validated with
        | none => exact hvalidated
        | some reference => trivial
  | replacing copy =>
    cases request with
    | rotate old new =>
      simp only [continueFrom]
      refine @effect_closeSession _ _ _ _ _ _ ⟨.rotate old new, .replacing copy⟩ _ _ ?_ ?_ ?_
      · intro hused
        rw [expiry_saveSession]
        rw [streamableSessions_saveSession] at hused
        exact hinstalled hused
      · exact expiry_saveSession _ _ _ _ _ _
      · have hpending : pending new ⟨.rotate old new, .replacing copy⟩ = some copy := by
          simp only [pending, if_true]
        refine @copies_saveSession _ _ _ pool.shared _ _ _ _ hpending fun hother hfails => ?_
        subst hother
        exact hinstalled (horderly hfails)
    | _ => exact hstuck
  | reflecting ending =>
    rcases hrequest : request.sessionId with _ | other
    · simp only [continueFrom, hrequest]
      exact hstuck
    · simp only [continueFrom, hrequest]
      exact @effect_closeSession _ _ _ _ _ _ ⟨request, .reflecting ending⟩ _ _ hinstalled rfl (Or.inl rfl)
  | deleting ending =>
    rcases hrequest : request.sessionId with _ | other
    · simp only [continueFrom, hrequest]
      exact hstuck
    · simp only [continueFrom, hrequest, deleteSession]
      split
      · exact hquiet _ trivial
      · refine ⟨hinstalled, Or.inl rfl, ?_, fun copy h => absurd h.symm (Option.some_ne_none copy), fun h => h.2.elim⟩
        by_cases hother : sessionId = other
        · exact Or.inr (Or.inl (by simp [Store.delete, hother]))
        · exact Or.inl (by simp [Store.delete, hother])
  | idling reference =>
    cases request with
    | cleanup startedAt other =>
      simp only [continueFrom]
      split
      · rename_i session hobject
        split
        · exact hquiet _ trivial
        · have hsame := @expiry_write_same pool.shared other reference session
            { session with lastReflectedAt := some startedAt } hobject rfl sessionId
          refine .of_quiet (fun hused => ?_) (Or.inl hsame) rfl trivial
          rw [hsame]
          exact hinstalled hused
      · exact hquiet _ trivial
    | _ => exact hstuck
  | finished answer => exact hstuck

/-! ## What a step does to the handler -/

theorem beginClose_ne_starting (process : SessionProcess) (other : String) (ending : Ending) :
    beginClose process other ending ≠ .starting := by
  rw [beginClose]
  split <;> simp only [ne_eq, reduceCtorEq, not_false_eq_true]

theorem closeSession_ne_starting (process : SessionProcess) (other : String) (ending : Ending) :
    (closeSession settings process other ending).2 ≠ .starting := by
  simp only [closeSession]
  split <;> simp only [ne_eq, reduceCtorEq, not_false_eq_true]

theorem Refused.ne_starting {stage : Stage} (h : Refused stage) : stage ≠ .starting := by
  rintro rfl
  exact h

theorem examine_ne_starting (process : SessionProcess) (other : String) (reference : ℕ) :
    (examine settings now process other reference).2 ≠ .starting := by
  rcases examine_cases settings now process other reference with ⟨stage, hrefused, hexamine⟩ |
    ⟨session, renewed, -, -, -, -, ⟨ttlSeconds, hsaving⟩ | hvalid⟩
  · rw [hexamine]
    exact hrefused.ne_starting
  · simp only [hsaving, ne_eq, reduceCtorEq, not_false_eq_true]
  · simp only [hvalid, ne_eq, reduceCtorEq, not_false_eq_true]

theorem rotateFrom_ne_starting (process : SessionProcess) (old new : String) (existing : Session) :
    (rotateFrom settings now process old new existing).2 ≠ .starting := by
  rcases rotateFrom_cases settings now process old new existing with ⟨stage, hrefused, hrotate⟩ |
    ⟨-, session, -, hrotate | ⟨-, keyId, workspace, hrotate⟩⟩
  · rw [hrotate]
    exact hrefused.ne_starting
  · simp only [hrotate, ne_eq, reduceCtorEq, not_false_eq_true]
  · simp only [hrotate, ne_eq, reduceCtorEq, not_false_eq_true]

/-- A handler that has taken a step has begun. -/
theorem continueFrom_ne_starting (fails : Bool) (process : SessionProcess) (request : SessionRequest) (stage : Stage) :
    (continueFrom settings now fails process request stage).2 ≠ .starting := by
  cases stage with
  | starting =>
    cases request with
    | create _ _ _ _ =>
      simp only [continueFrom, begin]
      split <;> simp only [ne_eq, reduceCtorEq, not_false_eq_true]
    | validate other _ =>
      simp only [continueFrom, begin]
      split
      · exact examine_ne_starting process other _
      · split <;> simp only [ne_eq, reduceCtorEq, not_false_eq_true]
    | close other => exact beginClose_ne_starting process other .closed
    | rotate old new =>
      simp only [continueFrom, begin]
      split
      · exact rotateFrom_ne_starting process old new _
      · split <;> simp only [ne_eq, reduceCtorEq, not_false_eq_true]
    | cleanup _ other =>
      simp only [continueFrom, begin]
      split
      · split
        · exact beginClose_ne_starting process other .cleaned
        · split <;> simp only [ne_eq, reduceCtorEq, not_false_eq_true]
      · simp only [ne_eq, reduceCtorEq, not_false_eq_true]
    | restart => simp only [continueFrom, begin, ne_eq, reduceCtorEq, not_false_eq_true]
  | reading =>
    cases request with
    | rotate old new =>
      simp only [continueFrom]
      split
      · simp only [ne_eq, reduceCtorEq, not_false_eq_true]
      · exact rotateFrom_ne_starting process old new _
    | validate _ _ =>
      simp only [continueFrom]
      split <;> simp only [ne_eq, reduceCtorEq, not_false_eq_true]
    | _ => simp only [continueFrom, ne_eq, reduceCtorEq, not_false_eq_true]
  | restoring reference copy =>
    simp only [continueFrom]
    split
    · exact examine_ne_starting _ _ reference
    · simp only [ne_eq, reduceCtorEq, not_false_eq_true]
  | replacing copy =>
    cases request with
    | rotate old new => exact closeSession_ne_starting _ old _
    | _ => simp only [continueFrom, ne_eq, reduceCtorEq, not_false_eq_true]
  | reflecting ending =>
    simp only [continueFrom]
    split
    · exact closeSession_ne_starting process _ ending
    · simp only [ne_eq, reduceCtorEq, not_false_eq_true]
  | idling reference =>
    cases request with
    | cleanup _ _ =>
      simp only [continueFrom]
      split <;> simp only [ne_eq, reduceCtorEq, not_false_eq_true]
    | _ => simp only [continueFrom, ne_eq, reduceCtorEq, not_false_eq_true]
  | saving _ _ _ | deleting _ =>
    simp only [continueFrom]
    split <;> simp only [ne_eq, reduceCtorEq, not_false_eq_true]
  | finished _ => simp only [continueFrom, ne_eq, reduceCtorEq, not_false_eq_true]

theorem replaced_closeSession (process : SessionProcess) (other : String) (keyId : Option ApiKeyStore.KeyId)
    (workspace : Option String) : Replaced (closeSession settings process other (.rotated keyId workspace)).2 := by
  simp only [closeSession]
  split <;> trivial

theorem replaced_advance {input : StepInput} {process : SessionProcess} {thread : Thread} {old new : String}
    (hrequest : thread.request = .rotate old new) (h : Replaced thread.stage) :
    Replaced (advance settings input process thread).2.stage := by
  obtain ⟨request, stage⟩ := thread
  obtain rfl : request = .rotate old new := hrequest
  cases stage with
  | replacing copy =>
    simp only [advance, continueFrom]
    exact replaced_closeSession _ old _ _
  | reflecting ending =>
    cases ending with
    | rotated keyId workspace =>
      simp only [advance, continueFrom]
      exact replaced_closeSession _ old _ _
    | _ => exact h.elim
  | deleting ending =>
    cases ending with
    | rotated keyId workspace => trivial
    | _ => exact h.elim
  | finished answer => exact h
  | _ => exact h.elim

theorem names_advance {input : StepInput} {process : SessionProcess} {thread : Thread} (h : Names sessionId thread) :
    Names sessionId (advance settings input process thread).2 := by
  rcases h with ⟨-, hrequest⟩ | ⟨⟨old, hrequest⟩, hreplaced⟩
  · exact Or.inl ⟨continueFrom_ne_starting _ _ _ _, hrequest⟩
  · exact Or.inr ⟨⟨old, hrequest⟩, replaced_advance hrequest hreplaced⟩

/-- A session that a rotation may replace is not gone. -/
theorem MayReplace.cases {pool : Pool SessionProcess Thread} {new : String} {found : Option Session}
    {existing : Session}
    (h : MayReplace pool now sessionId new found) (hfound : found = some existing) (hlives : now ≤ existing.expiresAt) :
    ∀ other ∈ pool.threads, HasSuccessor sessionId other → Removed sessionId other := by
  subst hfound
  simp only [MayReplace] at h
  rcases h with hexpired | ⟨-, -, hnone⟩
  · omega
  · exact hnone

/-- A rotation replaces a session that is not gone, while no other one does. -/
theorem successor_advance {pool : Pool SessionProcess Thread} {event : ℕ × StepInput} {thread : Thread}
    (hthread : pool.threads[event.1]? = some thread) (horderly : Orderly settings pool event)
    (h : HasSuccessor sessionId (advance settings event.2 pool.shared thread).2) :
    HasSuccessor sessionId thread ∨ ¬ Gone settings (pool.shared.clock + event.2.elapsed) pool.shared sessionId ∧
      ∀ other ∈ pool.threads, HasSuccessor sessionId other → Removed sessionId other := by
  obtain ⟨i, input⟩ := event
  obtain ⟨request, stage⟩ := thread
  obtain ⟨⟨new, hrequest⟩, hreplaced⟩ := h
  obtain rfl : request = .rotate sessionId new := hrequest
  simp only [Orderly, hthread] at horderly
  simp only [advance] at hreplaced
  generalize pool.shared.clock + input.elapsed = now at horderly hreplaced ⊢
  have hfrom : ∀ (process : SessionProcess) (existing : Session),
      Replaced (rotateFrom settings now process sessionId new existing).2 → now ≤ existing.expiresAt := by
    intro process existing hreplaced
    rcases rotateFrom_cases settings now process sessionId new existing with ⟨stage, hrefused, hrotate⟩ | ⟨hlives, -⟩
    · rw [hrotate] at hreplaced
      exact absurd hreplaced hrefused.not_replaced
    · exact hlives
  cases stage with
  | starting =>
    right
    simp only [continueFrom, begin] at hreplaced
    split at hreplaced
    · rename_i existing hheld
      have hlives := hfrom _ existing hreplaced
      refine ⟨fun hgone => ?_, MayReplace.cases horderly hheld hlives⟩
      have hexpires : expiry pool.shared sessionId = some existing.expiresAt :=
        congrArg (Option.map Session.expiresAt) hheld
      have hlapsed := hgone.1 _ hexpires
      omega
    · split at hreplaced <;> exact hreplaced.elim
  | reading =>
    right
    simp only [continueFrom] at hreplaced
    split at hreplaced
    · exact hreplaced.elim
    · rename_i existing hread
      have hlives := hfrom _ existing hreplaced
      refine ⟨fun hgone => ?_, MayReplace.cases horderly hread hlives⟩
      have hlapsed := hgone.2 existing (getSession_of_fails hread)
      omega
  | replacing copy => exact Or.inl ⟨⟨new, rfl⟩, trivial⟩
  | restoring reference copy =>
    exfalso
    simp only [continueFrom, SessionRequest.sessionId] at hreplaced
    rcases examine_cases settings now
        (saveSession now input.fails pool.shared sessionId copy (ceilSeconds settings.sessionTtlMs)) sessionId
        reference with ⟨stage, hrefused, hexamine⟩ | ⟨session, renewed, -, -, -, -, ⟨ttlSeconds, hsaving⟩ | hvalid⟩
    · rw [hexamine] at hreplaced
      exact hrefused.not_replaced hreplaced
    · simp only [hsaving, Replaced] at hreplaced
    · simp only [hvalid, Replaced] at hreplaced
  | saving copy ttlSeconds validated =>
    exfalso
    cases validated <;> exact hreplaced
  | reflecting ending =>
    left
    refine ⟨⟨new, rfl⟩, ?_⟩
    simp only [continueFrom, SessionRequest.sessionId, closeSession] at hreplaced
    cases ending with
    | rotated keyId workspace => trivial
    | _ => split at hreplaced <;> exact hreplaced
  | deleting ending =>
    left
    refine ⟨⟨new, rfl⟩, ?_⟩
    cases ending with
    | rotated keyId workspace => trivial
    | _ => exact hreplaced
  | idling reference => exact hreplaced.elim
  | finished answer => exact Or.inl ⟨⟨new, rfl⟩, hreplaced⟩

theorem gone_of_removed {process : SessionProcess} (hexpiry : expiry process sessionId = none)
    (hread : getSession settings now false process sessionId = none) : Gone settings now process sessionId := by
  constructor
  · intro expiresAt h
    rw [hexpiry] at h
    cases h
  · intro copy h
    rw [hread] at h
    cases h

theorem getSession_of_disabled (hredis : settings.redisEnabled = false) (fails : Bool) (process : SessionProcess) :
    getSession settings now fails process sessionId = none := by
  simp only [getSession, hredis, Bool.not_false, Bool.or_true, if_true]

theorem expiry_of_unused {process : SessionProcess} (h : process.streamableSessions sessionId = none) :
    expiry process sessionId = none := by
  simp only [expiry, SessionProcess.held, h, Option.bind_none, Option.map_none]

/-- `session.close` ends at once only without Redis. -/
theorem gone_of_closeSession {process : SessionProcess} {ending : Ending} {answer : Answer}
    (h : (closeSession settings process sessionId ending).2 = .finished answer) :
    Gone settings now (closeSession settings process sessionId ending).1 sessionId := by
  simp only [closeSession] at h ⊢
  split at h
  · cases h
  · rename_i hredis
    exact gone_of_removed (expiry_forget_self process sessionId) (getSession_of_disabled (by simpa using hredis) _ _)

theorem gone_of_deleteSession {fails : Bool} {process : SessionProcess} (hfails : fails = false)
    (hunused : process.streamableSessions sessionId = none) :
    Gone settings now (deleteSession fails process sessionId) sessionId := by
  have hdeleted : deleteSession fails process sessionId = { process with redis := process.redis.delete sessionId } := by
    simp only [deleteSession, hfails, Bool.false_eq_true, if_false]
  rw [hdeleted]
  refine gone_of_removed (expiry_of_unused hunused) ?_
  simp only [getSession, Store.get_delete_self, ite_self]

theorem gone_of_rotateFrom {process : SessionProcess} {new : String} {existing : Session}
    {keyId : Option ApiKeyStore.KeyId}
    {workspace : Option String}
    (h : (rotateFrom settings now process sessionId new existing).2 = .finished (.ended (.rotated keyId workspace))) :
    Gone settings now (rotateFrom settings now process sessionId new existing).1 sessionId := by
  rcases rotateFrom_cases settings now process sessionId new existing with ⟨stage, hrefused, hrotate⟩ |
    ⟨-, session, -, hrotate | ⟨hredis, _, _, hrotate⟩⟩
  · rw [hrotate] at h
    obtain rfl : stage = .finished (.ended (.rotated keyId workspace)) := h
    exact hrefused.elim
  · rw [hrotate] at h
    cases h
  · rw [hrotate]
    exact gone_of_removed (expiry_forget_self _ sessionId) (getSession_of_disabled hredis _ _)

/-- A request that has just closed a session or rotated it away leaves nothing that has not expired. -/
theorem removed_advance {pool : Pool SessionProcess Thread} {event : ℕ × StepInput} {thread : Thread}
    (hthread : pool.threads[event.1]? = some thread) (horderly : Orderly settings pool event)
    (h : Removed sessionId (advance settings event.2 pool.shared thread).2) :
    Removed sessionId thread ∨ Gone settings (pool.shared.clock + event.2.elapsed)
      (advance settings event.2 pool.shared thread).1 sessionId := by
  obtain ⟨i, input⟩ := event
  obtain ⟨request, stage⟩ := thread
  simp only [Orderly, hthread] at horderly
  simp only [advance] at h ⊢
  generalize pool.shared.clock + input.elapsed = now at horderly h ⊢
  rcases h with ⟨hrequest, hclosed⟩ | ⟨new, keyId, workspace, hrequest, hrotated⟩
  · obtain rfl : request = .close sessionId := hrequest
    simp only at hclosed
    cases stage with
    | starting =>
      right
      simp only [continueFrom, begin, beginClose] at hclosed ⊢
      split at hclosed
      · cases hclosed
      · rename_i hunused
        have hnone : pool.shared.streamableSessions sessionId = none := by simpa using hunused
        exact ⟨fun expiresAt hexpires => absurd (hexpires.symm.trans (expiry_of_unused hnone)) (Option.some_ne_none expiresAt), horderly hnone⟩
    | reflecting ending =>
      right
      exact gone_of_closeSession hclosed
    | deleting ending =>
      right
      simp only [continueFrom, SessionRequest.sessionId, Stage.finished.injEq, Answer.ended.injEq] at hclosed
      subst hclosed
      exact gone_of_deleteSession horderly.1 horderly.2
    | finished answer => exact Or.inl (Or.inl ⟨rfl, hclosed⟩)
    | restoring reference copy =>
      exfalso
      simp only [continueFrom, SessionRequest.sessionId] at hclosed
      rcases examine_cases settings now
          (saveSession now input.fails pool.shared sessionId copy (ceilSeconds settings.sessionTtlMs)) sessionId
          reference with ⟨stage, hrefused, hexamine⟩ | ⟨session, renewed, -, -, -, -, ⟨ttlSeconds, hsaving⟩ | hvalid⟩
      · rw [hexamine] at hclosed
        obtain rfl : stage = .finished (.ended .closed) := hclosed
        exact hrefused
      · simp only [hsaving, reduceCtorEq] at hclosed
      · simp only [hvalid, reduceCtorEq, Stage.finished.injEq] at hclosed
    | saving copy ttlSeconds validated =>
      exfalso
      simp only [continueFrom, SessionRequest.sessionId, Stage.finished.injEq] at hclosed
      cases validated <;> cases hclosed
    | _ => simp only [continueFrom, reduceCtorEq] at hclosed
  · obtain rfl : request = .rotate sessionId new := hrequest
    simp only at hrotated
    cases stage with
    | starting =>
      right
      simp only [continueFrom, begin] at hrotated ⊢
      split at hrotated
      · exact gone_of_rotateFrom hrotated
      · split at hrotated <;> cases hrotated
    | reading =>
      right
      simp only [continueFrom] at hrotated ⊢
      split at hrotated
      · cases hrotated
      · exact gone_of_rotateFrom hrotated
    | replacing copy =>
      right
      exact gone_of_closeSession hrotated
    | reflecting ending =>
      right
      exact gone_of_closeSession hrotated
    | deleting ending =>
      right
      simp only [continueFrom, SessionRequest.sessionId, Stage.finished.injEq, Answer.ended.injEq] at hrotated
      subst hrotated
      exact gone_of_deleteSession horderly.1 horderly.2
    | finished answer => exact Or.inl (Or.inr ⟨new, keyId, workspace, rfl, hrotated⟩)
    | restoring reference copy =>
      exfalso
      simp only [continueFrom, SessionRequest.sessionId] at hrotated
      rcases examine_cases settings now
          (saveSession now input.fails pool.shared sessionId copy (ceilSeconds settings.sessionTtlMs)) sessionId
          reference with ⟨stage, hrefused, hexamine⟩ | ⟨session, renewed, -, -, -, -, ⟨ttlSeconds, hsaving⟩ | hvalid⟩
      · rw [hexamine] at hrotated
        obtain rfl : stage = .finished (.ended (.rotated keyId workspace)) := hrotated
        exact hrefused
      · simp only [hsaving, reduceCtorEq] at hrotated
      · simp only [hvalid, reduceCtorEq, Stage.finished.injEq] at hrotated
    | saving copy ttlSeconds validated =>
      exfalso
      simp only [continueFrom, SessionRequest.sessionId, Stage.finished.injEq] at hrotated
      cases validated <;> cases hrotated
    | idling reference => simp only [continueFrom, reduceCtorEq] at hrotated

/-! ## Whole runs -/

/-- The invariant of one id: what is kept for it, what is still to be written, and who has removed it. -/
structure Standing (settings : SessionSettings) (sessionId : String) (pool : Pool SessionProcess Thread) : Prop where
  installed : Installed pool.shared sessionId
  known : expiry pool.shared sessionId ≠ none ∨ pool.shared.redis sessionId ≠ none →
    ∃ thread ∈ pool.threads, Names sessionId thread
  copy_le : ∀ entry, pool.shared.redis sessionId = some entry →
    entry.value.expiresAt ≤ pool.shared.clock + settings.sessionTtlMs
  pending_le : ∀ thread ∈ pool.threads, ∀ copy, pending sessionId thread = some copy →
    copy.expiresAt ≤ pool.shared.clock + settings.sessionTtlMs
  copy_leads : ∀ expiresAt entry, expiry pool.shared sessionId = some expiresAt →
    pool.shared.redis sessionId = some entry → entry.value.expiresAt ≤ expiresAt
  pending_leads : ∀ expiresAt, expiry pool.shared sessionId = some expiresAt → ∀ thread ∈ pool.threads, ∀ copy,
    pending sessionId thread = some copy → copy.expiresAt ≤ expiresAt
  removed : ∀ thread ∈ pool.threads, Removed sessionId thread →
    Gone settings pool.shared.clock pool.shared sessionId
  once : pool.AtMostOne (HasSuccessor sessionId)

theorem Gone.mono {process : SessionProcess} {later : ℕ} (h : Gone settings now process sessionId) (hle : now ≤ later) :
    Gone settings later process sessionId := by
  refine ⟨fun expiresAt hexpires => Nat.lt_of_lt_of_le (h.1 expiresAt hexpires) hle, fun copy hread => ?_⟩
  have hearlier : getSession settings now false process sessionId = some copy := by
    obtain ⟨hredis, hget⟩ := getSession_eq_some_iff.mp hread
    obtain ⟨⟨value, deadline⟩, hentry, halive, hvalue⟩ := Store.get_eq_some_iff.mp hget
    refine getSession_eq_some_iff.mpr ⟨hredis, Store.get_eq_some_iff.mpr ⟨_, hentry, ?_, hvalue⟩⟩
    cases deadline with
    | none => rfl
    | some deadline =>
      simp only [Entry.aliveAt, decide_eq_true_eq] at halive ⊢
      omega
  exact Nat.lt_of_lt_of_le (h.2 copy hearlier) hle

/-- An expired session has nothing left that has not expired. -/
theorem gone_of_expired {pool : Pool SessionProcess Thread} (h : Standing settings sessionId pool)
    (hexpired : Expired settings pool.shared sessionId) : Gone settings pool.shared.clock pool.shared sessionId := by
  rw [Expired] at hexpired
  have hvalue : ∀ copy, getSession settings pool.shared.clock false pool.shared sessionId = some copy →
      ∃ entry, pool.shared.redis sessionId = some entry ∧ entry.value = copy := by
    intro copy hread
    obtain ⟨entry, hentry, -, hvalue⟩ := Store.get_eq_some_iff.mp (getSession_eq_some_iff.mp hread).2
    exact ⟨entry, hentry, hvalue⟩
  rcases hheld : pool.shared.held sessionId with _ | session
  · simp only [hheld] at hexpired
    obtain ⟨copy, hread, hlapsed⟩ := hexpired
    refine ⟨fun expiresAt hexpires => ?_, fun other hother => ?_⟩
    · simp only [expiry, hheld, Option.map_none, reduceCtorEq] at hexpires
    · rw [hread] at hother
      rw [← Option.some.inj hother]
      exact hlapsed
  · simp only [hheld] at hexpired
    have hexpires : expiry pool.shared sessionId = some session.expiresAt :=
      congrArg (Option.map Session.expiresAt) hheld
    refine ⟨fun expiresAt hother => ?_, fun copy hread => ?_⟩
    · rw [hexpires] at hother
      rw [← Option.some.inj hother]
      exact hexpired
    · obtain ⟨entry, hentry, rfl⟩ := hvalue copy hread
      exact Nat.lt_of_le_of_lt (h.copy_leads _ _ hexpires hentry) hexpired

/-- What is gone stays gone in a step that makes no session under an unused id. -/
theorem gone_of_effect {pool : Pool SessionProcess Thread} {thread next : Thread} {after : SessionProcess}
    {unused : Prop}
    (hstanding : Standing settings sessionId pool) (hmem : thread ∈ pool.threads)
    (heffect : Effect settings unused sessionId now pool.shared thread after next)
    (hgone : Gone settings now pool.shared sessionId) (hused : ¬ unused) : Gone settings now after sessionId := by
  constructor
  · intro expiresAt hexpires
    rcases heffect.expires with hsame | hnone | ⟨-, -, hunused⟩
    · exact hgone.1 expiresAt (hsame ▸ hexpires)
    · rw [hnone] at hexpires
      cases hexpires
    · exact absurd (hunused hgone) hused
  · intro copy hread
    obtain ⟨hredis, hget⟩ := getSession_eq_some_iff.mp hread
    obtain ⟨entry, hentry, halive, rfl⟩ := Store.get_eq_some_iff.mp hget
    rcases heffect.copies with hsame | hnone | ⟨saved, deadline, hpending, hheld, hsaved⟩
    · rw [hsame] at hentry
      exact hgone.2 _ (getSession_eq_some_iff.mpr ⟨hredis, Store.get_eq_some_iff.mpr ⟨entry, hentry, halive, rfl⟩⟩)
    · rw [hnone] at hentry
      cases hentry
    · obtain ⟨expiresAt, hexpires⟩ := Option.ne_none_iff_exists'.mp hheld
      rw [hsaved] at hentry
      rw [← Option.some.inj hentry]
      exact Nat.lt_of_le_of_lt (hstanding.pending_leads expiresAt hexpires thread hmem saved hpending)
        (hgone.1 expiresAt hexpires)

/-- Where an id is named, no step makes it anew. -/
theorem used_of_known {pool : Pool SessionProcess Thread} (h : ∃ thread ∈ pool.threads, Names sessionId thread) :
    ¬ ∀ other ∈ pool.threads, ¬ Names sessionId other := by
  obtain ⟨thread, hmem, hnames⟩ := h
  exact fun hunused => hunused thread hmem hnames

theorem names_of_removed {thread : Thread} (h : Removed sessionId thread) : Names sessionId thread := by
  left
  rcases h with ⟨hrequest, hstage⟩ | ⟨new, keyId, workspace, hrequest, hstage⟩
  · rw [hrequest, hstage]
    exact ⟨nofun, rfl⟩
  · rw [hrequest, hstage]
    exact ⟨nofun, rfl⟩

/-- An id that is named stays named. -/
theorem names_step {pool : Pool SessionProcess Thread} {event : ℕ × StepInput}
    (h : ∃ other ∈ pool.threads, Names sessionId other) :
    ∃ other ∈ (pool.step (advance settings) event).threads, Names sessionId other := by
  obtain ⟨other, hother, hnamed⟩ := h
  rcases Pool.step_cases (advance settings) pool event with ⟨-, hnone⟩ | ⟨thread, hthread, -, -, hthreads⟩
  · rw [hnone]
    exact ⟨other, hother, hnamed⟩
  · rw [hthreads]
    rcases mem_set_of_mem hthread hother (advance settings event.2 pool.shared thread).2 with rfl | hstays
    · exact ⟨_, List.mem_set (List.getElem?_eq_some_iff.mp hthread).1 _, names_advance hnamed⟩
    · exact ⟨other, hstays, hnamed⟩

theorem standing_step (pool : Pool SessionProcess Thread) (event : ℕ × StepInput) (h : Standing settings sessionId pool)
    (horderly : Orderly settings pool event) : Standing settings sessionId (pool.step (advance settings) event) := by
  rcases Pool.step_cases (advance settings) pool event with ⟨-, hnone⟩ | ⟨thread, hthread, hmem, hshared, hthreads⟩
  · rw [hnone]
    exact h
  have heffect := @effect_advance settings sessionId pool event thread hthread horderly h.installed
  have hclock : (advance settings event.2 pool.shared thread).1.clock = pool.shared.clock + event.2.elapsed := rfl
  have hnext : (advance settings event.2 pool.shared thread).2 ∈ (pool.step (advance settings) event).threads := by
    rw [hthreads]
    exact List.mem_set (List.getElem?_eq_some_iff.mp hthread).1 _
  have hkept : ∀ other ∈ (pool.step (advance settings) event).threads,
      other = (advance settings event.2 pool.shared thread).2 ∨ other ∈ pool.threads := by
    intro other hother
    rw [hthreads] at hother
    exact (List.mem_or_eq_of_mem_set hother).symm
  have hnames := @names_step settings sessionId pool event
  have hgone : Gone settings pool.shared.clock pool.shared sessionId → (∃ other ∈ pool.threads, Names sessionId other) →
      Gone settings (pool.shared.clock + event.2.elapsed) (advance settings event.2 pool.shared thread).1 sessionId :=
    fun hgone hknown => gone_of_effect h hmem heffect (hgone.mono (Nat.le_add_right _ _)) (used_of_known hknown)
  have hle :
    pool.shared.clock + settings.sessionTtlMs ≤ pool.shared.clock + event.2.elapsed + settings.sessionTtlMs := by
    omega
  refine ⟨?_, ?_, ?_, ?_, ?_, ?_, ?_, ?_⟩
  · rw [hshared]
    exact heffect.installed
  · rw [hshared]
    rintro (hheld | hsaved)
    · rcases heffect.expires with hsame | hdropped | ⟨-, hnamed, -⟩
      · exact hnames (h.known (Or.inl (hsame ▸ hheld)))
      · exact absurd hdropped hheld
      · exact ⟨_, hnext, hnamed⟩
    · rcases heffect.copies with hsame | hdropped | ⟨-, -, -, hheld, -⟩
      · exact hnames (h.known (Or.inr (hsame ▸ hsaved)))
      · exact absurd hdropped hsaved
      · exact hnames (h.known (Or.inl hheld))
  · rw [hshared, hclock]
    intro entry hentry
    rcases heffect.copies with hsame | hdropped | ⟨copy, deadline, hpending, -, hsaved⟩
    · exact Nat.le_trans (h.copy_le entry (hsame ▸ hentry)) hle
    · rw [hdropped] at hentry
      cases hentry
    · rw [hsaved] at hentry
      rw [← Option.some.inj hentry]
      exact Nat.le_trans (h.pending_le thread hmem copy hpending) hle
  · rw [hshared, hclock]
    intro other hother copy hpending
    rcases hkept other hother with rfl | hold
    · rcases heffect.pends copy hpending with hearlier | ⟨hnew, -⟩
      · exact Nat.le_trans (h.pending_le thread hmem copy hearlier) hle
      · exact Nat.le_of_eq hnew
    · exact Nat.le_trans (h.pending_le other hold copy hpending) hle
  · rw [hshared]
    intro expiresAt entry hexpires hentry
    rcases heffect.expires with hsame | hdropped | ⟨hrenewed, -, -⟩
    · rw [hsame] at hexpires
      rcases heffect.copies with hcopy | hdropped | ⟨copy, deadline, hpending, -, hsaved⟩
      · exact h.copy_leads expiresAt entry hexpires (hcopy ▸ hentry)
      · rw [hdropped] at hentry
        cases hentry
      · rw [hsaved] at hentry
        rw [← Option.some.inj hentry]
        exact h.pending_leads expiresAt hexpires thread hmem copy hpending
    · rw [hdropped] at hexpires
      cases hexpires
    · rw [hrenewed] at hexpires
      rw [← Option.some.inj hexpires]
      rcases heffect.copies with hcopy | hdropped | ⟨copy, deadline, hpending, -, hsaved⟩
      · exact Nat.le_trans (h.copy_le entry (hcopy ▸ hentry)) hle
      · rw [hdropped] at hentry
        cases hentry
      · rw [hsaved] at hentry
        rw [← Option.some.inj hentry]
        exact Nat.le_trans (h.pending_le thread hmem copy hpending) hle
  · rw [hshared]
    intro expiresAt hexpires other hother copy hpending
    have hleads : ∀ earlier ∈ pool.threads, pending sessionId earlier = some copy → copy.expiresAt ≤ expiresAt := by
      intro earlier hearlier hwaits
      rcases heffect.expires with hsame | hdropped | ⟨hrenewed, -, -⟩
      · exact h.pending_leads expiresAt (hsame ▸ hexpires) earlier hearlier copy hwaits
      · rw [hdropped] at hexpires
        cases hexpires
      · rw [hrenewed] at hexpires
        rw [← Option.some.inj hexpires]
        exact Nat.le_trans (h.pending_le earlier hearlier copy hwaits) hle
    rcases hkept other hother with rfl | hold
    · rcases heffect.pends copy hpending with hearlier | ⟨hnew, hrenewed⟩
      · exact hleads thread hmem hearlier
      · rw [hrenewed] at hexpires
        exact Nat.le_of_eq (hnew.trans (Option.some.inj hexpires))
    · exact hleads other hold hpending
  · rw [hshared, hclock]
    intro other hother hremoved
    rcases hkept other hother with rfl | hold
    · rcases removed_advance hthread horderly hremoved with hearlier | hnow
      · exact hgone (h.removed thread hmem hearlier) ⟨thread, hmem, names_of_removed hearlier⟩
      · exact hnow
    · exact hgone (h.removed other hold hremoved) ⟨other, hold, names_of_removed hremoved⟩
  · refine h.once.step fun acting hacting hsuccessor => ?_
    obtain rfl : thread = acting := Option.some.inj (hthread.symm.trans hacting)
    rcases successor_advance hthread horderly hsuccessor with hearlier | ⟨hstands, hothers⟩
    · exact Or.inl hearlier
    · right
      intro j other hother _ hreplaced
      have hmemOther := List.mem_of_getElem? hother
      have hlapsed := h.removed other hmemOther (hothers other hmemOther hreplaced)
      exact hstands (hlapsed.mono (Nat.le_add_right _ _))

theorem standing_start (clock : ℕ) (requests : List SessionRequest) :
    Standing settings sessionId (start clock requests) := by
  have hstarting : ∀ thread ∈ (start clock requests).threads, thread.stage = .starting := by
    intro thread hthread
    obtain ⟨request, -, rfl⟩ := List.mem_map.mp hthread
    rfl
  have hpending : ∀ thread ∈ (start clock requests).threads, pending sessionId thread = none := by
    intro thread hthread
    rw [pending_of_quiet]
    rw [hstarting thread hthread]
    trivial
  refine ⟨fun h => absurd rfl h, fun h => ?_, nofun, fun thread hthread copy h => ?_, nofun, nofun,
    fun thread hthread hremoved => ?_, fun i j first second hi _ hfirst _ => ?_⟩
  · rcases h with hheld | hsaved
    · exact absurd rfl hheld
    · exact absurd rfl hsaved
  · rw [hpending thread hthread] at h
    cases h
  · have hbegun := hstarting thread hthread
    rcases hremoved with ⟨-, hstage⟩ | ⟨_, _, _, -, hstage⟩
    · rw [hstage] at hbegun
      cases hbegun
    · rw [hstage] at hbegun
      cases hbegun
  · have hreplaced := hfirst.2
    rw [hstarting first (List.mem_of_getElem? hi)] at hreplaced
    exact hreplaced.elim

/-- A dead id is gone, and some request has named it. -/
theorem gone_of_dead {pool : Pool SessionProcess Thread} (h : Standing settings sessionId pool)
    (hdead : Dead settings sessionId pool) :
    Gone settings pool.shared.clock pool.shared sessionId ∧ ∃ thread ∈ pool.threads, Names sessionId thread := by
  rcases hdead with hexpired | ⟨thread, hmem, hremoved⟩
  · refine ⟨gone_of_expired h hexpired, h.known ?_⟩
    rw [Expired] at hexpired
    rcases hheld : pool.shared.held sessionId with _ | session
    · simp only [hheld] at hexpired
      obtain ⟨copy, hread, -⟩ := hexpired
      obtain ⟨entry, hentry, -⟩ := Store.get_eq_some_iff.mp (getSession_eq_some_iff.mp hread).2
      exact Or.inr (by rw [hentry]; exact Option.some_ne_none _)
    · exact Or.inl (by rw [expiry, hheld]; exact Option.some_ne_none _)
  · exact ⟨h.removed thread hmem hremoved, thread, hmem, names_of_removed hremoved⟩

/-- The id is gone, and the request with the index has not found it valid. -/
structure Refusing (settings : SessionSettings) (sessionId : String) (j : ℕ) (pool : Pool SessionProcess Thread) : Prop where
  standing : Standing settings sessionId pool
  gone : Gone settings pool.shared.clock pool.shared sessionId
  known : ∃ thread ∈ pool.threads, Names sessionId thread
  invalid : ∀ thread, pool.threads[j]? = some thread → ¬ Validated sessionId thread

theorem refusing_step {j : ℕ} (pool : Pool SessionProcess Thread) (event : ℕ × StepInput)
    (h : Refusing settings sessionId j pool) (horderly : Orderly settings pool event) :
    Refusing settings sessionId j (pool.step (advance settings) event) := by
  have hstanding := standing_step pool event h.standing horderly
  rcases Pool.step_cases (advance settings) pool event with ⟨-, hnone⟩ | ⟨thread, hthread, hmem, hshared, hthreads⟩
  · rw [hnone]
    exact h
  have heffect := @effect_advance settings sessionId pool event thread hthread horderly h.standing.installed
  have hgone := h.gone.mono (Nat.le_add_right pool.shared.clock event.2.elapsed)
  refine ⟨hstanding, ?_, ?_, fun last hlast hvalidated => ?_⟩
  · rw [hshared]
    exact gone_of_effect h.standing hmem heffect hgone (used_of_known h.known)
  · exact names_step h.known
  · rcases Pool.getElem?_step hlast with ⟨rfl, acting, hacting, rfl⟩ | ⟨-, hold⟩
    · obtain rfl : thread = acting := Option.some.inj (hthread.symm.trans hacting)
      rcases heffect.validates hvalidated with hearlier | hfound
      · exact h.invalid thread hthread hearlier
      · exact hfound hgone
    · exact h.invalid last hold hvalidated

/-- In every state of a run, an id that is dead is not validated by a request that has not validated it before, and
at most one request has made a successor of an id. -/
structure StaysDead (settings : SessionSettings) (first : Pool SessionProcess Thread) (events : List (ℕ × StepInput)) :
    Prop where
  refused : ∀ earlier later, earlier ++ later <+: events → ∀ sessionId,
    Dead settings sessionId (run (Pool.step (advance settings)) first earlier) → ∀ (j : ℕ) (thread last : Thread),
    (run (Pool.step (advance settings)) first earlier).threads[j]? = some thread → ¬ Validated sessionId thread →
    (run (Pool.step (advance settings)) first (earlier ++ later)).threads[j]? = some last → ¬ Validated sessionId last
  once : ∀ earlier, earlier <+: events → ∀ sessionId,
    (run (Pool.step (advance settings)) first earlier).AtMostOne (HasSuccessor sessionId)

/-- Dead sessions stay dead in the runs whose steps are orderly. -/
theorem sessions_stay_dead (settings : SessionSettings) (clock : ℕ) (requests : List SessionRequest)
    (events : List (ℕ × StepInput))
    (horderly : StepsMeet (Pool.step (advance settings)) (Orderly settings) (start clock requests) events) :
    StaysDead settings (start clock requests) events := by
  have hstanding : ∀ sessionId earlier, earlier <+: events →
      Standing settings sessionId (run (Pool.step (advance settings)) (start clock requests) earlier) :=
    fun sessionId earlier hprefix =>
      invariant_throughout (I := Standing settings sessionId) standing_step (standing_start clock requests) horderly hprefix
  refine ⟨fun earlier later hprefix sessionId hdead j thread last hthread hinvalid hlast => ?_,
    fun earlier hprefix sessionId => (hstanding sessionId earlier hprefix).once⟩
  have hbefore := hstanding sessionId earlier ((List.prefix_append earlier later).trans hprefix)
  obtain ⟨hgone, hknown⟩ := gone_of_dead hbefore hdead
  obtain ⟨rest, rfl⟩ := hprefix
  have hlater := (stepsMeet_append.mp (stepsMeet_append.mp horderly).1).2
  have hrefusing :
    Refusing settings sessionId j (run (Pool.step (advance settings)) (start clock requests) earlier) := by
    refine ⟨hbefore, hgone, hknown, fun other hother => ?_⟩
    rw [hthread] at hother
    rw [← Option.some.inj hother]
    exact hinvalid
  have hend := invariant_run_of_meets (I := Refusing settings sessionId j) refusing_step hrefusing hlater
  rw [run_append] at hlast
  exact hend.invalid last hlast

/-! ## Three runs -/

def redisSettings : SessionSettings where
  toConfig := { OAuthBinding.sampleConfig with redisEnabled := true }

def aliceContext : SessionContext := ⟨some OAuthBinding.aliceId, none, none, none, none⟩

def opened : SessionRequest := .create "session-1" true aliceContext none

def inTurn (threads : List ℕ) : List (ℕ × StepInput) := threads.map fun i => (i, {})

/-- The copies outlive the sessions. -/
def longCopies : SessionSettings := { redisSettings with cacheSessionTtl := 5184000 }

/-- Thirty days and a millisecond later the process has started again. -/
def afterRestart : List (ℕ × StepInput) := [(0, {}), (0, {}), (1, { elapsed := 2592000001 })]

/-- A closed session comes back with the copy that an earlier validation writes late, an expired one with the copy
that outlives it, and two rotations side by side make two successors. -/
theorem session_comes_back :
    ¬ StaysDead redisSettings (start 0 [opened, .validate "session-1" none, .close "session-1", .validate "session-1" none])
        (inTurn [0, 0, 1, 2, 2, 2, 1, 3, 3, 3]) ∧
      ¬ StaysDead longCopies (start 0 [opened, .restart, .validate "session-1" none]) (afterRestart ++ inTurn [2, 2, 2]) ∧
      ¬ StaysDead redisSettings (start 0 [opened, .rotate "session-1" "session-2", .rotate "session-1" "session-3"])
        (inTurn [0, 0, 1, 2]) := by
  refine ⟨fun h => ?_, fun h => ?_, fun h => ?_⟩
  · have hclosed : ∃ thread ∈ (run (Pool.step (advance redisSettings)) (start 0 [opened, .validate "session-1" none,
        .close "session-1", .validate "session-1" none]) (inTurn [0, 0, 1, 2, 2, 2])).threads,
        Removed "session-1" thread := by decide
    have hwaiting : ∃ thread ∈ (run (Pool.step (advance redisSettings)) (start 0 [opened, .validate "session-1" none,
        .close "session-1", .validate "session-1" none]) (inTurn [0, 0, 1, 2, 2, 2])).threads[3]?,
        ¬ Validated "session-1" thread := by decide
    have hback : ∃ thread ∈ (run (Pool.step (advance redisSettings)) (start 0 [opened, .validate "session-1" none,
        .close "session-1", .validate "session-1" none]) (inTurn [0, 0, 1, 2, 2, 2] ++ inTurn [1, 3, 3, 3])).threads[3]?,
        Validated "session-1" thread := by decide
    obtain ⟨thread, hthread, hinvalid⟩ := hwaiting
    obtain ⟨last, hlast, hvalid⟩ := hback
    exact h.refused _ _ List.prefix_rfl "session-1" (Or.inr hclosed) 3 thread last hthread hinvalid hlast hvalid
  · have hexpired : ∃ copy ∈ getSession longCopies 2592000001 false (run (Pool.step (advance longCopies))
        (start 0 [opened, .restart, .validate "session-1" none]) afterRestart).shared "session-1",
        copy.expiresAt < 2592000001 := by decide
    have hwaiting :
      ∃ thread ∈ (run (Pool.step (advance longCopies)) (start 0 [opened, .restart, .validate "session-1" none])
        afterRestart).threads[2]?, ¬ Validated "session-1" thread := by decide
    have hback :
      ∃ thread ∈ (run (Pool.step (advance longCopies)) (start 0 [opened, .restart, .validate "session-1" none])
        (afterRestart ++ inTurn [2, 2, 2])).threads[2]?, Validated "session-1" thread := by decide
    obtain ⟨thread, hthread, hinvalid⟩ := hwaiting
    obtain ⟨last, hlast, hvalid⟩ := hback
    exact h.refused _ _ List.prefix_rfl "session-1" (Or.inl hexpired) 2 thread last hthread hinvalid hlast hvalid
  · have hboth : ∀ i < 2, ∃ thread ∈ (run (Pool.step (advance redisSettings)) (start 0 [opened,
        .rotate "session-1" "session-2", .rotate "session-1" "session-3"]) (inTurn [0, 0, 1, 2])).threads[i + 1]?,
        HasSuccessor "session-1" thread := by decide
    obtain ⟨thread, hthread, hfirst⟩ := hboth 0 (by omega)
    obtain ⟨other, hother, hsecond⟩ := hboth 1 (by omega)
    have hsame := h.once _ List.prefix_rfl "session-1" 1 2 thread other hthread hother hfirst hsecond
    omega

/-- A session that is validated, rotated, closed and asked for again, one request after the other. -/
theorem sessions_stay_dead_in_turn :
    StaysDead redisSettings (start 0 [opened, .validate "session-1" none, .rotate "session-1" "session-2",
        .validate "session-1" none, .close "session-2", .validate "session-2" none, .cleanup 0 "session-2"])
      (inTurn [0, 0, 1, 1, 2, 2, 2, 3, 3, 4, 4, 4, 5, 5, 6]) :=
  sessions_stay_dead redisSettings 0 _ _ (by decide)

end FragmentMemory.DeadSessions
