import FragmentMemory.AutoReflect
import FragmentMemory.ReflectProcessor
import FragmentMemory.StreamableSessions

/-! # The owner of what an automatic reflect stores

`autoReflect` is called with the id of the session, by the clean-up of idle and expired sessions and by a close.  It hands
no key on, so the reflect runs as that of the master.
-/
namespace FragmentMemory.ReflectOwner
open ApiKeyStore FragmentTables MemoryRememberer SessionLinker CreatedRows ReflectProcessor SessionActivityTracker AutoReflect
  StreamableSessions JsString
open RememberLiveness (sampleSettings sampleDraws)
open ContentUniqueness (sampleKey sampleContent)

/-- The JSON answer of the model. -/
structure GeminiResult where
  summary : Summary := .missing
  decisions : List String := []
  errorsResolved : List String := []
  newProcedures : List String := []
  openQuestions : List String := []
  narrativeSummary : Option String := none

inductive Gemini
  | unavailable
  | failed
  | answered (result : GeminiResult)

/-- `isAllEmpty`; a summary that is no list does not count. -/
def GeminiResult.allEmpty (result : GeminiResult) : Bool :=
  (match result.summary with
    | .items items => items.isEmpty
    | _ => true) &&
    result.decisions.isEmpty && result.errorsResolved.isEmpty && result.newProcedures.isEmpty &&
    result.openQuestions.isEmpty && (truthy result.narrativeSummary).isNone

structure SessionWorld where
  state : ReflectState := {}
  log : Option ActivityLog := none

def SessionWorld.store (world : SessionWorld) : Store := world.state.continuity.store

variable (settings : Settings) (draws : ReflectDraws) (gemini : Gemini)

def markReflected (now : Time) (world : SessionWorld) : SessionWorld :=
  { world with log := some ((getLog world.log).record now reflectedMark) }

/-- The parameters of `mgr.reflect`: `_keyId` is not among them. -/
def reflectRequest (sessionId agentId : String) (result : GeminiResult) : ReflectParams where
  sessionId := some sessionId
  agentId := some agentId
  summary := result.summary
  decisions := result.decisions
  errorsResolved := result.errorsResolved
  newProcedures := result.newProcedures
  openQuestions := result.openQuestions
  narrativeSummary := truthy result.narrativeSummary

/-- `autoReflect`, with no other call at the same time. -/
def autoReflect (world : SessionWorld) (sessionId agentId : String) : SessionWorld :=
  let mark := markReflected draws.episode.now
  if sessionId = "" then world
  else if (getLog world.log).reflected then world
  else if shouldSkipReflect (getLog world.log) then mark world
  else match gemini with
    | .unavailable | .failed => mark world
    | .answered result =>
      if result.allEmpty then mark world
      else mark { world with state := (reflect settings draws world.state (reflectRequest sessionId agentId result)).1 }

/-- The automatic reflect of a session that is idle, has expired or is closed. -/
def reflectSession (world : SessionWorld) (session : Session) : SessionWorld :=
  autoReflect settings draws gemini world session.sessionId "default"

/-- Every new fragment, every new link by the row at which it starts, and every new event has the key. -/
structure CreatedOwned (keyId : Option KeyId) (before after : Store) : Prop where
  fragments : ∀ g ∈ after.fragments.rows, (∃ f ∈ before.fragments.rows, f.id = g.id) ∨ g.keyId = keyId
  links : ∀ l ∈ after.links.rows, (∃ m ∈ before.links.rows, m.fromId = l.fromId ∧ m.toId = l.toId) ∨
    ∀ g ∈ after.fragments.rows, g.id = l.fromId → g.keyId = keyId
  events : ∀ e ∈ after.caseEvents, e ∈ before.caseEvents ∨ e.keyId = keyId

/-- No fragment, no link and no event is new. -/
structure CreatesNothing (before after : Store) : Prop where
  fragments : ∀ g ∈ after.fragments.rows, ∃ f ∈ before.fragments.rows, f.id = g.id
  links : ∀ l ∈ after.links.rows, ∃ m ∈ before.links.rows, m.fromId = l.fromId ∧ m.toId = l.toId
  events : ∀ e ∈ after.caseEvents, e ∈ before.caseEvents

variable {settings draws gemini}

/-- All that an automatic reflect creates is without a key. -/
theorem creates_autoReflect (world : SessionWorld) (sessionId agentId : String) :
    CreatesUnder none world.store (autoReflect settings draws gemini world sessionId agentId).store := by
  have hsame : CreatesUnder none world.store world.store := CreatesUnder.refl world.store
  simp only [autoReflect]
  split
  · exact hsame
  · split
    · exact hsame
    · split
      · exact hsame
      · cases gemini with
        | unavailable | failed => exact hsame
        | answered result =>
          simp only
          split
          · exact hsame
          · exact creates_reflect world.state (reflectRequest sessionId agentId result)

/-- What is created without a key is owned by the master, and by nobody else unless it is nothing. -/
theorem createdOwned_iff {keyId : Option KeyId} {before after : Store} (h : CreatesUnder none before after) :
    CreatedOwned keyId before after ↔ keyId = none ∨ CreatesNothing before after := by
  constructor
  · intro howned
    by_cases hkey : keyId = none
    · exact Or.inl hkey
    · refine Or.inr ⟨fun g hg => ?_, fun l hl => ?_, fun e he => ?_⟩
      · rcases h.rows g hg with ⟨f, hf, hid, -⟩ | hnone
        · exact ⟨f, hf, hid⟩
        · refine (howned.fragments g hg).resolve_right fun howner => hkey ?_
          rw [← howner, hnone]
      · rcases h.links l hl with hold | ⟨g, hg, hid, hnone⟩
        · exact hold
        · refine (howned.links l hl).resolve_right fun howner => hkey ?_
          rw [← howner g hg hid, hnone]
      · rcases h.events e he with hold | hnone
        · exact hold
        · refine (howned.events e he).resolve_right fun howner => hkey ?_
          rw [← howner, hnone]
  · rintro (rfl | hnothing)
    · refine ⟨fun g hg => ?_, fun l hl => ?_, h.events⟩
      · rcases h.rows g hg with ⟨f, hf, hid, -⟩ | hnone
        · exact Or.inl ⟨f, hf, hid⟩
        · exact Or.inr hnone
      · rcases h.links l hl with hold | ⟨g, hg, hid, hnone⟩
        · exact Or.inl hold
        · refine Or.inr fun other hother hsame => ?_
          rw [eq_of_id _ hother hg (hsame.trans hid.symm)]
          exact hnone
    · exact ⟨fun g hg => Or.inl (hnothing.fragments g hg), fun l hl => Or.inl (hnothing.links l hl),
        fun e he => Or.inl (hnothing.events e he)⟩

def loggedWorld : SessionWorld where
  log := some { startedAt := some 1, lastActivity := some 60001, toolCalls := [("recall", 3)] }

def sampleSummary : GeminiResult where
  summary := .items [sampleContent]

def sampleReflectDraws : ReflectDraws where
  sentences text := [text]
  newId position := if position = 0 then "frag-01" else "frag-02"
  episode := sampleDraws 60002 "frag-03"
  milestoneId := "event-01"

def sampleSession (keyId : Option KeyId) : Session where
  sessionId := "session-01"
  authenticated := true
  keyId := keyId
  groupKeyIds := none
  permissions := none
  defaultWorkspace := none
  mode := none
  createdAt := 0
  expiresAt := 2592000000
  lastAccessedAt := 60001

/-- The summary of a session and its episode are stored without a key, whatever the key of the session is. -/
theorem stored_sampleSession (keyId : Option KeyId) :
    ∃ g ∈ (reflectSession sampleSettings sampleReflectDraws (.answered sampleSummary) loggedWorld
      (sampleSession keyId)).store.fragments.rows, g.keyId = none := by
  have hstored : ∃ g ∈ (autoReflect sampleSettings sampleReflectDraws (.answered sampleSummary) loggedWorld
      "session-01" "default").store.fragments.rows, g.keyId = none := by decide +kernel
  exact hstored

/-- The automatic reflects of the sessions of a key store under the key only if it is that of the master. -/
theorem auto_reflect_owned_iff (keyId : Option KeyId) :
    (∀ (settings : Settings) (draws : ReflectDraws) (gemini : Gemini) (world : SessionWorld) (session : Session),
      session.keyId = keyId →
        CreatedOwned keyId world.store (reflectSession settings draws gemini world session).store) ↔ keyId = none := by
  constructor
  · intro h
    have howned := h sampleSettings sampleReflectDraws (.answered sampleSummary) loggedWorld (sampleSession keyId) rfl
    obtain ⟨g, hg, hnone⟩ := stored_sampleSession keyId
    rcases howned.fragments g hg with ⟨f, hf, -⟩ | howner
    · cases hf
    · rw [← howner, hnone]
  · intro hmaster settings draws gemini world session _
    exact (createdOwned_iff (creates_autoReflect world session.sessionId "default")).mpr (Or.inl hmaster)

theorem auto_reflect_unowned :
    ¬ ∀ (settings : Settings) (draws : ReflectDraws) (gemini : Gemini) (world : SessionWorld) (session : Session),
      CreatedOwned session.keyId world.store (reflectSession settings draws gemini world session).store := by
  intro h
  have howned :=
    h sampleSettings sampleReflectDraws (.answered sampleSummary) loggedWorld (sampleSession (some sampleKey))
  obtain ⟨g, hg, hnone⟩ := stored_sampleSession (some sampleKey)
  rcases howned.fragments g hg with ⟨f, hf, -⟩ | howner
  · cases hf
  · rw [hnone] at howner
    cases howner

end FragmentMemory.ReflectOwner
