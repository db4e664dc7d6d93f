import FragmentMemory.RememberLiveness

/-! # What a remember answers

The response of each branch of `remember`.  The default path and the atomic path assemble the response
of a stored fragment separately.
-/
namespace FragmentMemory.RememberResponse
open ApiKeyStore FragmentTables FragmentFactory FragmentWriter FragmentIndex BatchRememberProcessor MemoryRememberer JsString

/-- A similar fragment as `detectConflicts` reports it. -/
structure Conflict where
  existingId : FragmentId
  existingContent : String
  similarity : ℚ
  recommendation : String
  deriving DecidableEq

/-- An entry of `conflicts` in a response: as it was reported, or mapped to `id` and `content`. -/
inductive ResponseConflict
  | reported (conflict : Conflict)
  | potential (id : Option FragmentId) (content : Option String)
  deriving DecidableEq

inductive ResponseTier | session | tier (ttlTier : TtlTier) deriving DecidableEq

inductive ResponseScope | session | permanent | persistent deriving DecidableEq

structure Response where
  id : FragmentId
  keywords : List String
  ttlTier : ResponseTier
  scope : ResponseScope
  conflicts : List ResponseConflict := []
  idempotent : Bool := false
  validationWarnings : Option (List String) := none
  lowImportanceWarning : Option String := none
  deriving DecidableEq

/-- What the caller gets: an error, a response, or the plan of a dry run. -/
inductive Answer
  | failed (reason : String)
  | remembered (response : Response)
  | simulated (fragment : Fragment) (conflicts : List Conflict) (validationWarnings : List String)

variable (settings : Settings) (draws : Draws)

/-- `detectConflicts`: the found fragments above the similarity of 0.8, the new one aside. -/
def reportedConflicts (store : Store) (newId : Option FragmentId) (agentId : String) (keyId : Option KeyId) :
    List Conflict :=
  let found := searchRows store draws.conflictRanking agentId keyId
  (found.filter fun f => newId ≠ some f.id && 8 / 10 < draws.conflictSimilarity f.id).map fun f => {
    existingId := f.id
    existingContent := clip f.content 100
    similarity := draws.conflictSimilarity f.id
    recommendation := "기존 파편(" ++ f.id ++ ")을 amend 또는 forget 후 재저장 권장" }

/-- The conflicts of a stored fragment, searched after its post-processing. -/
def storedConflicts (store : Store) (f : Fragment) (indexSession : Option String) (caller : Caller)
    (params : RememberParams) : List Conflict :=
  if params.skipConflictDetection then []
  else
    let indexed := index settings.redisReady settings.tools store f indexSession f.keyId
    reportedConflicts draws (postProcess settings draws indexed f caller) (some f.id) caller.agentId caller.keyId

/-- `effectiveTtlTier`. -/
def effectiveTtlTier (f : Fragment) (params : RememberParams) : TtlTier :=
  if f.importance < 3 / 10 ∧ ¬ params.ttlTierGiven then .short else f.ttlTier

def lowImportanceText : String := "이 내용은 낮은 중요도로 저장됩니다. 장기 보존이 필요하면 importance를 명시하세요."

def lowImportanceWarning (f : Fragment) : Option String := if f.importance < 3 / 10 then some lowImportanceText else none

/-- The rule names, when there are any. -/
def responseWarnings (f : Fragment) : Option (List String) :=
  if f.validationWarnings = [] then none else some f.validationWarnings

/-- The result of `_persistNonAtomic`. -/
def persistNonAtomicResponse (store : Store) (f : Fragment) (caller : Caller) (params : RememberParams) : Response where
  id := f.id
  keywords := f.keywords
  ttlTier := .tier (effectiveTtlTier f params)
  scope := .permanent
  conflicts := (storedConflicts settings draws store f params.sessionId caller params).map .reported
  validationWarnings := responseWarnings f
  lowImportanceWarning := lowImportanceWarning f

/-- The result of `_finalizeRemember`.  It reads `id` and `content` of the reported conflicts, which
have neither. -/
def finalizeRememberResponse (store : Store) (f : Fragment) (caller : Caller) (params : RememberParams) : Response where
  id := f.id
  keywords := f.keywords
  ttlTier := .tier (effectiveTtlTier f params)
  scope := .persistent
  conflicts := (storedConflicts settings draws store f f.sessionId caller params).map fun _ => .potential none none
  validationWarnings := responseWarnings f
  lowImportanceWarning := lowImportanceWarning f

/-- The answer of `remember`. -/
def answer (store : Store) (params : RememberParams) (caller : Caller) : Answer :=
  match params.content.bind contentInputError with
  | some reason => .failed reason
  | none =>
    if params.sessionScope ∧ params.session.isSome then
      match create settings.digests settings.tools draws.newId draws.now
          { params.toFragmentParams with sessionId := params.session } with
      | .error reason => .failed reason
      | .ok f => .remembered { id := f.id, keywords := f.keywords, ttlTier := .session, scope := .session }
    else match checkIdempotency store params caller.keyId with
      | some existing => .remembered {
          id := existing.id
          keywords := existing.keywords
          ttlTier := .tier existing.ttlTier
          scope := .persistent
          idempotent := true }
      | none =>
        if params.dryRun then
          match buildFragment settings draws params params.caseId caller with
          | .error reason => .failed reason
          | .ok f => .simulated f (reportedConflicts draws store none f.agentId caller.keyId) f.validationWarnings
        else match acceptNew settings draws store params caller with
          | .error reason => .failed reason
          | .ok accepted =>
            let f := { accepted.fragment with id := accepted.id }
            if settings.rememberAtomic && caller.keyId.isSome then
              .remembered (finalizeRememberResponse settings draws accepted.store f caller params)
            else .remembered (persistNonAtomicResponse settings draws accepted.store f caller params)

/-- An answer tells the outcome of its call. -/
def Tells : RememberResult → Answer → Prop
  | .failed reason, .failed reason' => reason' = reason
  | .session id, .remembered response => response.id = id ∧ response.scope = .session
  | .idempotent id, .remembered response => response.id = id ∧ response.idempotent = true
  | .dryRun f, .simulated f' _ _ => f' = f
  | .stored id, .remembered response => response.id = id ∧ response.idempotent = false ∧ response.scope ≠ .session
  | _, _ => False

variable {settings draws}

theorem answer_tells (store : Store) (params : RememberParams) (caller : Caller) :
    Tells (remember settings draws store params caller).2 (answer settings draws store params caller) := by
  rcases hcontent : params.content.bind contentInputError with _ | reason
  · by_cases hsession : params.sessionScope ∧ params.session.isSome
    · simp only [remember, answer, hcontent, if_pos hsession]
      cases create settings.digests settings.tools draws.newId draws.now
          { params.toFragmentParams with sessionId := params.session } with
      | error reason => rfl
      | ok f => exact ⟨rfl, rfl⟩
    · rcases hexisting : checkIdempotency store params caller.keyId with _ | existing
      · by_cases hdry : params.dryRun = true
        · simp only [remember, answer, hcontent, if_neg hsession, hexisting, if_pos hdry]
          cases buildFragment settings draws params params.caseId caller with
          | error reason => rfl
          | ok f => rfl
        · simp only [remember, answer, hcontent, if_neg hsession, hexisting, if_neg hdry]
          cases acceptNew settings draws store params caller with
          | error reason => rfl
          | ok accepted =>
            simp only
            split
            · exact ⟨rfl, rfl, fun h => by cases h⟩
            · exact ⟨rfl, rfl, fun h => by cases h⟩
      · simp only [remember, answer, hcontent, if_neg hsession, hexisting]
        exact ⟨rfl, rfl⟩
  · simp only [remember, answer, hcontent]
    rfl

end FragmentMemory.RememberResponse
