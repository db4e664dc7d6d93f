import FragmentMemory.BatchRememberProcessor
import FragmentMemory.CaseEventStore

/-! # Remember, amend and forget

`MemoryRememberer` with the parts it calls: `ConflictResolver`, `RememberPostProcessor` and the
search of `FragmentSearch`, whose ranking is given and whose rows the key clause has passed.
-/
namespace FragmentMemory.MemoryRememberer
open ApiKeyStore FragmentTables FragmentFactory FragmentWriter FragmentReader FragmentIndex LinkStore
  CaseEventStore BatchRememberProcessor JsString

inductive ProactiveMode | off | auto | legacy deriving DecidableEq

structure Settings where
  digests : Digests
  tools : TextTools
  redisReady : Bool := true
  rememberAtomic : Bool := false
  reconsolidation : Bool := false
  caseBackprop : Bool := false
  proactiveMode : ProactiveMode := .auto

/-- What a request meets outside the tables: the clock, generated ids, the answer of the quota
cache and the limit of the key row, the verdict and the warnings of the policy rules, the rankings of
its two searches with the similarities that the first of them reports, the proactive gate, the links
inside their 60 s window, and the activation of an accessed row, which is a power of the time since its
last access. -/
structure Draws where
  now : Time
  newId : FragmentId
  newCaseId : String := ""
  newEventId : String := ""
  quotaRefuses : Bool := false
  fragmentLimit : Option ℕ := none
  hardGateBlocks : Bool := false
  policyWarnings : List String := []
  conflictRanking : List FragmentId := []
  conflictSimilarity : FragmentId → ℚ := fun _ => 0
  proactiveRanking : List FragmentId := []
  proactiveGate : FragmentId → Bool := fun _ => true
  recentlyDecayed : FragmentId × FragmentId → Bool := fun _ => false
  activation : Fragment → ℚ := fun _ => 0

/-- `extractRequestCtx`. -/
structure Caller where
  agentId : String := "default"
  keyId : Option KeyId
  groupKeyIds : Option (List KeyId) := none

/-- `_groupKeyIds ?? (keyId ? [keyId] : null)`. -/
def Caller.groups (caller : Caller) : Option (List KeyId) :=
  caller.groupKeyIds.or (caller.keyId.map fun key => [key])

structure RememberParams extends FragmentParams where
  sessionScope : Bool := false
  transportSessionId : Option String := none
  supersedes : List FragmentId := []
  ttlTierGiven : Bool := false
  skipConflictDetection : Bool := false
  dryRun : Bool := false
  workspace : Option String := none
  defaultWorkspace : Option String := none

variable (settings : Settings) (draws : Draws)

def touch (now : Time) : ColumnUpdate where
  set f := { f with accessedAt := some now }
  entries_set _ := rfl

/-- `incrementAccess` with its activation update. -/
def access (draws : Draws) : ColumnUpdate where
  set f := { f with
    accessCount := f.accessCount + 1
    accessedAt := some draws.now
    emaActivation := some (draws.activation f) }
  entries_set _ := rfl

/-- `touchLinked`: the other ends of `co_retrieved` links. -/
def touchLinked (now : Time) (store : Store) (ids : List FragmentId) (keyId : Option KeyId) : Store :=
  let linked := (store.links.rows.filter fun l => l.relationType = .coRetrieved).filterMap fun l =>
    if ids.contains l.fromId then some l.toId
    else if ids.contains l.toId then some l.fromId else none
  store.updateFragments (fun f => linked.contains f.id && !ids.contains f.id && ownedBy keyId f) (touch now)

/-- The rows of a ranking that a search under the key returns. -/
def searchRows (store : Store) (ranking : List FragmentId) (agentId : String) (keyId : Option KeyId) :
    List Fragment :=
  (ranking.dedup.filterMap store.fragments.byId).filter fun f =>
    agentScope agentId f && f.live && ownedBy keyId f

/-- What a search writes: access counters, `co_retrieved` neighbours and the hot cache. -/
def afterSearch (store : Store) (found : List Fragment) (keyId : Option KeyId) : Store :=
  let ids := found.map Fragment.id
  let counted := store.updateFragments (fun f => ids.contains f.id) (access draws)
  let touched := touchLinked draws.now counted ids keyId
  ids.foldl (fun current id => cacheFragment settings.redisReady current id keyId) touched

/-- `detectConflicts` as far as it writes. -/
def detectConflicts (store : Store) (agentId : String) (keyId : Option KeyId) : Store :=
  afterSearch settings draws store (searchRows store draws.conflictRanking agentId keyId) keyId

/-- `autoLinkOnRemember`: links to the first three of the four most important rows of the topic. -/
def autoLinkOnRemember (store : Store) (f : Fragment) (agentId : String) : Store :=
  if f.topic = "" then store
  else
    let related := searchByTopic store f.topic (3 / 10) 4 agentId f.keyId
    ((related.filter fun g => g.id ≠ f.id).take 3).foldl
      (fun current g => tryLink current f.id g.id .related 1) store

def expire (now : Time) : ColumnUpdate where
  set f := { f with validTo := some now, importance := max (5 / 100) (f.importance * (5 / 10)) }
  entries_set _ := rfl

/-- `supersede`; when the link cannot be created nothing is expired. -/
def supersede (store : Store) (oldId newId : FragmentId) (keyId : Option KeyId) : Store :=
  match createLink store oldId newId .supersededBy 1 with
  | none => store
  | some linked =>
    linked.updateFragments (fun f => f.id = oldId && f.live && ownedBy keyId f) (expire draws.now)

/-- `_jaccardSimilarity` above the threshold of 0.3. -/
def similarText (a b : String) : Bool :=
  let setA := (words (settings.tools.toLowerCase a)).dedup
  let setB := (words (settings.tools.toLowerCase b)).dedup
  if setA.isEmpty && setB.isEmpty then true
  else if setA.isEmpty || setB.isEmpty then false
  else
    let common := (setA.filter setB.contains).length
    3 * (setA.length + setB.length - common) < 10 * common

/-- Seven days. -/
def consistencyWindowMs : ℕ := 7 * 24 * 3600000

/-- `checkAssertionConsistency` and the patch that follows it. -/
def checkAssertionConsistency (store : Store) (f : Fragment) (keyId : Option KeyId) : Store :=
  if f.topic = "" || f.content = "" then store
  else
    let found := store.fragments.rows.filter fun g =>
      g.topic = f.topic && distance g.createdAt draws.now ≤ consistencyWindowMs && g.id ≠ f.id &&
        ownedBy keyId g && g.live
    let newest := (found.insertionSort fun g h => h.createdAt ≤ g.createdAt).take 10
    let similar := newest.filter fun g => similarText settings f.content g.content
    let downgrade := similar.any fun g => g.assertionStatus = .rejected || g.assertionStatus = .verified
    if downgrade then
      let quarantined := if settings.reconsolidation then
          similar.foldl (fun current g =>
            quarantineAdjacentLinks current draws.now draws.recentlyDecayed f.id g.id) store
        else store
      patchAssertion quarantined f.id .inferred keyId
    else store

/-- The words that `_proactiveRecall` searches with. -/
def proactiveKeywords (f : Fragment) : List String :=
  if f.keywords.isEmpty then ((words f.content).filter fun word => 1 < utf16Length word).take 8
  else f.keywords

/-- Whether half of the larger keyword list is shared. -/
def overlaps (f candidate : Fragment) : Bool :=
  let own := ((proactiveKeywords f).map settings.tools.toLowerCase).dedup
  let theirs := candidate.keywords.map settings.tools.toLowerCase
  let shared := (theirs.filter own.contains).length
  max (max own.length theirs.length) 1 ≤ 2 * shared

/-- `_proactiveRecall`. -/
def proactiveRecall (store : Store) (f : Fragment) (keyId : Option KeyId) : Store :=
  if settings.proactiveMode = .off || (proactiveKeywords f).isEmpty then store
  else
    let candidates := searchRows store draws.proactiveRanking "default" keyId
    let searched := afterSearch settings draws store candidates keyId
    (candidates.filter fun g => g.id ≠ f.id && overlaps settings f g &&
        (settings.proactiveMode = .legacy || draws.proactiveGate g.id)).foldl
      (fun current g => tryLink current f.id g.id .related 1) searched

/-- The `linked_to` step of `run`: links to the listed rows that the key owns. -/
def linkOwned (store : Store) (f : Fragment) (agentId : String) (keyId : Option KeyId) : Store :=
  (getByIds store f.linkedTo agentId keyId []).foldl
    (fun current g => tryLink current f.id g.id .related 1) store

/-- `RememberPostProcessor.run`. -/
def postProcess (store : Store) (f : Fragment) (caller : Caller) : Store :=
  let linked := linkOwned store f caller.agentId caller.keyId
  let checked := checkAssertionConsistency settings draws linked f caller.keyId
  let temporal := linkTemporalNeighbors checked { f with createdAt := draws.now } caller.groups
  proactiveRecall settings draws temporal f caller.keyId

/-- The conflict search, unless the caller skips it. -/
def searchConflicts (store : Store) (caller : Caller) (params : RememberParams) : Store :=
  if params.skipConflictDetection then store
  else detectConflicts settings draws store caller.agentId caller.keyId

/-- The loop over `supersedes`; the new row itself is skipped. -/
def supersedeAll (store : Store) (newId : FragmentId) (oldIds : List FragmentId) (keyId : Option KeyId) :
    Store :=
  oldIds.foldl (fun current oldId =>
    if oldId = newId then current else supersede draws current oldId newId keyId) store

/-- The shorter lifetime of a fragment of low importance. -/
def lowerTier (store : Store) (f : Fragment) (params : RememberParams) (keyId : Option KeyId) : Store :=
  if f.importance < 3 / 10 ∧ ¬ params.ttlTierGiven then updateTtlTier store f.id .short keyId else store

def recordEvent (store : Store) (f : Fragment) (keyId : Option KeyId) : Store :=
  match f.caseId with
  | some caseId => recordCaseEvent draws.now draws.newEventId store f caseId keyId
  | none => store

/-- The effects after the insert, which both remember paths share. -/
def finalizeRemember (store : Store) (f : Fragment) (indexSession : Option String) (caller : Caller)
    (params : RememberParams) : Store :=
  let indexed := index settings.redisReady settings.tools store f indexSession f.keyId
  let processed := postProcess settings draws indexed f caller
  let linked := autoLinkOnRemember (searchConflicts settings draws processed caller params) f caller.agentId
  let superseded := supersedeAll draws linked f.id params.supersedes caller.keyId
  recordEvent draws (lowerTier superseded f params caller.keyId) f caller.keyId

/-- `params.sessionId || params._sessionId || null`. -/
def RememberParams.session (params : RememberParams) : Option String :=
  (truthy params.sessionId).or (truthy params.transportSessionId)

/-- `_autoAssignCaseId`: the case of the fragment, and the store with its errors assigned to it. -/
def autoAssignCaseId (store : Store) (params : RememberParams) (caller : Caller) : Store × Option String :=
  match truthy params.caseId, params.session, truthy params.topic, params.type with
  | none, some sessionId, some topic, some type =>
    if type = .error ∨ type = .procedure ∨ type = .decision then
      let groups := caller.groups.getD []
      match findCaseIdBySessionTopic store sessionId topic caller.keyId groups with
      | some caseId => (store, some caseId)
      | none =>
        if type = .error then (store, some draws.newCaseId)
        else
          let errors := findErrorFragmentsBySessionTopic store sessionId topic caller.keyId groups
          if errors = [] then (store, params.caseId)
          else (errors.foldl (fun current id => updateCaseId current id draws.newCaseId caller.keyId) store,
            some draws.newCaseId)
    else (store, params.caseId)
  | _, _, _, _ => (store, params.caseId)

/-- The parameters that `_buildFragment` hands to the factory. -/
def RememberParams.factoryParams (params : RememberParams) (caseId : Option String) : FragmentParams :=
  { params.toFragmentParams with
    source := params.source.or
      (params.session.map fun sessionId => "session:" ++ clip sessionId 8)
    sessionId := params.session
    caseId := caseId }

/-- `_buildFragment`, with the warnings that `_runPolicyGate` adds. -/
def buildFragment (params : RememberParams) (caseId : Option String) (caller : Caller) :
    Except String Fragment :=
  (create settings.digests settings.tools draws.newId draws.now (params.factoryParams caseId)).map fun f =>
    { f with
      agentId := caller.agentId
      keyId := caller.keyId
      workspace := params.workspace.or params.defaultWorkspace
      validationWarnings := draws.policyWarnings }

/-- Whether the quota lets the insert through: the cached check, or the count under the lock of the
key row in the transaction of the atomic path. -/
def quotaRefuses (store : Store) (keyId : Option KeyId) : Bool :=
  match keyId, settings.rememberAtomic with
  | some key, true => draws.fragmentLimit.any fun limit => limit ≤ liveCount store key
  | _, _ => draws.quotaRefuses

/-- What a remember has accepted: the state right after the insert and the fragment under the id
that the insert returned. -/
structure Accepted where
  store : Store
  fragment : Fragment
  id : FragmentId

/-- The remember of a permanent fragment up to its insert. -/
def acceptNew (store : Store) (params : RememberParams) (caller : Caller) : Except String Accepted :=
  if (!(settings.rememberAtomic && caller.keyId.isSome)) && draws.quotaRefuses then
    .error "fragment_limit_exceeded"
  else
    let assigned := autoAssignCaseId draws store params caller
    match buildFragment settings draws params assigned.2 caller with
    | .error reason => .error reason
    | .ok f =>
      if draws.hardGateBlocks && caller.keyId.isSome then .error "symbolic policy violation"
      else if quotaRefuses settings draws assigned.1 caller.keyId then .error "fragment_limit_exceeded"
      else match insert settings.digests draws.now assigned.1 f with
        | none => .error "insert failed"
        | some (next, id) => .ok ⟨next, f, id⟩

inductive RememberResult
  | failed (reason : String)
  | session (id : FragmentId)
  | idempotent (id : FragmentId)
  | dryRun (f : Fragment)
  | stored (id : FragmentId)

/-- The row that a repeated idempotency key finds. -/
def checkIdempotency (store : Store) (params : RememberParams) (keyId : Option KeyId) : Option Fragment :=
  (truthy params.idempotencyKey).bind fun key => findByIdempotencyKey store key keyId

/-- `remember`.  A dry run searches and builds but inserts nothing. -/
def remember (store : Store) (params : RememberParams) (caller : Caller) : Store × RememberResult :=
  match params.content.bind contentInputError with
  | some reason => (store, .failed reason)
  | none =>
    if params.sessionScope ∧ params.session.isSome then
      match create settings.digests settings.tools draws.newId draws.now
          { params.toFragmentParams with sessionId := params.session } with
      | .error reason => (store, .failed reason)
      | .ok f => (store, .session f.id)
    else match checkIdempotency store params caller.keyId with
      | some existing => (store, .idempotent existing.id)
      | none =>
        if params.dryRun then
          match buildFragment settings draws params params.caseId caller with
          | .error reason => (store, .failed reason)
          | .ok f => (detectConflicts settings draws store f.agentId caller.keyId, .dryRun f)
        else match acceptNew settings draws store params caller with
          | .error reason => (store, .failed reason)
          | .ok accepted =>
            let f := { accepted.fragment with id := accepted.id }
            let indexSession := if settings.rememberAtomic && caller.keyId.isSome then f.sessionId
              else params.sessionId
            (finalizeRemember settings draws accepted.store f indexSession caller params,
              .stored accepted.id)

end FragmentMemory.MemoryRememberer
