import FragmentMemory.TokenExchange

/-! # Who is answered for a code or a refresh token

A request that has found its grant holds it until its `DEL`.  While it does, another request may find the
grant too, and both are answered; requests that keep apart there are answered one at most.
-/
namespace FragmentMemory.SingleUse
open ApiKeyStore JsString KeyValueStore OAuthServer InterleavedRuns TransitionRuns TokenExchange

def TokenRequest.rotates (request : TokenRequest) : Bool := request.params.grantType = some "refresh_token"

/-- The request has found its grant and has not deleted it yet. -/
def Holding (thread : Thread) : Prop :=
  match thread.stage with
  | .consuming _ _ | .rotating _ => True
  | .savingAccess _ | .savingRefresh _ => TokenRequest.rotates thread.request = true
  | .reading | .expiring | .finished _ => False

/-- The request has deleted its grant and is answered with tokens now or later. -/
def Spent (thread : Thread) : Prop :=
  match thread.stage with
  | .savingAccess _ | .savingRefresh _ => TokenRequest.rotates thread.request = false
  | .finished (.issued _ _ _) => True
  | .reading | .consuming _ _ | .expiring | .rotating _ | .finished (.error _ _) => False

/-- The request is answered with an access token. -/
def Answered (thread : Thread) : Prop :=
  match thread.stage with
  | .finished (.issued _ _ _) => True
  | _ => False

instance (thread : Thread) : Decidable (Holding thread) := by
  unfold Holding
  split <;> infer_instance

instance (thread : Thread) : Decidable (Answered thread) := by
  unfold Answered
  split <;> infer_instance

/-- No request reads a grant that another one holds, and the deletion of a rotated token does not fail. -/
def Apart (pool : Pool OAuthState Thread) (event : ℕ × StepInput) : Prop :=
  match pool.threads[event.1]? with
  | none => True
  | some thread =>
    match thread.stage with
    | .reading => ∀ other ∈ pool.threads, other.request.presents = thread.request.presents → ¬ Holding other
    | .rotating _ => event.2.fails = false
    | _ => True

instance (pool : Pool OAuthState Thread) (event : ℕ × StepInput) : Decidable (Apart pool event) := by
  unfold Apart
  split
  · infer_instance
  · split <;> infer_instance

/-- The request will not generate the credential itself. -/
def Foreign (credential : Credential) (request : TokenRequest) : Prop :=
  ∀ token, credential = .refresh token → request.accessToken ≠ token ∧ request.refreshToken ≠ token

instance (credential : Credential) (request : TokenRequest) : Decidable (Foreign credential request) :=
  match credential with
  | .code _ => isTrue fun _ h => by cases h
  | .refresh presented => decidable_of_iff (request.accessToken ≠ presented ∧ request.refreshToken ≠ presented)
      ⟨fun h token hsame => by cases hsame; exact h, fun h => h presented rfl⟩

/-- Redis has the credential. -/
def Stored (state : OAuthState) : Credential → Prop
  | .code presented => state.authCodes presented ≠ none
  | .refresh presented => state.accessTokens presented ≠ none

variable {config : Config} {credential : Credential}

theorem not_stored_delete (state : OAuthState) (credential : Credential) :
    ¬ Stored (credential.delete state) credential := by
  cases credential <;> simp [Stored, Credential.delete, Store.delete]

theorem stored_of_delete {state : OAuthState} {deleted : Credential} (h : Stored (deleted.delete state) credential) :
    Stored state credential := by
  cases credential <;> cases deleted <;> simp only [Stored, Credential.delete, Store.delete] at h ⊢
  · exact fun hnone => h (by simp [hnone])
  · exact h
  · exact h
  · exact fun hnone => h (by simp [hnone])

theorem stored_of_deletePresented {input : StepInput} {state : OAuthState} {request : TokenRequest}
    (h : Stored (deletePresented input state request) credential) : Stored state credential := by
  rw [deletePresented] at h
  split at h
  · split at h
    · exact h
    · exact stored_of_delete h
  · exact h

theorem stored_of_saveToken {input : StepInput} {state : OAuthState} {token : String} {data : TokenData}
    {ttlSeconds : ℕ}
    (hother : credential ≠ .refresh token) (h : Stored (saveToken input state token data ttlSeconds) credential) :
    Stored state credential := by
  rw [saveToken] at h
  split at h
  · exact h
  · cases credential with
    | code presented => exact h
    | refresh presented =>
      have hne : presented ≠ token := fun hsame => hother (hsame ▸ rfl)
      simp only [Stored, Store.put, if_neg hne] at h
      exact h

/-- A step stores nothing but the tokens of its request. -/
theorem stored_of_advance {input : StepInput} {state : OAuthState} {thread : Thread}
    (hforeign : Foreign credential thread.request) (h : Stored (advance config input state thread).1 credential) :
    Stored state credential := by
  obtain ⟨request, stage⟩ := thread
  have haccess : credential ≠ .refresh request.accessToken := fun hsame => (hforeign _ hsame).1 rfl
  have hrefresh : credential ≠ .refresh request.refreshToken := fun hsame => (hforeign _ hsame).2 rfl
  cases stage with
  | reading => exact h
  | consuming data secretBound => exact stored_of_deletePresented h
  | expiring => exact stored_of_deletePresented h
  | savingAccess issue => exact stored_of_saveToken haccess h
  | savingRefresh issue => exact stored_of_saveToken hrefresh h
  | rotating scope => exact stored_of_deletePresented h
  | finished result => exact h

/-- A request may be answered for the credential: it holds its grant or has spent it. -/
def Entitled (credential : Credential) (thread : Thread) : Prop :=
  thread.request.presents = some credential ∧ (Holding thread ∨ Spent thread)

theorem request_advance (input : StepInput) (state : OAuthState) (thread : Thread) :
    (advance config input state thread).2.request = thread.request := by
  obtain ⟨request, stage⟩ := thread
  cases stage <;> rfl

theorem stored_of_get {state : OAuthState} {now : ℕ} {presented : String} {data : CodeData}
    (h : state.authCodes.get now presented = some data) : Stored state (.code presented) := by
  obtain ⟨entry, hentry, -, -⟩ := Store.get_eq_some_iff.mp h
  simp only [Stored, hentry, ne_eq, reduceCtorEq, not_false_eq_true]

theorem stored_of_get_token {state : OAuthState} {now : ℕ} {presented : String} {data : TokenData}
    (h : state.accessTokens.get now presented = some data) : Stored state (.refresh presented) := by
  obtain ⟨entry, hentry, -, -⟩ := Store.get_eq_some_iff.mp h
  simp only [Stored, hentry, ne_eq, reduceCtorEq, not_false_eq_true]

/-- The first command refuses the request, or has found what it presents: a code is deleted at once, a refresh
token after the new tokens are saved. -/
theorem readGrant_cases (input : StepInput) (state : OAuthState) (request : TokenRequest) :
    (∃ error description, readGrant config input state request.params = .finished (.error error description)) ∨
      ∃ found, request.presents = some found ∧ Stored state found ∧
        ((∃ data secretBound, readGrant config input state request.params = .consuming data secretBound) ∨
          TokenRequest.rotates request = true ∧ (readGrant config input state request.params = .expiring ∨
            ∃ issue, readGrant config input state request.params = .savingAccess issue)) := by
  rw [readGrant]
  by_cases hrefresh : request.params.grantType = some "refresh_token"
  · simp only [hrefresh, if_true]
    rcases hpresented : truthy request.params.refreshToken with _ | presented
    · exact Or.inl ⟨_, _, rfl⟩
    · simp only
      split
      · exact Or.inl ⟨_, _, rfl⟩
      · rename_i data hfound
        rw [checkRefresh]
        split
        · exact Or.inl ⟨_, _, rfl⟩
        · have hpresents : request.presents = some (.refresh presented) := by
            simp only [TokenRequest.presents, hrefresh, if_true, hpresented, Option.map_some]
          have hstored : Stored state (.refresh presented) := by
            split at hfound
            · cases hfound
            · exact stored_of_get_token hfound
          refine Or.inr ⟨_, hpresents, hstored, Or.inr ⟨decide_eq_true hrefresh, ?_⟩⟩
          split
          · exact Or.inl rfl
          · exact Or.inr ⟨_, rfl⟩
  · rw [if_neg hrefresh]
    by_cases hcode : request.params.grantType = some "authorization_code"
    · simp only [hcode, ne_eq, not_true_eq_false, if_false]
      split
      · exact Or.inl ⟨_, _, rfl⟩
      · exact Or.inl ⟨_, _, rfl⟩
      · rename_i presented verifier hpresented hverifier
        split
        · exact Or.inl ⟨_, _, rfl⟩
        · rename_i data hfound
          have hpresents : request.presents = some (.code presented) := by
            simp only [TokenRequest.presents, if_neg hrefresh, if_pos hcode, hpresented, Option.map_some]
          have hstored : Stored state (.code presented) := by
            split at hfound
            · cases hfound
            · exact stored_of_get hfound
          exact Or.inr ⟨_, hpresents, hstored, Or.inl ⟨_, _, rfl⟩⟩
    · rw [if_pos hcode]
      exact Or.inl ⟨_, _, rfl⟩

/-- A request comes to its grant by reading it. -/
theorem entitled_of_advance {input : StepInput} {state : OAuthState} {thread : Thread}
    (h : Entitled credential (advance config input state thread).2) :
    Entitled credential thread ∨ thread.stage = .reading ∧ Stored state credential := by
  obtain ⟨request, stage⟩ := thread
  obtain ⟨hpresents, hstage⟩ := h
  rw [request_advance] at hpresents
  cases stage with
  | reading =>
    right
    rcases @readGrant_cases config input state request with ⟨error, description, hread⟩ | ⟨found, hfound, hstored, -⟩
    · simp only [advance, hread, Holding, Spent, or_self] at hstage
    · rw [hfound, Option.some.injEq] at hpresents
      exact ⟨rfl, hpresents ▸ hstored⟩
  | consuming data secretBound => exact Or.inl ⟨hpresents, Or.inl trivial⟩
  | expiring =>
    rcases hstage with hholding | hspent
    · exact hholding.elim
    · exact hspent.elim
  | savingAccess issue =>
    left
    refine ⟨hpresents, ?_⟩
    rcases hrotates : TokenRequest.rotates request with _ | _
    · exact Or.inr hrotates
    · exact Or.inl hrotates
  | savingRefresh issue =>
    left
    refine ⟨hpresents, ?_⟩
    rcases hrotates : TokenRequest.rotates request with _ | _
    · exact Or.inr hrotates
    · exact Or.inl hrotates
  | rotating scope => exact Or.inl ⟨hpresents, Or.inl trivial⟩
  | finished result => exact Or.inl ⟨hpresents, hstage⟩

theorem deletePresented_eq {input : StepInput} {state : OAuthState} {request : TokenRequest}
    (hpresents : request.presents = some credential) (hfails : input.fails = false) :
    deletePresented input state request = credential.delete state := by
  rw [deletePresented, hpresents]
  simp only [hfails, Bool.false_eq_true, if_false]

/-- A request has spent its grant since a deletion that went through. -/
theorem spent_of_advance {input : StepInput} {state : OAuthState} {thread : Thread}
    (hpresents : thread.request.presents = some credential)
    (hdeletes : ∀ scope, thread.stage = .rotating scope → input.fails = false)
    (h : Spent (advance config input state thread).2) :
    Spent thread ∨ ¬ Stored (advance config input state thread).1 credential := by
  obtain ⟨request, stage⟩ := thread
  cases stage with
  | reading =>
    exfalso
    rcases @readGrant_cases config input state request with ⟨error, description, hread⟩ |
      ⟨found, -, -, ⟨data, secretBound, hread⟩ | ⟨hrotates, hread | ⟨issue, hread⟩⟩⟩
    · simp only [advance, hread, Spent] at h
    · simp only [advance, hread, Spent] at h
    · simp only [advance, hread, Spent] at h
    · simp only [advance, hread, Spent, hrotates, Bool.true_eq_false] at h
  | consuming data secretBound =>
    right
    rcases hfails : input.fails with _ | _
    · simp only [advance, deletePresented_eq hpresents hfails]
      exact not_stored_delete state credential
    · simp only [advance, hfails, if_true, Spent] at h
  | expiring => exact h.elim
  | savingAccess issue => exact Or.inl h
  | savingRefresh issue =>
    left
    simp only [advance] at h
    split at h
    · exact h.elim
    · rename_i hrotates
      exact decide_eq_false hrotates
  | rotating scope =>
    right
    simp only [advance, deletePresented_eq hpresents (hdeletes scope rfl)]
    exact not_stored_delete state credential
  | finished result => exact Or.inl h

/-- At most one request may be answered for the credential, and once it has spent it, Redis has it no longer. -/
structure Exclusive (credential : Credential) (pool : Pool OAuthState Thread) : Prop where
  foreign : ∀ thread ∈ pool.threads, Foreign credential thread.request
  once : pool.AtMostOne (Entitled credential)
  gone : ∀ thread ∈ pool.threads, thread.request.presents = some credential → Spent thread →
    ¬ Stored pool.shared credential

theorem exclusive_step (pool : Pool OAuthState Thread) (event : ℕ × StepInput) (h : Exclusive credential pool)
    (hapart : Apart pool event) : Exclusive credential (pool.step (advance config) event) := by
  rcases Pool.step_cases (advance config) pool event with ⟨-, hnone⟩ | ⟨thread, hthread, hmem, hshared, hthreads⟩
  · rw [hnone]
    exact h
  · simp only [Apart, hthread] at hapart
    have hkept : ∀ other ∈ (pool.step (advance config) event).threads,
        other = (advance config event.2 pool.shared thread).2 ∨ other ∈ pool.threads := by
      intro other hother
      rw [hthreads] at hother
      exact (List.mem_or_eq_of_mem_set hother).symm
    refine ⟨fun other hother => ?_, h.once.step fun acting hacting htaken => ?_, fun other hother hpresents hspent => ?_⟩
    · rcases hkept other hother with rfl | hold
      · rw [request_advance]
        exact h.foreign thread hmem
      · exact h.foreign other hold
    · obtain rfl : thread = acting := Option.some.inj (hthread.symm.trans hacting)
      rcases entitled_of_advance htaken with hentitled | ⟨hreading, hstored⟩
      · exact Or.inl hentitled
      · right
        rintro j other hother - ⟨hpresents, hholding | hspent⟩
        · have hsame : thread.request.presents = some credential := by
            rw [← htaken.1, request_advance]
          simp only [hreading] at hapart
          exact hapart other (List.mem_of_getElem? hother) (hpresents.trans hsame.symm) hholding
        · exact h.gone other (List.mem_of_getElem? hother) hpresents hspent hstored
    · rw [hshared]
      intro hstored
      have hbefore := stored_of_advance (h.foreign thread hmem) hstored
      rcases hkept other hother with rfl | hold
      · rw [request_advance] at hpresents
        have hdeletes : ∀ scope, thread.stage = .rotating scope → event.2.fails = false := by
          intro scope hrotating
          simp only [hrotating] at hapart
          exact hapart
        rcases spent_of_advance hpresents hdeletes hspent with hearlier | hdeleted
        · exact h.gone thread hmem hpresents hearlier hbefore
        · exact hdeleted hstored
      · exact h.gone other hold hpresents hspent hbefore

theorem exclusive_start {state : OAuthState} {requests : List TokenRequest}
    (hforeign : ∀ request ∈ requests, Foreign credential request) : Exclusive credential (start state requests) := by
  have hreading : ∀ thread ∈ (start state requests).threads, ¬ (Holding thread ∨ Spent thread) := by
    intro thread hthread
    obtain ⟨request, -, rfl⟩ := List.mem_map.mp hthread
    rintro (hholding | hspent)
    · exact hholding
    · exact hspent
  refine ⟨fun thread hthread => ?_, fun i j first second hi _ hfirst _ => ?_, fun thread hthread _ hspent => ?_⟩
  · obtain ⟨request, hrequest, rfl⟩ := List.mem_map.mp hthread
    exact hforeign request hrequest
  · exact absurd hfirst.2 (hreading first (List.mem_of_getElem? hi))
  · exact absurd (Or.inr hspent) (hreading thread hthread)

/-- The request presents the credential and is answered with an access token. -/
def AnsweredFor (credential : Credential) (thread : Thread) : Prop :=
  thread.request.presents = some credential ∧ Answered thread

instance (credential : Credential) (thread : Thread) : Decidable (AnsweredFor credential thread) :=
  inferInstanceAs (Decidable (_ ∧ _))

theorem entitled_of_answeredFor {thread : Thread} (h : AnsweredFor credential thread) : Entitled credential thread := by
  obtain ⟨request, stage⟩ := thread
  refine ⟨h.1, Or.inr ?_⟩
  have hanswered := h.2
  simp only [Answered] at hanswered
  split at hanswered
  · exact trivial
  · exact hanswered.elim

/-- In every state of a run at most one request for the credential is answered, and one that begins after an
answered one is refused. -/
structure UsedOnce (config : Config) (credential : Credential) (first : Pool OAuthState Thread)
    (events : List (ℕ × StepInput)) : Prop where
  once : ∀ earlier, earlier <+: events → (run (Pool.step (advance config)) first earlier).AtMostOne (AnsweredFor credential)
  refused : ∀ earlier later, earlier ++ later <+: events → ∀ (i j : ℕ) (answered waiting last : Thread),
    (run (Pool.step (advance config)) first earlier).threads[i]? = some answered → AnsweredFor credential answered →
    (run (Pool.step (advance config)) first earlier).threads[j]? = some waiting →
    waiting.request.presents = some credential ∧ waiting.stage = .reading →
    (run (Pool.step (advance config)) first (earlier ++ later)).threads[j]? = some last → ¬ Answered last

theorem usedOnce_of_atMostOne {first : Pool OAuthState Thread} {events : List (ℕ × StepInput)}
    (h : ∀ earlier, earlier <+: events →
      (run (Pool.step (advance config)) first earlier).AtMostOne (AnsweredFor credential)) :
    UsedOnce config credential first events := by
  refine ⟨h, fun earlier later hprefix i j answered waiting last hi hanswered hj hwaiting hlast hlastAnswered => ?_⟩
  rw [run_append] at hlast
  obtain ⟨still, hstill, hstillAnswered⟩ :=
    @Pool.thread_run _ _ _ (advance config) (AnsweredFor credential) (fun input shared thread hthread => by
      obtain ⟨request, stage⟩ := thread
      cases stage with
      | finished result => exact hthread
      | _ => exact hthread.2.elim) _ i answered hi hanswered later
  obtain ⟨kept, hkept, hpresents⟩ :=
    @Pool.thread_run _ _ _ (advance config) (fun thread => thread.request.presents = some credential)
      (fun input shared thread hthread => by rw [request_advance]; exact hthread) _ j waiting hj hwaiting.1 later
  obtain rfl : kept = last := Option.some.inj (hkept.symm.trans hlast)
  have honce := h (earlier ++ later) hprefix
  rw [run_append] at honce
  obtain rfl : i = j := honce i j still kept hstill hkept hstillAnswered ⟨hpresents, hlastAnswered⟩
  obtain rfl : answered = waiting := Option.some.inj (hi.symm.trans hj)
  have hreading := hanswered.2
  simp only [Answered, hwaiting.2] at hreading

/-- Any number of token requests that keep apart where they hold their grants use each of them once. -/
theorem credential_used_once (config : Config) (credential : Credential) (state : OAuthState)
    (requests : List TokenRequest) (hforeign : ∀ request ∈ requests, Foreign credential request)
    (events : List (ℕ × StepInput))
    (hapart : StepsMeet (Pool.step (advance config)) Apart (start state requests) events) :
    UsedOnce config credential (start state requests) events := by
  refine usedOnce_of_atMostOne fun earlier hprefix i j first second hi hj hfirst hsecond => ?_
  have hexclusive : Exclusive credential (run (Pool.step (advance config)) (start state requests) earlier) :=
    invariant_throughout (I := Exclusive credential) exclusive_step (exclusive_start hforeign) hapart hprefix
  exact hexclusive.once i j first second hi hj (entitled_of_answeredFor hfirst) (entitled_of_answeredFor hsecond)

/-! ## Two requests -/

def redisConfig : Config := { OAuthBinding.sampleConfig with redisEnabled := true }

/-- Redis after an authorization. -/
def codeState : OAuthState :=
  (handleAuthorize redisConfig OAuthBinding.aliceTables {} 2000 .empty (OAuthBinding.sampleAuthorization "notes") "code-1").1

/-- Redis after the exchange of the code. -/
def refreshState : OAuthState :=
  (handleToken redisConfig OAuthBinding.aliceTables {} 3000 codeState OAuthBinding.sampleExchange "access-0" "refresh-0").1

def exchanges : List TokenRequest :=
  [⟨OAuthBinding.sampleExchange, "access-1", "refresh-1"⟩, ⟨OAuthBinding.sampleExchange, "access-2", "refresh-2"⟩]

def refreshParams : TokenParams where
  grantType := some "refresh_token"
  refreshToken := some "refresh-0"

def refreshes : List TokenRequest :=
  [⟨refreshParams, "access-1", "refresh-1"⟩, ⟨refreshParams, "access-2", "refresh-2"⟩]

def schedule (threads : List ℕ) : List (ℕ × StepInput) :=
  threads.map fun i => (i, { now := 4000, tables := OAuthBinding.aliceTables })

/-- Both requests read before either deletes, and both are answered: for a code and for a refresh token. -/
theorem grant_used_twice :
    ¬ UsedOnce redisConfig (.code "code-1") (start codeState exchanges) (schedule [0, 1, 0, 1, 0, 1, 0, 1]) ∧
      ¬ UsedOnce redisConfig (.refresh "refresh-0") (start refreshState refreshes) (schedule [0, 1, 0, 1, 0, 1, 0, 1]) := by
  have hcodes : ∀ i < 2, ∃ thread ∈ (run (Pool.step (advance redisConfig)) (start codeState exchanges)
      (schedule [0, 1, 0, 1, 0, 1, 0, 1])).threads[i]?, AnsweredFor (.code "code-1") thread := by decide
  have hrefreshes : ∀ i < 2, ∃ thread ∈ (run (Pool.step (advance redisConfig)) (start refreshState refreshes)
      (schedule [0, 1, 0, 1, 0, 1, 0, 1])).threads[i]?, AnsweredFor (.refresh "refresh-0") thread := by decide
  constructor
  · intro h
    obtain ⟨thread, hthread, hanswered⟩ := hcodes 0 (by omega)
    obtain ⟨other, hother, hotherAnswered⟩ := hcodes 1 (by omega)
    have hsame := h.once _ List.prefix_rfl 0 1 thread other hthread hother hanswered hotherAnswered
    omega
  · intro h
    obtain ⟨thread, hthread, hanswered⟩ := hrefreshes 0 (by omega)
    obtain ⟨other, hother, hotherAnswered⟩ := hrefreshes 1 (by omega)
    have hsame := h.once _ List.prefix_rfl 0 1 thread other hthread hother hanswered hotherAnswered
    omega

/-- One after the other. -/
theorem credential_used_once_apart :
    UsedOnce redisConfig (.refresh "refresh-0") (start refreshState refreshes) (schedule [0, 0, 0, 0, 1, 1]) :=
  credential_used_once redisConfig (.refresh "refresh-0") refreshState refreshes (by decide)
    (schedule [0, 0, 0, 0, 1, 1]) (by decide)

end FragmentMemory.SingleUse
