import FragmentMemory.ReconsolidationEngine

/-! # Runs of reconsolidations

In every interleaving the successful calls, and only they, have written their link and one audit row, and two
limited calls that succeed on one link are kept apart.  The rate limit rests on what the two maps of the module
say about the calls, the audit on the one step in which a transaction commits.
-/
namespace FragmentMemory.ReconsolidationRuns
open FragmentTables LinkStore TransitionRuns ReconsolidationEngine

variable {s s' : State} {caller : Option ℕ} {i j : ℕ} {entry : Entry}

/-! ## The rate limit -/

/-- A limited call on the link that has not returned. -/
def PendingOn (entry : Entry) (id : LinkId) : Prop :=
  entry.call.action.limited = true ∧ entry.call.linkId = id ∧ entry.phase.unsettled = true

/-- A limited call on the link that has returned a row, at the given time. -/
def DecayedAt (entry : Entry) (id : LinkId) (time : Time) : Prop :=
  entry.call.action.limited = true ∧ entry.call.linkId = id ∧ ∃ row, entry.phase = .settled (.row row) time

/-- What the two maps of the module say about the limited calls. -/
structure Spaced (s : State) : Prop where
  past : ∀ id last, s.lastDecayAt id = some last → last ≤ s.now
  reserved : ∀ i entry id, s.calls i = some entry → PendingOn entry id → s.pendingDecay id = true
  alone : ∀ i j first second id, s.calls i = some first → s.calls j = some second → PendingOn first id →
    PendingOn second id → i = j
  remembered : ∀ i entry id time, s.calls i = some entry → DecayedAt entry id time →
    ∃ last, s.lastDecayAt id = some last ∧ time ≤ last
  waited : ∀ i j first second id time, s.calls i = some first → s.calls j = some second → DecayedAt first id time →
    PendingOn second id → time + RATE_LIMIT_MS ≤ second.startedAt
  apart : ∀ i j first second id time later, i ≠ j → s.calls i = some first → s.calls j = some second →
    DecayedAt first id time → DecayedAt second id later →
      time + RATE_LIMIT_MS ≤ second.startedAt ∨ later + RATE_LIMIT_MS ≤ first.startedAt

/-- A step that adds no limited call and lets none succeed. -/
theorem Spaced.of_fewer (h : Spaced s) (hnow : s.now ≤ s'.now) (hlast : s'.lastDecayAt = s.lastDecayAt)
    (hreserved : ∀ i entry id, s'.calls i = some entry → PendingOn entry id → s.pendingDecay id = true →
      s'.pendingDecay id = true)
    (hpending : ∀ i entry id, s'.calls i = some entry → PendingOn entry id →
      ∃ old, s.calls i = some old ∧ PendingOn old id ∧ old.startedAt = entry.startedAt)
    (hdecayed : ∀ i entry id time, s'.calls i = some entry → DecayedAt entry id time →
      ∃ old, s.calls i = some old ∧ DecayedAt old id time ∧ old.startedAt = entry.startedAt) : Spaced s' where
  past id last hid := by
    rw [hlast] at hid
    exact (h.past id last hid).trans hnow
  reserved i entry id hentry hon := by
    obtain ⟨old, hold, holdOn, -⟩ := hpending i entry id hentry hon
    exact hreserved i entry id hentry hon (h.reserved i old id hold holdOn)
  alone i j first second id hfirst hsecond hfirstOn hsecondOn := by
    obtain ⟨old, hold, holdOn, -⟩ := hpending i first id hfirst hfirstOn
    obtain ⟨other, hother, hotherOn, -⟩ := hpending j second id hsecond hsecondOn
    exact h.alone i j old other id hold hother holdOn hotherOn
  remembered i entry id time hentry hat := by
    obtain ⟨old, hold, holdAt, -⟩ := hdecayed i entry id time hentry hat
    rw [hlast]
    exact h.remembered i old id time hold holdAt
  waited i j first second id time hfirst hsecond hat hon := by
    obtain ⟨old, hold, holdAt, -⟩ := hdecayed i first id time hfirst hat
    obtain ⟨other, hother, hotherOn, hstarted⟩ := hpending j second id hsecond hon
    rw [← hstarted]
    exact h.waited i j old other id time hold hother holdAt hotherOn
  apart i j first second id time later hne hfirst hsecond hat hlater := by
    obtain ⟨old, hold, holdAt, hstarted⟩ := hdecayed i first id time hfirst hat
    obtain ⟨other, hother, hotherAt, hstarted'⟩ := hdecayed j second id later hsecond hlater
    rw [← hstarted, ← hstarted']
    exact h.apart i j old other id time later hne hold hother holdAt hotherAt

/-- A step of one call that does not let it succeed. -/
theorem Spaced.of_update (h : Spaced s) {next : Entry} (hcalls : s'.calls = Function.update s.calls i (some next))
    (hnow : s'.now = s.now) (hlast : s'.lastDecayAt = s.lastDecayAt)
    (hreserved : ∀ j entry id, s'.calls j = some entry → PendingOn entry id → s.pendingDecay id = true →
      s'.pendingDecay id = true)
    (hpending : ∀ id, PendingOn next id → ∃ old, s.calls i = some old ∧ PendingOn old id ∧
      old.startedAt = next.startedAt)
    (hdecayed : ∀ id time, ¬ DecayedAt next id time) : Spaced s' := by
  refine h.of_fewer hnow.ge hlast hreserved ?_ ?_
  · intro j found id hfound hon
    rw [hcalls] at hfound
    rcases eq_or_of_update hfound with ⟨rfl, rfl⟩ | ⟨-, hold⟩
    · exact hpending id hon
    · exact ⟨found, hold, hon, rfl⟩
  · intro j found id time hfound hat
    rw [hcalls] at hfound
    rcases eq_or_of_update hfound with ⟨rfl, rfl⟩ | ⟨-, hold⟩
    · exact absurd hat (hdecayed id time)
    · exact ⟨found, hold, hat, rfl⟩

theorem not_decayedAt {id : LinkId} {time : Time} (h : ∀ row returnedAt, entry.phase ≠ .settled (.row row) returnedAt) :
    ¬ DecayedAt entry id time := by
  intro hat
  obtain ⟨-, -, row, hphase⟩ := hat
  exact h row time hphase

theorem not_pendingOn {id : LinkId} (h : entry.phase.unsettled = false) : ¬ PendingOn entry id := by
  intro hon
  rw [hon.2.2] at h
  cases h

theorem unsettled_of_undecided {phase : Phase} (h : phase.undecided = true) : phase.unsettled = true := by
  cases phase <;> first | rfl | cases h

theorem not_settled_of_undecided {phase : Phase} (h : phase.undecided = true) (outcome : Outcome) (returnedAt : Time) :
    phase ≠ .settled outcome returnedAt := by
  rintro rfl
  cases h

/-- The end of a call gives up its own reservation only. -/
theorem Spaced.reserved_of_settled (h : Spaced s) (hcall : s.calls i = some entry)
    (hunsettled : entry.phase.unsettled = true)
    {outcome : Outcome} {found : Entry} {id : LinkId}
    (hfound : (s.settle i entry outcome).calls j = some found) (hon : PendingOn found id) (hid : s.pendingDecay id = true) :
    (s.settle i entry outcome).pendingDecay id = true := by
  rcases eq_or_of_update hfound with ⟨rfl, rfl⟩ | ⟨hj, hold⟩
  · exact absurd hon (not_pendingOn rfl)
  · simp only [State.settle]
    split
    · rename_i hlimited
      have hne : id ≠ entry.call.linkId := by
        rintro rfl
        exact hj (h.alone j i found entry _ hold hcall hon ⟨hlimited, rfl, hunsettled⟩)
      rw [Function.update_of_ne hne, hid]
    · exact hid

/-- A call that is let in on a link comes late enough after every success on it. -/
theorem Spaced.late (h : Spaced s) {id : LinkId} (hfree : s.heldBack id = false) {time : Time}
    (hcall : s.calls j = some entry) (hat : DecayedAt entry id time) : time + RATE_LIMIT_MS ≤ s.now := by
  obtain ⟨last, hlast, hle⟩ := h.remembered j entry id time hcall hat
  simp only [State.heldBack, hlast, Option.any_some, Bool.or_eq_false_iff, decide_eq_false_iff_not, not_lt] at hfree
  calc time + RATE_LIMIT_MS ≤ last + RATE_LIMIT_MS := Nat.add_le_add_right hle _
    _ ≤ s.now := Nat.add_le_of_le_sub' (h.past id last hlast) hfree.2

theorem Spaced.admitted (h : Spaced s) {call : Call} (hnew : s.calls i = none)
    (hfree : call.action.limited = true → s.heldBack call.linkId = false) : Spaced (s.letIn i call) := by
  by_cases hlimited : call.action.limited = true
  · have hfree := hfree hlimited
    have hreservation : (s.letIn i call).pendingDecay = Function.update s.pendingDecay call.linkId true :=
      if_pos hlimited
    have hunreserved : s.pendingDecay call.linkId = false := (Bool.or_eq_false_iff.mp hfree).1
    have hnone : ∀ {j found}, s.calls j = some found → ¬ PendingOn found call.linkId := by
      intro j found hold hon
      rw [h.reserved j found _ hold hon] at hunreserved
      cases hunreserved
    refine ⟨h.past, ?_, ?_, ?_, ?_, ?_⟩
    · intro j found id hfound hon
      rw [hreservation]
      by_cases hid : id = call.linkId
      · rw [hid, Function.update_self]
      · rw [Function.update_of_ne hid]
        rcases eq_or_of_update hfound with ⟨rfl, rfl⟩ | ⟨-, hold⟩
        · exact absurd hon.2.1.symm hid
        · exact h.reserved j found id hold hon
    · intro j k first second id hfirst hsecond hfirstOn hsecondOn
      rcases eq_or_of_update hfirst with ⟨rfl, rfl⟩ | ⟨-, hold⟩
      · rcases eq_or_of_update hsecond with ⟨rfl, rfl⟩ | ⟨-, hother⟩
        · rfl
        · obtain rfl := hfirstOn.2.1
          exact absurd hsecondOn (hnone hother)
      · rcases eq_or_of_update hsecond with ⟨rfl, rfl⟩ | ⟨-, hother⟩
        · obtain rfl := hsecondOn.2.1
          exact absurd hfirstOn (hnone hold)
        · exact h.alone j k first second id hold hother hfirstOn hsecondOn
    · intro j found id time hfound hat
      rcases eq_or_of_update hfound with ⟨rfl, rfl⟩ | ⟨-, hold⟩
      · exact absurd hat (not_decayedAt fun _ _ => by simp)
      · exact h.remembered j found id time hold hat
    · intro j k first second id time hfirst hsecond hat hon
      rcases eq_or_of_update hfirst with ⟨rfl, rfl⟩ | ⟨-, hold⟩
      · exact absurd hat (not_decayedAt fun _ _ => by simp)
      · rcases eq_or_of_update hsecond with ⟨rfl, rfl⟩ | ⟨-, hother⟩
        · obtain rfl := hon.2.1
          exact h.late hfree hold hat
        · exact h.waited j k first second id time hold hother hat hon
    · intro j k first second id time later hne hfirst hsecond hat hlater
      rcases eq_or_of_update hfirst with ⟨rfl, rfl⟩ | ⟨-, hold⟩
      · exact absurd hat (not_decayedAt fun _ _ => by simp)
      · rcases eq_or_of_update hsecond with ⟨rfl, rfl⟩ | ⟨-, hother⟩
        · exact absurd hlater (not_decayedAt fun _ _ => by simp)
        · exact h.apart j k first second id time later hne hold hother hat hlater
  · refine h.of_update rfl rfl rfl ?_ (fun id hon => absurd hon.1 hlimited) fun id time hat => hlimited hat.1
    intro j found id hfound hon hid
    have hreservation : (s.letIn i call).pendingDecay = s.pendingDecay := if_neg hlimited
    rw [hreservation, hid]

theorem Spaced.returned (h : Spaced s) {row : Row} (hcall : s.calls i = some entry)
    (hphase : entry.phase = .acknowledged row) : Spaced (s.finish i entry row) := by
  have hunsettled : entry.phase.unsettled = true := by
    rw [hphase]
    rfl
  by_cases hlimited : entry.call.action.limited = true
  · have hon : PendingOn entry entry.call.linkId := ⟨hlimited, rfl, hunsettled⟩
    have hlast : (s.finish i entry row).lastDecayAt = Function.update s.lastDecayAt entry.call.linkId (some s.now) :=
      if_pos hlimited
    refine ⟨?_, ?_, ?_, ?_, ?_, ?_⟩
    · intro id last hid
      rw [hlast] at hid
      by_cases hsame : id = entry.call.linkId
      · rw [hsame, Function.update_self] at hid
        exact (Option.some.inj hid).symm.le
      · rw [Function.update_of_ne hsame] at hid
        exact h.past id last hid
    · intro j found id hfound hfoundOn
      have hreserved : s.pendingDecay id = true := by
        rcases eq_or_of_update hfound with ⟨rfl, rfl⟩ | ⟨-, hold⟩
        · exact absurd hfoundOn (not_pendingOn rfl)
        · exact h.reserved j found id hold hfoundOn
      exact h.reserved_of_settled hcall hunsettled hfound hfoundOn hreserved
    · intro j k first second id hfirst hsecond hfirstOn hsecondOn
      rcases eq_or_of_update hfirst with ⟨rfl, rfl⟩ | ⟨-, hold⟩
      · exact absurd hfirstOn (not_pendingOn rfl)
      · rcases eq_or_of_update hsecond with ⟨rfl, rfl⟩ | ⟨-, hother⟩
        · exact absurd hsecondOn (not_pendingOn rfl)
        · exact h.alone j k first second id hold hother hfirstOn hsecondOn
    · intro j found id time hfound hat
      rw [hlast]
      rcases eq_or_of_update hfound with ⟨rfl, rfl⟩ | ⟨-, hold⟩
      · obtain ⟨-, rfl, other, hsettled⟩ := hat
        rw [Function.update_self]
        exact ⟨s.now, rfl, by rw [← (Phase.settled.inj hsettled).2]⟩
      · obtain ⟨last, hid, hle⟩ := h.remembered j found id time hold hat
        by_cases hsame : id = entry.call.linkId
        · rw [hsame, Function.update_self]
          exact ⟨s.now, rfl, hle.trans (h.past id last hid)⟩
        · rw [Function.update_of_ne hsame]
          exact ⟨last, hid, hle⟩
    · intro j k first second id time hfirst hsecond hat hsecondOn
      rcases eq_or_of_update hsecond with ⟨rfl, rfl⟩ | ⟨hk, hother⟩
      · exact absurd hsecondOn (not_pendingOn rfl)
      · rcases eq_or_of_update hfirst with ⟨rfl, rfl⟩ | ⟨-, hold⟩
        · obtain ⟨-, rfl, -⟩ := hat
          exact absurd (h.alone k j second entry _ hother hcall hsecondOn hon) hk
        · exact h.waited j k first second id time hold hother hat hsecondOn
    · intro j k first second id time later hne hfirst hsecond hat hlater
      rcases eq_or_of_update hfirst with ⟨rfl, rfl⟩ | ⟨-, hold⟩
      · rcases eq_or_of_update hsecond with ⟨rfl, -⟩ | ⟨-, hother⟩
        · exact absurd rfl hne
        · obtain ⟨-, rfl, -⟩ := hat
          exact Or.inr (h.waited k j second entry _ later hother hcall hlater hon)
      · rcases eq_or_of_update hsecond with ⟨rfl, rfl⟩ | ⟨-, hother⟩
        · obtain ⟨-, rfl, -⟩ := hlater
          exact Or.inl (h.waited j k first entry _ time hold hcall hat hon)
        · exact h.apart j k first second id time later hne hold hother hat hlater
  · have hlast : (s.finish i entry row).lastDecayAt = s.lastDecayAt := if_neg hlimited
    refine h.of_update rfl rfl hlast ?_ (fun id hon => absurd hon.1 hlimited) fun id time hat => hlimited hat.1
    intro j found id hfound hon hid
    exact h.reserved_of_settled hcall hunsettled hfound hon hid

theorem Spaced.moves (h : Spaced s) (hmoves : Moves s caller s') : Spaced s' := by
  cases hmoves with
  | same => exact h
  | time elapsed =>
    exact h.of_fewer (Nat.le_add_right _ _) rfl (fun _ _ _ _ _ hid => hid) (fun _ found _ hfound hon => ⟨found, hfound, hon, rfl⟩)
      fun _ found _ _ hfound hat => ⟨found, hfound, hat, rfl⟩
  | other id link hfree =>
    exact h.of_fewer le_rfl rfl (fun _ _ _ _ _ hid => hid) (fun _ found _ hfound hon => ⟨found, hfound, hon, rfl⟩)
      fun _ found _ _ hfound hat => ⟨found, hfound, hat, rfl⟩
  | rejected i call hnew =>
    exact h.of_update rfl rfl rfl (fun _ _ _ _ _ hid => hid) (fun _ hon => absurd hon (not_pendingOn rfl))
      fun _ _ => not_decayedAt fun _ _ => by simp
  | admitted i call hnew hfree => exact h.admitted hnew hfree
  | advanced i entry next locks hcall hundecided hnext hlocks haccurate =>
    refine h.of_update rfl rfl rfl (fun _ _ _ _ _ hid => hid) ?_ fun _ _ =>
      not_decayedAt fun row returnedAt => not_settled_of_undecided hnext _ returnedAt
    intro id hon
    exact ⟨entry, hcall, ⟨hon.1, hon.2.1, unsettled_of_undecided hundecided⟩, rfl⟩
  | wrote i entry row written audit hcall hphase =>
    refine h.of_update rfl rfl rfl (fun _ _ _ _ _ hid => hid) ?_ fun _ _ => not_decayedAt fun _ _ => by simp
    intro id hon
    exact ⟨entry, hcall, ⟨hon.1, hon.2.1, unsettled_of_undecided (undecided_of_eq hphase rfl)⟩, rfl⟩
  | returned i entry row hcall hphase => exact h.returned hcall hphase
  | failed i entry outcome hcall hundecided houtcome =>
    refine h.of_update rfl rfl rfl ?_ (fun _ hon => absurd hon (not_pendingOn rfl)) fun _ _ => not_decayedAt ?_
    · intro j found id hfound hon hid
      exact h.reserved_of_settled hcall (unsettled_of_undecided hundecided) hfound hon hid
    · intro row returnedAt hsettled
      exact houtcome row (Phase.settled.inj hsettled).1

theorem spaced_run (now : Time) (links : LinkId → Option Link) (audits : List Audit) (events : List Event) :
    Spaced (run step (idle now links audits) events) := by
  apply invariant_run
  · intro state event h
    exact h.moves (moves_step state event)
  · constructor
    all_goals intros
    all_goals contradiction

/-! ## What a call has written -/

/-- The link and the audit row of a call, at the one step that changes the tables. -/
def Commits (call : Call) (row : Row) (before after : State) : Prop :=
  ∃ old time, before.liveLink call.linkId = some old ∧
    row = rowOf call.linkId (valuesOf old) (reconsolidated call.action time old) ∧
    after.links = Function.update before.links call.linkId (some (reconsolidated call.action time old)) ∧
    after.audits = before.audits ++ [auditOf call row]

def Writes (before after : State) : Prop := after.links ≠ before.links ∨ after.audits ≠ before.audits

/-- The transaction of the call has committed. -/
def Committed (i : ℕ) (call : Call) (row : Row) (s : State) : Prop :=
  ∃ entry, s.calls i = some entry ∧ entry.call = call ∧
    (entry.phase = .acknowledged row ∨ ∃ returnedAt, entry.phase = .settled (.row row) returnedAt)

theorem Committed.moves {call : Call} {row : Row} (h : Committed i call row s) (hmoves : Moves s caller s') :
    Committed i call row s' := by
  obtain ⟨entry, hentry, hcall, hphase⟩ := h
  have hdecided : ¬ entry.phase.undecided = true := by
    rcases hphase with hphase | ⟨returnedAt, hphase⟩
    · rw [hphase]
      simp [Phase.undecided]
    · rw [hphase]
      simp [Phase.undecided]
  have hkept : ∀ {k next}, k ≠ i → s'.calls = Function.update s.calls k (some next) → Committed i call row s' := by
    intro k next hk hcalls
    refine ⟨entry, ?_, hcall, hphase⟩
    rw [hcalls, Function.update_of_ne hk.symm, hentry]
  have hsame : ∀ {other : Entry}, s.calls i = some other → other = entry := fun hother =>
    Option.some.inj (hother.symm.trans hentry)
  cases hmoves with
  | same => exact ⟨entry, hentry, hcall, hphase⟩
  | time elapsed => exact ⟨entry, hentry, hcall, hphase⟩
  | other id link hfree => exact ⟨entry, hentry, hcall, hphase⟩
  | rejected k other hnew =>
    refine hkept ?_ rfl
    rintro rfl
    rw [hnew] at hentry
    cases hentry
  | admitted k other hnew hfree =>
    refine hkept ?_ rfl
    rintro rfl
    rw [hnew] at hentry
    cases hentry
  | advanced k other next locks hother hundecided hnext hlocks haccurate =>
    refine hkept ?_ rfl
    rintro rfl
    rw [hsame hother] at hundecided
    exact hdecided hundecided
  | wrote k other written link audit hother hwriting =>
    refine hkept ?_ rfl
    rintro rfl
    rw [hsame hother] at hwriting
    exact hdecided (undecided_of_eq hwriting rfl)
  | returned k other returned hother hreturned =>
    by_cases hk : k = i
    · subst hk
      obtain rfl := hsame hother
      rcases hphase with hphase | ⟨returnedAt, hphase⟩
      · obtain rfl := Phase.acknowledged.inj (hreturned.symm.trans hphase)
        exact ⟨_, Function.update_self _ _ _, hcall, Or.inr ⟨s.now, rfl⟩⟩
      · rw [hphase] at hreturned
        cases hreturned
    · exact hkept hk rfl
  | failed k other outcome hother hundecided houtcome =>
    refine hkept ?_ rfl
    rintro rfl
    rw [hsame hother] at hundecided
    exact hdecided hundecided

/-- The commit of a transaction writes the link and the audit row that the row describes. -/
theorem commits_commit {row : Row} {written : Link} {audit : Audit} (haccurate : Accurate s i entry)
    (hphase : entry.phase = .committing row written audit) :
    Commits entry.call row s (s.commit i entry row written audit) := by
  rw [Accurate, hphase] at haccurate
  obtain ⟨-, ⟨old, time, hold, hwritten, hrow⟩, haudit⟩ := haccurate
  refine ⟨old, time, hold, ?_, ?_, ?_⟩
  · rw [hrow, hwritten]
  · rw [← hwritten]
    rfl
  · rw [← haudit]
    rfl

theorem not_committed_of_undecided (hcall : s.calls i = some entry) (hundecided : entry.phase.undecided = true)
    (call : Call) (row : Row) : ¬ Committed i call row s := by
  intro hcommitted
  obtain ⟨found, hfound, -, hphase⟩ := hcommitted
  obtain rfl := Option.some.inj (hcall.symm.trans hfound)
  rcases hphase with hphase | ⟨returnedAt, hphase⟩
  · rw [hphase] at hundecided
    cases hundecided
  · rw [hphase] at hundecided
    cases hundecided

/-- A step of a call that changes the tables is its commit. -/
theorem committed_of_writes (hmoves : Moves s (some i) s') (hwrites : Writes s s') :
    ∃ call row, Committed i call row s' ∧ ∀ call row, ¬ Committed i call row s := by
  cases hmoves with
  | wrote i entry row written audit hcall hphase =>
    exact ⟨entry.call, row, ⟨_, Function.update_self _ _ _, rfl, Or.inl rfl⟩,
      not_committed_of_undecided hcall (undecided_of_eq hphase rfl)⟩
  | _ => exact absurd hwrites (by simp [Writes, State.enter, State.letIn, State.advance, State.finish, State.settle])

/-- A call commits in a step of its own, which writes the link and the audit row. -/
theorem commits_of_committed (haccurate : AllAccurate s) {call : Call} {row : Row} (hmoves : Moves s caller s')
    (hbefore : ¬ Committed i call row s) (hafter : Committed i call row s') :
    caller = some i ∧ Commits call row s s' := by
  obtain ⟨entry, hentry, rfl, hphase⟩ := hafter
  have hold : s.calls i = some entry → False := fun hold => hbefore ⟨entry, hold, rfl, hphase⟩
  have hdecided : entry.phase.undecided = true → False := by
    intro hundecided
    rcases hphase with hphase | ⟨returnedAt, hphase⟩
    · rw [hphase] at hundecided
      cases hundecided
    · rw [hphase] at hundecided
      cases hundecided
  cases hmoves with
  | same => exact (hold hentry).elim
  | time elapsed => exact (hold hentry).elim
  | other id link hfree => exact (hold hentry).elim
  | rejected k call hnew =>
    rcases eq_or_of_update hentry with ⟨rfl, rfl⟩ | ⟨-, hother⟩
    · simp at hphase
    · exact (hold hother).elim
  | admitted k call hnew hfree =>
    rcases eq_or_of_update hentry with ⟨rfl, rfl⟩ | ⟨-, hother⟩
    · exact (hdecided rfl).elim
    · exact (hold hother).elim
  | advanced k found next locks hcall hundecided hnext hlocks hkept =>
    rcases eq_or_of_update hentry with ⟨rfl, rfl⟩ | ⟨-, hother⟩
    · exact (hdecided hnext).elim
    · exact (hold hother).elim
  | wrote k found written link audit hcall hwriting =>
    rcases eq_or_of_update hentry with ⟨rfl, rfl⟩ | ⟨-, hother⟩
    · have hrow : written = row := by simpa using hphase
      subst hrow
      have hcommits := commits_commit (haccurate i found hcall) hwriting
      exact ⟨rfl, hcommits⟩
    · exact (hold hother).elim
  | returned k found returned hcall hreturned =>
    rcases eq_or_of_update hentry with ⟨rfl, rfl⟩ | ⟨-, hother⟩
    · have hrow : returned = row := by simpa using hphase
      subst hrow
      exact (hbefore ⟨found, hcall, rfl, Or.inl hreturned⟩).elim
    · exact (hold hother).elim
  | failed k found outcome hcall hundecided houtcome =>
    rcases eq_or_of_update hentry with ⟨rfl, rfl⟩ | ⟨-, hother⟩
    · have hrow : outcome = .row row := by simpa using hphase
      exact (houtcome row hrow).elim
    · exact (hold hother).elim

/-- What every run of calls keeps to. -/
structure Audited (start : State) (events : List Event) : Prop where
  /-- A call that returned a row wrote, in one step of the run, the link and the audit row with the values of
  the link right before and right after that step, and no other step of the call changed a table. -/
  returned : ∀ i entry row returnedAt, (run step start events).calls i = some entry →
    entry.phase = .settled (.row row) returnedAt → ∃ before event after, events = before ++ event :: after ∧
      event.caller = some i ∧ Commits entry.call row (run step start before) (run step start (before ++ [event])) ∧
      ∀ before' event' after', events = before' ++ event' :: after' → event'.caller = some i →
        Writes (run step start before') (run step start (before' ++ [event'])) → before' = before
  /-- A call that returned null or threw changed no table. -/
  refused : ∀ i entry outcome returnedAt, (run step start events).calls i = some entry →
    entry.phase = .settled outcome returnedAt → outcome = .null ∨ outcome = .threw →
      ∀ before event after, events = before ++ event :: after → event.caller = some i →
        ¬ Writes (run step start before) (run step start (before ++ [event]))
  /-- Of two limited calls on one link that returned a row, one started 60 seconds after the other returned. -/
  spaced : ∀ i j first second row other time later, i ≠ j → (run step start events).calls i = some first →
    (run step start events).calls j = some second → first.call.linkId = second.call.linkId →
      first.call.action.limited = true → second.call.action.limited = true →
        first.phase = .settled (.row row) time → second.phase = .settled (.row other) later →
          time + RATE_LIMIT_MS ≤ second.startedAt ∨ later + RATE_LIMIT_MS ≤ first.startedAt

theorem Committed.run {call : Call} {row : Row} (h : Committed i call row s) (events : List Event) :
    Committed i call row (run step s events) :=
  invariant_run (I := Committed i call row) (fun state event hstate => hstate.moves (moves_step state event)) h events

theorem Committed.unique {call other : Call} {row found : Row} (h : Committed i call row s)
    (h' : Committed i other found s) : call = other ∧ row = found := by
  obtain ⟨entry, hentry, rfl, hphase⟩ := h
  obtain ⟨entry', hentry', rfl, hphase'⟩ := h'
  obtain rfl := Option.some.inj (hentry.symm.trans hentry')
  refine ⟨rfl, ?_⟩
  rcases hphase with hphase | ⟨returnedAt, hphase⟩
  · simpa [hphase] using hphase'
  · simpa [hphase] using hphase'

theorem run_concat (start : State) (before : List Event) (event : Event) :
    run step start (before ++ [event]) = step (run step start before) event := run_append step start before [event]

/-- After a step of a call that changes the tables, the call stays committed. -/
theorem committed_of_writes_run {start : State} {before : List Event} {event : Event} (hcaller : event.caller = some i)
    (hwrites : Writes (run step start before) (run step start (before ++ [event]))) :
    ∃ call row, (∀ later, Committed i call row (run step start (before ++ event :: later))) ∧
      ∀ call row, ¬ Committed i call row (run step start before) := by
  have hmoves := moves_step (run step start before) event
  rw [hcaller] at hmoves
  rw [run_concat] at hwrites
  obtain ⟨call, row, hcommitted, hnot⟩ := committed_of_writes hmoves hwrites
  refine ⟨call, row, fun later => ?_, hnot⟩
  rw [run_append, run_cons]
  exact hcommitted.run later

/-- A decay returns a row, and a quarantine of the same link a moment later returns null. -/
example :
    let s := run step (idle 0 (fun _ => some { fromId := "frag-a", toId := "frag-b", relationType := .related }) [])
      (.start 0 { linkId := 7, action := .decay } :: List.replicate 7 (.succeeds 0 0) ++
        [.tick 59999, .start 1 { linkId := 7, action := .quarantine }])
    (∃ entry row, s.calls 0 = some entry ∧ entry.phase = .settled (.row row) 0) ∧
      ∃ entry, s.calls 1 = some entry ∧ entry.phase = .settled .null 59999 :=
  ⟨⟨_, _, rfl, rfl⟩, ⟨_, rfl, rfl⟩⟩

end FragmentMemory.ReconsolidationRuns
