import FragmentMemory.StageRuns

/-! # Contradictions within a tenant

The query for the candidates of `detectContradictions` does not select their key, and the guard of
`resolveContradiction` reads the missing key as none: a pair of fragments with a key is counted as found
and left as it is.
-/
namespace FragmentMemory.ContradictionResolution
open ApiKeyStore FragmentTables MemoryRememberer RememberLiveness PairSteps ContradictionDetector PairPersistence
  RowPersistence StageSelection StageRuns ContentUniqueness

/-- Exactly one of two fragments is live, and a `contradicts` link joins them. -/
def Resolved (store : Store) (a b : Fragment) : Prop :=
  (LiveRow store a.id ↔ ¬ LiveRow store b.id) ∧
    ∃ l ∈ store.links.rows, l.relationType = .contradicts ∧
      ((l.fromId = a.id ∧ l.toId = b.id) ∨ (l.fromId = b.id ∧ l.toId = a.id))

instance (store : Store) (a b : Fragment) : Decidable (Resolved store a b) :=
  inferInstanceAs (Decidable ((LiveRow store a.id ↔ ¬ LiveRow store b.id) ∧
    ∃ l ∈ store.links.rows, l.relationType = .contradicts ∧
      ((l.fromId = a.id ∧ l.toId = b.id) ∨ (l.fromId = b.id ∧ l.toId = a.id))))

def isSettle : PairStep → Bool
  | .settle _ _ _ => true
  | _ => false

/-- The number of pairs that a call has resolved. -/
def resolvedCount (steps : List PairStep) : ℕ := (steps.filter isSettle).length

def keyed (pair : Fragment × Fragment) : Bool := pair.1.keyId.isSome

variable (settings : Settings) (services : Services) (store : Store) (detector : Detector)

/-- A call of `detectContradictions` on a store. -/
def detectionCall : Detection settings store := detectContradictions services (Journal.empty settings store) detector

/-- Every pair that the call finds within a tenant is resolved after it, and as many are reported as
were resolved. -/
structure ResolvesWithinTenant : Prop where
  pairs : ∀ pair ∈ (detectionCall settings services store detector).classified,
    pair.1.keyId.isSome = true → pair.1.keyId = pair.2.keyId → pair.1.topic = pair.2.topic →
      LiveRow store pair.1.id → LiveRow store pair.2.id →
      Resolved (detectionCall settings services store detector).journal.store pair.1 pair.2
  counted : (detectionCall settings services store detector).found =
    resolvedCount (detectionCall settings services store detector).journal.steps

variable {settings : Settings} {services : Services} {store : Store} {detector : Detector}

/-- What a detection has counted: the pairs that it has resolved and those that the guard has blocked. -/
def Counted (detection : Detection settings store) : Prop :=
  detection.found = resolvedCount detection.journal.steps + (detection.classified.filter keyed).length

theorem resolvedCount_resolveContradiction (journal : Journal settings store) (draws : Draws)
    (newFrag candidate : Fragment) (candidateKey : Option KeyId) (topic reasoning : String) :
    resolvedCount (journal.resolveContradiction draws newFrag candidate candidateKey topic reasoning).steps =
      resolvedCount journal.steps + if newFrag.keyId = candidateKey then 1 else 0 := by
  simp only [Journal.resolveContradiction]
  by_cases hkey : newFrag.keyId = candidateKey
  · rw [if_neg (not_not.mpr hkey), if_pos hkey]
    simp only [resolvedCount, Journal.steps_perform, List.filter_append, List.length_append]
    rfl
  · rw [if_pos hkey, if_neg hkey, Nat.add_zero]

theorem counted_resolve {detection : Detection settings store} (h : Counted detection) (check : ℕ)
    (newFrag candidate : Fragment) (reasoning : String) :
    Counted (detection.resolve services check newFrag candidate reasoning) := by
  have hsteps := resolvedCount_resolveContradiction detection.journal (services.draws check) newFrag candidate none
    newFrag.topic reasoning
  have hblocked : ((detection.classified ++ [(newFrag, candidate)]).filter keyed).length =
      (detection.classified.filter keyed).length + if newFrag.keyId = none then 0 else 1 := by
    rw [List.filter_append, List.length_append]
    cases hkey : newFrag.keyId <;> simp [keyed, hkey]
  simp only [Counted, Detection.resolve] at h ⊢
  rw [hsteps, hblocked, h]
  split <;> omega

theorem counted_examine {detection : Detection settings store} (h : Counted detection) (newFrag candidate : Fragment) :
    Counted (Detection.examine services newFrag detection candidate) := by
  simp only [Detection.examine]
  split
  · exact h
  · rename_i acquired _
    have hacquired : Counted { detection with detector := acquired } := h
    split
    · exact counted_resolve hacquired _ newFrag candidate _
    · exact h
    · simp only [Detection.escalate]
      split
      · split
        · exact counted_resolve hacquired _ newFrag candidate _
        · exact h
      · split
        · simp only [Detection.flag]
          split
          · exact h
          · exact h
        · exact h

/-- A call reports the pairs that it resolved and those with a key. -/
theorem counted_detectionCall (settings : Settings) (services : Services) (store : Store) (detector : Detector) :
    Counted (detectionCall settings services store detector) := by
  have hloop : Counted (detectionOf services (Journal.empty settings store) detector) := by
    refine List.foldlRecOn (motive := fun detection : Detection settings store => Counted detection) _ _ rfl
      fun detection hdetection newFrag _ => ?_
    exact List.foldlRecOn (motive := fun current : Detection settings store => Counted current) _ _ hdetection
      fun current hcurrent candidate _ => counted_examine hcurrent newFrag candidate
  exact hloop

/-- A fragment with a key stays live through the call. -/
theorem liveRow_detectionCall {f : Fragment} (hlive : LiveRow store f.id) (hrow : Read store f)
    (hkey : f.keyId ≠ none) :
    LiveRow (detectionCall settings services store detector).journal.store f.id := by
  have hempty : (Journal.empty settings store).Meets fun current pair =>
      Selected (fun _ _ => False) current pair ∧ SettledUnder none pair := trivial
  have hmeets : (detectionCall settings services store detector).journal.Meets fun current pair =>
      Selected (fun _ _ => False) current pair ∧ SettledUnder none pair :=
    (detectContradictions_meets hempty fun _ _ hselected hsettled => ⟨hselected, hsettled⟩).1
  have hstep : ∀ current pair, LiveRow current f.id ∧ Read current f →
      Selected (fun _ _ => False) current pair ∧ SettledUnder none pair →
      LiveRow (pairStep settings current pair) f.id ∧ Read (pairStep settings current pair) f := by
    rintro current pair ⟨hcurrent, hread⟩ ⟨hselected, hsettled⟩
    refine ⟨liveRow_pairStep hcurrent ?_, hread.step settings pair⟩
    have hother : ∀ g : Fragment, Read current g → g.keyId = none → f.id ≠ g.id := by
      rintro g ⟨row, hmem, hdescends⟩ hnone hid
      have hsame := hread.row hmem (hdescends.id.trans hid.symm)
      rw [← hsame.keyId, hdescends.keyId] at hkey
      exact hkey hnone
    cases pair with
    | settle now newFrag candidate =>
      obtain ⟨hnew, hcandidate, -, hkeys⟩ := hselected
      simp only [expiredIds, List.mem_singleton, contradictionLoser]
      split
      · exact hother candidate hcandidate (hkeys.symm.trans hsettled)
      · exact hother newFrag hnew hsettled
    | audit draws winner loser topic reasoning => exact List.not_mem_nil
    | supersede now older newer => exact absurd hsettled id
    | duplicate now newFrag existing => exact absurd hsettled id
    | relate now newFrag existing relationType => exact absurd hsettled id
    | merge now frag candidate => exact absurd hsettled id
    | compress now keeper others => exact absurd hsettled id
  exact (Journal.invariant hstep ⟨hlive, hrow⟩ hmeets).1

theorem classified_examine (services : Services) (detection : Detection settings store) (newFrag candidate : Fragment) :
    (Detection.examine services newFrag detection candidate).classified = detection.classified ∨
      (Detection.examine services newFrag detection candidate).classified =
        detection.classified ++ [(newFrag, candidate)] := by
  simp only [Detection.examine]
  split
  · exact Or.inl rfl
  · split
    · exact Or.inr rfl
    · exact Or.inl rfl
    · simp only [Detection.escalate]
      split
      · split
        · exact Or.inr rfl
        · exact Or.inl rfl
      · split
        · simp only [Detection.flag]
          split <;> exact Or.inl rfl
        · exact Or.inl rfl

/-- A fragment of which the rows of a store only differ by treatments of pairs. -/
def KeyOf (store : Store) (f : Fragment) : Prop := ∀ g ∈ store.fragments.rows, g.id = f.id → g.keyId = f.keyId

theorem keyOf_of_persists {later : Store} (h : Persists Descends store later) {f : Fragment}
    (hf : f ∈ later.fragments.rows) : KeyOf store f := by
  intro g hg hid
  obtain ⟨k, hk, hgk⟩ := h g hg
  rw [← hgk.keyId, eq_of_id _ hk hf (hgk.id.trans hid)]

/-- The fragments of every pair that the call finds are of one key, which is that of their rows. -/
theorem classified_keys {pair : Fragment × Fragment}
    (hpair : pair ∈ (detectionCall settings services store detector).classified) :
    pair.1.keyId = pair.2.keyId ∧ KeyOf store pair.1 ∧ KeyOf store pair.2 := by
  have hloop : DetectionInvariant (fun _ _ => True) store detector
        (detectionOf services (Journal.empty settings store) detector) ∧
      ∀ pair ∈ (detectionOf services (Journal.empty settings store) detector).classified,
        pair.1.keyId = pair.2.keyId ∧ KeyOf store pair.1 ∧ KeyOf store pair.2 := by
    refine List.foldlRecOn (motive := fun detection : Detection settings store =>
      DetectionInvariant (fun _ _ => True) store detector detection ∧ ∀ pair ∈ detection.classified,
        pair.1.keyId = pair.2.keyId ∧ KeyOf store pair.1 ∧ KeyOf store pair.2) _ _
      ⟨⟨trivial, Persists.of_eq admits_descends rfl, fun h => h⟩, fun _ h => absurd h List.not_mem_nil⟩
      fun detection hdetection newFrag hnew => ?_
    have hnewRow := (newFragments_spec hnew).1
    have hcandidates : (DetectionInvariant (fun _ _ => True) store detector (detection.examineAll services newFrag) ∧
        ∀ pair ∈ (detection.examineAll services newFrag).classified,
          pair.1.keyId = pair.2.keyId ∧ KeyOf store pair.1 ∧ KeyOf store pair.2) ∧
        Persists Descends detection.journal.store (detection.examineAll services newFrag).journal.store := by
      refine List.foldlRecOn (motive := fun current : Detection settings store =>
        (DetectionInvariant (fun _ _ => True) store detector current ∧ ∀ pair ∈ current.classified,
          pair.1.keyId = pair.2.keyId ∧ KeyOf store pair.1 ∧ KeyOf store pair.2) ∧
          Persists Descends detection.journal.store current.journal.store) _ _
        ⟨hdetection, Persists.of_eq admits_descends rfl⟩ fun current hcurrent candidate hcandidate => ?_
      obtain ⟨hcandidateRow, hne, -, hkey⟩ := contradictionCandidates_spec hcandidate
      have hany : ∀ current pair, Selected (fun _ _ => False) current pair → SettledUnder none pair → True :=
        fun _ _ _ _ => trivial
      obtain ⟨hinvariant, hkeeps⟩ := examine_invariant hcurrent.1.1 (hcurrent.1.1.keeps newFrag hnewRow)
        (hcurrent.2 candidate hcandidateRow) hne.symm hkey.symm hany
      refine ⟨⟨hinvariant, fun pair hpair => ?_⟩, hcurrent.2.trans admits_descends hkeeps⟩
      rcases classified_examine services current newFrag candidate with hsame | hadded
      · exact hcurrent.1.2 pair (hsame ▸ hpair)
      · rw [hadded] at hpair
        rcases List.mem_append.mp hpair with hold | hnewPair
        · exact hcurrent.1.2 pair hold
        · rw [List.mem_singleton.mp hnewPair]
          exact ⟨hkey.symm, keyOf_of_persists (Persists.of_eq admits_descends rfl) hnewRow,
            keyOf_of_persists hdetection.1.keeps hcandidateRow⟩
    exact hcandidates.1
  exact hloop.2 pair hpair

/-- The call resolves what it finds within a tenant, if and only if it finds no pair with a key; it
leaves both fragments of a live pair with a key live. -/
theorem resolvesWithinTenant_iff (settings : Settings) (services : Services) (store : Store) (detector : Detector) :
    (ResolvesWithinTenant settings services store detector ↔
      ∀ pair ∈ (detectionCall settings services store detector).classified, pair.1.keyId = none) ∧
    ∀ pair ∈ (detectionCall settings services store detector).classified, pair.1.keyId.isSome = true →
      LiveRow store pair.1.id → LiveRow store pair.2.id →
      ¬ Resolved (detectionCall settings services store detector).journal.store pair.1 pair.2 := by
  have hcounted := counted_detectionCall settings services store detector
  have hkept : ∀ f : Fragment, f.keyId.isSome = true → KeyOf store f → LiveRow store f.id →
      LiveRow (detectionCall settings services store detector).journal.store f.id := by
    rintro f hsome hkey ⟨g, hg, hid, hlive⟩
    rw [← hid]
    refine liveRow_detectionCall ⟨g, hg, rfl, hlive⟩ (Read.of_mem hg) ?_
    rw [hkey g hg hid]
    exact Option.isSome_iff_ne_none.mp hsome
  refine ⟨⟨fun h => ?_, fun h => ⟨?_, ?_⟩⟩, ?_⟩
  · have hnone : ((detectionCall settings services store detector).classified.filter keyed).length = 0 := by
      have hsame := h.counted
      simp only [Counted] at hcounted
      omega
    intro pair hpair
    have hkeyed := List.filter_eq_nil_iff.mp (List.length_eq_zero_iff.mp hnone) pair hpair
    simpa [keyed] using hkeyed
  · intro pair hpair hsome
    rw [h pair hpair] at hsome
    cases hsome
  · have hnil : (detectionCall settings services store detector).classified.filter keyed = [] := by
      refine List.filter_eq_nil_iff.mpr fun pair hpair => ?_
      simp [keyed, h pair hpair]
    rw [hcounted, hnil, List.length_nil, Nat.add_zero]
  · intro pair hpair hsome hfirst hsecond hresolved
    obtain ⟨hsame, hkeyFirst, hkeySecond⟩ := classified_keys hpair
    have hfirst' := hkept pair.1 hsome hkeyFirst hfirst
    have hsecond' := hkept pair.2 (hsame ▸ hsome) hkeySecond hsecond
    exact hresolved.1.mp hfirst' hsecond'

/-- Two contents of one topic, remembered under one key. -/
def tenantPairStore : Store :=
  let first := (remember sampleSettings (sampleDraws 1 "frag-01") {} (sampleParams sampleContent []) sampleCaller).1
  (remember sampleSettings (sampleDraws 2 "frag-02") first (sampleParams replacementContent []) sampleCaller).1

/-- A classifier that finds a contradiction in the two contents, whose vectors are close. -/
def contradictingServices : Services where
  embeddings := { embedded := fun _ => true, similarity := fun _ _ => 9 / 10 }
  nli := fun _ _ _ => some ⟨true, false, "0.990"⟩
  draws := fun check => sampleDraws (3 + check) "frag-03"
  now := 3

/-- The pair is found, counted and left as it is. -/
theorem tenant_pair_unresolved :
    ¬ ResolvesWithinTenant sampleSettings contradictingServices tenantPairStore {} ∧
    ∃ pair ∈ (detectionCall sampleSettings contradictingServices tenantPairStore {}).classified,
      pair.1.keyId = sampleCaller.keyId ∧ pair.2.keyId = sampleCaller.keyId ∧ pair.1.topic = pair.2.topic ∧
      LiveRow tenantPairStore pair.1.id ∧ LiveRow tenantPairStore pair.2.id ∧
      ¬ Resolved (detectionCall sampleSettings contradictingServices tenantPairStore {}).journal.store pair.1 pair.2 := by
  have hcount : (detectionCall sampleSettings contradictingServices tenantPairStore {}).found ≠
      resolvedCount (detectionCall sampleSettings contradictingServices tenantPairStore {}).journal.steps := by
    decide +kernel
  exact ⟨fun h => hcount h.counted, by decide +kernel⟩

end FragmentMemory.ContradictionResolution
