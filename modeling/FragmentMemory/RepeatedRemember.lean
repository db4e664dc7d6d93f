import FragmentMemory.RowStanding
import Mathlib.Tactic.Linarith

/-! # Remembering a content again

A remember whose content its key already holds reports the row that the index on the hash shows it.
That row is promoted by the insert and may lose its tier afterwards; a row with the content but another
hash is met only by the supersessions of the request.
-/
namespace FragmentMemory.RepeatedRemember
open ApiKeyStore FragmentTables FragmentFactory FragmentWriter LinkStore MemoryRememberer RememberLiveness
  RowPersistence RowStanding UniqueIndexTable ContentUniqueness

variable {settings : Settings} {draws : Draws} {store : Store} {params : RememberParams} {caller : Caller}
  {f : Fragment}

/-- A request that does not lower the row: the one that its content hash shows it must ask for enough
importance or name a tier, unless the row is in the lowest one; another row must not be expired by it,
unless it is expired already or has no importance to lose. -/
def Spares (settings : Settings) (params : RememberParams) (f : Fragment) : Prop :=
  if f.contentHash = computeContentHash settings.digests (requestContent settings params) then
    3 / 10 ≤ requestImportance params ∨ params.ttlTierGiven = true ∨ f.ttlTier = .short
  else f.id ∉ params.supersedes ∨ f.live = false ∨ f.importance ≤ 5 / 100

/-- The insert reports a row of the key exactly when the row holds the hash of the content. -/
theorem accepted_id_iff (hf : f ∈ store.fragments.rows) (hkey : f.keyId = caller.keyId) {accepted : Accepted}
    (h : acceptNew settings draws store params caller = .ok accepted) :
    accepted.id = f.id ↔ f.contentHash = computeContentHash settings.digests (requestContent settings params) := by
  obtain ⟨caseId, hbuild, hinsert⟩ := acceptNew_spec h
  have hbuilt := buildFragment_spec hbuild
  have hmap := List.mem_map_of_mem (f := rowView) hf
  rw [← @map_autoAssignCaseId draws store params caller] at hmap
  obtain ⟨assigned, hassigned, hview⟩ := List.mem_map.mp hmap
  simp only [rowView, Prod.mk.injEq] at hview
  have hkey' : accepted.fragment.keyId = caller.keyId := hbuilt.1
  have hhash' : (prepareInsertRow settings.digests draws.now accepted.fragment).contentHash =
      computeContentHash settings.digests (requestContent settings params) := by
    simp only [prepareInsertRow, hbuilt.2.2.2.2]
  rcases upsertRow_cases hinsert with ⟨held, hheld, hheldKey, hheldHash, hid, -⟩ | ⟨hfree, hid, fragments, hrow, hnext⟩
  · constructor
    · intro hsame
      have hrow : held = assigned := eq_of_id _ hheld hassigned (by rw [hview.1, ← hsame, hid])
      rw [← hview.2.2.1, ← hrow, hheldHash, hhash']
    · intro hhash
      have hrow : held = assigned := by
        refine eq_of_contentHash _ hheld hassigned ?_ ?_
        · rw [hheldKey, hview.2.1, hkey]
          exact hkey'
        · rw [hheldHash, hhash', hview.2.2.1, hhash]
      rw [hid, hrow, hview.1]
  · constructor
    · intro hsame
      have hrows := Table.rows_insert hrow
      have hnew : prepareInsertRow settings.digests draws.now accepted.fragment ∈ fragments.rows := by
        rw [hrows]
        exact List.mem_append_right _ (List.mem_singleton.mpr rfl)
      have hold : assigned ∈ fragments.rows := by
        rw [hrows]
        exact List.mem_append_left _ hassigned
      have heq := eq_of_id _ hnew hold (by rw [hview.1, ← hsame, hid])
      rw [← hview.2.2.1, ← heq, hhash']
    · intro hhash
      refine absurd ⟨?_, ?_⟩ (hfree assigned hassigned)
      · rw [hview.2.1, hkey]
        exact hkey'.symm
      · rw [hview.2.2.1, hhash, hhash']

/-- A property of the row of one id that the insert of a remember carries over. -/
theorem accepted_follow {id : FragmentId} {property : Fragment → Prop} (hR : Admits (Follows id property))
    {accepted : Accepted} (h : acceptNew settings draws store params caller = .ok accepted)
    (hpromote : ∀ g row : Fragment, g.keyId = accepted.fragment.keyId →
      g.contentHash = computeContentHash settings.digests (requestContent settings params) →
      Follows id property g ((promote draws.now row).set g)) :
    Persists (Follows id property) store accepted.store := by
  obtain ⟨caseId, hbuild, hinsert⟩ := acceptNew_spec h
  have hcontent := (buildFragment_spec hbuild).2.2.2.2
  have hassigned : Persists (Follows id property) store (autoAssignCaseId draws store params caller).1 :=
    (rewrites_autoAssignCaseId hR store params caller).persists
  refine hassigned.trans hR (persists_insert hR (fun g hkey hhash => hpromote g _ hkey ?_) hinsert)
  rw [hhash, hcontent]

/-- A remember that is not stored keeps the rows but for accesses. -/
theorem persists_not_stored (h : ∀ id, (remember settings draws store params caller).2 ≠ .stored id)
    {R : Fragment → Fragment → Prop} (hR : Admits R) :
    Persists R store (remember settings draws store params caller).1 := by
  rcases remember_cases settings draws store params caller with
    ⟨accepted, indexSession, -, hstored⟩ | ⟨-, hsame | ⟨found, hsearched⟩⟩
  · exact absurd (by rw [hstored]) (h accepted.id)
  · rw [hsame]
    exact Persists.of_eq hR rfl
  · rw [hsearched]
    exact (rewrites_afterSearch hR store found caller.keyId).persists

/-- The standing of the row against the one before the request; an expired row stays expired. -/
def Stands (f g : Fragment) : Prop := NotDemoted f g ∧ (f.live = false → g.live = false)

theorem admits_stands (f : Fragment) : Admits (Follows f.id (Stands f)) := by
  have hsame : ∀ g g' : Fragment, g'.importance = g.importance → g'.isAnchor = g.isAnchor →
      g'.ttlTier = g.ttlTier → g'.live = g.live → Stands f g → Stands f g' := by
    intro g g' himportance hanchor htier hlive h
    refine ⟨⟨?_, ?_, ?_⟩, ?_⟩
    · rw [himportance]
      exact h.1.importance
    · rw [hanchor]
      exact h.1.isAnchor
    · rw [htier]
      exact h.1.ttlTier
    · rw [hlive]
      exact h.2
  exact admits_follows (fun g _ => hsame g _ rfl rfl rfl rfl) (fun g _ _ _ => hsame g _ rfl rfl rfl rfl)
    (fun g _ => hsame g _ rfl rfl rfl rfl) (fun g _ => hsame g _ rfl rfl rfl rfl)

theorem stands_promote (now : Time) (row g : Fragment) : Follows f.id (Stands f) g ((promote now row).set g) :=
  ⟨rfl, fun _ h => ⟨h.1.trans (notDemoted_promote now row g), h.2⟩⟩

/-- A request that spares the row leaves it its standing. -/
theorem keepsStanding_of_spares (hf : f ∈ store.fragments.rows) (hkey : f.keyId = caller.keyId)
    (hspares : Spares settings params f) : KeepsStanding f (remember settings draws store params caller).1 := by
  have hpersists : Persists (Follows f.id (Stands f)) store (remember settings draws store params caller).1 := by
    refine persists_remember (admits_stands f) store params caller (fun _ _ g => stands_promote _ _ g) ?_ ?_
    · intro accepted haccepted oldId hmem hne g hid hlive
      refine ⟨rfl, fun hsame hstands => ?_⟩
      have hid' : accepted.id ≠ f.id := fun h => hne (by rw [← hid, hsame, h])
      have hhash := mt (accepted_id_iff hf hkey haccepted).mpr hid'
      simp only [Spares, if_neg hhash] at hspares
      rcases hspares with hnot | hexpired | hlow
      · exact absurd (by rw [← hsame, hid]; exact hmem) hnot
      · rw [hstands.2 hexpired] at hlive
        cases hlive
      · refine ⟨⟨hlow.trans (le_max_left _ _), hstands.1.isAnchor, hstands.1.ttlTier⟩, fun _ => rfl⟩
    · intro accepted haccepted hlow g hid
      refine ⟨rfl, fun hsame hstands => ?_⟩
      have hhash := (accepted_id_iff hf hkey haccepted).mp (hid.symm.trans hsame)
      obtain ⟨caseId, hbuild, -⟩ := acceptNew_spec haccepted
      rw [(buildFragment_importance hbuild).1] at hlow
      simp only [Spares, if_pos hhash] at hspares
      rcases hspares with himportance | hgiven | hshort
      · exact absurd hlow.1 (not_lt.mpr himportance)
      · exact absurd hgiven hlow.2
      · refine ⟨⟨hstands.1.importance, hstands.1.isAnchor, ?_⟩, hstands.2⟩
        rw [hshort]
        exact Nat.zero_le _
  obtain ⟨g, hg, hid, hstands⟩ := Persists.follow hpersists hf rfl ⟨NotDemoted.refl f, id⟩
  exact ⟨g, hg, hid, hstands.1⟩

/-- The row that the supersessions of a request expire. -/
def Weakened (f g : Fragment) : Prop := g.importance = max (5 / 100) (f.importance * (5 / 10)) ∧ g.live = false

/-- The row as it was before the request. -/
def Untouched (f g : Fragment) : Prop :=
  g.importance = f.importance ∧ g.live = true ∧ g.keyId = f.keyId ∧ g.contentHash = f.contentHash

theorem admits_weakened (f : Fragment) : Admits (Follows f.id (Weakened f)) := by
  refine admits_follows ?_ ?_ ?_ ?_
  · exact fun _ _ h => h
  · exact fun _ _ _ _ h => h
  · exact fun _ _ h => h
  · exact fun _ _ h => h

theorem admits_untouched (f : Fragment) : Admits (Follows f.id (Untouched f)) := by
  refine admits_follows ?_ ?_ ?_ ?_
  · exact fun _ _ h => h
  · exact fun _ _ _ _ h => h
  · exact fun _ _ h => h
  · exact fun _ _ h => h

theorem admits_present (id : FragmentId) : Admits (Follows id fun _ => True) :=
  admits_follows (fun _ _ h => h) (fun _ _ _ _ h => h) (fun _ _ h => h) fun _ _ h => h

/-- One supersession of the row. -/
theorem supersede_weakens {g new : Fragment} {newId : FragmentId} (hg : g ∈ store.fragments.rows) (hid : g.id = f.id)
    (huntouched : Untouched f g) (hnew : new ∈ store.fragments.rows) (hnewId : new.id = newId)
    (hkey : f.keyId = caller.keyId) :
    ∃ g ∈ (supersede draws store f.id newId caller.keyId).fragments.rows, g.id = f.id ∧ Weakened f g := by
  obtain ⟨linked, hlinked⟩ := createLink_isSome hg hnew hid hnewId .supersededBy 1
  obtain ⟨k, hk, hkid, hkuntouched⟩ :=
    Persists.follow (rewrites_createLink (admits_untouched f) hlinked).persists hg hid huntouched
  simp only [supersede, hlinked]
  have hmem := updated_mem_updateFragments hk
    (fun r => decide (r.id = f.id) && r.live && ownedBy caller.keyId r) (expire draws.now)
  have howned : ownedBy caller.keyId k = true := by
    simp only [ownedBy, hkuntouched.2.2.1, hkey, decide_true, Bool.or_true]
  rw [if_pos (by simp only [hkid, hkuntouched.2.1, howned, decide_true, Bool.and_self])] at hmem
  refine ⟨_, hmem, hkid, ?_, rfl⟩
  simp only [expire, hkuntouched.1]

/-- Supersessions that name the row expire it. -/
theorem supersedeAll_weakens {g new : Fragment} {newId : FragmentId} {oldIds : List FragmentId}
    (hg : g ∈ store.fragments.rows) (hid : g.id = f.id) (huntouched : Untouched f g)
    (hnew : new ∈ store.fragments.rows) (hnewId : new.id = newId) (hkey : f.keyId = caller.keyId)
    (hne : f.id ≠ newId) (hmem : f.id ∈ oldIds) :
    ∃ g ∈ (supersedeAll draws store newId oldIds caller.keyId).fragments.rows, g.id = f.id ∧ Weakened f g := by
  obtain ⟨earlier, later, hsplit, hfirst⟩ := List.eq_append_cons_of_mem hmem
  have hcompose : supersedeAll draws store newId oldIds caller.keyId =
      supersedeAll draws (supersede draws (supersedeAll draws store newId earlier caller.keyId) f.id newId
        caller.keyId) newId later caller.keyId := by
    rw [hsplit, supersedeAll, List.foldl_append, List.foldl_cons, if_neg hne]
    rfl
  have hbefore : Persists (Follows f.id (Untouched f)) store (supersedeAll draws store newId earlier caller.keyId) := by
    refine (rewrites_supersedeAll (admits_untouched f) store newId earlier caller.keyId ?_).persists
    intro oldId hold _ k hk _
    refine ⟨rfl, fun hsame => absurd ?_ hfirst⟩
    rw [← hsame, hk]
    exact hold
  have hpresent : Persists (Follows newId fun _ => True) store (supersedeAll draws store newId earlier caller.keyId) :=
    (rewrites_supersedeAll (admits_present newId) store newId earlier caller.keyId fun _ _ _ _ _ _ =>
      ⟨rfl, fun _ _ => trivial⟩).persists
  obtain ⟨k, hk, hkid, hkuntouched⟩ := Persists.follow hbefore hg hid huntouched
  obtain ⟨new', hnew', hnewId', -⟩ := Persists.follow hpresent hnew hnewId trivial
  obtain ⟨w, hw, hwid, hweakened⟩ : ∃ w ∈ (supersede draws (supersedeAll draws store newId earlier caller.keyId) f.id
      newId caller.keyId).fragments.rows, w.id = f.id ∧ Weakened f w :=
    supersede_weakens hk hkid hkuntouched hnew' hnewId' hkey
  have hafter : ∀ current, Persists (Follows f.id (Weakened f)) current
      (supersedeAll draws current newId later caller.keyId) := by
    intro current
    refine (rewrites_supersedeAll (admits_weakened f) current newId later caller.keyId ?_).persists
    intro oldId _ _ r _ hlive
    refine ⟨rfl, fun _ hr => ?_⟩
    rw [hr.2] at hlive
    cases hlive
  rw [hcompose]
  exact Persists.follow (hafter _) hw hwid hweakened

/-- A request that lowers the tier of the row it meets leaves it in the lowest one. -/
theorem tier_lowered (hf : f ∈ store.fragments.rows) (hkey : f.keyId = caller.keyId) {accepted : Accepted}
    (haccepted : acceptNew settings draws store params caller = .ok accepted) (hid : accepted.id = f.id)
    (hlow : requestImportance params < 3 / 10) (hgiven : ¬ params.ttlTierGiven = true) (indexSession : Option String) :
    ∃ g ∈ (finalizeRemember settings draws accepted.store { accepted.fragment with id := accepted.id } indexSession
      caller params).fragments.rows, g.id = f.id ∧ g.ttlTier = .short := by
  have hadmits : Admits (Follows f.id fun g => g.keyId = caller.keyId) := by
    refine admits_follows ?_ ?_ ?_ ?_
    · exact fun _ _ h => h
    · exact fun _ _ _ _ h => h
    · exact fun _ _ h => h
    · exact fun _ _ h => h
  obtain ⟨caseId, hbuild, -⟩ := acceptNew_spec haccepted
  have hinserted := accepted_follow hadmits haccepted fun g row _ _ => ⟨rfl, fun _ h => h⟩
  have hlinked := hinserted.trans hadmits (@rewrites_linkedStore _ settings draws hadmits
    accepted.store { accepted.fragment with id := accepted.id } indexSession caller params).persists
  have hsuperseded := hlinked.trans hadmits (@rewrites_supersedeAll _ draws hadmits _ accepted.id
    params.supersedes caller.keyId fun _ _ _ _ _ _ => ⟨rfl, fun _ h => h⟩).persists
  obtain ⟨g, hg, hgid, hgkey⟩ := Persists.follow hsuperseded hf rfl hkey
  have hmem := updated_mem_updateFragments hg (fun r => decide (r.id = accepted.id) && ownedBy caller.keyId r)
    (setTtlTier .short)
  have howned : ownedBy caller.keyId g = true := by
    simp only [ownedBy, hgkey, decide_true, Bool.or_true]
  rw [if_pos (by simp only [hgid, hid, howned, decide_true, Bool.and_self])] at hmem
  rw [fragments_finalizeRemember]
  simp only [lowerTier]
  rw [if_pos ⟨by rw [(buildFragment_importance hbuild).1]; exact hlow, hgiven⟩]
  exact ⟨_, hmem, hgid, rfl⟩

/-- A request whose supersessions name a row that its insert has not met expires that row. -/
theorem row_weakened (hf : f ∈ store.fragments.rows) (hkey : f.keyId = caller.keyId) (hlive : f.live = true)
    (hmem : f.id ∈ params.supersedes) {accepted : Accepted}
    (haccepted : acceptNew settings draws store params caller = .ok accepted)
    (hhash : f.contentHash ≠ computeContentHash settings.digests (requestContent settings params))
    (indexSession : Option String) :
    ∃ g ∈ (finalizeRemember settings draws accepted.store { accepted.fragment with id := accepted.id } indexSession
      caller params).fragments.rows, g.id = f.id ∧ Weakened f g := by
  have hid : f.id ≠ accepted.id := fun h => hhash ((accepted_id_iff hf hkey haccepted).mp h.symm)
  obtain ⟨caseId, -, hinsert⟩ := acceptNew_spec haccepted
  obtain ⟨new, hnew, hnewId, -⟩ := (upsertRow_rows hinsert).1
  have hinserted := accepted_follow (admits_untouched f) haccepted fun g row _ hmet =>
    ⟨rfl, fun _ h => absurd (h.2.2.2.symm.trans hmet) hhash⟩
  obtain ⟨g, hg, hgid, huntouched⟩ := Persists.follow hinserted hf rfl ⟨rfl, hlive, rfl, rfl⟩
  have hlinked : ∀ {R : Fragment → Fragment → Prop}, Admits R → Persists R accepted.store (linkedStore settings draws
      accepted.store { accepted.fragment with id := accepted.id } indexSession caller params) :=
    fun hR => (rewrites_linkedStore hR accepted.store _ indexSession caller params).persists
  obtain ⟨k, hk, hkid, hkuntouched⟩ := Persists.follow (hlinked (admits_untouched f)) hg hgid huntouched
  obtain ⟨new', hnew', hnewId', -⟩ := Persists.follow (hlinked (admits_present accepted.id)) hnew hnewId trivial
  obtain ⟨w, hw, hwid, hweakened⟩ :=
    @supersedeAll_weakens draws _ _ _ _ _ _ _ hk hkid hkuntouched hnew' hnewId' hkey hid hmem
  rw [fragments_finalizeRemember]
  simp only [lowerTier]
  split
  · exact Persists.follow (rewrites_updateFragments (admits_weakened f) fun r _ _ => ⟨rfl, fun _ h => h⟩).persists hw hwid
      hweakened
  · exact ⟨w, hw, hwid, hweakened⟩

/-- A remember leaves a row of its key, the one with its content among them, the standing it had, if and
only if it is not stored or spares the row. -/
theorem keepsStanding_iff (hf : f ∈ store.fragments.rows) (hkey : f.keyId = caller.keyId) :
    KeepsStanding f (remember settings draws store params caller).1 ↔
      ∀ id, (remember settings draws store params caller).2 = .stored id → Spares settings params f := by
  constructor
  · intro hkeeps id hstored
    by_contra hnot
    rcases remember_cases settings draws store params caller with
      ⟨accepted, indexSession, haccepted, hremember⟩ | ⟨hother, -⟩
    · obtain ⟨g, hg, hgid, hstanding⟩ := hkeeps
      rw [hremember] at hg
      by_cases hhash : f.contentHash = computeContentHash settings.digests (requestContent settings params)
      · simp only [Spares, if_pos hhash, not_or, not_le] at hnot
        have hid := (accepted_id_iff hf hkey haccepted).mpr hhash
        obtain ⟨w, hw, hwid, hshort⟩ := tier_lowered hf hkey haccepted hid hnot.1 hnot.2.1 indexSession
        have hsame := eq_of_id _ hg hw (hgid.trans hwid.symm)
        have hrank := hstanding.ttlTier
        rw [hsame, hshort] at hrank
        exact absurd hrank (not_le.mpr (tierRank_pos hnot.2.2))
      · simp only [Spares, if_neg hhash, not_or, not_not, not_le, Bool.not_eq_false] at hnot
        obtain ⟨w, hw, hwid, hweakened⟩ := row_weakened hf hkey hnot.2.1 hnot.1 haccepted hhash indexSession
        have hsame := eq_of_id _ hg hw (hgid.trans hwid.symm)
        have himportance := hstanding.importance
        rw [hsame, hweakened.1] at himportance
        have hlost : max (5 / 100) (f.importance * (5 / 10)) < f.importance := max_lt hnot.2.2 (by linarith)
        exact absurd himportance (not_le.mpr hlost)
    · exact hother id hstored
  · intro hspares
    by_cases hstored : ∃ id, (remember settings draws store params caller).2 = .stored id
    · obtain ⟨id, hid⟩ := hstored
      exact keepsStanding_of_spares hf hkey (hspares id hid)
    · have hother : ∀ id, (remember settings draws store params caller).2 ≠ .stored id := fun id h => hstored ⟨id, h⟩
      obtain ⟨g, hg, hgid, hstands⟩ := Persists.follow (persists_not_stored hother (admits_stands f)) hf rfl
        ⟨NotDemoted.refl f, id⟩
      exact ⟨g, hg, hgid, hstands.1⟩

/-- The store in which the sample content was remembered. -/
def rememberedStore : Store :=
  (remember sampleSettings (sampleDraws 1 "frag-01") {} (sampleParams sampleContent []) sampleCaller).1

/-- The sample content with less importance. -/
def weakParams : RememberParams := { sampleParams sampleContent [] with importance := some (1 / 10) }

/-- Remembering the content as it was remembered first keeps the standing of its row. -/
theorem keepsStanding_repeated :
    ∃ f ∈ rememberedStore.fragments.rows, KeepsStanding f (remember sampleSettings (sampleDraws 2 "frag-02")
      rememberedStore (sampleParams sampleContent []) sampleCaller).1 := by
  have hrow : ∃ f ∈ rememberedStore.fragments.rows, f.keyId = sampleCaller.keyId ∧
      3 / 10 ≤ requestImportance (sampleParams sampleContent []) := by decide +kernel
  obtain ⟨f, hf, hkey, himportance⟩ := hrow
  refine ⟨f, hf, (keepsStanding_iff hf hkey).mpr fun id _ => ?_⟩
  simp only [Spares]
  split
  · exact Or.inl himportance
  · exact Or.inl List.not_mem_nil

/-- Remembering it with less importance puts the warm row into the short tier. -/
theorem repeated_remember_demotes :
    ∃ f ∈ rememberedStore.fragments.rows, f.keyId = sampleCaller.keyId ∧
      f.content = requestContent sampleSettings weakParams ∧
      ¬ KeepsStanding f (remember sampleSettings (sampleDraws 2 "frag-02") rememberedStore weakParams sampleCaller).1 := by
  decide +kernel

end FragmentMemory.RepeatedRemember
