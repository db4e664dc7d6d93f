import FragmentMemory.DryRuns
import FragmentMemory.FragmentGC
import FragmentMemory.GraphLinker
import FragmentMemory.LinkGrowth

/-! # The arrays and the links

The relation between fragments is stored in `fragment_links` and again in the `linked_to` arrays.  Here is
which of the operations that write the one or the other keep the arrays of the live rows the mirror of the
links, over every run of them.
-/
namespace FragmentMemory.LinkMirror
open ApiKeyStore FragmentTables FragmentFactory FragmentWriter FragmentReader FragmentIndex LinkStore GraphLinker
  FragmentGC MemoryRememberer MemoryRequests RememberLiveness RowPersistence LinkGrowth DryRuns UniqueIndexTable
  TransitionRuns ForgetOutcome ContentUniqueness

/-- A link that is not deleted joins the two ids, in one direction or the other. -/
def Joined (store : Store) (a b : FragmentId) : Prop :=
  ∃ l ∈ store.links.rows, l.deletedAt = none ∧ (l.fromId = a ∧ l.toId = b ∨ l.fromId = b ∧ l.toId = a)

/-- The arrays of the live rows mention each other exactly where a link joins them, and no array mentions
an id without a row. -/
structure Mirrors (store : Store) : Prop where
  symmetric : ∀ a ∈ store.fragments.rows, ∀ b ∈ store.fragments.rows, a.live = true → b.live = true →
    (b.id ∈ a.linkedTo ↔ a.id ∈ b.linkedTo)
  linked : ∀ a ∈ store.fragments.rows, ∀ b ∈ store.fragments.rows, a.live = true → b.live = true →
    (b.id ∈ a.linkedTo ↔ Joined store a.id b.id)
  present : ∀ f ∈ store.fragments.rows, ∀ id ∈ f.linkedTo, HasRow store id

/-- The mirror with some pairs still to be joined, and what the operations need of the links: they have
their rows, and a deleted one between live rows is not the only one. -/
structure MirrorsBut (pending : FragmentId → FragmentId → Prop) (store : Store) : Prop where
  linked : ∀ a ∈ store.fragments.rows, ∀ b ∈ store.fragments.rows, a.live = true → b.live = true →
    ¬ pending a.id b.id → ¬ pending b.id a.id → (b.id ∈ a.linkedTo ↔ Joined store a.id b.id)
  present : ∀ f ∈ store.fragments.rows, ∀ id ∈ f.linkedTo, HasRow store id
  paired : ∀ l ∈ store.links.rows, ∀ a ∈ store.fragments.rows, ∀ b ∈ store.fragments.rows, a.live = true →
    b.live = true → a.id = l.fromId → b.id = l.toId → Joined store a.id b.id
  ends : ∀ l ∈ store.links.rows, HasRow store l.fromId ∧ HasRow store l.toId

/-- The invariant of the runs. -/
def Mirrored (store : Store) : Prop := MirrorsBut (fun _ _ => False) store

variable {store : Store}

theorem Joined.symm {a b : FragmentId} (h : Joined store a b) : Joined store b a := by
  obtain ⟨l, hl, hlive, hends⟩ := h
  exact ⟨l, hl, hlive, hends.symm⟩

theorem Mirrored.mirrors (h : Mirrored store) : Mirrors store where
  symmetric a ha b hb hla hlb := by
    rw [h.linked a ha b hb hla hlb not_false not_false, h.linked b hb a ha hlb hla not_false not_false]
    exact ⟨Joined.symm, Joined.symm⟩
  linked a ha b hb hla hlb := h.linked a ha b hb hla hlb not_false not_false
  present := h.present

theorem mirrored_empty : Mirrored {} where
  linked a ha := by cases ha
  present f hf := by cases hf
  paired l hl := by cases hl
  ends l hl := by cases hl

/-- The pairs that an operation joins are no longer to be joined, and nothing else changes. -/
theorem MirrorsBut.grows {pending : FragmentId → FragmentId → Prop} {ends : Ends} {after : Store}
    (h : MirrorsBut pending store) (hgrows : Grows ends store after) :
    MirrorsBut (fun a b => pending a b ∧ (a, b) ∉ ends) after := by
  have hkept : ∀ {a b}, Joined store a b → Joined after a b := by
    rintro a b ⟨l, hl, hlive, hends⟩
    obtain ⟨m, hm, hsame⟩ := hgrows.links.kept l hl
    exact ⟨m, hm, hsame.deletedAt.trans hlive, by rwa [hsame.fromId, hsame.toId]⟩
  have hpaired : ∀ m ∈ after.links.rows, ∀ a ∈ after.fragments.rows, ∀ b ∈ after.fragments.rows, a.live = true →
      b.live = true → a.id = m.fromId → b.id = m.toId → Joined after a.id b.id := by
    intro m hm a' ha' b' hb' hla hlb hfrom hto
    rcases hgrows.links.origin m hm with ⟨l, hl, hsame⟩ | ⟨-, hlive⟩
    · obtain ⟨a, ha, hagrows⟩ := hgrows.covers a' ha'
      obtain ⟨b, hb, hbgrows⟩ := hgrows.covers b' hb'
      rw [hagrows.id, hbgrows.id]
      refine hkept (h.paired l hl a ha b hb (hagrows.live hla) (hbgrows.live hlb) ?_ ?_)
      · rw [← hagrows.id, hfrom, hsame.fromId]
      · rw [← hbgrows.id, hto, hsame.toId]
    · exact ⟨m, hm, hlive, Or.inl ⟨hfrom.symm, hto.symm⟩⟩
  refine ⟨?_, ?_, hpaired, ?_⟩
  · intro a' ha' b' hb' hla hlb hab hba
    obtain ⟨a, ha, hagrows⟩ := hgrows.covers a' ha'
    obtain ⟨b, hb, hbgrows⟩ := hgrows.covers b' hb'
    rw [hagrows.linkedTo]
    by_cases hends : (a.id, b'.id) ∈ ends ∨ (b'.id, a.id) ∈ ends
    · refine iff_of_true (Or.inr hends) ?_
      rcases hends with hforth | hback
      · obtain ⟨m, hm, hpair⟩ := hgrows.links.joined _ hforth
        simp only [Prod.mk.injEq] at hpair
        exact hpaired m hm a' ha' b' hb' hla hlb (hagrows.id.trans hpair.1.symm) hpair.2.symm
      · obtain ⟨m, hm, hpair⟩ := hgrows.links.joined _ hback
        simp only [Prod.mk.injEq] at hpair
        exact (hpaired m hm b' hb' a' ha' hlb hla hpair.1.symm (hagrows.id.trans hpair.2.symm)).symm
    · rw [or_iff_left hends]
      rw [not_or, ← hagrows.id] at hends
      have hold := h.linked a ha b hb (hagrows.live hla) (hbgrows.live hlb)
        (fun hpending => hab ⟨by rwa [hagrows.id, hbgrows.id], hends.1⟩)
        (fun hpending => hba ⟨by rwa [hagrows.id, hbgrows.id], hends.2⟩)
      rw [hbgrows.id, hold, hagrows.id]
      refine ⟨hkept, ?_⟩
      rintro ⟨m, hm, hlive, hmends⟩
      rcases hgrows.links.origin m hm with ⟨l, hl, hsame⟩ | ⟨hnew, -⟩
      · exact ⟨l, hl, hsame.deletedAt.symm.trans hlive, by rwa [hsame.fromId, hsame.toId] at hmends⟩
      · rw [hagrows.id, hbgrows.id] at hends
        rcases hmends with ⟨hfrom, hto⟩ | ⟨hfrom, hto⟩
        · rw [hfrom, hto] at hnew
          exact absurd hnew hends.1
        · rw [hfrom, hto] at hnew
          exact absurd hnew hends.2
  · intro g hg id hid
    obtain ⟨f, hf, hfgrows⟩ := hgrows.covers g hg
    rw [hgrows.hasRow_iff]
    rcases (hfgrows.linkedTo id).mp hid with hold | hforth | hback
    · exact h.present f hf id hold
    · exact (hgrows.present _ hforth).2
    · exact (hgrows.present _ hback).1
  · intro m hm
    rw [hgrows.hasRow_iff, hgrows.hasRow_iff]
    rcases hgrows.links.origin m hm with ⟨l, hl, hsame⟩ | ⟨hnew, -⟩
    · rw [hsame.fromId, hsame.toId]
      exact h.ends l hl
    · exact hgrows.present _ hnew

theorem Mirrored.gains {after : Store} (h : Mirrored store) (hgains : Gains store after) : Mirrored after := by
  obtain ⟨ends, hends⟩ := hgains
  have hbut := h.grows hends
  simp only [false_and] at hbut
  exact hbut

/-- Pairs that no two live rows make need not be joined. -/
theorem MirrorsBut.mirrored {pending : FragmentId → FragmentId → Prop} (h : MirrorsBut pending store)
    (hsettled : ∀ a ∈ store.fragments.rows, ∀ b ∈ store.fragments.rows, a.live = true → b.live = true →
      ¬ pending a.id b.id) : Mirrored store where
  linked a ha b hb hla hlb _ _ := h.linked a ha b hb hla hlb (hsettled a ha b hb hla hlb) (hsettled b hb a ha hlb hla)
  present := h.present
  paired := h.paired
  ends := h.ends

/-- A new row is still to be joined with the rows that its array lists. -/
theorem Mirrored.inserted (h : Mirrored store) {row : Fragment} {fragments : FragmentTable}
    (hinsert : store.fragments.insert row = some fragments) (hlisted : ∀ id ∈ row.linkedTo, HasRow store id) :
    MirrorsBut (fun a b => a = row.id ∧ b ∈ row.linkedTo) { store with fragments := fragments } := by
  have hfresh : ¬ HasRow store row.id := by
    rintro ⟨f, hf, hid⟩
    simp only [Table.insert] at hinsert
    split at hinsert
    · rename_i hfits
      exact hfits f hf _ (primary_mem_entries.mpr rfl) (primary_mem_entries.mpr hid)
    · cases hinsert
  have hrows := Table.rows_insert hinsert
  have hmem : ∀ {f}, f ∈ fragments.rows → f ∈ store.fragments.rows ∨ f = row := by
    intro f hf
    rw [hrows] at hf
    exact (List.mem_append.mp hf).imp_right List.mem_singleton.mp
  have hkept : ∀ {id}, HasRow store id → HasRow { store with fragments := fragments } id := by
    rintro id ⟨f, hf, hid⟩
    refine ⟨f, ?_, hid⟩
    simp only [hrows]
    exact List.mem_append_left _ hf
  have hunjoined : ∀ {id}, ¬ Joined store row.id id := by
    rintro id ⟨l, hl, -, ⟨hfrom, -⟩ | ⟨-, hto⟩⟩
    · exact hfresh (hfrom ▸ (h.ends l hl).1)
    · exact hfresh (hto ▸ (h.ends l hl).2)
  refine ⟨?_, ?_, ?_, fun l hl => (h.ends l hl).imp hkept hkept⟩
  · intro a ha b hb hla hlb hab hba
    rcases hmem ha with hold | rfl
    · rcases hmem hb with hold' | rfl
      · exact h.linked a hold b hold' hla hlb not_false not_false
      · exact iff_of_false (fun hlist => hfresh (h.present a hold _ hlist)) fun hjoined => hunjoined hjoined.symm
    · exact iff_of_false (fun hlist => hab ⟨rfl, hlist⟩) hunjoined
  · intro f hf id hid
    rcases hmem hf with hold | rfl
    · exact hkept (h.present f hold id hid)
    · exact hkept (hlisted id hid)
  · intro l hl a ha b hb hla hlb hfrom hto
    have hold : a ∈ store.fragments.rows := (hmem ha).resolve_right fun hsame =>
      hfresh (hsame ▸ hfrom ▸ (h.ends l hl).1)
    have hold' : b ∈ store.fragments.rows := (hmem hb).resolve_right fun hsame =>
      hfresh (hsame ▸ hto ▸ (h.ends l hl).2)
    exact h.paired l hl a hold b hold' hla hlb hfrom hto

variable {settings : Settings} {draws : Draws} {params : RememberParams} {caller : Caller}

variable (settings draws) in
/-- A remember comes to its insert and adds a row. -/
structure AddsRow (store : Store) (params : RememberParams) (caller : Caller) : Prop where
  stored : params.dryRun = false
  proceeds : Proceeds store params caller
  quota : quotaRefuses settings draws store caller.keyId = false
  gate : (draws.hardGateBlocks && caller.keyId.isSome) = false
  fresh : ∀ f ∈ store.fragments.rows, ¬ (f.keyId = caller.keyId ∧
    f.contentHash = computeContentHash settings.digests (requestContent settings params))

/-- An id of a row that the caller may link when it is live. -/
def Linkable (store : Store) (caller : Caller) (id : FragmentId) : Prop :=
  ∃ g ∈ store.fragments.rows, g.id = id ∧
    (g.live = true → agentScope caller.agentId g = true ∧ keyScope caller.keyId [] g = true)

theorem gains_autoAssignCaseId (store : Store) (params : RememberParams) (caller : Caller) :
    Gains store (autoAssignCaseId draws store params caller).1 := by
  simp only [autoAssignCaseId]
  split
  · split
    · split
      · exact Gains.refl store
      · split
        · exact Gains.refl store
        · split
          · exact Gains.refl store
          · exact Gains.foldl fun current id _ => ⟨_, grows_updateFragments (fun _ => rfl) fun _ h => h⟩
    · exact Gains.refl store
  · exact Gains.refl store

/-- What the gates have let through when a remember is accepted. -/
theorem gates_of_acceptNew {accepted : Accepted} (h : acceptNew settings draws store params caller = .ok accepted) :
    quotaRefuses settings draws store caller.keyId = false ∧ (draws.hardGateBlocks && caller.keyId.isSome) = false := by
  simp only [acceptNew] at h
  split at h
  · cases h
  · split at h
    · cases h
    · split at h
      · cases h
      · rename_i hgate
        split at h
        · cases h
        · rename_i hquota
          rw [quotaRefuses_assigned] at hquota
          exact ⟨Bool.eq_false_iff.mpr hquota, Bool.eq_false_iff.mpr hgate⟩

/-- Rows that agree in what the keys, the agents and the content index read. -/
structure SameScope (f g : Fragment) : Prop where
  id : g.id = f.id
  live : g.live = f.live
  agentId : g.agentId = f.agentId
  keyId : g.keyId = f.keyId
  contentHash : g.contentHash = f.contentHash

theorem admits_sameScope : Admits SameScope where
  refl _ := ⟨rfl, rfl, rfl, rfl, rfl⟩
  trans _ _ _ h h' := ⟨h'.id.trans h.id, h'.live.trans h.live, h'.agentId.trans h.agentId, h'.keyId.trans h.keyId,
    h'.contentHash.trans h.contentHash⟩
  linked _ _ := ⟨rfl, rfl, rfl, rfl, rfl⟩
  accessed _ _ _ _ := ⟨rfl, rfl, rfl, rfl, rfl⟩
  asserted _ _ := ⟨rfl, rfl, rfl, rfl, rfl⟩
  cased _ _ := ⟨rfl, rfl, rfl, rfl, rfl⟩

theorem Linkable.persists {after : Store} {id : FragmentId} (h : Linkable store caller id)
    (hpersists : Persists SameScope store after) : Linkable after caller id := by
  obtain ⟨g, hg, hid, hscope⟩ := h
  obtain ⟨k, hk, hsame⟩ := hpersists g hg
  refine ⟨k, hk, hsame.id.trans hid, fun hlive => ?_⟩
  rw [hsame.live] at hlive
  simpa only [agentScope, keyScope, hsame.agentId, hsame.keyId] using hscope hlive

/-- The insert of a remember and what follows it. -/
theorem Mirrored.accepted (h : Mirrored store) {accepted : Accepted} {indexSession : Option String}
    (haccepted : acceptNew settings draws store params caller = .ok accepted)
    (hlists : (∀ f ∈ store.fragments.rows, ¬ (f.keyId = caller.keyId ∧
        f.contentHash = computeContentHash settings.digests (requestContent settings params))) →
      ∀ id ∈ params.linkedTo, Linkable store caller id) :
    Mirrored (finalizeRemember settings draws accepted.store { accepted.fragment with id := accepted.id } indexSession
      caller params) := by
  obtain ⟨caseId, hbuild, hinsert⟩ := acceptNew_spec haccepted
  obtain ⟨hkey, -, -, hlinked, hcontent⟩ := buildFragment_spec hbuild
  have hassigned : Mirrored (autoAssignCaseId draws store params caller).1 :=
    h.gains (gains_autoAssignCaseId store params caller)
  have hscopes : Persists SameScope store (autoAssignCaseId draws store params caller).1 :=
    (rewrites_autoAssignCaseId admits_sameScope store params caller).persists
  rcases upsertRow_cases hinsert with ⟨held, hheld, -, -, hid, hnext⟩ | ⟨hfree, hid, fragments, hfragments, hnext⟩
  · have hpromoted := @grows_updateFragments (autoAssignCaseId draws store params caller).1
      (fun f => decide (FragmentEntry.contentHash (prepareInsertRow settings.digests draws.now accepted.fragment).keyId
        (prepareInsertRow settings.digests draws.now accepted.fragment).contentHash ∈ f.entries))
      (promote draws.now (prepareInsertRow settings.digests draws.now accepted.fragment)) (fun _ => rfl) fun _ hlive => hlive
    rw [← hnext] at hpromoted
    have hrow : HasRow accepted.store accepted.id := hpromoted.hasRow_iff.mpr ⟨held, hheld, hid.symm⟩
    obtain ⟨ends, hends, -⟩ := @grows_finalizeRemember settings draws accepted.store
      { accepted.fragment with id := accepted.id } hrow indexSession caller params
    exact (hassigned.gains ⟨_, hpromoted⟩).gains ⟨_, hends⟩
  · have hlinkable : ∀ id ∈ params.linkedTo, Linkable (autoAssignCaseId draws store params caller).1 caller id := by
      refine fun id hmem => (hlists (fun f hf hsame => ?_) id hmem).persists hscopes
      obtain ⟨g, hg, hfg⟩ := hscopes f hf
      refine hfree g hg ⟨hfg.keyId.trans (hsame.1.trans hkey.symm), hfg.contentHash.trans (hsame.2.trans ?_)⟩
      rw [← hcontent]
      rfl
    have hinserted := hassigned.inserted hfragments fun id hmem => by
      obtain ⟨g, hg, hgid, -⟩ := hlinkable id (hlinked ▸ hmem)
      exact ⟨g, hg, hgid⟩
    rw [← hnext] at hinserted
    have hrows : accepted.store.fragments.rows = (autoAssignCaseId draws store params caller).1.fragments.rows ++
        [prepareInsertRow settings.digests draws.now accepted.fragment] := by
      rw [hnext]
      exact Table.rows_insert hfragments
    have hrow : HasRow accepted.store accepted.id := by
      refine ⟨_, ?_, hid.symm⟩
      rw [hrows]
      exact List.mem_append_right _ (List.mem_singleton.mpr rfl)
    obtain ⟨ends, hends, howned⟩ := @grows_finalizeRemember settings draws accepted.store
      { accepted.fragment with id := accepted.id } hrow indexSession caller params
    refine (hinserted.grows hends).mirrored fun a ha b hb hla hlb hpending => ?_
    obtain ⟨⟨haid, hlist⟩, hunjoined⟩ := hpending
    obtain ⟨b', hb', hbgrows⟩ := hends.covers b hb
    obtain ⟨k, hk, hkid, hscope⟩ := hlinkable b.id (hlinked ▸ hlist)
    have hk' : k ∈ accepted.store.fragments.rows := by
      rw [hrows]
      exact List.mem_append_left _ hk
    have hsame : k = b' := eq_of_id _ hk' hb' (hkid.trans hbgrows.id)
    have hklive : k.live = true := hsame ▸ hbgrows.live hlb
    have hfound : k ∈ getByIds accepted.store accepted.fragment.linkedTo caller.agentId caller.keyId [] := by
      refine List.mem_filter.mpr ⟨hk', ?_⟩
      have hcontains : accepted.fragment.linkedTo.contains k.id = true := List.contains_iff_mem.mpr (hkid ▸ hlist)
      simp only [hcontains, (hscope hklive).1, (hscope hklive).2, hklive, Bool.and_self]
    have hjoined := howned k hfound
    rw [hkid] at hjoined
    rw [haid] at hunjoined
    exact hunjoined (hid ▸ hjoined)

/-- A remember that adds a row with linkable ids keeps the mirror. -/
theorem Mirrored.remember (h : Mirrored store)
    (hlists : AddsRow settings draws store params caller → ∀ id ∈ params.linkedTo, Linkable store caller id) :
    Mirrored (remember settings draws store params caller).1 := by
  simp only [MemoryRememberer.remember]
  split
  · exact h
  · rename_i hcontent
    split
    · split <;> exact h
    · rename_i hsession
      split
      · exact h
      · rename_i hnone
        split
        · split
          · exact h
          · exact h.gains (gains_afterSearch store _ caller.keyId)
        · rename_i hdry
          split
          · exact h
          · rename_i accepted haccepted
            obtain ⟨hquota, hgate⟩ := gates_of_acceptNew haccepted
            exact h.accepted haccepted fun hfresh =>
              hlists ⟨Bool.eq_false_iff.mpr hdry, ⟨hcontent, hsession, hnone⟩, hquota, hgate, hfresh⟩

/-- What a deletion leaves: the kept rows, without the cleared ids in their arrays, and the links at no cut
id. -/
structure Removes (kept : Fragment → Bool) (cleared cut : FragmentId → Bool) (before after : Store) : Prop where
  persists : ∀ f ∈ before.fragments.rows, kept f = true → HasRow after f.id
  covers : ∀ g ∈ after.fragments.rows, ∃ f ∈ before.fragments.rows, kept f = true ∧ g.id = f.id ∧ g.live = f.live ∧
    ∀ id, id ∈ g.linkedTo ↔ id ∈ f.linkedTo ∧ cleared id = false
  links : ∀ l, l ∈ after.links.rows ↔ l ∈ before.links.rows ∧ cut l.fromId = false ∧ cut l.toId = false

/-- A deletion keeps the mirror when each kept row loses from its array just the rows whose links to it are
cut, and mentions no row that is gone. -/
theorem Mirrored.removes {kept : Fragment → Bool} {cleared cut : FragmentId → Bool} {after : Store} (h : Mirrored store)
    (hremoves : Removes kept cleared cut store after)
    (hcut : ∀ f ∈ store.fragments.rows, cut f.id = false → kept f = true)
    (hlinked : ∀ a ∈ store.fragments.rows, ∀ b ∈ store.fragments.rows, kept a = true → kept b = true →
      a.live = true → b.live = true → b.id ∈ a.linkedTo → cleared b.id = (cut a.id || cut b.id))
    (hpresent : ∀ f ∈ store.fragments.rows, kept f = true → ∀ g ∈ store.fragments.rows, g.id ∈ f.linkedTo →
      cleared g.id = false → kept g = true) : Mirrored after := by
  have hjoined : ∀ {a b}, Joined after a b ↔ Joined store a b ∧ cut a = false ∧ cut b = false := by
    intro a b
    constructor
    · rintro ⟨l, hl, hlive, ⟨rfl, rfl⟩ | ⟨rfl, rfl⟩⟩
      · obtain ⟨hold, hfrom, hto⟩ := (hremoves.links l).mp hl
        exact ⟨⟨l, hold, hlive, Or.inl ⟨rfl, rfl⟩⟩, hfrom, hto⟩
      · obtain ⟨hold, hfrom, hto⟩ := (hremoves.links l).mp hl
        exact ⟨⟨l, hold, hlive, Or.inr ⟨rfl, rfl⟩⟩, hto, hfrom⟩
    · rintro ⟨⟨l, hl, hlive, ⟨rfl, rfl⟩ | ⟨rfl, rfl⟩⟩, hfirst, hsecond⟩
      · exact ⟨l, (hremoves.links l).mpr ⟨hl, hfirst, hsecond⟩, hlive, Or.inl ⟨rfl, rfl⟩⟩
      · exact ⟨l, (hremoves.links l).mpr ⟨hl, hsecond, hfirst⟩, hlive, Or.inr ⟨rfl, rfl⟩⟩
  have hkeptRow : ∀ {id}, HasRow store id → cut id = false → HasRow after id := by
    rintro id ⟨f, hf, rfl⟩ huncut
    exact hremoves.persists f hf (hcut f hf huncut)
  refine ⟨?_, ?_, ?_, ?_⟩
  · intro a' ha' b' hb' hla hlb _ _
    obtain ⟨a, ha, hka, haid, halive, halinked⟩ := hremoves.covers a' ha'
    obtain ⟨b, hb, hkb, hbid, hblive, -⟩ := hremoves.covers b' hb'
    rw [halive] at hla
    rw [hblive] at hlb
    rw [halinked, hjoined, haid, hbid, ← h.linked a ha b hb hla hlb not_false not_false]
    refine and_congr_right fun hmem => ?_
    rw [hlinked a ha b hb hka hkb hla hlb hmem, Bool.or_eq_false_iff]
  · intro g hg id hid
    obtain ⟨f, hf, hkf, -, -, hflinked⟩ := hremoves.covers g hg
    obtain ⟨hmem, huncleared⟩ := (hflinked id).mp hid
    obtain ⟨k, hk, rfl⟩ := h.present f hf id hmem
    exact hremoves.persists k hk (hpresent f hf hkf k hk hmem huncleared)
  · intro l hl a' ha' b' hb' hla hlb hfrom hto
    obtain ⟨hold, hcutFrom, hcutTo⟩ := (hremoves.links l).mp hl
    obtain ⟨a, ha, -, haid, halive, -⟩ := hremoves.covers a' ha'
    obtain ⟨b, hb, -, hbid, hblive, -⟩ := hremoves.covers b' hb'
    rw [halive] at hla
    rw [hblive] at hlb
    have hbefore := h.paired l hold a ha b hb hla hlb (haid ▸ hfrom) (hbid ▸ hto)
    rw [hjoined, haid, hbid]
    rw [haid] at hfrom
    rw [hbid] at hto
    exact ⟨hbefore, hfrom ▸ hcutFrom, hto ▸ hcutTo⟩
  · intro l hl
    obtain ⟨hold, hcutFrom, hcutTo⟩ := (hremoves.links l).mp hl
    exact ⟨hkeptRow (h.ends l hold).1 hcutFrom, hkeptRow (h.ends l hold).2 hcutTo⟩

/-- `DELETE FROM fragments`: the arrays stay as they are. -/
theorem removes_deleteFragments (store : Store) (cond : Fragment → Bool) :
    Removes (fun f => !cond f) (fun _ => false)
      (fun id => ((store.fragments.rows.filter cond).map Fragment.id).contains id) store (store.deleteFragments cond) where
  persists f hf hkept := ⟨f, (Table.mem_delete_iff _).mpr ⟨hf, (Bool.not_eq_true' _).mp hkept⟩, rfl⟩
  covers g hg := by
    obtain ⟨hrow, hcond⟩ := (Table.mem_delete_iff _).mp hg
    exact ⟨g, hrow, (Bool.not_eq_true' _).mpr hcond, rfl, rfl, fun id => (and_iff_left rfl).symm⟩
  links l := by
    simp only [Store.deleteFragments, Table.mem_delete_iff, Bool.or_eq_false_iff]

/-- `deleteMany` clears every listed id, also those whose rows it leaves to their keys. -/
theorem removes_deleteMany (store : Store) (ids : List FragmentId) (keyId : Option KeyId) :
    Removes (fun f => !(ids.contains f.id && ownedBy keyId f)) ids.contains ids.contains store
      (deleteMany store ids keyId).1 := by
  have hrow : ∀ (f : Fragment), (if f.linkedTo.any ids.contains then (unlinked ids).set f else f).id = f.id ∧
      (if f.linkedTo.any ids.contains then (unlinked ids).set f else f).live = f.live ∧
      ownedBy keyId (if f.linkedTo.any ids.contains then (unlinked ids).set f else f) = ownedBy keyId f ∧
      ∀ id, id ∈ (if f.linkedTo.any ids.contains then (unlinked ids).set f else f).linkedTo ↔
        id ∈ f.linkedTo ∧ ids.contains id = false := by
    intro f
    by_cases hany : f.linkedTo.any ids.contains
    · rw [if_pos hany]
      refine ⟨rfl, rfl, rfl, fun id => ?_⟩
      simp only [unlinked, List.mem_filter, Bool.not_eq_true']
    · rw [if_neg hany]
      refine ⟨rfl, rfl, rfl, fun id => (and_iff_left_of_imp fun hmem => ?_).symm⟩
      exact Bool.eq_false_iff.mpr fun hlisted => hany (List.any_eq_true.mpr ⟨id, hmem, hlisted⟩)
  refine ⟨fun f hf hkept => ?_, fun g hg => ?_, fun l => ?_⟩
  · refine ⟨_, (Table.mem_delete_iff _).mpr ⟨updated_mem_updateFragments hf _ _, ?_⟩, (hrow f).1⟩
    rw [(hrow f).1, (hrow f).2.2.1]
    exact (Bool.not_eq_true' _).mp hkept
  · obtain ⟨hmem, hcond⟩ := (Table.mem_delete_iff _).mp hg
    obtain ⟨f, hf, rfl⟩ := (mem_updateFragments_iff _).mp hmem
    rw [(hrow f).1, (hrow f).2.2.1] at hcond
    exact ⟨f, hf, (Bool.not_eq_true' _).mpr hcond, (hrow f).1, (hrow f).2.1, (hrow f).2.2.2⟩
  · have htouches : ids.any l.touches = false ↔ ids.contains l.fromId = false ∧ ids.contains l.toId = false := by
      have hnot : ∀ id, ids.contains id = false ↔ id ∉ ids := fun id => by
        rw [← Bool.not_eq_true, List.contains_iff_mem]
      simp only [List.any_eq_false, Link.touches, Bool.or_eq_true, decide_eq_true_eq, not_or]
      rw [hnot, hnot]
      exact ⟨fun h => ⟨fun hmem => (h _ hmem).1 rfl, fun hmem => (h _ hmem).2 rfl⟩,
        fun h id hid => ⟨fun hsame => h.1 (hsame ▸ hid), fun hsame => h.2 (hsame ▸ hid)⟩⟩
    refine (Table.mem_delete_iff _).trans ((and_congr_left' ((Table.mem_delete_iff store.links).trans
      (and_congr_right' htouches))).trans (and_iff_left_of_imp fun h => ?_))
    have hgone : ∀ {rows : List Fragment} {id : FragmentId}, ids.contains id = false →
        ((rows.filter fun f => ids.contains f.id && ownedBy keyId f).map Fragment.id).contains id = false := by
      intro rows id hid
      refine Bool.eq_false_iff.mpr fun hcontains => ?_
      obtain ⟨f, hf, rfl⟩ := List.mem_map.mp (List.contains_iff_mem.mp hcontains)
      have hlisted := (List.mem_filter.mp hf).2
      rw [hid, Bool.false_and] at hlisted
      cases hlisted
    rw [hgone h.2.1, hgone h.2.2, Bool.or_self]

theorem removeRows_eq_deleteMany (store : Store) (ids : List FragmentId) :
    removeRows store ids = (deleteMany store ids none).1 := by
  have hcond : (fun f : Fragment => ids.contains f.id) = fun f => ids.contains f.id && ownedBy none f := by
    funext f
    rw [ownedBy, Option.isNone_none, Bool.true_or, Bool.and_true]
  simp only [removeRows, deleteMany, ← hcond]

/-- The condition of `deleteMany`: no live row of another key on the list mentions a live row off it. -/
def ForeignListed (store : Store) (ids : List FragmentId) (keyId : Option KeyId) : Prop :=
  ∀ a ∈ store.fragments.rows, a.id ∈ ids → ownedBy keyId a = false → a.live = true →
    ∀ b ∈ store.fragments.rows, b.live = true → b.id ∈ a.linkedTo → b.id ∈ ids

theorem Mirrored.deleteMany (h : Mirrored store) {ids : List FragmentId} {keyId : Option KeyId}
    (hforeign : ForeignListed store ids keyId) : Mirrored (deleteMany store ids keyId).1 := by
  refine h.removes (removes_deleteMany store ids keyId) ?_ ?_ ?_
  · intro f _ huncut
    simp only [huncut, Bool.false_and, Bool.not_false]
  · intro a ha b hb hka _ hla hlb hmem
    cases hlisted : ids.contains a.id with
    | false => rfl
    | true =>
      simp only [hlisted, Bool.true_and, Bool.not_eq_true'] at hka
      rw [Bool.true_or]
      exact List.contains_iff_mem.mpr (hforeign a ha (List.contains_iff_mem.mp hlisted) hka hla b hb hlb hmem)
  · intro f _ _ g _ _ huncleared
    simp only [huncleared, Bool.false_and, Bool.not_false]

/-- The deletions of whole rows clear and cut what they remove. -/
theorem Mirrored.removeRows (h : Mirrored store) (ids : List FragmentId) : Mirrored (removeRows store ids) := by
  rw [removeRows_eq_deleteMany]
  exact h.deleteMany fun a _ _ hforeign => Bool.noConfusion hforeign

/-- The condition of the garbage collection: no row that stays mentions one that goes. -/
def NoneMentioned (store : Store) (gone : List FragmentId) : Prop :=
  ∀ f ∈ store.fragments.rows, f.id ∉ gone → ∀ id ∈ f.linkedTo, id ∉ gone

theorem Mirrored.deleteExpired (h : Mirrored store) {policy : GcPolicy} {now : Time} {utilityScore : FragmentId → ℚ}
    (hmentioned : NoneMentioned store ((gcCandidates policy now utilityScore store).map Fragment.id)) :
    Mirrored (deleteExpired policy now utilityScore store) := by
  have hkept : ∀ f : Fragment, (!((gcCandidates policy now utilityScore store).map Fragment.id).contains f.id) = true ↔
      f.id ∉ (gcCandidates policy now utilityScore store).map Fragment.id := fun f => by
    rw [Bool.not_eq_true', ← Bool.not_eq_true, List.contains_iff_mem]
  have huncut : ∀ f ∈ store.fragments.rows, f.id ∉ (gcCandidates policy now utilityScore store).map Fragment.id →
      (((store.fragments.rows.filter fun g => ((gcCandidates policy now utilityScore store).map
        Fragment.id).contains g.id).map Fragment.id).contains f.id) = false := by
    refine fun f _ hstays => Bool.eq_false_iff.mpr fun hcut => ?_
    obtain ⟨g, hg, hid⟩ := List.mem_map.mp (List.contains_iff_mem.mp hcut)
    exact hstays (hid ▸ List.contains_iff_mem.mp (List.mem_filter.mp hg).2)
  refine h.removes (removes_deleteFragments store _) ?_ ?_ ?_
  · intro f hf hcut
    refine (hkept f).mpr fun hgone => ?_
    have hmem : f ∈ store.fragments.rows.filter fun g =>
        ((gcCandidates policy now utilityScore store).map Fragment.id).contains g.id :=
      List.mem_filter.mpr ⟨hf, List.contains_iff_mem.mpr hgone⟩
    rw [List.contains_iff_mem.mpr (List.mem_map_of_mem hmem)] at hcut
    cases hcut
  · intro a ha b hb hka hkb _ _ _
    rw [huncut a ha ((hkept a).mp hka), huncut b hb ((hkept b).mp hkb), Bool.or_self]
  · intro f hf hkf g _ hmem _
    exact (hkept g).mpr (hmentioned f hf ((hkept f).mp hkf) g.id hmem)

theorem gains_linkRequest (store : Store) (params : LinkParams) (caller : Caller) :
    Gains store (link settings draws store params caller) := by
  simp only [link]
  split
  · split
    · exact Gains.refl store
    · split
      · exact Gains.refl store
      · rename_i linked hcreate
        have hlinked : Gains store linked := ⟨_, grows_createLink hcreate⟩
        split
        · exact hlinked.trans (gains_update _ _ _ _ _ _ _)
        · exact hlinked
  · exact Gains.refl store

theorem gains_createLinks (store : Store) (pairs : List LinkPair) :
    Gains store ((createLinks store pairs).getD store) := by
  cases hcreate : createLinks store pairs with
  | none => exact Gains.refl store
  | some next => exact ⟨_, grows_createLinks hcreate⟩

/-- The condition of a co-retrieval: live rows of its pairs are already joined. -/
def AlreadyJoined (store : Store) (ends : Ends) : Prop :=
  ∀ pair ∈ ends, ∀ a ∈ store.fragments.rows, ∀ b ∈ store.fragments.rows, a.live = true → b.live = true →
    a.id = pair.1 → b.id = pair.2 → Joined store a.id b.id

/-- A pair that is already joined may get another link. -/
theorem Mirrored.coRetrieve (h : Mirrored store) {pair : FragmentId × FragmentId}
    (hjoined : AlreadyJoined store [pair]) :
    Mirrored (coRetrieve store pair) ∧ (coRetrieve store pair).fragments = store.fragments ∧
      ∀ {a b}, Joined store a b → Joined (coRetrieve store pair) a b := by
  simp only [GraphLinker.coRetrieve]
  split
  · rename_i hends
    simp only [Bool.and_eq_true, Option.isSome_iff_exists] at hends
    obtain ⟨⟨f, hf⟩, ⟨g, hg⟩⟩ := hends
    have hpresent : HasRow store pair.1 ∧ HasRow store pair.2 :=
      ⟨⟨f, (byId_eq_some_iff _).mp hf⟩, ⟨g, (byId_eq_some_iff _).mp hg⟩⟩
    cases hlinks : store.links.upsert pair { fromId := pair.1, toId := pair.2, relationType := .coRetrieved }
        (fun l => { l with weight := l.weight + 1 }) fun _ => rfl with
    | none => exact ⟨h, rfl, fun hold => hold⟩
    | some links =>
      have hgrows := @LinksGrow.of_upsert store.links links
        { fromId := pair.1, toId := pair.2, relationType := .coRetrieved } (fun l => { l with weight := l.weight + 1 })
        (fun _ => rfl) (fun _ => rfl) rfl hlinks
      have hkept : ∀ {a b}, Joined store a b → Joined { store with links := links } a b := by
        rintro a b ⟨l, hl, hlive, hmends⟩
        obtain ⟨m, hm, hsame⟩ := hgrows.kept l hl
        exact ⟨m, hm, hsame.deletedAt.trans hlive, by rwa [hsame.fromId, hsame.toId]⟩
      refine ⟨⟨?_, h.present, ?_, ?_⟩, rfl, hkept⟩
      · intro a ha b hb hla hlb _ _
        refine (h.linked a ha b hb hla hlb not_false not_false).trans ⟨hkept, ?_⟩
        rintro ⟨m, hm, hlive, hmends⟩
        rcases hgrows.origin m hm with ⟨l, hl, hsame⟩ | ⟨hnew, -⟩
        · exact ⟨l, hl, hsame.deletedAt.symm.trans hlive, by rwa [hsame.fromId, hsame.toId] at hmends⟩
        · have hpair : (m.fromId, m.toId) = pair := List.mem_singleton.mp hnew
          rw [← hpair] at hjoined
          rcases hmends with ⟨hfrom, hto⟩ | ⟨hfrom, hto⟩
          · exact hjoined _ (List.mem_singleton.mpr rfl) a ha b hb hla hlb hfrom.symm hto.symm
          · exact (hjoined _ (List.mem_singleton.mpr rfl) b hb a ha hlb hla hfrom.symm hto.symm).symm
      · intro m hm a ha b hb hla hlb hfrom hto
        rcases hgrows.origin m hm with ⟨l, hl, hsame⟩ | ⟨-, hlive⟩
        · exact hkept (h.paired l hl a ha b hb hla hlb (hfrom.trans hsame.fromId) (hto.trans hsame.toId))
        · exact ⟨m, hm, hlive, Or.inl ⟨hfrom.symm, hto.symm⟩⟩
      · intro m hm
        rcases hgrows.origin m hm with ⟨l, hl, hsame⟩ | ⟨hnew, -⟩
        · rw [hsame.fromId, hsame.toId]
          exact h.ends l hl
        · have hpair : (m.fromId, m.toId) = pair := List.mem_singleton.mp hnew
          rw [← hpair] at hpresent
          exact hpresent
  · exact ⟨h, rfl, fun hold => hold⟩

theorem Mirrored.coRetrieveAll (h : Mirrored store) {ends : Ends} (hjoined : AlreadyJoined store ends) :
    Mirrored (ends.foldl GraphLinker.coRetrieve store) := by
  induction ends generalizing store with
  | nil => exact h
  | cons pair later ih =>
    have hpair : AlreadyJoined store [pair] := fun other hother =>
      hjoined other (List.mem_cons.mpr (Or.inl (List.mem_singleton.mp hother)))
    obtain ⟨hnext, hfragments, hkept⟩ := h.coRetrieve hpair
    refine ih hnext fun other hother a ha b hb hla hlb hfirst hsecond => hkept ?_
    rw [hfragments] at ha hb
    exact hjoined other (List.mem_cons_of_mem _ hother) a ha b hb hla hlb hfirst hsecond

/-- The condition of a reconsolidation: a link that it deletes between live rows leaves one in the other
direction. -/
def LeavesReverse (store : Store) (ends : FragmentId × FragmentId) (action : ReconsolidateAction) : Prop :=
  action = .softDelete → ∀ l ∈ store.links.rows, l.deletedAt = none → (l.fromId, l.toId) = ends →
    ∀ a ∈ store.fragments.rows, ∀ b ∈ store.fragments.rows, a.live = true → b.live = true →
      a.id = l.fromId → b.id = l.toId →
        l.fromId ≠ l.toId ∧ ∃ m ∈ store.links.rows, m.deletedAt = none ∧ m.fromId = l.toId ∧ m.toId = l.fromId

/-- `reconsolidate` of the link with the given ends. -/
def reconsolidateLink (store : Store) (ends : FragmentId × FragmentId) (action : ReconsolidateAction) (now : Time)
    (recentlyDecayed : FragmentId × FragmentId → Bool) : Store :=
  reconsolidateLinks store action now recentlyDecayed fun l => (l.fromId, l.toId) = ends

/-- A link after the soft deletion of those with the given ends. -/
theorem softDeleted_row (ends : FragmentId × FragmentId) (now : Time) (recentlyDecayed : FragmentId × FragmentId → Bool)
    (l : Link) :
    ∃ m, (if decide ((l.fromId, l.toId) = ends) && l.deletedAt.isNone &&
        !(ReconsolidateAction.softDelete.limited && recentlyDecayed (l.fromId, l.toId)) then
          reconsolidated .softDelete now l else l) = m ∧
      m.fromId = l.fromId ∧ m.toId = l.toId ∧ (m.deletedAt = none ↔ l.deletedAt = none ∧
        (l.fromId, l.toId) ≠ ends) := by
  refine ⟨_, rfl, ?_⟩
  by_cases hends : (l.fromId, l.toId) = ends
  · cases hdeleted : l.deletedAt with
    | none => simp [hends, ReconsolidateAction.limited, reconsolidated]
    | some time => simp [hends, hdeleted]
  · simp [hends]

theorem Mirrored.reconsolidate (h : Mirrored store) {ends : FragmentId × FragmentId} {action : ReconsolidateAction}
    {now : Time} {recentlyDecayed : FragmentId × FragmentId → Bool} (hleaves : LeavesReverse store ends action) :
    Mirrored (reconsolidateLink store ends action now recentlyDecayed) := by
  by_cases haction : action = .softDelete
  · subst haction
    have hkept : ∀ {l}, l ∈ store.links.rows → l.deletedAt = none → (l.fromId, l.toId) ≠ ends →
        Joined (reconsolidateLink store ends .softDelete now recentlyDecayed) l.fromId l.toId := by
      intro l hl hlive hother
      obtain ⟨m, hm, hfrom, hto, hdeleted⟩ := softDeleted_row ends now recentlyDecayed l
      exact ⟨m, List.mem_map.mpr ⟨l, hl, hm⟩, hdeleted.mpr ⟨hlive, hother⟩, Or.inl ⟨hfrom, hto⟩⟩
    have hback : ∀ {l}, l ∈ store.links.rows → l.deletedAt = none → ∀ a ∈ store.fragments.rows,
        ∀ b ∈ store.fragments.rows, a.live = true → b.live = true → l.fromId = a.id → l.toId = b.id →
        Joined (reconsolidateLink store ends .softDelete now recentlyDecayed) a.id b.id := by
      intro l hl hlive a ha b hb hla hlb hfrom hto
      by_cases hends : (l.fromId, l.toId) = ends
      · obtain ⟨hne, m, hm, hmlive, hmfrom, hmto⟩ := hleaves rfl l hl hlive hends a ha b hb hla hlb hfrom.symm hto.symm
        have hother : (m.fromId, m.toId) ≠ ends := by
          rw [hmfrom, hmto, ← hends]
          exact fun hsame => hne (Prod.mk.inj hsame).2
        have hjoined := hkept hm hmlive hother
        rw [hmfrom, hmto, hfrom, hto] at hjoined
        exact hjoined.symm
      · have hjoined := hkept hl hlive hends
        rwa [hfrom, hto] at hjoined
    have hjoined : ∀ a ∈ store.fragments.rows, ∀ b ∈ store.fragments.rows, a.live = true → b.live = true →
        (Joined store a.id b.id ↔ Joined (reconsolidateLink store ends .softDelete now recentlyDecayed) a.id b.id) := by
      intro a ha b hb hla hlb
      constructor
      · rintro ⟨l, hl, hlive, ⟨hfrom, hto⟩ | ⟨hfrom, hto⟩⟩
        · exact hback hl hlive a ha b hb hla hlb hfrom hto
        · exact (hback hl hlive b hb a ha hlb hla hfrom hto).symm
      · rintro ⟨m, hm, hlive, hends⟩
        obtain ⟨l, hl, hlm⟩ := List.mem_map.mp hm
        obtain ⟨m', hm', hfrom, hto, hdeleted⟩ := softDeleted_row ends now recentlyDecayed l
        rw [hm'] at hlm
        subst hlm
        rw [hfrom, hto] at hends
        exact ⟨l, hl, (hdeleted.mp hlive).1, hends⟩
    refine ⟨?_, h.present, ?_, ?_⟩
    · intro a ha b hb hla hlb _ _
      exact (h.linked a ha b hb hla hlb not_false not_false).trans (hjoined a ha b hb hla hlb)
    · intro m hm a ha b hb hla hlb hfrom hto
      obtain ⟨l, hl, hlm⟩ := List.mem_map.mp hm
      obtain ⟨m', hm', hmfrom, hmto, -⟩ := softDeleted_row ends now recentlyDecayed l
      rw [hm'] at hlm
      subst hlm
      exact (hjoined a ha b hb hla hlb).mp
        (h.paired l hl a ha b hb hla hlb (hfrom.trans hmfrom) (hto.trans hmto))
    · intro m hm
      obtain ⟨l, hl, hlm⟩ := List.mem_map.mp hm
      obtain ⟨m', hm', hmfrom, hmto, -⟩ := softDeleted_row ends now recentlyDecayed l
      rw [hm'] at hlm
      subst hlm
      rw [hmfrom, hmto]
      exact h.ends l hl
  · exact h.gains (gains_reconsolidateLinks store haction now recentlyDecayed _)

/-- The operations that write links, arrays or rows. -/
inductive LinkOperation
  | remember (settings : Settings) (draws : Draws) (params : RememberParams) (caller : Caller)
  | link (settings : Settings) (draws : Draws) (params : LinkParams) (caller : Caller)
  | createLink (fromId toId : FragmentId) (relationType : RelationType) (weight : ℚ)
  | createLinks (pairs : List LinkPair)
  | coRetrieve (fragmentIds : List FragmentId)
  | reconsolidate (ends : FragmentId × FragmentId) (action : ReconsolidateAction) (now : Time)
      (recentlyDecayed : FragmentId × FragmentId → Bool)
  | delete (id : FragmentId) (keyId : Option KeyId)
  | deleteMany (ids : List FragmentId) (keyId : Option KeyId)
  | deleteByTopic (topic agentId : String) (keyId : Option KeyId) (force : Bool)
  | deleteExpired (policy : GcPolicy) (now : Time) (utilityScore : FragmentId → ℚ)

/-- The store after an operation; one that throws leaves it as it was. -/
def linkStep (store : Store) : LinkOperation → Store
  | .remember settings draws params caller => (remember settings draws store params caller).1
  | .link settings draws params caller => link settings draws store params caller
  | .createLink fromId toId relationType weight => tryLink store fromId toId relationType weight
  | .createLinks pairs => (createLinks store pairs).getD store
  | .coRetrieve fragmentIds => buildCoRetrievalLinks store fragmentIds
  | .reconsolidate ends action now recentlyDecayed => reconsolidateLink store ends action now recentlyDecayed
  | .delete id keyId => (delete store id keyId).1
  | .deleteMany ids keyId => (deleteMany store ids keyId).1
  | .deleteByTopic topic agentId keyId force => (deleteByTopic store topic agentId keyId force).1
  | .deleteExpired policy now utilityScore => deleteExpired policy now utilityScore store

/-- What an operation asks of the store before it: a remember that adds a row lists only rows that it may
link, a co-retrieval only strengthens links, a soft deletion leaves the reverse link, the listed rows of
other keys mention no others, and no array mentions a collected row. -/
def KeepsMirror (store : Store) : LinkOperation → Prop
  | .remember settings draws params caller =>
    AddsRow settings draws store params caller → ∀ id ∈ params.linkedTo, Linkable store caller id
  | .coRetrieve fragmentIds => AlreadyJoined store (orderedPairs (fragmentIds.take 5))
  | .reconsolidate ends action _ _ => LeavesReverse store ends action
  | .deleteMany ids keyId => ForeignListed store ids keyId
  | .deleteExpired policy now utilityScore =>
    NoneMentioned store ((gcCandidates policy now utilityScore store).map Fragment.id)
  | .link _ _ _ _ | .createLink _ _ _ _ | .createLinks _ | .delete _ _ | .deleteByTopic _ _ _ _ => True

theorem mirrored_linkStep {operation : LinkOperation} (h : Mirrored store) (hkeeps : KeepsMirror store operation) :
    Mirrored (linkStep store operation) := by
  cases operation with
  | remember settings draws params caller => exact h.remember hkeeps
  | link settings draws params caller => exact h.gains (gains_linkRequest store params caller)
  | createLink fromId toId relationType weight => exact h.gains (gains_tryLink store fromId toId relationType weight)
  | createLinks pairs => exact h.gains (gains_createLinks store pairs)
  | coRetrieve fragmentIds => exact h.coRetrieveAll hkeeps
  | reconsolidate ends action now recentlyDecayed => exact h.reconsolidate hkeeps
  | delete id keyId =>
    simp only [linkStep, delete]
    split
    · exact h
    · exact h.removeRows [id]
  | deleteMany ids keyId => exact h.deleteMany hkeeps
  | deleteByTopic topic agentId keyId force => exact h.removeRows _
  | deleteExpired policy now utilityScore => exact h.deleteExpired hkeeps

/-- In every run whose operations meet their conditions the arrays mirror the links, in every state. -/
theorem linkedTo_mirrors_links {operations : List LinkOperation}
    (h : StepsMeet linkStep KeepsMirror {} operations) (earlier : List LinkOperation) (hearlier : earlier <+: operations) :
    Mirrors (run linkStep {} earlier) := by
  have hmirrored : Mirrored (run linkStep {} earlier) :=
    invariant_throughout (fun state operation => mirrored_linkStep) mirrored_empty h hearlier
  exact hmirrored.mirrors

instance (store : Store) (a b : FragmentId) : Decidable (Joined store a b) :=
  inferInstanceAs (Decidable (∃ l ∈ store.links.rows, _ ∧ _))

instance (store : Store) (id : FragmentId) : Decidable (HasRow store id) :=
  inferInstanceAs (Decidable (∃ f ∈ store.fragments.rows, f.id = id))

instance (store : Store) : Decidable (Mirrors store) :=
  decidable_of_iff
    ((∀ a ∈ store.fragments.rows, ∀ b ∈ store.fragments.rows, a.live = true → b.live = true →
        (b.id ∈ a.linkedTo ↔ a.id ∈ b.linkedTo)) ∧
      (∀ a ∈ store.fragments.rows, ∀ b ∈ store.fragments.rows, a.live = true → b.live = true →
        (b.id ∈ a.linkedTo ↔ Joined store a.id b.id)) ∧
      ∀ f ∈ store.fragments.rows, ∀ id ∈ f.linkedTo, HasRow store id)
    ⟨fun h => ⟨h.1, h.2.1, h.2.2⟩, fun h => ⟨h.symmetric, h.linked, h.present⟩⟩

/-- The sample content, remembered first. -/
def firstRemembered : LinkOperation :=
  .remember sampleSettings (sampleDraws 1 "frag-01") (sampleParams sampleContent []) sampleCaller

/-- The second content of the same topic, which names the first row. -/
def secondLinked : LinkOperation :=
  .remember sampleSettings (sampleDraws 2 "frag-02")
    { sampleParams replacementContent [] with linkedTo := ["frag-01"] } sampleCaller

/-- Two linked rows are retrieved together, one of them is deleted and nothing else is collected. -/
def linkedRun : List LinkOperation :=
  [firstRemembered, secondLinked, .coRetrieve ["frag-01", "frag-02"], .deleteMany ["frag-02"] (some sampleKey),
    .deleteExpired {} 5 fun _ => 1]

theorem linkedRun_mirrors : StepsMeet linkStep KeepsMirror {} linkedRun ∧ Mirrors (run linkStep {} linkedRun) := by
  have hmeets : StepsMeet linkStep KeepsMirror {} linkedRun := by
    refine ⟨fun _ id hid => ?_, fun _ id hid => ?_, ?_, ?_, ?_, trivial⟩
    · cases hid
    · rw [List.mem_singleton.mp hid]
      exact (by decide +kernel : ∃ g ∈ (linkStep {} firstRemembered).fragments.rows, g.id = "frag-01" ∧
        (g.live = true → agentScope sampleCaller.agentId g = true ∧ keyScope sampleCaller.keyId [] g = true))
    · simp only [KeepsMirror, AlreadyJoined]
      decide +kernel
    · simp only [KeepsMirror, ForeignListed]
      decide +kernel
    · simp only [KeepsMirror, NoneMentioned]
      decide +kernel
  exact ⟨hmeets, linkedTo_mirrors_links hmeets linkedRun (List.prefix_refl _)⟩

/-- A row of another topic is not linked with the first one. -/
def secondApart : LinkOperation :=
  .remember sampleSettings (sampleDraws 2 "frag-02") { sampleParams replacementContent [] with topic := some "access" }
    sampleCaller

/-- Arrays that do not mirror the links: after a co-retrieval of unlinked rows, after a remember that lists an id
without a row, after a soft deletion, after a deletion in the name of another key, and after a collection. -/
theorem arrays_drift :
    ¬ Mirrors (run linkStep {} [firstRemembered, secondApart, .coRetrieve ["frag-01", "frag-02"]]) ∧
      ¬ Mirrors (run linkStep {} [.remember sampleSettings (sampleDraws 1 "frag-01")
        { sampleParams sampleContent [] with linkedTo := ["frag-09"] } sampleCaller]) ∧
      ¬ Mirrors (run linkStep {} [firstRemembered, secondLinked,
        .reconsolidate ("frag-02", "frag-01") .softDelete 3 fun _ => false]) ∧
      ¬ Mirrors (run linkStep {} [firstRemembered, secondLinked, .deleteMany ["frag-01"] (some peerKey)]) ∧
      ¬ Mirrors (run linkStep {} [firstRemembered, secondLinked,
        .deleteExpired {} (100 * dayMs) fun id => if id = "frag-01" then 0 else 1]) := by
  decide +kernel

end FragmentMemory.LinkMirror
