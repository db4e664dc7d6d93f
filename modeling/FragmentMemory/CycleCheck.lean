import FragmentMemory.EdgeInsertion
import FragmentMemory.LinkMirror
import FragmentMemory.SessionLinker

/-! # The cycle check

`wouldCreateCycle` asks whether the `linked_to` arrays lead from one end of a new link to the other.  Here is
what that says about the directed links: in every state of a run, when the check is exact, and when the links of
a session close a cycle although each of them has passed it.
-/
namespace FragmentMemory.CycleCheck
open ApiKeyStore FragmentTables FragmentFactory FragmentWriter LinkStore LinkWrites SessionLinker EdgeInsertion
  MemoryRememberer RememberLiveness LinkMirror ContentUniqueness TransitionRuns UniqueIndexTable
open Relation (TransGen ReflTransGen)

/-- A row that the key owns. -/
def Owned (store : Store) (keyId : Option KeyId) (id : FragmentId) : Prop :=
  ∃ f ∈ store.fragments.rows, f.id = id ∧ ownedBy keyId f = true

def Linked (store : Store) (a b : FragmentId) : Prop :=
  ∃ l ∈ store.links.rows, l.deletedAt = none ∧ l.fromId = a ∧ l.toId = b

/-- A directed path of links. -/
def DirectedPath (store : Store) : FragmentId → FragmentId → Prop := TransGen (Linked store)

/-- A link by which one fragment is the cause or the solution of another. -/
def CausallyLinked (store : Store) (a b : FragmentId) : Prop :=
  ∃ l ∈ store.links.rows, l.deletedAt = none ∧ l.fromId = a ∧ l.toId = b ∧
    (l.relationType = .causedBy ∨ l.relationType = .resolvedBy)

/-- A walk along the arrays of live rows.  The first row may belong to any key, the others to the given one. -/
inductive ArrayWalk (store : Store) (keyId : Option KeyId) (start : FragmentId) : ℕ → FragmentId → Prop
  | first {b : FragmentId} (h : b ∈ linkedArray store none start) : ArrayWalk store keyId start 1 b
  | next {hops : ℕ} {a b : FragmentId} (h : ArrayWalk store keyId start hops a) (hb : b ∈ linkedArray store keyId a) :
    ArrayWalk store keyId start (hops + 1) b

section Check
variable (store : Store) (keyId : Option KeyId)

/-- The check finds exactly the directed paths back. -/
def ExactCheck : Prop :=
  ∀ fromId toId, Owned store keyId fromId → Owned store keyId toId →
    (wouldCreateCycle store fromId toId keyId = true ↔ DirectedPath store toId fromId)

/-- A link without a directed path back passes the check. -/
def NoneRefused : Prop :=
  ∀ fromId toId, Owned store keyId fromId → Owned store keyId toId → ¬ DirectedPath store toId fromId →
    wouldCreateCycle store fromId toId keyId = false

/-- What the array of a live row mentions, the links lead to. -/
def MentionsFollowLinks : Prop :=
  ∀ a ∈ store.fragments.rows, a.live = true → ownedBy keyId a = true →
    ∀ id ∈ a.linkedTo, Owned store keyId id → DirectedPath store a.id id

/-- Where the links lead, the arrays lead in at most twenty hops. -/
def LinksFollowMentions : Prop :=
  ∀ a b, Owned store keyId a → Owned store keyId b → DirectedPath store a b →
    ∃ hops, hops ≤ 20 ∧ ArrayWalk store keyId a hops b

end Check

variable {store : Store} {keyId : Option KeyId}

theorem mem_linkedArray {id other : FragmentId} (h : other ∈ linkedArray store keyId id) :
    ∃ f ∈ store.fragments.rows, f.id = id ∧ f.live = true ∧ ownedBy keyId f = true ∧ other ∈ f.linkedTo := by
  simp only [linkedArray] at h
  cases hfound : (store.fragments.byId id).filter fun f => f.live && ownedBy keyId f with
  | none =>
    rw [hfound] at h
    cases h
  | some f =>
    rw [hfound] at h
    obtain ⟨hbyId, hcond⟩ := Option.filter_eq_some_iff.mp hfound
    obtain ⟨hf, hid⟩ := (byId_eq_some_iff _).mp hbyId
    rw [Bool.and_eq_true] at hcond
    exact ⟨f, hf, hid, hcond.1, hcond.2, h⟩

theorem linkedArray_of_mem {f : Fragment} (hf : f ∈ store.fragments.rows) (hlive : f.live = true)
    (howned : ownedBy keyId f = true) : linkedArray store keyId f.id = f.linkedTo := by
  have hbyId := (byId_eq_some_iff _).mpr ⟨hf, rfl⟩
  simp only [linkedArray, hbyId, Option.filter_some, hlive, howned, Bool.and_self, if_true, Option.elim_some]

/-- The rows that the query finds at a depth are reached by walks of that length. -/
theorem walk_of_mem_reachableAt {start target id : FragmentId} {depth : ℕ}
    (h : id ∈ reachableAt store start target keyId depth) : ArrayWalk store keyId start (depth + 1) id := by
  induction depth generalizing id with
  | zero => exact ArrayWalk.first (List.mem_dedup.mp h)
  | succ depth ih =>
    obtain ⟨a, ha, hid⟩ := List.mem_flatMap.mp (List.mem_dedup.mp h)
    exact ArrayWalk.next (ih (List.mem_filter.mp ha).1) hid

theorem one_le_of_walk {start id : FragmentId} {hops : ℕ} (h : ArrayWalk store keyId start hops id) : 1 ≤ hops := by
  cases h with
  | first => exact le_refl 1
  | next => exact Nat.le_add_left 1 _

/-- A walk that does not pass the target is found. -/
theorem mem_reachableAt_of_walk {start target id : FragmentId} {hops : ℕ} (h : ArrayWalk store keyId start hops id)
    (hbefore : ∀ fewer < hops, ¬ ArrayWalk store keyId start fewer target) :
    id ∈ reachableAt store start target keyId (hops - 1) := by
  induction h with
  | first hb => exact List.mem_dedup.mpr hb
  | @next hops a b hwalk hb ih =>
    have hfound := ih fun fewer hfewer => hbefore fewer (Nat.lt_succ_of_lt hfewer)
    have hother : a ≠ target := fun hsame => hbefore hops (Nat.lt_succ_self hops) (hsame ▸ hwalk)
    have hdepth : hops + 1 - 1 = (hops - 1) + 1 := by
      have hpos := one_le_of_walk hwalk
      omega
    rw [hdepth]
    refine List.mem_dedup.mpr (List.mem_flatMap.mpr ⟨a, List.mem_filter.mpr ⟨hfound, ?_⟩, hb⟩)
    exact decide_eq_true hother

/-- The query answers whether a walk of at most twenty hops leads to the target. -/
theorem isReachable_iff {start target : FragmentId} :
    isReachable store start target keyId = true ↔ ∃ hops, hops ≤ 20 ∧ ArrayWalk store keyId start hops target := by
  simp only [isReachable, List.any_eq_true, List.mem_range, List.contains_iff_mem]
  constructor
  · rintro ⟨depth, hdepth, hfound⟩
    exact ⟨depth + 1, hdepth, walk_of_mem_reachableAt hfound⟩
  · intro h
    classical
    obtain ⟨hbound, hwalk⟩ := Nat.find_spec h
    have hpos := one_le_of_walk hwalk
    refine ⟨Nat.find h - 1, by omega, mem_reachableAt_of_walk hwalk fun fewer hfewer hshorter => ?_⟩
    exact Nat.find_min h hfewer ⟨by omega, hshorter⟩

/-- A walk between rows of the key follows the links when each mention does. -/
theorem MentionsFollowLinks.path (h : MentionsFollowLinks store keyId) {a b : FragmentId} {hops : ℕ}
    (ha : Owned store keyId a) (hb : Owned store keyId b) (hwalk : ArrayWalk store keyId a hops b) :
    DirectedPath store a b := by
  induction hwalk with
  | first hmention =>
    obtain ⟨f, hf, hid, hlive, -, hlisted⟩ := mem_linkedArray hmention
    obtain ⟨g, hg, hgid, howned⟩ := ha
    have hsame := eq_of_id store.fragments hf hg (hid.trans hgid.symm)
    rw [← hsame] at howned
    exact hid ▸ h f hf hlive howned _ hlisted hb
  | next _ hmention ih =>
    obtain ⟨f, hf, hid, hlive, howned, hlisted⟩ := mem_linkedArray hmention
    have hlast := h f hf hlive howned _ hlisted hb
    rw [hid] at hlast
    exact (ih ⟨f, hf, hid, howned⟩).trans hlast

/-- A mention is a walk of one hop. -/
theorem refused_of_mention {a : Fragment} (ha : a ∈ store.fragments.rows) (hlive : a.live = true) {id : FragmentId}
    (hid : id ∈ a.linkedTo) : wouldCreateCycle store id a.id keyId = true := by
  have harray : linkedArray store none a.id = a.linkedTo := linkedArray_of_mem ha hlive rfl
  refine isReachable_iff.mpr ⟨1, by omega, ArrayWalk.first ?_⟩
  rw [harray]
  exact hid

theorem noneRefused_iff : NoneRefused store keyId ↔ MentionsFollowLinks store keyId := by
  constructor
  · intro h a ha hlive howned id hid hother
    by_contra hnopath
    have hpassed := h id a.id hother ⟨a, ha, rfl, howned⟩ hnopath
    rw [refused_of_mention ha hlive hid] at hpassed
    cases hpassed
  · intro h fromId toId hfrom hto hnopath
    rw [Bool.eq_false_iff]
    intro hrefused
    obtain ⟨hops, -, hwalk⟩ := isReachable_iff.mp hrefused
    exact hnopath (h.path hto hfrom hwalk)

theorem exactCheck_iff :
    ExactCheck store keyId ↔ MentionsFollowLinks store keyId ∧ LinksFollowMentions store keyId := by
  constructor
  · intro h
    refine ⟨noneRefused_iff.mp fun fromId toId hfrom hto hnopath => ?_, fun a b ha hb hpath => ?_⟩
    · rw [Bool.eq_false_iff]
      exact fun hrefused => hnopath ((h fromId toId hfrom hto).mp hrefused)
    · exact isReachable_iff.mp ((h b a hb ha).mpr hpath)
  · rintro ⟨hmentions, hlinks⟩ fromId toId hfrom hto
    constructor
    · intro hrefused
      obtain ⟨hops, -, hwalk⟩ := isReachable_iff.mp hrefused
      exact hmentions.path hto hfrom hwalk
    · intro hpath
      exact isReachable_iff.mpr (hlinks toId fromId hto hfrom hpath)

section Session
variable (tools : TextTools) (store : Store) (fragments : List SessionFragment) (keyId : Option KeyId)

/-- No causal link that the session adds lies on a directed cycle of such links. -/
def CreatesNoCycle : Prop :=
  ∀ a b, CausallyLinked (autoLinkSessionFragments tools store fragments keyId).store a b → ¬ CausallyLinked store a b →
    ¬ ReflTransGen (CausallyLinked (autoLinkSessionFragments tools store fragments keyId).store) b a

/-- The pairs that become causal links: both rows exist, and no causal and no deleted link joins them. -/
def newLinks : List (FragmentId × FragmentId) :=
  (((validPairs tools store fragments keyId).filter (present store)).map ends).filter fun e =>
    (store.links.holder e).all fun l => l.deletedAt.isNone && !(l.relationType = .causedBy || l.relationType = .resolvedBy)

end Session

theorem causallyLinked_iff {a b : FragmentId} :
    CausallyLinked store a b ↔ ∃ l, store.links.holder (a, b) = some l ∧ l.deletedAt = none ∧
      (l.relationType = .causedBy ∨ l.relationType = .resolvedBy) := by
  simp only [CausallyLinked, Table.holder_eq_some_iff, ends_mem_entries, Prod.mk.injEq]
  constructor
  · rintro ⟨l, hl, hlive, hfrom, hto, hcausal⟩
    exact ⟨l, ⟨hl, hfrom.symm, hto.symm⟩, hlive, hcausal⟩
  · rintro ⟨l, ⟨hl, hfrom, hto⟩, hlive, hcausal⟩
    exact ⟨l, hl, hlive, hfrom.symm, hto.symm, hcausal⟩

/-- Writing causal pairs adds those that no causal and no deleted link joins. -/
theorem causallyLinked_written {pairs : List LinkPair} {after : Store} (h : Written pairs store.links after.links)
    (hcausal : ∀ pair ∈ pairs, pair.relationType = .causedBy ∨ pair.relationType = .resolvedBy) {a b : FragmentId} :
    CausallyLinked after a b ↔ WithEdges (CausallyLinked store) ((pairs.map ends).filter fun e =>
      (store.links.holder e).all fun l =>
        l.deletedAt.isNone && !(l.relationType = .causedBy || l.relationType = .resolvedBy)) a b := by
  rw [WithEdges, List.mem_filter, causallyLinked_iff, causallyLinked_iff]
  by_cases hmem : (a, b) ∈ pairs.map ends
  · obtain ⟨l, hl, hdeleted, pair, hpair, -, hrelation⟩ := h.written _ hmem
    have hafter : (∃ m, after.links.holder (a, b) = some m ∧ m.deletedAt = none ∧
        (m.relationType = .causedBy ∨ m.relationType = .resolvedBy)) ↔
        (store.links.holder (a, b)).bind Link.deletedAt = none := by
      rw [hl, ← hdeleted]
      constructor
      · rintro ⟨m, hm, hlive, -⟩
        rw [Option.some.inj hm]
        exact hlive
      · intro hlive
        exact ⟨l, rfl, hlive, hrelation ▸ hcausal pair hpair⟩
    rw [hafter, and_iff_right hmem]
    cases hheld : store.links.holder (a, b) with
    | none => simp
    | some held =>
      simp only [Option.bind_some, Option.some.injEq, exists_eq_left', Option.all_some, Bool.and_eq_true,
        Option.isNone_iff_eq_none, Bool.not_eq_true', Bool.or_eq_false_iff, decide_eq_false_iff_not]
      rw [← and_or_left, ← not_or, and_iff_left (Classical.em _)]
  · rw [h.kept _ hmem, or_iff_left fun hnew => hmem hnew.1]

theorem createsNoCycle_iff (tools : TextTools) (store : Store) (fragments : List SessionFragment)
    (keyId : Option KeyId) :
    CreatesNoCycle tools store fragments keyId ↔
      AddedInOrder (CausallyLinked store) (newLinks tools store fragments keyId) := by
  have hcausal : ∀ pair ∈ (validPairs tools store fragments keyId).filter (present store),
      pair.relationType = .causedBy ∨ pair.relationType = .resolvedBy := fun pair hpair =>
    causal_of_mem_validPairs tools (List.mem_filter.mp hpair).1
  have hafter : CausallyLinked (autoLinkSessionFragments tools store fragments keyId).store =
      WithEdges (CausallyLinked store) (newLinks tools store fragments keyId) := by
    funext a b
    exact propext (causallyLinked_written (written_autoLink tools store fragments keyId) hcausal)
  have hfresh : ∀ e ∈ newLinks tools store fragments keyId, ¬ CausallyLinked store e.1 e.2 := by
    intro e he hold
    obtain ⟨l, hl, -, hrelation⟩ := causallyLinked_iff.mp hold
    have hcond := (List.mem_filter.mp he).2
    rw [hl, Option.all_some, Bool.and_eq_true, Bool.not_eq_true', Bool.or_eq_false_iff, decide_eq_false_iff_not,
      decide_eq_false_iff_not] at hcond
    exact hrelation.elim hcond.2.1 hcond.2.2
  rw [← noneReturns_iff, CreatesNoCycle, hafter, NoneReturns]
  constructor
  · intro h e he
    exact h e.1 e.2 (Or.inr he) (hfresh e he)
  · intro h a b hlinked hnew
    exact h (a, b) (hlinked.resolve_left hnew)

/-- In every state of a run, whatever its steps are: the check is exact if and only if the arrays and the links
follow each other, it refuses no link without a directed path back if and only if the arrays follow the links,
and a session closes no cycle if and only if its links, added one after another, close none. -/
theorem cycleCheck_exact {ε : Type*} (step : Store → ε → Store) (start : Store) (operations : List ε)
    (keyId : Option KeyId) (tools : TextTools) (fragments : List SessionFragment) :
    (ExactCheck (run step start operations) keyId ↔
      MentionsFollowLinks (run step start operations) keyId ∧ LinksFollowMentions (run step start operations) keyId) ∧
    (NoneRefused (run step start operations) keyId ↔ MentionsFollowLinks (run step start operations) keyId) ∧
    (CreatesNoCycle tools (run step start operations) fragments keyId ↔
      AddedInOrder (CausallyLinked (run step start operations))
        (newLinks tools (run step start operations) fragments keyId)) :=
  ⟨exactCheck_iff, noneRefused_iff, createsNoCycle_iff tools _ fragments keyId⟩

instance (store : Store) (a b : FragmentId) : Decidable (CausallyLinked store a b) :=
  inferInstanceAs (Decidable (∃ l ∈ store.links.rows, _ ∧ _))

theorem not_directedPath {a b : FragmentId} (h : ∀ l ∈ store.links.rows, l.fromId ≠ a) : ¬ DirectedPath store a b := by
  intro hpath
  obtain ⟨c, ⟨l, hl, -, hfrom, -⟩, -⟩ := TransGen.head'_iff.mp hpath
  exact h l hl hfrom

def failureContent : String := "deploy fails outside the vpn tunnel"

/-- SHA-256 on the three contents. -/
def incidentSettings : Settings :=
  { sampleSettings with
    digests := {
      hex := fun text =>
        if text = failureContent then "1f6d27cd056f22c8c1f05fe211b1b3db514ad770266d0bc999e0d613fda3326e"
        else sampleSettings.digests.hex text
      base64Url := fun _ => "" } }

/-- A content of a topic of its own is remembered. -/
def remembered (now : Time) (id : FragmentId) (content topic : String) (type : FragmentType) : LinkOperation :=
  .remember incidentSettings (sampleDraws now id) { sampleParams content [] with topic := some topic, type := some type }
    sampleCaller

/-- A decision that leads to a procedure, and an error. -/
def incidentRun : List LinkOperation :=
  [remembered 1 "frag-01" sampleContent "deploy" .decision, remembered 2 "frag-02" replacementContent "access" .procedure,
    remembered 3 "frag-03" failureContent "incident" .error, .createLink "frag-01" "frag-02" .causedBy 1]

/-- The fragments of the session, all of one case and with one keyword. -/
def incident : List SessionFragment :=
  [{ id := "frag-01", type := .decision, keywords := ["vpn"], caseId := some "case-01" },
    { id := "frag-02", type := .procedure, keywords := ["vpn"], caseId := some "case-01" },
    { id := "frag-03", type := .error, keywords := ["vpn"], caseId := some "case-01" }]

/-- One link makes the check refuse its reverse as if it closed a cycle, and two links of one session that both
pass the check close one. -/
theorem check_inexact :
    ¬ ExactCheck (run linkStep {} incidentRun) (some sampleKey) ∧ ¬ NoneRefused (run linkStep {} incidentRun) (some sampleKey) ∧
      ¬ CreatesNoCycle sampleTools (run linkStep {} incidentRun) incident (some sampleKey) := by
  have howned : ∀ id ∈ ["frag-01", "frag-02"], ∃ f ∈ (run linkStep {} incidentRun).fragments.rows,
      f.id = id ∧ ownedBy (some sampleKey) f = true := by
    decide +kernel
  have hfrom : Owned (run linkStep {} incidentRun) (some sampleKey) "frag-01" := howned _ List.mem_cons_self
  have hto : Owned (run linkStep {} incidentRun) (some sampleKey) "frag-02" :=
    howned _ (List.mem_cons_of_mem _ List.mem_cons_self)
  have hrefused : wouldCreateCycle (run linkStep {} incidentRun) "frag-01" "frag-02" (some sampleKey) = true := by
    decide +kernel
  have hnopath : ¬ DirectedPath (run linkStep {} incidentRun) "frag-02" "frag-01" :=
    not_directedPath (by decide +kernel)
  refine ⟨fun h => hnopath ((h _ _ hfrom hto).mp hrefused), fun h => ?_, fun h => ?_⟩
  · have hpassed := h _ _ hfrom hto hnopath
    rw [hrefused] at hpassed
    cases hpassed
  · have hnew : CausallyLinked (autoLinkSessionFragments sampleTools (run linkStep {} incidentRun) incident
        (some sampleKey)).store "frag-03" "frag-01" ∧
          ¬ CausallyLinked (run linkStep {} incidentRun) "frag-03" "frag-01" := by
      decide +kernel
    have hback : CausallyLinked (autoLinkSessionFragments sampleTools (run linkStep {} incidentRun) incident
        (some sampleKey)).store "frag-01" "frag-02" ∧ CausallyLinked (autoLinkSessionFragments sampleTools
        (run linkStep {} incidentRun) incident (some sampleKey)).store "frag-02" "frag-03" := by
      decide +kernel
    exact h _ _ hnew.1 hnew.2 ((ReflTransGen.single hback.1).tail hback.2)

end FragmentMemory.CycleCheck
