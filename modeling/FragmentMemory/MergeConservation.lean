import FragmentMemory.StageRuns

/-! # What merges conserve

The deduplication and the compression retire fragments in favour of a keeper.  Here are the three things
that such a treatment should conserve, the links of the retired fragments, the trace of the retirement
and the access counts, and what it takes in the store before a treatment for it to do so.
-/
namespace FragmentMemory.MergeConservation
open ApiKeyStore FragmentTables MemoryRememberer RememberLiveness PairSteps MemoryConsolidator PairPersistence
  RowPersistence StageSelection StageRuns TransitionRuns UniqueIndexTable LinkStore

/-- Fragments that a treatment retires in favour of a keeper, and the access count that it gives the
keeper. -/
structure Retirement where
  keeper : FragmentId
  gone : List FragmentId
  count : ℕ

def retirement : PairStep → Option Retirement
  | .merge _ frag candidate =>
    some ⟨(keptOf frag candidate).id, [(droppedOf frag candidate).id], frag.accessCount + candidate.accessCount⟩
  | .compress _ keeper others =>
    some ⟨keeper.id, others.map Fragment.id, others.foldl (fun total old => total + old.accessCount) keeper.accessCount⟩
  | _ => none

/-- A treatment that retires fragments, the keeper not among them. -/
def Retires (pair : PairStep) : Prop := ∃ r, retirement pair = some r ∧ r.keeper ∉ r.gone

/-- A link between two fragments, in either direction. -/
def Joins (l : Link) (a b : FragmentId) : Prop := (l.fromId = a ∧ l.toId = b) ∨ (l.fromId = b ∧ l.toId = a)

instance (l : Link) (a b : FragmentId) : Decidable (Joins l a b) :=
  inferInstanceAs (Decidable ((l.fromId = a ∧ l.toId = b) ∨ (l.fromId = b ∧ l.toId = a)))

def Joined (store : Store) (a b : FragmentId) : Prop := ∃ l ∈ store.links.rows, Joins l a b

instance (store : Store) (a b : FragmentId) : Decidable (Joined store a b) :=
  inferInstanceAs (Decidable (∃ l ∈ store.links.rows, Joins l a b))

def LiveJoined (store : Store) (a b : FragmentId) : Prop :=
  ∃ l ∈ store.links.rows, l.deletedAt = none ∧ Joins l a b

instance (store : Store) (a b : FragmentId) : Decidable (LiveJoined store a b) :=
  inferInstanceAs (Decidable (∃ l ∈ store.links.rows, l.deletedAt = none ∧ Joins l a b))

/-- Each fragment that a retired one is linked to in a store is linked to the keeper in another. -/
def CarriesLinks (store after : Store) (pair : PairStep) : Prop :=
  ∀ r ∈ retirement pair, ∀ x ∈ r.gone, LiveRow store x → ∀ y, y ≠ r.keeper → y ≠ x →
    LiveJoined store x y → LiveJoined after r.keeper y

/-- A compression leaves a row between the keeper and each fragment that it retires. -/
def LeavesTrace (store after : Store) : PairStep → Prop
  | .compress _ keeper others => ∀ old ∈ others, LiveRow store old.id → Joined after keeper.id old.id
  | _ => True

instance (store after : Store) (pair : PairStep) : Decidable (LeavesTrace store after pair) :=
  match pair with
  | .compress _ keeper others =>
    inferInstanceAs (Decidable (∀ old ∈ others, LiveRow store old.id → Joined after keeper.id old.id))
  | .settle _ _ _ | .audit _ _ _ _ _ | .supersede _ _ _ | .duplicate _ _ _ | .relate _ _ _ _ | .merge _ _ _ =>
    inferInstanceAs (Decidable True)

/-- The accesses of a live row. -/
def liveAccess (store : Store) (id : FragmentId) : ℕ :=
  ((store.fragments.byId id).filter Fragment.live).elim 0 Fragment.accessCount

/-- The count that a treatment gives a live keeper is that of the keeper and of what it retires. -/
def AddsUp (store : Store) (pair : PairStep) : Prop :=
  ∀ r ∈ retirement pair, LiveRow store r.keeper →
    r.count = liveAccess store r.keeper + (r.gone.map (liveAccess store)).sum

/-- A store with the accesses that each fragment should count: its own and those of all fragments that
were retired in favour of it. -/
structure Books where
  store : Store
  owed : FragmentId → ℕ

def openBooks (store : Store) : Books := ⟨store, liveAccess store⟩

/-- The accesses that a treatment moves to its keeper. -/
def inherited (books : Books) (r : Retirement) : ℕ :=
  (r.gone.map fun x => if LiveRow books.store x then books.owed x else 0).sum

def post (settings : Settings) (books : Books) (pair : PairStep) : Books where
  store := pairStep settings books.store pair
  owed id := (retirement pair).elim (books.owed id) fun r =>
    if id = r.keeper then books.owed id + inherited books r else books.owed id

/-- Every live row counts what it should. -/
def Balanced (books : Books) : Prop :=
  ∀ f ∈ books.store.fragments.rows, f.live = true → f.accessCount = books.owed f.id

instance (books : Books) : Decidable (Balanced books) :=
  inferInstanceAs (Decidable (∀ f ∈ books.store.fragments.rows, f.live = true → f.accessCount = books.owed f.id))

/-- The treatments of a stage conserve the links and the counts. -/
structure Conserves (settings : Settings) (start : Store) (pairs : List PairStep) : Prop where
  links : StepsMeet (pairStep settings) (fun store pair => CarriesLinks store (pairStep settings store pair) pair)
    start pairs
  trace : StepsMeet (pairStep settings) (fun store pair => LeavesTrace store (pairStep settings store pair) pair)
    start pairs
  counts : ∀ earlier, earlier <+: pairs → Balanced (run (post settings) (openBooks start) earlier)

/-- In the store before a treatment: what is linked to a retired fragment is linked to the keeper as
well, a compression finds its fragments joined to the keeper, and the counts that the stage has read add
up to the current ones. -/
structure Conserving (store : Store) (pair : PairStep) : Prop where
  links : CarriesLinks store store pair
  trace : LeavesTrace store store pair
  counts : AddsUp store pair

variable {settings : Settings}

/-- The rows after `expireRow`. -/
theorem mem_expireRow {now : Time} {store : Store} {id : FragmentId} {f : Fragment} :
    f ∈ (expireRow now store id).fragments.rows ∧ f.live = true ↔
      f ∈ store.fragments.rows ∧ f.live = true ∧ f.id ≠ id := by
  rw [expireRow, mem_updateFragments_iff]
  constructor
  · rintro ⟨⟨g, hg, rfl⟩, hlive⟩
    split at hlive
    · cases hlive
    · rename_i hcond
      rw [if_neg hcond]
      refine ⟨hg, hlive, fun hid => hcond ?_⟩
      simp only [hid, hlive, decide_true, Bool.and_self]
  · rintro ⟨hf, hlive, hid⟩
    refine ⟨⟨f, hf, ?_⟩, hlive⟩
    simp only [hid, decide_false, Bool.false_and, Bool.false_eq_true, if_false]

/-- The same for several rows. -/
theorem mem_expireRows {now : Time} {f : Fragment} (others : List Fragment) (store : Store) :
    f ∈ (others.foldl (fun current old => expireRow now current old.id) store).fragments.rows ∧ f.live = true ↔
      f ∈ store.fragments.rows ∧ f.live = true ∧ f.id ∉ others.map Fragment.id := by
  induction others generalizing store with
  | nil => simp
  | cons old later ih =>
    have hfirst := @mem_expireRow now store old.id f
    rw [List.foldl_cons, ih, List.map_cons, List.mem_cons, not_or, ← and_assoc, hfirst]
    tauto

/-- The live rows after a treatment: those that it does not retire, the keeper with its count. -/
theorem live_after {store : Store} {pair : PairStep} {r : Retirement} (hr : retirement pair = some r) {f : Fragment} :
    f ∈ (pairStep settings store pair).fragments.rows ∧ f.live = true ↔
      ∃ g ∈ store.fragments.rows, g.live = true ∧ g.id ∉ r.gone ∧
        f = if g.id = r.keeper then (setAccessCount r.count).set g else g := by
  have hcount : ∀ expired : Store, (∀ g, g ∈ expired.fragments.rows ∧ g.live = true ↔
        g ∈ store.fragments.rows ∧ g.live = true ∧ g.id ∉ r.gone) →
      (f ∈ (expired.updateFragments (fun g => g.id = r.keeper) (setAccessCount r.count)).fragments.rows ∧
        f.live = true ↔
        ∃ g ∈ store.fragments.rows, g.live = true ∧ g.id ∉ r.gone ∧
          f = if g.id = r.keeper then (setAccessCount r.count).set g else g) := by
    intro expired hexpired
    have hlive : ∀ g : Fragment, (if g.id = r.keeper then (setAccessCount r.count).set g else g).live = g.live := by
      intro g
      split <;> rfl
    rw [mem_updateFragments_iff]
    simp only [decide_eq_true_eq]
    constructor
    · rintro ⟨⟨g, hg, rfl⟩, hflive⟩
      rw [hlive] at hflive
      obtain ⟨hrow, -, hstays⟩ := (hexpired g).mp ⟨hg, hflive⟩
      exact ⟨g, hrow, hflive, hstays, rfl⟩
    · rintro ⟨g, hg, hglive, hstays, rfl⟩
      exact ⟨⟨g, ((hexpired g).mpr ⟨hg, hglive, hstays⟩).1, rfl⟩, (hlive g).trans hglive⟩
  cases pair with
  | merge now frag candidate =>
    cases hr
    refine hcount (expireRow now _ _) fun g => ?_
    rw [mem_expireRow, List.mem_singleton]
  | compress now keeper others =>
    cases hr
    simp only [pairStep, compressGroup]
    exact hcount _ fun g => mem_expireRows others store
  | _ => simp only [retirement, reduceCtorEq] at hr

theorem links_expireRows {now : Time} (others : List Fragment) (store : Store) :
    (others.foldl (fun current old => expireRow now current old.id) store).links = store.links := by
  induction others generalizing store with
  | nil => rfl
  | cons old later ih => exact ih _

/-- A compression leaves the links alone. -/
theorem links_compress {now : Time} {keeper : Fragment} {others : List Fragment} (store : Store) :
    (pairStep settings store (.compress now keeper others)).links = store.links :=
  links_expireRows others store

/-- A merge removes the links of its pair and no other. -/
theorem mem_links_merge {now : Time} {frag candidate : Fragment} {store : Store} {l : Link} :
    l ∈ (pairStep settings store (.merge now frag candidate)).links.rows ↔
      l ∈ store.links.rows ∧ ¬ Joins l (droppedOf frag candidate).id (keptOf frag candidate).id := by
  have hdelete := @Table.mem_delete_iff _ _ _ store.links (fun l =>
    (l.fromId = (droppedOf frag candidate).id && l.toId = (keptOf frag candidate).id) ||
      (l.fromId = (keptOf frag candidate).id && l.toId = (droppedOf frag candidate).id)) l
  refine hdelete.trans (and_congr_right fun _ => ?_)
  simp only [Joins, Bool.or_eq_false_iff, Bool.and_eq_false_iff, decide_eq_false_iff_not]
  tauto

/-- A treatment gives a third fragment no link to the keeper and takes none. -/
theorem liveJoined_after {store : Store} {pair : PairStep} {r : Retirement} (hr : retirement pair = some r)
    {x y : FragmentId} (hx : x ∈ r.gone) (hne : y ≠ x) (hkeeper : y ≠ r.keeper) :
    LiveJoined (pairStep settings store pair) r.keeper y ↔ LiveJoined store r.keeper y := by
  cases pair with
  | merge now frag candidate =>
    cases hr
    rw [List.mem_singleton] at hx
    subst hx
    refine exists_congr fun l => ?_
    rw [mem_links_merge]
    constructor
    · exact fun h => ⟨h.1.1, h.2⟩
    · rintro ⟨hl, hlive, hjoins⟩
      refine ⟨⟨hl, ?_⟩, hlive, hjoins⟩
      rintro (⟨hfrom, hto⟩ | ⟨hfrom, hto⟩)
      · rcases hjoins with ⟨-, hto'⟩ | ⟨hfrom', -⟩
        · exact hkeeper (hto'.symm.trans hto)
        · exact hne (hfrom'.symm.trans hfrom)
      · rcases hjoins with ⟨-, hto'⟩ | ⟨hfrom', -⟩
        · exact hne (hto'.symm.trans hto)
        · exact hkeeper (hfrom'.symm.trans hfrom)
  | compress now keeper others => rw [LiveJoined, LiveJoined, links_compress]
  | _ => cases hr

/-- A treatment carries the links of what it retires if and only if the keeper has them already. -/
theorem carriesLinks_iff {store : Store} {pair : PairStep} :
    CarriesLinks store (pairStep settings store pair) pair ↔ CarriesLinks store store pair := by
  constructor
  · intro h r hr x hx hlive y hkeeper hne hjoined
    exact (liveJoined_after hr hx hne hkeeper).mp (h r hr x hx hlive y hkeeper hne hjoined)
  · intro h r hr x hx hlive y hkeeper hne hjoined
    exact (liveJoined_after hr hx hne hkeeper).mpr (h r hr x hx hlive y hkeeper hne hjoined)

/-- A compression leaves no trace of its own. -/
theorem leavesTrace_iff {store : Store} {pair : PairStep} :
    LeavesTrace store (pairStep settings store pair) pair ↔ LeavesTrace store store pair := by
  cases pair with
  | compress now keeper others => simp only [LeavesTrace, Joined, links_compress]
  | _ => simp only [LeavesTrace]

theorem liveRow_iff {store : Store} {id : FragmentId} :
    LiveRow store id ↔ ∃ f, store.fragments.byId id = some f ∧ f.live = true := by
  constructor
  · rintro ⟨f, hf, hid, hlive⟩
    exact ⟨f, (byId_eq_some_iff _).mpr ⟨hf, hid⟩, hlive⟩
  · rintro ⟨f, hbyId, hlive⟩
    obtain ⟨hf, hid⟩ := (byId_eq_some_iff _).mp hbyId
    exact ⟨f, hf, hid, hlive⟩

theorem liveAccess_of_mem {store : Store} {f : Fragment} (hf : f ∈ store.fragments.rows) (hlive : f.live = true) :
    liveAccess store f.id = f.accessCount := by
  rw [liveAccess, (byId_eq_some_iff _).mpr ⟨hf, rfl⟩, Option.filter_some, if_pos hlive]
  rfl

/-- In balanced books what is retired is worth what it should count. -/
theorem liveAccess_of_balanced {books : Books} (h : Balanced books) (id : FragmentId) :
    liveAccess books.store id = if LiveRow books.store id then books.owed id else 0 := by
  split
  · rename_i hlive
    obtain ⟨f, hf, rfl, hflive⟩ := hlive
    rw [liveAccess_of_mem hf hflive, h f hf hflive]
  · rename_i hlive
    have hnone : (books.store.fragments.byId id).filter Fragment.live = none := by
      rw [Option.filter_eq_none_iff]
      exact fun f hf hflive => hlive (liveRow_iff.mpr ⟨f, hf, hflive⟩)
    rw [liveAccess, hnone]
    rfl

theorem balanced_openBooks (store : Store) : Balanced (openBooks store) :=
  fun _ hf hlive => (liveAccess_of_mem hf hlive).symm

/-- A retirement keeps the books balanced if and only if the count that it writes adds up. -/
theorem balanced_post {books : Books} {pair : PairStep} (hretires : Retires pair) (h : Balanced books) :
    Balanced (post settings books pair) ↔ AddsUp books.store pair := by
  obtain ⟨r, hr, hkeeper⟩ := hretires
  have hinherited : (r.gone.map (liveAccess books.store)).sum = inherited books r :=
    congrArg List.sum (List.map_congr_left fun x _ => liveAccess_of_balanced h x)
  have howed : (post settings books pair).owed = fun id =>
      if id = r.keeper then books.owed id + inherited books r else books.owed id := by
    funext id
    simp only [post, hr, Option.elim_some]
  constructor
  · intro hbalanced r' hr' hlive
    cases hr.symm.trans hr'
    obtain ⟨g, hg, hid, hglive⟩ := hlive
    have hafter := (@live_after settings _ _ _ hr _).mpr ⟨g, hg, hglive, hid ▸ hkeeper, rfl⟩
    rw [if_pos hid] at hafter
    have hcount : r.count = (post settings books pair).owed g.id := hbalanced _ hafter.1 hafter.2
    rw [howed, hid] at hcount
    simp only [if_true] at hcount
    rw [hcount, hinherited, ← hid, liveAccess_of_mem hg hglive, h g hg hglive]
  · intro hadds f hf hflive
    obtain ⟨g, hg, hglive, -, rfl⟩ := (live_after hr).mp ⟨hf, hflive⟩
    rw [howed]
    by_cases hid : g.id = r.keeper
    · have hcount := hadds r hr ⟨g, hg, hid, hglive⟩
      rw [if_pos hid, hinherited, ← hid, liveAccess_of_mem hg hglive, h g hg hglive] at *
      simp only [setAccessCount, if_true]
      rw [hcount, hid]
    · simp only [if_neg hid]
      exact h g hg hglive

/-- The two stages that retire fragments in favour of a keeper. -/
inductive MergingStage
  | semanticDedup (embeddings : Embeddings) (now : Time) (config : ConsolidationConfig)
  | compressOldFragments (embeddings : Embeddings) (now : Time) (config : ConsolidationConfig)

def MergingStage.journal (settings : Settings) (store : Store) : MergingStage → Journal settings store
  | .semanticDedup embeddings now config =>
    MemoryConsolidator.semanticDedup embeddings now config (Journal.empty settings store)
  | .compressOldFragments embeddings now config =>
    MemoryConsolidator.compressOldFragments embeddings now config (Journal.empty settings store)

/-- Every treatment of such a stage retires fragments, and no stage retires a keeper in favour of itself. -/
theorem retires_of_stage (store : Store) (stage : MergingStage) :
    (stage.journal settings store).Meets fun _ pair => Retires pair := by
  have hempty : (Journal.empty settings store).Meets fun _ pair => Retires pair := trivial
  cases stage with
  | semanticDedup embeddings now config =>
    have hmerge : ∀ current frag candidate, Selected (fun _ _ => True) current (.merge now frag candidate) →
        Retires (.merge now frag candidate) := by
      intro _ frag candidate hselected
      refine ⟨_, rfl, fun hmem => ?_⟩
      have hsame := List.mem_singleton.mp hmem
      simp only [keptOf, droppedOf] at hsame
      split at hsame
      · exact hselected.2.2.1 hsame
      · exact hselected.2.2.1 hsame.symm
    exact semanticDedup_meets hempty (fun _ _ _ _ _ _ _ _ _ _ => trivial) hmerge
  | compressOldFragments embeddings now config =>
    have hcompress : ∀ current keeper others, Selected (fun _ _ => True) current (.compress now keeper others) →
        Retires (.compress now keeper others) := by
      intro _ keeper others hselected
      have hnodup := hselected.1
      rw [List.map_cons, List.nodup_cons] at hnodup
      exact ⟨_, rfl, hnodup.1⟩
    exact compressOldFragments_meets hempty (fun _ _ _ _ _ => trivial) hcompress

/-- A stage conserves the links, the trace and the counts exactly when each of its treatments finds the
links at the keeper, the keeper joined to what it compresses, and the counts as they were read. -/
theorem conserves_iff (settings : Settings) (store : Store) (stage : MergingStage) :
    Conserves settings store (stage.journal settings store).steps ↔ (stage.journal settings store).Meets Conserving := by
  have hlinks : StepsMeet (pairStep settings) (fun store pair => CarriesLinks store (pairStep settings store pair) pair)
      store (stage.journal settings store).steps ↔ (stage.journal settings store).Meets fun store pair =>
        CarriesLinks store store pair :=
    ⟨StepsMeet.mono fun _ _ => carriesLinks_iff.mp, StepsMeet.mono fun _ _ => carriesLinks_iff.mpr⟩
  have htrace : StepsMeet (pairStep settings) (fun store pair => LeavesTrace store (pairStep settings store pair) pair)
      store (stage.journal settings store).steps ↔ (stage.journal settings store).Meets fun store pair =>
        LeavesTrace store store pair :=
    ⟨StepsMeet.mono fun _ _ => leavesTrace_iff.mp, StepsMeet.mono fun _ _ => leavesTrace_iff.mpr⟩
  have hpost : ∀ (books : Books) pair, (post settings books pair).store = pairStep settings books.store pair :=
    fun _ _ => rfl
  have hretires : StepsMeet (post settings) (fun _ pair => Retires pair) (openBooks store) (stage.journal settings store).steps :=
    (@stepsMeet_component _ _ _ _ _ _ (fun _ pair => Retires pair) hpost _ _).mpr (retires_of_stage store stage)
  have hcounts : (∀ earlier, earlier <+: (stage.journal settings store).steps →
      Balanced (run (post settings) (openBooks store) earlier)) ↔ (stage.journal settings store).Meets AddsUp := by
    rw [throughout_iff_stepsMeet_of_meets (fun _ _ hbalanced hretires => balanced_post hretires hbalanced)
      (balanced_openBooks store) hretires]
    exact stepsMeet_component hpost _ _
  constructor
  · intro h
    have hall := ((hlinks.mp h.links).and (htrace.mp h.trace)).and (hcounts.mp h.counts)
    exact StepsMeet.mono (fun _ _ hpair => ⟨hpair.1.1, hpair.1.2, hpair.2⟩) hall
  · intro h
    exact ⟨hlinks.mpr (StepsMeet.mono (fun _ _ hpair => hpair.links) h),
      htrace.mpr (StepsMeet.mono (fun _ _ hpair => hpair.trace) h),
      hcounts.mpr (StepsMeet.mono (fun _ _ hpair => hpair.counts) h)⟩

def noteRow (id content hash : String) (createdAt : Time) (accessCount : ℕ) : Fragment where
  id := id
  content := content
  topic := "build"
  type := .fact
  importance := 4 / 10
  contentHash := hash
  keyId := none
  createdAt := createdAt
  accessedAt := some createdAt
  accessCount := accessCount

/-- Three notes on one thing, the newest first, and two others; the second note is linked to the last. -/
def notesStore : Store :=
  let rows := [
    noteRow "frag-a" "use pnpm" "962d19749afe5a8fb511ea7b17458065dbf11a89ee104a67d0e5cb89d16485c7" 5 1,
    noteRow "frag-b" "use pnpm always" "87183cc32947316bf9ae78b672ced70b088ec50a33c8d73d4331d60640c6a9de" 4 2,
    noteRow "frag-c" "pnpm is used" "28b3ca74cdcd990a1a356dee2a4a562468175605ec5ae48175137b728deb64e5" 3 3,
    noteRow "frag-d" "ci runs nightly" "80447f2df8be0a8c84517923f01c78f6e5a46904dcde1e521343c2bae9fee31d" 2 0,
    noteRow "frag-e" "ci runs on main" "24c1155988015846f27b19233510bc7b4cb5fb5bf7016896bbedac78e91661d7" 1 0]
  let table := rows.foldl (fun table f => (table.insert f).getD table) Table.empty
  tryLink { fragments := table } "frag-b" "frag-d" .related 1

def notesEmbeddings : Embeddings where
  embedded _ := true
  similarity id other :=
    if ["frag-a", "frag-b", "frag-c"].contains id && ["frag-a", "frag-b", "frag-c"].contains other then 95 / 100 else 1 / 10

def notesDedup : MergingStage := .semanticDedup notesEmbeddings 6 {}

def notesCompression : MergingStage := .compressOldFragments notesEmbeddings (31 * 86400000) {}

/-- The deduplication of the notes loses the link of the second and the accesses of one of the two that it
retires; their compression leaves no row between the keeper and the others. -/
theorem notes_lose :
    ¬ Conserves sampleSettings notesStore (notesDedup.journal sampleSettings notesStore).steps ∧
      ¬ Balanced (run (post sampleSettings) (openBooks notesStore) (notesDedup.journal sampleSettings notesStore).steps) ∧
      ¬ Conserves sampleSettings notesStore (notesCompression.journal sampleSettings notesStore).steps := by
  have hlost : Happens (pairStep sampleSettings) (fun store pair => ∃ r ∈ retirement pair, r.keeper = "frag-a" ∧
      "frag-b" ∈ r.gone ∧ LiveRow store "frag-b" ∧ LiveJoined store "frag-b" "frag-d" ∧
      ¬ LiveJoined (pairStep sampleSettings store pair) "frag-a" "frag-d") notesStore
      (notesDedup.journal sampleSettings notesStore).steps := by decide +kernel
  have hunbalanced : ¬ Balanced (run (post sampleSettings) (openBooks notesStore)
      (notesDedup.journal sampleSettings notesStore).steps) := by decide +kernel
  have huntraced : ¬ StepsMeet (pairStep sampleSettings) (fun store pair =>
      LeavesTrace store (pairStep sampleSettings store pair) pair) notesStore
      (notesCompression.journal sampleSettings notesStore).steps := by decide +kernel
  refine ⟨fun h => h.links.not_happens ?_ hlost, hunbalanced, fun h => huntraced h.trace⟩
  rintro store pair hcarries ⟨r, hr, hkeeper, hgone, hlive, hjoined, hnot⟩
  have hthird : "frag-d" ≠ r.keeper := hkeeper ▸ by decide
  exact hnot (hkeeper ▸ hcarries r hr "frag-b" hgone hlive "frag-d" hthird (by decide) hjoined)

end FragmentMemory.MergeConservation
