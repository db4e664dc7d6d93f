import FragmentMemory.FragmentReader

/-! # Links between fragments

`LinkStore.createLink`, the reconsolidation of link weights and the temporal linker.  None of the
statements here looks at a key: the callers choose the ends of a link.
-/
namespace FragmentMemory.LinkStore
open ApiKeyStore FragmentTables FragmentWriter UniqueIndexTable

/-- `array_append` to `linked_to`. -/
def appendLinked (other : FragmentId) : ColumnUpdate where
  set f := { f with linkedTo := f.linkedTo ++ [other] }
  entries_set _ := rfl

/-- `UPDATE … WHERE id = $1 AND NOT ($2 = ANY(linked_to))`. -/
def linkArray (store : Store) (id other : FragmentId) : Store :=
  store.updateFragments (fun f => f.id = id && !f.linkedTo.contains other) (appendLinked other)

/-- The `DO UPDATE SET` clause of a link; `deleted_at` is not among its columns. -/
def renewLink (relationType : RelationType) (weight : ℚ) (l : Link) : Link :=
  { l with relationType := relationType, weight := max l.weight weight }

theorem renewLink_entries (relationType : RelationType) (weight : ℚ) (l : Link) :
    (renewLink relationType weight l).entries = l.entries := rfl

/-- `createLink`, none when a foreign key of the row is violated. -/
def createLink (store : Store) (fromId toId : FragmentId) (relationType : RelationType) (weight : ℚ) :
    Option Store :=
  if (store.fragments.byId fromId).isSome && (store.fragments.byId toId).isSome then
    let row := { fromId := fromId, toId := toId, relationType := relationType, weight := weight }
    (store.links.upsert (fromId, toId) row (renewLink relationType weight) fun _ => rfl).map fun links =>
      linkArray (linkArray { store with links := links } fromId toId) toId fromId
  else none

/-- `createLink` where the caller catches what it throws. -/
def tryLink (store : Store) (fromId toId : FragmentId) (relationType : RelationType) (weight : ℚ) : Store :=
  (createLink store fromId toId relationType weight).getD store

/-- A pair of `createLinks`. -/
structure LinkPair where
  fromId : FragmentId
  toId : FragmentId
  relationType : RelationType
  deriving DecidableEq

/-- The ids of the other ends of the pairs at an end. -/
def pairedWith (ends : List (FragmentId × FragmentId)) (id : FragmentId) : List FragmentId :=
  (ends.filter fun pair => pair.1 = id).map Prod.snd

/-- `array_agg(DISTINCT elem)` of the array and the other ends. -/
def aggregateLinked (ends : List (FragmentId × FragmentId)) : ColumnUpdate where
  set f := { f with linkedTo := (f.linkedTo ++ pairedWith ends f.id).dedup.insertionSort (· ≤ ·) }
  entries_set _ := rfl

/-- One of the two batch updates of the arrays. -/
def linkArrays (store : Store) (ends : List (FragmentId × FragmentId)) : Store :=
  store.updateFragments (fun f => (ends.map Prod.fst).contains f.id) (aggregateLinked ends)

/-- The multi-row insert of `createLinks`, none when a foreign key is violated. -/
def insertLinks (store : Store) : List LinkPair → Option Store
  | [] => some store
  | pair :: later =>
    if (store.fragments.byId pair.fromId).isSome && (store.fragments.byId pair.toId).isSome then
      let row := { fromId := pair.fromId, toId := pair.toId, relationType := pair.relationType }
      (store.links.upsert (pair.fromId, pair.toId) row (renewLink pair.relationType 1) fun _ => rfl).bind
        fun links => insertLinks { store with links := links } later
    else none

/-- `createLinks`: one transaction, none when it is rolled back.  An upsert that names a row twice is
refused. -/
def createLinks (store : Store) (pairs : List LinkPair) : Option Store :=
  let ends := pairs.map fun pair => (pair.fromId, pair.toId)
  if ends.Nodup then
    (insertLinks store pairs).map fun inserted => linkArrays (linkArrays inserted ends) (ends.map Prod.swap)
  else none

inductive ReconsolidateAction | reinforce | decay | quarantine | restore | softDelete deriving DecidableEq

/-- `DELTAS`. -/
def ReconsolidateAction.delta : ReconsolidateAction → ℚ
  | .reinforce => 2 / 10
  | .decay => -15 / 100
  | .quarantine => -3 / 10
  | .restore => 3 / 10
  | .softDelete => 0

def ReconsolidateAction.limited : ReconsolidateAction → Bool
  | .decay | .quarantine => true
  | _ => false

def reconsolidated (action : ReconsolidateAction) (now : Time) (l : Link) : Link :=
  { l with
    weight := max 0 (min 2 (l.weight + action.delta))
    confidence := if action.delta < 0 then max 0 (l.confidence - 1 / 10)
      else if 0 < action.delta then min 1 (l.confidence + 5 / 100) else l.confidence
    quarantined := if action = .quarantine then true else if action = .restore then false else l.quarantined
    deletedAt := if action = .softDelete then some now else l.deletedAt }

/-- `reconsolidate` of the links with the given ends, those excepted that the 60 s window of the
decaying actions holds back. -/
def reconsolidateLinks (store : Store) (action : ReconsolidateAction) (now : Time)
    (recentlyDecayed : FragmentId × FragmentId → Bool) (chosen : Link → Bool) : Store :=
  { store with
    links := store.links.update
      (fun l => chosen l && l.deletedAt.isNone && !(action.limited && recentlyDecayed (l.fromId, l.toId)))
      (reconsolidated action now) fun _ => rfl }

/-- `quarantineAdjacentLinks`. -/
def quarantineAdjacentLinks (store : Store) (now : Time) (recentlyDecayed : FragmentId × FragmentId → Bool)
    (fromId toId : FragmentId) : Store :=
  reconsolidateLinks store .quarantine now recentlyDecayed fun l =>
    ((l.fromId = fromId && l.toId = toId) || (l.fromId = toId && l.toId = fromId)) &&
      (l.relationType = .related || l.relationType = .temporal) && !l.quarantined

/-- 24 hours. -/
def windowMs : ℕ := 24 * 3600000

def distance (a b : Time) : ℕ := (a - b) + (b - a)

/-- `linkTemporalNeighbors`: up to five live rows of the topic within a day of the fragment; without
a key every row of the topic qualifies. -/
def linkTemporalNeighbors (store : Store) (f : Fragment) (groupKeyIds : Option (List KeyId)) : Store :=
  if f.topic = "" then store
  else
    let found := store.fragments.rows.filter fun g =>
      g.topic = f.topic && g.id ≠ f.id && distance g.createdAt f.createdAt ≤ windowMs && g.live &&
        groupKeyIds.all fun members => g.keyId.any members.contains
    let nearest := (found.insertionSort fun g h =>
      distance g.createdAt f.createdAt ≤ distance h.createdAt f.createdAt).take 5
    nearest.foldl (fun current g =>
      tryLink current f.id g.id .temporal
        (max (3 / 10) (1 - (distance g.createdAt f.createdAt : ℚ) / windowMs))) store

/-- The array of a live row, with a key only of a row of the key. -/
def linkedArray (store : Store) (keyId : Option KeyId) (id : FragmentId) : List FragmentId :=
  ((store.fragments.byId id).filter fun f => f.live && ownedBy keyId f).elim [] Fragment.linkedTo

/-- The ids that the recursive query of `isReachable` finds one hop deeper than the given number: it does
not go on from the target, and the key clause is not asked of the start. -/
def reachableAt (store : Store) (startId targetId : FragmentId) (keyId : Option KeyId) : ℕ → List FragmentId
  | 0 => (linkedArray store none startId).dedup
  | depth + 1 =>
    (((reachableAt store startId targetId keyId depth).filter (· ≠ targetId)).flatMap (linkedArray store keyId)).dedup

/-- `isReachable`, over at most twenty hops. -/
def isReachable (store : Store) (startId targetId : FragmentId) (keyId : Option KeyId) : Bool :=
  (List.range 20).any fun depth => (reachableAt store startId targetId keyId depth).contains targetId

/-- A link that is created joins two existing rows, and nothing but the link and the two arrays
changes. -/
theorem createLink_eq_some {store next : Store} {fromId toId : FragmentId} {relationType : RelationType}
    {weight : ℚ} (h : createLink store fromId toId relationType weight = some next) :
    (∃ f, store.fragments.byId fromId = some f) ∧ (∃ g, store.fragments.byId toId = some g) ∧
      ∃ links, store.links.upsert (fromId, toId)
          { fromId := fromId, toId := toId, relationType := relationType, weight := weight }
          (renewLink relationType weight) (fun _ => rfl) = some links ∧
        next = linkArray (linkArray { store with links := links } fromId toId) toId fromId := by
  simp only [createLink] at h
  split at h
  · rename_i hends
    simp only [Bool.and_eq_true, Option.isSome_iff_exists] at hends
    obtain ⟨links, hlinks, hnext⟩ := Option.map_eq_some_iff.mp h
    exact ⟨hends.1, hends.2, links, hlinks, hnext.symm⟩
  · cases h

/-- The link of a `createLink`: the one that joined the two rows before, or a new one. -/
theorem createLink_row {store next : Store} {fromId toId : FragmentId} {relationType : RelationType} {weight : ℚ}
    (h : createLink store fromId toId relationType weight = some next) :
    ∃ l ∈ next.links.rows, l.fromId = fromId ∧ l.toId = toId ∧ l.relationType = relationType ∧
      l.deletedAt = (store.links.holder (fromId, toId)).bind Link.deletedAt := by
  obtain ⟨-, -, links, hupsert, rfl⟩ := createLink_eq_some h
  rcases Table.upsert_cases hupsert with ⟨held, hheld, hnext⟩ | ⟨hnone, hinsert⟩
  · obtain ⟨hmem, hentry⟩ := (Table.holder_eq_some_iff _).mp hheld
    have hends : (fromId, toId) = (held.fromId, held.toId) := List.mem_singleton.mp hentry
    simp only [Prod.mk.injEq] at hends
    have hrenewed : renewLink relationType weight held ∈ links.rows := by
      rw [hnext]
      refine (Table.mem_update_iff _ _).mpr ⟨held, hmem, ?_⟩
      simp only [hentry, decide_true, if_true]
    refine ⟨_, hrenewed, hends.1.symm, hends.2.symm, rfl, ?_⟩
    rw [hheld]
    rfl
  · refine ⟨{ fromId := fromId, toId := toId, relationType := relationType, weight := weight }, ?_, rfl, rfl, rfl, ?_⟩
    · have hrows := Table.rows_insert hinsert
      show _ ∈ links.rows
      rw [hrows]
      exact List.mem_append_right _ (List.mem_singleton.mpr rfl)
    · rw [hnone]
      rfl

/-- Between two existing rows a link is always created. -/
theorem createLink_isSome {store : Store} {fromId toId : FragmentId} {f g : Fragment} (hf : f ∈ store.fragments.rows)
    (hg : g ∈ store.fragments.rows) (hfrom : f.id = fromId) (hto : g.id = toId) (relationType : RelationType)
    (weight : ℚ) : ∃ next, createLink store fromId toId relationType weight = some next := by
  have hfrom' := (byId_eq_some_iff store.fragments).mpr ⟨hf, hfrom⟩
  have hto' := (byId_eq_some_iff store.fragments).mpr ⟨hg, hto⟩
  have hlinks : ∃ links, store.links.upsert (fromId, toId)
      { fromId := fromId, toId := toId, relationType := relationType, weight := weight }
      (renewLink relationType weight) (fun _ => rfl) = some links := by
    rcases hheld : store.links.holder (fromId, toId) with _ | held
    · have hfree := (Table.holder_eq_none_iff store.links).mp hheld
      simp only [Table.upsert, hheld, Table.insert]
      rw [dif_pos]
      · exact ⟨_, rfl⟩
      · intro other hother entry hentry hmem
        rw [Link.entries, List.mem_singleton] at hmem
        exact hfree other hother (hmem ▸ hentry)
    · simp only [Table.upsert, hheld]
      exact ⟨_, rfl⟩
  obtain ⟨links, hlinks⟩ := hlinks
  simp only [createLink, hfrom', hto', hlinks, Option.isSome_some, Bool.and_self, if_true, Option.map_some]
  exact ⟨_, rfl⟩

end FragmentMemory.LinkStore
