import FragmentMemory.MemoryRememberer

/-! # Garbage collection, decay and tiers

`FragmentGC`: the deletion of expired fragments, the decay of their importance and the transitions
between the tiers.  Columns that only these statements read (the utility score, the verdict on the
quality, the time of the last decay) are given with the stage.
-/
namespace FragmentMemory.FragmentGC
open ApiKeyStore FragmentTables JsString

def dayMs : ℕ := 86400000

/-- `column < NOW() - make_interval(days => …)`. -/
def olderThan (now : Time) (days : ℕ) (time : Time) : Bool := time + days * dayMs < now

/-- The same of a nullable column, or null. -/
def idleFor (now : Time) (days : ℕ) (time : Option Time) : Bool := time.all (olderThan now days)

/-- `MEMORY_CONFIG.gc`. -/
structure GcPolicy where
  utilityThreshold : ℚ := 15 / 100
  gracePeriodDays : ℕ := 7
  inactiveDays : ℕ := 60
  maxDeletePerCycle : ℕ := 50
  factDecisionImportance : ℚ := 2 / 10
  factDecisionOrphanDays : ℕ := 30
  errorResolvedMaxDays : ℕ := 30
  errorResolvedMaxImportance : ℚ := 3 / 10
  splitChildMaxImportance : ℚ := 3 / 10
  splitChildOrphanDays : ℕ := 30
  splitChildTombstonedDays : ℕ := 7

def startsWith (text start : String) : Bool := start.toList.isPrefixOf text.toList

/-- `source LIKE 'split:%'`. -/
def splitSource (f : Fragment) : Bool := f.source.any fun source => startsWith source "split:"

/-- `split_part(source, ':', 2)`. -/
def splitParent (f : Fragment) : FragmentId :=
  let rest := ((f.source.getD "").toList.dropWhile (· ≠ ':')).drop 1
  String.ofList (rest.takeWhile (· ≠ ':'))

/-- One of the reasons for which a row may be deleted.  The type of a row is never null. -/
def collectable (policy : GcPolicy) (now : Time) (utilityScore : FragmentId → ℚ) (store : Store) (f : Fragment) : Bool :=
  (utilityScore f.id < policy.utilityThreshold && idleFor now policy.inactiveDays f.accessedAt) ||
  ((f.type = .fact || f.type = .decision) && f.importance < policy.factDecisionImportance && f.accessCount = 0 &&
    f.linkedTo.isEmpty && !store.links.rows.any (·.touches f.id) &&
    olderThan now policy.factDecisionOrphanDays f.createdAt) ||
  (f.importance < 1 / 10 && idleFor now 90 f.accessedAt && olderThan now 90 f.createdAt && f.linkedTo.length < 2) ||
  (f.type = .error && startsWith f.content "[해결됨]" && olderThan now policy.errorResolvedMaxDays f.createdAt &&
    f.importance < policy.errorResolvedMaxImportance) ||
  (splitSource f && f.importance < policy.splitChildMaxImportance && f.accessCount = 0 &&
    idleFor now policy.splitChildOrphanDays f.accessedAt && olderThan now policy.splitChildOrphanDays f.createdAt) ||
  (splitSource f && olderThan now policy.splitChildTombstonedDays f.createdAt &&
    !store.fragments.rows.any fun parent => parent.id = splitParent f && parent.live)

/-- `gc_candidates`. -/
def gcCandidates (policy : GcPolicy) (now : Time) (utilityScore : FragmentId → ℚ) (store : Store) : List Fragment :=
  let found := store.fragments.rows.filter fun f =>
    f.ttlTier ≠ .permanent && !f.isAnchor && olderThan now policy.gracePeriodDays f.createdAt &&
      collectable policy now utilityScore store f
  (found.insertionSort fun f g => utilityScore f.id ≤ utilityScore g.id).take policy.maxDeletePerCycle

/-- `deleteExpired`. -/
def deleteExpired (policy : GcPolicy) (now : Time) (utilityScore : FragmentId → ℚ) (store : Store) : Store :=
  let ids := (gcCandidates policy now utilityScore store).map Fragment.id
  store.deleteFragments fun f => ids.contains f.id

/-- The new importance of `decayImportance`; the factor is a power of two with a real exponent. -/
def decayed (factor : Fragment → ℚ) : ColumnUpdate where
  set f := { f with importance := max (5 / 100) (f.importance * factor f) }
  entries_set _ := rfl

/-- `decayImportance`. -/
def decayImportance (factor : Fragment → ℚ) (store : Store) : Store :=
  store.updateFragments (fun f => f.ttlTier ≠ .permanent && !f.isAnchor) (decayed factor)

/-- The rows that the first three statements of `transitionTTL` make permanent: preferences, hubs and
important rows whose quality is not refuted. -/
def promoted (qualityVerified : FragmentId → Option Bool) (f : Fragment) : Bool :=
  f.type = .preference || 5 ≤ f.linkedTo.length ||
    (8 / 10 ≤ f.importance &&
      (qualityVerified f.id = some true || (qualityVerified f.id = none && f.isAnchor) ||
        (qualityVerified f.id = none && 9 / 10 ≤ f.importance)))

/-- The condition of the transition from warm to cold; anchors are not exempt. -/
def coolsDown (now : Time) (f : Fragment) : Bool :=
  f.ttlTier = .warm && (f.importance < 3 / 10 || (f.accessedAt.isNone && olderThan now 30 f.createdAt) ||
    f.accessedAt.any (olderThan now 30))

/-- The condition of the parole of a permanent row. -/
def paroled (now : Time) (f : Fragment) : Bool :=
  f.ttlTier = .permanent && !f.isAnchor && f.importance < 5 / 10 && idleFor now 180 f.accessedAt

/-- `transitionTTL`. -/
def transitionTTL (now : Time) (qualityVerified : FragmentId → Option Bool) (store : Store) : Store :=
  let promotedStore := store.updateFragments (fun f => promoted qualityVerified f && f.ttlTier ≠ .permanent)
    (FragmentWriter.setTtlTier .permanent)
  let cooled := promotedStore.updateFragments (coolsDown now) (FragmentWriter.setTtlTier .cold)
  cooled.updateFragments (paroled now) (FragmentWriter.setTtlTier .cold)

end FragmentMemory.FragmentGC
