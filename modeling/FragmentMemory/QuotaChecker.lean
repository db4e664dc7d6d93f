import FragmentMemory.MemoryRememberer

/-! # The quota of a key

`QuotaChecker`: the cached usage, and the check in front of a remember, which counts precisely only
when the cached usage is near the limit.
-/
namespace FragmentMemory.QuotaChecker
open ApiKeyStore FragmentTables BatchRememberProcessor

structure Usage where
  limit : Option ℕ
  current : ℕ
  remaining : Option ℕ
  deriving DecidableEq

def unlimited : Usage := { limit := none, current := 0, remaining := none }

structure CacheEntry where
  value : Usage
  expiresAt : Time
  deriving DecidableEq

/-- `_usageCache`: a map in the order of its insertions. -/
abbrev UsageCache := List (KeyId × CacheEntry)

def cacheTtlMs : ℕ := 10000

def cacheMax : ℕ := 1000

/-- `QUOTA_NEAR_LIMIT_MARGIN` when the environment does not set it. -/
def quotaNearLimitMargin : ℕ := 10

/-- `_usageCache.set`: an entry that exists keeps its place. -/
def UsageCache.set (cache : UsageCache) (keyId : KeyId) (entry : CacheEntry) : UsageCache :=
  if cache.any fun cached => cached.1 = keyId then
    cache.map fun cached => if cached.1 = keyId then (keyId, entry) else cached
  else cache ++ [(keyId, entry)]

/-- `invalidateUsageCache`. -/
def invalidateUsageCache (cache : UsageCache) (keyId : KeyId) : UsageCache :=
  cache.filter fun cached => cached.1 ≠ keyId

/-- The usage that `_cacheGet` returns: an expired entry is none. -/
def cachedUsage (cache : UsageCache) (now : Time) (keyId : KeyId) : Option Usage :=
  (cache.find? fun cached => cached.1 = keyId).bind fun cached =>
    if cached.2.expiresAt < now then none else some cached.2.value

/-- `_cacheGet`, which deletes what has expired. -/
def cacheGet (cache : UsageCache) (now : Time) (keyId : KeyId) : UsageCache × Option Usage :=
  match cachedUsage cache now keyId with
  | some usage => (cache, some usage)
  | none => (invalidateUsageCache cache keyId, none)

/-- `_cacheSet`: the oldest entry makes room. -/
def cacheSet (cache : UsageCache) (now : Time) (keyId : KeyId) (value : Usage) : UsageCache :=
  UsageCache.set (if cacheMax ≤ cache.length then cache.drop 1 else cache) keyId
    { value := value, expiresAt := now + cacheTtlMs }

/-- What the transaction of `getUsage` reads. -/
def countUsage (fragmentLimit : Option ℕ) (store : Store) (keyId : KeyId) : Usage :=
  match fragmentLimit with
  | none => unlimited
  | some limit =>
    { limit := some limit, current := liveCount store keyId, remaining := some (limit - liveCount store keyId) }

/-- `getUsage`. -/
def getUsage (fragmentLimit : Option ℕ) (now : Time) (store : Store) (cache : UsageCache) :
    Option KeyId → UsageCache × Usage
  | none => (cache, unlimited)
  | some keyId =>
    match cacheGet cache now keyId with
    | (kept, some usage) => (kept, usage)
    | (kept, none) =>
      let usage := countUsage fragmentLimit store keyId
      (cacheSet kept now keyId usage, usage)

/-- The usage passes without a precise count. -/
def Usage.passes (margin : ℕ) (usage : Usage) : Bool :=
  usage.limit.isNone || usage.remaining.any fun remaining => margin < remaining

/-- `check`: whether the call is refused, and the cache after it. -/
def check (margin : ℕ) (fragmentLimit : Option ℕ) (now : Time) (store : Store) (cache : UsageCache) :
    Option KeyId → UsageCache × Bool
  | none => (cache, false)
  | some keyId =>
    let usage := getUsage fragmentLimit now store cache (some keyId)
    if usage.2.passes margin then (usage.1, false)
    else if fragmentLimit.any fun limit => limit ≤ liveCount store keyId then (usage.1, true)
    else (invalidateUsageCache usage.1 keyId, false)

/-- What an unexpired entry of the cache lets pass without a count. -/
def passesOnCache (margin : ℕ) (now : Time) (cache : UsageCache) (keyId : KeyId) : Bool :=
  (cachedUsage cache now keyId).any fun usage => usage.passes margin

/-- A check that the cache does not answer is as strict as a fresh count. -/
theorem check_refuses {margin limit : ℕ} {now : Time} {store : Store} {cache : UsageCache} {keyId : KeyId}
    (hcache : passesOnCache margin now cache keyId = false) :
    (check margin (some limit) now store cache (some keyId)).2 = decide (limit ≤ liveCount store keyId) := by
  have hstrict : (countUsage (some limit) store keyId).passes margin = true → ¬ limit ≤ liveCount store keyId := by
    simp only [countUsage, Usage.passes, Option.isNone_some, Option.any_some, Bool.false_or, decide_eq_true_eq]
    omega
  simp only [passesOnCache] at hcache
  cases hcached : cachedUsage cache now keyId with
  | some usage =>
    rw [hcached, Option.any_some] at hcache
    simp only [check, getUsage, cacheGet, hcached, hcache, Bool.false_eq_true, if_false, Option.any_some]
    split
    · rename_i hfull
      exact hfull.symm
    · rename_i hfree
      exact (Bool.of_not_eq_true hfree).symm
  | none =>
    simp only [check, getUsage, cacheGet, hcached, Option.any_some]
    split
    · rename_i hpasses
      exact (decide_eq_false (hstrict hpasses)).symm
    · split
      · rename_i hfull
        exact hfull.symm
      · rename_i hfree
        exact (Bool.of_not_eq_true hfree).symm

/-- A check that the cache answers refuses nothing. -/
theorem check_passes {margin limit : ℕ} {now : Time} {store : Store} {cache : UsageCache} {keyId : KeyId}
    (hcache : passesOnCache margin now cache keyId = true) :
    (check margin (some limit) now store cache (some keyId)).2 = false := by
  simp only [passesOnCache] at hcache
  cases hcached : cachedUsage cache now keyId with
  | some usage =>
    rw [hcached, Option.any_some] at hcache
    simp only [check, getUsage, cacheGet, hcached, hcache, if_true]
  | none =>
    rw [hcached] at hcache
    cases hcache

end FragmentMemory.QuotaChecker
