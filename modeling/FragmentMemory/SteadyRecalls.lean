import FragmentMemory.PageWalk

/-! # Recalls whose writes their pages do not read

While Redis is off a request by keywords or a topic counts accesses and leaves the activation of the rows.  Without a
session, or without an expansion by links, it leaves the links that it reads as well, and its pages are steady.
-/
namespace FragmentMemory.SteadyRecalls
open ApiKeyStore FragmentTables FragmentIndex RecallQueries FragmentSearch MemoryRecaller AccessColumns AccessedRanking
  RecallWrites TransitionRuns PageWalk JsString
open MemoryRememberer (Caller Caller.groups Draws access touch)
open ContentUniqueness (sampleFragment sampleKey)
open RememberLiveness (sampleCaller)
open TenantReadIsolation (sampleModel)
open UniqueIndexTable (Table)

/-- The activation of the rows is the same, and the links where they are read. -/
structure Kept (model : SearchModel) (caller : Caller) (params : RecallParams) (first : RecallCall) (before after : Store) :
    Prop where
  bare : SameBare before after
  activation : after.fragments.rows.map (fun f => (f.id, f.emaActivation)) =
    before.fragments.rows.map fun f => (f.id, f.emaActivation)
  links : ReadsLinks model (firstQuery caller params first) params → after.links = before.links

/-- Of the access columns the scores read the activation alone. -/
def ScoresActivation (model : SearchModel) : Prop :=
  ∀ before after : Store, (∀ f, (refreshed after f).emaActivation = (refreshed before f).emaActivation) →
    seenIn model after = seenIn model before

/-- A request for fragments by keywords or a topic while Redis is off, in no session unless links are not read. -/
structure OfflineRequest (model : SearchModel) (caller : Caller) (params : RecallParams) (first : RecallCall) : Prop where
  fragments : params.caseMode = false
  offline : first.context.redisReady = false
  named : ((truthy params.text).isSome && params.keywords.isEmpty && (truthy params.topic).isNone) = false
  links : ReadsLinks model (firstQuery caller params first) params → truthy params.sessionId = none

/-- A call with the surroundings of the first one, which spreads no activation. -/
structure SameSurroundings (first call : RecallCall) : Prop where
  range : call.timeRange = first.timeRange
  surroundings : call.context.toSearchContext = first.context.toSearchContext
  seen : call.context.seenIds = first.context.seenIds
  spread : call.activated = []

variable {model : SearchModel} {caller : Caller} {params : RecallParams}

/-- Rows with the same activation under each id show it when they are read again. -/
theorem activation_refreshed {before after : Store}
    (h : after.fragments.rows.map (fun f => (f.id, f.emaActivation)) =
      before.fragments.rows.map fun f => (f.id, f.emaActivation)) (f : Fragment) :
    (refreshed after f).emaActivation = (refreshed before f).emaActivation := by
  have hrow : (after.fragments.byId f.id).map Fragment.emaActivation =
      (before.fragments.byId f.id).map Fragment.emaActivation := by
    rcases hfound : before.fragments.byId f.id with _ | g
    · rw [byId_eq_none_iff] at hfound
      refine Option.map_eq_none_iff.mpr ((byId_eq_none_iff _).mpr fun g hg hid => ?_)
      have hpair : (g.id, g.emaActivation) ∈ before.fragments.rows.map fun f => (f.id, f.emaActivation) :=
        h ▸ List.mem_map_of_mem hg
      obtain ⟨other, hother, hsame⟩ := List.mem_map.mp hpair
      exact hfound other hother ((Prod.mk.inj hsame).1.trans hid)
    · obtain ⟨hg, hid⟩ := (byId_eq_some_iff _).mp hfound
      have hpair : (g.id, g.emaActivation) ∈ after.fragments.rows.map fun f => (f.id, f.emaActivation) :=
        h ▸ List.mem_map_of_mem hg
      obtain ⟨other, hother, hsame⟩ := List.mem_map.mp hpair
      have hafter : after.fragments.byId f.id = some other :=
        (byId_eq_some_iff _).mpr ⟨hother, (Prod.mk.inj hsame).1.trans hid⟩
      rw [hafter, Option.map_some, Option.map_some, (Prod.mk.inj hsame).2]
  rcases hafter : after.fragments.byId f.id with _ | g <;> rcases hbefore : before.fragments.byId f.id with _ | g'
  · simp only [refreshed, hafter, hbefore]
  · rw [hafter, hbefore] at hrow
    cases hrow
  · rw [hafter, hbefore] at hrow
    cases hrow
  · rw [hafter, hbefore] at hrow
    simp only [refreshed, hafter, hbefore]
    exact Option.some.inj hrow

/-- While Redis is off, the first layer of a request by keywords or a topic falls back to nothing. -/
theorem searchL1_offline {first call : RecallCall} (hoffline : OfflineRequest model caller params first)
    (hsame : SameSurroundings first call) (store : Store) (cursor : Option (ℕ × Time)) :
    searchL1 model.tools call.context.redisReady call.context.recency store
      (searchQuery (request params cursor call) caller call.context.now) = ([], true) := by
  have hready : call.context.redisReady = false := by
    have hcontext := congrArg SearchContext.redisReady hsame.surroundings
    exact hcontext.trans hoffline.offline
  have hnamed : ((truthy (searchQuery (request params cursor call) caller call.context.now).text).isSome &&
      (searchQuery (request params cursor call) caller call.context.now).keywords.isEmpty &&
        (searchQuery (request params cursor call) caller call.context.now).topic.isNone) = false := hoffline.named
  rw [searchL1, hnamed, hready]
  rfl

theorem kept_afterSearch {store : Store} {first call : RecallCall} (hoffline : OfflineRequest model caller params first)
    (hsame : SameSurroundings first call) (cursor : Option (ℕ × Time)) :
    (afterSearch model call store (searchQuery (request params cursor call) caller call.context.now)).fragments.rows.map
        (fun f => (f.id, f.emaActivation)) = store.fragments.rows.map (fun f => (f.id, f.emaActivation)) ∧
      (afterSearch model call store (searchQuery (request params cursor call) caller call.context.now)).links =
        store.links := by
  have hcached : ∀ (current : Store) (ready : Bool) (ids : List FragmentId) (keyIds : Option (List KeyId)),
      (cacheFragments ready current ids keyIds).fragments = current.fragments ∧
        (cacheFragments ready current ids keyIds).links = current.links := by
    intro current ready ids keyIds
    cases keyIds with
    | some _ => exact ⟨rfl, rfl⟩
    | none =>
      rw [cacheFragments]
      induction ids generalizing current with
      | nil => exact ⟨rfl, rfl⟩
      | cons id later ih =>
        obtain ⟨hfragments, hlinks⟩ := ih (cacheFragment ready current id none)
        exact ⟨hfragments.trans cacheFragment_fragments, hlinks.trans cacheFragment_links⟩
  simp only [afterSearch, searchL1_offline hoffline hsame, if_true, (hcached _ _ _ _).1, (hcached _ _ _ _).2]
  refine ⟨?_, rfl⟩
  rw [touchLinked, map_updateFragments _ _ fun _ => rfl, map_updateFragments _ _ fun _ => rfl]

theorem kept_afterRecall {store : Store} {first call : RecallCall} {walk : Walk}
    (hoffline : OfflineRequest model caller params first) (hsame : SameSurroundings first call)
    (h : Kept model caller params first store walk.store) :
    Kept model caller params first store (afterRecall model call walk.store caller (request params walk.cursor call)) := by
  obtain ⟨hactivation, hlinks⟩ := @kept_afterSearch model caller params walk.store first call hoffline hsame walk.cursor
  have hspread : ∀ current : Store, (current.updateFragments (fun f => call.activated.contains f.id)
      (spreadActivation call.context.now)).fragments.rows = current.fragments.rows := by
    intro current
    rw [hsame.spread]
    exact (List.map_congr_left fun f _ => if_neg (by simp)).trans (List.map_id _)
  refine ⟨h.bare.trans (sameBare_afterRecall model call _ caller _), ?_, fun hreads => ?_⟩
  · rw [← h.activation, ← hactivation]
    simp only [afterRecall]
    split
    · rw [(buildCoRetrievalLinks_keeps _ _).1, hspread]
    · rw [hspread]
  · have hsession : truthy (request params walk.cursor call).sessionId = none := hoffline.links hreads
    rw [← h.links hreads, ← hlinks]
    simp only [afterRecall, hsession, Option.isSome_none, Bool.and_false, Bool.false_eq_true, if_false]
    rfl

/-- Such a request is steady in every walk. -/
theorem steady_offline {store : Store} {first : RecallCall} {later : List RecallCall} (hscores : ScoresActivation model)
    (hoffline : OfflineRequest model caller params first) (hspread : first.activated = [])
    (hlater : ∀ call ∈ later, SameSurroundings first call) :
    StepsMeet (nextPage model caller params) (Steady model caller params store first) { store := store } (first :: later) := by
  have hfirst : SameSurroundings first first := ⟨rfl, rfl, rfl, hspread⟩
  have hlayer : firstLayer model first.context.toSearchContext store (firstQuery caller params first) = [] :=
    congrArg Prod.fst (searchL1_offline hoffline hfirst store none)
  have hsteady : ∀ (walk : Walk) (call : RecallCall), Kept model caller params first store walk.store →
      SameSurroundings first call → Steady model caller params store first walk call := by
    intro walk call hkept hsame
    refine ⟨hoffline.fragments, fun _ => ⟨hsame.range, hsame.surroundings, hsame.seen, ?_, ?_, hkept.links⟩⟩
    · exact hscores store walk.store (activation_refreshed hkept.activation)
    · rw [hlayer]
      exact ⟨fun f _ g _ hid => absurd hid List.not_mem_nil, fun id hid => absurd hid List.not_mem_nil⟩
  have hkeeps : ∀ (calls : List RecallCall) (walk : Walk), Kept model caller params first store walk.store →
      (∀ call ∈ calls, SameSurroundings first call) →
        StepsMeet (nextPage model caller params) (Steady model caller params store first) walk calls := by
    intro calls
    induction calls with
    | nil => exact fun _ _ _ => trivial
    | cons call later ih =>
      intro walk hkept hsame
      have hcall := hsame call List.mem_cons_self
      refine ⟨hsteady walk call hkept hcall, ih _ ?_ fun other hother => hsame other (List.mem_cons_of_mem _ hother)⟩
      rcases hended : walk.ended with _ | _
      · rw [nextPage_open hended]
        exact kept_afterRecall hoffline hcall hkept
      · rw [nextPage, if_pos hended]
        exact hkept
  refine hkeeps (first :: later) { store := store } ⟨SameBare.refl store, rfl, fun _ => rfl⟩ fun call hcall => ?_
  rcases List.mem_cons.mp hcall with rfl | hmem
  · exact hfirst
  · exact hlater call hmem

/-! ## Two rows on two pages -/

/-- Scores of rows that match their query alike, with the boost of a small activation to the first order. -/
def vpnModel : SearchModel :=
  { sampleModel with
    implicitTokens := fun _ => ["vpn"]
    rankScore := fun _ hit => 4 / 10 * (hit.row.importance + hit.row.emaActivation.getD 0 / 10) + 3 / 10 +
      if hit.kwExact then 35 / 100 else 0
    recallScore := fun _ hit => 85 / 100 * (4 / 10 * hit.row.importance + 3 / 10) + 18 / 100 }

def activeRow (id : FragmentId) (activation : ℚ) : Fragment :=
  { sampleFragment with id := id, contentHash := id, emaActivation := some activation }

def activeRows : Store where
  fragments := [activeRow "frag-01" (2 / 10), activeRow "frag-02" (1 / 10)].foldl
    (fun table f => (table.insert f).getD table) Table.empty

/-- The first row was read a day before, the second one a second before. -/
def pageCall (now : Time) : RecallCall where
  context := { now := now, redisReady := false }
  activation f := if f.id = "frag-01" then 141 / 1000 else 37 / 100

theorem scoresActivation_vpnModel : ScoresActivation vpnModel := by
  intro before after h
  have hrank : (seenIn vpnModel after).rankScore = (seenIn vpnModel before).rankScore := by
    funext anchorTime hit
    have hactivation : (refreshedHit after hit).row.emaActivation = (refreshedHit before hit).row.emaActivation :=
      h hit.row
    simp only [seenIn, vpnModel, hactivation]
    rfl
  exact congrArg (fun rank => { seenIn vpnModel before with rankScore := rank }) hrank

theorem pages_partition_keywords :
    PagesPartition vpnModel sampleCaller { keywords := ["vpn"], pageSize := some 1 } activeRows (pageCall 9)
      [pageCall 10, pageCall 11] := by
  refine pages_partition vpnModel sampleCaller { keywords := ["vpn"], pageSize := some 1 } activeRows (pageCall 9)
    [pageCall 10, pageCall 11] (steady_offline scoresActivation_vpnModel ⟨rfl, rfl, by decide, fun _ => rfl⟩ rfl ?_) _
      List.prefix_rfl
  intro call hcall
  rcases List.mem_cons.mp hcall with rfl | hcall
  · exact ⟨rfl, rfl, rfl, rfl⟩
  · rw [List.mem_singleton.mp hcall]
    exact ⟨rfl, rfl, rfl, rfl⟩

theorem walk_ends_keywords : (walkOf vpnModel sampleCaller { keywords := ["vpn"], pageSize := some 1 } activeRows
    (pageCall 9) [pageCall 10, pageCall 11]).ended = true :=
  walk_ends activeRows (pageCall 9) [pageCall 10, pageCall 11] (by decide)

/-- A search for a text changes the activation of both rows, and the second page starts with the row of the first one. -/
theorem pages_repeat :
    ¬ PagesPartition vpnModel sampleCaller { text := some "Which tunnel?", pageSize := some 1 } activeRows (pageCall 9)
      [pageCall 10] :=
  fun h => absurd h.once (by decide +kernel)

end FragmentMemory.SteadyRecalls
