import FragmentMemory.StageSelection

/-! # Groups of a compression

`_buildCompressionGroups` over any answers of its neighbour queries.  The queries of a batch run before a row of the
batch is assigned, so an answer may name rows that have been grouped since, rows outside the candidates and the rows
of other seeds.
-/
namespace FragmentMemory.CompressionGroups
open FragmentTables PairSteps GraphLinker MemoryConsolidator

/-! ## Batches of a list -/

section batches

variable {α β : Type*}

theorem nodup_eraseDups [BEq α] [LawfulBEq α] (items : List α) : items.eraseDups.Nodup := by
  have hlength : ∀ count, ∀ part : List α, part.length ≤ count → part.eraseDups.Nodup := by
    intro count
    induction count with
    | zero =>
      intro part hpart
      rw [List.length_eq_zero_iff.mp (Nat.le_zero.mp hpart)]
      exact List.nodup_nil
    | succ count ih =>
      intro part hpart
      cases part with
      | nil => exact List.nodup_nil
      | cons item later =>
        rw [List.eraseDups_cons, List.nodup_cons]
        refine ⟨fun hmem => ?_, ih _ ?_⟩
        · have hdifferent := (List.mem_filter.mp (List.mem_eraseDups.mp hmem)).2
          simp at hdifferent
        · have hfilter := List.length_filter_le (fun other => !other == item) later
          rw [List.length_cons] at hpart
          omega
  exact hlength items.length items le_rfl

theorem flatten_go (size : ℕ) (items : List α) (batch : Array α) (batches : Array (List α)) :
    (List.toChunks.go size items batch batches).flatten = batches.toList.flatten ++ batch.toList ++ items := by
  induction items generalizing batch batches with
  | nil =>
    show (batches.push batch.toList).toList.flatten = _
    simp
  | cons item later ih =>
    have hstep : List.toChunks.go size (item :: later) batch batches =
        if batch.size == size then List.toChunks.go size later #[item] (batches.push batch.toList)
        else List.toChunks.go size later (batch.push item) batches := rfl
    rw [hstep]
    split
    · rw [ih]
      simp
    · rw [ih]
      simp

theorem flatten_toChunks (size : ℕ) (items : List α) : (items.toChunks (size + 1)).flatten = items := by
  cases items with
  | nil => rfl
  | cons item later => exact flatten_go (size + 1) later #[item] #[]

/-- A loop over batches is the loop over the items. -/
theorem foldl_toChunks (step : β → α → β) (size : ℕ) (items : List α) (state : β) :
    (items.toChunks (size + 1)).foldl (fun current batch => batch.foldl step current) state = items.foldl step state := by
  rw [← List.foldl_flatten, flatten_toChunks]

end batches

/-! ## The groups -/

/-- A row that a neighbour query answers. -/
structure Neighbor where
  id : FragmentId
  importance : ℚ
  accessCount : ℕ
  cosineSimilarity : ℚ
  deriving DecidableEq

/-- A group: the row around which it is formed and the rows that joined it, in their order. -/
structure CompressionGroup where
  seed : Fragment
  neighbors : List Neighbor
  deriving DecidableEq

def CompressionGroup.ids (group : CompressionGroup) : List FragmentId :=
  group.seed.id :: group.neighbors.map Neighbor.id

/-- The rows that are assigned so far in a topic, and its groups. -/
structure Grouping where
  assigned : List FragmentId := []
  groups : List CompressionGroup := []

/-- The loop over the neighbours of a row, with the rows assigned so far and those that have joined the group. -/
def joinNeighbors : List FragmentId → List Neighbor → List Neighbor → List FragmentId × List Neighbor
  | assigned, joined, [] => (assigned, joined)
  | assigned, joined, neighbor :: later =>
    if assigned.contains neighbor.id then joinNeighbors assigned joined later
    else if neighbor.cosineSimilarity < 80 / 100 then (assigned, joined)
    else if 10 ≤ 1 + joined.length then (assigned, joined)
    else joinNeighbors (assigned ++ [neighbor.id]) (joined ++ [neighbor]) later

/-- The turn of a row with the answer of its query. -/
def groupRow (minGroup : ℕ) (grouping : Grouping) (fetched : Fragment × List Neighbor) : Grouping :=
  if grouping.assigned.contains fetched.1.id then grouping
  else
    let (assigned, joined) := joinNeighbors (grouping.assigned ++ [fetched.1.id]) [] fetched.2
    { assigned := assigned
      groups := if minGroup ≤ 1 + joined.length then grouping.groups ++ [⟨fetched.1, joined⟩] else grouping.groups }

/-- What the neighbour query of a row answers, none when it fails. -/
abbrev Answers := Fragment → Option (List Neighbor)

variable (answers : Answers) (minGroup : ℕ)

/-- `.catch(() => ({ rows: [] }))`. -/
def fetch (frag : Fragment) : Fragment × List Neighbor := (frag, (answers frag).getD [])

theorem mem_fetch {answers : Answers} {frag : Fragment} {neighbor : Neighbor} (h : neighbor ∈ (fetch answers frag).2) :
    ∃ answer, answers frag = some answer ∧ neighbor ∈ answer := by
  have h' : neighbor ∈ (answers frag).getD [] := h
  cases hanswer : answers frag with
  | none =>
    rw [hanswer] at h'
    exact absurd h' List.not_mem_nil
  | some answer =>
    rw [hanswer] at h'
    exact ⟨answer, rfl, h'⟩

/-- A batch: the queries of its rows not yet assigned, then the turns of these rows. -/
def groupBatch (grouping : Grouping) (batch : List Fragment) : Grouping :=
  let unassignedBatch := batch.filter fun frag => !grouping.assigned.contains frag.id
  (unassignedBatch.map (fetch answers)).foldl (groupRow minGroup) grouping

/-- The groups of the rows of one topic. -/
def groupTopic (frags : List Fragment) : List CompressionGroup :=
  ((frags.toChunks 20).foldl (groupBatch answers minGroup) {}).groups

/-- The rows of a topic. -/
def rowsOf (rows : List Fragment) (topic : String) : List Fragment := rows.filter fun row => row.topic = topic

/-- The keys and the values of `topicMap`, the topics in the order of their first rows. -/
def topicMap (rows : List Fragment) : List (String × List Fragment) :=
  let named := rows.filter fun row => row.topic ≠ ""
  (named.map Fragment.topic).eraseDups.map fun topic => (topic, rowsOf named topic)

/-- `_buildCompressionGroups`. -/
def buildCompressionGroups (rows : List Fragment) : List CompressionGroup :=
  ((topicMap rows).filter fun entry => minGroup ≤ entry.2.length).flatMap fun entry =>
    groupTopic answers minGroup entry.2

def neighborRow (embeddings : Embeddings) (frag row : Fragment) : Neighbor where
  id := row.id
  importance := row.importance
  accessCount := row.accessCount
  cosineSimilarity := embeddings.similarity frag.id row.id

/-- The neighbour query in a store. -/
def neighborRows (embeddings : Embeddings) (now : Time) (config : ConsolidationConfig) (store : Store)
    (frag : Fragment) :
    List Neighbor :=
  (compressNeighbors embeddings now config store frag).map (neighborRow embeddings frag)

/-! ## What one row adds -/

/-- The rows that join a group are new, near to its seed and at most nine. -/
structure Joins (assigned : List FragmentId) (answer taken : List Neighbor) (room : ℕ) : Prop where
  named : ∀ neighbor ∈ taken, neighbor ∈ answer
  near : ∀ neighbor ∈ taken, 80 / 100 ≤ neighbor.cosineSimilarity
  nodup : (assigned ++ taken.map Neighbor.id).Nodup
  fits : taken.length ≤ room

theorem Joins.nothing {assigned : List FragmentId} (hassigned : assigned.Nodup) (answer : List Neighbor) (room : ℕ) :
    Joins assigned answer [] room where
  named _ hmem := absurd hmem List.not_mem_nil
  near _ hmem := absurd hmem List.not_mem_nil
  nodup := by rwa [List.map_nil, List.append_nil]
  fits := Nat.zero_le room

/-- By induction on the answer: what has joined and the room that is left add up to nine. -/
theorem joinNeighbors_spec {assigned : List FragmentId} {joined : List Neighbor} (hassigned : assigned.Nodup)
    (answer : List Neighbor) {room : ℕ} (hroom : joined.length + room = 9) :
    ∃ taken, joinNeighbors assigned joined answer = (assigned ++ taken.map Neighbor.id, joined ++ taken) ∧
      Joins assigned answer taken room := by
  induction answer generalizing assigned joined room with
  | nil => exact ⟨[], by simp [joinNeighbors], Joins.nothing hassigned [] room⟩
  | cons neighbor later ih =>
    simp only [joinNeighbors]
    split
    · obtain ⟨taken, hresult, hjoins⟩ := ih hassigned hroom
      exact ⟨taken, hresult, { hjoins with named := fun other hmem => List.mem_cons_of_mem _ (hjoins.named other hmem) }⟩
    · rename_i hnew
      split
      · exact ⟨[], by simp, Joins.nothing hassigned _ room⟩
      · rename_i hnear
        split
        · exact ⟨[], by simp, Joins.nothing hassigned _ room⟩
        · rename_i hfree
          have hassigned' : (assigned ++ [neighbor.id]).Nodup := by
            refine List.nodup_append.mpr ⟨hassigned, List.nodup_singleton _, ?_⟩
            intro id hid other hother heq
            rw [List.mem_singleton.mp hother] at heq
            exact hnew (List.contains_iff_mem.mpr (heq ▸ hid))
          have hroom' : (joined ++ [neighbor]).length + (room - 1) = 9 := by
            rw [List.length_append, List.length_singleton]
            omega
          obtain ⟨taken, hresult, hjoins⟩ := ih hassigned' hroom'
          refine ⟨neighbor :: taken, by rw [hresult]; simp, ?_, ?_, ?_, ?_⟩
          · intro other hother
            rcases List.mem_cons.mp hother with rfl | hlater
            · exact List.mem_cons_self
            · exact List.mem_cons_of_mem _ (hjoins.named other hlater)
          · intro other hother
            rcases List.mem_cons.mp hother with rfl | hlater
            · exact not_lt.mp hnear
            · exact hjoins.near other hlater
          · have hnodup := hjoins.nodup
            rwa [List.append_assoc, List.singleton_append] at hnodup
          · have hfits := hjoins.fits
            rw [List.length_cons]
            omega

/-- A group as the code builds it: a row and rows of the answer to its query. -/
structure Coherent (rows : List Fragment) (group : CompressionGroup) : Prop where
  seed : group.seed ∈ rows
  answered : ∀ neighbor ∈ group.neighbors, neighbor ∈ (fetch answers group.seed).2
  near : ∀ neighbor ∈ group.neighbors, 80 / 100 ≤ neighbor.cosineSimilarity
  lower : minGroup ≤ group.ids.length
  upper : group.ids.length ≤ 10

/-- The invariant of the rows of a topic: the groups take their rows from the assigned ones, none twice. -/
structure Grouping.Sound (rows : List Fragment) (grouping : Grouping) : Prop where
  assigned : grouping.assigned.Nodup
  partition : List.Sublist (grouping.groups.flatMap CompressionGroup.ids) grouping.assigned
  coherent : ∀ group ∈ grouping.groups, Coherent answers minGroup rows group

variable {answers minGroup}

theorem Grouping.Sound.empty (rows : List Fragment) : Grouping.Sound answers minGroup rows {} where
  assigned := List.nodup_nil
  partition := List.Sublist.refl []
  coherent _ hmem := absurd hmem List.not_mem_nil

/-- A turn: the row and those that join it are new among the assigned rows, in a group or not. -/
theorem Grouping.Sound.groupRow {rows : List Fragment} {grouping : Grouping}
    (h : Grouping.Sound answers minGroup rows grouping)
    {frag : Fragment} (hfrag : frag ∈ rows) :
    Grouping.Sound answers minGroup rows (groupRow minGroup grouping (fetch answers frag)) := by
  rw [CompressionGroups.groupRow]
  split
  · exact h
  · rename_i hnew
    have hassigned : (grouping.assigned ++ [frag.id]).Nodup := by
      refine List.nodup_append.mpr ⟨h.assigned, List.nodup_singleton _, ?_⟩
      intro id hid other hother heq
      rw [List.mem_singleton.mp hother] at heq
      exact hnew (List.contains_iff_mem.mpr (heq ▸ hid))
    have hroom : ([] : List Neighbor).length + 9 = 9 := rfl
    obtain ⟨taken, hresult, hjoins⟩ := joinNeighbors_spec hassigned (fetch answers frag).2 hroom
    have hseed : (fetch answers frag).1 = frag := rfl
    rw [hseed, hresult]
    have hids : (grouping.assigned ++ [frag.id]) ++ taken.map Neighbor.id =
        grouping.assigned ++ CompressionGroup.ids ⟨frag, taken⟩ := by
      rw [List.append_assoc, List.singleton_append]
      rfl
    refine ⟨hjoins.nodup, ?_, ?_⟩
    · dsimp only
      rw [hids, List.nil_append]
      split
      · rw [List.flatMap_append, List.flatMap_singleton]
        exact h.partition.append (List.Sublist.refl _)
      · exact h.partition.trans (List.sublist_append_left _ _)
    · intro group hgroup
      dsimp only at hgroup
      rw [List.nil_append] at hgroup
      split at hgroup
      · rename_i hlarge
        rcases List.mem_append.mp hgroup with hold | hadded
        · exact h.coherent group hold
        · rw [List.mem_singleton.mp hadded]
          have hlength : (CompressionGroup.ids ⟨frag, taken⟩).length = 1 + taken.length := by
            rw [CompressionGroup.ids, List.length_cons, List.length_map, Nat.add_comm]
          have hfits := hjoins.fits
          exact ⟨hfrag, hjoins.named, hjoins.near, by omega, by omega⟩
      · exact h.coherent group hgroup

/-! ## Batches and topics -/

theorem mem_joinNeighbors {assigned : List FragmentId} {id : FragmentId} (joined answer : List Neighbor)
    (h : id ∈ assigned) : id ∈ (joinNeighbors assigned joined answer).1 := by
  induction answer generalizing assigned joined with
  | nil => exact h
  | cons neighbor later ih =>
    simp only [joinNeighbors]
    split
    · exact ih joined h
    · split
      · exact h
      · split
        · exact h
        · exact ih _ (List.mem_append_left _ h)

/-- A turn keeps what is assigned. -/
theorem assigned_groupRow (grouping : Grouping) (fetched : Fragment × List Neighbor) {id : FragmentId}
    (h : grouping.assigned.contains id = true) : (groupRow minGroup grouping fetched).assigned.contains id = true := by
  rw [groupRow]
  split
  · exact h
  · rw [List.contains_iff_mem] at h ⊢
    exact mem_joinNeighbors [] fetched.2 (List.mem_append_left _ h)

/-- The rows that a batch leaves out would have been skipped at their turns. -/
theorem groupBatch_eq (grouping : Grouping) (batch : List Fragment) :
    groupBatch answers minGroup grouping batch =
      batch.foldl (fun current frag => groupRow minGroup current (fetch answers frag)) grouping := by
  have hskip : ∀ current : Grouping, (∀ id, grouping.assigned.contains id = true →
    current.assigned.contains id = true) →
      ((batch.filter fun frag => !grouping.assigned.contains frag.id).map (fetch answers)).foldl (groupRow minGroup) current =
        batch.foldl (fun later frag => groupRow minGroup later (fetch answers frag)) current := by
    induction batch with
    | nil => exact fun _ _ => rfl
    | cons frag rest ih =>
      intro current hkept
      rw [List.foldl_cons, List.filter_cons]
      have hkept' : ∀ id, grouping.assigned.contains id = true →
          (groupRow minGroup current (fetch answers frag)).assigned.contains id = true :=
        fun id hid => assigned_groupRow current (fetch answers frag) (hkept id hid)
      by_cases hassigned : grouping.assigned.contains frag.id = true
      · have hskipped : groupRow minGroup current (fetch answers frag) = current := if_pos (hkept _ hassigned)
        rw [if_neg (by rw [hassigned]; decide), hskipped]
        exact ih current hkept
      · have hopen : (!grouping.assigned.contains frag.id) = true := by
          rw [Bool.not_eq_true] at hassigned
          rw [hassigned]
          rfl
        rw [if_pos hopen, List.map_cons, List.foldl_cons]
        exact ih _ hkept'
  exact hskip grouping fun _ hid => hid

/-- The batches only run the queries side by side. -/
theorem groupTopic_eq (frags : List Fragment) :
    groupTopic answers minGroup frags =
      (frags.foldl (fun current frag => groupRow minGroup current (fetch answers frag)) {}).groups := by
  have hbatch : groupBatch answers minGroup =
      fun grouping batch => batch.foldl (fun current frag => groupRow minGroup current (fetch answers frag)) grouping := by
    funext grouping batch
    exact groupBatch_eq grouping batch
  rw [groupTopic, hbatch, foldl_toChunks]

/-- The groups of one topic. -/
theorem groupTopic_spec (frags : List Fragment) :
    ((groupTopic answers minGroup frags).flatMap CompressionGroup.ids).Nodup ∧
      ∀ group ∈ groupTopic answers minGroup frags, Coherent answers minGroup frags group := by
  have hsound : ∀ rows : List Fragment, (∀ frag ∈ rows, frag ∈ frags) → ∀ grouping : Grouping,
      Grouping.Sound answers minGroup frags grouping →
      Grouping.Sound answers minGroup frags
        (rows.foldl (fun current frag => groupRow minGroup current (fetch answers frag)) grouping) := by
    intro rows
    induction rows with
    | nil => exact fun _ _ h => h
    | cons frag later ih =>
      intro hrows grouping h
      exact ih (fun other hother => hrows other (List.mem_cons_of_mem _ hother)) _ (h.groupRow (hrows frag List.mem_cons_self))
  have hrun := hsound frags (fun _ hfrag => hfrag) {} (Grouping.Sound.empty frags)
  rw [groupTopic_eq]
  exact ⟨hrun.assigned.sublist hrun.partition, hrun.coherent⟩

/-- The rows of a group have the topic of its seed. -/
theorem ids_topic {topicOf : FragmentId → String} {rows : List Fragment} {group : CompressionGroup}
    (h : Coherent answers minGroup rows group) (hrows : ∀ row ∈ rows, topicOf row.id = row.topic)
    (hanswers : ∀ row ∈ rows, ∀ neighbor ∈ (fetch answers row).2, topicOf neighbor.id = row.topic) :
    ∀ id ∈ group.ids, topicOf id = group.seed.topic := by
  intro id hid
  rcases List.mem_cons.mp hid with rfl | hneighbor
  · exact hrows _ h.seed
  · obtain ⟨neighbor, hmem, rfl⟩ := List.mem_map.mp hneighbor
    exact hanswers _ h.seed neighbor (h.answered neighbor hmem)

/-- An entry of `topicMap` lists rows of its topic. -/
theorem mem_topicMap {rows : List Fragment} {entry : String × List Fragment} (h : entry ∈ topicMap rows) :
    ∀ row ∈ entry.2, row ∈ rows ∧ row.topic = entry.1 := by
  obtain ⟨topic, -, rfl⟩ := List.mem_map.mp h
  intro row hrow
  obtain ⟨hnamed, htopic⟩ := List.mem_filter.mp hrow
  exact ⟨(List.mem_filter.mp hnamed).1, of_decide_eq_true htopic⟩

/-- A row grouped in a topic has this topic. -/
theorem topic_of_mem {topicOf : FragmentId → String} {rows : List Fragment}
    (hrows : ∀ row ∈ rows, topicOf row.id = row.topic)
    (hanswers : ∀ row ∈ rows, ∀ neighbor ∈ (fetch answers row).2, topicOf neighbor.id = row.topic)
    {entry : String × List Fragment} (hentry : entry ∈ topicMap rows) {id : FragmentId}
    (h : id ∈ (groupTopic answers minGroup entry.2).flatMap CompressionGroup.ids) : topicOf id = entry.1 := by
  obtain ⟨group, hgroup, hid⟩ := List.mem_flatMap.mp h
  have hcoherent := (groupTopic_spec entry.2).2 group hgroup
  have hmem : ∀ row ∈ entry.2, row ∈ rows := fun row hrow => (mem_topicMap hentry row hrow).1
  rw [ids_topic hcoherent (fun row hrow => hrows row (hmem row hrow)) (fun row hrow => hanswers row (hmem row hrow)) id hid]
  exact (mem_topicMap hentry _ hcoherent.seed).2

/-! ## The queries of a store -/

section store

variable {embeddings : Embeddings} {now : Time} {config : ConsolidationConfig} {store : Store}

/-- By induction on the answer: the group and the assigned rows grow alike. -/
theorem joinGroup_ids (frag : Fragment) (assigned : List FragmentId) (rows group : List Fragment)
    (joined : List Neighbor)
    (hgroup : group.map Fragment.id = frag.id :: joined.map Neighbor.id) :
    ∃ members, joinNeighbors (assigned ++ group.map Fragment.id) joined (rows.map (neighborRow embeddings frag)) =
        (assigned ++ (joinGroup embeddings frag assigned group rows).map Fragment.id, members) ∧
      (joinGroup embeddings frag assigned group rows).map Fragment.id = frag.id :: members.map Neighbor.id := by
  induction rows generalizing group joined with
  | nil => exact ⟨joined, rfl, hgroup⟩
  | cons row later ih =>
    have hcontains : (assigned ++ group.map Fragment.id).contains (neighborRow embeddings frag row).id =
        (assigned.contains row.id || (group.map Fragment.id).contains row.id) := List.contains_append
    have hlength : group.length = 1 + joined.length := by
      have hlengths := congrArg List.length hgroup
      rw [List.length_map, List.length_cons, List.length_map] at hlengths
      omega
    have hcosine : (neighborRow embeddings frag row).cosineSimilarity = embeddings.similarity frag.id row.id := rfl
    rw [List.map_cons, joinNeighbors, joinGroup, hcontains, hcosine, hlength]
    by_cases hknown : (assigned.contains row.id || (group.map Fragment.id).contains row.id) = true
    · rw [if_pos hknown, if_pos hknown]
      exact ih group joined hgroup
    · rw [if_neg hknown, if_neg hknown]
      by_cases hfar : embeddings.similarity frag.id row.id < 80 / 100
      · rw [if_pos hfar, if_pos hfar]
        exact ⟨joined, rfl, hgroup⟩
      · rw [if_neg hfar, if_neg hfar]
        by_cases hfull : 10 ≤ 1 + joined.length
        · rw [if_pos hfull, if_pos hfull]
          exact ⟨joined, rfl, hgroup⟩
        · rw [if_neg hfull, if_neg hfull]
          have hgrown : (group ++ [row]).map Fragment.id =
              frag.id :: (joined ++ [neighborRow embeddings frag row]).map Neighbor.id := by
            rw [List.map_append, hgroup, List.map_append]
            rfl
          have hassigned : assigned ++ group.map Fragment.id ++ [(neighborRow embeddings frag row).id] =
              assigned ++ (group ++ [row]).map Fragment.id := by
            rw [List.map_append, List.append_assoc]
            rfl
          rw [hassigned]
          exact ih _ _ hgrown

/-- The state of a loop in both forms. -/
def Alike (grouping : Grouping) (state : List FragmentId × List (List Fragment)) : Prop :=
  grouping.assigned = state.1 ∧ grouping.groups.map CompressionGroup.ids = state.2.map (List.map Fragment.id)

theorem alike_groupRow {grouping : Grouping} {state : List FragmentId × List (List Fragment)} (h : Alike grouping state)
    (frag : Fragment) :
    Alike (groupRow config.minGroup grouping (frag, neighborRows embeddings now config store frag))
      (groupFragment embeddings now config store state frag) := by
  obtain ⟨hassigned, hgroups⟩ := h
  obtain ⟨members, hjoined, hids⟩ := @joinGroup_ids embeddings frag state.1
    (compressNeighbors embeddings now config store frag) [frag] [] rfl
  rw [groupRow, groupFragment, hassigned]
  split
  · exact ⟨hassigned, hgroups⟩
  · have hmembers : joinNeighbors (state.1 ++ [frag.id]) [] (neighborRows embeddings now config store frag) =
        (state.1 ++ (joinGroup embeddings frag state.1 [frag] (compressNeighbors embeddings now config store frag)).map
          Fragment.id, members) := hjoined
    dsimp only
    rw [hmembers]
    generalize joinGroup embeddings frag state.1 [frag] (compressNeighbors embeddings now config store frag) = group at hids
    have hlength : group.length = 1 + members.length := by
      have hlengths := congrArg List.length hids
      rw [List.length_map, List.length_cons, List.length_map] at hlengths
      omega
    refine ⟨rfl, ?_⟩
    dsimp only
    rw [hlength]
    split
    · rw [List.map_append, List.map_append, hgroups, List.map_singleton, List.map_singleton, hids]
      rfl
    · exact hgroups

/-- The groups of a compression are those of its queries, all answered from one store. -/
theorem compressionGroups_ids :
    (buildCompressionGroups (fun frag => some (neighborRows embeddings now config store frag)) config.minGroup
        (compressCandidates embeddings now config store)).map CompressionGroup.ids =
      (compressionGroups embeddings now config store).map (List.map Fragment.id) := by
  have hloop : ∀ (frags : List Fragment) (grouping : Grouping) (state : List FragmentId × List (List Fragment)),
      Alike grouping state →
      Alike (frags.foldl (fun current frag => groupRow config.minGroup current
          (frag, neighborRows embeddings now config store frag)) grouping)
        (frags.foldl (groupFragment embeddings now config store) state) := by
    intro frags
    induction frags with
    | nil => exact fun _ _ h => h
    | cons frag later ih => exact fun _ _ h => ih _ _ (alike_groupRow h frag)
  have htopic : ∀ frags : List Fragment,
      (groupTopic (fun frag => some (neighborRows embeddings now config store frag)) config.minGroup frags).map
          CompressionGroup.ids =
        (frags.foldl (groupFragment embeddings now config store) ([], [])).2.map (List.map Fragment.id) := by
    intro frags
    rw [groupTopic_eq]
    exact (hloop frags {} ([], []) ⟨rfl, rfl⟩).2
  simp only [buildCompressionGroups, compressionGroups, topicMap, rowsOf, List.filter_map, List.flatMap_map,
    List.map_flatMap,
    htopic]
  rfl

end store

def oldRow (id : FragmentId) (topic : String) (importance : ℚ) : Fragment where
  id := id
  content := "old note " ++ id
  topic := topic
  type := .fact
  importance := importance
  contentHash := "hash of " ++ id
  keyId := none
  createdAt := 0

def oldRows : List Fragment :=
  [oldRow "a" "deploy" (4 / 10), oldRow "b" "deploy" (3 / 10), oldRow "c" "deploy" (2 / 10), oldRow "d" "deploy" (1 / 10),
    oldRow "m" "billing" (4 / 10), oldRow "n" "billing" (3 / 10), oldRow "o" "billing" (2 / 10)]

/-- A row outside the candidates joins the first group, the query of `d` fails, and the billing rows lie apart. -/
def oldAnswers : Answers := fun row =>
  if row.id = "a" then some [⟨"b", 3 / 10, 2, 95 / 100⟩, ⟨"x", 1 / 10, 7, 85 / 100⟩, ⟨"c", 2 / 10, 0, 79 / 100⟩]
  else if row.id = "c" then some [⟨"b", 3 / 10, 2, 99 / 100⟩, ⟨"d", 1 / 10, 1, 80 / 100⟩]
  else if row.id = "d" then none
  else if row.topic = "billing" then some [⟨"n", 3 / 10, 1, 1 / 2⟩]
  else some []

def topicOfOld (id : FragmentId) : String := if ["m", "n", "o"].contains id then "billing" else "deploy"

end FragmentMemory.CompressionGroups
