import FragmentMemory.KeyedAccumulation
import Mathlib.Algebra.BigOperators.Group.List.Basic
import Mathlib.Algebra.Order.Ring.Rat
import Mathlib.Data.List.Sort

/-! # Reciprocal rank fusion of the search layers

`mergeRRF` adds the reciprocal ranks of an id over all layers and keeps the first object seen for
it.  The text search then removes the entries without content before the importance cutoff.
Scores are exact rationals.
-/
namespace FragmentMemory.RankFusion

open KeyedAccumulation

/-- A fragment object in a search layer.  Fusion carries the other columns along unread. -/
structure SearchFragment (ρ : Type) where
  id : String
  content : Option String
  importance : Option ℚ
  isAnchor : Bool
  columns : ρ
  deriving DecidableEq

/-- A ranked result: L1 lists bare ids, the other layers list objects. -/
inductive SearchItem (ρ : Type)
  | bareId (id : String)
  | object (fragment : SearchFragment ρ)
  deriving DecidableEq

structure Layer (ρ : Type) where
  name : String
  results : List (SearchItem ρ)
  weightFactor : ℚ := 1

/-- An entry of the score map: the first item seen for its id, spread with `_rrfScore`. -/
structure Fused (ρ : Type) where
  item : SearchItem ρ
  rrfScore : ℚ
  deriving DecidableEq

variable {ρ : Type}

namespace SearchItem

def id : SearchItem ρ → String
  | .bareId id => id
  | .object fragment => fragment.id

/-- `undefined` for a bare id, which is stored as `{ id, _rrfScore }`. -/
def content : SearchItem ρ → Option String
  | .bareId _ => none
  | .object fragment => fragment.content

end SearchItem

def Fused.id (entry : Fused ρ) : String := entry.item.id

def Fused.content (entry : Fused ρ) : Option String := entry.item.content

def rankScore (k weightFactor : ℚ) (rank : ℕ) : ℚ := weightFactor / (k + rank + 1)

/-- The items of one layer with the score of their rank, in rank order. -/
def Layer.scored (k : ℚ) (layer : Layer ρ) : List (SearchItem ρ × ℚ) :=
  layer.results.zipIdx.map fun (item, rank) => (item, rankScore k layer.weightFactor rank)

/-- The score map of `mergeRRF`: a later occurrence only adds its score. -/
def scoreMap : Accumulator String (Fused ρ) (SearchItem ρ × ℚ) where
  entryKey := Fused.id
  itemKey occurrence := occurrence.1.id
  create occurrence := ⟨occurrence.1, occurrence.2⟩
  absorb entry occurrence := { entry with rrfScore := entry.rrfScore + occurrence.2 }
  entryKey_create _ := rfl
  entryKey_absorb _ _ := rfl

def occurrenceStream (layers : List (Layer ρ)) (k : ℚ) : List (SearchItem ρ × ℚ) :=
  layers.flatMap (Layer.scored k)

def higherScoreFirst (a b : Fused ρ) : Bool := b.rrfScore ≤ a.rrfScore

def mergeRRF (layers : List (Layer ρ)) (k : ℚ) : List (Fused ρ) :=
  (scoreMap.collect (occurrenceStream layers k)).mergeSort higherScoreFirst

/-- What the text search feeds to the importance cutoff. -/
def fusedCandidates (layers : List (Layer ρ)) (k : ℚ) : List (Fused ρ) :=
  (mergeRRF layers k).filter fun entry => entry.content.isSome

/-- The `rrfSearch` weights and the layer results that `_buildTextRRF` combines. -/
structure TextSearch (ρ : Type) where
  l1WeightFactor : ℚ
  graphWeightFactor : ℚ
  l1Ids : List String
  l1IsFallback : Bool
  cached : List (SearchFragment ρ)
  l2Results : List (SearchFragment ρ)
  graphResults : List (SearchFragment ρ)
  l3Results : List (SearchFragment ρ)
  temporalResults : List (SearchFragment ρ)
  hasTimeRange : Bool

def TextSearch.rrfLayers (search : TextSearch ρ) : List (Layer ρ) :=
  [ { name := "l1", results := search.l1Ids.map .bareId,
      weightFactor := if search.l1IsFallback then 1 / 2 else search.l1WeightFactor },
    { name := "l2", results := (search.cached ++ search.l2Results).map .object },
    { name := "graph", results := search.graphResults.map .object,
      weightFactor := search.graphWeightFactor },
    { name := "l3", results := search.l3Results.map .object } ] ++
  if search.temporalResults.isEmpty then [] else
    [ { name := "temporal", results := search.temporalResults.map .object,
        weightFactor := if search.hasTimeRange then 2 else 1 } ]

/-- The sum of `weight / (k + rank + 1)` over all occurrences of an id in all layers. -/
def totalScore (layers : List (Layer ρ)) (k : ℚ) (id : String) : ℚ :=
  (layers.map fun layer =>
    ((layer.results.zipIdx.filter fun (item, _) => item.id = id).map fun (_, rank) =>
      rankScore k layer.weightFactor rank).sum).sum

/-- All items of all layers, in the order in which fusion reads them. -/
def readOrder (layers : List (Layer ρ)) : List (SearchItem ρ) := layers.flatMap (·.results)

def SuppliesContent (layers : List (Layer ρ)) (id content : String) : Prop :=
  ∃ item ∈ readOrder layers, item.id = id ∧ item.content = some content

/-- The fused list loses no supplied content and carries the full scores in descending order. -/
structure Lossless (layers : List (Layer ρ)) (k : ℚ) (fused : List (Fused ρ)) : Prop where
  complete : ∀ id content, SuppliesContent layers id content → ∃ entry ∈ fused, entry.id = id
  once : (fused.map Fused.id).Nodup
  supplied : ∀ entry ∈ fused, ∃ content, entry.content = some content ∧
    SuppliesContent layers entry.id content
  scored : ∀ entry ∈ fused, entry.rrfScore = totalScore layers k entry.id
  sorted : fused.Pairwise fun a b => b.rrfScore ≤ a.rrfScore

/-- Every id for which a layer supplies content is first read with content. -/
def ContentReadFirst (layers : List (Layer ρ)) : Prop :=
  ∀ id content, SuppliesContent layers id content →
    ∃ first, (readOrder layers).find? (fun item => item.id = id) = some first ∧ first.content.isSome

/-! ## The score map -/

theorem mem_mergeRRF (layers : List (Layer ρ)) (k : ℚ) (entry : Fused ρ) :
    entry ∈ mergeRRF layers k ↔ entry ∈ scoreMap.collect (occurrenceStream layers k) :=
  (List.mergeSort_perm _ _).mem_iff

theorem mergeRRF_nodup (layers : List (Layer ρ)) (k : ℚ) :
    ((mergeRRF layers k).map Fused.id).Nodup :=
  ((List.mergeSort_perm _ _).map _).nodup_iff.mpr (scoreMap.nodup_collect _)

theorem mergeRRF_sorted (layers : List (Layer ρ)) (k : ℚ) :
    (mergeRRF layers k).Pairwise fun a b => b.rrfScore ≤ a.rrfScore := by
  have hsorted : (mergeRRF layers k).Pairwise fun a b => higherScoreFirst a b = true := by
    apply List.pairwise_mergeSort
    · intro a b c hab hbc
      simp only [higherScoreFirst, decide_eq_true_eq] at *
      exact hbc.trans hab
    · intro a b
      simpa [higherScoreFirst] using le_total b.rrfScore a.rrfScore
  simpa only [higherScoreFirst, decide_eq_true_eq] using hsorted

theorem Layer.map_fst_scored (k : ℚ) (layer : Layer ρ) :
    (layer.scored k).map Prod.fst = layer.results := by
  simp only [Layer.scored, List.map_map]
  exact List.zipIdx_map_fst 0 layer.results

theorem map_fst_occurrenceStream (layers : List (Layer ρ)) (k : ℚ) :
    (occurrenceStream layers k).map Prod.fst = readOrder layers := by
  simp only [occurrenceStream, readOrder, List.map_flatMap, Layer.map_fst_scored]

/-! ## Columns that fusion carries along -/

section MapColumns
variable {κ : Type} (change : ρ → κ)

def SearchFragment.mapColumns (fragment : SearchFragment ρ) : SearchFragment κ :=
  { id := fragment.id, content := fragment.content, importance := fragment.importance, isAnchor := fragment.isAnchor
    columns := change fragment.columns }

def SearchItem.mapColumns : SearchItem ρ → SearchItem κ
  | .bareId id => .bareId id
  | .object fragment => .object (fragment.mapColumns change)

def Layer.mapColumns (layer : Layer ρ) : Layer κ :=
  { name := layer.name, results := layer.results.map (SearchItem.mapColumns change), weightFactor := layer.weightFactor }

def Fused.mapColumns (entry : Fused ρ) : Fused κ := ⟨entry.item.mapColumns change, entry.rrfScore⟩

theorem SearchItem.id_mapColumns (item : SearchItem ρ) : (item.mapColumns change).id = item.id := by
  cases item <;> rfl

theorem SearchItem.content_mapColumns (item : SearchItem ρ) : (item.mapColumns change).content = item.content := by
  cases item <;> rfl

theorem occurrenceStream_mapColumns (layers : List (Layer ρ)) (k : ℚ) :
    occurrenceStream (layers.map (Layer.mapColumns change)) k =
      (occurrenceStream layers k).map (Prod.map (SearchItem.mapColumns change) id) := by
  simp only [occurrenceStream, List.flatMap_map, List.map_flatMap]
  refine congrArg (fun scored => List.flatMap scored layers) (funext fun layer => ?_)
  simp only [Layer.scored, Layer.mapColumns, List.zipIdx_map, List.map_map]
  rfl

/-- Fusion reads the ids and the contents alone. -/
theorem fusedCandidates_mapColumns (layers : List (Layer ρ)) (k : ℚ) :
    fusedCandidates (layers.map (Layer.mapColumns change)) k = (fusedCandidates layers k).map (Fused.mapColumns change) := by
  have hcollected : scoreMap.collect (occurrenceStream (layers.map (Layer.mapColumns change)) k) =
      (scoreMap.collect (occurrenceStream layers k)).map (Fused.mapColumns change) := by
    rw [occurrenceStream_mapColumns]
    have hentry : ∀ entry : Fused ρ, (entry.mapColumns change).id = entry.id :=
      fun entry => entry.item.id_mapColumns change
    have hitem : ∀ item : SearchItem ρ × ℚ, (item.1.mapColumns change).id = item.1.id :=
      fun item => item.1.id_mapColumns change
    exact @Accumulator.collect_map _ _ _ scoreMap _ _ _ scoreMap (Fused.mapColumns change)
      (Prod.map (SearchItem.mapColumns change) id) hentry hitem (fun _ => rfl) (fun _ _ => rfl) _
  have hcontent : (fun entry : Fused κ => entry.content.isSome) ∘ Fused.mapColumns change =
      fun entry => entry.content.isSome :=
    funext fun entry => congrArg Option.isSome (entry.item.content_mapColumns change)
  have hsorted :
    mergeRRF (layers.map (Layer.mapColumns change)) k = (mergeRRF layers k).map (Fused.mapColumns change) := by
    rw [mergeRRF, hcollected]
    exact (List.map_mergeSort (r := higherScoreFirst) (s := higherScoreFirst) (f := Fused.mapColumns change)
      fun _ _ _ _ => rfl).symm
  rw [fusedCandidates, hsorted, List.filter_map, hcontent]
  rfl

def TextSearch.mapColumns (search : TextSearch ρ) : TextSearch κ where
  l1WeightFactor := search.l1WeightFactor
  graphWeightFactor := search.graphWeightFactor
  l1Ids := search.l1Ids
  l1IsFallback := search.l1IsFallback
  cached := search.cached.map (SearchFragment.mapColumns change)
  l2Results := search.l2Results.map (SearchFragment.mapColumns change)
  graphResults := search.graphResults.map (SearchFragment.mapColumns change)
  l3Results := search.l3Results.map (SearchFragment.mapColumns change)
  temporalResults := search.temporalResults.map (SearchFragment.mapColumns change)
  hasTimeRange := search.hasTimeRange

theorem TextSearch.rrfLayers_mapColumns (search : TextSearch ρ) :
    (search.mapColumns change).rrfLayers = search.rrfLayers.map (Layer.mapColumns change) := by
  have hobjects : ∀ fragments : List (SearchFragment ρ),
      (fragments.map (SearchFragment.mapColumns change)).map SearchItem.object =
        (fragments.map SearchItem.object).map (SearchItem.mapColumns change) := by
    intro fragments
    rw [List.map_map, List.map_map]
    rfl
  have hbare : ∀ ids : List String, (ids.map SearchItem.bareId).map (SearchItem.mapColumns change) =
      ids.map SearchItem.bareId := by
    intro ids
    rw [List.map_map]
    rfl
  simp only [rrfLayers, mapColumns, List.map_append, List.map_cons, List.map_nil, Layer.mapColumns, hbare, hobjects,
    List.isEmpty_map]
  congr 1
  rcases search.temporalResults with _ | ⟨fragment, later⟩
  · rfl
  · simp only [List.isEmpty_cons, Bool.false_eq_true, if_false, List.map_cons, List.map_nil, Layer.mapColumns]
    rfl

end MapColumns

theorem Layer.sum_scored_filter (k : ℚ) (layer : Layer ρ) (id : String) :
    (((layer.scored k).filter fun occurrence => occurrence.1.id = id).map Prod.snd).sum =
      ((layer.results.zipIdx.filter fun (item, _) => item.id = id).map fun (_, rank) =>
        rankScore k layer.weightFactor rank).sum := by
  rw [Layer.scored, List.filter_map, List.map_map]
  rfl

/-- The scores of an id's occurrences add up to its total over the layers. -/
theorem sum_occurrences (layers : List (Layer ρ)) (k : ℚ) (id : String) :
    ((scoreMap.occurrences (occurrenceStream layers k) id).map Prod.snd).sum =
      totalScore layers k id := by
  induction layers with
  | nil => rfl
  | cons layer layers ih =>
    have hsplit : scoreMap.occurrences (occurrenceStream (layer :: layers) k) id =
        ((layer.scored k).filter fun occurrence => occurrence.1.id = id) ++
          scoreMap.occurrences (occurrenceStream layers k) id := by
      simp [Accumulator.occurrences, occurrenceStream]
      rfl
    rw [hsplit, List.map_append, List.sum_append, ih, Layer.sum_scored_filter]
    simp [totalScore]

theorem foldl_absorb (occurrences : List (SearchItem ρ × ℚ)) (entry : Fused ρ) :
    occurrences.foldl scoreMap.absorb entry =
      ⟨entry.item, entry.rrfScore + (occurrences.map Prod.snd).sum⟩ := by
  induction occurrences generalizing entry with
  | nil => simp
  | cons occurrence occurrences ih =>
    rw [List.foldl_cons, ih]
    simp [scoreMap, add_assoc]

theorem find?_readOrder (layers : List (Layer ρ)) (k : ℚ) (id : String) :
    (readOrder layers).find? (fun item => item.id = id) =
      (scoreMap.occurrences (occurrenceStream layers k) id).head?.map Prod.fst := by
  rw [← map_fst_occurrenceStream layers k, List.find?_map, Accumulator.occurrences, List.head?_filter]
  rfl

/-- An entry of the score map is the first item read for its id, with the total score. -/
theorem mem_mergeRRF_iff (layers : List (Layer ρ)) (k : ℚ) (entry : Fused ρ) :
    entry ∈ mergeRRF layers k ↔
      (readOrder layers).find? (fun item => item.id = entry.id) = some entry.item ∧
        entry.rrfScore = totalScore layers k entry.id := by
  rw [mem_mergeRRF, Accumulator.mem_collect_iff, find?_readOrder layers k, ← sum_occurrences layers k]
  change Accumulator.entryOf _ (scoreMap.occurrences _ entry.id) = _ ↔ _
  cases scoreMap.occurrences (occurrenceStream layers k) entry.id with
  | nil => simp [Accumulator.entryOf]
  | cons first later =>
    simp only [Accumulator.entryOf, foldl_absorb, List.head?_cons, Option.map_some, Option.some.injEq,
      List.map_cons, List.sum_cons]
    constructor
    · rintro rfl
      exact ⟨rfl, rfl⟩
    · rintro ⟨hitem, hscore⟩
      cases entry
      simp_all [scoreMap]

/-! ## Losslessness -/

theorem mem_fusedCandidates_iff (layers : List (Layer ρ)) (k : ℚ) (entry : Fused ρ) :
    entry ∈ fusedCandidates layers k ↔ entry ∈ mergeRRF layers k ∧ entry.content.isSome := by
  simp [fusedCandidates]

theorem find?_readOrder_mem {layers : List (Layer ρ)} {id : String} {item : SearchItem ρ}
    (h : (readOrder layers).find? (fun item => item.id = id) = some item) :
    item ∈ readOrder layers ∧ item.id = id :=
  ⟨List.mem_of_find?_eq_some h, by simpa using List.find?_some h⟩

/-- An id survives fusion exactly when it is first read with content. -/
theorem exists_mem_fusedCandidates_iff (layers : List (Layer ρ)) (k : ℚ) (id : String) :
    (∃ entry ∈ fusedCandidates layers k, entry.id = id) ↔
      ∃ first, (readOrder layers).find? (fun item => item.id = id) = some first ∧
        first.content.isSome := by
  constructor
  · rintro ⟨entry, hentry, rfl⟩
    obtain ⟨hmem, hcontent⟩ := (mem_fusedCandidates_iff _ _ _).mp hentry
    exact ⟨entry.item, ((mem_mergeRRF_iff _ _ _).mp hmem).1, hcontent⟩
  · rintro ⟨first, hfirst, hcontent⟩
    have hid : first.id = id := (find?_readOrder_mem hfirst).2
    refine ⟨⟨first, totalScore layers k id⟩, ?_, hid⟩
    refine (mem_fusedCandidates_iff _ _ _).mpr ⟨(mem_mergeRRF_iff _ _ _).mpr ?_, hcontent⟩
    subst hid
    exact ⟨hfirst, rfl⟩

/-- Fusion is lossless exactly when no id with content is first read as a bare id. -/
theorem fusedCandidates_lossless_iff (layers : List (Layer ρ)) (k : ℚ) :
    Lossless layers k (fusedCandidates layers k) ↔ ContentReadFirst layers := by
  constructor
  · intro h id content hsupplied
    exact (exists_mem_fusedCandidates_iff layers k id).mp (h.complete id content hsupplied)
  · intro h
    refine
      { complete := fun id content hsupplied =>
          (exists_mem_fusedCandidates_iff layers k id).mpr (h id content hsupplied)
        once := (List.filter_sublist.map _).nodup (mergeRRF_nodup layers k)
        supplied := ?_
        scored := ?_
        sorted := (mergeRRF_sorted layers k).filter _ }
    · intro entry hentry
      obtain ⟨hmem, hcontent⟩ := (mem_fusedCandidates_iff _ _ _).mp hentry
      obtain ⟨content, hcontent⟩ := Option.isSome_iff_exists.mp hcontent
      have hread := find?_readOrder_mem ((mem_mergeRRF_iff _ _ _).mp hmem).1
      exact ⟨content, hcontent, entry.item, hread.1, hread.2, hcontent⟩
    · intro entry hentry
      exact ((mem_mergeRRF_iff _ _ _).mp ((mem_fusedCandidates_iff _ _ _).mp hentry).1).2

/-- An L1 hit that the database layer returns with its content is dropped. -/
theorem fusedCandidates_not_lossless :
    let l2Hit : SearchFragment Unit := ⟨"frag-1", some "redis keeps hot ids", some 1, false, ()⟩
    let layers : List (Layer Unit) :=
      [ { name := "l1", results := [.bareId "frag-1"], weightFactor := 2 },
        { name := "l2", results := [.object l2Hit] } ]
    ¬ Lossless layers 60 (fusedCandidates layers 60) := by
  intro l2Hit layers h
  have hsupplied : SuppliesContent layers "frag-1" "redis keeps hot ids" :=
    ⟨.object l2Hit, by simp [readOrder, layers], rfl, rfl⟩
  obtain ⟨first, hfirst, hcontent⟩ :=
    (exists_mem_fusedCandidates_iff layers 60 "frag-1").mp (h.complete _ _ hsupplied)
  have : first = .bareId "frag-1" := by simpa [readOrder, layers, SearchItem.id] using hfirst.symm
  subst this
  simp [SearchItem.content] at hcontent

/-- In the layer order of the text search every id that L1 lists is lost, whoever else supplies it. -/
theorem textSearch_drops_l1 (search : TextSearch ρ) (k : ℚ) (id : String) (hid : id ∈ search.l1Ids) :
    ∀ entry ∈ fusedCandidates search.rrfLayers k, entry.id ≠ id := by
  intro entry hentry heq
  obtain ⟨first, hfirst, hcontent⟩ := (exists_mem_fusedCandidates_iff search.rrfLayers k id).mp ⟨entry, hentry, heq⟩
  have hl1 : (search.l1Ids.map (SearchItem.bareId (ρ := ρ))).find? (fun item => item.id = id) =
      some (.bareId id) := by
    rw [List.find?_map]
    have hfound : search.l1Ids.find? (fun other => other = id) = some id := by
      obtain ⟨other, hother⟩ := Option.isSome_iff_exists.mp
        (List.find?_isSome (p := fun other => decide (other = id)).mpr ⟨id, hid, by simp⟩)
      have : other = id := by simpa using List.find?_some hother
      rw [hother, this]
    change (search.l1Ids.find? fun other => other = id).map SearchItem.bareId = _
    rw [hfound]
    rfl
  have : (readOrder search.rrfLayers).find? (fun item => item.id = id) = some (.bareId id) := by
    simp only [readOrder, TextSearch.rrfLayers, List.cons_append, List.flatMap_cons, List.find?_append, hl1,
      Option.some_or]
  rw [this, Option.some.injEq] at hfirst
  subst hfirst
  simp [SearchItem.content] at hcontent

end FragmentMemory.RankFusion
