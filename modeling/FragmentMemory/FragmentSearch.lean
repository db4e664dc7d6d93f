import FragmentMemory.RankFusion
import FragmentMemory.RecallQueries

/-! # The layered search

`FragmentSearch.search`: the text path fuses its layers, the other path concatenates them; then
duplicates go, the rest is ranked and cut to the token budget.  The optional symbolic filters are
off.
-/
namespace FragmentMemory.FragmentSearch
open ApiKeyStore FragmentTables FragmentFactory FragmentIndex RecallQueries

/-- What the search computes with floating point, models or services: texts and rows in, scores out. -/
structure SearchModel where
  tools : TextTools
  implicitTokens : String → List String
  embeddingEnabled : Bool := false
  keywordFallback : Bool := true
  similarity : String → Fragment → Option ℚ := fun _ _ => none
  morphemeSimilarity : String → Fragment → Option ℚ := fun _ _ => none
  assistantQuery : String → Bool := fun _ => false
  assistantContent : String → Bool := fun _ => false
  graphScore : Link → ℚ := fun l => l.weight
  rankScore : Time → Hit → ℚ
  recallScore : SearchQuery → Hit → ℚ
  /-- Cross-encoder scores of the rows with their recency factor, none while it is unavailable. -/
  rerankScores : SearchQuery → List Fragment → Option (List ℚ) := fun _ _ => none

/-- What a search meets outside the tables: Redis, the times of its recency sets, the learnt
similarity floor and the timeout of the semantic supplement. -/
structure SearchContext where
  redisReady : Bool := true
  recency : Option KeyId → FragmentId → ℕ := fun _ _ => 0
  minSimilarity : ℚ := 4 / 10
  supplementTimedOut : Bool := false

variable (model : SearchModel) (context : SearchContext)

/-- `deriveImplicitKeywords`. -/
def deriveImplicitKeywords (q : SearchQuery) : List String :=
  match JsString.truthy q.text with
  | some text => if q.topic.isSome || !q.keywords.isEmpty then [] else model.implicitTokens text
  | none => []

/-- `textKeywordCoverage`. -/
def textKeywordCoverage (f : Fragment) (keywords : List String) : ℕ :=
  let stored := f.keywords.map model.tools.toLowerCase
  (keywords.filter stored.contains).length

def hits (rows : List Fragment) : List Hit := rows.map fun f => { row := f }

/-- The rows that match the keywords, or those of the topic when none does. -/
def searchMetadata (store : Store) (q : SearchQuery) : List Fragment :=
  let keywords := if q.keywords.isEmpty then deriveImplicitKeywords model q else q.keywords
  let byKeywords := if keywords.isEmpty then [] else searchByKeywords store q keywords
  if byKeywords.isEmpty then q.topic.elim [] (searchTopicRows store q) else byKeywords

/-- `_searchL2`: these rows, and those of the excluded ids that are not among them. -/
def searchL2 (store : Store) (q : SearchQuery) (excludeIds : List FragmentId) : List Hit :=
  let results := searchMetadata model store q
  let missingIds := excludeIds.filter fun id => !(results.map Fragment.id).contains id
  let fetched := if missingIds.isEmpty then [] else getScopedByIds store q missingIds
  hits (results ++ fetched.filter q.applyScope)

/-- `boostAssistantFragments`. -/
def boostAssistant (hit : Hit) : Hit :=
  if model.assistantContent hit.row.content then
    { hit with row := { hit.row with importance := min 1 (hit.row.importance + 2 / 100) } }
  else hit

/-- `_searchL3`: the semantic and the morpheme search of one text. -/
def searchL3 (store : Store) (q : SearchQuery) (text : String) (skipMorpheme : Bool) : List Hit :=
  let expanded := if model.assistantQuery text then "Assistant: " ++ text else text
  let basic := searchBySemantic store q (model.similarity expanded) context.minSimilarity 30 true
  let boosted := if model.assistantQuery text then basic.map (boostAssistant model) else basic
  let morphemes := if skipMorpheme then []
    else searchBySemantic store q (model.morphemeSimilarity text) context.minSimilarity 10 false
  let extra := morphemes.filter fun hit => !(boosted.map Hit.id).contains hit.id
  (boosted ++ extra).filter fun hit => q.applyScope hit.row

def temporalResults (store : Store) (q : SearchQuery) : List Hit :=
  q.timeRange.elim [] fun _ => hits (searchByTimeRange store q)

/-- A hit as an object of a fusion layer, which carries the whole hit along. -/
def fusionObject (hit : Hit) : RankFusion.SearchFragment Hit where
  id := hit.id
  content := some hit.row.content
  importance := some hit.row.importance
  isAnchor := hit.row.isAnchor
  columns := hit

def fusedHit (entry : RankFusion.Fused Hit) : Option Hit :=
  match entry.item with
  | .bareId _ => none
  | .object fragment => some { fragment.columns with rrfScore := some entry.rrfScore }

/-- `applyImportanceCutoff`. -/
def applyImportanceCutoff (q : SearchQuery) (found : List Hit) : List Hit :=
  found.filter fun hit => hit.row.isAnchor || q.minImportance.getD (1 / 10) ≤ hit.row.importance

/-- `rerank` where the scores are there. -/
def rerank (candidates : List Hit) (scores : List ℚ) : List Hit :=
  let scored := candidates.zipIdx.map fun (hit, i) => { hit with rerankerScore := some (scores.getD i 0) }
  (scored.insertionSort fun a b => b.rerankerScore.getD 0 ≤ a.rerankerScore.getD 0).take 15

/-- The neighbours of the best rows of L2, which come without the affect column. -/
def graphResults (store : Store) (q : SearchQuery) (l2 : List Hit) : List Hit :=
  let found := fetchGraphNeighbors model.graphScore store q ((l2.take 10).map Hit.id)
  hits (found.filter fun f => q.applyScope f && q.affect.isNone)

/-- The layers of a text search. -/
def textSearch (store : Store) (q : SearchQuery) (text : String) (l1 : List FragmentId × Bool) (cached : List Hit)
    (l1MissIds : List FragmentId) : RankFusion.TextSearch Hit :=
  let l2 := searchL2 model store q l1MissIds
  { l1WeightFactor := 2
    graphWeightFactor := 15 / 10
    l1Ids := l1.1
    l1IsFallback := l1.2
    cached := cached.map fusionObject
    l2Results := l2.map fusionObject
    graphResults := (graphResults model store q l2).map fusionObject
    l3Results := (searchL3 model context store q text false).map fusionObject
    temporalResults := (temporalResults store q).map fusionObject
    hasTimeRange := q.timeRange.isSome }

/-- `_buildTextRRF`: the fused layers, the best thirty reordered by the reranker. -/
def buildTextRRF (store : Store) (q : SearchQuery) (text : String) (l1 : List FragmentId × Bool)
    (cached : List Hit) (l1MissIds : List FragmentId) : List Hit × List String :=
  let layers := textSearch model context store q text l1 cached l1MissIds
  let fused := RankFusion.fusedCandidates layers.rrfLayers 60
  let combined := applyImportanceCutoff q (fused.filterMap fusedHit)
  let path := (if layers.temporalResults.isEmpty then [] else [s!"Temporal:{layers.temporalResults.length}"]) ++
    [s!"L2:{layers.l2Results.length}"] ++
    (if layers.graphResults.isEmpty then [] else [s!"L2.5Graph:{layers.graphResults.length}"]) ++
    [s!"L3:{layers.l3Results.length}", "RRF"]
  match if combined.isEmpty then none else model.rerankScores q ((combined.take 30).map Hit.row) with
  | some scores =>
    let reranked := rerank (combined.take 30) scores
    (reranked, path ++ [s!"Rerank:{reranked.length}"])
  | none => (combined, path)

/-- The exact-match tag of the keyword path. -/
def tagExact (q : SearchQuery) (hit : Hit) : Hit :=
  let stored := hit.row.keywords.map model.tools.toLowerCase
  { hit with kwExact := !q.keywords.isEmpty && (q.keywords.map model.tools.toLowerCase).all stored.contains }

/-- The text that the semantic supplement of a keyword query is searched with. -/
def supplementText (q : SearchQuery) : String :=
  let normalized := (q.keywords.map fun word => JsString.trim (model.tools.toLowerCase word)).eraseDups
  " ".intercalate (normalized.insertionSort (· ≤ ·))

/-- `_buildFallbackCombined`. -/
def buildFallbackCombined (store : Store) (q : SearchQuery) (cached : List Hit) (l1MissIds : List FragmentId) :
    List Hit × List String :=
  let l2 := searchL2 model store q l1MissIds
  let temporal := temporalResults store q
  let supplementOn := model.keywordFallback && model.embeddingEnabled && !q.keywords.isEmpty
  let l3 := if supplementOn && !context.supplementTimedOut then
      searchL3 model context store q (supplementText model q) true
    else []
  let combined := l2.map (tagExact model q) ++ cached.map (tagExact model q) ++ temporal
  let supplement := l3.filter fun hit => !(combined.map Hit.id).contains hit.id
  let path := [s!"L2:{l2.length}"] ++ (if temporal.isEmpty then [] else [s!"Temporal:{temporal.length}"]) ++
    (if l3.isEmpty then (if supplementOn && context.supplementTimedOut then ["L3kw:timeout"] else [])
      else if supplement.isEmpty then [] else [s!"L3kw:{supplement.length}"])
  (combined ++ supplement.map fun hit => { hit with kwSupplement := true }, path)

/-- `_executeSearch`. -/
def executeSearch (store : Store) (q : SearchQuery) : List Hit × List String :=
  let l1 := searchL1 model.tools context.redisReady context.recency store q
  let cached := hits (if l1.1.isEmpty then [] else tryHotCache context.redisReady store q l1.1)
  let l1MissIds := if l1.2 then [] else l1.1.filter fun id => !(cached.map Hit.id).contains id
  let path := (if l1.1.isEmpty then [] else [s!"L1:{l1.1.length}"]) ++
    (if cached.isEmpty then [] else [s!"HotCache:{cached.length}"])
  let (combined, layers) := match JsString.truthy q.text, model.embeddingEnabled with
    | some text, true => buildTextRRF model context store q text l1 cached l1MissIds
    | _, _ => buildFallbackCombined model context store q cached l1MissIds
  (combined, path ++ layers)

/-- A similarity that is given, not zero and above that of the hit already kept. -/
def betterSimilarity (hit kept : Hit) : Bool :=
  match hit.similarity with
  | none => false
  | some value => value ≠ 0 && kept.similarity.all fun other => other = 0 || other < value

/-- One step of `_deduplicate`: a better hit takes the place of the kept one. -/
def keepBetter (seen : List Hit) (hit : Hit) : List Hit :=
  if seen.any fun kept => kept.id = hit.id then
    seen.map fun kept =>
      if kept.id = hit.id && betterSimilarity hit kept then { hit with kwExact := kept.kwExact || hit.kwExact }
      else kept
  else seen ++ [hit]

/-- `_deduplicate` with its ranking; a reranker score takes precedence. -/
def deduplicate (found : List Hit) (anchorTime : Time) : List Hit :=
  let score := fun hit : Hit => hit.rerankerScore.getD (model.rankScore anchorTime hit)
  (found.foldl keepBetter []).insertionSort fun a b => score b ≤ score a

/-- The keywords of a text query whose hits carry no semantic evidence. -/
def lexicalKeywords (q : SearchQuery) (unique : List Hit) : List String :=
  if unique.any fun hit => hit.similarity.isSome || hit.rerankerScore.isSome then []
  else deriveImplicitKeywords model q

def keywordOverlap (a b : Fragment) : ℚ :=
  if a.keywords.isEmpty || b.keywords.isEmpty then 0
  else ((b.keywords.filter a.keywords.contains).length : ℚ) / max a.keywords.length b.keywords.length

/-- The score of a candidate of the diversity selection, with weight 0.7 on its relevance. -/
def mmrScore (selected : List Hit) (candidate : Hit) : ℚ :=
  let relevance := ((candidate.rerankerScore.filter (· ≠ 0)).or candidate.rrfScore).getD 0
  let closest := (selected.map fun other => keywordOverlap candidate.row other.row).foldl max 0
  7 / 10 * relevance - 3 / 10 * closest

/-- The loop of `_applyMMR`: the first candidate with the highest score is selected next. -/
def selectDiverse : ℕ → List Hit → List Hit → List Hit
  | 0, selected, _ => selected
  | _, selected, [] => selected
  | rounds + 1, selected, first :: others =>
    let best := others.foldl (fun best hit => if mmrScore selected best < mmrScore selected hit then hit else best)
      first
    selectDiverse rounds (selected ++ [best]) ((first :: others).erase best)

/-- `_applyMMR`. -/
def applyMMR (found : List Hit) : List Hit :=
  match found.filter fun hit => hit.similarity.isSome with
  | first :: second :: others =>
    selectDiverse (others.length + 1) [first] (second :: others) ++ found.filter fun hit => hit.similarity.isNone
  | _ => found

def tokenCost (hit : Hit) : ℕ := model.tools.countTokens hit.row.content

/-- Hits taken in order while they fit. -/
def takeWithin (budget : ℕ) : List Hit → ℕ → List Hit
  | [], _ => []
  | hit :: later, used =>
    if budget < used + tokenCost model hit then []
    else hit :: takeWithin budget later (used + tokenCost model hit)

/-- Hits taken in order, those skipped that do not fit. -/
def fillWithin (budget : ℕ) : List Hit → ℕ → List Hit
  | [], _ => []
  | hit :: later, used =>
    if budget < used + tokenCost model hit then fillWithin budget later used
    else hit :: fillWithin budget later (used + tokenCost model hit)

def totalCost (found : List Hit) : ℕ := (found.map (tokenCost model)).sum

/-- `_trimToTokenBudget`: exact matches first within half of the budget, then the supplement within a
quarter of it, then the others, in the order of their scores. -/
def trimToTokenBudget (found : List Hit) (budget : ℕ) : List Hit :=
  if found.any fun hit => hit.kwExact || hit.kwSupplement then
    let exact := takeWithin model (budget / 2) (found.filter fun hit => hit.kwExact) 0
    let waiting := found.filter fun hit => !(exact.map Hit.id).contains hit.id
    let used := totalCost model exact
    let semantic := takeWithin model (min (budget / 4) (budget - used))
      (waiting.filter fun hit => hit.kwSupplement) 0
    let reserved := (exact ++ semantic).map Hit.id
    let rest := fillWithin model budget (found.filter fun hit => !reserved.contains hit.id)
      (used + totalCost model semantic)
    let picked := reserved ++ rest.map Hit.id
    found.filter fun hit => picked.contains hit.id
  else takeWithin model budget found 0

/-- Keyword coverage orders the hits of a purely lexical search. -/
def orderLexical (q : SearchQuery) (unique : List Hit) : List Hit :=
  let keywords := lexicalKeywords model q unique
  let coverage := fun hit : Hit => textKeywordCoverage model hit.row keywords
  if keywords.isEmpty then unique else unique.insertionSort fun a b => coverage b ≤ coverage a

/-- The diversity selection, when the reranker has scored the hits. -/
def diversify (found : List Hit) : List Hit :=
  if (found.head?.bind Hit.rerankerScore).isSome then applyMMR found else found

structure SearchResult where
  found : List Hit
  searchPath : List String
  lexicalKeywords : List String

/-- `search`, without what it writes. -/
def search (store : Store) (q : SearchQuery) : SearchResult :=
  let (combined, searchPath) := executeSearch model context store q
  let unique := deduplicate model combined q.anchorTime
  let trimmed := trimToTokenBudget model (diversify (orderLexical model q unique)) q.tokenBudget
  let clean := trimmed.map fun hit => { hit with rrfScore := none, kwExact := false, kwSupplement := false }
  { found := clean.filter fun hit => q.includeSuperseded || hit.row.live
    searchPath := searchPath
    lexicalKeywords := lexicalKeywords model q unique }

end FragmentMemory.FragmentSearch
