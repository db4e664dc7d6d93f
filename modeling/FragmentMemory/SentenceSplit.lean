import FragmentMemory.CodeUnits
import FragmentMemory.ReflectProcessor

/-! # Splitting a text into fragments

`FragmentFactory.splitAndCreate`: the masked text is split into sentences, a long sentence is cut into pieces,
short ones are joined, and every joined text is created as a fragment of its own.
-/
namespace FragmentMemory.SentenceSplit
open ApiKeyStore FragmentTables FragmentFactory ReflectProcessor JsString CodeUnits

/-! ## Sentences -/

/-- `[.!?。\n]`. -/
def endsSentence (c : Char) : Bool := ['.', '!', '?', '。', '\n'].contains c

/-- `split(/(?<=[.!?。\n])\s+/)`: the parts behind the character before, spaces of a match being skipped. -/
def splitAfterEnds : Bool → Option Char → List Char → List (List Char)
  | _, _, [] => [[]]
  | skipping, previous, c :: rest =>
    if skipping && isSpace c then splitAfterEnds true (some c) rest
    else if previous.any endsSentence && isSpace c then [] :: splitAfterEnds true (some c) rest
    else match splitAfterEnds false (some c) rest with
      | [] => [[c]]
      | part :: parts => (c :: part) :: parts

/-- `_splitSentences`. -/
def splitSentences (text : String) : List String :=
  ((splitAfterEnds false none text.toList).map fun part => trim (String.ofList part)).filter (· ≠ "")

/-! ## Long sentences -/

def schemes : List (List Char) := ["http://", "https://"].map String.toList

/-- `/https?:\/\//i.test`. -/
def hasAddress (text : List Char) : Bool :=
  text.tails.any fun tail => schemes.any fun scheme => (tail.take scheme.length).map Char.toLower == scheme

/-- `lastIndexOf`, for the occurrences up to an index. -/
def lastIndexOf (units : List ℕ) (unit : ℕ) : ℕ → Option ℕ
  | 0 => if units[0]? = some unit then some 0 else none
  | index + 1 => if units[index + 1]? = some unit then some (index + 1) else lastIndexOf units unit index

/-- The last space up to the end, unless it lies in the first half. -/
def wordBoundary (units : List ℕ) (last : ℕ) : ℕ :=
  match lastIndexOf units 32 last with
  | some space => if maxFragmentLength / 2 ≤ space then space else last
  | none => last

/-- The end is moved to the front until ten units are left behind it. -/
def backUp (units : List ℕ) : ℕ → ℕ
  | 0 => 0
  | count + 1 => if (trimUnits (units.drop (count + 1))).length < 10 then backUp units count else count + 1

/-- Where a long remainder is cut. -/
def cutPoint (units : List ℕ) : ℕ :=
  beforePair units (backUp units (wordBoundary units (min maxFragmentLength (units.length - 10))))

/-- The rounds over the remainder; a round that takes nothing away would be repeated for ever, so that a loop
that ends needs no more rounds than there are units. -/
def cutRounds (rounds : ℕ) (remaining : List ℕ) : Option (List (List ℕ)) :=
  if maxFragmentLength < remaining.length then
    match rounds with
    | 0 => none
    | rounds + 1 =>
      (cutRounds rounds (trimUnits (remaining.drop (cutPoint remaining)))).map fun parts =>
        trimUnits (remaining.take (cutPoint remaining)) :: parts
  else some (if remaining = [] then [] else [remaining])

/-- The code units of the pieces of a long sentence. -/
def cutSentence (sentence : String) : Option (List (List ℕ)) :=
  let remaining := codeUnits (trim (String.ofList (collapseSpaces sentence.toList))).toList
  cutRounds remaining.length remaining

/-- `_splitLongSentence`. -/
def splitLongSentence (sentence : String) : Option (List String) :=
  if utf16Length sentence ≤ maxFragmentLength || hasAddress sentence.toList then some [sentence]
  else (cutSentence sentence).map fun parts => parts.map fun part => String.ofList (decode part)

def sentencePieces (text : String) : Option (List String) :=
  ((splitSentences text).mapM splitLongSentence).map List.flatten

/-! ## Fragments -/

/-- What the fragments of a text have in common. -/
structure CommonParams where
  topic : Option String := none
  type : Option FragmentType := none
  source : Option String := none
  agentId : Option String := none

def chunkParams (common : CommonParams) (content : String) : FragmentParams where
  content := some content
  topic := common.topic
  type := common.type
  source := common.source
  agentId := common.agentId

/-- The masked text with single spaces. -/
def normalized (tools : TextTools) (text : String) : String :=
  trim (tools.redactPII (String.ofList (collapseSpaces text.toList)))

/-- Each fragment is linked to the one before it. -/
def linkFrom : Option FragmentId → List Fragment → List Fragment
  | _, [] => []
  | previous, f :: later => { f with linkedTo := f.linkedTo ++ previous.toList } :: linkFrom (some f.id) later

/-- The fragments of the chunks, with the generated ids and the clock as arguments; none where one is refused. -/
def createChunks (digests : Digests) (tools : TextTools) (newId : ℕ → FragmentId) (now : ℕ → Time)
    (common : CommonParams) :
    ℕ → List String → Except String (List Fragment)
  | _, [] => .ok []
  | index, chunk :: later => do
    let f ← create digests tools (newId index) (now index) (chunkParams common chunk)
    let rest ← createChunks digests tools newId now common (index + 1) later
    .ok (f :: rest)

/-- `splitAndCreate`; no result where the cutting of a sentence does not end. -/
def splitAndCreate (digests : Digests) (tools : TextTools) (newId : ℕ → FragmentId) (now : ℕ → Time)
    (common : CommonParams) (text : String) : Option (Except String (List Fragment)) :=
  (sentencePieces (normalized tools text)).map fun pieces =>
    (createChunks digests tools newId now common 0 (joinSentences "" pieces)).map (linkFrom none)

end FragmentMemory.SentenceSplit
