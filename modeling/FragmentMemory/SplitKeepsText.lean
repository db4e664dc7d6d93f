import FragmentMemory.GreedyChunks
import FragmentMemory.RepeatedCreation
import FragmentMemory.SplitPieces
import Mathlib.Algebra.Order.BigOperators.Group.List

/-! # The split keeps the text

The fragments of a split text are its pieces, packed in their order.  Creation refuses a short pack and masks a
pack that ends inside a masked password anew; a text without such packs is kept.
-/
namespace FragmentMemory.SplitKeepsText
open ApiKeyStore FragmentTables FragmentFactory PiiRedaction PasswordFields PasswordMask CutMask MaskedTexts KeywordExtraction
  RepeatedCreation CodeUnits SentenceSplit SingleSpaces JoinedParts SplitPieces JsString
open ReflectProcessor (joinSentences)

/-! ## Packing -/

/-- Texts with a blank between them. -/
def joined : List String → String
  | [] => ""
  | first :: later => later.foldl (fun text piece => text ++ " " ++ piece) first

/-- A piece for which a pack has no room. -/
def overflows (pack : List String) (piece : String) : Bool :=
  !pack.isEmpty && maxFragmentLength < utf16Length (joined (pack ++ [piece]))

/-- The pieces in packs, each filled before the next is begun. -/
def packs (pieces : List String) : List (List String) := GreedyChunks.splitFrom overflows [] pieces

/-- A text is accepted with ten units or three words. -/
def longEnough (content : String) : Bool := 10 ≤ utf16Length content || 3 ≤ (words content).length

/-- A password field at the end of the text is a complete masked password. -/
def wholeMask (text : List Char) : Bool :=
  match trailing [] text with
  | none => true
  | some tail => tail == capturedWord tail ++ label

/-- Every pack is long enough and ends in no part of a masked password. -/
def packable (text : String) : Bool :=
  (sentencePieces text).any fun pieces =>
    (packs pieces).all fun pack => longEnough (joined pack) && wholeMask (joined pack).toList

/-- Spaces between the parts. -/
def SpaceGap (_part between _next : List Char) : Prop := ∀ c ∈ between, c = ' '

theorem joined_concat {pack : List String} (h : pack ≠ []) (piece : String) :
    joined (pack ++ [piece]) = joined pack ++ " " ++ piece := by
  obtain ⟨first, later, rfl⟩ := List.exists_cons_of_ne_nil h
  rw [List.cons_append, joined, List.foldl_append, joined]
  rfl

theorem toList_blank (front back : String) : (front ++ " " ++ back).toList = front.toList ++ ' ' :: back.toList := by
  rw [String.toList_append, String.toList_append, List.append_assoc]
  rfl

theorem filled_blank {front back : List Char} (hfront : Filled front) (hback : Filled back) :
    Filled (front ++ ' ' :: back) := by
  refine ⟨List.append_ne_nil_of_left_ne_nil hfront.filled _, ?_, ?_⟩
  · intro c hc
    rw [List.head?_append_of_ne_nil _ hfront.filled] at hc
    exact hfront.trimmed.first c hc
  · intro c hc
    rw [← List.singleton_append, ← List.append_assoc, List.getLast?_append_of_ne_nil _ hback.filled] at hc
    exact hback.trimmed.last c hc

theorem filled_joined {pack : List String} (hpack : pack ≠ []) (hfilled : ∀ piece ∈ pack, Filled piece.toList) :
    Filled (joined pack).toList := by
  induction pack using List.reverseRecOn with
  | nil => exact absurd rfl hpack
  | append_singleton pack piece ih =>
    have hpiece := hfilled piece (by simp)
    by_cases hempty : pack = []
    · rw [hempty]
      exact hpiece
    · rw [joined_concat hempty, toList_blank]
      exact filled_blank (ih hempty fun other hother => hfilled other (List.mem_append_left _ hother)) hpiece

theorem ne_empty_of_filled {text : String} (h : Filled text.toList) : text ≠ "" := by
  rintro rfl
  exact h.filled rfl

/-- The joined sentences are the packs, by induction on the pieces. -/
theorem joinSentences_eq {pack pieces : List String} (hpack : ∀ piece ∈ pack, Filled piece.toList)
    (hpieces : ∀ piece ∈ pieces, Filled piece.toList) :
    joinSentences (joined pack) pieces = (GreedyChunks.splitFrom overflows pack pieces).map joined := by
  induction pieces generalizing pack with
  | nil =>
    rw [joinSentences, GreedyChunks.splitFrom]
    by_cases hempty : pack = []
    · rw [hempty]
      rfl
    · have hfilled := filled_joined hempty hpack
      rw [trim_of_trimmed hfilled.trimmed, if_neg (ne_empty_of_filled hfilled),
        if_neg (by rwa [List.isEmpty_iff]), List.map_singleton]
  | cons piece later ih =>
    have hpiece := hpieces piece List.mem_cons_self
    have hlater : ∀ other ∈ later, Filled other.toList :=
      fun other hother => hpieces other (List.mem_cons_of_mem _ hother)
    have hsingle : ∀ other ∈ [piece], Filled other.toList := by
      intro other hother
      rwa [List.mem_singleton.mp hother]
    rw [joinSentences, GreedyChunks.splitFrom, overflows]
    by_cases hempty : pack = []
    · have hnone : ¬ (maxFragmentLength < utf16Length (trim (joined pack ++ " " ++ piece)) ∧ joined pack ≠ "") := by
        rw [hempty]
        exact fun habsurd => habsurd.2 rfl
      rw [if_neg hnone, hempty]
      exact ih hsingle hlater
    · have hfilled := filled_joined hempty hpack
      have hboth : Filled (joined pack ++ " " ++ piece).toList := by
        rw [toList_blank]
        exact filled_blank hfilled hpiece
      have hopen : pack.isEmpty = false := by rwa [List.isEmpty_eq_false_iff]
      rw [trim_of_trimmed hboth.trimmed, joined_concat hempty, hopen, Bool.not_false, Bool.true_and]
      by_cases hlong : maxFragmentLength < utf16Length (joined pack ++ " " ++ piece)
      · rw [if_pos ⟨hlong, ne_empty_of_filled hfilled⟩, if_pos (decide_eq_true hlong),
          trim_of_trimmed hfilled.trimmed, List.map_cons]
        exact congrArg _ (ih hsingle hlater)
      · rw [if_neg (fun habsurd => hlong habsurd.1), if_neg (ne_empty_of_filled hfilled), if_neg (by simpa using hlong),
          ← joined_concat hempty]
        apply ih _ hlater
        intro other hother
        rcases List.mem_append.mp hother with hold | hnew
        · exact hpack other hold
        · exact hsingle other hnew

/-- A piece that is joined to the text before it has a blank before it. -/
theorem joinsBy_merged {part next whole : List Char} {later : List (List Char)}
    (h : JoinsBy PieceGap (part :: next :: later) whole)
    (hroom : unitCount part + 1 + unitCount next ≤ maxFragmentLength) :
    JoinsBy PieceGap ((part ++ ' ' :: next) :: later) whole := by
  cases h with
  | @cons _ between _ rest _ hgap hrest =>
    rcases hgap with hblank | ⟨-, hlong⟩
    · have hmoved : part ++ ' ' :: next = (part ++ [' ']) ++ next := by rw [List.append_assoc, List.singleton_append]
      rw [hblank, hmoved]
      apply JoinsBy.append_left _ hrest
      intro between other hgap
      rcases hgap with hblank' | ⟨hnone, hlong⟩
      · exact Or.inl hblank'
      · refine Or.inr ⟨hnone, ?_⟩
        rw [unitCount_append]
        omega
    · omega

/-- The joined sentences put the text together, by induction on the pieces. -/
theorem joinsBy_joinSentences {buffer : String} {pieces : List String} {whole : List Char}
    (h : JoinsBy PieceGap (buffer.toList :: pieces.map String.toList) whole) (hbuffer : Filled buffer.toList)
    (hpieces : ∀ piece ∈ pieces, Filled piece.toList) (hbufferShort : utf16Length buffer ≤ maxFragmentLength)
    (hshort : ∀ piece ∈ pieces, utf16Length piece ≤ maxFragmentLength) :
    JoinsBy SpaceGap ((joinSentences buffer pieces).map String.toList) whole ∧
      ∀ chunk ∈ joinSentences buffer pieces, Filled chunk.toList ∧ utf16Length chunk ≤ maxFragmentLength := by
  induction pieces generalizing buffer whole with
  | nil =>
    rw [joinSentences, trim_of_trimmed hbuffer.trimmed, if_neg (ne_empty_of_filled hbuffer)]
    constructor
    · cases h with
      | single => exact .single _
    · intro chunk hchunk
      rw [List.mem_singleton.mp hchunk]
      exact ⟨hbuffer, hbufferShort⟩
  | cons piece later ih =>
    have hpiece := hpieces piece List.mem_cons_self
    have hpieceShort := hshort piece List.mem_cons_self
    have hlater : ∀ other ∈ later, Filled other.toList :=
      fun other hother => hpieces other (List.mem_cons_of_mem _ hother)
    have hlaterShort : ∀ other ∈ later, utf16Length other ≤ maxFragmentLength :=
      fun other hother => hshort other (List.mem_cons_of_mem _ hother)
    have hboth : Filled (buffer ++ " " ++ piece).toList := by
      rw [toList_blank]
      exact filled_blank hbuffer hpiece
    have hunits : utf16Length (buffer ++ " " ++ piece) = unitCount buffer.toList + 1 + unitCount piece.toList := by
      rw [utf16Length_eq, toList_blank, unitCount_blank]
    rw [joinSentences, trim_of_trimmed hboth.trimmed]
    by_cases hlong : maxFragmentLength < utf16Length (buffer ++ " " ++ piece)
    · rw [if_pos ⟨hlong, ne_empty_of_filled hbuffer⟩, trim_of_trimmed hbuffer.trimmed]
      cases h with
      | @cons _ between _ rest _ hgap hrest =>
        obtain ⟨hjoined, hall⟩ := ih hrest hpiece hlater hpieceShort hlaterShort
        have hfilled : (joinSentences piece later).map String.toList ≠ [] := by
          intro hnil
          rw [hnil] at hjoined
          cases hjoined
          exact hpiece.filled (List.infix_nil.mp (hrest.part_of _ List.mem_cons_self))
        constructor
        · obtain ⟨first, others, hfirst⟩ := List.exists_cons_of_ne_nil hfilled
          rw [List.map_cons, hfirst]
          rw [hfirst] at hjoined
          refine .cons ?_ hjoined
          intro c hc
          rcases hgap with hblank | ⟨hnone, -⟩
          · rw [hblank] at hc
            exact List.mem_singleton.mp hc
          · rw [hnone] at hc
            cases hc
        · intro chunk hchunk
          rcases List.mem_cons.mp hchunk with rfl | hrest'
          · exact ⟨hbuffer, hbufferShort⟩
          · exact hall chunk hrest'
    · rw [if_neg (fun habsurd => hlong habsurd.1), if_neg (ne_empty_of_filled hbuffer)]
      apply ih _ hboth hlater (Nat.le_of_not_lt hlong) hlaterShort
      rw [toList_blank]
      exact joinsBy_merged h (by omega)

/-- The chunks of a text put it together. -/
theorem chunks_spec {text : String} (h : Plain text.toList) :
    ∃ pieces, sentencePieces text = some pieces ∧ joinSentences "" pieces = (packs pieces).map joined ∧
      JoinsBy SpaceGap ((joinSentences "" pieces).map String.toList) text.toList ∧
      ∀ chunk ∈ joinSentences "" pieces, Filled chunk.toList ∧ utf16Length chunk ≤ maxFragmentLength := by
  obtain ⟨parts, hparts, hwhole, hall⟩ := sentencePieces_spec h
  have hfilled : ∀ piece ∈ parts.map String.ofList, Filled piece.toList ∧ utf16Length piece ≤ maxFragmentLength := by
    intro piece hpiece
    obtain ⟨part, hpart, rfl⟩ := List.mem_map.mp hpiece
    rw [utf16Length_eq, String.toList_ofList]
    exact hall part hpart
  have hpacks := @joinSentences_eq [] (parts.map String.ofList) (fun piece hpiece => absurd hpiece List.not_mem_nil)
    (fun piece hpiece => (hfilled piece hpiece).1)
  refine ⟨parts.map String.ofList, hparts, hpacks, ?_⟩
  have hchars : (parts.map String.ofList).map String.toList = parts := by
    rw [List.map_map]
    refine (List.map_congr_left ?_).trans (List.map_id parts)
    intro part _
    exact String.toList_ofList
  rw [← hchars] at hwhole
  cases hpieces : parts.map String.ofList with
  | nil =>
    rw [hpieces] at hwhole
    generalize text.toList = whole at hwhole ⊢
    cases hwhole
    exact ⟨.nil, fun chunk hchunk => absurd hchunk List.not_mem_nil⟩
  | cons first later =>
    rw [hpieces] at hwhole hfilled
    have hstart : joinSentences "" (first :: later) = joinSentences first later := by
      rw [joinSentences, if_neg (fun habsurd => habsurd.2 rfl), if_pos rfl]
    rw [hstart]
    exact joinsBy_joinSentences hwhole (hfilled first List.mem_cons_self).1
      (fun piece hpiece => (hfilled piece (List.mem_cons_of_mem _ hpiece)).1) (hfilled first List.mem_cons_self).2
      (fun piece hpiece => (hfilled piece (List.mem_cons_of_mem _ hpiece)).2)

/-! ## The mask of a chunk -/

def letters (text : List Char) : ℕ := text.countP fun c => !isSpace c

theorem letters_append (front back : List Char) : letters (front ++ back) = letters front + letters back :=
  List.countP_append

/-- A chunk of a masked text is kept by the mask, or it ends in a part of a masked password and grows. -/
theorem redactPasswords_chunk {whole chunk : List Char} (hmasked : Masked whole) (hpart : chunk <:+: whole) :
    (wholeMask chunk = true → redactPasswords chunk = chunk) ∧
      (wholeMask chunk = false → letters chunk < letters (redactPasswords chunk)) := by
  obtain ⟨before, after, hwhole⟩ := hpart
  have hsettled : Settled (chunk ++ after) := hmasked.settled.suffix ⟨before, by rw [← List.append_assoc, hwhole]⟩
  have hnone : ∀ c ∈ ([] : List Char), c = '.' := fun c hc => absurd hc List.not_mem_nil
  have hcut := redactPasswords_cut hsettled (List.prefix_append chunk after) hnone
  simp only [List.append_nil] at hcut
  rcases hcut with ⟨hfree, hkept⟩ | ⟨front, tail, hsome, rfl, hruns, hmask⟩
  · rw [wholeMask, hfree]
    exact ⟨fun _ => hkept, fun habsurd => absurd habsurd (by decide)⟩
  · obtain ⟨word, field, htail, hword, hfield⟩ := match_of_runsOut hruns
    rw [List.append_nil] at htail
    subst htail
    rw [wholeMask, hsome, hmask]
    dsimp only
    rw [capturedWord_append hword]
    constructor
    · intro hsame
      rw [List.append_assoc front word label, ← beq_iff_eq.mp hsame]
    · intro hdifferent
      have hproper : word ++ field ≠ word ++ label := bne_iff_ne.mp (by rw [bne, hdifferent]; rfl)
      -- the field is a front of the label that stands in the text
      have hopens : opens (word ++ field ++ after) = true := opens_append hword hfield after
      obtain ⟨word', rest, hsplit, hword', hends⟩ := hsettled (word ++ field ++ after)
        ⟨front, by rw [List.append_assoc, List.append_assoc, List.append_assoc]⟩ hopens
      rw [List.append_assoc, List.append_assoc] at hsplit
      obtain ⟨rfl, hfields⟩ := isWord_unique hword hword' hsplit
      rcases List.append_eq_append_iff.mp hfields with ⟨hidden, hlabel, -⟩ | ⟨more, hmore, hrest⟩
      · have hfilled : hidden ≠ [] := by
          rintro rfl
          rw [List.append_nil] at hlabel
          exact hproper (by rw [hlabel])
        have hlast : hidden.getLast? = some ']' := by
          have hbracket : label.getLast? = some ']' := by decide
          rwa [hlabel, List.getLast?_append_of_ne_nil _ hfilled] at hbracket
        have hpositive : 0 < letters hidden := List.countP_pos_iff.mpr ⟨']', List.mem_of_getLast? hlast, by decide⟩
        have hcount := congrArg letters hlabel
        simp only [letters_append] at hcount ⊢
        omega
      · exfalso
        have hmoreEnds : Ends more := by
          intro c hc
          apply hends c
          rw [hrest, List.head?_append, Option.mem_def.mp hc]
          rfl
        have hfound := head?_rests_password hword isField_label hmoreEnds
        rw [runsOut, List.append_nil, hmore, ← List.append_assoc, hfound, beq_iff_eq] at hruns
        apply hproper
        rw [hmore, Option.some.inj hruns, List.append_nil]

/-! ## Creating the chunks -/

section Chunks

variable {digests : Digests} {tools : TextTools} {newId : ℕ → FragmentId} {now : ℕ → Time} {common : CommonParams}

theorem validateContent_chunk {chunk : String} (hchunk : Filled chunk.toList)
    (haddress : hasAddress chunk.toList = false)
    {type : Option FragmentType} {topic : Option String} (hplace : ¬ (type.isNone ∧ topic.isNone)) :
    validateContent chunk type topic = none ↔ longEnough chunk = true := by
  have hurl : urlOnly chunk = false := by
    rw [urlOnly_eq, trim_of_trimmed hchunk.trimmed, addressOnly]
    by_contra honly
    have hstart : ∃ scheme ∈ schemes, scheme <+: chunk.toList := by
      by_cases hsecure : "https://".toList.isPrefixOf chunk.toList = true
      · exact ⟨_, by decide, List.isPrefixOf_iff_prefix.mp hsecure⟩
      · by_cases hplain : "http://".toList.isPrefixOf chunk.toList = true
        · exact ⟨_, by decide, List.isPrefixOf_iff_prefix.mp hplain⟩
        · rw [addressPart, if_neg hsecure, if_neg hplain] at honly
          exact absurd rfl honly
    obtain ⟨scheme, hscheme, hfront⟩ := hstart
    have hlower : ∀ scheme ∈ schemes, scheme.map Char.toLower = scheme := by decide
    rw [hasAddress_iff.mpr ⟨scheme, hfront.isInfix, by rwa [hlower scheme hscheme]⟩] at haddress
    cases haddress
  have hshort : longEnough chunk = false ↔ utf16Length chunk < 10 ∧ (words chunk).length < 3 := by
    rw [longEnough, Bool.or_eq_false_iff, decide_eq_false_iff_not, decide_eq_false_iff_not, not_le, not_le]
  rw [validateContent, hurl]
  by_cases hlong : longEnough chunk = true
  · rw [if_neg (fun habsurd => by rw [hshort.mpr habsurd] at hlong; cases hlong), if_neg Bool.false_ne_true, if_neg hplace]
    exact ⟨fun _ => hlong, fun _ => rfl⟩
  · rw [if_pos (hshort.mp (Bool.not_eq_true _ ▸ hlong))]
    exact ⟨fun habsurd => absurd habsurd (by simp), fun habsurd => absurd habsurd hlong⟩

/-- All chunks are created, or one of them is refused. -/
theorem createChunks_spec {chunks : List String}
    (hchunks : ∀ chunk ∈ chunks, Filled chunk.toList ∧ hasAddress chunk.toList = false)
    (hplace : ¬ (common.type.isNone ∧ common.topic.isNone)) (index : ℕ) :
    (chunks.all longEnough = true →
      ∃ fragments, createChunks digests tools newId now common index chunks = .ok fragments ∧
      fragments.map Fragment.content = chunks.map fun chunk => storedContent tools chunk common.type) ∧
    (chunks.all longEnough = false →
      ∃ reason, createChunks digests tools newId now common index chunks = .error reason) := by
  induction chunks generalizing index with
  | nil => exact ⟨fun _ => ⟨[], rfl, rfl⟩, fun habsurd => absurd habsurd (by decide)⟩
  | cons chunk later ih =>
    obtain ⟨hfilled, haddress⟩ := hchunks chunk List.mem_cons_self
    obtain ⟨hmade, hrefused⟩ := ih (fun other hother => hchunks other (List.mem_cons_of_mem _ hother)) (index + 1)
    have htrim : trim ((chunkParams common chunk).content.getD "") = chunk := trim_of_trimmed hfilled.trimmed
    have hvalid := validateContent_chunk hfilled haddress hplace
    have hnonempty := ne_empty_of_filled hfilled
    rw [List.all_cons]
    by_cases hlong : longEnough chunk = true
    · obtain ⟨f, hf, hcontent⟩ := @create_ok digests tools (newId index) (now index) (chunkParams common chunk)
        (by rwa [htrim]) (by rw [htrim]; exact hvalid.mpr hlong)
      have hstored : f.content = storedContent tools chunk common.type := by
        rw [hcontent.content, htrim]
        rfl
      rw [hlong, Bool.true_and, createChunks, hf]
      constructor
      · intro hall
        obtain ⟨fragments, hfragments, hcontents⟩ := hmade hall
        refine ⟨f :: fragments, ?_, ?_⟩
        · rw [hfragments]
          rfl
        · rw [List.map_cons, List.map_cons, hcontents, hstored]
      · intro hnot
        obtain ⟨reason, hreason⟩ := hrefused hnot
        refine ⟨reason, ?_⟩
        rw [hreason]
        rfl
    · have hnot : longEnough chunk = false := Bool.not_eq_true _ ▸ hlong
      rw [hnot, Bool.false_and]
      refine ⟨fun habsurd => absurd habsurd Bool.false_ne_true, fun _ => ?_⟩
      have hinvalid : ∃ reason, validateContent chunk common.type common.topic = some reason := by
        apply Option.ne_none_iff_exists'.mp
        exact fun hnone => hlong (hvalid.mp hnone)
      obtain ⟨reason, hreason⟩ := hinvalid
      refine ⟨reason, ?_⟩
      have hcreate : create digests tools (newId index) (now index) (chunkParams common chunk) = .error reason := by
        have hreason' :
          validateContent chunk (chunkParams common chunk).type (chunkParams common chunk).topic = some reason := hreason
        simp only [create, htrim, hnonempty, if_false, hreason']
      rw [createChunks, hcreate]
      rfl

theorem linkFrom_content (previous : Option FragmentId) (fragments : List Fragment) :
    (linkFrom previous fragments).map Fragment.content = fragments.map Fragment.content := by
  induction fragments generalizing previous with
  | nil => rfl
  | cons f later ih => rw [linkFrom, List.map_cons, List.map_cons, ih]

end Chunks

/-! ## The whole text -/

/-- The loop over each sentence ends and cuts no character in two, every chunk is created, and the contents put the
masked text together, none longer than a fragment. -/
def TextKept (digests : Digests) (tools : TextTools) (newId : ℕ → FragmentId) (now : ℕ → Time) (common : CommonParams)
    (text : String) : Prop :=
  (∀ sentence ∈ splitSentences (normalized tools text), ∃ parts, cutSentence sentence = some parts ∧
    ∀ part ∈ parts, codeUnits (decode part) = part) ∧
  ∃ fragments, splitAndCreate digests tools newId now common text = some (.ok fragments) ∧
    JoinsBy SpaceGap (fragments.map fun f => f.content.toList) (normalized tools text).toList ∧
    ∀ f ∈ fragments, utf16Length f.content ≤ maxFragmentLength

section Kept

variable {tools : TextTools}

theorem whole_cutSentence {text : String} (h : Plain text.toList) :
    ∀ sentence ∈ splitSentences text, ∃ parts, cutSentence sentence = some parts ∧
    ∀ part ∈ parts, codeUnits (decode part) = part := by
  obtain ⟨sentences, hsentences, hjoined, hfilled⟩ := splitSentences_spec h.single h.trimmed
  intro sentence hsentence
  rw [hsentences] at hsentence
  obtain ⟨part, hpart, rfl⟩ := List.mem_map.mp hsentence
  obtain ⟨parts, hparts, -⟩ := cutSentence_spec (h.single.part (hjoined.part_of part hpart)) (hfilled part hpart)
  refine ⟨_, hparts, ?_⟩
  intro units hunits
  obtain ⟨piece, -, rfl⟩ := List.mem_map.mp hunits
  rw [decode_codeUnits]

/-- The content of a chunk that is not longer than a fragment is the masked chunk. -/
theorem storedContent_chunk (htools : tools.redactPII = redactPII) {whole : List Char} (hmasked : Masked whole)
    {chunk : String}
    (hpart : chunk.toList <:+: whole) {type : Option FragmentType}
    (hshort : utf16Length (storedContent tools chunk type) ≤ maxFragmentLength) :
    (storedContent tools chunk type).toList = redactPasswords chunk.toList := by
  have hcontent := storedContent_eq htools chunk type
  have hclean := redactPII_of_clean fun r hr => (hmasked.clean r hr).infix_ hpart
  by_cases hlong : lengthLimit type < utf16Length (redactPII chunk)
  · exfalso
    rw [if_pos hlong] at hcontent
    have hunits := unitCount_clipChars hlong.le
    have hlimit := lengthLimit_le type
    have hmax : maxFragmentLength = 300 := rfl
    have hdots : unitCount dots = 3 := by decide
    rw [utf16Length_eq, hcontent, unitCount_append] at hshort
    omega
  · rw [hcontent, if_neg hlong, hclean]

/-- The content of a chunk with a whole mask at its end is the chunk. -/
theorem storedContent_whole (htools : tools.redactPII = redactPII) {whole : List Char} (hmasked : Masked whole)
    {chunk : String}
    (hpart : chunk.toList <:+: whole) (hmask : wholeMask chunk.toList = true) (hshort : utf16Length chunk ≤ maxFragmentLength)
    (type : Option FragmentType) : storedContent tools chunk type = chunk := by
  have hclean := redactPII_of_clean fun r hr => (hmasked.clean r hr).infix_ hpart
  rw [(redactPasswords_chunk hmasked hpart).1 hmask] at hclean
  have hcontent := storedContent_eq htools chunk type
  have hlimit := lengthLimit_le type
  have hmax : maxFragmentLength = 300 := rfl
  have hunits : utf16Length (redactPII chunk) = utf16Length chunk := by rw [utf16Length_eq, hclean, utf16Length_eq]
  rw [if_neg (by omega), hclean] at hcontent
  exact String.toList_inj.mp hcontent

theorem letters_eq_of_joinsBy {parts : List (List Char)} {whole : List Char} (h : JoinsBy SpaceGap parts whole) :
    letters whole = (parts.map letters).sum := by
  apply h.countP_eq
  intro _ between _ hgap c hc
  rw [hgap c hc]
  decide

end Kept

/-- A text that is accepted and has no address is kept by the split exactly when its pieces can be packed. -/
theorem splitAndCreate_keeps_iff {digests : Digests} {toLowerCase : String → String} {countTokens : String → ℕ}
    {newId : ℕ → FragmentId} {now : ℕ → Time} {common : CommonParams} {text : String}
    (hvalid : validateContent text common.type common.topic = none) (haddress : hasAddress text.toList = false) :
    TextKept digests (factoryTools toLowerCase countTokens redactPII) newId now common text ↔
      packable (normalized (factoryTools toLowerCase countTokens redactPII) text) = true := by
  have htools : (factoryTools toLowerCase countTokens redactPII).redactPII = redactPII := rfl
  generalize factoryTools toLowerCase countTokens redactPII = tools at htools ⊢
  have hplain := plain_normalized htools haddress
  have hplace : ¬ (common.type.isNone ∧ common.topic.isNone) := by
    intro habsurd
    rw [validateContent] at hvalid
    split at hvalid
    · cases hvalid
    · split at hvalid
      · cases hvalid
      · cases hvalid
  obtain ⟨whole, hmasked, hinside⟩ := hplain.masked
  obtain ⟨pieces, hpieces, hpacks, hjoined, hchunks⟩ := chunks_spec hplain
  have hpart : ∀ chunk ∈ joinSentences "" pieces, chunk.toList <:+: (normalized tools text).toList :=
    fun chunk hchunk =>
    hjoined.part_of _ (List.mem_map_of_mem hchunk)
  have hcreated := @createChunks_spec digests tools newId now common (joinSentences "" pieces)
    (fun chunk hchunk => ⟨(hchunks chunk hchunk).1, hasAddress_part hplain.address (hpart chunk hchunk)⟩) hplace 0
  have hpackable : packable (normalized tools text) = true ↔
      ∀ chunk ∈ joinSentences "" pieces, longEnough chunk = true ∧ wholeMask chunk.toList = true := by
    rw [packable, hpieces, hpacks, Option.any_some, List.all_eq_true]
    simp only [List.mem_map, forall_exists_index, and_imp, forall_apply_eq_imp_iff₂, Bool.and_eq_true]
  rw [hpackable]
  constructor
  · rintro ⟨-, fragments, hfragments, hcontents, hshort⟩
    rw [splitAndCreate, hpieces, Option.map_some, Option.some.injEq] at hfragments
    have hlong : (joinSentences "" pieces).all longEnough = true := by
      by_contra hnot
      obtain ⟨reason, hreason⟩ := hcreated.2 (Bool.not_eq_true _ ▸ hnot)
      rw [hreason] at hfragments
      cases hfragments
    obtain ⟨made, hmade, hmadeContents⟩ := hcreated.1 hlong
    rw [hmade] at hfragments
    cases hfragments
    have hstored : (linkFrom none made).map Fragment.content =
        (joinSentences "" pieces).map fun chunk => storedContent tools chunk common.type :=
          (linkFrom_content none made).trans hmadeContents
    have hshort' :
      ∀ chunk ∈ joinSentences "" pieces, utf16Length (storedContent tools chunk common.type) ≤ maxFragmentLength := by
      intro chunk hchunk
      have hmem : storedContent tools chunk common.type ∈ (linkFrom none made).map Fragment.content := by
        rw [hstored]
        exact List.mem_map_of_mem hchunk
      obtain ⟨f, hf, hcontent⟩ := List.mem_map.mp hmem
      rw [← hcontent]
      exact hshort f hf
    have hchars : (linkFrom none made).map (fun f => f.content.toList) =
        (joinSentences "" pieces).map fun chunk => redactPasswords chunk.toList := by
      have hcompose : (linkFrom none made).map (fun f => f.content.toList) =
          ((linkFrom none made).map Fragment.content).map String.toList := by rw [List.map_map]; rfl
      rw [hcompose, hstored, List.map_map]
      apply List.map_congr_left
      intro chunk hchunk
      exact storedContent_chunk htools hmasked ((hpart chunk hchunk).trans hinside) (hshort' chunk hchunk)
    rw [hchars] at hcontents
    have hsame := (letters_eq_of_joinsBy hcontents).symm.trans (letters_eq_of_joinsBy hjoined)
    rw [List.map_map, List.map_map] at hsame
    intro chunk hchunk
    refine ⟨List.all_eq_true.mp hlong chunk hchunk, ?_⟩
    by_contra hmask
    have hgrows : ((joinSentences "" pieces).map (letters ∘ String.toList)).sum <
        ((joinSentences "" pieces).map (letters ∘ fun chunk => redactPasswords chunk.toList)).sum := by
      apply List.sum_lt_sum
      · intro other hother
        obtain ⟨hkept, hlonger⟩ := redactPasswords_chunk hmasked ((hpart other hother).trans hinside)
        by_cases hwhole : wholeMask other.toList = true
        · rw [Function.comp_apply, Function.comp_apply, hkept hwhole]
        · exact (hlonger (Bool.not_eq_true _ ▸ hwhole)).le
      · exact ⟨chunk, hchunk,
          (redactPasswords_chunk hmasked ((hpart chunk hchunk).trans hinside)).2 (Bool.not_eq_true _ ▸ hmask)⟩
    omega
  · intro hall
    refine ⟨whole_cutSentence hplain, ?_⟩
    obtain ⟨made, hmade, hmadeContents⟩ := hcreated.1 (List.all_eq_true.mpr fun chunk hchunk => (hall chunk hchunk).1)
    have hstored : (linkFrom none made).map Fragment.content = joinSentences "" pieces := by
      rw [linkFrom_content, hmadeContents]
      refine (List.map_congr_left ?_).trans (List.map_id _)
      intro chunk hchunk
      exact storedContent_whole htools hmasked ((hpart chunk hchunk).trans hinside) (hall chunk hchunk).2 (hchunks chunk hchunk).2 _
    refine ⟨linkFrom none made, ?_, ?_, ?_⟩
    · rw [splitAndCreate, hpieces, Option.map_some, hmade]
      rfl
    · have hcompose : (linkFrom none made).map (fun f => f.content.toList) =
          ((linkFrom none made).map Fragment.content).map String.toList := by rw [List.map_map]; rfl
      rw [hcompose, hstored]
      exact hjoined
    · intro f hf
      have hmem := List.mem_map_of_mem hf (f := Fragment.content)
      rw [hstored] at hmem
      exact (hchunks _ hmem).2

/-! ## Examples -/

def deployFacts : CommonParams where
  topic := some "deploy"
  type := some .fact

def chunkId (index : ℕ) : FragmentId := "frag-" ++ Nat.repr index

theorem password_text_kept :
    TextKept ContentUniqueness.sampleDigests sampleTools chunkId id deployFacts "Ask for the pwd = x1 first.  Then deploy." :=
  (splitAndCreate_keeps_iff (by decide +kernel) (by decide +kernel)).mpr (by decide +kernel)

/-- A text of two letters and a run of spaces is long enough before the spaces are collapsed, and refused after. -/
theorem spaced_letters_lost :
    validateContent "a            b" deployFacts.type deployFacts.topic = none ∧
    hasAddress "a            b".toList = false ∧
      ¬ TextKept ContentUniqueness.sampleDigests sampleTools chunkId id deployFacts "a            b" := by
  have hrefused :
    (splitAndCreate ContentUniqueness.sampleDigests sampleTools chunkId id deployFacts "a            b").map
      (fun made => made.toOption.isSome) = some false := by decide
  refine ⟨by decide, by decide, ?_⟩
  rintro ⟨-, fragments, hfragments, -⟩
  rw [hfragments] at hrefused
  cases hrefused

end FragmentMemory.SplitKeepsText
