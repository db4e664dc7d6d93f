import FragmentMemory.ParseJson

/-! # A JSON answer in its prose

A model writes an array or an object between its prose, perhaps in a code fence and behind a block of thinking.  Think
blocks in the text of the value lie in its strings, so taking one out leaves a text with fewer units in them.
-/
namespace FragmentMemory.EmbeddedJson
open CodeUnits FirstMatch JsonText ParseJson

def isBracket (unit : ℕ) : Bool := unit = 91 || unit = 93 || unit = 123 || unit = 125

/-- No bracket or brace. -/
def Bare (text : List ℕ) : Prop := ∀ unit ∈ text, isBracket unit = false

/-- No bracket, brace, backtick or think tag. -/
structure Prose (text : List ℕ) : Prop where
  units : ∀ unit ∈ text, isBracket unit = false ∧ unit ≠ 96
  opens : cutAt lower thinkOpen text = none
  closes : cutAt lower thinkClose text = none

/-- A response with the text of an array or an object in it. -/
structure Answer where
  value : Json
  written : List ℕ
  before : List ℕ
  behind : List ℕ
  thinking : Option (List ℕ)
  fenced : Bool
  sound : value.Sound
  settled : value.value = value
  collection : value.bounds.isSome = true
  writes : tokens written = some value.tokens
  tight : (∀ unit ∈ written.head?, isBlank unit = false) ∧ ∀ unit ∈ written.getLast?, isBlank unit = false
  before_prose : Prose before
  behind_prose : Prose behind
  closed : ∀ inside ∈ thinking, cutAt lower thinkClose inside = none

def lead (fenced : Bool) : List ℕ := if fenced then fenceMark ++ jsonLabel ++ [10] else []

def trail (fenced : Bool) : List ℕ := if fenced then 10 :: fenceMark else []

def block : Option (List ℕ) → List ℕ
  | none => []
  | some inside => thinkOpen ++ (inside ++ thinkClose)

variable {first last : ℕ} {front back inner : List ℕ}

/-! ## Brackets and prose -/

theorem isBracket_bounds {value : Json} (h : value.bounds = some (first, last)) :
    isBracket first = true ∧ isBracket last = true := by
  rcases bounds_cases h with ⟨rfl, rfl⟩ | ⟨rfl, rfl⟩
  · exact ⟨rfl, rfl⟩
  · exact ⟨rfl, rfl⟩

theorem first_eq_iff {value : Json} (h : value.bounds = some (first, last)) :
    first = 123 ↔ value.bounds = some (123, 125) := by
  rw [h]
  rcases bounds_cases h with ⟨rfl, rfl⟩ | ⟨rfl, rfl⟩
  · simp
  · simp

theorem isTagless_bracket {bracket : ℕ} (h : isBracket bracket = true) :
    isTagless bracket = true ∧ isSpaceUnit bracket = false := by
  simp only [isBracket, Bool.or_eq_true, decide_eq_true_eq] at h
  rcases h with ((rfl | rfl) | rfl) | rfl
  · exact ⟨rfl, rfl⟩
  · exact ⟨rfl, rfl⟩
  · exact ⟨rfl, rfl⟩
  · exact ⟨rfl, rfl⟩

theorem not_mem_tags {bracket : ℕ} (h : isBracket bracket = true) :
    bracket ∉ thinkOpen ∧ lower bracket ∉ thinkClose ∧ bracket ∉ fenceMark := by
  simp only [isBracket, Bool.or_eq_true, decide_eq_true_eq] at h
  rcases h with ((rfl | rfl) | rfl) | rfl
  · decide
  · decide
  · decide
  · decide

theorem Bare.append {front back : List ℕ} (h : Bare front) (h' : Bare back) : Bare (front ++ back) := by
  intro unit hunit
  rcases List.mem_append.mp hunit with hfront | hback
  · exact h unit hfront
  · exact h' unit hback

theorem Bare.not_mem {text : List ℕ} (h : Bare text) {bracket : ℕ} (hbracket : isBracket bracket = true) :
    bracket ∉ text := by
  intro hmem
  rw [h bracket hmem] at hbracket
  cases hbracket

theorem bare_prose {text : List ℕ} (h : Prose text) : Bare text := fun unit hunit => (h.units unit hunit).1

theorem prose_dropWhile {text : List ℕ} (h : Prose text) (p : ℕ → Bool) : Prose (text.dropWhile p) where
  units unit hunit := h.units unit ((List.dropWhile_sublist p).subset hunit)
  opens := by
    have hopens := h.opens
    rw [← List.takeWhile_append_dropWhile (p := p) (l := text)] at hopens
    exact none_of_append_right hopens
  closes := by
    have hcloses := h.closes
    rw [← List.takeWhile_append_dropWhile (p := p) (l := text)] at hcloses
    exact none_of_append_right hcloses

theorem bare_lead (fenced : Bool) : Bare (lead fenced) := by
  cases fenced
  · intro unit hunit
    cases hunit
  · have hall : ∀ unit ∈ lead true, isBracket unit = false := by decide
    exact hall

theorem bare_trail (fenced : Bool) : Bare (trail fenced) := by
  cases fenced
  · intro unit hunit
    cases hunit
  · have hall : ∀ unit ∈ trail true, isBracket unit = false := by decide
    exact hall

/-! ## Think blocks in a JSON text -/

theorem lower_eq {unit : ℕ} {tag : ℕ} (htag : tag = 60 ∨ tag = 62) (h : lower unit = tag) : unit = tag := by
  rw [lower] at h
  split at h
  · next hletter =>
    simp only [Bool.and_eq_true, decide_eq_true_eq] at hletter
    omega
  · exact h

/-- In whatever case, a tag stands between `<` and `>`. -/
theorem exists_tag {matched name : List ℕ} (h : matched.map lower = 60 :: (name ++ [62])) :
    ∃ inner, matched = 60 :: (inner ++ [62]) := by
  obtain ⟨first, rest, rfl, hfirst, hrest⟩ := List.map_eq_cons_iff.mp h
  obtain ⟨inner, last, rfl, -, hlast⟩ := List.map_eq_append_iff.mp hrest
  obtain ⟨unit, rfl, hunit⟩ := List.map_eq_singleton_iff.mp hlast
  exact ⟨inner, by rw [lower_eq (Or.inl rfl) hfirst, lower_eq (Or.inr rfl) hunit]⟩

theorem exists_open {matched : List ℕ} (h : matched.map lower = thinkOpen) : ∃ inner, matched = 60 :: (inner ++ [62]) := by
  have hname : thinkOpen = 60 :: ([116, 104, 105, 110, 107] ++ [62]) := rfl
  exact exists_tag (h.trans hname)

theorem exists_close {matched : List ℕ} (h : matched.map lower = thinkClose) :
    ∃ inner, matched = 60 :: (inner ++ [62]) := by
  have hname : thinkClose = 60 :: ([47, 116, 104, 105, 110, 107] ++ [62]) := rfl
  exact exists_tag (h.trans hname)

/-- The tags lie in strings, so the rest is read as before, and a text that loses a block loses a `<`. -/
theorem content_removeBlocks (text : List ℕ) : ∀ state, after state text = some .outside →
    after state (removeBlocks text) = some .outside ∧
      (removeBlocks text = text ∨ (content state (removeBlocks text)).count 60 < (content state text).count 60) := by
  induction text using block_induction with
  | hopen text h =>
    intro state hread
    rw [removeBlocks_of_open h]
    exact ⟨hread, Or.inl rfl⟩
  | hclose text before inner h h' =>
    intro state hread
    rw [removeBlocks_of_close h h']
    exact ⟨hread, Or.inl rfl⟩
  | hblock text before inner thinking behind h h' ih =>
    intro state hread
    rw [removeBlocks_of_block h h']
    obtain ⟨opening, rfl, hopening⟩ := exists_of_cutAt h
    obtain ⟨closing, rfl, hclosing⟩ := exists_of_cutAt h'
    obtain ⟨front, rfl⟩ := exists_open hopening
    obtain ⟨back, rfl⟩ := exists_close hclosing
    have hjoin : before ++ 60 :: (front ++ [62]) ++ (thinking ++ 60 :: (back ++ [62]) ++ behind) =
        before ++ 60 :: ((front ++ 62 :: (thinking ++ 60 :: back)) ++ [62]) ++ behind := by
      simp only [List.append_assoc, List.cons_append, List.nil_append]
    rw [hjoin] at hread ⊢
    obtain ⟨hbefore, hbehind, hcount⟩ := plain_part rfl rfl hread
    have hsplit : behind = behind.takeWhile isSpaceUnit ++ behind.dropWhile isSpaceUnit :=
      List.takeWhile_append_dropWhile.symm
    rw [hsplit] at hbehind
    obtain ⟨between, hspaces, hrest⟩ := exists_after hbehind
    have hinside : between = .inside := by
      refine after_inside (fun unit hunit => ?_) hspaces
      have hspace := List.mem_takeWhile_imp hunit
      refine ⟨?_, ?_⟩
      · rintro rfl
        cases hspace
      · rintro rfl
        cases hspace
    subst hinside
    have hcontent : (content .inside (behind.dropWhile isSpaceUnit)).count 60 ≤ (content .inside behind).count 60 := by
      conv_rhs => rw [hsplit, content_append hspaces, List.count_append]
      omega
    obtain ⟨hafter, hless⟩ := ih .inside hrest
    have hle : (content .inside (removeBlocks (behind.dropWhile isSpaceUnit))).count 60 ≤
        (content .inside (behind.dropWhile isSpaceUnit)).count 60 := by
      rcases hless with hsame | hless
      · rw [hsame]
      · exact hless.le
    refine ⟨by rw [after_append, hbefore, Option.bind_some, hafter], Or.inr ?_⟩
    rw [content_append hbefore, List.count_append]
    omega

namespace Answer
variable (a : Answer)

/-- The prose before the value, without the white space that goes with a think block. -/
def shown : List ℕ := if a.thinking.isSome then a.before.dropWhile isSpaceUnit else a.before

def text : List ℕ :=
  block a.thinking ++ (a.before ++ lead a.fenced ++ a.written ++ (trail a.fenced ++ a.behind))

/-- The response without its block of thinking. -/
def candidate : List ℕ := a.shown ++ lead a.fenced ++ a.written ++ (trail a.fenced ++ a.behind)

/-- No think block is taken out of the text of the value. -/
def Intact : Prop :=
  removeBlocks a.written = a.written ∧
    (a.thinking.isSome = true ∨ cutAt lower thinkClose a.written = none ∨ cutAt id thinkOpen a.written ≠ none)

variable {a}

/-! ## The text of the value -/

theorem parse_written (a : Answer) : parse a.written = some a.value := by
  rw [parse, read_of_tokens a.sound a.writes, Option.map_some, a.settled]

theorem exists_bounds (a : Answer) : ∃ first last inner, a.value.bounds = some (first, last) ∧
    a.written = first :: (inner ++ [last]) := by
  obtain ⟨⟨first, last⟩, hbounds⟩ := Option.isSome_iff_exists.mp a.collection
  obtain ⟨blanks, inner, blanks', hwritten, hblanks, hblanks'⟩ := text_of_bounds a.writes hbounds
  obtain ⟨hhead, hlast⟩ := a.tight
  have hempty : blanks = [] := by
    cases blanks with
    | nil => rfl
    | cons unit blanks =>
      have hblank := hhead unit (by rw [hwritten]; rfl)
      rw [hblanks unit List.mem_cons_self] at hblank
      cases hblank
  have hempty' : blanks' = [] := by
    rcases List.eq_nil_or_concat blanks' with hnil | ⟨front, unit, hconcat⟩
    · exact hnil
    · rw [hconcat, List.concat_eq_append] at hwritten hblanks'
      have hblank := hlast unit (by rw [hwritten, ← List.append_assoc, List.getLast?_append]; rfl)
      rw [hblanks' unit (List.mem_append_right _ List.mem_cons_self)] at hblank
      cases hblank
  refine ⟨first, last, inner, hbounds, ?_⟩
  rw [hwritten, hempty, hempty', List.nil_append, List.append_nil]

theorem prose_shown (a : Answer) : Prose a.shown := by
  rw [shown]
  split
  · exact prose_dropWhile a.before_prose isSpaceUnit
  · exact a.before_prose

theorem bare_front (a : Answer) : Bare (a.shown ++ lead a.fenced) := (bare_prose a.prose_shown).append (bare_lead a.fenced)

theorem bare_back (a : Answer) : Bare (trail a.fenced ++ a.behind) :=
  (bare_trail a.fenced).append (bare_prose a.behind_prose)

/-- Where there are fewer of some plain unit than in the strings of the value, no part is its text. -/
theorem parse_ne_of_fewer {front text back part : List ℕ} {state : State} {unit : ℕ} (hplain : isPlain unit = true)
    (hread : after state text = some .outside)
    (hfewer : (content state text).count unit < (content .outside a.written).count unit)
    (hfront : Bare front) (hback : Bare back) (hpart : part <:+: front ++ text ++ back) :
    parse part ≠ some a.value := by
  intro hparse
  obtain ⟨first, last, -, hbounds, -⟩ := a.exists_bounds
  obtain ⟨hfirst, hlast⟩ := isBracket_bounds hbounds
  obtain ⟨tree, htree, hvalue⟩ := Option.map_eq_some_iff.mp hparse
  rw [← hvalue, bounds_value] at hbounds
  obtain ⟨blanks, inner, blanks', rfl, hblanks, hblanks'⟩ := text_of_bounds (tokens_of_read htree) hbounds
  rw [parse_blanks hblanks hblanks'] at hparse
  have hcore : first :: (inner ++ [last]) <:+: text := by
    refine infix_of_ends (hfront.not_mem hfirst) (hback.not_mem hlast) (List.IsInfix.trans ?_ hpart)
    exact ⟨blanks, blanks', rfl⟩
  obtain ⟨before, behind, rfl⟩ := hcore
  obtain ⟨core, hcore, -⟩ := Option.map_eq_some_iff.mp hparse
  have hstrings := count_parse unit hparse
  have hcontent := count_content_le hplain ⟨first, rfl, Or.inr (isMark_first hbounds)⟩ (after_of_read hcore) hread
  rw [strings_of_tokens a.writes] at hstrings
  omega

theorem removeBlocks_written (hbounds : a.value.bounds = some (first, last))
    (hwritten : a.written = first :: (inner ++ [last])) :
    removeBlocks a.written = first :: (removeBlocks inner ++ [last]) := by
  obtain ⟨hfirst, hlast⟩ := isBracket_bounds hbounds
  have hstart : removeBlocks ([] ++ first :: (inner ++ [last])) = [] ++ first :: removeBlocks (inner ++ [last]) :=
    removeBlocks_front rfl (isTagless_bracket hfirst).1 (inner ++ [last])
  rw [List.nil_append, List.nil_append] at hstart
  rw [hwritten, hstart, removeBlocks_back (isTagless_bracket hlast).1 (isTagless_bracket hlast).2 rfl rfl]

theorem bracket_last {closing front back : List ℕ} (hclosing : closing.map lower = thinkClose)
    (h : a.written = front ++ closing ++ back) : ∃ rest bracket, back = rest ++ [bracket] ∧ isBracket bracket = true := by
  obtain ⟨first, last, inner, hbounds, hwritten⟩ := a.exists_bounds
  obtain ⟨tag, rfl⟩ := exists_close hclosing
  obtain ⟨-, hlast⟩ := isBracket_bounds hbounds
  rw [hwritten] at h
  rcases List.eq_nil_or_concat back with rfl | ⟨rest, bracket, rfl⟩
  · have hsplit : (first :: inner) ++ [last] = (front ++ 60 :: tag) ++ [62] := by simpa using h
    rw [List.singleton_inj.mp (List.append_inj' hsplit rfl).2] at hlast
    cases hlast
  · have hsplit : (first :: inner) ++ [last] = (front ++ 60 :: (tag ++ [62]) ++ rest) ++ [bracket] := by simpa using h
    rw [List.singleton_inj.mp (List.append_inj' hsplit rfl).2] at hlast
    exact ⟨rest, bracket, List.concat_eq_append, hlast⟩

/-! ## What is left of a response -/

theorem removeBlocks_around {front back : List ℕ} (a : Answer) (hfront : cutAt lower thinkOpen front = none)
    (hopen : cutAt lower thinkOpen back = none) (hclose : cutAt lower thinkClose back = none) :
    removeBlocks (front ++ a.written ++ back) = front ++ removeBlocks a.written ++ back := by
  obtain ⟨first, last, inner, hbounds, hwritten⟩ := a.exists_bounds
  obtain ⟨hfirst, hlast⟩ := isBracket_bounds hbounds
  have hjoin : front ++ a.written ++ back = front ++ first :: (inner ++ last :: back) := by
    rw [hwritten]
    simp
  rw [hjoin, removeBlocks_front hfront (isTagless_bracket hfirst).1,
    removeBlocks_back (isTagless_bracket hlast).1 (isTagless_bracket hlast).2 hopen hclose,
    removeBlocks_written hbounds hwritten]
  simp

/-- No tag reaches from the prose into a fence. -/
theorem cutAt_front (a : Answer) : cutAt lower thinkOpen (a.shown ++ lead a.fenced) = none ∧
    cutAt lower thinkClose (a.shown ++ lead a.fenced) = none := by
  have hopens := a.prose_shown.opens
  have hcloses := a.prose_shown.closes
  cases a.fenced with
  | false => rw [lead, if_neg Bool.false_ne_true, List.append_nil]; exact ⟨hopens, hcloses⟩
  | true =>
    have hfence : isTagless 96 = true := rfl
    exact ⟨cutAt_open hopens hfence _, cutAt_close hcloses hfence _⟩

theorem cutAt_back (a : Answer) : cutAt lower thinkOpen (trail a.fenced ++ a.behind) = none ∧
    cutAt lower thinkClose (trail a.fenced ++ a.behind) = none := by
  have hopens := a.behind_prose.opens
  have hcloses := a.behind_prose.closes
  cases a.fenced with
  | false => exact ⟨hopens, hcloses⟩
  | true =>
    have hunits : ∀ unit ∈ [10, 96, 96, 96], isTagless unit = true := by decide
    have hcut : ∀ units : List ℕ, (∀ unit ∈ units, isTagless unit = true) →
        cutAt lower thinkOpen (units ++ a.behind) = none ∧ cutAt lower thinkClose (units ++ a.behind) = none := by
      intro units hunits
      induction units with
      | nil => exact ⟨hopens, hcloses⟩
      | cons unit units ih =>
        rw [List.forall_mem_cons] at hunits
        obtain ⟨ihopens, ihcloses⟩ := ih hunits.2
        have hopen : cutAt lower thinkOpen ([] ++ unit :: (units ++ a.behind)) = _ := cutAt_open rfl hunits.1 _
        have hclose : cutAt lower thinkClose ([] ++ unit :: (units ++ a.behind)) = _ := cutAt_close rfl hunits.1 _
        rw [ihopens] at hopen
        rw [ihcloses] at hclose
        exact ⟨hopen, hclose⟩
    exact hcut [10, 96, 96, 96] hunits

theorem removeBlocks_candidate (a : Answer) :
    removeBlocks a.candidate = a.shown ++ lead a.fenced ++ removeBlocks a.written ++ (trail a.fenced ++ a.behind) :=
  removeBlocks_around a a.cutAt_front.1 a.cutAt_back.1 a.cutAt_back.2

theorem text_eq_candidate (h : a.thinking = none) : a.text = a.candidate := by
  rw [text, candidate, shown, h]
  rfl

theorem removeBlocks_text (a : Answer) : removeBlocks a.text = removeBlocks a.candidate := by
  cases hthinking : a.thinking with
  | none => rw [text_eq_candidate hthinking]
  | some inside =>
    have hclosed := a.closed inside hthinking
    obtain ⟨first, last, inner, hbounds, hwritten⟩ := a.exists_bounds
    obtain ⟨item, rest, hitem, hspace⟩ : ∃ item rest, lead a.fenced ++ a.written = item :: rest ∧
        isSpaceUnit item = false := by
      cases a.fenced with
      | false => exact ⟨first, inner ++ [last], hwritten, (isTagless_bracket (isBracket_bounds hbounds).1).2⟩
      | true => exact ⟨96, _, rfl, rfl⟩
    rw [text, hthinking, block]
    simp only [List.append_assoc]
    rw [removeBlocks_block hclosed, ← List.append_assoc (lead a.fenced), hitem, List.cons_append,
      dropWhile_append_cons hspace, candidate, shown, hthinking, Option.isSome_some, if_pos rfl, List.append_assoc,
      List.append_assoc, ← List.append_assoc (lead a.fenced), hitem, List.cons_append]

theorem cutAt_candidate (a : Answer) :
    cutAt lower thinkClose a.candidate = (cutAt lower thinkClose a.written).map (fun cut =>
      (a.shown ++ lead a.fenced ++ cut.1, cut.2 ++ (trail a.fenced ++ a.behind))) ∧
    (cutAt id thinkOpen a.candidate = none ↔ cutAt id thinkOpen a.written = none) := by
  obtain ⟨first, last, inner, hbounds, hwritten⟩ := a.exists_bounds
  obtain ⟨hfirst, hlast⟩ := isBracket_bounds hbounds
  have hexact : ∀ text, cutAt lower thinkOpen text = none → cutAt id thinkOpen text = none :=
    fun text => exact_of_folded (List.cons_ne_nil _ _) (by decide)
  rw [candidate, hwritten]
  refine ⟨?_, ?_⟩
  · exact cutAt_around a.cutAt_front.2 a.cutAt_back.2 (not_mem_tags hfirst).2.1 (not_mem_tags hlast).2.1
      (List.cons_ne_nil _ _)
  · rw [cutAt_around (hexact _ a.cutAt_front.1) (hexact _ a.cutAt_back.1) (not_mem_tags hfirst).1
      (not_mem_tags hlast).1 (List.cons_ne_nil _ _), Option.map_eq_none_iff]

theorem removeBlocks_text_ne {inside : List ℕ} (h : a.thinking = some inside) : removeBlocks a.text ≠ a.text := by
  intro hsame
  have hlength := length_removeBlocks a.candidate
  rw [← removeBlocks_text, hsame, text, candidate, shown, h, block] at hlength
  have hdrop := (List.dropWhile_sublist isSpaceUnit (l := a.before)).length_le
  simp only [Option.isSome_some, if_true, List.length_append] at hlength
  have hopen : thinkOpen.length = 7 := rfl
  omega

theorem stripThinkBlocks_intact (h : a.Intact) : stripThinkBlocks a.text = a.candidate := by
  have hclean : removeBlocks a.text = a.candidate := by
    rw [removeBlocks_text, removeBlocks_candidate, h.1, candidate]
  rw [stripThinkBlocks]
  simp only [hclean]
  split
  · next hsame =>
    rcases h.2 with hthinking | hclose | hopen
    · obtain ⟨inside, hinside⟩ := Option.isSome_iff_exists.mp hthinking
      exact absurd (hclean.trans hsame) (removeBlocks_text_ne hinside)
    · rw [← hsame, a.cutAt_candidate.1, hclose]
      rfl
    · have hcandidate := mt a.cutAt_candidate.2.mp hopen
      rw [← hsame]
      split
      · rw [if_neg hcandidate]
      · rfl
  · rfl

/-- Where a block is taken out of the text of the value, no part of what is left is that value. -/
theorem attempt_stripped (h : ¬ a.Intact) : stripThinkBlocks a.text ≠ a.text ∧ stripThinkBlocks a.text ≠ [] ∧
    attempt (stripThinkBlocks a.text) ≠ some a.value := by
  have hread := after_of_tokens a.writes
  have hclean := a.removeBlocks_text.trans a.removeBlocks_candidate
  by_cases hsame : removeBlocks a.written = a.written
  · -- A closing tag of its own is in the text: all before it is dropped.
    have hrest : a.thinking = none ∧ cutAt lower thinkClose a.written ≠ none ∧ cutAt id thinkOpen a.written = none := by
      refine ⟨?_, ?_, ?_⟩
      · by_contra hthinking
        exact h ⟨hsame, Or.inl (Option.isSome_iff_ne_none.mpr hthinking)⟩
      · exact fun hclose => h ⟨hsame, Or.inr (Or.inl hclose)⟩
      · by_contra hopen
        exact h ⟨hsame, Or.inr (Or.inr hopen)⟩
    obtain ⟨hthinking, hclose, hopen⟩ := hrest
    obtain ⟨⟨front, rest⟩, hcut⟩ := Option.ne_none_iff_exists'.mp hclose
    obtain ⟨closing, hsplit, hclosing⟩ := exists_of_cutAt hcut
    obtain ⟨inner, bracket, rfl, hbracket⟩ := bracket_last hclosing hsplit
    have hstripped : stripThinkBlocks a.text =
        (inner ++ bracket :: (trail a.fenced ++ a.behind)).dropWhile isSpaceUnit := by
      have hcandidate := a.cutAt_candidate.1
      rw [hcut, Option.map_some] at hcandidate
      rw [hsame, ← candidate] at hclean
      rw [stripThinkBlocks, hclean, text_eq_candidate hthinking, if_pos rfl, hcandidate]
      simp only [a.cutAt_candidate.2.mpr hopen, if_true, List.append_assoc, List.singleton_append]
    refine ⟨?_, ?_, ?_⟩
    · intro heq
      have hlength := congrArg List.length (hstripped.symm.trans heq)
      have hdrop := (List.dropWhile_sublist isSpaceUnit
        (l := inner ++ bracket :: (trail a.fenced ++ a.behind))).length_le
      have hclose : closing.length = 8 := by rw [← List.length_map lower, hclosing]; rfl
      rw [text_eq_candidate hthinking, candidate, hsplit] at hlength
      simp only [List.length_append, List.length_cons, List.length_nil] at hlength hdrop
      omega
    · rw [hstripped, dropWhile_append_cons (isTagless_bracket hbracket).2]
      exact List.append_ne_nil_of_right_ne_nil _ (List.cons_ne_nil _ _)
    · intro hattempt
      obtain ⟨part, hpart, hparse⟩ := attempt_infix hattempt
      rw [hstripped] at hpart
      have hwhole : part <:+: [] ++ (inner ++ [bracket]) ++ (trail a.fenced ++ a.behind) := by
        have hinfix := hpart.trans (infix_dropWhile _ _)
        simpa using hinfix
      obtain ⟨tag, htag⟩ := exists_close hclosing
      rw [htag] at hsplit
      rw [hsplit] at hread
      obtain ⟨-, hinside, hcount⟩ := plain_part rfl rfl hread
      have hplain : isPlain 60 = true := rfl
      have hempty : Bare [] := fun unit hunit => absurd hunit List.not_mem_nil
      refine parse_ne_of_fewer hplain hinside ?_ hempty a.bare_back hwhole hparse
      rw [hsplit]
      omega
  · have hchanged : removeBlocks a.text ≠ a.text := by
      cases hthinking : a.thinking with
      | some inside => exact removeBlocks_text_ne hthinking
      | none =>
        rw [hclean, text_eq_candidate hthinking, candidate]
        intro heq
        exact hsame (List.append_cancel_left (List.append_cancel_right heq))
    have hstripped : stripThinkBlocks a.text = removeBlocks a.text := by
      rw [stripThinkBlocks]
      simp only [if_neg hchanged]
    obtain ⟨hafter, hcontent⟩ := content_removeBlocks a.written .outside hread
    refine ⟨hstripped ▸ hchanged, ?_, ?_⟩
    · obtain ⟨first, last, inner, hbounds, hwritten⟩ := a.exists_bounds
      rw [hstripped, hclean, removeBlocks_written hbounds hwritten]
      simp
    · intro hattempt
      obtain ⟨part, hpart, hparse⟩ := attempt_infix hattempt
      rw [hstripped, hclean] at hpart
      have hplain : isPlain 60 = true := rfl
      exact parse_ne_of_fewer hplain hafter (hcontent.resolve_left hsame) a.bare_front a.bare_back hpart hparse

end Answer

end FragmentMemory.EmbeddedJson
