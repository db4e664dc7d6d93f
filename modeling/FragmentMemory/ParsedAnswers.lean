import FragmentMemory.EmbeddedJson

/-! # Which answers are read as they are written

Of the parts that are tried one after another, the text of the value is the last for an array and the last but one for
an object.  It is returned when nothing before it is JSON.
-/
namespace FragmentMemory.EmbeddedJson
open CodeUnits FirstMatch JsonText ParseJson

variable {first last : ℕ} {front back inner inside : List ℕ}

/-! ## Blanks, fences and white space -/

theorem prefix_of_first {front rest blanks behind : List ℕ} {bracket : ℕ} (hfront : bracket ∉ front)
    (h : front ++ rest = blanks ++ bracket :: behind) : front <+: blanks := by
  rcases List.append_eq_append_iff.mp h with ⟨middle, rfl, -⟩ | ⟨middle, rfl, hmiddle⟩
  · exact List.prefix_append _ _
  · cases middle with
    | nil => exact ⟨[], by rw [List.append_nil, List.append_nil]⟩
    | cons item middle =>
      obtain ⟨rfl, -⟩ := List.cons.inj hmiddle
      exact absurd (List.mem_append_right _ List.mem_cons_self) hfront

theorem not_mem_fence (h : Prose front) :
    ∀ unit ∈ front, ∀ head ∈ fenceMark.head?, head ≠ id unit := by
  intro unit hunit head hhead heq
  obtain rfl := Option.some.inj hhead
  exact (h.units unit hunit).2 heq.symm

theorem fenceMark_ne : fenceMark ≠ [] := List.cons_ne_nil _ _

theorem cutAt_prose (h : Prose front) : cutAt id fenceMark front = none := by
  have hskip := cutAt_skip (not_mem_fence h) fenceMark_ne []
  rw [List.append_nil] at hskip
  exact hskip

theorem trimUnits_split (text : List ℕ) : ∃ front back, text = front ++ trimUnits text ++ back ∧
    (∀ unit ∈ front, isSpaceUnit unit = true) ∧ ∀ unit ∈ back, isSpaceUnit unit = true := by
  have hinner := List.takeWhile_append_dropWhile (p := isSpaceUnit) (l := (text.dropWhile isSpaceUnit).reverse)
  have houter := List.takeWhile_append_dropWhile (p := isSpaceUnit) (l := text)
  have hreverse := congrArg List.reverse hinner
  rw [List.reverse_append, List.reverse_reverse] at hreverse
  refine ⟨text.takeWhile isSpaceUnit, ((text.dropWhile isSpaceUnit).reverse.takeWhile isSpaceUnit).reverse, ?_, ?_, ?_⟩
  · rw [List.append_assoc, trimUnits, hreverse, houter]
  · exact fun unit hunit => List.mem_takeWhile_imp hunit
  · exact fun unit hunit => List.mem_takeWhile_imp (List.mem_reverse.mp hunit)

theorem quote_not_mem_spaces {spaces : List ℕ} (h : ∀ unit ∈ spaces, isSpaceUnit unit = true) : 34 ∉ spaces := by
  intro hmem
  cases h 34 hmem

theorem parse_plain_first {unit : ℕ} (hplain : isPlain unit = true) (text : List ℕ) : parse (unit :: text) = none := by
  cases h : parse (unit :: text) with
  | none => rfl
  | some value =>
    obtain ⟨tree, htree, -⟩ := Option.map_eq_some_iff.mp h
    obtain ⟨next, hmove, -⟩ := exists_move (after_of_read htree)
    cases (move_plain hplain hmove).1

namespace Answer
variable (a : Answer)

/-- For an array, the part from the first brace to the last is not JSON. -/
def BracesClear (candidate : List ℕ) : Prop :=
  a.value.bounds = some (123, 125) ∨ (between 123 125 candidate).bind parse = none

/-- Nothing that is tried before the text of the value is JSON. -/
def Clear : Prop :=
  if a.fenced then cutAt id fenceMark a.written = none ∨ a.BracesClear a.candidate
  else (∀ unit ∈ a.shown ++ a.behind, isBlank unit = true) ∨
    parse a.candidate = none ∧ (fencePart a.candidate).bind parse = none ∧ a.BracesClear a.candidate

/-- The same of the response as it came, where a fence of the thinking may hold the value too. -/
def ClearBehind (inside : List ℕ) : Prop :=
  (fencePart a.text).bind parse = some a.value ∨
    (fencePart a.text).bind parse = none ∧ (∀ bounds ∈ a.value.bounds, bounds.1 ∉ inside) ∧ a.BracesClear a.text

/-- If a think block is taken out of the text of the value, what is left has no part that is JSON. -/
def Kept : Prop :=
  a.Intact ∧ a.Clear ∨
    ¬ a.Intact ∧ attempt (stripThinkBlocks a.text) = none ∧
      (match a.thinking with | none => a.Clear | some inside => a.ClearBehind inside)

variable {a}

/-! ## The parts of a text around the value -/

/-- The part by the brackets of the value is its text. -/
theorem between_own (hfront : first ∉ front) (hback : last ∉ back) (hwritten : a.written = first :: (inner ++ [last])) :
    (between first last (front ++ a.written ++ back)).bind parse = some a.value := by
  rw [hwritten, between_append hfront hback, Option.bind_some, ← hwritten, parse_written]

theorem attempt_around (a : Answer) (hfront : Bare front) (hback : Bare back) :
    attempt (front ++ a.written ++ back) = some a.value ↔
      parse (front ++ a.written ++ back) = some a.value ∨ parse (front ++ a.written ++ back) = none ∧
        ((fencePart (front ++ a.written ++ back)).bind parse = some a.value ∨
          (fencePart (front ++ a.written ++ back)).bind parse = none ∧ a.BracesClear (front ++ a.written ++ back)) := by
  obtain ⟨first, last, inner, hbounds, hwritten⟩ := a.exists_bounds
  obtain ⟨hfirst, hlast⟩ := isBracket_bounds hbounds
  have hown := between_own (hfront.not_mem hfirst) (hback.not_mem hlast) hwritten
  have hobject : first = 123 ↔ a.value.bounds = some (123, 125) := first_eq_iff hbounds
  rw [attempt_iff hbounds, hobject, BracesClear]
  simp only [hown, true_and]

/-- With the prose around it the value is read only where the prose is blank. -/
theorem parse_plain (a : Answer) (hfront : Bare front) (hback : Bare back) :
    parse (front ++ a.written ++ back) = some a.value ↔ ∀ unit ∈ front ++ back, isBlank unit = true := by
  constructor
  · intro h
    obtain ⟨first, last, inner, hbounds, hwritten⟩ := a.exists_bounds
    obtain ⟨hfirst, hlast⟩ := isBracket_bounds hbounds
    obtain ⟨tree, htree, hvalue⟩ := Option.map_eq_some_iff.mp h
    rw [← hvalue, bounds_value] at hbounds
    obtain ⟨blanks, inner', blanks', hsplit, hblanks, hblanks'⟩ := text_of_bounds (tokens_of_read htree) hbounds
    have hstart : front ++ (a.written ++ back) = blanks ++ first :: (inner' ++ [last] ++ blanks') := by
      rw [← List.append_assoc, hsplit, List.append_assoc]
      rfl
    have hend : back.reverse ++ (front ++ a.written).reverse =
        blanks'.reverse ++ last :: (blanks ++ first :: inner').reverse := by
      rw [← List.reverse_append, hsplit]
      simp
    have hfront' := prefix_of_first (hfront.not_mem hfirst) hstart
    have hback' := prefix_of_first (fun hmem => hback.not_mem hlast (List.mem_reverse.mp hmem)) hend
    intro unit hunit
    rcases List.mem_append.mp hunit with hunit | hunit
    · exact hblanks unit (hfront'.subset hunit)
    · exact hblanks' unit (List.mem_reverse.mp (hback'.subset (List.mem_reverse.mpr hunit)))
  · intro h
    rw [List.forall_mem_append] at h
    rw [parse_blanks h.1 h.2, parse_written]

/-- A fence in the text of the value is in a string, so what it holds is not the value. -/
theorem fencePart_plain (a : Answer) (hfront : Prose front) (hback : Prose back) :
    (fencePart (front ++ a.written ++ back)).bind parse ≠ some a.value := by
  intro h
  obtain ⟨part, hpart, hparse⟩ := Option.bind_eq_some_iff.mp h
  obtain ⟨first, last, inner, hbounds, hwritten⟩ := a.exists_bounds
  obtain ⟨hfirst, hlast⟩ := isBracket_bounds hbounds
  have haround : cutAt id fenceMark (front ++ first :: (inner ++ [last]) ++ back) = _ := cutAt_around
    (cutAt_prose hfront) (cutAt_prose hback) (not_mem_tags hfirst).2.2 (not_mem_tags hlast).2.2 fenceMark_ne
  rw [← hwritten] at haround
  cases hcut : cutAt id fenceMark a.written with
  | none =>
    rw [hcut] at haround
    rw [fencePart, haround] at hpart
    cases hpart
  | some cut =>
    rw [hcut] at haround
    have hinfix := infix_fencePart haround hpart
    obtain ⟨fence, hsplit, hfence⟩ := exists_of_cutAt hcut
    rw [List.map_id] at hfence
    have hread := after_of_tokens a.writes
    have hmark : fenceMark = 96 :: ([96] ++ [96]) := rfl
    have hplain : isPlain 96 = true := rfl
    rw [hfence, hmark] at hsplit
    rw [hsplit] at hread
    obtain ⟨-, hinside, hcount⟩ := plain_part hplain hplain hread
    have hempty : Bare [] := fun unit hunit => absurd hunit List.not_mem_nil
    refine parse_ne_of_fewer hplain hinside ?_ hempty (bare_prose hback) hinfix hparse
    rw [hsplit]
    omega

theorem parse_fenced (a : Answer) (front back : List ℕ) : parse (front ++ lead true ++ a.written ++ back) = none := by
  cases h : parse (front ++ lead true ++ a.written ++ back) with
  | none => rfl
  | some value =>
    obtain ⟨tree, htree, -⟩ := Option.map_eq_some_iff.mp h
    have hread := after_of_read htree
    rw [List.append_assoc, List.append_assoc] at hread
    obtain ⟨between, -, hlead⟩ := exists_after hread
    obtain ⟨next, hmove, -⟩ := exists_move hlead
    have hplain : isPlain 96 = true := rfl
    obtain ⟨rfl, -⟩ := move_plain hplain hmove
    cases hlead

theorem trimUnits_written (a : Answer) : trimUnits (a.written ++ [10]) = a.written := by
  obtain ⟨first, last, inner, hbounds, hwritten⟩ := a.exists_bounds
  obtain ⟨hfirst, hlast⟩ := isBracket_bounds hbounds
  have hspace := (isTagless_bracket hfirst).2
  have hspace' := (isTagless_bracket hlast).2
  have hnewline : isSpaceUnit 10 = true := rfl
  rw [trimUnits, hwritten]
  simp [hspace, hspace', hnewline]

/-- What stands before a fence in a string ends in that string. -/
theorem parse_before_fence (a : Answer) {cut : List ℕ × List ℕ} (h : cutAt id fenceMark a.written = some cut) :
    parse (trimUnits cut.1) = none := by
  obtain ⟨fence, hsplit, hfence⟩ := exists_of_cutAt h
  have hread := after_of_tokens a.writes
  have hmark : fenceMark = 96 :: ([96] ++ [96]) := rfl
  have hplain : isPlain 96 = true := rfl
  rw [List.map_id] at hfence
  rw [hsplit, hfence, hmark] at hread
  obtain ⟨hbefore, -, -⟩ := plain_part hplain hplain hread
  obtain ⟨front, back, htrim, hfront, hback⟩ := trimUnits_split cut.1
  rw [htrim] at hbefore
  obtain ⟨last, hmiddle, hlast⟩ := exists_after hbefore
  obtain ⟨first, hfirst, hpart⟩ := exists_after hmiddle
  cases hparse : parse (trimUnits cut.1) with
  | none => rfl
  | some value =>
    obtain ⟨tree, htree, -⟩ := Option.map_eq_some_iff.mp hparse
    obtain rfl := (outside_iff (quote_not_mem_spaces hfront) hfirst).mpr rfl
    rw [after_of_read htree] at hpart
    obtain rfl := Option.some.inj hpart
    cases (outside_iff (quote_not_mem_spaces hback) hlast).mpr rfl

theorem fencePart_fenced (a : Answer) (hfront : Prose front) (back : List ℕ) :
    (fencePart (front ++ lead true ++ a.written ++ (trail true ++ back))).bind parse =
      if cutAt id fenceMark a.written = none then some a.value else none := by
  obtain ⟨first, last, inner, hbounds, hwritten⟩ := a.exists_bounds
  obtain ⟨hfirst, hlast⟩ := isBracket_bounds hbounds
  have hopening : cutAt id fenceMark (front ++ lead true ++ a.written ++ (trail true ++ back)) =
      some (front ++ [], jsonLabel ++ 10 :: (a.written ++ 10 :: (fenceMark ++ back))) := by
    have hskip := cutAt_skip (not_mem_fence hfront) fenceMark_ne
      (fenceMark ++ (jsonLabel ++ 10 :: (a.written ++ 10 :: (fenceMark ++ back))))
    rw [cutAt_of_starts fenceMark_ne (List.map_id _), Option.map_some] at hskip
    rw [← hskip]
    simp only [lead, trail, if_true, List.append_assoc, List.cons_append, List.nil_append]
  have hlabel : dropLabel (jsonLabel ++ 10 :: (a.written ++ 10 :: (fenceMark ++ back))) =
      a.written ++ 10 :: (fenceMark ++ back) := by
    have hspace := (isTagless_bracket hfirst).2
    rw [hwritten]
    exact dropWhile_append_cons hspace [10] _
  have hspaces := trimUnits_written a
  rw [fencePart, hopening, Option.bind_some, hlabel]
  cases hcut : cutAt id fenceMark a.written with
  | none =>
    have hitem : id 10 ∉ fenceMark := by decide
    rw [cutAt_separated hcut hitem fenceMark_ne, cutAt_of_starts fenceMark_ne (List.map_id _), if_pos rfl,
      Option.map_some, Option.map_some, Option.bind_some, hspaces, parse_written]
  | some cut =>
    rw [cutAt_append_of_some hcut, if_neg (Option.some_ne_none _), Option.map_some, Option.bind_some]
    have hnone := a.parse_before_fence hcut
    exact hnone

/-! ## Without the thinking -/

theorem attempt_candidate (a : Answer) : attempt a.candidate = some a.value ↔ a.Clear := by
  have haround := attempt_around a a.bare_front a.bare_back
  rw [← candidate] at haround
  rw [haround, Clear]
  cases hfenced : a.fenced with
  | false =>
    have hcandidate : a.candidate = a.shown ++ a.written ++ a.behind := by
      rw [candidate, hfenced]
      simp [lead, trail]
    have hfence := a.fencePart_plain a.prose_shown a.behind_prose
    have hplain := a.parse_plain (bare_prose a.prose_shown) (bare_prose a.behind_prose)
    rw [← hcandidate] at hfence hplain
    rw [if_neg Bool.false_ne_true, hplain]
    simp only [hfence, false_or]
  | true =>
    have hcandidate : a.candidate = a.shown ++ lead true ++ a.written ++ (trail true ++ a.behind) := by
      rw [candidate, hfenced]
    have hwhole := a.parse_fenced a.shown (trail true ++ a.behind)
    have hfence := a.fencePart_fenced a.prose_shown a.behind
    rw [← hcandidate] at hwhole hfence
    rw [if_pos rfl, hwhole, hfence]
    by_cases hnone : cutAt id fenceMark a.written = none
    · simp [hnone]
    · simp [hnone]

theorem attempt_candidate_ne (a : Answer) : attempt a.candidate ≠ none := by
  obtain ⟨first, last, inner, hbounds, hwritten⟩ := a.exists_bounds
  obtain ⟨hfirst, hlast⟩ := isBracket_bounds hbounds
  have hown := between_own (a.bare_front.not_mem hfirst) (a.bare_back.not_mem hlast) hwritten
  rw [← candidate] at hown
  intro h
  rw [attempt, Option.or_eq_none_iff, Option.or_eq_none_iff, Option.or_eq_none_iff] at h
  obtain ⟨-, -, hbraces, hbrackets⟩ := h
  rcases bounds_cases hbounds with ⟨rfl, rfl⟩ | ⟨rfl, rfl⟩
  · rw [hbrackets] at hown
    cases hown
  · rw [hbraces] at hown
    cases hown

/-! ## Behind the thinking -/

/-- A text that goes on to the value from an open bracket is not read as the value. -/
theorem parse_ne_of_open (hbounds : a.value.bounds = some (first, last)) (front : List ℕ) :
    parse (first :: front ++ a.written) ≠ some a.value := by
  intro h
  obtain ⟨first', last', inner, hbounds', hwritten⟩ := a.exists_bounds
  obtain ⟨rfl, rfl⟩ := Prod.mk.inj (Option.some.inj (hbounds'.symm.trans hbounds))
  obtain ⟨tree, htree, hvalue⟩ := Option.map_eq_some_iff.mp h
  have hmark := isMark_first hbounds
  have htokens := tokens_of_read htree
  obtain ⟨between, hfront, hback⟩ := exists_after (after_of_read htree)
  have hread := after_of_tokens a.writes
  have hwrites := a.writes
  rw [hwritten] at hback hread hwrites htokens
  rcases state_of_first (Or.inr hmark) hback with rfl | rfl
  · obtain ⟨read, hscan⟩ := Option.isSome_iff_exists.mp ((isSome_scan _ _).mpr hfront)
    have hopen : tokens (first' :: front) = some (flush read) := by rw [tokens, hscan, Option.map_some]
    rw [tokens_append_mark hmark hopen hwrites] at htokens
    rw [← hvalue, bounds_value] at hbounds
    refine not_ends_with hbounds ?_ (Option.some.inj htokens).symm
    rw [tokens_mark hmark] at hopen
    obtain ⟨rest, -, hrest⟩ := Option.map_eq_some_iff.mp hopen
    rw [← hrest]
    exact List.cons_ne_nil _ _
  · rcases (Flipped.run (Or.inl ⟨rfl, rfl⟩) hread hback).1 with ⟨-, hlast⟩ | ⟨hlast, -⟩
    · cases hlast
    · cases hlast

/-- From the thinking on, the brackets of the value reach to its end, and hold more than its text. -/
theorem between_text (h : a.thinking = some inside) (hbounds : a.value.bounds = some (first, last)) :
    (between first last a.text).bind parse = some a.value ↔ first ∉ inside := by
  obtain ⟨first', last', inner, hbounds', hwritten⟩ := a.exists_bounds
  obtain ⟨rfl, rfl⟩ := Prod.mk.inj (Option.some.inj (hbounds'.symm.trans hbounds))
  obtain ⟨hfirst, hlast⟩ := isBracket_bounds hbounds
  have hback := a.bare_back.not_mem hlast
  have hbefore : first' ∉ a.before ++ lead a.fenced :=
    ((bare_prose a.before_prose).append (bare_lead a.fenced)).not_mem hfirst
  have hopen : first' ∉ thinkOpen := (not_mem_tags hfirst).1
  constructor
  · intro hbetween hmem
    obtain ⟨front, rest, rfl, hfront⟩ := List.eq_append_cons_of_mem hmem
    have htext : a.text = (thinkOpen ++ front) ++
        (first' :: ((rest ++ thinkClose ++ (a.before ++ lead a.fenced) ++ first' :: inner) ++ [last'])) ++
          (trail a.fenced ++ a.behind) := by
      rw [text, h, block, hwritten]
      simp only [List.append_assoc, List.cons_append, List.nil_append]
    have hstart : first' ∉ thinkOpen ++ front := by
      rw [List.mem_append, not_or]
      exact ⟨hopen, hfront⟩
    have hpart : first' :: ((rest ++ thinkClose ++ (a.before ++ lead a.fenced) ++ first' :: inner) ++ [last']) =
        first' :: (rest ++ thinkClose ++ (a.before ++ lead a.fenced)) ++ a.written := by
      rw [hwritten]
      simp only [List.append_assoc, List.cons_append]
    rw [htext, between_append hstart hback, Option.bind_some, hpart] at hbetween
    exact parse_ne_of_open hbounds _ hbetween
  · intro hinside
    have hclose : first' ∉ thinkClose := by
      rcases bounds_cases hbounds with ⟨rfl, -⟩ | ⟨rfl, -⟩
      · decide
      · decide
    have htext : a.text = (block a.thinking ++ (a.before ++ lead a.fenced)) ++ a.written ++
        (trail a.fenced ++ a.behind) := by
      rw [text]
      simp only [List.append_assoc]
    have hstart : first' ∉ block a.thinking ++ (a.before ++ lead a.fenced) := by
      rw [h, block, List.mem_append, List.mem_append, List.mem_append, not_or, not_or, not_or]
      exact ⟨⟨hopen, hinside, hclose⟩, hbefore⟩
    rw [htext]
    exact between_own hstart hback hwritten

theorem attempt_text (h : a.thinking = some inside) :
    attempt a.text = some a.value ↔ a.ClearBehind inside := by
  obtain ⟨first, last, inner, hbounds, hwritten⟩ := a.exists_bounds
  have hwhole : parse a.text = none := by
    have hplain : isPlain 60 = true := rfl
    rw [text, h, block]
    exact parse_plain_first hplain _
  have hobject : first = 123 ↔ a.value.bounds = some (123, 125) := first_eq_iff hbounds
  have hbrackets : (∀ bounds ∈ a.value.bounds, bounds.1 ∉ inside) ↔ first ∉ inside := by
    rw [hbounds]
    exact ⟨fun hall => hall _ rfl, fun hnone bounds hmem => Option.some.inj hmem ▸ hnone⟩
  rw [attempt_iff hbounds, hwhole, between_text h hbounds, hobject, ClearBehind, hbrackets, BracesClear]
  simp

/-! ## The response -/

theorem text_ne_nil (a : Answer) : a.text ≠ [] ∧ a.candidate ≠ [] := by
  obtain ⟨first, last, inner, -, hwritten⟩ := a.exists_bounds
  rw [text, candidate, hwritten]
  simp

theorem kept_iff (h : ¬ a.Intact) :
    a.Kept ↔ attempt (stripThinkBlocks a.text) = none ∧ attempt a.text = some a.value := by
  have hsecond : attempt a.text = some a.value ↔
      match a.thinking with | none => a.Clear | some inside => a.ClearBehind inside := by
    cases hthinking : a.thinking with
    | none =>
      rw [text_eq_candidate hthinking]
      exact a.attempt_candidate
    | some inside => exact attempt_text hthinking
  rw [Kept, hsecond]
  simp only [h, false_and, false_or, not_false_eq_true, true_and]

/-- A response is read as its value exactly in these cases. -/
theorem parseJsonResponse_iff (a : Answer) : parseJsonResponse a.text = .ok a.value ↔ a.Kept := by
  have hresponse : parseJsonResponse a.text = .ok a.value ↔ (candidates a.text).findSome? attempt = some a.value := by
    rw [parseJsonResponse, if_neg a.text_ne_nil.1]
    split
    · next value hvalue => simp [hvalue]
    · next hnone => simp [hnone]
  rw [hresponse, candidates]
  by_cases hintact : a.Intact
  · have hkept : a.Kept ↔ attempt a.candidate = some a.value := by
      rw [attempt_candidate, Kept]
      simp only [hintact, true_and, not_true_eq_false, false_and, or_false]
    obtain ⟨found, hfound⟩ := Option.ne_none_iff_exists'.mp a.attempt_candidate_ne
    rw [hkept, stripThinkBlocks_intact hintact]
    by_cases hsame : a.candidate = a.text
    · simp [hsame, hsame ▸ hfound]
    · simp [hsame, a.text_ne_nil.2, hfound]
  · obtain ⟨hchanged, hfilled, hattempt⟩ := attempt_stripped hintact
    rw [kept_iff hintact]
    simp only [if_pos (And.intro hchanged hfilled)]
    cases hfound : attempt (stripThinkBlocks a.text) with
    | none => simp [hfound]
    | some value =>
      rw [hfound] at hattempt
      simp [hfound, hattempt]

/-- `x [{"a":1}] y`. -/
def listed : Answer where
  value := .array [.object [([97], .scalar [49])]]
  written := [91, 123, 34, 97, 34, 58, 49, 125, 93]
  before := [120, 32]
  behind := [32, 121]
  thinking := none
  fenced := false
  sound := ⟨⟨rfl, trivial⟩, trivial⟩
  settled := rfl
  collection := rfl
  writes := rfl
  tight := by decide
  before_prose := ⟨by decide, rfl, rfl⟩
  behind_prose := ⟨by decide, rfl, rfl⟩
  closed inside h := by cases h

/-- The object alone is returned for the array around it. -/
theorem parseJsonResponse_listed :
    parseJsonResponse listed.text = .ok (.object [([97], .scalar [49])]) ∧
      ¬ ∀ a : Answer, parseJsonResponse a.text = .ok a.value := by
  have hstripped : stripThinkBlocks listed.text = listed.text := by
    have hopen : cutAt lower thinkOpen listed.text = none := rfl
    have hclose : cutAt lower thinkClose listed.text = none := rfl
    rw [stripThinkBlocks]
    simp only [removeBlocks_of_open hopen, if_true, hclose]
  have hread : parseJsonResponse listed.text = .ok (.object [([97], .scalar [49])]) := by
    have hattempt : attempt listed.text = some (.object [([97], .scalar [49])]) := rfl
    rw [parseJsonResponse, if_neg listed.text_ne_nil.1, candidates, hstripped]
    simp [hattempt]
  refine ⟨hread, fun hall => ?_⟩
  have hvalue := hread.symm.trans (hall listed)
  cases hvalue

/-- `x {"a":1} y`. -/
def single : Answer where
  value := .object [([97], .scalar [49])]
  written := [123, 34, 97, 34, 58, 49, 125]
  before := [120, 32]
  behind := [32, 121]
  thinking := none
  fenced := false
  sound := ⟨rfl, trivial⟩
  settled := rfl
  collection := rfl
  writes := rfl
  tight := by decide
  before_prose := ⟨by decide, rfl, rfl⟩
  behind_prose := ⟨by decide, rfl, rfl⟩
  closed inside h := by cases h

theorem parseJsonResponse_single : parseJsonResponse single.text = .ok single.value := by
  have hopen : cutAt lower thinkOpen single.written = none := rfl
  have hintact : single.Intact := ⟨removeBlocks_of_open hopen, Or.inr (Or.inl rfl)⟩
  have hclear : single.Clear := Or.inr ⟨rfl, rfl, Or.inl rfl⟩
  exact (parseJsonResponse_iff single).mpr (Or.inl ⟨hintact, hclear⟩)

end Answer

end FragmentMemory.EmbeddedJson
