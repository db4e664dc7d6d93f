import FragmentMemory.CodeUnits
import FragmentMemory.FirstMatch
import FragmentMemory.JsonValues

/-! # JSON in the response of a language model

The think blocks are taken out of a response, and four parts of what is left are tried as JSON: the whole, the first
code fence, the part from the first brace to the last, and the part from the first bracket to the last.  The response
as it came is tried after that.
-/
namespace FragmentMemory.ParseJson
open CodeUnits FirstMatch JsonText

/-- Letters are compared without case. -/
def lower (unit : ℕ) : ℕ := if 65 ≤ unit && unit ≤ 90 then unit + 32 else unit

/-- `<think>`. -/
def thinkOpen : List ℕ := [60, 116, 104, 105, 110, 107, 62]

/-- `</think>`. -/
def thinkClose : List ℕ := [60, 47, 116, 104, 105, 110, 107, 62]

def fenceMark : List ℕ := [96, 96, 96]

def jsonLabel : List ℕ := [106, 115, 111, 110]

theorem length_behind {text before inner thinking behind : List ℕ}
    (hopen : cutAt lower thinkOpen text = some (before, inner))
    (hclose : cutAt lower thinkClose inner = some (thinking, behind)) :
    (behind.dropWhile isSpaceUnit).length < text.length := by
  obtain ⟨opening, rfl, hopening⟩ := exists_of_cutAt hopen
  obtain ⟨closing, rfl, -⟩ := exists_of_cutAt hclose
  have hlength : opening.length = 7 := by rw [← List.length_map lower, hopening]; rfl
  have hdrop := (List.dropWhile_sublist isSpaceUnit (l := behind)).length_le
  simp only [List.length_append]
  omega

/-- `text.replace(/<think>[\s\S]*?<\/think>\s*/gi, "")`. -/
def removeBlocks (text : List ℕ) : List ℕ :=
  match hopen : cutAt lower thinkOpen text with
  | none => text
  | some (before, inner) =>
    match hclose : cutAt lower thinkClose inner with
    | none => text
    | some (_, behind) =>
      have := length_behind hopen hclose
      before ++ removeBlocks (behind.dropWhile isSpaceUnit)
termination_by text.length

def stripThinkBlocks (text : List ℕ) : List ℕ :=
  let cleaned := removeBlocks text
  if cleaned = text then
    match cutAt lower thinkClose text with
    | some (_, rest) => if cutAt id thinkOpen text = none then rest.dropWhile isSpaceUnit else cleaned
    | none => cleaned
  else cleaned

/-- `(?:json)?\s*`. -/
def dropLabel (text : List ℕ) : List ℕ :=
  (if jsonLabel.isPrefixOf text then text.drop jsonLabel.length else text).dropWhile isSpaceUnit

/-- The trimmed inside of the first code fence. -/
def fencePart (candidate : List ℕ) : Option (List ℕ) :=
  (cutAt id fenceMark candidate).bind fun cut =>
    (cutAt id fenceMark (dropLabel cut.2)).map fun inside => trimUnits inside.1

/-- The first of the four parts that is JSON. -/
def attempt (candidate : List ℕ) : Option Json :=
  (parse candidate).or <| ((fencePart candidate).bind parse).or <|
    ((between 123 125 candidate).bind parse).or ((between 91 93 candidate).bind parse)

def candidates (text : List ℕ) : List (List ℕ) :=
  let stripped := stripThinkBlocks text
  if stripped ≠ text ∧ stripped ≠ [] then [stripped, text] else [text]

def parseJsonResponse (text : List ℕ) : Except (List ℕ) Json :=
  if text = [] then .error (codeUnits "empty LLM response".toList)
  else
    match (candidates text).findSome? attempt with
    | some value => .ok value
    | none => .error (codeUnits "failed to parse JSON from LLM response: ".toList ++ text.take 200)

/-! ## Think blocks -/

variable {text front back inner : List ℕ} {item : ℕ}

theorem removeBlocks_of_open (h : cutAt lower thinkOpen text = none) : removeBlocks text = text := by
  rw [removeBlocks]
  split
  · rfl
  · next before inner hopen =>
    rw [h] at hopen
    cases hopen

theorem removeBlocks_of_close {before : List ℕ} (h : cutAt lower thinkOpen text = some (before, inner))
    (hclose : cutAt lower thinkClose inner = none) : removeBlocks text = text := by
  rw [removeBlocks]
  split
  · rfl
  · next before' inner' hopen =>
    rw [h] at hopen
    cases hopen
    split
    · rfl
    · next thinking behind hfound =>
      rw [hclose] at hfound
      cases hfound

theorem removeBlocks_of_block {before thinking behind : List ℕ} (h : cutAt lower thinkOpen text = some (before, inner))
    (hclose : cutAt lower thinkClose inner = some (thinking, behind)) :
    removeBlocks text = before ++ removeBlocks (behind.dropWhile isSpaceUnit) := by
  rw [removeBlocks]
  split
  · next hopen =>
    rw [h] at hopen
    cases hopen
  · next before' inner' hopen =>
    rw [h] at hopen
    cases hopen
    split
    · next hfound =>
      rw [hclose] at hfound
      cases hfound
    · next thinking' behind' hfound =>
      rw [hclose] at hfound
      cases hfound
      rfl

/-- Along the blocks that are taken out. -/
theorem block_induction {P : List ℕ → Prop} (hopen : ∀ text, cutAt lower thinkOpen text = none → P text)
    (hclose : ∀ text before inner, cutAt lower thinkOpen text = some (before, inner) →
      cutAt lower thinkClose inner = none → P text)
    (hblock : ∀ text before inner thinking behind, cutAt lower thinkOpen text = some (before, inner) →
      cutAt lower thinkClose inner = some (thinking, behind) → P (behind.dropWhile isSpaceUnit) → P text)
    (text : List ℕ) : P text := by
  induction text using removeBlocks.induct with
  | case1 text h => exact hopen text h
  | case2 text before inner h h' => exact hclose text before inner h h'
  | case3 text before inner h thinking behind h' _ ih => exact hblock text before inner thinking behind h h' ih

/-- A unit of no tag. -/
def isTagless (unit : ℕ) : Bool := !thinkOpen.contains (lower unit) && !thinkClose.contains (lower unit)

theorem cutAt_open (h : cutAt lower thinkOpen front = none) (hitem : isTagless item = true) (back : List ℕ) :
    cutAt lower thinkOpen (front ++ item :: back) =
      (cutAt lower thinkOpen back).map fun cut => (front ++ item :: cut.1, cut.2) := by
  apply cutAt_separated h
  · simp only [isTagless, Bool.and_eq_true, Bool.not_eq_true', List.contains_eq_mem, decide_eq_false_iff_not] at hitem
    exact hitem.1
  · exact List.cons_ne_nil _ _

theorem cutAt_close (h : cutAt lower thinkClose front = none) (hitem : isTagless item = true) (back : List ℕ) :
    cutAt lower thinkClose (front ++ item :: back) =
      (cutAt lower thinkClose back).map fun cut => (front ++ item :: cut.1, cut.2) := by
  apply cutAt_separated h
  · simp only [isTagless, Bool.and_eq_true, Bool.not_eq_true', List.contains_eq_mem, decide_eq_false_iff_not] at hitem
    exact hitem.2
  · exact List.cons_ne_nil _ _

theorem removeBlocks_front (h : cutAt lower thinkOpen front = none) (hitem : isTagless item = true) (back : List ℕ) :
    removeBlocks (front ++ item :: back) = front ++ item :: removeBlocks back := by
  have hcut := cutAt_open h hitem back
  cases hopen : cutAt lower thinkOpen back with
  | none =>
    rw [hopen] at hcut
    rw [removeBlocks_of_open hcut, removeBlocks_of_open hopen]
  | some cut =>
    rw [hopen] at hcut
    cases hclose : cutAt lower thinkClose cut.2 with
    | none => rw [removeBlocks_of_close hcut hclose, removeBlocks_of_close hopen hclose]
    | some pair =>
      rw [removeBlocks_of_block hcut hclose, removeBlocks_of_block hopen hclose, List.append_assoc, List.cons_append]

theorem dropWhile_append_cons {p : ℕ → Bool} (hitem : p item = false) (front back : List ℕ) :
    (front ++ item :: back).dropWhile p = front.dropWhile p ++ item :: back := by
  induction front with
  | nil => simp [hitem]
  | cons first front ih =>
    rw [List.cons_append, List.dropWhile_cons, List.dropWhile_cons]
    split
    · exact ih
    · rfl

/-- A text without tags, kept apart from the blocks before it, stays as it is. -/
theorem removeBlocks_back (hitem : isTagless item = true) (hspace : isSpaceUnit item = false)
    (hopen : cutAt lower thinkOpen back = none) (hclose : cutAt lower thinkClose back = none) (text : List ℕ) :
    removeBlocks (text ++ item :: back) = removeBlocks text ++ item :: back := by
  induction text using block_induction with
  | hopen text h =>
    have hcut := cutAt_open h hitem back
    rw [hopen] at hcut
    rw [removeBlocks_of_open hcut, removeBlocks_of_open h]
  | hclose text before inner h h' =>
    have hcut := cutAt_close h' hitem back
    rw [hclose] at hcut
    rw [removeBlocks_of_close (cutAt_append_of_some h _) hcut, removeBlocks_of_close h h']
  | hblock text before inner thinking behind h h' ih =>
    rw [removeBlocks_of_block (cutAt_append_of_some h _) (cutAt_append_of_some h' _), dropWhile_append_cons hspace, ih,
      removeBlocks_of_block h h', List.append_assoc]

theorem removeBlocks_block {thinking : List ℕ} (h : cutAt lower thinkClose thinking = none) (text : List ℕ) :
    removeBlocks (thinkOpen ++ (thinking ++ (thinkClose ++ text))) = removeBlocks (text.dropWhile isSpaceUnit) := by
  have hopen : cutAt lower thinkOpen (thinkOpen ++ (thinking ++ (thinkClose ++ text))) =
      some ([], thinking ++ (thinkClose ++ text)) := cutAt_of_starts (List.cons_ne_nil _ _) (by decide) _
  have hstarts : cutAt lower thinkClose (thinkClose ++ text) = some ([], text) :=
    cutAt_of_starts (List.cons_ne_nil _ _) (by decide) _
  have hclose : cutAt lower thinkClose (thinking ++ (thinkClose ++ text)) = some (thinking ++ [], text) := by
    have htail : lower 60 ∉ thinkClose.tail := by decide
    have hcut := cutAt_append_of_none h htail (thinkClose.tail ++ text)
    have hjoin : 60 :: (thinkClose.tail ++ text) = thinkClose ++ text := rfl
    rw [hjoin, hstarts, Option.map_some] at hcut
    exact hcut
  rw [removeBlocks_of_block hopen hclose, List.nil_append]

theorem length_removeBlocks (text : List ℕ) : (removeBlocks text).length ≤ text.length := by
  induction text using block_induction with
  | hopen text h => rw [removeBlocks_of_open h]
  | hclose text before inner h h' => rw [removeBlocks_of_close h h']
  | hblock text before inner thinking behind h h' ih =>
    obtain ⟨matched, rfl, -⟩ := exists_of_cutAt h
    obtain ⟨matched', rfl, -⟩ := exists_of_cutAt h'
    have hdrop := (List.dropWhile_sublist isSpaceUnit (l := behind)).length_le
    rw [removeBlocks_of_block h h']
    simp only [List.length_append]
    omega

/-! ## The parts of a candidate -/

variable {candidate part : List ℕ} {value : Json} {first last : ℕ}

theorem infix_dropWhile (p : ℕ → Bool) (text : List ℕ) : text.dropWhile p <:+: text :=
  (List.dropWhile_suffix p).isInfix

theorem infix_trimUnits (text : List ℕ) : trimUnits text <:+: text := by
  have hinner := infix_dropWhile isSpaceUnit (text.dropWhile isSpaceUnit).reverse
  rw [← List.reverse_infix, List.reverse_reverse] at hinner
  exact hinner.trans (infix_dropWhile _ _)

theorem infix_dropLabel (text : List ℕ) : dropLabel text <:+: text := by
  refine (infix_dropWhile _ _).trans ?_
  split
  · exact (List.drop_suffix _ _).isInfix
  · exact List.infix_rfl

theorem infix_fencePart {before behind : List ℕ} (hcut : cutAt id fenceMark candidate = some (before, behind))
    (h : fencePart candidate = some part) : part <:+: behind := by
  rw [fencePart, hcut, Option.bind_some] at h
  obtain ⟨inside, hinside, rfl⟩ := Option.map_eq_some_iff.mp h
  obtain ⟨matched, hsplit, -⟩ := exists_of_cutAt hinside
  have hstart : inside.1 <:+: dropLabel behind := by
    rw [hsplit, List.append_assoc]
    exact (List.prefix_append _ _).isInfix
  exact (infix_trimUnits _).trans (hstart.trans (infix_dropLabel _))

theorem infix_between {opening closing : ℕ} (h : between opening closing candidate = some part) : part <:+: candidate := by
  obtain ⟨before, inner, behind, rfl, rfl⟩ := exists_of_between h
  exact ⟨before, behind, rfl⟩

theorem attempt_infix (h : attempt candidate = some value) : ∃ part, part <:+: candidate ∧ parse part = some value := by
  rw [attempt, Option.or_eq_some_iff, Option.or_eq_some_iff, Option.or_eq_some_iff] at h
  rcases h with h | ⟨-, h | ⟨-, h | ⟨-, h⟩⟩⟩
  · exact ⟨candidate, List.infix_rfl, h⟩
  · obtain ⟨part, hpart, hparse⟩ := Option.bind_eq_some_iff.mp h
    obtain ⟨cut, hcut, -⟩ := Option.bind_eq_some_iff.mp hpart
    obtain ⟨matched, hsplit, -⟩ := exists_of_cutAt hcut
    refine ⟨part, (infix_fencePart hcut hpart).trans ?_, hparse⟩
    rw [hsplit]
    exact (List.suffix_append _ _).isInfix
  · obtain ⟨part, hpart, hparse⟩ := Option.bind_eq_some_iff.mp h
    exact ⟨part, infix_between hpart, hparse⟩
  · obtain ⟨part, hpart, hparse⟩ := Option.bind_eq_some_iff.mp h
    exact ⟨part, infix_between hpart, hparse⟩

/-- A text from a bracket on is an array or an object by that bracket. -/
theorem bounds_of_first {rest : List ℕ} (hfirst : first = 91 ∨ first = 123) (h : parse (first :: rest) = some value) :
    ∃ last, value.bounds = some (first, last) := by
  obtain ⟨tree, hread, rfl⟩ := Option.map_eq_some_iff.mp h
  have htokens := tokens_of_read hread
  have hmark : isMark first = true := by rcases hfirst with rfl | rfl <;> rfl
  rw [tokens_mark hmark] at htokens
  obtain ⟨behind, -, hstart⟩ := Option.map_eq_some_iff.mp htokens
  rw [bounds_value]
  cases tree with
  | scalar units => cases hstart
  | text units => cases hstart
  | array elements =>
    cases hstart
    exact ⟨93, rfl⟩
  | object members =>
    cases hstart
    exact ⟨125, rfl⟩

theorem first_of_between {opening closing : ℕ} (hopening : opening = 91 ∨ opening = 123)
    (h : (between opening closing candidate).bind parse = some value) :
    ∃ last, value.bounds = some (opening, last) := by
  obtain ⟨part, hpart, hparse⟩ := Option.bind_eq_some_iff.mp h
  obtain ⟨before, inner, behind, -, rfl⟩ := exists_of_between hpart
  exact bounds_of_first hopening hparse

/-- The parts by the kind of the value: braces are tried for every value, brackets for none but an array. -/
theorem attempt_iff (hbounds : value.bounds = some (first, last)) :
    attempt candidate = some value ↔ parse candidate = some value ∨ parse candidate = none ∧
      ((fencePart candidate).bind parse = some value ∨ (fencePart candidate).bind parse = none ∧
        (between first last candidate).bind parse = some value ∧
          (first = 123 ∨ (between 123 125 candidate).bind parse = none)) := by
  rw [attempt, Option.or_eq_some_iff, Option.or_eq_some_iff, Option.or_eq_some_iff]
  refine or_congr_right (and_congr_right fun _ => or_congr_right (and_congr_right fun _ => ?_))
  have hobject : (between 123 125 candidate).bind parse = some value → first = 123 := by
    intro h
    obtain ⟨other, hother⟩ := first_of_between (Or.inr rfl) h
    rw [hbounds] at hother
    exact congrArg Prod.fst (Option.some.inj hother)
  have harray : (between 91 93 candidate).bind parse = some value → first = 91 := by
    intro h
    obtain ⟨other, hother⟩ := first_of_between (Or.inl rfl) h
    rw [hbounds] at hother
    exact congrArg Prod.fst (Option.some.inj hother)
  rcases bounds_cases hbounds with ⟨rfl, rfl⟩ | ⟨rfl, rfl⟩
  · constructor
    · rintro (h | ⟨hnone, h⟩)
      · cases hobject h
      · exact ⟨h, Or.inr hnone⟩
    · rintro ⟨h, hfirst | hnone⟩
      · cases hfirst
      · exact Or.inr ⟨hnone, h⟩
  · constructor
    · rintro (h | ⟨-, h⟩)
      · exact ⟨h, Or.inl rfl⟩
      · cases harray h
    · rintro ⟨h, -⟩
      exact Or.inl h

end FragmentMemory.ParseJson
