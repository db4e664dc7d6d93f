import Mathlib.Data.List.Infix
import Mathlib.Algebra.Order.Group.Nat

/-! # Tokens of a JSON text

A JSON text is read unit by unit, outside of its strings or inside one.  A unit that may not stand where it is read
ends the reading.  Blanks and brackets, and the units that only a string holds, tell where a part of a text stands
in the whole.
-/
namespace FragmentMemory.JsonText

inductive Token | mark (unit : ℕ) | scalar (units : List ℕ) | text (units : List ℕ) deriving DecidableEq

/-- In `hex left value` there are `left + 1` digits to come. -/
inductive State | outside | inside | escape | hex (left value : ℕ) deriving DecidableEq

/-- What a unit adds to the tokens. -/
inductive Move | gap | mark (unit : ℕ) | scalar (unit : ℕ) | opening | content (unit : ℕ) | closing | waiting
  deriving DecidableEq

def isBlank (unit : ℕ) : Bool := unit = 32 || unit = 9 || unit = 10 || unit = 13

/-- Brackets, braces, colon and comma. -/
def isMark (unit : ℕ) : Bool :=
  unit = 123 || unit = 125 || unit = 91 || unit = 93 || unit = 58 || unit = 44

/-- The units of numbers and names. -/
def isScalarUnit (unit : ℕ) : Bool :=
  (48 ≤ unit && unit ≤ 57) || (97 ≤ unit && unit ≤ 122) || (65 ≤ unit && unit ≤ 90) || unit = 43 || unit = 45 ||
    unit = 46

def unescape (unit : ℕ) : Option ℕ :=
  if unit = 34 || unit = 92 || unit = 47 then some unit
  else if unit = 98 then some 8
  else if unit = 102 then some 12
  else if unit = 110 then some 10
  else if unit = 114 then some 13
  else if unit = 116 then some 9
  else none

def hexDigit (unit : ℕ) : Option ℕ :=
  if 48 ≤ unit && unit ≤ 57 then some (unit - 48)
  else if 97 ≤ unit && unit ≤ 102 then some (unit - 87)
  else if 65 ≤ unit && unit ≤ 70 then some (unit - 55)
  else none

def move : State → ℕ → Option (State × Move)
  | .outside, unit =>
    if isBlank unit then some (.outside, .gap)
    else if isMark unit then some (.outside, .mark unit)
    else if isScalarUnit unit then some (.outside, .scalar unit)
    else if unit = 34 then some (.inside, .opening)
    else none
  | .inside, unit =>
    if unit = 34 then some (.outside, .closing)
    else if unit = 92 then some (.escape, .waiting)
    else if unit < 32 then none
    else some (.inside, .content unit)
  | .escape, unit =>
    if unit = 117 then some (.hex 3 0, .waiting) else (unescape unit).map fun c => (.inside, .content c)
  | .hex 0 value, unit => (hexDigit unit).map fun digit => (.inside, .content (value * 16 + digit))
  | .hex (left + 1) value, unit => (hexDigit unit).map fun digit => (.hex left (value * 16 + digit), .waiting)

def after : State → List ℕ → Option State
  | state, [] => some state
  | state, unit :: rest => (move state unit).bind fun next => after next.1 rest

def Move.shown : Move → List ℕ
  | .content unit => [unit]
  | _ => []

/-- The units of the strings that are read. -/
def content : State → List ℕ → List ℕ
  | _, [] => []
  | state, unit :: rest =>
    match move state unit with
    | some (next, read) => read.shown ++ content next rest
    | none => []

def flush (read : List ℕ × List Token) : List Token := if read.1 = [] then read.2 else .scalar read.1 :: read.2

/-- The token in progress comes with the tokens behind it. -/
def Move.extend : Move → List ℕ × List Token → List ℕ × List Token
  | .gap, read => ([], flush read)
  | .mark unit, read => ([], .mark unit :: flush read)
  | .scalar unit, read => (unit :: read.1, read.2)
  | .opening, read => ([], .text read.1 :: read.2)
  | .content unit, read => (unit :: read.1, read.2)
  | .closing, read => ([], flush read)
  | .waiting, read => read

def scan : State → List ℕ → Option (List ℕ × List Token)
  | state, [] => if state = .outside then some ([], []) else none
  | state, unit :: rest => (move state unit).bind fun next => (scan next.1 rest).map next.2.extend

def tokens (text : List ℕ) : Option (List Token) := (scan .outside text).map flush

variable {state : State} {front back text : List ℕ} {unit : ℕ}

/-! ## One unit -/

theorem move_outside {next : State × Move} (h : move .outside unit = some next) :
    (isBlank unit = true ∧ next = (.outside, .gap)) ∨ (isMark unit = true ∧ next = (.outside, .mark unit)) ∨
      (isScalarUnit unit = true ∧ next = (.outside, .scalar unit)) ∨ (unit = 34 ∧ next = (.inside, .opening)) := by
  rw [move] at h
  split at h
  · next hblank => exact Or.inl ⟨hblank, (Option.some.inj h).symm⟩
  · split at h
    · next hmark => exact Or.inr (Or.inl ⟨hmark, (Option.some.inj h).symm⟩)
    · split at h
      · next hscalar => exact Or.inr (Or.inr (Or.inl ⟨hscalar, (Option.some.inj h).symm⟩))
      · split at h
        · next hquote => exact Or.inr (Or.inr (Or.inr ⟨hquote, (Option.some.inj h).symm⟩))
        · cases h

theorem move_inside {next : State × Move} (h : move .inside unit = some next) :
    (unit = 34 ∧ next = (.outside, .closing)) ∨ (unit = 92 ∧ next = (.escape, .waiting)) ∨
      (unit ≠ 34 ∧ unit ≠ 92 ∧ 32 ≤ unit ∧ next = (.inside, .content unit)) := by
  rw [move] at h
  split at h
  · next hquote => exact Or.inl ⟨hquote, (Option.some.inj h).symm⟩
  · next hquote =>
    split at h
    · next hback => exact Or.inr (Or.inl ⟨hback, (Option.some.inj h).symm⟩)
    · next hback =>
      split at h
      · cases h
      · next hcontrol => exact Or.inr (Or.inr ⟨hquote, hback, Nat.le_of_not_lt hcontrol, (Option.some.inj h).symm⟩)

/-- Inside of a string only a quote leads out. -/
theorem move_escaped {next : State × Move} (hin : state ≠ .outside) (h : move state unit = some next) :
    unit = 34 ∧ next = (.outside, .closing) ∨
      next.1 ≠ .outside ∧ (next.2 = .waiting ∨ ∃ c, next.2 = .content c) := by
  cases state with
  | outside => exact absurd rfl hin
  | inside =>
    obtain ⟨hquote, rfl⟩ | ⟨-, rfl⟩ | ⟨-, -, -, rfl⟩ := move_inside h
    · exact Or.inl ⟨hquote, rfl⟩
    · exact Or.inr ⟨State.noConfusion, Or.inl rfl⟩
    · exact Or.inr ⟨State.noConfusion, Or.inr ⟨_, rfl⟩⟩
  | escape =>
    rw [move] at h
    split at h
    · obtain rfl := Option.some.inj h
      exact Or.inr ⟨State.noConfusion, Or.inl rfl⟩
    · obtain ⟨c, -, rfl⟩ := Option.map_eq_some_iff.mp h
      exact Or.inr ⟨State.noConfusion, Or.inr ⟨_, rfl⟩⟩
  | hex left value =>
    cases left with
    | zero =>
      obtain ⟨digit, -, rfl⟩ := Option.map_eq_some_iff.mp h
      exact Or.inr ⟨State.noConfusion, Or.inr ⟨_, rfl⟩⟩
    | succ left =>
      obtain ⟨digit, -, rfl⟩ := Option.map_eq_some_iff.mp h
      exact Or.inr ⟨State.noConfusion, Or.inl rfl⟩

/-- A unit that has its place inside of strings only, and there stands for itself. -/
def isPlain (unit : ℕ) : Bool := unit = 60 || unit = 62 || unit = 96

theorem move_plain (hplain : isPlain unit = true) {next : State × Move} (h : move state unit = some next) :
    state = .inside ∧ next = (.inside, .content unit) := by
  simp only [isPlain, Bool.or_eq_true, decide_eq_true_eq] at hplain
  have hcases : unit = 60 ∨ unit = 62 ∨ unit = 96 := by omega
  cases state with
  | outside =>
    have hnone : move .outside unit = none := by
      rcases hcases with rfl | rfl | rfl <;> rfl
    rw [hnone] at h
    cases h
  | inside =>
    have hsome : move .inside unit = some (.inside, .content unit) := by
      rcases hcases with rfl | rfl | rfl <;> rfl
    rw [hsome] at h
    exact ⟨rfl, (Option.some.inj h).symm⟩
  | escape =>
    have hnone : move .escape unit = none := by
      rcases hcases with rfl | rfl | rfl <;> rfl
    rw [hnone] at h
    cases h
  | hex left value =>
    have hnone : move (.hex left value) unit = none := by
      rcases hcases with rfl | rfl | rfl <;> cases left <;> rfl
    rw [hnone] at h
    cases h

/-! ## Runs over a text -/

theorem after_cons {next : State × Move} (h : move state unit = some next) (text : List ℕ) :
    after state (unit :: text) = after next.1 text := by rw [after, h, Option.bind_some]

theorem content_cons {next : State × Move} (h : move state unit = some next) (text : List ℕ) :
    content state (unit :: text) = next.2.shown ++ content next.1 text := by rw [content, h]

theorem scan_cons {next : State × Move} (h : move state unit = some next) (text : List ℕ) :
    scan state (unit :: text) = (scan next.1 text).map next.2.extend := by rw [scan, h, Option.bind_some]

theorem exists_move {last : State} (h : after state (unit :: text) = some last) :
    ∃ next, move state unit = some next ∧ after next.1 text = some last := Option.bind_eq_some_iff.mp h

theorem after_append (state : State) (front back : List ℕ) :
    after state (front ++ back) = (after state front).bind fun next => after next back := by
  induction front generalizing state with
  | nil => rfl
  | cons unit front ih =>
    rw [List.cons_append, after, after, Option.bind_assoc]
    exact congrArg _ (funext fun next => ih next.1)

theorem exists_after {last : State} (h : after state (front ++ back) = some last) :
    ∃ between, after state front = some between ∧ after between back = some last := by
  rw [after_append] at h
  exact Option.bind_eq_some_iff.mp h

theorem content_append {between : State} (h : after state front = some between) (back : List ℕ) :
    content state (front ++ back) = content state front ++ content between back := by
  induction front generalizing state with
  | nil =>
    obtain rfl := Option.some.inj h
    rfl
  | cons unit front ih =>
    obtain ⟨next, hmove, hrest⟩ := exists_move h
    rw [List.cons_append, content_cons hmove, content_cons hmove, ih hrest, List.append_assoc]

/-- The reading succeeds exactly when it ends outside of the strings. -/
theorem isSome_scan (state : State) (text : List ℕ) :
    (scan state text).isSome = true ↔ after state text = some .outside := by
  induction text generalizing state with
  | nil =>
    by_cases hout : state = .outside
    · simp [scan, after, hout]
    · simp [scan, after, hout]
  | cons unit text ih =>
    cases hmove : move state unit with
    | none => simp [scan, after, hmove]
    | some next => rw [scan_cons hmove, after_cons hmove, Option.isSome_map, ih]

theorem after_of_scan {read : List ℕ × List Token} (h : scan state text = some read) :
    after state text = some .outside := (isSome_scan state text).mp (by rw [h]; rfl)

theorem after_of_tokens {read : List Token} (h : tokens text = some read) : after .outside text = some .outside := by
  obtain ⟨pair, hscan, -⟩ := Option.map_eq_some_iff.mp h
  exact after_of_scan hscan

/-- Without a quote the reading stays outside of the strings or inside of one. -/
theorem outside_iff {last : State} (hquote : 34 ∉ text) (h : after state text = some last) :
    last = .outside ↔ state = .outside := by
  induction text generalizing state with
  | nil =>
    obtain rfl := Option.some.inj h
    rfl
  | cons unit text ih =>
    rw [List.mem_cons, not_or] at hquote
    obtain ⟨hunit, hquote⟩ := hquote
    obtain ⟨next, hmove, hrest⟩ := exists_move h
    refine (ih hquote hrest).trans ?_
    by_cases hout : state = .outside
    · subst hout
      obtain ⟨-, rfl⟩ | ⟨-, rfl⟩ | ⟨-, rfl⟩ | ⟨hquote, -⟩ := move_outside hmove
      · exact Iff.rfl
      · exact Iff.rfl
      · exact Iff.rfl
      · exact absurd hquote.symm hunit
    · obtain ⟨hquote, -⟩ | ⟨hnext, -⟩ := move_escaped hout hmove
      · exact absurd hquote.symm hunit
      · exact iff_of_false hnext hout

/-! ## The units of the strings -/

def Token.shown : Token → List ℕ
  | .text units => units
  | _ => []

def texts (read : List Token) : List ℕ := read.flatMap Token.shown

@[simp] theorem texts_nil : texts [] = [] := rfl

@[simp] theorem texts_cons (token : Token) (read : List Token) : texts (token :: read) = token.shown ++ texts read :=
  List.flatMap_cons

@[simp] theorem texts_append (front back : List Token) : texts (front ++ back) = texts front ++ texts back :=
  List.flatMap_append

@[simp] theorem texts_flush (read : List ℕ × List Token) : texts (flush read) = texts read.2 := by
  rw [flush]
  split
  · rfl
  · rw [texts_cons]
    rfl

theorem content_of_scan {read : List ℕ × List Token} (h : scan state text = some read) :
    content state text = (if state = .outside then [] else read.1) ++ texts read.2 := by
  induction text generalizing state read with
  | nil =>
    rw [scan] at h
    split at h
    · next hout =>
      obtain rfl := Option.some.inj h
      rw [hout]
      rfl
    · cases h
  | cons unit text ih =>
    cases hmove : move state unit with
    | none =>
      rw [scan, hmove] at h
      cases h
    | some next =>
      rw [scan_cons hmove] at h
      obtain ⟨tail, htail, rfl⟩ := Option.map_eq_some_iff.mp h
      rw [content_cons hmove, ih htail]
      by_cases hout : state = .outside
      · subst hout
        obtain ⟨-, rfl⟩ | ⟨-, rfl⟩ | ⟨-, rfl⟩ | ⟨-, rfl⟩ := move_outside hmove
        · simp [Move.shown, Move.extend]
        · simp [Move.shown, Move.extend, Token.shown]
        · simp [Move.shown, Move.extend]
        · simp [Move.shown, Move.extend, Token.shown]
      · obtain ⟨-, rfl⟩ | ⟨hnext, hread | ⟨c, hread⟩⟩ := move_escaped hout hmove
        · simp [hout, Move.shown, Move.extend]
        · simp [hnext, hread, hout, Move.shown, Move.extend]
        · simp [hnext, hread, hout, Move.shown, Move.extend]

theorem content_of_tokens {read : List Token} (h : tokens text = some read) : content .outside text = texts read := by
  obtain ⟨pair, hscan, rfl⟩ := Option.map_eq_some_iff.mp h
  rw [content_of_scan hscan, if_pos rfl, texts_flush, List.nil_append]

/-! ## Parts of a text -/

/-- One reading is outside of the strings where the other is inside. -/
def Flipped (first second : State) : Prop :=
  first = .outside ∧ second = .inside ∨ first = .inside ∧ second = .outside

theorem Flipped.symm {first second : State} (h : Flipped first second) : Flipped second first :=
  Or.elim h (fun hfirst => Or.inr hfirst.symm) fun hsecond => Or.inl hsecond.symm

theorem move_both {outer inner : State × Move} (hout : move .outside unit = some outer)
    (hin : move .inside unit = some inner) :
    Flipped outer.1 inner.1 ∧ outer.2.shown = [] ∧ ∀ c ∈ inner.2.shown, isPlain c = false := by
  have hplain : isPlain unit = false := by
    cases hplain : isPlain unit with
    | false => rfl
    | true => exact State.noConfusion (move_plain hplain hout).1
  have hback : unit ≠ 92 := by
    rintro rfl
    cases hout
  obtain ⟨rfl, rfl⟩ | ⟨hunit, -⟩ | ⟨hquote, -, -, rfl⟩ := move_inside hin
  · obtain rfl := Option.some.inj hout
    exact ⟨Or.inr ⟨rfl, rfl⟩, rfl, fun c hc => absurd hc List.not_mem_nil⟩
  · exact absurd hunit hback
  · have hshown : ∀ c ∈ [unit], isPlain c = false := fun c hc => List.mem_singleton.mp hc ▸ hplain
    obtain ⟨-, rfl⟩ | ⟨-, rfl⟩ | ⟨-, rfl⟩ | ⟨hunit, -⟩ := move_outside hout
    · exact ⟨Or.inl ⟨rfl, rfl⟩, rfl, hshown⟩
    · exact ⟨Or.inl ⟨rfl, rfl⟩, rfl, hshown⟩
    · exact ⟨Or.inl ⟨rfl, rfl⟩, rfl, hshown⟩
    · exact absurd hunit hquote

/-- Two such readings stay apart, and what either takes for strings has no plain units. -/
theorem Flipped.run {first second last other : State} (h : Flipped first second) (hfirst : after first text = some last)
    (hsecond : after second text = some other) :
    Flipped last other ∧ ∀ c ∈ content first text, isPlain c = false := by
  induction text generalizing first second with
  | nil =>
    obtain rfl := Option.some.inj hfirst
    obtain rfl := Option.some.inj hsecond
    exact ⟨h, fun c hc => absurd hc List.not_mem_nil⟩
  | cons unit text ih =>
    obtain ⟨next, hmove, hrest⟩ := exists_move hfirst
    obtain ⟨next', hmove', hrest'⟩ := exists_move hsecond
    have hstep : Flipped next.1 next'.1 ∧ ∀ c ∈ next.2.shown, isPlain c = false := by
      rcases h with ⟨rfl, rfl⟩ | ⟨rfl, rfl⟩
      · obtain ⟨hflip, hshown, -⟩ := move_both hmove hmove'
        exact ⟨hflip, fun c hc => absurd (hshown ▸ hc) List.not_mem_nil⟩
      · obtain ⟨hflip, -, hshown⟩ := move_both hmove' hmove
        exact ⟨hflip.symm, hshown⟩
    obtain ⟨hlast, hcontent⟩ := ih hstep.1 hrest hrest'
    refine ⟨hlast, fun c hc => ?_⟩
    rw [content_cons hmove] at hc
    rcases List.mem_append.mp hc with hc | hc
    · exact hstep.2 c hc
    · exact hcontent c hc

/-- A text that starts with a blank or a mark is not read behind a backslash. -/
theorem state_of_first {last : State} (hunit : isBlank unit = true ∨ isMark unit = true)
    (h : after state (unit :: text) = some last) : state = .outside ∨ state = .inside := by
  have hcases : unit = 32 ∨ unit = 9 ∨ unit = 10 ∨ unit = 13 ∨ unit = 123 ∨ unit = 125 ∨ unit = 91 ∨ unit = 93 ∨
      unit = 58 ∨ unit = 44 := by
    simp only [isBlank, isMark, Bool.or_eq_true, decide_eq_true_eq] at hunit
    omega
  obtain ⟨next, hmove, -⟩ := exists_move h
  cases state with
  | outside => exact Or.inl rfl
  | inside => exact Or.inr rfl
  | escape => rcases hcases with rfl | rfl | rfl | rfl | rfl | rfl | rfl | rfl | rfl | rfl <;> cases hmove
  | hex left value =>
    cases left <;> rcases hcases with rfl | rfl | rfl | rfl | rfl | rfl | rfl | rfl | rfl | rfl <;> cases hmove

/-- A text that is read as part of another has at most the plain units that the other has there. -/
theorem count_content_le {last : State} (hplain : isPlain unit = true)
    (hfirst : ∃ c ∈ text.head?, isBlank c = true ∨ isMark c = true) (hread : after .outside text = some .outside)
    (h : after state (front ++ text ++ back) = some last) :
    (content .outside text).count unit ≤ (content state (front ++ text ++ back)).count unit := by
  obtain ⟨middle, hmiddle, hback⟩ := exists_after h
  obtain ⟨between, hfront, htext⟩ := exists_after hmiddle
  have hstate : between = .outside ∨ between = .inside := by
    obtain ⟨c, hc, hunit⟩ := hfirst
    cases text with
    | nil => cases hc
    | cons first text =>
      obtain rfl := Option.some.inj hc
      exact state_of_first hunit htext
  rw [content_append hmiddle, content_append hfront, List.count_append, List.count_append]
  rcases hstate with rfl | rfl
  · omega
  · have hnone : (content .outside text).count unit = 0 := by
      have hflipped := (Flipped.run (Or.inl ⟨rfl, rfl⟩) hread htext).2
      rw [List.count_eq_zero]
      intro hmem
      rw [hflipped unit hmem] at hplain
      cases hplain
    omega

/-- A part between plain units lies inside of a string. -/
theorem plain_part {first last : ℕ} {inner : List ℕ} {final : State} (hfirst : isPlain first = true)
    (hlast : isPlain last = true) (h : after state (front ++ first :: (inner ++ [last]) ++ back) = some final) :
    after state front = some .inside ∧ after .inside back = some final ∧
      (content state front).count first + 1 + (content .inside back).count first ≤
        (content state (front ++ first :: (inner ++ [last]) ++ back)).count first := by
  obtain ⟨between, hmatched, hback⟩ := exists_after h
  obtain ⟨start, hfront, hpart⟩ := exists_after hmatched
  obtain ⟨next, hmove, hrest⟩ := exists_move hpart
  obtain ⟨rfl, rfl⟩ := move_plain hfirst hmove
  obtain ⟨before, hinner, hend⟩ := exists_after hrest
  obtain ⟨next, hmove', hnil⟩ := exists_move hend
  obtain ⟨rfl, rfl⟩ := move_plain hlast hmove'
  obtain rfl := Option.some.inj hnil
  refine ⟨hfront, hback, ?_⟩
  rw [content_append hmatched, content_append hfront, content_cons hmove, Move.shown, List.count_append,
    List.count_append, List.count_append, List.count_singleton_self]
  dsimp only
  omega

/-- Units that are neither a quote nor a backslash do not lead out of a string. -/
theorem after_inside {last : State} (hunits : ∀ unit ∈ text, unit ≠ 34 ∧ unit ≠ 92)
    (h : after .inside text = some last) : last = .inside := by
  induction text with
  | nil => exact (Option.some.inj h).symm
  | cons unit text ih =>
    rw [List.forall_mem_cons] at hunits
    obtain ⟨next, hmove, hrest⟩ := exists_move h
    obtain ⟨hquote, -⟩ | ⟨hback, -⟩ | ⟨-, -, -, rfl⟩ := move_inside hmove
    · exact absurd hquote hunits.1.1
    · exact absurd hback hunits.1.2
    · exact ih hunits.2 hrest

/-! ## Blanks and marks -/

theorem move_blank (h : isBlank unit = true) : move .outside unit = some (.outside, .gap) := if_pos h

theorem move_mark (h : isMark unit = true) : move .outside unit = some (.outside, .mark unit) := by
  have hblank : isBlank unit = false := by
    simp only [isMark, isBlank, Bool.or_eq_true, Bool.or_eq_false_iff, decide_eq_true_eq, decide_eq_false_iff_not] at h ⊢
    omega
  rw [move, hblank, if_neg Bool.false_ne_true, if_pos h]

theorem tokens_blank (h : isBlank unit = true) (text : List ℕ) : tokens (unit :: text) = tokens text := by
  rw [tokens, tokens, scan_cons (move_blank h), Option.map_map]
  exact congrFun (congrArg _ (funext fun read => rfl)) _

theorem tokens_mark (h : isMark unit = true) (text : List ℕ) :
    tokens (unit :: text) = (tokens text).map (.mark unit :: ·) := by
  rw [tokens, tokens, scan_cons (move_mark h), Option.map_map, Option.map_map]
  exact congrFun (congrArg _ (funext fun read => rfl)) _

theorem tokens_blanks (hfront : ∀ unit ∈ front, isBlank unit = true) (text : List ℕ) :
    tokens (front ++ text) = tokens text := by
  induction front with
  | nil => rfl
  | cons unit front ih =>
    rw [List.forall_mem_cons] at hfront
    rw [List.cons_append, tokens_blank hfront.1, ih hfront.2]

theorem quote_not_mem (hback : ∀ unit ∈ back, isBlank unit = true) : 34 ∉ back := by
  intro hmem
  cases hback 34 hmem

theorem scan_blanks (hback : ∀ unit ∈ back, isBlank unit = true) (state : State) : scan state back = scan state [] := by
  induction back with
  | nil => rfl
  | cons unit back ih =>
    by_cases hout : state = .outside
    · rw [List.forall_mem_cons] at hback
      subst hout
      rw [scan_cons (move_blank hback.1), ih hback.2]
      rfl
    · have hnone : ¬ (scan state (unit :: back)).isSome = true := fun hsome =>
        hout ((outside_iff (quote_not_mem hback) ((isSome_scan _ _).mp hsome)).mp rfl)
      rw [Option.not_isSome_iff_eq_none.mp hnone, scan, if_neg hout]

theorem scan_append_blanks (hback : ∀ unit ∈ back, isBlank unit = true) (state : State) (text : List ℕ) :
    scan state (text ++ back) = scan state text := by
  induction text generalizing state with
  | nil => exact scan_blanks hback state
  | cons unit text ih =>
    rw [List.cons_append, scan, scan]
    exact congrArg _ (funext fun next => by rw [ih])

theorem tokens_append_blanks (hback : ∀ unit ∈ back, isBlank unit = true) (text : List ℕ) :
    tokens (text ++ back) = tokens text := by rw [tokens, tokens, scan_append_blanks hback]

theorem scan_append {read : List ℕ × List Token} {behind : List Token} (hback : scan .outside back = some ([], behind))
    (h : scan state front = some read) : scan state (front ++ back) = some (read.1, read.2 ++ behind) := by
  induction front generalizing state read with
  | nil =>
    rw [scan] at h
    split at h
    · next hout =>
      obtain rfl := Option.some.inj h
      rw [hout, List.nil_append, hback, List.nil_append]
    · cases h
  | cons unit front ih =>
    obtain ⟨next, hmove, hrest⟩ := Option.bind_eq_some_iff.mp h
    obtain ⟨tail, htail, rfl⟩ := Option.map_eq_some_iff.mp hrest
    rw [List.cons_append, scan_cons hmove, ih htail, Option.map_some]
    have hflush : flush (tail.1, tail.2 ++ behind) = flush tail ++ behind := by
      rw [flush, flush]
      split
      · rfl
      · rfl
    cases hread : next.2 with
    | gap => simp only [Move.extend, hflush]
    | mark unit => simp only [Move.extend, hflush, List.cons_append]
    | scalar unit => rfl
    | opening => rfl
    | content unit => rfl
    | closing => simp only [Move.extend, hflush]
    | waiting => rfl

/-- What stands behind a mark is read on its own. -/
theorem tokens_append_mark {read behind : List Token} (hmark : isMark unit = true) (hfront : tokens front = some read)
    (hback : tokens (unit :: back) = some behind) : tokens (front ++ unit :: back) = some (read ++ behind) := by
  obtain ⟨pair, hpair, rfl⟩ := Option.map_eq_some_iff.mp hfront
  have hscan : scan .outside (unit :: back) = some ([], behind) := by
    rw [tokens_mark hmark] at hback
    obtain ⟨rest, hrest, rfl⟩ := Option.map_eq_some_iff.mp hback
    obtain ⟨tail, htail, rfl⟩ := Option.map_eq_some_iff.mp hrest
    rw [scan_cons (move_mark hmark), htail]
    rfl
  rw [tokens, scan_append hscan hpair, Option.map_some, flush, flush]
  split
  · rfl
  · rfl

/-! ## The first and the last token -/

theorem first_of_tokens {rest : List Token} (h : tokens text = some (.mark unit :: rest)) :
    ∃ blanks back, text = blanks ++ unit :: back ∧ ∀ c ∈ blanks, isBlank c = true := by
  induction text with
  | nil => cases h
  | cons first text ih =>
    obtain ⟨read, hread, hflush⟩ := Option.map_eq_some_iff.mp h
    obtain ⟨next, hmove, hrest⟩ := Option.bind_eq_some_iff.mp hread
    obtain ⟨tail, htail, rfl⟩ := Option.map_eq_some_iff.mp hrest
    obtain ⟨hblank, rfl⟩ | ⟨-, rfl⟩ | ⟨-, rfl⟩ | ⟨-, rfl⟩ := move_outside hmove
    · rw [tokens_blank hblank] at h
      obtain ⟨blanks, back, rfl, hblanks⟩ := ih h
      exact ⟨first :: blanks, back, rfl, List.forall_mem_cons.mpr ⟨hblank, hblanks⟩⟩
    · obtain ⟨heq, -⟩ := List.cons.inj hflush
      cases heq
      exact ⟨[], text, rfl, fun c hc => absurd hc List.not_mem_nil⟩
    · cases (List.cons.inj hflush).1
    · cases (List.cons.inj hflush).1

theorem blank_of_tokens_nil (h : tokens text = some []) : ∀ c ∈ text, isBlank c = true := by
  induction text with
  | nil => exact fun c hc => absurd hc List.not_mem_nil
  | cons first text ih =>
    obtain ⟨read, hread, hflush⟩ := Option.map_eq_some_iff.mp h
    obtain ⟨next, hmove, hrest⟩ := Option.bind_eq_some_iff.mp hread
    obtain ⟨tail, htail, rfl⟩ := Option.map_eq_some_iff.mp hrest
    obtain ⟨hblank, rfl⟩ | ⟨-, rfl⟩ | ⟨-, rfl⟩ | ⟨-, rfl⟩ := move_outside hmove
    · rw [tokens_blank hblank] at h
      exact List.forall_mem_cons.mpr ⟨hblank, ih h⟩
    · cases hflush
    · cases hflush
    · cases hflush

theorem getLast?_flush {read : List ℕ × List Token} (h : (flush read).getLast? = some (.mark unit)) :
    read.2.getLast? = some (.mark unit) := by
  rw [flush] at h
  split at h
  · exact h
  · cases hread : read.2 with
    | nil =>
      rw [hread] at h
      cases h
    | cons token rest =>
      rw [hread, List.getLast?_cons_cons] at h
      exact h

theorem last_of_scan {read : List ℕ × List Token} (h : scan state text = some read)
    (hlast : read.2.getLast? = some (.mark unit)) :
    ∃ front blanks, text = front ++ unit :: blanks ∧ ∀ c ∈ blanks, isBlank c = true := by
  induction text generalizing state read with
  | nil =>
    rw [scan] at h
    split at h
    · obtain rfl := Option.some.inj h
      cases hlast
    · cases h
  | cons first text ih =>
    obtain ⟨next, hmove, hrest⟩ := Option.bind_eq_some_iff.mp h
    obtain ⟨tail, htail, rfl⟩ := Option.map_eq_some_iff.mp hrest
    have hbehind : tail.2.getLast? = some (.mark unit) →
        ∃ front blanks, first :: text = front ++ unit :: blanks ∧ ∀ c ∈ blanks, isBlank c = true := by
      intro hlater
      obtain ⟨front, blanks, rfl, hblanks⟩ := ih htail hlater
      exact ⟨first :: front, blanks, rfl, hblanks⟩
    cases hread : next.2 with
    | gap =>
      rw [hread] at hlast
      exact hbehind (getLast?_flush hlast)
    | mark c =>
      rw [hread] at hlast
      cases hflush : flush tail with
      | nil =>
        have hout : state = .outside := by
          by_contra hout
          obtain ⟨-, rfl⟩ | ⟨-, hwait | ⟨d, hcontent⟩⟩ := move_escaped hout hmove
          · cases hread
          · cases hread.symm.trans hwait
          · cases hread.symm.trans hcontent
        subst hout
        obtain ⟨-, rfl⟩ | ⟨-, rfl⟩ | ⟨-, rfl⟩ | ⟨-, rfl⟩ := move_outside hmove
        · cases hread
        · cases hread
          rw [Move.extend, hflush] at hlast
          cases hlast
          have hempty : tokens text = some [] := by rw [tokens, htail, Option.map_some, hflush]
          exact ⟨[], text, rfl, blank_of_tokens_nil hempty⟩
        · cases hread
        · cases hread
      | cons token rest =>
        rw [Move.extend, hflush, List.getLast?_cons_cons, ← hflush] at hlast
        exact hbehind (getLast?_flush hlast)
    | scalar c =>
      rw [hread] at hlast
      exact hbehind hlast
    | opening =>
      rw [hread] at hlast
      cases hrest : tail.2 with
      | nil =>
        rw [Move.extend, hrest] at hlast
        cases hlast
      | cons token rest =>
        rw [Move.extend, hrest, List.getLast?_cons_cons, ← hrest] at hlast
        exact hbehind hlast
    | content c =>
      rw [hread] at hlast
      exact hbehind hlast
    | closing =>
      rw [hread] at hlast
      exact hbehind (getLast?_flush hlast)
    | waiting =>
      rw [hread] at hlast
      exact hbehind hlast

theorem last_of_tokens {rest : List Token} (h : tokens text = some (rest ++ [.mark unit])) :
    ∃ front blanks, text = front ++ unit :: blanks ∧ ∀ c ∈ blanks, isBlank c = true := by
  obtain ⟨read, hread, hflush⟩ := Option.map_eq_some_iff.mp h
  apply last_of_scan hread
  apply getLast?_flush
  rw [hflush, List.getLast?_append, List.getLast?_singleton, Option.some_or]

end FragmentMemory.JsonText
