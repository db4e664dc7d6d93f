import FragmentMemory.JsonTokens
import Mathlib.Algebra.Ring.Int.Defs

/-! # Values of a JSON text

A text is read as a tree with its members as they are written; its value keeps the last member under each key.
A scalar stands as it is written.
-/
namespace FragmentMemory.JsonText

inductive Json
  | scalar (units : List ℕ)
  | text (units : List ℕ)
  | array (elements : List Json)
  | object (members : List (List ℕ × Json))

/-! ## Scalars -/

def isDigit (unit : ℕ) : Bool := 48 ≤ unit && unit ≤ 57

def dropDigits : List ℕ → Option (List ℕ)
  | unit :: rest => if isDigit unit then some (rest.dropWhile isDigit) else none
  | [] => none

/-- No digit stands behind a leading zero. -/
def dropInteger : List ℕ → Option (List ℕ)
  | 48 :: rest => some rest
  | units => dropDigits units

def dropFraction : List ℕ → Option (List ℕ)
  | 46 :: rest => dropDigits rest
  | units => some units

def dropSign : List ℕ → List ℕ
  | 43 :: rest => rest
  | 45 :: rest => rest
  | units => units

def dropExponent : List ℕ → Option (List ℕ)
  | 101 :: rest => dropDigits (dropSign rest)
  | 69 :: rest => dropDigits (dropSign rest)
  | units => some units

def isNumber (units : List ℕ) : Bool :=
  let unsigned := if units.head? = some 45 then units.tail else units
  ((dropInteger unsigned).bind dropFraction).bind dropExponent = some []

def isScalar (units : List ℕ) : Bool :=
  units = [116, 114, 117, 101] || units = [102, 97, 108, 115, 101] || units = [110, 117, 108, 108] || isNumber units

/-! ## Trees -/

mutual

/-- The tree as it is written. -/
def Json.tokens : Json → List Token
  | .scalar units => [.scalar units]
  | .text units => [.text units]
  | .array elements => .mark 91 :: (elementTokens [] elements ++ [.mark 93])
  | .object members => .mark 123 :: (memberTokens [] members ++ [.mark 125])

def elementTokens : List Token → List Json → List Token
  | _, [] => []
  | comma, element :: rest => comma ++ (element.tokens ++ elementTokens [.mark 44] rest)

def memberTokens : List Token → List (List ℕ × Json) → List Token
  | _, [] => []
  | comma, (key, element) :: rest =>
    comma ++ (.text key :: .mark 58 :: (element.tokens ++ memberTokens [.mark 44] rest))

end

mutual

def readValue : ℕ → List Token → Option (Json × List Token)
  | 0, _ => none
  | _ + 1, .scalar units :: rest => if isScalar units then some (.scalar units, rest) else none
  | _ + 1, .text units :: rest => some (.text units, rest)
  | _ + 1, .mark 91 :: .mark 93 :: rest => some (.array [], rest)
  | fuel + 1, .mark 91 :: rest => (readElements fuel rest).map fun read => (.array read.1, read.2)
  | _ + 1, .mark 123 :: .mark 125 :: rest => some (.object [], rest)
  | fuel + 1, .mark 123 :: rest => (readMembers fuel rest).map fun read => (.object read.1, read.2)
  | _ + 1, _ => none

/-- One element or more, and the closing bracket. -/
def readElements : ℕ → List Token → Option (List Json × List Token)
  | 0, _ => none
  | fuel + 1, text =>
    match readValue fuel text with
    | some (element, .mark 93 :: rest) => some ([element], rest)
    | some (element, .mark 44 :: rest) => (readElements fuel rest).map fun read => (element :: read.1, read.2)
    | _ => none

/-- One member or more, and the closing brace. -/
def readMembers : ℕ → List Token → Option (List (List ℕ × Json) × List Token)
  | fuel + 1, .text key :: .mark 58 :: text =>
    match readValue fuel text with
    | some (element, .mark 125 :: rest) => some ([(key, element)], rest)
    | some (element, .mark 44 :: rest) => (readMembers fuel rest).map fun read => ((key, element) :: read.1, read.2)
    | _ => none
  | _, _ => none

end

def setMember (key : List ℕ) (element : Json) : List (List ℕ × Json) → List (List ℕ × Json)
  | [] => [(key, element)]
  | (written, old) :: rest =>
    if written = key then (key, element) :: rest else (written, old) :: setMember key element rest

mutual

/-- The value of a tree: a later member takes the place of an earlier one under its key. -/
def Json.value : Json → Json
  | .scalar units => .scalar units
  | .text units => .text units
  | .array elements => .array (elementValues elements)
  | .object members => .object (memberValues [] members)

def elementValues : List Json → List Json
  | [] => []
  | element :: rest => element.value :: elementValues rest

def memberValues : List (List ℕ × Json) → List (List ℕ × Json) → List (List ℕ × Json)
  | set, [] => set
  | set, (key, element) :: rest => memberValues (setMember key element.value set) rest

end

def read (text : List ℕ) : Option Json :=
  (tokens text).bind fun tokens =>
    match readValue tokens.length tokens with
    | some (tree, []) => some tree
    | _ => none

/-- `JSON.parse`. -/
def parse (text : List ℕ) : Option Json := (read text).map Json.value

variable {text front back : List ℕ} {tree : Json} {fuel : ℕ}

/-! ## What a tree is read from -/

theorem read_sound (fuel : ℕ) :
    (∀ text tree rest, readValue fuel text = some (tree, rest) → text = tree.tokens ++ rest) ∧
    (∀ text elements rest, readElements fuel text = some (elements, rest) →
      ∀ comma, comma ++ text = elementTokens comma elements ++ .mark 93 :: rest) ∧
    (∀ text members rest, readMembers fuel text = some (members, rest) →
      ∀ comma, comma ++ text = memberTokens comma members ++ .mark 125 :: rest) := by
  induction fuel with
  | zero =>
    refine ⟨?_, ?_, ?_⟩
    · intro text tree rest h
      cases h
    · intro text elements rest h
      cases h
    · intro text members rest h
      rw [readMembers] at h
      · cases h
      · intro fuel key text h
        cases h
  | succ fuel ih =>
    obtain ⟨ihvalue, ihelements, ihmembers⟩ := ih
    refine ⟨?_, ?_, ?_⟩
    · intro text tree rest h
      unfold readValue at h
      split at h
      · next hfuel => cases hfuel
      · next units behind hfuel =>
        split at h
        · cases h
          rfl
        · cases h
      · cases h
        rfl
      · cases h
        rfl
      · next used behind hempty hfuel =>
        obtain ⟨⟨elements, left⟩, helements, hread⟩ := Option.map_eq_some_iff.mp h
        cases hfuel
        cases hread
        have hbehind := ihelements _ _ _ helements []
        rw [Json.tokens, List.cons_append, List.append_assoc, List.singleton_append, ← hbehind]
        rfl
      · cases h
        rfl
      · next used behind hempty hfuel =>
        obtain ⟨⟨members, left⟩, hmembers, hread⟩ := Option.map_eq_some_iff.mp h
        cases hfuel
        cases hread
        have hbehind := ihmembers _ _ _ hmembers []
        rw [Json.tokens, List.cons_append, List.append_assoc, List.singleton_append, ← hbehind]
        rfl
      · cases h
    · intro text elements rest h comma
      rw [readElements] at h
      split at h
      · next element behind hvalue =>
        cases h
        rw [ihvalue _ _ _ hvalue]
        simp [elementTokens]
      · next element behind hvalue =>
        obtain ⟨⟨others, left⟩, hothers, hread⟩ := Option.map_eq_some_iff.mp h
        cases hread
        have hbehind := ihelements _ _ _ hothers [.mark 44]
        rw [ihvalue _ _ _ hvalue, elementTokens, List.append_assoc, List.append_assoc, ← hbehind]
        rfl
      · cases h
    · intro text members rest h comma
      unfold readMembers at h
      split at h
      · next used key text hfuel =>
        cases hfuel
        split at h
        · next element behind hvalue =>
          cases h
          rw [ihvalue _ _ _ hvalue]
          simp [memberTokens]
        · next element behind hvalue =>
          obtain ⟨⟨others, left⟩, hothers, hread⟩ := Option.map_eq_some_iff.mp h
          cases hread
          have hbehind := ihmembers _ _ _ hothers [.mark 44]
          rw [ihvalue _ _ _ hvalue, memberTokens, List.append_assoc, List.cons_append, List.cons_append,
            List.append_assoc, ← hbehind]
          rfl
        · cases h
      · cases h

theorem tokens_of_read (h : read text = some tree) : tokens text = some tree.tokens := by
  obtain ⟨toks, htokens, hread⟩ := Option.bind_eq_some_iff.mp h
  split at hread
  · next found hfound =>
    obtain rfl := Option.some.inj hread
    have hsound := (read_sound toks.length).1 _ _ _ hfound
    rw [List.append_nil] at hsound
    rw [htokens, hsound]
  · cases hread

theorem read_congr {other : List ℕ} (h : tokens text = tokens other) : read text = read other := by rw [read, read, h]

theorem parse_congr {other : List ℕ} (h : tokens text = tokens other) : parse text = parse other := by
  rw [parse, parse, read_congr h]

theorem parse_blanks (hfront : ∀ unit ∈ front, isBlank unit = true) (hback : ∀ unit ∈ back, isBlank unit = true)
    (text : List ℕ) : parse (front ++ text ++ back) = parse text :=
  parse_congr ((tokens_append_blanks hback _).trans (tokens_blanks hfront text))

theorem after_of_read (h : read text = some tree) : after .outside text = some .outside :=
  after_of_tokens (tokens_of_read h)

/-! ## What a tree is read to -/

mutual

/-- The scalars are numbers or names of the language. -/
def Json.Sound : Json → Prop
  | .scalar units => isScalar units = true
  | .text _ => True
  | .array elements => SoundElements elements
  | .object members => SoundMembers members

def SoundElements : List Json → Prop
  | [] => True
  | element :: rest => element.Sound ∧ SoundElements rest

def SoundMembers : List (List ℕ × Json) → Prop
  | [] => True
  | (_, element) :: rest => element.Sound ∧ SoundMembers rest

end

theorem tokens_ne_close (tree : Json) (mark : ℕ) (behind : List Token) (hmark : mark = 93 ∨ mark = 125) :
    ∀ rest, tree.tokens ++ behind ≠ .mark mark :: rest := by
  intro rest h
  cases tree <;> simp [Json.tokens] at h <;> omega

theorem readValue_array {text : List Token} (h : ∀ rest, text ≠ .mark 93 :: rest) :
    readValue (fuel + 1) (.mark 91 :: text) = (readElements fuel text).map fun read => (.array read.1, read.2) := by
  rw [readValue]
  exact h

theorem readValue_object {text : List Token} (h : ∀ rest, text ≠ .mark 125 :: rest) :
    readValue (fuel + 1) (.mark 123 :: text) = (readMembers fuel text).map fun read => (.object read.1, read.2) := by
  rw [readValue]
  exact h

theorem read_complete (fuel : ℕ) :
    (∀ tree : Json, tree.Sound → tree.tokens.length ≤ fuel → ∀ behind,
      readValue fuel (tree.tokens ++ behind) = some (tree, behind)) ∧
    (∀ element rest, SoundElements (element :: rest) → (elementTokens [] (element :: rest)).length < fuel → ∀ behind,
      readElements fuel (elementTokens [] (element :: rest) ++ .mark 93 :: behind) = some (element :: rest, behind)) ∧
    (∀ key element rest, SoundMembers ((key, element) :: rest) →
      (memberTokens [] ((key, element) :: rest)).length < fuel → ∀ behind,
      readMembers fuel (memberTokens [] ((key, element) :: rest) ++ .mark 125 :: behind) =
        some ((key, element) :: rest, behind)) := by
  induction fuel with
  | zero =>
    refine ⟨?_, ?_, ?_⟩
    · intro tree _ hfuel
      cases tree <;> simp [Json.tokens] at hfuel
    · intro element rest _ hfuel
      omega
    · intro key element rest _ hfuel
      omega
  | succ fuel ih =>
    obtain ⟨ihvalue, ihelements, ihmembers⟩ := ih
    refine ⟨?_, ?_, ?_⟩
    · intro tree hsound hfuel behind
      match tree with
      | .scalar units => exact if_pos hsound
      | .text units => rfl
      | .array [] => rfl
      | .array (element :: rest) =>
        rw [Json.tokens, List.length_cons, List.length_append, List.length_singleton] at hfuel
        have hopen : ∀ others, elementTokens [] (element :: rest) ++ .mark 93 :: behind ≠ .mark 93 :: others := by
          rw [elementTokens, List.nil_append, List.append_assoc]
          exact tokens_ne_close element 93 _ (Or.inl rfl)
        rw [Json.tokens, List.cons_append, List.append_assoc, List.singleton_append, readValue_array hopen,
          ihelements element rest hsound (by omega) behind, Option.map_some]
      | .object [] => rfl
      | .object ((key, element) :: rest) =>
        rw [Json.tokens, List.length_cons, List.length_append, List.length_singleton] at hfuel
        have hopen : ∀ others,
            memberTokens [] ((key, element) :: rest) ++ .mark 125 :: behind ≠ .mark 125 :: others := by
          intro others h
          cases h
        rw [Json.tokens, List.cons_append, List.append_assoc, List.singleton_append, readValue_object hopen,
          ihmembers key element rest hsound (by omega) behind, Option.map_some]
    · intro element rest hsound hfuel behind
      rw [elementTokens, List.nil_append, List.length_append] at hfuel
      rw [elementTokens, List.nil_append, List.append_assoc, readElements, ihvalue element hsound.1 (by omega)]
      cases rest with
      | nil => rfl
      | cons next others =>
        have hnext := ihelements next others hsound.2
        rw [elementTokens, List.nil_append] at hnext
        rw [elementTokens, List.singleton_append, List.length_cons] at hfuel
        rw [elementTokens, List.singleton_append, List.cons_append]
        simp only [hnext (by omega), Option.map_some]
    · intro key element rest hsound hfuel behind
      rw [memberTokens, List.nil_append, List.length_cons, List.length_cons, List.length_append] at hfuel
      rw [memberTokens, List.nil_append, List.cons_append, List.cons_append, List.append_assoc, readMembers,
        ihvalue element hsound.1 (by omega)]
      cases rest with
      | nil => rfl
      | cons next others =>
        have hnext := ihmembers next.1 next.2 others hsound.2
        rw [memberTokens, List.nil_append] at hnext
        rw [memberTokens, List.singleton_append, List.length_cons] at hfuel
        rw [memberTokens, List.singleton_append, List.cons_append]
        simp only [hnext (by omega), Option.map_some]

/-- Every tree is read from any text with its tokens. -/
theorem read_of_tokens (hsound : tree.Sound) (h : tokens text = some tree.tokens) : read text = some tree := by
  have hread := (read_complete tree.tokens.length).1 tree hsound le_rfl []
  rw [List.append_nil] at hread
  rw [read, h, Option.bind_some, hread]

/-! ## The strings of a value -/

/-- The units of all strings and keys. -/
def Json.strings (tree : Json) : List ℕ := texts tree.tokens

def memberStrings (members : List (List ℕ × Json)) : List ℕ := members.flatMap fun member => member.1 ++ member.2.strings

theorem texts_elementTokens {comma : List Token} (hcomma : texts comma = []) (elements : List Json) :
    texts (elementTokens comma elements) = elements.flatMap Json.strings := by
  induction elements generalizing comma with
  | nil => rfl
  | cons element rest ih =>
    have hrest : texts (elementTokens [.mark 44] rest) = rest.flatMap Json.strings := ih rfl
    simp only [elementTokens, texts_append, hcomma, hrest, List.nil_append, List.flatMap_cons, Json.strings]

theorem texts_memberTokens {comma : List Token} (hcomma : texts comma = []) (members : List (List ℕ × Json)) :
    texts (memberTokens comma members) = memberStrings members := by
  induction members generalizing comma with
  | nil => rfl
  | cons member rest ih =>
    have hrest : texts (memberTokens [.mark 44] rest) = memberStrings rest := ih rfl
    obtain ⟨key, element⟩ := member
    simp only [memberTokens, texts_append, texts_cons, hcomma, hrest, Token.shown, List.nil_append, memberStrings,
      List.flatMap_cons, Json.strings, List.append_assoc]

theorem strings_array (elements : List Json) : (Json.array elements).strings = elements.flatMap Json.strings := by
  rw [Json.strings, Json.tokens, texts_cons, texts_append, texts_elementTokens rfl]
  exact List.append_nil _

theorem strings_object (members : List (List ℕ × Json)) : (Json.object members).strings = memberStrings members := by
  rw [Json.strings, Json.tokens, texts_cons, texts_append, texts_memberTokens rfl]
  exact List.append_nil _

theorem count_setMember (unit : ℕ) (key : List ℕ) (element : Json) (set : List (List ℕ × Json)) :
    (memberStrings (setMember key element set)).count unit ≤
      (memberStrings set).count unit + (key ++ element.strings).count unit := by
  induction set with
  | nil => simp [setMember, memberStrings]
  | cons member rest ih =>
    obtain ⟨written, old⟩ := member
    rw [setMember]
    simp only [memberStrings, List.flatMap_cons, List.count_append] at ih ⊢
    split
    · simp only [List.flatMap_cons, List.count_append]
      omega
    · simp only [List.flatMap_cons, List.count_append]
      omega

mutual

/-- The value of a tree has no strings of its own. -/
theorem count_value (unit : ℕ) : ∀ tree : Json, tree.value.strings.count unit ≤ tree.strings.count unit
  | .scalar _ => le_rfl
  | .text _ => le_rfl
  | .array elements => by
    rw [Json.value, strings_array, strings_array]
    exact count_elementValues unit elements
  | .object members => by
    rw [Json.value, strings_object, strings_object]
    have hmembers := count_memberValues unit members []
    have hnone : (memberStrings []).count unit = 0 := rfl
    omega

theorem count_elementValues (unit : ℕ) : ∀ elements : List Json,
    ((elementValues elements).flatMap Json.strings).count unit ≤ (elements.flatMap Json.strings).count unit
  | [] => le_rfl
  | element :: rest => by
    have helement := count_value unit element
    have hrest := count_elementValues unit rest
    rw [elementValues, List.flatMap_cons, List.flatMap_cons, List.count_append, List.count_append]
    omega

theorem count_memberValues (unit : ℕ) : ∀ members set : List (List ℕ × Json),
    (memberStrings (memberValues set members)).count unit ≤
      (memberStrings set).count unit + (memberStrings members).count unit
  | [], _ => Nat.le_add_right _ _
  | (key, element) :: rest, set => by
    have helement := count_value unit element
    have hset := count_setMember unit key element.value set
    have hrest := count_memberValues unit rest (setMember key element.value set)
    have hsplit : memberStrings ((key, element) :: rest) = (key ++ element.strings) ++ memberStrings rest := rfl
    rw [memberValues, hsplit]
    simp only [List.count_append] at hset ⊢
    omega

end

theorem strings_of_tokens (h : tokens text = some tree.tokens) : tree.strings = content .outside text :=
  (content_of_tokens h).symm

theorem count_parse (unit : ℕ) (h : parse text = some tree) :
    tree.strings.count unit ≤ (content .outside text).count unit := by
  obtain ⟨written, hread, rfl⟩ := Option.map_eq_some_iff.mp h
  rw [← strings_of_tokens (tokens_of_read hread)]
  exact count_value unit written

/-! ## Brackets -/

/-- The first and the last unit of an array or an object. -/
def Json.bounds : Json → Option (ℕ × ℕ)
  | .array _ => some (91, 93)
  | .object _ => some (123, 125)
  | _ => none

theorem bounds_value (tree : Json) : tree.value.bounds = tree.bounds := by cases tree <;> rfl

variable {first last : ℕ}

theorem tokens_of_bounds (h : tree.bounds = some (first, last)) :
    ∃ inner, tree.tokens = .mark first :: (inner ++ [.mark last]) := by
  cases tree with
  | scalar units => cases h
  | text units => cases h
  | array elements =>
    cases h
    exact ⟨_, rfl⟩
  | object members =>
    cases h
    exact ⟨_, rfl⟩

theorem bounds_cases (h : tree.bounds = some (first, last)) : first = 91 ∧ last = 93 ∨ first = 123 ∧ last = 125 := by
  cases tree with
  | scalar units => cases h
  | text units => cases h
  | array elements =>
    cases h
    exact Or.inl ⟨rfl, rfl⟩
  | object members =>
    cases h
    exact Or.inr ⟨rfl, rfl⟩

theorem isMark_first (h : tree.bounds = some (first, last)) : isMark first = true := by
  rcases bounds_cases h with ⟨rfl, -⟩ | ⟨rfl, -⟩ <;> rfl

/-- Apart from blanks, the text of an array or an object starts and ends with its brackets. -/
theorem text_of_bounds (h : tokens text = some tree.tokens) (hbounds : tree.bounds = some (first, last)) :
    ∃ blanks inner blanks', text = blanks ++ (first :: (inner ++ [last])) ++ blanks' ∧
      (∀ c ∈ blanks, isBlank c = true) ∧ ∀ c ∈ blanks', isBlank c = true := by
  obtain ⟨inner, htokens⟩ := tokens_of_bounds hbounds
  rw [htokens] at h
  obtain ⟨blanks, back, rfl, hblanks⟩ := first_of_tokens h
  rw [tokens_blanks hblanks, tokens_mark (isMark_first hbounds)] at h
  obtain ⟨behind, hbehind, hmark⟩ := Option.map_eq_some_iff.mp h
  obtain ⟨-, rfl⟩ := List.cons.inj hmark
  obtain ⟨front, blanks', rfl, hblanks'⟩ := last_of_tokens hbehind
  refine ⟨blanks, front, blanks', ?_, hblanks, hblanks'⟩
  simp only [List.append_assoc, List.cons_append, List.nil_append]

/-! ## Nesting -/

def Token.level : Token → ℤ
  | .mark 91 => 1
  | .mark 123 => 1
  | .mark 93 => -1
  | .mark 125 => -1
  | _ => 0

def levels (read : List Token) : ℤ := (read.map Token.level).sum

@[simp] theorem levels_nil : levels [] = 0 := rfl

@[simp] theorem levels_cons (token : Token) (read : List Token) : levels (token :: read) = token.level + levels read :=
  List.sum_cons

@[simp] theorem levels_append (front back : List Token) : levels (front ++ back) = levels front + levels back := by
  rw [levels, List.map_append, List.sum_append, levels, levels]

/-- As many brackets are opened as closed, and from no place on more are opened than closed. -/
structure Nested (read : List Token) : Prop where
  closed : levels read = 0
  falling : ∀ front back, read = front ++ back → levels back ≤ 0

theorem Nested.nil : Nested [] where
  closed := rfl
  falling front back h := by rw [(List.append_eq_nil_iff.mp h.symm).2, levels_nil]

theorem Nested.flat {token : Token} (h : token.level = 0) : Nested [token] where
  closed := by rw [levels_cons, h, levels_nil, Int.add_zero]
  falling front back hsplit := by
    rcases List.append_eq_singleton_iff.mp hsplit.symm with ⟨-, rfl⟩ | ⟨-, rfl⟩
    · rw [levels_cons, h, levels_nil, Int.add_zero]
    · exact le_rfl

theorem Nested.append {read behind : List Token} (h : Nested read) (h' : Nested behind) : Nested (read ++ behind) where
  closed := by rw [levels_append, h.closed, h'.closed, Int.add_zero]
  falling front back hsplit := by
    rcases List.append_eq_append_iff.mp hsplit with ⟨middle, rfl, hmiddle⟩ | ⟨middle, hmiddle, rfl⟩
    · exact h'.falling middle back hmiddle
    · have hread := h.falling front middle hmiddle
      rw [levels_append, h'.closed]
      omega

/-- From each place behind the opening bracket on, more brackets are closed. -/
theorem Nested.lt_of_bracketed {inner front back : List Token} (h : Nested inner) {opening closing : Token}
    (hclosing : closing.level = -1) (hsplit : opening :: (inner ++ [closing]) = front ++ back) (hfront : front ≠ [])
    (hback : back ≠ []) : levels back < 0 := by
  obtain ⟨first, front, rfl⟩ := List.exists_cons_of_ne_nil hfront
  rw [List.cons_append] at hsplit
  obtain ⟨-, hinner⟩ := List.cons.inj hsplit
  obtain ⟨middle, last, rfl⟩ : ∃ middle last, back = middle ++ [last] :=
    ⟨_, _, (List.dropLast_append_getLast hback).symm⟩
  rw [← List.append_assoc] at hinner
  obtain ⟨hmiddle, hlast⟩ := List.append_inj' hinner rfl
  obtain rfl := List.singleton_inj.mp hlast
  have hfalling := h.falling front middle hmiddle
  rw [levels_append, levels_cons, hclosing, levels_nil]
  omega

theorem Nested.bracketed {inner : List Token} (h : Nested inner) {opening closing : Token}
    (hopening : opening.level = 1) (hclosing : closing.level = -1) : Nested (opening :: (inner ++ [closing])) where
  closed := by
    rw [levels_cons, levels_append, levels_cons, levels_nil, hopening, hclosing, h.closed]
    rfl
  falling front back hsplit := by
    by_cases hback : back = []
    · rw [hback, levels_nil]
    · by_cases hfront : front = []
      · rw [hfront, List.nil_append] at hsplit
        rw [← hsplit, levels_cons, levels_append, levels_cons, levels_nil, hopening, hclosing, h.closed]
        exact le_rfl
      · exact (h.lt_of_bracketed hclosing hsplit hfront hback).le

mutual

theorem nested_tokens : ∀ tree : Json, Nested tree.tokens
  | .scalar _ => Nested.flat rfl
  | .text _ => Nested.flat rfl
  | .array elements => (nested_elements elements Nested.nil).bracketed rfl rfl
  | .object members => (nested_members members Nested.nil).bracketed rfl rfl

theorem nested_elements : ∀ (elements : List Json) {comma : List Token}, Nested comma →
    Nested (elementTokens comma elements)
  | [], _, _ => Nested.nil
  | element :: rest, _, hcomma =>
    hcomma.append ((nested_tokens element).append (nested_elements rest (Nested.flat rfl)))

theorem nested_members : ∀ (members : List (List ℕ × Json)) {comma : List Token}, Nested comma →
    Nested (memberTokens comma members)
  | [], _, _ => Nested.nil
  | (key, element) :: rest, _, hcomma =>
    have hkey : Nested [.text key, .mark 58] := (Nested.flat rfl).append (Nested.flat rfl)
    hcomma.append (hkey.append ((nested_tokens element).append (nested_members rest (Nested.flat rfl))))

end

/-- No array or object ends with the whole of another, unless it is that. -/
theorem not_ends_with {other : Json} {before : List Token} (hbounds : tree.bounds = some (first, last))
    (hbefore : before ≠ []) : tree.tokens ≠ before ++ other.tokens := by
  intro h
  have hclosed := (nested_tokens other).closed
  have hother : other.tokens ≠ [] := by cases other <;> simp [Json.tokens]
  have hlt : levels other.tokens < 0 := by
    cases tree with
    | scalar units => cases hbounds
    | text units => cases hbounds
    | array elements => exact (nested_elements elements Nested.nil).lt_of_bracketed rfl h hbefore hother
    | object members => exact (nested_members members Nested.nil).lt_of_bracketed rfl h hbefore hother
  omega

end FragmentMemory.JsonText
