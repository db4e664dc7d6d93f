import FragmentMemory.TrimmedText

/-! # Code units of a text

Indices and lengths of JavaScript strings count UTF-16 code units.  A cut that does not follow a high
surrogate is a cut between two characters.
-/
namespace FragmentMemory.CodeUnits
open JsString

/-- A character below U+10000 is one unit, any other a surrogate pair. -/
def encodeChar (c : Char) : List ℕ :=
  if c.toNat < 0x10000 then [c.toNat]
  else [0xD800 + (c.toNat - 0x10000) / 0x400, 0xDC00 + (c.toNat - 0x10000) % 0x400]

def codeUnits (text : List Char) : List ℕ := text.flatMap encodeChar

def isHigh (unit : ℕ) : Bool := 0xD800 ≤ unit && unit ≤ 0xDBFF

def isLow (unit : ℕ) : Bool := 0xDC00 ≤ unit && unit ≤ 0xDFFF

/-- One unit as a character; a surrogate on its own is shown as U+FFFD. -/
def decodeUnit (unit : ℕ) : Char := if isHigh unit || isLow unit then Char.ofNat 0xFFFD else Char.ofNat unit

def decode : List ℕ → List Char
  | [] => []
  | [unit] => [decodeUnit unit]
  | high :: low :: rest =>
    if isHigh high && isLow low then Char.ofNat (0x10000 + (high - 0xD800) * 0x400 + (low - 0xDC00)) :: decode rest
    else decodeUnit high :: decode (low :: rest)

/-- `\s`, and what `trim` removes. -/
def isSpaceUnit (unit : ℕ) : Bool :=
  (9 ≤ unit && unit ≤ 13) || unit = 32 || unit = 0xA0 || unit = 0x1680 || (0x2000 ≤ unit && unit ≤ 0x200A) ||
    unit = 0x2028 || unit = 0x2029 || unit = 0x202F || unit = 0x205F || unit = 0x3000 || unit = 0xFEFF

/-- `trim`. -/
def trimUnits (units : List ℕ) : List ℕ := ((units.dropWhile isSpaceUnit).reverse.dropWhile isSpaceUnit).reverse

/-! ## Encoding -/

@[simp] theorem codeUnits_nil : codeUnits [] = [] := rfl

theorem codeUnits_cons (c : Char) (rest : List Char) : codeUnits (c :: rest) = encodeChar c ++ codeUnits rest :=
  List.flatMap_cons

theorem codeUnits_append (front back : List Char) : codeUnits (front ++ back) = codeUnits front ++ codeUnits back :=
  List.flatMap_append

theorem encodeChar_basic {c : Char} (h : c.toNat < 0x10000) : encodeChar c = [c.toNat] := if_pos h

theorem encodeChar_pair {c : Char} (h : ¬ c.toNat < 0x10000) :
    encodeChar c = [0xD800 + (c.toNat - 0x10000) / 0x400, 0xDC00 + (c.toNat - 0x10000) % 0x400] := if_neg h

theorem toNat_lt (c : Char) : c.toNat < 0x110000 := by
  rcases c.valid with h | h
  · have hlt : c.toNat < 0xD800 := h
    omega
  · exact h.2

theorem not_surrogate (c : Char) : c.toNat < 0xD800 ∨ 0xDFFF < c.toNat := by
  rcases c.valid with h | h
  · exact Or.inl h
  · exact Or.inr h.1

theorem length_codeUnits (text : List Char) : (codeUnits text).length = unitCount text := by
  induction text with
  | nil => rfl
  | cons c rest ih =>
    have hcount : unitCount (c :: rest) = (if c.toNat < 0x10000 then 1 else 2) + unitCount rest := by
      rw [unitCount, List.map_cons, List.sum_cons, unitCount]
    rw [codeUnits_cons, List.length_append, ih, hcount]
    by_cases h : c.toNat < 0x10000
    · rw [encodeChar_basic h, if_pos h, List.length_singleton]
    · rw [encodeChar_pair h, if_neg h]
      rfl

theorem decode_codeUnits (text : List Char) : decode (codeUnits text) = text := by
  induction text with
  | nil => rfl
  | cons c rest ih =>
    rw [codeUnits_cons]
    by_cases h : c.toNat < 0x10000
    · have hplain : ∀ units, decode (c.toNat :: units) = c :: decode units := by
        have hnone : (isHigh c.toNat || isLow c.toNat) = false := by
          have hvalid := not_surrogate c
          simp only [isHigh, isLow, Bool.or_eq_false_iff, Bool.and_eq_false_iff, decide_eq_false_iff_not]
          omega
        have hunit : decodeUnit c.toNat = c := by
          rw [decodeUnit, hnone, if_neg Bool.false_ne_true, Char.ofNat_toNat]
        intro units
        cases units with
        | nil => exact congrArg (fun d => [d]) hunit
        | cons low units =>
          rw [Bool.or_eq_false_iff] at hnone
          rw [decode, hnone.1, Bool.false_and, if_neg Bool.false_ne_true, hunit]
      rw [encodeChar_basic h, List.singleton_append, hplain, ih]
    · have hlast := toNat_lt c
      have hpair :
        (isHigh (0xD800 + (c.toNat - 0x10000) / 0x400) && isLow (0xDC00 + (c.toNat - 0x10000) % 0x400)) = true := by
        simp only [isHigh, isLow, Bool.and_eq_true, decide_eq_true_eq]
        omega
      have hnumber : 0x10000 + (0xD800 + (c.toNat - 0x10000) / 0x400 - 0xD800) * 0x400 +
          (0xDC00 + (c.toNat - 0x10000) % 0x400 - 0xDC00) = c.toNat := by omega
      rw [encodeChar_pair h, List.cons_append, List.singleton_append, decode, if_pos hpair, hnumber, Char.ofNat_toNat,
        ih]

/-! ## Cuts between characters -/

theorem unitCount_cons (c : Char) (rest : List Char) :
    unitCount (c :: rest) = (if c.toNat < 0x10000 then 1 else 2) + unitCount rest := by
  rw [unitCount, List.map_cons, List.sum_cons, unitCount]

/-- The number of units before a cut, moved before a high surrogate that it follows. -/
def beforePair (units : List ℕ) (count : ℕ) : ℕ := if (units[count - 1]?).any isHigh then count - 1 else count

theorem isHigh_basic (c : Char) : isHigh c.toNat = false := by
  have hvalid := not_surrogate c
  simp only [isHigh, Bool.and_eq_false_iff, decide_eq_false_iff_not]
  omega

theorem isHigh_first (offset : ℕ) (h : offset < 0x100000) : isHigh (0xD800 + offset / 0x400) = true := by
  simp only [isHigh, Bool.and_eq_true, decide_eq_true_eq]
  omega

theorem isHigh_second (offset : ℕ) : isHigh (0xDC00 + offset % 0x400) = false := by
  simp only [isHigh, Bool.and_eq_false_iff, decide_eq_false_iff_not]
  omega

theorem unitCount_basic {c : Char} (h : c.toNat < 0x10000) (rest : List Char) :
    unitCount (c :: rest) = unitCount rest + 1 := by
  rw [unitCount_cons, if_pos h, Nat.add_comm]

theorem unitCount_pair {c : Char} (h : ¬ c.toNat < 0x10000) (rest : List Char) :
    unitCount (c :: rest) = unitCount rest + 2 := by
  rw [unitCount_cons, if_neg h, Nat.add_comm]

theorem beforePair_zero (units : List ℕ) : beforePair units 0 = 0 := by
  rw [beforePair]
  split
  · rfl
  · rfl

/-- A cut behind the first unit looks at that unit. -/
theorem beforePair_one (unit : ℕ) (units : List ℕ) : beforePair (unit :: units) 1 = if isHigh unit then 0 else 1 := by
  rw [beforePair, Nat.sub_self, List.getElem?_cons_zero, Option.any_some]

/-- A cut further on does not. -/
theorem beforePair_cons (unit : ℕ) (units : List ℕ) (count : ℕ) :
    beforePair (unit :: units) (count + 2) = beforePair units (count + 1) + 1 := by
  rw [beforePair, beforePair, Nat.add_sub_cancel, show count + 2 - 1 = count + 1 from rfl, List.getElem?_cons_succ]
  split
  · rfl
  · rfl

/-- A cut that follows no high surrogate is a cut between two characters. -/
theorem cut_between {text : List Char} {count : ℕ} (hcount : count ≤ unitCount text) :
    ∃ front back, text = front ++ back ∧ unitCount front = beforePair (codeUnits text) count := by
  have hzero : unitCount [] = 0 := rfl
  induction text generalizing count with
  | nil =>
    have hnone : count = 0 := by omega
    exact ⟨[], [], rfl, by rw [hnone, beforePair_zero, hzero]⟩
  | cons c rest ih =>
    by_cases hnone : count = 0
    · exact ⟨[], c :: rest, rfl, by rw [hnone, beforePair_zero, hzero]⟩
    · rw [codeUnits_cons]
      by_cases hbasic : c.toNat < 0x10000
      · rw [unitCount_basic hbasic] at hcount
        rw [encodeChar_basic hbasic, List.singleton_append]
        obtain ⟨before, hbefore⟩ : ∃ before, count = before + 1 := ⟨count - 1, by omega⟩
        cases before with
        | zero =>
          refine ⟨[c], rest, rfl, ?_⟩
          rw [hbefore, unitCount_basic hbasic, hzero, beforePair_one, isHigh_basic, if_neg Bool.false_ne_true]
        | succ before =>
          obtain ⟨front, back, hrest, hfront⟩ := @ih (before + 1) (by omega)
          refine ⟨c :: front, back, by rw [hrest, List.cons_append], ?_⟩
          rw [hbefore, unitCount_basic hbasic, hfront, beforePair_cons]
      · have hlast := toNat_lt c
        rw [unitCount_pair hbasic] at hcount
        rw [encodeChar_pair hbasic, List.cons_append, List.singleton_append]
        obtain ⟨before, hbefore⟩ : ∃ before, count = before + 1 := ⟨count - 1, by omega⟩
        cases before with
        | zero =>
          refine ⟨[], c :: rest, rfl, ?_⟩
          rw [hbefore, beforePair_one, isHigh_first _ (by omega), if_pos rfl, hzero]
        | succ before =>
          cases before with
          | zero =>
            refine ⟨[c], rest, rfl, ?_⟩
            rw [hbefore, unitCount_pair hbasic, hzero, beforePair_cons, beforePair_one, isHigh_second,
              if_neg Bool.false_ne_true]
          | succ before =>
            obtain ⟨front, back, hrest, hfront⟩ := @ih (before + 1) (by omega)
            refine ⟨c :: front, back, by rw [hrest, List.cons_append], ?_⟩
            rw [hbefore, unitCount_pair hbasic, hfront, beforePair_cons, beforePair_cons]

/-- Where the units have a space the text has one. -/
theorem space_at {text : List Char} {index : ℕ} (h : (codeUnits text)[index]? = some 32) :
    ∃ front back, text = front ++ ' ' :: back ∧ unitCount front = index := by
  induction text generalizing index with
  | nil => cases h
  | cons c rest ih =>
    rw [codeUnits_cons] at h
    by_cases hbasic : c.toNat < 0x10000
    · rw [encodeChar_basic hbasic, List.singleton_append] at h
      cases index with
      | zero =>
        rw [List.getElem?_cons_zero, Option.some.injEq] at h
        have hspace : c = ' ' := Char.toNat_inj.mp h
        subst hspace
        exact ⟨[], rest, rfl, rfl⟩
      | succ index =>
        rw [List.getElem?_cons_succ] at h
        obtain ⟨front, back, rfl, hfront⟩ := ih h
        refine ⟨c :: front, back, rfl, ?_⟩
        rw [unitCount_cons, if_pos hbasic, hfront, Nat.add_comm]
    · rw [encodeChar_pair hbasic, List.cons_append, List.singleton_append] at h
      cases index with
      | zero =>
        rw [List.getElem?_cons_zero, Option.some.injEq] at h
        omega
      | succ index =>
        cases index with
        | zero =>
          rw [List.getElem?_cons_succ, List.getElem?_cons_zero, Option.some.injEq] at h
          omega
        | succ index =>
          rw [List.getElem?_cons_succ, List.getElem?_cons_succ] at h
          obtain ⟨front, back, rfl, hfront⟩ := ih h
          refine ⟨c :: front, back, rfl, ?_⟩
          rw [unitCount_cons, if_neg hbasic, hfront, Nat.add_comm]

theorem take_codeUnits (front back : List Char) :
    (codeUnits (front ++ back)).take (unitCount front) = codeUnits front := by
  rw [codeUnits_append, ← length_codeUnits, List.take_left]

theorem drop_codeUnits (front back : List Char) :
    (codeUnits (front ++ back)).drop (unitCount front) = codeUnits back := by
  rw [codeUnits_append, ← length_codeUnits, List.drop_left]

/-! ## The ends of a text -/

/-- The first and the last unit of a character are spaces where the character is, and the last is no high
surrogate. -/
theorem encodeChar_ends (c : Char) : ∃ first last, (encodeChar c).head? = some first ∧
    (encodeChar c).getLast? = some last ∧
    isSpaceUnit first = isSpace c ∧ isSpaceUnit last = isSpace c ∧ isHigh last = false := by
  by_cases hbasic : c.toNat < 0x10000
  · rw [encodeChar_basic hbasic]
    exact ⟨c.toNat, c.toNat, rfl, rfl, rfl, rfl, isHigh_basic c⟩
  · have hlast := toNat_lt c
    have hspace : isSpace c = false := by
      simp only [isSpace, Bool.or_eq_false_iff, Bool.and_eq_false_iff, decide_eq_false_iff_not]
      omega
    have hfirst : isSpaceUnit (0xD800 + (c.toNat - 0x10000) / 0x400) = false := by
      simp only [isSpaceUnit, Bool.or_eq_false_iff, Bool.and_eq_false_iff, decide_eq_false_iff_not]
      omega
    have hsecond : isSpaceUnit (0xDC00 + (c.toNat - 0x10000) % 0x400) = false := by
      simp only [isSpaceUnit, Bool.or_eq_false_iff, Bool.and_eq_false_iff, decide_eq_false_iff_not]
      omega
    rw [encodeChar_pair hbasic, hspace]
    exact ⟨_, _, rfl, rfl, hfirst, hsecond, isHigh_second _⟩

theorem encodeChar_ne_nil (c : Char) : encodeChar c ≠ [] := by
  obtain ⟨first, -, hfirst, -⟩ := encodeChar_ends c
  intro hnil
  rw [hnil] at hfirst
  cases hfirst

theorem head?_codeUnits {text : List Char} :
    ∀ unit ∈ (codeUnits text).head?, ∃ c ∈ text.head?, isSpaceUnit unit = isSpace c := by
  intro unit hunit
  cases text with
  | nil => cases hunit
  | cons c rest =>
    obtain ⟨first, -, hfirst, -, hspace, -⟩ := encodeChar_ends c
    rw [codeUnits_cons, List.head?_append, hfirst] at hunit
    refine ⟨c, rfl, ?_⟩
    rw [← hspace, Option.some.inj hunit]

theorem getLast?_codeUnits {text : List Char} :
    ∀ unit ∈ (codeUnits text).getLast?, isHigh unit = false ∧ ∃ c ∈ text.getLast?, isSpaceUnit unit = isSpace c := by
  intro unit hunit
  rcases List.eq_nil_or_concat' text with rfl | ⟨front, c, rfl⟩
  · cases hunit
  · obtain ⟨-, last, -, hlast, -, hspace, hhigh⟩ := encodeChar_ends c
    rw [codeUnits_append, codeUnits_cons, codeUnits_nil, List.append_nil,
      List.getLast?_append_of_ne_nil _ (encodeChar_ne_nil c),
      hlast] at hunit
    rw [← Option.some.inj hunit]
    exact ⟨hhigh, c, List.getLast?_concat, hspace⟩

theorem codeUnits_ne_nil {text : List Char} (h : text ≠ []) : codeUnits text ≠ [] := by
  obtain ⟨c, rest, rfl⟩ := List.exists_cons_of_ne_nil h
  rw [codeUnits_cons]
  exact List.append_ne_nil_of_left_ne_nil (encodeChar_ne_nil c) _

/-- The unit before a cut between characters is the last one of the text before it. -/
theorem unit_before {front : List Char} (h : front ≠ []) (units : List ℕ) :
    (codeUnits front ++ units)[unitCount front - 1]? = (codeUnits front).getLast? := by
  have hlength := List.length_pos_iff.mpr (codeUnits_ne_nil h)
  rw [← length_codeUnits, List.getElem?_append_left (by omega), ← List.getLast?_eq_getElem?]

/-- A cut at the end of a text is one between characters. -/
theorem beforePair_end (front : List Char) (units : List ℕ) :
    beforePair (codeUnits front ++ units) (unitCount front) = unitCount front := by
  by_cases hempty : front = []
  · rw [hempty]
    exact beforePair_zero _
  · have hlast := List.getLast?_eq_some_getLast (codeUnits_ne_nil hempty)
    rw [beforePair, unit_before hempty, hlast, Option.any_some, (getLast?_codeUnits _ hlast).1,
      if_neg Bool.false_ne_true]

/-! ## Trimming -/

theorem dropWhile_eq_self_of_head? {units : List ℕ} (h : ∀ unit ∈ units.head?, isSpaceUnit unit = false) :
    units.dropWhile isSpaceUnit = units := by
  cases units with
  | nil => rfl
  | cons unit rest => rw [List.dropWhile_cons, h unit rfl, if_neg Bool.false_ne_true]

theorem trimUnits_cons (units : List ℕ) : trimUnits (32 :: units) = trimUnits units := rfl

theorem trimUnits_concat {units : List ℕ} (h : ∀ unit ∈ units.head?, isSpaceUnit unit = false) :
    trimUnits (units ++ [32]) = trimUnits units := by
  cases units with
  | nil => rfl
  | cons unit rest =>
    have hspace : isSpaceUnit unit = false := h unit rfl
    rw [trimUnits, trimUnits, List.cons_append, List.dropWhile_cons, List.dropWhile_cons, hspace,
      if_neg Bool.false_ne_true,
      if_neg Bool.false_ne_true, ← List.cons_append, List.reverse_append]
    rfl

theorem trimUnits_eq_self {units : List ℕ} (hfirst : ∀ unit ∈ units.head?, isSpaceUnit unit = false)
    (hlast : ∀ unit ∈ units.getLast?, isSpaceUnit unit = false) : trimUnits units = units := by
  have hreverse : ∀ unit ∈ units.reverse.head?, isSpaceUnit unit = false := by
    rw [List.head?_reverse]
    exact hlast
  rw [trimUnits, dropWhile_eq_self_of_head? hfirst, dropWhile_eq_self_of_head? hreverse, List.reverse_reverse]

theorem head?_codeUnits_of_trimmed {text : List Char} (h : Trimmed text) :
    ∀ unit ∈ (codeUnits text).head?, isSpaceUnit unit = false := by
  intro unit hunit
  obtain ⟨c, hc, hspace⟩ := head?_codeUnits unit hunit
  rw [hspace, h.first c hc]

theorem trimUnits_codeUnits {text : List Char} (h : Trimmed text) : trimUnits (codeUnits text) = codeUnits text := by
  apply trimUnits_eq_self (head?_codeUnits_of_trimmed h)
  intro unit hunit
  obtain ⟨-, c, hc, hspace⟩ := getLast?_codeUnits unit hunit
  rw [hspace, h.last c hc]

theorem codeUnits_space (text : List Char) : codeUnits (' ' :: text) = 32 :: codeUnits text := rfl

theorem trimUnits_space_before {text : List Char} (h : Trimmed text) :
    trimUnits (codeUnits (' ' :: text)) = codeUnits text := by
  rw [codeUnits_space, trimUnits_cons, trimUnits_codeUnits h]

theorem trimUnits_space_behind {text : List Char} (h : Trimmed text) :
    trimUnits (codeUnits (text ++ [' '])) = codeUnits text := by
  rw [codeUnits_append, codeUnits_space, codeUnits_nil, trimUnits_concat (head?_codeUnits_of_trimmed h),
    trimUnits_codeUnits h]

end FragmentMemory.CodeUnits
