import Mathlib.Algebra.GroupWithZero.Nat
import Mathlib.Data.List.Infix

/-! # JavaScript string operations used by the server -/
namespace FragmentMemory.JsString

/-- The characters that `trim` removes and `\s` matches. -/
def isSpace (c : Char) : Bool :=
  let n := c.toNat
  (9 ≤ n && n ≤ 13) || n = 32 || n = 0xA0 || n = 0x1680 || (0x2000 ≤ n && n ≤ 0x200A) ||
    n = 0x2028 || n = 0x2029 || n = 0x202F || n = 0x205F || n = 0x3000 || n = 0xFEFF

def trim (text : String) : String :=
  String.ofList ((text.toList.dropWhile isSpace).reverse.dropWhile isSpace).reverse

/-- `value || null` on a string that may be missing: the empty string is falsy. -/
def truthy (value : Option String) : Option String := value.filter (· ≠ "")

theorem truthy_truthy (value : Option String) : truthy (truthy value) = truthy value := by
  simp only [truthy, Option.filter_filter, Bool.and_self]

/-- Whether the text starts with a lower-case pattern up to letter case. -/
def startsWithIgnoreCase (text lowered : String) : Bool :=
  (text.toList.take lowered.toList.length).map Char.toLower = lowered.toList

/-- `length`: the number of UTF-16 code units. -/
def utf16Length (text : String) : ℕ :=
  (text.toList.map fun c => if c.toNat < 0x10000 then 1 else 2).sum

/-- The first code units of a text, a split surrogate pair encoded as U+FFFD. -/
def clipChars : ℕ → List Char → List Char
  | 0, _ => []
  | _ + 1, [] => []
  | units + 1, c :: rest =>
    if c.toNat < 0x10000 then c :: clipChars units rest
    else match units with
      | 0 => [Char.ofNat 0xFFFD]
      | left + 1 => c :: clipChars left rest

/-- `substring(0, units)`. -/
def clip (text : String) (units : ℕ) : String := String.ofList (clipChars units text.toList)

/-- `split(/\s+/).filter(Boolean)`. -/
def words (text : String) : List String :=
  ((text.toList.splitOnP isSpace).filter fun word => !word.isEmpty).map String.ofList

theorem truthy_eq_some {value : Option String} {text : String} (h : truthy value = some text) :
    value = some text :=
  (Option.filter_eq_some_iff.mp h).1

theorem utf16Length_append (front back : String) :
    utf16Length (front ++ back) = utf16Length front + utf16Length back := by
  rw [utf16Length, String.toList_append, List.map_append, List.sum_append]
  rfl

theorem sum_clipChars (units : ℕ) (text : List Char)
    (h : units ≤ (text.map fun c => if c.toNat < 0x10000 then 1 else 2).sum) :
    ((clipChars units text).map fun c => if c.toNat < 0x10000 then 1 else 2).sum = units := by
  induction units, text using clipChars.induct with
  | case1 => rfl
  | case2 => exact absurd h (by simp)
  | case3 units c rest hbasic ih =>
    rw [List.map_cons, List.sum_cons, if_pos hbasic] at h
    have hstep : clipChars (units + 1) (c :: rest) = c :: clipChars units rest := by
      rw [clipChars.eq_def]
      simp only [hbasic, if_true]
    rw [hstep, List.map_cons, List.sum_cons, if_pos hbasic, ih (by omega), Nat.add_comm]
  | case4 c rest hpair =>
    rw [clipChars, if_neg hpair]
    rfl
  | case5 c rest hpair units ih =>
    rw [List.map_cons, List.sum_cons, if_neg hpair] at h
    rw [clipChars, if_neg hpair]
    rw [List.map_cons, List.sum_cons, if_neg hpair, ih (by omega)]
    omega

/-- A text cut down to a length it has. -/
theorem utf16Length_clip {text : String} {units : ℕ} (h : units ≤ utf16Length text) :
    utf16Length (clip text units) = units := by
  rw [utf16Length, clip, String.toList_ofList]
  exact sum_clipChars units text.toList h

end FragmentMemory.JsString
