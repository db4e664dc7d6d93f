import FragmentMemory.JsString
import Mathlib.Data.List.TakeWhile

/-! # Texts without spaces at their ends

What `trim` leaves, and the lengths of clipped texts.
-/
namespace FragmentMemory.JsString

/-- Neither end of the text is a space. -/
structure Trimmed (text : List Char) : Prop where
  first : ∀ c ∈ text.head?, isSpace c = false
  last : ∀ c ∈ text.getLast?, isSpace c = false

theorem dropWhile_eq_self {text : List Char} (h : ∀ c ∈ text.head?, isSpace c = false) :
    text.dropWhile isSpace = text := by
  cases text with
  | nil => rfl
  | cons c rest => rw [List.dropWhile_cons, h c rfl]; rfl

theorem head?_dropWhile_isSpace (text : List Char) : ∀ c ∈ (text.dropWhile isSpace).head?, isSpace c = false := by
  intro c hc
  have hstop := List.head?_dropWhile_not isSpace text
  rw [Option.mem_def.mp hc] at hstop
  simpa using hstop

theorem trim_of_trimmed {text : String} (h : Trimmed text.toList) : trim text = text := by
  have hlast : ∀ c ∈ text.toList.reverse.head?, isSpace c = false := by
    rw [List.head?_reverse]
    exact h.last
  rw [trim, dropWhile_eq_self h.first, dropWhile_eq_self hlast, List.reverse_reverse, String.ofList_toList]

theorem trimmed_trim (text : String) : Trimmed (trim text).toList := by
  rw [trim, String.toList_ofList]
  constructor
  · have hfirst := head?_dropWhile_isSpace text.toList
    generalize text.toList.dropWhile isSpace = front at hfirst
    obtain ⟨dropped, hdropped⟩ := List.dropWhile_suffix (l := front.reverse) isSpace
    generalize front.reverse.dropWhile isSpace = kept at hdropped
    have hfront : front = kept.reverse ++ dropped.reverse := by
      rw [← List.reverse_append, hdropped, List.reverse_reverse]
    intro c hc
    apply hfirst c
    rw [hfront, List.head?_append, Option.mem_def.mp hc]
    rfl
  · rw [List.getLast?_reverse]
    exact head?_dropWhile_isSpace _

/-- The code units of a text. -/
def unitCount (text : List Char) : ℕ := (text.map fun c => if c.toNat < 0x10000 then 1 else 2).sum

theorem utf16Length_eq (text : String) : utf16Length text = unitCount text.toList := rfl

theorem unitCount_append (front back : List Char) : unitCount (front ++ back) = unitCount front + unitCount back := by
  rw [unitCount, List.map_append, List.sum_append]
  rfl

theorem length_le_unitCount (text : List Char) : text.length ≤ unitCount text := by
  induction text with
  | nil => rfl
  | cons c rest ih =>
    rw [← List.singleton_append, unitCount_append, List.length_append]
    have hone : 1 ≤ unitCount [c] := by
      simp only [unitCount, List.map_singleton, List.sum_singleton]
      split <;> omega
    rw [List.length_singleton]
    omega

theorem clipChars_zero (text : List Char) : clipChars 0 text = [] := by rw [clipChars]

/-- A clip begins with any text that is not longer. -/
theorem clipChars_append (front back : List Char) (units : ℕ) :
    clipChars (unitCount front + units) (front ++ back) = front ++ clipChars units back := by
  induction front with
  | nil => rw [unitCount, List.map_nil, List.sum_nil, Nat.zero_add, List.nil_append, List.nil_append]
  | cons c front ih =>
    have hcount : unitCount (c :: front) = (if c.toNat < 0x10000 then 1 else 2) + unitCount front := by
      rw [unitCount, List.map_cons, List.sum_cons, unitCount]
    rw [hcount]
    by_cases hbasic : c.toNat < 0x10000
    · have hunits : (if c.toNat < 0x10000 then 1 else 2) + unitCount front + units = unitCount front + units + 1 := by
        rw [if_pos hbasic]
        omega
      rw [hunits, List.cons_append, clipChars.eq_def]
      simp only [hbasic, if_true]
      rw [ih]
      rfl
    · have hunits : (if c.toNat < 0x10000 then 1 else 2) + unitCount front + units = unitCount front + units + 2 := by
        rw [if_neg hbasic]
        omega
      rw [hunits, List.cons_append, clipChars.eq_def]
      simp only [hbasic, if_false]
      rw [ih]
      rfl

theorem clipChars_self (front back : List Char) : clipChars (unitCount front) (front ++ back) = front := by
  have hclip := clipChars_append front back 0
  rwa [Nat.add_zero, clipChars_zero, List.append_nil] at hclip

/-- A clip is a front of the text, or it ends in the replacement of a split pair. -/
theorem clipChars_cases (units : ℕ) (text : List Char) :
    clipChars units text <+: text ∨
      ∃ front c rest, text = front ++ c :: rest ∧ 0x10000 ≤ c.toNat ∧
        clipChars units text = front ++ [Char.ofNat 0xFFFD] := by
  induction units, text using clipChars.induct with
  | case1 => exact Or.inl (by rw [clipChars_zero]; exact List.nil_prefix)
  | case2 => exact Or.inl (by rw [clipChars])
  | case3 units c rest hbasic ih =>
    have hstep : clipChars (units + 1) (c :: rest) = c :: clipChars units rest := by
      rw [clipChars.eq_def]
      simp only [hbasic, if_true]
    rw [hstep]
    rcases ih with hfront | ⟨front, other, later, rfl, hother, hclip⟩
    · exact Or.inl (List.cons_prefix_cons.mpr ⟨rfl, hfront⟩)
    · exact Or.inr ⟨c :: front, other, later, rfl, hother, by rw [hclip]; rfl⟩
  | case4 c rest hpair => exact Or.inr ⟨[], c, rest, rfl, by omega, by rw [clipChars, if_neg hpair]; rfl⟩
  | case5 c rest hpair units ih =>
    have hstep : clipChars (units + 1 + 1) (c :: rest) = c :: clipChars units rest := by
      rw [clipChars, if_neg hpair]
    rw [hstep]
    rcases ih with hfront | ⟨front, other, later, rfl, hother, hclip⟩
    · exact Or.inl (List.cons_prefix_cons.mpr ⟨rfl, hfront⟩)
    · exact Or.inr ⟨c :: front, other, later, rfl, hother, by rw [hclip]; rfl⟩

end FragmentMemory.JsString
