import FragmentMemory.JoinedParts
import FragmentMemory.SingleSpaces

/-! # The pieces of a text

The sentences of a text with single spaces and the pieces of a long sentence put the text together, with a blank
or nothing between them; where there is nothing the two neighbours are too long for one fragment.
-/
namespace FragmentMemory.SplitPieces
open FragmentFactory ReflectProcessor SentenceSplit SingleSpaces CodeUnits JoinedParts JsString

/-- A text that starts and ends in characters that are no spaces. -/
structure Filled (part : List Char) : Prop where
  filled : part ≠ []
  trimmed : Trimmed part

def BlankGap (_part between _next : List Char) : Prop := between = [' ']

/-- Two neighbours without a blank between them are too long for one fragment. -/
def PieceGap (part between next : List Char) : Prop :=
  between = [' '] ∨ between = [] ∧ maxFragmentLength < unitCount part + 1 + unitCount next

/-! ## Sentences -/

/-- The first part of a text and the others, which a blank keeps apart. -/
structure SentenceParts (text first : List Char) (later : List (List Char)) : Prop where
  start : ∀ c ∈ text.head?, isSpace c = false → first.head? = some c
  last : ∀ c ∈ first.getLast?, isSpace c = false
  parts : ∀ part ∈ later, Filled part
  joined : JoinsBy BlankGap (first :: later) text

/-- By induction on the text; behind a match there is no space. -/
theorem splitAfterEnds_spec {text : List Char} (hsingle : SingleSpaced text)
    (hlast : ∀ c ∈ text.getLast?, isSpace c = false)
    (skipping : Bool) (previous : Option Char) (hskip : skipping = true → ∀ c ∈ text.head?, isSpace c = false) :
    ∃ first later, splitAfterEnds skipping previous text = first :: later ∧ SentenceParts text first later := by
  induction text generalizing skipping previous with
  | nil =>
    refine ⟨[], [], by rw [splitAfterEnds], ?_, ?_, ?_, .single []⟩
    · exact fun c hc => absurd hc (Option.not_mem_none c)
    · exact fun c hc => absurd hc (Option.not_mem_none c)
    · exact fun part hpart => absurd hpart List.not_mem_nil
  | cons c rest ih =>
    have hsingle' := hsingle.part (List.suffix_cons c rest).isInfix
    have hlast' : ∀ d ∈ rest.getLast?, isSpace d = false := by
      intro d hd
      apply hlast d
      rw [← List.singleton_append, List.getLast?_append_of_ne_nil _ (fun hnil => by rw [hnil] at hd; cases hd)]
      exact hd
    have hnext : isSpace c = true → c = ' ' ∧ ∃ d, d ∈ rest.head? ∧ isSpace d = false := by
      intro hspace
      refine ⟨hsingle.blank c List.mem_cons_self hspace, ?_⟩
      cases rest with
      | nil =>
        have hend := hlast c rfl
        rw [hspace] at hend
        cases hend
      | cons d later => exact ⟨d, rfl, (List.isChain_cons.mp hsingle.single).1 d rfl hspace⟩
    rw [splitAfterEnds]
    have hnoskip : (skipping && isSpace c) = false := by
      cases skipping with
      | false => rfl
      | true => rw [hskip rfl c rfl, Bool.and_false]
    rw [hnoskip, if_neg Bool.false_ne_true]
    by_cases hcut : (previous.any endsSentence && isSpace c) = true
    · rw [if_pos hcut]
      obtain ⟨hblank, d, hd, hdspace⟩ := hnext (Bool.and_eq_true_iff.mp hcut).2
      have hfront : ∀ e ∈ rest.head?, isSpace e = false := by
        intro e he
        rw [Option.mem_def.mp hd] at he
        rw [← Option.some.inj he]
        exact hdspace
      obtain ⟨first, later, hparts, hspec⟩ := ih hsingle' hlast' true (some c) (fun _ => hfront)
      have hfirst := hspec.start d hd hdspace
      have hfilled : Filled first := by
        refine ⟨List.ne_nil_of_mem (List.mem_of_mem_head? hfirst), ?_, hspec.last⟩
        intro e he
        rw [hfirst] at he
        rw [← Option.some.inj he]
        exact hdspace
      refine ⟨[], first :: later, by rw [hparts], ?_, ?_, ?_, ?_⟩
      · intro e he hspace
        rw [← Option.some.inj he, (Bool.and_eq_true_iff.mp hcut).2] at hspace
        cases hspace
      · exact fun c hc => absurd hc (Option.not_mem_none c)
      · intro part hpart
        rcases List.mem_cons.mp hpart with rfl | hlater
        · exact hfilled
        · exact hspec.parts part hlater
      · rw [hblank]
        exact .cons rfl hspec.joined
    · rw [if_neg hcut]
      obtain ⟨first, later, hparts, hspec⟩ := ih hsingle' hlast' false (some c) (fun habsurd => absurd habsurd Bool.false_ne_true)
      rw [hparts]
      refine ⟨c :: first, later, rfl, ?_, ?_, hspec.parts, ?_⟩
      · exact fun d hd _ => hd
      · intro d hd
        by_cases hnone : first = []
        · rw [hnone] at hd
          rw [← Option.some.inj hd]
          by_contra hspace
          obtain ⟨-, e, he, hespace⟩ := hnext (Bool.not_eq_false _ ▸ hspace)
          have hstart := hspec.start e he hespace
          rw [hnone] at hstart
          cases hstart
        · rw [← List.singleton_append, List.getLast?_append_of_ne_nil _ hnone] at hd
          exact hspec.last d hd
      · exact @JoinsBy.append_left _ BlankGap rest first [c] later (fun _ _ hgap => hgap) hspec.joined

theorem trim_ofList {part : List Char} (h : Trimmed part) : trim (String.ofList part) = String.ofList part := by
  apply trim_of_trimmed
  rwa [String.toList_ofList]

/-- The sentences of a text, with a blank between neighbours. -/
theorem splitSentences_spec {text : String} (hsingle : SingleSpaced text.toList) (htrimmed : Trimmed text.toList) :
    ∃ parts, splitSentences text = parts.map String.ofList ∧ JoinsBy BlankGap parts text.toList ∧
    ∀ part ∈ parts, Filled part := by
  by_cases hempty : text.toList = []
  · refine ⟨[], ?_, by rw [hempty]; exact .nil, fun part hpart => absurd hpart List.not_mem_nil⟩
    rw [splitSentences, hempty]
    decide
  · obtain ⟨first, later, hparts, hspec⟩ :=
      splitAfterEnds_spec hsingle htrimmed.last false none (fun habsurd => absurd habsurd Bool.false_ne_true)
    obtain ⟨c, rest, htext⟩ := List.exists_cons_of_ne_nil hempty
    have hhead : c ∈ text.toList.head? := by
      rw [htext]
      rfl
    have hfirst := hspec.start c hhead (htrimmed.first c hhead)
    have hfilled : ∀ part ∈ first :: later, Filled part := by
      intro part hpart
      rcases List.mem_cons.mp hpart with rfl | hlater
      · refine ⟨List.ne_nil_of_mem (List.mem_of_mem_head? hfirst), ?_, hspec.last⟩
        intro e he
        rw [hfirst] at he
        rw [← Option.some.inj he]
        exact htrimmed.first c hhead
      · exact hspec.parts part hlater
    refine ⟨first :: later, ?_, hspec.joined, hfilled⟩
    have htrim : (first :: later).map (fun part => trim (String.ofList part)) = (first :: later).map String.ofList :=
      List.map_congr_left fun part hpart => trim_ofList (hfilled part hpart).trimmed
    rw [splitSentences, hparts, htrim, List.filter_eq_self]
    intro sentence hsentence
    obtain ⟨part, hpart, rfl⟩ := List.mem_map.mp hsentence
    rw [decide_eq_true_iff]
    intro hnil
    have hchars := congrArg String.toList hnil
    rw [String.toList_ofList] at hchars
    exact (hfilled part hpart).filled hchars

/-! ## The cut of a long text -/

theorem lastIndexOf_eq_some {units : List ℕ} {unit last index : ℕ} (h : lastIndexOf units unit last = some index) :
    index ≤ last ∧ units[index]? = some unit ∧ ∀ later, index < later → later ≤ last → units[later]? ≠ some unit := by
  induction last with
  | zero =>
    rw [lastIndexOf] at h
    split at h
    · rename_i hunit
      cases h
      exact ⟨le_rfl, hunit, fun later hlater hle => by omega⟩
    · cases h
  | succ last ih =>
    rw [lastIndexOf] at h
    split at h
    · rename_i hunit
      cases h
      exact ⟨le_rfl, hunit, fun later hlater hle => by omega⟩
    · rename_i hunit
      obtain ⟨hle, hfound, hnone⟩ := ih h
      refine ⟨by omega, hfound, ?_⟩
      intro later hlater hlast
      by_cases hend : later = last + 1
      · rwa [hend]
      · exact hnone later hlater (by omega)

theorem lastIndexOf_eq_none {units : List ℕ} {unit last : ℕ} (h : lastIndexOf units unit last = none) :
    ∀ index ≤ last, units[index]? ≠ some unit := by
  induction last with
  | zero =>
    rw [lastIndexOf] at h
    split at h
    · cases h
    · rename_i hunit
      intro index hindex
      rwa [Nat.le_zero.mp hindex]
  | succ last ih =>
    rw [lastIndexOf] at h
    split at h
    · cases h
    · rename_i hunit
      intro index hindex
      by_cases hend : index = last + 1
      · rwa [hend]
      · exact ih h index (by omega)

/-- The boundary is a space in the second half, or the end itself, which is then no space. -/
theorem wordBoundary_cases {units : List ℕ} {last : ℕ} (hlast : maxFragmentLength / 2 ≤ last) :
    (maxFragmentLength / 2 ≤ wordBoundary units last ∧ wordBoundary units last ≤ last ∧
      units[wordBoundary units last]? = some 32) ∨
      wordBoundary units last = last ∧ units[last]? ≠ some 32 := by
  rw [wordBoundary]
  cases hfound : lastIndexOf units 32 last with
  | none => exact Or.inr ⟨rfl, lastIndexOf_eq_none hfound last le_rfl⟩
  | some space =>
    obtain ⟨hle, hunit, hnone⟩ := lastIndexOf_eq_some hfound
    dsimp only
    by_cases hhalf : maxFragmentLength / 2 ≤ space
    · rw [if_pos hhalf]
      exact Or.inl ⟨hhalf, hle, hunit⟩
    · rw [if_neg hhalf]
      exact Or.inr ⟨rfl, hnone last (by omega) le_rfl⟩

/-- Among the units of a text with single spaces only the blank is a space. -/
theorem space_of_unit {text : List Char} (hsingle : SingleSpaced text) {unit : ℕ} (hunit : unit ∈ codeUnits text)
    (hspace : isSpaceUnit unit = true) : unit = 32 := by
  obtain ⟨c, hc, hmem⟩ := List.mem_flatMap.mp hunit
  by_cases hbasic : c.toNat < 0x10000
  · rw [encodeChar_basic hbasic, List.mem_singleton] at hmem
    rw [hmem] at hspace ⊢
    rw [hsingle.blank c hc hspace]
    rfl
  · have hlast := toNat_lt c
    rw [encodeChar_pair hbasic] at hmem
    simp only [isSpaceUnit, Bool.or_eq_true, Bool.and_eq_true, decide_eq_true_eq] at hspace
    simp only [List.mem_cons, List.not_mem_nil, or_false] at hmem
    omega

/-- What stands behind a cut before a character is not trimmed. -/
theorem trimUnits_drop {text : List Char} (htrimmed : Trimmed text) {count unit : ℕ}
    (hunit : (codeUnits text)[count]? = some unit)
    (hspace : isSpaceUnit unit = false) : trimUnits ((codeUnits text).drop count) = (codeUnits text).drop count := by
  apply trimUnits_eq_self
  · intro first hfirst
    rw [List.head?_drop, hunit] at hfirst
    rwa [← Option.some.inj hfirst]
  · intro last hlast
    rw [List.getLast?_drop] at hlast
    split at hlast
    · cases hlast
    · obtain ⟨-, c, hc, hsame⟩ := getLast?_codeUnits last hlast
      rw [hsame, htrimmed.last c hc]

section Cut

variable {text : List Char}

theorem filled_front {front back : List Char} (h : Trimmed (front ++ back)) (hfilled : front ≠ [])
    (hlast : ∀ c ∈ front.getLast?, isSpace c = false) : Filled front := by
  refine ⟨hfilled, ?_, hlast⟩
  intro c hc
  apply h.first c
  rwa [List.head?_append_of_ne_nil _ hfilled]

theorem filled_back {front back : List Char} (h : Trimmed (front ++ back)) (hfilled : back ≠ [])
    (hfirst : ∀ c ∈ back.head?, isSpace c = false) : Filled back := by
  refine ⟨hfilled, hfirst, ?_⟩
  intro c hc
  apply h.last c
  rwa [List.getLast?_append_of_ne_nil _ hfilled]

/-- A blank has text on both sides. -/
theorem filled_beside {front back : List Char} (hsingle : SingleSpaced (front ++ ' ' :: back))
    (htrimmed : Trimmed (front ++ ' ' :: back)) : Filled front ∧ Filled back := by
  obtain ⟨hlast, hfirst⟩ := hsingle.beside
  have hspace : isSpace ' ' ≠ false := by decide
  constructor
  · refine filled_front htrimmed ?_ hlast
    rintro rfl
    exact hspace (htrimmed.first ' ' rfl)
  · have hmoved : front ++ ' ' :: back = (front ++ [' ']) ++ back := by rw [List.append_assoc, List.singleton_append]
    rw [hmoved] at htrimmed
    refine filled_back htrimmed ?_ hfirst
    rintro rfl
    rw [List.append_nil] at htrimmed
    exact hspace (htrimmed.last ' ' List.getLast?_concat)

theorem unitCount_blank (front back : List Char) :
    unitCount (front ++ ' ' :: back) = unitCount front + 1 + unitCount back := by
  have hone : (if ' '.toNat < 0x10000 then 1 else 2) = 1 := by decide
  rw [unitCount_append, unitCount_cons, hone, Nat.add_assoc]

/-- The end that leaves ten units behind it: it is the boundary, or the boundary is the blank before the last nine
units and the end is moved by one. -/
theorem backUp_spec (hsingle : SingleSpaced text) (htrimmed : Trimmed text)
    (hlong : maxFragmentLength < unitCount text) :
    let last :=
      backUp (codeUnits text) (wordBoundary (codeUnits text) (min maxFragmentLength ((codeUnits text).length - 10)))
    last ≤ maxFragmentLength ∧ last < unitCount text ∧
      (maxFragmentLength / 2 ≤ last ∧ (codeUnits text)[last]? = some 32 ∨ 290 ≤ last) := by
  intro last
  have hlength := length_codeUnits text
  have hlimit : maxFragmentLength = 300 := rfl
  have hend : ∀ {count : ℕ}, 0 < count → 10 ≤ (trimUnits ((codeUnits text).drop count)).length →
      backUp (codeUnits text) count = count := by
    intro count hpositive hten
    cases count with
    | zero => omega
    | succ count => rw [backUp, if_neg (by omega)]
  have hword : ∀ {count unit : ℕ}, 0 < count → count + 10 ≤ unitCount text → (codeUnits text)[count]? = some unit →
      isSpaceUnit unit = false → backUp (codeUnits text) count = count := by
    intro count unit hpositive hten hunit hspace
    apply hend hpositive
    rw [trimUnits_drop htrimmed hunit hspace, List.length_drop]
    omega
  rcases @wordBoundary_cases (codeUnits text) (min maxFragmentLength ((codeUnits text).length - 10)) (by omega) with
    ⟨hhalf, hle, hblank⟩ | ⟨hsame, hnone⟩
  · obtain ⟨front, back, hsplit, hcount⟩ := space_at hblank
    rw [hsplit] at hsingle htrimmed
    obtain ⟨hfront, hback⟩ := filled_beside hsingle htrimmed
    have hunits := unitCount_blank front back
    rw [← hsplit] at hunits hsingle htrimmed
    have hrest : trimUnits ((codeUnits text).drop (unitCount front)) = codeUnits back := by
      rw [hsplit, drop_codeUnits, trimUnits_space_before hback.trimmed]
    have hrestLength := congrArg List.length hrest
    rw [length_codeUnits] at hrestLength
    rw [← hcount] at hhalf hle hblank
    by_cases hten : 10 ≤ unitCount back
    · have hkept : backUp (codeUnits text) (unitCount front) = unitCount front := hend (by omega) (by omega)
      have hlast : last = unitCount front := by
        rw [hcount] at hkept
        rw [hcount]
        exact hkept
      rw [hlast]
      exact ⟨by omega, by omega, Or.inl ⟨hhalf, hblank⟩⟩
    · -- the blank stands before the last nine units
      obtain ⟨before, hbefore⟩ : ∃ before, unitCount front = before + 1 := ⟨unitCount front - 1, by omega⟩
      have hunit := unit_before hfront.filled (codeUnits (' ' :: back))
      obtain ⟨unit, hlastUnit⟩ : ∃ unit, (codeUnits front).getLast? = some unit :=
        ⟨_, List.getLast?_eq_some_getLast (codeUnits_ne_nil hfront.filled)⟩
      obtain ⟨-, c, hc, hspace⟩ := getLast?_codeUnits unit hlastUnit
      rw [← codeUnits_append, ← hsplit, hlastUnit, hbefore, Nat.add_sub_cancel] at hunit
      rw [hfront.trimmed.last c hc] at hspace
      have hlast : last = before := by
        have hstep : backUp (codeUnits text) (before + 1) = backUp (codeUnits text) before := by
          rw [backUp, ← hbefore, if_pos (by omega)]
        rw [← hword (by omega) (by omega) hunit hspace, ← hstep, ← hbefore, hcount]
      rw [hlast]
      exact ⟨by omega, by omega, Or.inr (by omega)⟩
  · obtain ⟨unit, hunit⟩ :
      ∃ unit, (codeUnits text)[min maxFragmentLength ((codeUnits text).length - 10)]? = some unit :=
      ⟨_, List.getElem?_eq_getElem (by omega)⟩
    have hspace : isSpaceUnit unit = false := by
      by_contra hspace
      rw [space_of_unit hsingle (List.mem_of_getElem? hunit) (Bool.not_eq_false _ ▸ hspace)] at hunit
      exact hnone hunit
    have hlast : last = min maxFragmentLength ((codeUnits text).length - 10) := by
      have hkept := hword (by omega) (by omega) hunit hspace
      rw [← hsame] at hkept
      exact hkept.trans hsame
    rw [hlast]
    exact ⟨by omega, by omega, Or.inr (by omega)⟩

/-- A long text is cut at a blank, or between two characters behind its first 288 units. -/
structure CutInTwo (text front back : List Char) : Prop where
  filledFront : Filled front
  filledBack : Filled back
  before : trimUnits ((codeUnits text).take (cutPoint (codeUnits text))) = codeUnits front
  behind : trimUnits ((codeUnits text).drop (cutPoint (codeUnits text))) = codeUnits back
  shortest : 11 ≤ unitCount front
  longest : unitCount front ≤ maxFragmentLength
  joined : text = front ++ ' ' :: back ∨ text = front ++ back ∧ 289 ≤ unitCount front

/-- A cut between two characters of a text, with the spaces at the cut taken away. -/
theorem cutInTwo_of_cut (hsingle : SingleSpaced text) (htrimmed : Trimmed text) {front back : List Char}
    (hsplit : text = front ++ back)
    (hfront : front ≠ []) (hback : back ≠ []) :
    ∃ kept later, Filled kept ∧ Filled later ∧ trimUnits (codeUnits front) = codeUnits kept ∧
      trimUnits (codeUnits back) = codeUnits later ∧ unitCount kept ≤ unitCount front ∧
        unitCount front ≤ unitCount kept + 1 ∧
      (text = kept ++ ' ' :: later ∨ text = kept ++ later ∧ kept = front) := by
  rw [hsplit] at hsingle htrimmed ⊢
  by_cases hfirst : ∀ c ∈ back.head?, isSpace c = false
  · have hlater := filled_back htrimmed hback hfirst
    by_cases hlast : ∀ c ∈ front.getLast?, isSpace c = false
    · have hkept := filled_front htrimmed hfront hlast
      exact ⟨front, back, hkept, hlater, trimUnits_codeUnits hkept.trimmed, trimUnits_codeUnits hlater.trimmed,
        le_rfl, Nat.le_succ _,
        Or.inr ⟨rfl, rfl⟩⟩
    · -- the cut is behind a blank
      obtain ⟨kept, c, rfl⟩ := (List.eq_nil_or_concat' front).resolve_left hfront
      rw [List.getLast?_concat] at hlast
      have hblank : c = ' ' := by
        apply hsingle.blank c (by simp)
        by_contra hspace
        apply hlast
        intro d hd
        rw [← Option.some.inj hd]
        exact Bool.not_eq_true _ ▸ hspace
      rw [hblank, List.append_assoc, List.singleton_append] at hsingle htrimmed ⊢
      have hkept := (filled_beside hsingle htrimmed).1
      have hunits := unitCount_blank kept []
      have hzero : unitCount [] = 0 := rfl
      exact ⟨kept, back, hkept, hlater, trimUnits_space_behind hkept.trimmed, trimUnits_codeUnits hlater.trimmed,
        by omega, by omega,
        Or.inl rfl⟩
  · -- the cut is before a blank
    obtain ⟨c, later, rfl⟩ := List.exists_cons_of_ne_nil hback
    have hblank : c = ' ' := by
      apply hsingle.blank c (by simp)
      by_contra hspace
      apply hfirst
      intro d hd
      rw [← Option.some.inj hd]
      exact Bool.not_eq_true _ ▸ hspace
    rw [hblank] at hsingle htrimmed ⊢
    obtain ⟨hkept, hlater⟩ := filled_beside hsingle htrimmed
    exact ⟨front, later, hkept, hlater, trimUnits_codeUnits hkept.trimmed, trimUnits_space_before hlater.trimmed,
      le_rfl,
      Nat.le_succ _, Or.inl rfl⟩

theorem cutPoint_spec (hsingle : SingleSpaced text) (htrimmed : Trimmed text)
    (hlong : maxFragmentLength < unitCount text) :
    ∃ front back, CutInTwo text front back := by
  have hlimit : maxFragmentLength = 300 := rfl
  obtain ⟨hmost, hinside, hplace⟩ := backUp_spec hsingle htrimmed hlong
  have hpoint : cutPoint (codeUnits text) = beforePair (codeUnits text)
    (backUp (codeUnits text) (wordBoundary (codeUnits text) (min maxFragmentLength ((codeUnits text).length - 10)))) := rfl
  generalize backUp (codeUnits text) (wordBoundary (codeUnits text) (min maxFragmentLength ((codeUnits text).length - 10))) = last
    at hmost hinside hplace hpoint
  have hnear : beforePair (codeUnits text) last ≤ last ∧ last ≤ beforePair (codeUnits text) last + 1 := by
    rw [beforePair]
    split
    · omega
    · omega
  obtain ⟨front, back, hsplit, hcount⟩ := cut_between hinside.le
  have hunits := congrArg unitCount hsplit
  rw [unitCount_append] at hunits
  have hzero : unitCount [] = 0 := rfl
  have hfront : front ≠ [] := by
    rintro rfl
    omega
  have hback : back ≠ [] := by
    rintro rfl
    omega
  obtain ⟨kept, later, hkept, hlater, hbefore, hbehind, hle, hge, hjoined⟩ :=
    cutInTwo_of_cut hsingle htrimmed hsplit hfront hback
  have htake : (codeUnits text).take (cutPoint (codeUnits text)) = codeUnits front := by
    rw [hpoint, ← hcount, hsplit, take_codeUnits]
  have hdrop : (codeUnits text).drop (cutPoint (codeUnits text)) = codeUnits back := by
    rw [hpoint, ← hcount, hsplit, drop_codeUnits]
  refine ⟨kept, later, hkept, hlater, by rw [htake, hbefore], by rw [hdrop, hbehind], by omega, by omega, ?_⟩
  rcases hjoined with hspaced | ⟨hwhole, hsame⟩
  · exact Or.inl hspaced
  · refine Or.inr ⟨hwhole, ?_⟩
    rw [hsame, hcount]
    rcases hplace with ⟨-, hblank⟩ | hfar
    · -- a cut before a blank is one at a blank
      exfalso
      obtain ⟨start, rest, hstart, hindex⟩ := space_at hblank
      have hexact : beforePair (codeUnits text) last = last := by
        rw [hstart, codeUnits_append, ← hindex, beforePair_end]
      have hfirst : back.head? = some ' ' := by
        have hdrop' : (codeUnits text).drop last = codeUnits (' ' :: rest) := by rw [← hindex, hstart, drop_codeUnits]
        rw [hpoint, hexact, hdrop'] at hdrop
        have hsame' := congrArg decode hdrop
        rw [decode_codeUnits, decode_codeUnits] at hsame'
        rw [← hsame']
        rfl
      have hlast : back = later := by
        rw [hsplit, hsame] at hwhole
        exact List.append_cancel_left hwhole
      have hspace := hlater.trimmed.first ' ' (by rw [← hlast]; exact hfirst)
      revert hspace
      decide
    · omega

end Cut

/-! ## The pieces of a sentence -/

/-- The pieces of a text that put it together, none longer than a fragment; a text that is short is its only
piece. -/
structure Pieces (text : List Char) (parts : List (List Char)) : Prop where
  joined : JoinsBy PieceGap parts text
  filled : ∀ part ∈ parts, Filled part
  longest : ∀ part ∈ parts, unitCount part ≤ maxFragmentLength
  first : ∃ part later, parts = part :: later ∧ (part = text ∨ 11 ≤ unitCount part)

theorem pieces_single {text : List Char} (hfilled : Filled text) (hshort : unitCount text ≤ maxFragmentLength) :
    Pieces text [text] := by
  refine ⟨.single text, ?_, ?_, text, [], rfl, Or.inl rfl⟩
  · intro part hpart
    rwa [List.mem_singleton.mp hpart]
  · intro part hpart
    rwa [List.mem_singleton.mp hpart]

theorem cutRounds_short {text : List Char} (hfilled : Filled text) (hshort : unitCount text ≤ maxFragmentLength)
    (rounds : ℕ) :
    cutRounds rounds (codeUnits text) = some ([text].map codeUnits) := by
  rw [cutRounds.eq_def, if_neg (by rw [length_codeUnits]; omega), if_neg (codeUnits_ne_nil hfilled.filled)]
  rfl

/-- The loop ends: every round leaves a shorter text, by induction on the rounds. -/
theorem cutRounds_spec {text : List Char} (hsingle : SingleSpaced text) (hfilled : Filled text) {rounds : ℕ}
    (hrounds : unitCount text ≤ rounds) :
    ∃ parts, cutRounds rounds (codeUnits text) = some (parts.map codeUnits) ∧ Pieces text parts := by
  have hlimit : maxFragmentLength = 300 := rfl
  induction rounds generalizing text with
  | zero => exact ⟨[text], cutRounds_short hfilled (by omega) 0, pieces_single hfilled (by omega)⟩
  | succ rounds ih =>
    by_cases hlong : maxFragmentLength < unitCount text
    · obtain ⟨front, back, hcut⟩ := cutPoint_spec hsingle hfilled.trimmed hlong
      have hback : back <:+ text := by
        rcases hcut.joined with hspaced | ⟨hwhole, -⟩
        · exact ⟨front ++ [' '], by rw [hspaced, List.append_assoc, List.singleton_append]⟩
        · exact ⟨front, hwhole.symm⟩
      have hunits : unitCount front + unitCount back ≤ unitCount text := by
        rcases hcut.joined with hspaced | ⟨hwhole, -⟩
        · rw [hspaced, unitCount_blank]
          omega
        · rw [hwhole, unitCount_append]
      have hshortest := hcut.shortest
      obtain ⟨parts, hparts, hpieces⟩ := ih (hsingle.part hback.isInfix) hcut.filledBack (by omega)
      refine ⟨front :: parts, ?_, ?_⟩
      · rw [cutRounds, if_pos (by rwa [length_codeUnits]), hcut.before, hcut.behind, hparts]
        rfl
      · obtain ⟨next, later, rfl, hnext⟩ := hpieces.first
        refine ⟨?_, ?_, ?_, front, next :: later, rfl, Or.inr hshortest⟩
        · rcases hcut.joined with hspaced | ⟨hwhole, hfar⟩
          · have hmoved : text = front ++ [' '] ++ back := by rw [hspaced, List.append_assoc, List.singleton_append]
            rw [hmoved]
            exact .cons (Or.inl rfl) hpieces.joined
          · have hmoved : text = front ++ [] ++ back := by rw [hwhole, List.append_nil]
            rw [hmoved]
            refine .cons (Or.inr ⟨rfl, ?_⟩) hpieces.joined
            rcases hnext with rfl | heleven
            · have hwholeUnits := congrArg unitCount hwhole
              rw [unitCount_append] at hwholeUnits
              omega
            · omega
        · intro part hpart
          rcases List.mem_cons.mp hpart with rfl | hrest
          · exact hcut.filledFront
          · exact hpieces.filled part hrest
        · intro part hpart
          rcases List.mem_cons.mp hpart with rfl | hrest
          · exact hcut.longest
          · exact hpieces.longest part hrest
    · exact ⟨[text], cutRounds_short hfilled (by omega) _, pieces_single hfilled (by omega)⟩

theorem Pieces.ne_nil {text : List Char} {parts : List (List Char)} (h : Pieces text parts) : parts ≠ [] := by
  obtain ⟨first, later, rfl, -⟩ := h.first
  exact List.cons_ne_nil _ _

theorem cutSentence_spec {text : List Char} (hsingle : SingleSpaced text) (hfilled : Filled text) :
    ∃ parts, cutSentence (String.ofList text) = some (parts.map codeUnits) ∧ Pieces text parts := by
  have hremaining : (trim (String.ofList (collapseSpaces (String.ofList text).toList))).toList = text := by
    rw [String.toList_ofList, collapseSpaces_of_singleSpaced hsingle, trim_ofList hfilled.trimmed, String.toList_ofList]
  rw [cutSentence, hremaining]
  exact cutRounds_spec hsingle hfilled (length_codeUnits text).ge

/-- A sentence without an address is cut into its pieces. -/
theorem splitLongSentence_spec {text : List Char} (hsingle : SingleSpaced text) (hfilled : Filled text)
    (haddress : hasAddress text = false) :
    ∃ parts, splitLongSentence (String.ofList text) = some (parts.map String.ofList) ∧ Pieces text parts := by
  rw [splitLongSentence, utf16Length_eq, String.toList_ofList, haddress, Bool.or_false]
  by_cases hshort : unitCount text ≤ maxFragmentLength
  · rw [if_pos (decide_eq_true hshort)]
    exact ⟨[text], rfl, pieces_single hfilled hshort⟩
  · obtain ⟨parts, hparts, hpieces⟩ := cutSentence_spec hsingle hfilled
    rw [if_neg (by simpa using hshort), hparts]
    refine ⟨parts, ?_, hpieces⟩
    rw [Option.map_some, List.map_map]
    refine congrArg some (List.map_congr_left ?_)
    intro part _
    rw [Function.comp_apply, decode_codeUnits]

/-- The pieces of all sentences, by induction on the sentences. -/
theorem mapM_splitLongSentence {sentences : List (List Char)} {whole : List Char} (h : JoinsBy BlankGap sentences whole)
    (hsentences : ∀ text ∈ sentences, SingleSpaced text ∧ Filled text ∧ hasAddress text = false) :
    ∃ pieces : List (List (List Char)),
      (sentences.map String.ofList).mapM splitLongSentence = some (pieces.map (List.map String.ofList)) ∧
      JoinsBy PieceGap pieces.flatten whole ∧ (∀ part ∈ pieces.flatten, Filled part ∧
        unitCount part ≤ maxFragmentLength) ∧
      (sentences ≠ [] → pieces.flatten ≠ []) := by
  have hstep : ∀ text, SingleSpaced text ∧ Filled text ∧ hasAddress text = false →
      ∃ parts, splitLongSentence (String.ofList text) = some (parts.map String.ofList) ∧ Pieces text parts :=
    fun text htext => splitLongSentence_spec htext.1 htext.2.1 htext.2.2
  induction h with
  | nil => exact ⟨[], rfl, .nil, fun part hpart => absurd hpart List.not_mem_nil, fun habsurd => absurd rfl habsurd⟩
  | single text =>
    obtain ⟨parts, hparts, hpieces⟩ := hstep text (hsentences text List.mem_cons_self)
    refine ⟨[parts], ?_, ?_, ?_, ?_⟩
    · rw [List.map_singleton, List.mapM_cons, hparts]
      rfl
    · rw [List.flatten_singleton]
      exact hpieces.joined
    · rw [List.flatten_singleton]
      exact fun part hpart => ⟨hpieces.filled part hpart, hpieces.longest part hpart⟩
    · rw [List.flatten_singleton]
      exact fun _ => hpieces.ne_nil
  | @cons text between next rest later hgap hrest ih =>
    obtain ⟨parts, hparts, hpieces⟩ := hstep text (hsentences text List.mem_cons_self)
    obtain ⟨pieces, hlater, hjoined, hall, hfilled⟩ :=
      ih fun text htext => hsentences text (List.mem_cons_of_mem _ htext)
    have hgap' : between = [' '] := hgap
    refine ⟨parts :: pieces, ?_, ?_, ?_, ?_⟩
    · rw [List.map_cons, List.mapM_cons, hparts, hlater]
      rfl
    · rw [List.flatten_cons, hgap']
      exact JoinsBy.append (fun _ _ => Or.inl rfl) (hfilled (List.cons_ne_nil _ _)) hpieces.joined hjoined hpieces.ne_nil
    · rw [List.flatten_cons]
      intro part hpart
      rcases List.mem_append.mp hpart with hfirst | hothers
      · exact ⟨hpieces.filled part hfirst, hpieces.longest part hfirst⟩
      · exact hall part hothers
    · rw [List.flatten_cons]
      exact fun _ => List.append_ne_nil_of_left_ne_nil hpieces.ne_nil _

/-- The pieces of a text put it together, and none is longer than a fragment. -/
theorem sentencePieces_spec {text : String} (h : Plain text.toList) :
    ∃ pieces, sentencePieces text = some (pieces.map String.ofList) ∧ JoinsBy PieceGap pieces text.toList ∧
      ∀ part ∈ pieces, Filled part ∧ unitCount part ≤ maxFragmentLength := by
  obtain ⟨sentences, hsentences, hjoined, hfilled⟩ := splitSentences_spec h.single h.trimmed
  obtain ⟨pieces, hpieces, hwhole, hall, -⟩ := mapM_splitLongSentence hjoined fun sentence hsentence =>
    ⟨h.single.part (hjoined.part_of sentence hsentence), hfilled sentence hsentence,
      hasAddress_part h.address (hjoined.part_of sentence hsentence)⟩
  refine ⟨pieces.flatten, ?_, hwhole, hall⟩
  rw [sentencePieces, hsentences, hpieces, Option.map_some, List.map_flatten]

end FragmentMemory.SplitPieces
