import FragmentMemory.CodeUnits

/-! # Segments of one script

`segmentByScript` of the morpheme tokenizer reads a text in one pass and cuts it into runs of one script.  A
text is the list of its code points, lone surrogates included.
-/
namespace FragmentMemory.ScriptSegments
open CodeUnits

inductive Script | hangul | kana | han | latin | latinnum | other deriving DecidableEq

def isHangul (ch : ℕ) : Bool :=
  (0xAC00 ≤ ch && ch ≤ 0xD7A3) || (0x1100 ≤ ch && ch ≤ 0x11FF) || (0x3130 ≤ ch && ch ≤ 0x318F)

def isKana (ch : ℕ) : Bool := (0x3040 ≤ ch && ch ≤ 0x30FF) || (0x31F0 ≤ ch && ch ≤ 0x31FF)

def isHan (ch : ℕ) : Bool := (0x4E00 ≤ ch && ch ≤ 0x9FFF) || (0x3400 ≤ ch && ch ≤ 0x4DBF)

/-- `[A-Za-z]`. -/
def isLatin (ch : ℕ) : Bool := (65 ≤ ch && ch ≤ 90) || (97 ≤ ch && ch ≤ 122)

def isDigit (ch : ℕ) : Bool := 48 ≤ ch && ch ≤ 57

/-- `[-_]`. -/
def isGlue (ch : ℕ) : Bool := ch = 45 || ch = 95

/-- The first of the `RANGES` with the character. -/
def scriptOf (ch : ℕ) : Script :=
  if isHangul ch then .hangul
  else if isKana ch then .kana
  else if isHan ch then .han
  else if isLatin ch then .latin
  else if isDigit ch then .latinnum
  else .other

structure Segment where
  script : Script
  text : List ℕ
  deriving DecidableEq

/-- The segments so far and the open run. -/
structure Segmenter where
  segs : List Segment := []
  cur : Option Segment := none

namespace Script

def isLatinFamily : Script → Bool
  | latin | latinnum => true
  | hangul | kana | han | other => false

/-- Of one of the `RANGES`. -/
def isLetter : Script → Bool
  | hangul | kana | han | latin => true
  | latinnum | other => false

/-- A segment of the script, as it is handed on. -/
def flushed : Script → Script
  | latinnum => latin
  | script => script

end Script

def flush (state : Segmenter) : Segmenter where
  segs := state.segs ++ (state.cur.toList.filter fun run => !(trimUnits run.text).isEmpty).map fun run =>
    { run with script := run.script.flushed }
  cur := none

/-- The script under which a character is read after the open run. -/
def effective (cur : Option Segment) (ch : ℕ) : Script :=
  match cur with
  | some run =>
    if isGlue ch && run.script.isLatinFamily then run.script
    else if scriptOf ch = .latinnum then (if run.script.isLatinFamily then .latinnum else .other)
    else scriptOf ch
  | none => if scriptOf ch = .latinnum then .other else scriptOf ch

/-- A new run, unless the character is white space. -/
def begin (script : Script) (ch : ℕ) : Option Segment :=
  if script ≠ .other then some ⟨script, [ch]⟩
  else if !isSpaceUnit ch then some ⟨.other, [ch]⟩
  else none

def readChar (state : Segmenter) (ch : ℕ) : Segmenter :=
  let script := effective state.cur ch
  match state.cur with
  | none => { state with cur := begin script ch }
  | some run =>
    if run.script = script || (run.script.isLatinFamily && script.isLatinFamily) then
      { state with cur := some ⟨if script = .latinnum then .latin else run.script, run.text ++ [ch]⟩ }
    else { flush state with cur := begin script ch }

def segmentByScript (text : List ℕ) : List Segment := (flush (text.foldl readChar {})).segs

/-! ## Runs -/

/-- A run starts with a character that is not white space, has the letters of its script only, and a latin one is
an identifier. -/
structure Segment.Sound (run : Segment) : Prop where
  start : ∃ ch ∈ run.text.head?, isSpaceUnit ch = false ∧ (run.script = .latin → scriptOf ch = .latin)
  letters : ∀ ch ∈ run.text, (scriptOf ch).isLetter = true → run.script = scriptOf ch
  identifier : run.script = .latin → ∀ ch ∈ run.text, scriptOf ch = .latin ∨ scriptOf ch = .latinnum ∨ isGlue ch = true
  named : run.script ≠ .latinnum

variable {run : Segment} {ch : ℕ}

theorem not_isSpaceUnit_of_isLetter (h : (scriptOf ch).isLetter = true) : isSpaceUnit ch = false := by
  by_contra hspace
  have hranges : isHangul ch = false ∧ isKana ch = false ∧ isHan ch = false ∧ isLatin ch = false := by
    simp only [isSpaceUnit, Bool.not_eq_false, Bool.or_eq_true, Bool.and_eq_true, decide_eq_true_eq] at hspace
    simp only [isHangul, isKana, isHan, isLatin, Bool.or_eq_false_iff, Bool.and_eq_false_iff, decide_eq_false_iff_not]
    omega
  obtain ⟨hhangul, hkana, hhan, hlatin⟩ := hranges
  simp only [scriptOf, hhangul, hkana, hhan, hlatin, Bool.false_eq_true, if_false] at h
  split at h <;> cases h

theorem scriptOf_of_isGlue (h : isGlue ch = true) : scriptOf ch = .other := by
  rw [isGlue, Bool.or_eq_true, decide_eq_true_eq, decide_eq_true_eq] at h
  rcases h with rfl | rfl
  · rfl
  · rfl

theorem isLetter_or (script : Script) : script.isLetter = true ∨ script = .latinnum ∨ script = .other := by
  cases script <;> simp [Script.isLetter]

theorem Segment.Sound.trimmed (h : run.Sound) : (trimUnits run.text).isEmpty = false := by
  obtain ⟨ch, hch, hspace, -⟩ := h.start
  have hmem : ch ∈ run.text := List.mem_of_head? hch
  have hhead : run.text.dropWhile isSpaceUnit = run.text := by
    cases htext : run.text with
    | nil =>
      rw [htext] at hmem
      cases hmem
    | cons first rest =>
      rw [htext] at hch
      obtain rfl := Option.some.inj hch
      rw [List.dropWhile_cons, hspace, if_neg Bool.false_ne_true]
  rw [List.isEmpty_eq_false_iff, trimUnits, hhead, ne_eq, List.reverse_eq_nil_iff, List.dropWhile_eq_nil_iff]
  intro hall
  have habsurd := hall ch (List.mem_reverse.mpr hmem)
  rw [hspace] at habsurd
  cases habsurd

theorem Segment.Sound.flushed (h : run.Sound) : run.script.flushed = run.script := by
  have hnamed := h.named
  cases hscript : run.script with
  | latinnum => exact absurd hscript hnamed
  | hangul => rfl
  | kana => rfl
  | han => rfl
  | latin => rfl
  | other => rfl

theorem flush_run (h : run.Sound) (segs : List Segment) : flush ⟨segs, some run⟩ = ⟨segs ++ [run], none⟩ := by
  simp [flush, h.trimmed, h.flushed]

/-- The script of a character where no run of latin letters goes on. -/
def Fresh (script : Script) (ch : ℕ) : Prop :=
  script = scriptOf ch ∧ script.isLetter = true ∨ script = .other ∧ (scriptOf ch).isLetter = false

theorem fresh_of_ne {script : Script} (h : script = if scriptOf ch = .latinnum then .other else scriptOf ch) :
    Fresh script ch := by
  subst h
  split
  · rename_i hdigit
    exact Or.inr ⟨rfl, by rw [hdigit]; rfl⟩
  · rename_i hnone
    rcases isLetter_or (scriptOf ch) with hletter | hdigit | hother
    · exact Or.inl ⟨rfl, hletter⟩
    · exact absurd hdigit hnone
    · exact Or.inr ⟨hother, by rw [hother]; rfl⟩

theorem begin_cases {script : Script} (h : Fresh script ch) :
    (isSpaceUnit ch = true ∧ begin script ch = none) ∨
      (begin script ch = some ⟨script, [ch]⟩ ∧ Segment.Sound ⟨script, [ch]⟩) := by
  rcases h with ⟨rfl, hletter⟩ | ⟨rfl, hnone⟩
  · have hspace := not_isSpaceUnit_of_isLetter hletter
    have hscript : scriptOf ch ≠ .other := by
      intro hother
      rw [hother] at hletter
      cases hletter
    refine Or.inr ⟨if_pos hscript, ⟨ch, rfl, hspace, id⟩, ?_, ?_, ?_⟩
    · intro c hc _
      rw [List.mem_singleton.mp hc]
    · intro hlatin c hc
      rw [List.mem_singleton.mp hc]
      exact Or.inl hlatin
    · intro hdigit
      change scriptOf ch = .latinnum at hdigit
      rw [hdigit] at hletter
      cases hletter
  · cases hspace : isSpaceUnit ch with
    | true => exact Or.inl ⟨rfl, by simp [begin, hspace]⟩
    | false =>
      refine Or.inr ⟨by simp [begin, hspace], ⟨ch, rfl, hspace, ?_⟩, ?_, ?_, ?_⟩
      · intro hlatin
        cases hlatin
      · intro c hc hletter
        rw [List.mem_singleton.mp hc, hnone] at hletter
        cases hletter
      · intro hlatin
        cases hlatin
      · intro hdigit
        cases hdigit

/-! ## One character -/

theorem readChar_none (ch : ℕ) :
    (isSpaceUnit ch = true ∧ readChar ⟨[], none⟩ ch = ⟨[], none⟩) ∨
      ∃ next : Segment, readChar ⟨[], none⟩ ch = ⟨[], some next⟩ ∧ next.text = [ch] ∧ next.Sound := by
  have hfresh : Fresh (effective none ch) ch := fresh_of_ne rfl
  rcases begin_cases hfresh with ⟨hspace, hbegin⟩ | ⟨hbegin, hsound⟩
  · exact Or.inl ⟨hspace, congrArg _ hbegin⟩
  · exact Or.inr ⟨_, congrArg _ hbegin, rfl, hsound⟩

/-- A latin run takes letters, digits and glue; other characters are read as they are without a run. -/
theorem effective_run (h : run.Sound) (ch : ℕ) :
    (run.script = .latin ∧ effective (some run) ch = .latin ∧ (scriptOf ch = .latin ∨ isGlue ch = true)) ∨
      (run.script = .latin ∧ effective (some run) ch = .latinnum ∧ scriptOf ch = .latinnum) ∨
      Fresh (effective (some run) ch) ch := by
  have hfamily : run.script.isLatinFamily = true → run.script = .latin := by
    intro hfamily
    have hnamed := h.named
    cases hscript : run.script with
    | latin => rfl
    | latinnum => exact absurd hscript hnamed
    | hangul => rw [hscript] at hfamily; cases hfamily
    | kana => rw [hscript] at hfamily; cases hfamily
    | han => rw [hscript] at hfamily; cases hfamily
    | other => rw [hscript] at hfamily; cases hfamily
  by_cases hglue : (isGlue ch && run.script.isLatinFamily) = true
  · obtain ⟨hmatch, hrun⟩ := (Bool.and_eq_true _ _).mp hglue
    exact Or.inl ⟨hfamily hrun, by rw [effective, if_pos hglue, hfamily hrun], Or.inr hmatch⟩
  · by_cases hdigit : scriptOf ch = .latinnum
    · cases hrun : run.script.isLatinFamily with
      | true =>
        refine Or.inr (Or.inl ⟨hfamily hrun, ?_, hdigit⟩)
        rw [effective, if_neg hglue, if_pos hdigit, hrun, if_pos rfl]
      | false =>
        refine Or.inr (Or.inr (fresh_of_ne ?_))
        rw [effective, if_neg hglue, if_pos hdigit, if_pos hdigit, hrun, if_neg Bool.false_ne_true]
    · refine Or.inr (Or.inr (fresh_of_ne ?_))
      rw [effective, if_neg hglue, if_neg hdigit, if_neg hdigit]

theorem Segment.Sound.append (h : run.Sound) (hletter : (scriptOf ch).isLetter = true → run.script = scriptOf ch)
    (hidentifier : run.script = .latin → scriptOf ch = .latin ∨ scriptOf ch = .latinnum ∨ isGlue ch = true) :
    Segment.Sound ⟨run.script, run.text ++ [ch]⟩ := by
  refine ⟨?_, ?_, ?_, h.named⟩
  · obtain ⟨first, hfirst, hstart⟩ := h.start
    refine ⟨first, ?_, hstart⟩
    cases htext : run.text with
    | nil =>
      rw [htext] at hfirst
      cases hfirst
    | cons c rest =>
      rw [htext] at hfirst
      exact hfirst
  · intro c hc hc'
    rcases List.mem_append.mp hc with hold | hnew
    · exact h.letters c hold hc'
    · rw [List.mem_singleton.mp hnew] at hc' ⊢
      exact hletter hc'
  · intro hlatin c hc
    rcases List.mem_append.mp hc with hold | hnew
    · exact h.identifier hlatin c hold
    · rw [List.mem_singleton.mp hnew]
      exact hidentifier hlatin

/-- A character goes on with the run, or ends it: as white space, or as the start of a run of another script. -/
theorem readChar_run (h : run.Sound) (ch : ℕ) :
    (∃ joined : Segment, readChar ⟨[], some run⟩ ch = ⟨[], some joined⟩ ∧ joined.script = run.script ∧
      joined.text = run.text ++ [ch] ∧ joined.Sound) ∨
    (isSpaceUnit ch = true ∧ readChar ⟨[], some run⟩ ch = ⟨[run], none⟩) ∨
    ∃ next : Segment, readChar ⟨[], some run⟩ ch = ⟨[run], some next⟩ ∧ next.text = [ch] ∧ next.script ≠ run.script ∧
      next.Sound := by
  rcases effective_run h ch with ⟨hlatin, heffective, hreads⟩ | ⟨hlatin, heffective, hdigit⟩ | hfresh
  · refine Or.inl ⟨⟨run.script, run.text ++ [ch]⟩, ?_, rfl, rfl, h.append ?_ ?_⟩
    · simp [readChar, heffective, hlatin]
    · intro hletter
      rcases hreads with hsame | hglue
      · rw [hlatin, hsame]
      · rw [scriptOf_of_isGlue hglue] at hletter
        cases hletter
    · intro _
      exact hreads.imp_right Or.inr
  · refine Or.inl ⟨⟨run.script, run.text ++ [ch]⟩, ?_, rfl, rfl, h.append ?_ ?_⟩
    · simp [readChar, heffective, hlatin, Script.isLatinFamily]
    · intro hletter
      rw [hdigit] at hletter
      cases hletter
    · exact fun _ => Or.inr (Or.inl hdigit)
  · have hnumber : effective (some run) ch ≠ .latinnum := by
      rintro hnumber
      rcases hfresh with ⟨-, hletter⟩ | ⟨hother, -⟩
      · rw [hnumber] at hletter
        cases hletter
      · rw [hnumber] at hother
        cases hother
    have hfamily : (run.script.isLatinFamily && (effective (some run) ch).isLatinFamily) = true →
        run.script = effective (some run) ch := by
      have hnamed := h.named
      intro hboth
      cases hrun : run.script <;> cases hnext : effective (some run) ch <;> simp_all [Script.isLatinFamily]
    by_cases hsame : run.script = effective (some run) ch
    · refine Or.inl ⟨⟨run.script, run.text ++ [ch]⟩, ?_, rfl, rfl, h.append ?_ ?_⟩
      · simp [readChar, ← hsame, h.named]
      · intro hletter
        rcases hfresh with ⟨hread, -⟩ | ⟨-, hnone⟩
        · exact hsame.trans hread
        · rw [hnone] at hletter
          cases hletter
      · intro hlatin
        rcases hfresh with ⟨hread, -⟩ | ⟨hother, -⟩
        · exact Or.inl (hread.symm.trans (hsame.symm.trans hlatin))
        · rw [← hsame, hlatin] at hother
          cases hother
    · have hcut : readChar ⟨[], some run⟩ ch = ⟨[run], begin (effective (some run) ch) ch⟩ := by
        have hnot : ¬ (run.script = effective (some run) ch ||
            (run.script.isLatinFamily && (effective (some run) ch).isLatinFamily)) = true := by
          rw [Bool.or_eq_true, decide_eq_true_eq, not_or]
          exact ⟨hsame, fun hboth => hsame (hfamily hboth)⟩
        simp only [readChar]
        rw [if_neg hnot, flush_run h]
        rfl
      rcases begin_cases hfresh with ⟨hspace, hbegin⟩ | ⟨hbegin, hsound⟩
      · exact Or.inr (Or.inl ⟨hspace, by rw [hcut, hbegin]⟩)
      · exact Or.inr (Or.inr ⟨_, by rw [hcut, hbegin], rfl, Ne.symm hsame, hsound⟩)

/-! ## The whole text -/

/-- The runs stand in the text in their order, with white space around them, and two neighbours of one script do not
touch. -/
def Laid : Option Script → List Segment → List ℕ → Prop
  | _, [], text => ∀ ch ∈ text, isSpaceUnit ch = true
  | before, seg :: later, text => ∃ gap rest, text = gap ++ seg.text ++ rest ∧ (∀ ch ∈ gap, isSpaceUnit ch = true) ∧
      (before = some seg.script → gap ≠ []) ∧ Laid (some seg.script) later rest

/-- The segments of the rest of a text, behind an open run. -/
def segments (cur : Option Segment) (text : List ℕ) : List Segment := (flush (text.foldl readChar ⟨[], cur⟩)).segs

theorem readChar_segs (segs : List Segment) (cur : Option Segment) (ch : ℕ) :
    readChar ⟨segs, cur⟩ ch = ⟨segs ++ (readChar ⟨[], cur⟩ ch).segs, (readChar ⟨[], cur⟩ ch).cur⟩ := by
  cases cur with
  | none => simp [readChar]
  | some run =>
    simp only [readChar]
    split
    · rw [List.append_nil]
    · simp [flush]

theorem segs_foldl (segs : List Segment) (cur : Option Segment) (text : List ℕ) :
    (flush (text.foldl readChar ⟨segs, cur⟩)).segs = segs ++ segments cur text := by
  induction text generalizing segs cur with
  | nil => simp [segments, flush]
  | cons ch rest ih =>
    rw [segments, List.foldl_cons, List.foldl_cons, readChar_segs, ih, List.append_assoc, ← ih]

theorem segments_cons (cur : Option Segment) (ch : ℕ) (rest : List ℕ) :
    segments cur (ch :: rest) = (readChar ⟨[], cur⟩ ch).segs ++ segments (readChar ⟨[], cur⟩ ch).cur rest :=
  segs_foldl _ _ rest

theorem segments_run_nil (h : run.Sound) : segments (some run) [] = [run] :=
  congrArg Segmenter.segs (flush_run h [])

theorem sound_segments (text : List ℕ) :
    (∀ seg ∈ segments none text, seg.Sound) ∧ ∀ run : Segment, run.Sound → ∀ seg ∈ segments (some run) text, seg.Sound := by
  induction text with
  | nil =>
    refine ⟨fun seg hseg => absurd hseg List.not_mem_nil, fun run hrun seg hseg => ?_⟩
    rw [segments_run_nil hrun] at hseg
    rwa [List.mem_singleton.mp hseg]
  | cons ch rest ih =>
    refine ⟨fun seg hseg => ?_, fun run hrun seg hseg => ?_⟩
    · rw [segments_cons] at hseg
      rcases readChar_none ch with ⟨-, hread⟩ | ⟨next, hread, -, hnext⟩
      · rw [hread] at hseg
        exact ih.1 seg hseg
      · rw [hread] at hseg
        exact ih.2 next hnext seg hseg
    · rw [segments_cons] at hseg
      rcases readChar_run hrun ch with ⟨joined, hread, -, -, hjoined⟩ | ⟨-, hread⟩ | ⟨next, hread, -, -, hnext⟩
      · rw [hread] at hseg
        exact ih.2 joined hjoined seg hseg
      · rw [hread] at hseg
        rcases List.mem_cons.mp hseg with rfl | hlater
        · exact hrun
        · exact ih.1 seg hlater
      · rw [hread] at hseg
        rcases List.mem_cons.mp hseg with rfl | hlater
        · exact hrun
        · exact ih.2 next hnext seg hlater

/-- By induction on the rest of the text; `gap` is the white space read since the last run. -/
theorem laid_segments (text : List ℕ) :
    (∀ before gap, (∀ ch ∈ gap, isSpaceUnit ch = true) → (before = none ∨ gap ≠ []) →
      Laid before (segments none text) (gap ++ text)) ∧
    ∀ run : Segment, run.Sound → ∀ before gap, (∀ ch ∈ gap, isSpaceUnit ch = true) →
      (before = some run.script → gap ≠ []) → Laid before (segments (some run) text) (gap ++ run.text ++ text) := by
  have hconcat : ∀ {gap : List ℕ} {ch : ℕ}, (∀ c ∈ gap, isSpaceUnit c = true) → isSpaceUnit ch = true →
      ∀ c ∈ gap ++ [ch], isSpaceUnit c = true := by
    intro gap ch hgap hspace c hc
    rcases List.mem_append.mp hc with hold | hnew
    · exact hgap c hold
    · rwa [List.mem_singleton.mp hnew]
  induction text with
  | nil =>
    refine ⟨fun before gap hgap _ => ?_, fun run hrun before gap hgap hapart => ?_⟩
    · rw [List.append_nil]
      exact hgap
    · rw [segments_run_nil hrun]
      exact ⟨gap, [], rfl, hgap, hapart, fun ch hch => absurd hch List.not_mem_nil⟩
  | cons ch rest ih =>
    refine ⟨fun before gap hgap hstart => ?_, fun run hrun before gap hgap hapart => ?_⟩
    · rw [segments_cons]
      rcases readChar_none ch with ⟨hspace, hread⟩ | ⟨next, hread, htext, hnext⟩
      · rw [hread, List.append_cons]
        exact ih.1 before (gap ++ [ch]) (hconcat hgap hspace) (Or.inr (List.concat_ne_nil ch gap))
      · have hapart : before = some next.script → gap ≠ [] := by
          rintro rfl
          exact hstart.resolve_left (Option.some_ne_none _)
        have hlaid := ih.2 next hnext before gap hgap hapart
        rw [htext, List.append_assoc, List.singleton_append] at hlaid
        rw [hread]
        exact hlaid
    · rw [segments_cons]
      rcases readChar_run hrun ch with ⟨joined, hread, hscript, htext, hjoined⟩ | ⟨hspace, hread⟩ |
        ⟨next, hread, htext, hne, hnext⟩
      · have hlaid := ih.2 joined hjoined before gap hgap (hscript ▸ hapart)
        rw [htext, ← List.append_assoc, ← List.append_cons] at hlaid
        rw [hread]
        exact hlaid
      · rw [hread]
        refine ⟨gap, ch :: rest, rfl, hgap, hapart, ?_⟩
        have hspaces : ∀ c ∈ [ch], isSpaceUnit c = true := by
          intro c hc
          rwa [List.mem_singleton.mp hc]
        exact ih.1 (some run.script) [ch] hspaces (Or.inr (List.cons_ne_nil ch []))
      · rw [hread]
        refine ⟨gap, ch :: rest, rfl, hgap, hapart, ?_⟩
        have hlaid := ih.2 next hnext (some run.script) [] (fun c hc => absurd hc List.not_mem_nil)
          (fun hsame => absurd (Option.some.inj hsame).symm hne)
        rwa [htext] at hlaid

/-- What the segments leave out of a text is white space. -/
theorem Laid.joined {segs : List Segment} {before : Option Script} {text : List ℕ} (h : Laid before segs text) :
    (segs.flatMap Segment.text).Sublist text ∧
      (segs.flatMap Segment.text).filter (fun ch => !isSpaceUnit ch) = text.filter fun ch => !isSpaceUnit ch := by
  have hnone : ∀ {gap : List ℕ}, (∀ ch ∈ gap, isSpaceUnit ch = true) → (gap.filter fun ch => !isSpaceUnit ch) = [] := by
    intro gap hgap
    refine List.filter_eq_nil_iff.mpr fun ch hch => ?_
    rw [hgap ch hch]
    exact Bool.false_ne_true
  induction segs generalizing before text with
  | nil => exact ⟨List.nil_sublist text, (hnone h).symm⟩
  | cons seg later ih =>
    obtain ⟨gap, rest, rfl, hgap, -, hlater⟩ := h
    obtain ⟨hsub, hkept⟩ := ih hlater
    rw [List.flatMap_cons]
    refine ⟨((List.sublist_append_right gap seg.text)).append hsub, ?_⟩
    rw [List.filter_append, List.filter_append, List.filter_append, hnone hgap, hkept, List.nil_append]

/-- The segments cover the text up to white space, in its order; a letter is in a segment of its script, a latin
segment is an identifier that starts with a letter, and white space parts neighbours of one script. -/
theorem segmentByScript_laid (text : List ℕ) :
    Laid none (segmentByScript text) text ∧ (∀ seg ∈ segmentByScript text, seg.Sound) ∧
      ((segmentByScript text).flatMap Segment.text).Sublist text ∧
      ((segmentByScript text).flatMap Segment.text).filter (fun ch => !isSpaceUnit ch) =
        text.filter fun ch => !isSpaceUnit ch := by
  have hlaid : Laid none (segmentByScript text) text :=
    (laid_segments text).1 none [] (fun ch hch => absurd hch List.not_mem_nil) (Or.inl rfl)
  exact ⟨hlaid, (sound_segments text).1, hlaid.joined⟩

example : segmentByScript ("a-1 \uBE44 2 b".toList.map Char.toNat) =
    [⟨.latin, [97, 45, 49]⟩, ⟨.hangul, [0xBE44]⟩, ⟨.other, [50, 32]⟩, ⟨.latin, [98]⟩] := by decide

end FragmentMemory.ScriptSegments
