import FragmentMemory.PasswordMask

/-! # The mask of a cut text

A front of a masked text is masked again, possibly with dots behind it.  Only a password field that runs to
the end of the cut is written anew; there is at most one such place that the mask reaches.
-/
namespace FragmentMemory.CutMask
open BacktrackingRegex BacktrackingRegex.Regex PiiRedaction PasswordFields PasswordMask JsString

/-- A match of the pattern takes in the whole text and the ending behind it. -/
def runsOut (ending tail : List Char) : Bool := (rests password (tail ++ ending)).head? == some []

section Cut

variable {text cut ending : List Char}

theorem isValue_of_dot {c : Char} (h : c = '.') : isValue c = true := by
  rw [h]
  decide

theorem not_opens_dots (hending : ∀ c ∈ ending, c = '.') : opens ending = false := by
  by_contra hopens
  rw [Bool.not_eq_false, opens_iff] at hopens
  obtain ⟨word, field, rest, htext, hword, -⟩ := hopens
  have hletters : ∀ lower ∈ passwordWords, lower ≠ [] ∧ '.' ∉ lower := by decide
  cases word with
  | nil => exact (hletters _ hword).1 rfl
  | cons c word =>
    have hdot : c = '.' := hending c (by rw [htext]; simp)
    rw [hdot] at hword
    exact (hletters _ hword).2 List.mem_cons_self

/-- Where a match does not run to the end of the cut it is a masked password. -/
theorem labelled_of_stops (hsettled : Settled text) (hcut : cut <+: text) (hending : ∀ c ∈ ending, c = '.')
    {tail : List Char}
    (htail : tail <:+ cut) (hopens : opens (tail ++ ending) = true) (hstops : runsOut ending tail = false) :
    ∃ word rest, tail = word ++ label ++ rest ∧ IsWord word ∧ rest ≠ [] ∧ Ends rest := by
  obtain ⟨word, field, rest, htext, hword, hfield, hends⟩ := opens_iff.mp hopens
  have hrest : rest ≠ [] := by
    rintro rfl
    rw [runsOut, htext, head?_rests_password hword hfield hends] at hstops
    cases hstops
  have hnot : ∀ c ∈ rest.head?, c ∉ ending := by
    intro c hc hmem
    have hvalue := isValue_of_dot (hending c hmem)
    rw [hends c hc] at hvalue
    cases hvalue
  obtain ⟨first, later, hfirst⟩ := List.exists_cons_of_ne_nil hrest
  have hhead : first ∈ rest.head? := by rw [hfirst]; rfl
  obtain ⟨beyond, rfl⟩ := hcut
  rcases List.append_eq_append_iff.mp htext with ⟨more, -, hmore⟩ | ⟨more, rfl, hmore⟩
  · refine absurd ?_ (hnot first hhead)
    rw [hmore, hfirst]
    exact List.mem_append_right _ List.mem_cons_self
  · have hfilled : more ≠ [] := by
      rintro rfl
      rw [List.nil_append] at hmore
      refine hnot first hhead ?_
      rw [← hmore, hfirst]
      exact List.mem_cons_self
    have hends' : ∀ behind, Ends (more ++ behind) := by
      intro behind c hc
      rw [List.head?_append_of_ne_nil _ hfilled] at hc
      apply hends c
      rw [hmore, List.head?_append_of_ne_nil _ hfilled]
      exact hc
    have hopens' := opens_append hword hfield (more ++ beyond)
    have hsuffix : word ++ field ++ (more ++ beyond) <:+ cut ++ beyond := by
      rw [← List.append_assoc]
      exact List.suffix_append_self_iff.mpr htail
    obtain ⟨other, rest', htext', hother, hends''⟩ := hsettled _ hsuffix hopens'
    have hfound := head?_rests_password hword hfield (hends' beyond)
    have hfound' := head?_rests_password hother isField_label hends''
    rw [htext', hfound', Option.some.injEq] at hfound
    rw [hfound] at htext'
    rw [List.append_cancel_right htext']
    refine ⟨other, more, rfl, hother, hfilled, ?_⟩
    have hmoreEnds := hends' []
    rwa [List.append_nil] at hmoreEnds

theorem tail_of_append {first ending last : List Char} (h : last <:+ first ++ ending) :
    (∃ tail, tail <:+ first ∧ last = tail ++ ending) ∨ last <:+ ending := by
  obtain ⟨skipped, hskipped⟩ := h
  rcases List.append_eq_append_iff.mp hskipped with ⟨tail, hfirst, rfl⟩ | ⟨more, -, hending⟩
  · exact Or.inl ⟨tail, ⟨skipped, hfirst.symm⟩, rfl⟩
  · exact Or.inr ⟨more, hending.symm⟩

/-- A cut through no field is settled with its dots. -/
theorem settled_of_stops (hsettled : Settled text) (hcut : cut <+: text) (hending : ∀ c ∈ ending, c = '.')
    (hstops : ∀ tail, tail <:+ cut → runsOut ending tail = false) : Settled (cut ++ ending) := by
  intro last hlast hopens
  rcases tail_of_append hlast with ⟨tail, htail, rfl⟩ | hdots
  · obtain ⟨word, rest, rfl, hword, hfilled, hends⟩ :=
      labelled_of_stops hsettled hcut hending htail hopens (hstops tail htail)
    refine ⟨word, rest ++ ending, List.append_assoc _ _ _, hword, ?_⟩
    intro c hc
    rw [List.head?_append_of_ne_nil _ hfilled] at hc
    exact hends c hc
  · rw [not_opens_dots fun c hc => hending c (hdots.subset hc)] at hopens
    cases hopens

theorem match_of_runsOut {tail : List Char} (h : runsOut ending tail = true) :
    ∃ word field, tail ++ ending = word ++ field ∧ IsWord word ∧ IsField field := by
  obtain ⟨word, field, htext, hword, hfield, -⟩ := match_eq (beq_iff_eq.mp h)
  rw [List.append_nil] at htext
  exact ⟨word, field, htext, hword, hfield⟩

/-- The first field that runs to the end of the cut is masked anew, with what stands before it kept; by
induction on the text before it. -/
theorem redactPasswords_of_runsOut (hsettled : Settled text) (hcut : cut <+: text) (hending : ∀ c ∈ ending, c = '.')
    {front tail : List Char} (hfront : front ++ tail <:+ cut) (hruns : runsOut ending tail = true)
    (hfirst : ∀ longer, longer <:+ front ++ tail → tail.length < longer.length → runsOut ending longer = false) :
    redactPasswords (front ++ tail ++ ending) = front ++ capturedWord (tail ++ ending) ++ label := by
  induction hlength : front.length using Nat.strong_induction_on generalizing front with
  | _ length ih =>
    subst hlength
    cases front with
    | nil =>
      obtain ⟨word, field, htext, hword, hfield⟩ := match_of_runsOut hruns
      have hends : Ends [] := by
        rintro c ⟨⟩
      have hmasked := redactPasswords_of_match hword hfield hends
      rw [List.append_nil] at hmasked
      rw [List.nil_append, List.nil_append, htext, hmasked, capturedWord_append hword]
      simp [redactPasswords]
    | cons c front =>
      have hshorter : ∀ {later}, later ++ tail <:+ c :: front ++ tail → ∀ longer, longer <:+ later ++ tail →
          tail.length < longer.length → runsOut ending longer = false := fun hlater longer hlonger =>
        hfirst longer (hlonger.trans hlater)
      by_cases hopens : opens (c :: front ++ tail ++ ending) = true
      · have hlonger : tail.length < (c :: front ++ tail).length := by
          rw [List.length_append, List.length_cons]
          omega
        have hstops := hfirst (c :: front ++ tail) List.suffix_rfl hlonger
        obtain ⟨word, rest, hsplit, hword, hfilled, hends⟩ :=
          labelled_of_stops hsettled hcut hending hfront hopens hstops
        have hbehind : ∃ later, rest = later ++ tail ∧ c :: front = word ++ label ++ later := by
          rcases List.append_eq_append_iff.mp hsplit with ⟨more, hwhole, htail⟩ | ⟨more, hmore, hrest⟩
          · by_cases hmore : more = []
            · rw [hmore] at htail hwhole
              exact ⟨[], by rw [htail]; rfl, by rw [List.append_nil, hwhole, List.append_nil]⟩
            · have hinside : more ≠ word ++ label := by
                intro hsame
                have hlengths := congrArg List.length hwhole
                simp only [hsame, List.length_append, List.length_cons] at hlengths
                omega
              have hquiet :=
                not_opens_inside_labelled hword more (rest ++ ending) ⟨c :: front, hwhole.symm⟩ hinside hmore
              rw [← List.append_assoc, ← htail, opens_of_match (beq_iff_eq.mp hruns)] at hquiet
              cases hquiet
          · exact ⟨more, hrest, hmore⟩
        obtain ⟨later, rfl, hlater⟩ := hbehind
        have hsuffix : later ++ tail <:+ c :: front ++ tail := by
          rw [hlater, List.append_assoc (word ++ label)]
          exact List.suffix_append _ _
        have hsmaller : later.length < (c :: front).length := by
          rw [hlater, List.length_append, List.length_append]
          have hpositive : 0 < label.length := by decide
          omega
        have hends' : Ends (later ++ tail ++ ending) := by
          intro x hx
          rw [List.head?_append_of_ne_nil _ hfilled] at hx
          exact hends x hx
        have hlaterMask := ih later.length hsmaller (hsuffix.trans hfront) (hshorter hsuffix) rfl
        have hwhole : word ++ label ++ later ++ tail ++ ending = word ++ label ++ (later ++ tail ++ ending) := by
          simp only [List.append_assoc]
        rw [hlater, hwhole, redactPasswords_of_match hword isField_label hends', hlaterMask]
        simp only [List.append_assoc]
      · have hsuffix : front ++ tail <:+ c :: front ++ tail := List.suffix_cons c _
        have hkept := ih front.length (by simp) (hsuffix.trans hfront) (hshorter hsuffix) rfl
        rw [List.cons_append, List.cons_append,
          redactPasswords_cons (by simpa using hopens), hkept, List.cons_append, List.cons_append]

/-- The first field of a cut that runs to its end. -/
def trailing (ending cut : List Char) : Option (List Char) := cut.tails.find? (runsOut ending)

theorem trailing_eq_none (h : trailing ending cut = none) {tail : List Char} (htail : tail <:+ cut) :
    runsOut ending tail = false := by
  have hnone := List.find?_eq_none.mp h tail ((List.mem_tails _ _).mpr htail)
  simpa using hnone

theorem trailing_eq_some {tail : List Char} (h : trailing ending cut = some tail) :
    ∃ front, cut = front ++ tail ∧ runsOut ending tail = true ∧
      ∀ longer, longer <:+ cut → tail.length < longer.length → runsOut ending longer = false := by
  induction cut with
  | nil =>
    rw [trailing, show ([] : List Char).tails = [[]] from rfl, List.find?_singleton] at h
    split at h
    · rename_i hruns
      cases h
      refine ⟨[], rfl, hruns, fun longer hlonger hlength => ?_⟩
      rw [List.suffix_nil.mp hlonger] at hlength
      cases hlength
    · cases h
  | cons c rest ih =>
    rw [trailing, List.tails_cons, List.find?_cons] at h
    split at h
    · rename_i hruns
      cases h
      refine ⟨[], rfl, hruns, fun longer hlonger hlength => ?_⟩
      have hle := hlonger.length_le
      omega
    · rename_i hnot
      obtain ⟨front, hrest, hruns, hfirst⟩ := ih h
      refine ⟨c :: front, by rw [hrest]; rfl, hruns, fun longer hlonger hlength => ?_⟩
      rcases List.suffix_cons_iff.mp hlonger with rfl | hlater
      · simpa using hnot
      · exact hfirst longer hlater hlength

/-- What the mask of passwords makes of a cut. -/
theorem redactPasswords_cut (hsettled : Settled text) (hcut : cut <+: text) (hending : ∀ c ∈ ending, c = '.') :
    (trailing ending cut = none ∧ redactPasswords (cut ++ ending) = cut ++ ending) ∨
      ∃ front tail, trailing ending cut = some tail ∧ cut = front ++ tail ∧ runsOut ending tail = true ∧
        redactPasswords (cut ++ ending) = front ++ capturedWord (tail ++ ending) ++ label := by
  cases hfound : trailing ending cut with
  | none =>
    exact Or.inl ⟨rfl, redactPasswords_of_settled
      (settled_of_stops hsettled hcut hending fun tail htail => trailing_eq_none hfound htail)⟩
  | some tail =>
    obtain ⟨front, rfl, hruns, hfirst⟩ := trailing_eq_some hfound
    exact Or.inr ⟨front, tail, rfl, rfl, hruns, redactPasswords_of_runsOut hsettled hcut hending List.suffix_rfl hruns hfirst⟩

end Cut

end FragmentMemory.CutMask
