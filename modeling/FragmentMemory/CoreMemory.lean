import Mathlib.Algebra.Order.BigOperators.Group.List
import Mathlib.Data.List.Flatten
import Mathlib.Data.List.Perm.Subperm
import Mathlib.Data.List.TakeWhile
import FragmentMemory.DistinctOn
import FragmentMemory.ReflectProcessor

/-! # The core memory of a context

`#loadCoreMemory` guarantees the top fragment of each recalled list and adds extras up to three caps.  An extra is filed
under its own type and the result is collected under the labels of the lists, so an extra of another type is counted and
not returned.
-/
namespace FragmentMemory.CoreMemory
open FragmentTables DistinctOn JsString
open ReflectProcessor (typeName)

/-! ## `#loadCoreMemory` -/

def coreCharBudget : ℕ := 1500 * 4

def maxCoreFragments : ℕ := 15

/-- `typeSlots[typeKey] || 5`. -/
def typeSlot (label : String) : ℕ :=
  if label = "learning" ∨ label = "decision" ∨ label = "fact" then 3 else 5

/-- `_tempScore`. -/
def tempScore (now : Time) (f : Fragment) : ℚ :=
  let warm : ℚ := if now - f.accessedAt.getD 0 < 7 * 86400000 then 2 / 10 else 0
  let accessed : ℚ := if f.accessCount ≥ 5 then 15 / 100 else 0
  let learnt : ℚ := if f.source = some "learning_extraction" then 3 / 10 else 0
  f.importance + warm + accessed + learnt

/-- The characters of a list of fragments. -/
def chars (fragments : List Fragment) : ℕ := (fragments.map fun f => utf16Length f.content).sum

/-- The recalled lists by label, with `session_reflect` last among the labels where it was found. -/
structure Recalled where
  types : List String
  lists : String → List Fragment

/-- The keys of the map, each label once. -/
def Recalled.labels (recalled : Recalled) : List String := distinctOn (fun label => label) recalled.types

def Recalled.topIds (recalled : Recalled) : List FragmentId :=
  recalled.types.filterMap fun label => (recalled.lists label).head?.map Fragment.id

/-- The fragments behind the tops, each id once. -/
def Recalled.extras (recalled : Recalled) : List Fragment :=
  distinctOn Fragment.id ((recalled.types.flatMap fun label => (recalled.lists label).drop 1).filter
    fun f => !recalled.topIds.contains f.id)

def Recalled.sortedExtras (recalled : Recalled) (now : Time) : List Fragment :=
  recalled.extras.insertionSort fun f g => tempScore now g ≤ tempScore now f

/-- The map `guaranteed`, the counters of the caps, and whether the loop was left. -/
structure CoreState where
  guaranteed : String → List Fragment
  typeCounters : String → ℕ
  totalAdded : ℕ
  usedChars : ℕ
  stopped : Bool

/-- The tops of the lists; the characters of a repeated label are counted again. -/
def Recalled.start (recalled : Recalled) : CoreState where
  guaranteed label := if label ∈ recalled.types then (recalled.lists label).take 1 else []
  typeCounters label := if label ∈ recalled.types then ((recalled.lists label).take 1).length else 0
  totalAdded := (recalled.labels.filter fun label => !(recalled.lists label).isEmpty).length
  usedChars := (recalled.types.map fun label => chars ((recalled.lists label).take 1)).sum
  stopped := false

/-- A fragment filed under a label, with what it costs. -/
def CoreState.file (state : CoreState) (label : String) (f : Fragment) (cost : ℕ) : CoreState where
  guaranteed := Function.update state.guaranteed label (state.guaranteed label ++ [f])
  typeCounters := Function.update state.typeCounters label (state.typeCounters label + 1)
  totalAdded := state.totalAdded + 1
  usedChars := state.usedChars + cost
  stopped := state.stopped

/-- `{ ...f, content: f.content.substring(0, remaining - 3) + "..." }`. -/
def truncated (f : Fragment) (remaining : ℕ) : Fragment := { f with content := clip f.content (remaining - 3) ++ "..." }

/-- One extra; a `break` leaves the loop for those that follow. -/
def addExtra (state : CoreState) (f : Fragment) : CoreState :=
  if state.stopped then state
  else if state.totalAdded ≥ maxCoreFragments then { state with stopped := true }
  else if state.typeCounters (typeName f.type) ≥ typeSlot (typeName f.type) then state
  else if state.usedChars + utf16Length f.content > coreCharBudget then
    let remaining := coreCharBudget - state.usedChars
    if remaining > 80 then
      { state.file (typeName f.type) (truncated f remaining) remaining with stopped := true }
    else { state with stopped := true }
  else state.file (typeName f.type) f (utf16Length f.content)

def Recalled.loaded (recalled : Recalled) (now : Time) : CoreState :=
  (recalled.sortedExtras now).foldl addExtra recalled.start

/-- `coreFragments`: what is filed under the labels. -/
def Recalled.collect (recalled : Recalled) (state : CoreState) : List Fragment := recalled.types.flatMap state.guaranteed

def loadCoreMemory (recalled : Recalled) (now : Time) : List Fragment := recalled.collect (recalled.loaded now)

variable {recalled : Recalled} {now : Time}

/-! ## The caps -/

/-- What is returned under a label. -/
def returnedUnder (recalled : Recalled) (now : Time) (label : String) : List Fragment :=
  if label ∈ recalled.types then (recalled.loaded now).guaranteed label else []

/-- The caps count what is returned: every filed fragment is in the result, with the top of each list, the result is no
longer than its caps, and an extra is left out only where the returned fragments reach one of them. -/
structure CapsHold (recalled : Recalled) (now : Time) : Prop where
  counted : ∀ label, ∀ f ∈ (recalled.loaded now).guaranteed label, f ∈ loadCoreMemory recalled now
  tops : ∀ label ∈ recalled.types, ∀ f, (recalled.lists label).head? = some f → f ∈ loadCoreMemory recalled now
  distinct : (loadCoreMemory recalled now).dedup.length ≤ max maxCoreFragments recalled.types.length
  length : recalled.types.Nodup → (loadCoreMemory recalled now).length ≤ max maxCoreFragments recalled.types.length
  stops : ∀ f ∈ recalled.sortedExtras now, (∀ g ∈ loadCoreMemory recalled now, g.id ≠ f.id) →
    maxCoreFragments ≤ (loadCoreMemory recalled now).length ∨
      coreCharBudget ≤ chars (loadCoreMemory recalled now) + 80 ∨
      typeSlot (typeName f.type) ≤ (returnedUnder recalled now (typeName f.type)).length

/-- The labels collect the type of the fragment. -/
def collects (recalled : Recalled) (f : Fragment) : Bool := recalled.types.contains (typeName f.type)

/-- The next extra is not filed whatever its type: the loop was left, or the total or the characters are used up. -/
def Closed (state : CoreState) (f : Fragment) : Prop :=
  state.stopped = true ∨ maxCoreFragments ≤ state.totalAdded ∨
    (coreCharBudget < state.usedChars + utf16Length f.content ∧ coreCharBudget ≤ state.usedChars + 80)

instance (state : CoreState) (f : Fragment) : Decidable (Closed state f) := inferInstanceAs (Decidable (_ ∨ _))

/-- A cap is reached before the first extra of a type that no label collects. -/
def ClosedToStrays (recalled : Recalled) (now : Time) : Prop :=
  ∀ f, ((recalled.sortedExtras now).dropWhile (collects recalled)).head? = some f →
    Closed (((recalled.sortedExtras now).takeWhile (collects recalled)).foldl addExtra recalled.start) f

/-! ## One extra -/

/-- What one extra does: nothing, leave the loop, or be filed, whole or cut to the characters that are left. -/
theorem addExtra_cases (state : CoreState) (f : Fragment) :
    (addExtra state f = state ∧ (state.stopped = true ∨
      typeSlot (typeName f.type) ≤ state.typeCounters (typeName f.type))) ∨
    (addExtra state f = { state with stopped := true } ∧ state.stopped = false ∧
      (maxCoreFragments ≤ state.totalAdded ∨
        (coreCharBudget < state.usedChars + utf16Length f.content ∧ coreCharBudget ≤ state.usedChars + 80))) ∨
    (state.stopped = false ∧ state.totalAdded < maxCoreFragments ∧
      state.typeCounters (typeName f.type) < typeSlot (typeName f.type) ∧
      ((addExtra state f = { state.file (typeName f.type) (truncated f (coreCharBudget - state.usedChars))
            (coreCharBudget - state.usedChars) with stopped := true } ∧
          coreCharBudget < state.usedChars + utf16Length f.content ∧ state.usedChars + 80 < coreCharBudget) ∨
        (addExtra state f = state.file (typeName f.type) f (utf16Length f.content) ∧
          state.usedChars + utf16Length f.content ≤ coreCharBudget))) := by
  by_cases hstopped : state.stopped = true
  · exact Or.inl ⟨by rw [addExtra, if_pos hstopped], Or.inl hstopped⟩
  · have hrunning : state.stopped = false := Bool.eq_false_of_not_eq_true hstopped
    by_cases htotal : state.totalAdded ≥ maxCoreFragments
    · exact Or.inr (Or.inl ⟨by rw [addExtra, if_neg hstopped, if_pos htotal], hrunning, Or.inl htotal⟩)
    · by_cases hslot : state.typeCounters (typeName f.type) ≥ typeSlot (typeName f.type)
      · exact Or.inl ⟨by rw [addExtra, if_neg hstopped, if_neg htotal, if_pos hslot], Or.inr hslot⟩
      · by_cases hchars : state.usedChars + utf16Length f.content > coreCharBudget
        · by_cases hremaining : coreCharBudget - state.usedChars > 80
          · refine Or.inr (Or.inr ⟨hrunning, Nat.lt_of_not_ge htotal, Nat.lt_of_not_ge hslot, Or.inl ⟨?_, hchars, ?_⟩⟩)
            · simp only [addExtra, if_neg hstopped, if_neg htotal, if_neg hslot, if_pos hchars, if_pos hremaining]
            · omega
          · refine Or.inr (Or.inl ⟨?_, hrunning, Or.inr ⟨hchars, ?_⟩⟩)
            · simp only [addExtra, if_neg hstopped, if_neg htotal, if_neg hslot, if_pos hchars, if_neg hremaining]
            · omega
        · refine Or.inr (Or.inr ⟨hrunning, Nat.lt_of_not_ge htotal, Nat.lt_of_not_ge hslot, Or.inr ⟨?_, by omega⟩⟩)
          simp only [addExtra, if_neg hstopped, if_neg htotal, if_neg hslot, if_neg hchars]

/-- A cut fragment has the characters that were left. -/
theorem length_truncated {f : Fragment} {remaining : ℕ} (hlong : remaining ≤ utf16Length f.content)
    (hroom : 3 ≤ remaining) : utf16Length (truncated f remaining).content = remaining := by
  have hdots : utf16Length "..." = 3 := by decide
  rw [truncated, utf16Length_append, hdots, utf16Length_clip (by omega)]
  omega

/-- The cases of an extra, by what is filed. -/
theorem addExtra_filed (state : CoreState) (f : Fragment) :
    (∃ stopped, addExtra state f = { state with stopped := stopped }) ∨
    (state.totalAdded < maxCoreFragments ∧ ∃ g stopped, g.id = f.id ∧
      addExtra state f = { state.file (typeName f.type) g (utf16Length g.content) with stopped := stopped }) := by
  obtain ⟨heq, -⟩ | ⟨heq, -, -⟩ | ⟨hrunning, htotal, -, ⟨heq, hlong, hroom⟩ | ⟨heq, -⟩⟩ := addExtra_cases state f
  · exact Or.inl ⟨state.stopped, heq⟩
  · exact Or.inl ⟨true, heq⟩
  · refine Or.inr ⟨htotal, truncated f (coreCharBudget - state.usedChars), true, rfl, ?_⟩
    rw [length_truncated (by omega) (by omega)]
    exact heq
  · refine Or.inr ⟨htotal, f, false, rfl, ?_⟩
    rw [heq, ← hrunning]
    rfl

/-! ## The counters of a run -/

/-- What the extras handled so far have left. -/
structure Accounted (recalled : Recalled) (done : List Fragment) (state : CoreState) : Prop where
  counters : ∀ label, state.typeCounters label = (state.guaranteed label).length
  ids : ∀ label, ∀ f ∈ state.guaranteed label, f.id ∈ recalled.topIds ∨
    ∃ e ∈ done, typeName e.type = label ∧ e.id = f.id
  tops : ∀ label ∈ recalled.types, ∀ f, (recalled.lists label).head? = some f → f ∈ state.guaranteed label
  bound : state.totalAdded ≤ max maxCoreFragments recalled.types.length
  stop : state.stopped = true → maxCoreFragments ≤ state.totalAdded ∨ coreCharBudget ≤ state.usedChars + 80
  handled : ∀ f ∈ done, (∃ g ∈ state.guaranteed (typeName f.type), g.id = f.id) ∨
    maxCoreFragments ≤ state.totalAdded ∨ coreCharBudget ≤ state.usedChars + 80 ∨
      typeSlot (typeName f.type) ≤ state.typeCounters (typeName f.type)

theorem accounted_start : Accounted recalled [] recalled.start where
  counters label := by
    simp only [Recalled.start]
    split
    · rfl
    · rfl
  ids label f hf := by
    simp only [Recalled.start] at hf
    split at hf
    · rename_i hlabel
      refine Or.inl (List.mem_filterMap.mpr ⟨label, hlabel, ?_⟩)
      cases hlist : recalled.lists label with
      | nil =>
        rw [hlist] at hf
        exact absurd hf List.not_mem_nil
      | cons first later =>
        rw [hlist] at hf
        rw [List.mem_singleton.mp hf]
        rfl
    · exact absurd hf List.not_mem_nil
  tops label hlabel f hf := by
    simp only [Recalled.start, if_pos hlabel]
    obtain ⟨later, hlist⟩ := List.head?_eq_some_iff.mp hf
    rw [hlist]
    exact List.mem_singleton.mpr rfl
  bound := by
    have hfilter := List.length_filter_le (fun label => !(recalled.lists label).isEmpty) recalled.labels
    have hlabels := (distinctOn_sublist (fun label => label) recalled.types).length_le
    exact le_max_of_le_right (hfilter.trans hlabels)
  stop hstopped := by cases hstopped
  handled f hf := absurd hf List.not_mem_nil

/-- An extra keeps what is filed and what is counted. -/
structure Grown (state next : CoreState) : Prop where
  guaranteed : ∀ label, ∀ f ∈ state.guaranteed label, f ∈ next.guaranteed label
  typeCounters : ∀ label, state.typeCounters label ≤ next.typeCounters label
  totalAdded : state.totalAdded ≤ next.totalAdded
  usedChars : state.usedChars ≤ next.usedChars

theorem grown_file (state : CoreState) (label : String) (f : Fragment) (cost : ℕ) (stopped : Bool) :
    Grown state { state.file label f cost with stopped := stopped } where
  guaranteed other g hg := by
    by_cases hlabel : other = label
    · subst hlabel
      simp only [CoreState.file, Function.update_self]
      exact List.mem_append_left _ hg
    · simp only [CoreState.file, Function.update_of_ne hlabel]
      exact hg
  typeCounters other := by
    by_cases hlabel : other = label
    · subst hlabel
      simp only [CoreState.file, Function.update_self]
      omega
    · simp only [CoreState.file, Function.update_of_ne hlabel]
      exact le_rfl
  totalAdded := Nat.le_succ _
  usedChars := Nat.le_add_right _ _

theorem grown_addExtra (state : CoreState) (f : Fragment) : Grown state (addExtra state f) := by
  obtain ⟨stopped, heq⟩ | ⟨-, g, stopped, -, heq⟩ := addExtra_filed state f
  · rw [heq]
    exact ⟨fun _ _ hf => hf, fun _ => le_rfl, le_rfl, le_rfl⟩
  · rw [heq]
    exact grown_file state _ g _ stopped

/-- After its turn an extra is filed, or one of the caps is reached. -/
theorem handled_addExtra {state : CoreState}
    (hstop : state.stopped = true → maxCoreFragments ≤ state.totalAdded ∨ coreCharBudget ≤ state.usedChars + 80)
    (f : Fragment) : (∃ g ∈ (addExtra state f).guaranteed (typeName f.type), g.id = f.id) ∨
      maxCoreFragments ≤ (addExtra state f).totalAdded ∨ coreCharBudget ≤ (addExtra state f).usedChars + 80 ∨
        typeSlot (typeName f.type) ≤ (addExtra state f).typeCounters (typeName f.type) := by
  obtain ⟨heq, hstopped | hslot⟩ | ⟨heq, -, htotal | ⟨-, hchars⟩⟩ | ⟨-, -, -, ⟨heq, -⟩ | ⟨heq, -⟩⟩ :=
    addExtra_cases state f
  · rw [heq]
    exact Or.inr ((hstop hstopped).imp_right Or.inl)
  · rw [heq]
    exact Or.inr (Or.inr (Or.inr hslot))
  · rw [heq]
    exact Or.inr (Or.inl htotal)
  · rw [heq]
    exact Or.inr (Or.inr (Or.inl hchars))
  · rw [heq]
    refine Or.inl ⟨truncated f (coreCharBudget - state.usedChars), ?_, rfl⟩
    simp only [CoreState.file, Function.update_self]
    exact List.mem_append_right _ (List.mem_singleton.mpr rfl)
  · rw [heq]
    refine Or.inl ⟨f, ?_, rfl⟩
    simp only [CoreState.file, Function.update_self]
    exact List.mem_append_right _ (List.mem_singleton.mpr rfl)

theorem stop_addExtra {state : CoreState}
    (hstop : state.stopped = true → maxCoreFragments ≤ state.totalAdded ∨ coreCharBudget ≤ state.usedChars + 80)
    (f : Fragment) (hnow : (addExtra state f).stopped = true) :
    maxCoreFragments ≤ (addExtra state f).totalAdded ∨ coreCharBudget ≤ (addExtra state f).usedChars + 80 := by
  obtain ⟨heq, -⟩ | ⟨heq, -, htotal | ⟨-, hchars⟩⟩ | ⟨hrunning, -, -, ⟨heq, -, hroom⟩ | ⟨heq, -⟩⟩ :=
    addExtra_cases state f
  · rw [heq] at hnow ⊢
    exact hstop hnow
  · rw [heq]
    exact Or.inl htotal
  · rw [heq]
    exact Or.inr hchars
  · rw [heq]
    refine Or.inr ?_
    simp only [CoreState.file]
    omega
  · rw [heq] at hnow
    simp only [CoreState.file, hrunning] at hnow
    cases hnow

theorem Accounted.addExtra {done : List Fragment} {state : CoreState} (h : Accounted recalled done state)
    (f : Fragment) :
    Accounted recalled (done ++ [f]) (addExtra state f) := by
  have hgrown := grown_addExtra state f
  refine ⟨?_, ?_, ?_, ?_, stop_addExtra h.stop f, ?_⟩
  · intro label
    obtain ⟨stopped, heq⟩ | ⟨-, g, stopped, -, heq⟩ := addExtra_filed state f
    · rw [heq]
      exact h.counters label
    · rw [heq]
      by_cases hlabel : label = typeName f.type
      · subst hlabel
        simp only [CoreState.file, Function.update_self, List.length_append, List.length_singleton, h.counters]
      · simp only [CoreState.file, Function.update_of_ne hlabel]
        exact h.counters label
  · intro label g hg
    have hold : g ∈ state.guaranteed label →
        g.id ∈ recalled.topIds ∨ ∃ e ∈ done ++ [f], typeName e.type = label ∧ e.id = g.id := by
      intro hmem
      rcases h.ids label g hmem with htop | ⟨e, he, hfiled⟩
      · exact Or.inl htop
      · exact Or.inr ⟨e, List.mem_append_left _ he, hfiled⟩
    obtain ⟨stopped, heq⟩ | ⟨-, filed, stopped, hid, heq⟩ := addExtra_filed state f
    · rw [heq] at hg
      exact hold hg
    · rw [heq] at hg
      by_cases hlabel : label = typeName f.type
      · subst hlabel
        simp only [CoreState.file, Function.update_self] at hg
        rcases List.mem_append.mp hg with hmem | hnew
        · exact hold hmem
        · rw [List.mem_singleton.mp hnew, hid]
          exact Or.inr ⟨f, List.mem_append_right _ (List.mem_singleton.mpr rfl), rfl, rfl⟩
      · simp only [CoreState.file, Function.update_of_ne hlabel] at hg
        exact hold hg
  · intro label hlabel g hg
    exact hgrown.guaranteed label g (h.tops label hlabel g hg)
  · obtain ⟨stopped, heq⟩ | ⟨htotal, g, stopped, -, heq⟩ := addExtra_filed state f
    · rw [heq]
      exact h.bound
    · rw [heq]
      exact le_max_of_le_left htotal
  · intro g hg
    rcases List.mem_append.mp hg with hold | hnew
    · rcases h.handled g hold with ⟨filed, hfiled, hid⟩ | htotal | hchars | hslot
      · exact Or.inl ⟨filed, hgrown.guaranteed _ filed hfiled, hid⟩
      · exact Or.inr (Or.inl (htotal.trans hgrown.totalAdded))
      · exact Or.inr (Or.inr (Or.inl (hchars.trans (Nat.add_le_add_right hgrown.usedChars 80))))
      · exact Or.inr (Or.inr (Or.inr (hslot.trans (hgrown.typeCounters _))))
    · rw [List.mem_singleton.mp hnew]
      exact handled_addExtra h.stop f

theorem accounted_foldl {done : List Fragment} {state : CoreState} (h : Accounted recalled done state)
    (extras : List Fragment) : Accounted recalled (done ++ extras) (extras.foldl CoreMemory.addExtra state) := by
  induction extras generalizing done state with
  | nil =>
    rw [List.append_nil]
    exact h
  | cons f later ih =>
    have hlater := ih (h.addExtra f)
    rw [List.append_assoc] at hlater
    exact hlater

theorem accounted_loaded : Accounted recalled (recalled.sortedExtras now) (recalled.loaded now) :=
  accounted_foldl accounted_start _

/-! ## Runs that file under the labels only -/

theorem chars_flatMap (labels : List String) (filed : String → List Fragment) :
    chars (labels.flatMap filed) = (labels.map fun label => chars (filed label)).sum := by
  induction labels with
  | nil => rfl
  | cons label later ih =>
    rw [List.flatMap_cons, List.map_cons, List.sum_cons, ← ih, chars, List.map_append, List.sum_append]
    rfl

/-- One more fragment under a label, in the collected fragments. -/
theorem length_flatMap_update {labels : List String} (hnodup : labels.Nodup) (filed : String → List Fragment)
    {label : String} (hlabel : label ∈ labels) (f : Fragment) :
    (labels.flatMap (Function.update filed label (filed label ++ [f]))).length = (labels.flatMap filed).length + 1 := by
  induction labels with
  | nil => exact absurd hlabel List.not_mem_nil
  | cons first later ih =>
    obtain ⟨hfirst, hlater⟩ := List.nodup_cons.mp hnodup
    rw [List.flatMap_cons, List.flatMap_cons, List.length_append, List.length_append]
    by_cases hsame : first = label
    · subst hsame
      have hrest : later.flatMap (Function.update filed first (filed first ++ [f])) = later.flatMap filed := by
        refine List.flatMap_congr fun other hother => ?_
        rw [Function.update_of_ne (ne_of_mem_of_not_mem hother hfirst)]
      rw [hrest, Function.update_self, List.length_append, List.length_singleton]
      omega
    · have hmem : label ∈ later := (List.mem_cons.mp hlabel).resolve_left (Ne.symm hsame)
      rw [Function.update_of_ne hsame, ih hlater hmem]
      omega

theorem chars_flatMap_update {labels : List String} (filed : String → List Fragment) {label : String}
    (hlabel : label ∈ labels) (f : Fragment) :
    chars (labels.flatMap filed) + utf16Length f.content ≤
      chars (labels.flatMap (Function.update filed label (filed label ++ [f]))) := by
  have hone : chars (filed label) + utf16Length f.content = chars (filed label ++ [f]) := by
    rw [chars, chars, List.map_append, List.sum_append]
    rfl
  have hle : ∀ other, chars (filed other) ≤ chars (Function.update filed label (filed label ++ [f]) other) := by
    intro other
    by_cases hsame : other = label
    · subst hsame
      rw [Function.update_self]
      omega
    · rw [Function.update_of_ne hsame]
  rw [chars_flatMap, chars_flatMap]
  induction labels with
  | nil => exact absurd hlabel List.not_mem_nil
  | cons first later ih =>
    rw [List.map_cons, List.sum_cons, List.map_cons, List.sum_cons]
    by_cases hsame : first = label
    · subst hsame
      have hrest : (later.map fun other => chars (filed other)).sum ≤
          (later.map fun other => chars (Function.update filed first (filed first ++ [f]) other)).sum :=
        List.sum_le_sum fun other _ => hle other
      rw [Function.update_self]
      omega
    · have hlater := ih ((List.mem_cons.mp hlabel).resolve_left (Ne.symm hsame))
      have hfirst := hle first
      omega

/-- Nothing is filed off the labels, and the counters are those of the collected fragments. -/
structure Collected (recalled : Recalled) (state : CoreState) : Prop where
  strays : ∀ label, label ∉ recalled.types → state.guaranteed label = []
  total : state.totalAdded = (recalled.labels.flatMap state.guaranteed).length
  used : state.usedChars ≤ chars (recalled.collect state)

theorem mem_labels {label : String} : label ∈ recalled.labels ↔ label ∈ recalled.types := by
  constructor
  · intro h
    exact (distinctOn_sublist _ _).subset h
  · intro h
    obtain ⟨other, hother, rfl⟩ := exists_mem_distinctOn (fun label : String => label) h
    exact hother

theorem nodup_labels : recalled.labels.Nodup := by
  have hnodup := nodup_distinctOn (fun label : String => label) recalled.types
  rw [List.map_id'] at hnodup
  exact hnodup

theorem collected_start : Collected recalled recalled.start where
  strays label hlabel := by simp only [Recalled.start, if_neg hlabel]
  total := by
    have hlength : ∀ labels : List String, (∀ label ∈ labels, label ∈ recalled.types) →
        (labels.filter fun label => !(recalled.lists label).isEmpty).length =
          (labels.flatMap recalled.start.guaranteed).length := by
      intro labels hlabels
      induction labels with
      | nil => rfl
      | cons label later ih =>
        have hlabel := hlabels label List.mem_cons_self
        have hlater := ih fun other hother => hlabels other (List.mem_cons_of_mem label hother)
        rw [List.flatMap_cons, List.length_append, ← hlater]
        simp only [Recalled.start, if_pos hlabel, List.filter_cons]
        cases recalled.lists label with
        | nil => simp
        | cons first rest => simp [Nat.add_comm]
    exact hlength recalled.labels fun label => mem_labels.mp
  used := by
    have hfiled : (recalled.types.map fun label => chars ((recalled.lists label).take 1)) =
        recalled.types.map fun label => chars (recalled.start.guaranteed label) := by
      refine List.map_congr_left fun label hlabel => ?_
      simp only [Recalled.start, if_pos hlabel]
    rw [Recalled.collect, chars_flatMap, ← hfiled]
    exact le_rfl

theorem Collected.file {state : CoreState} (h : Collected recalled state) {label : String}
    (hlabel : label ∈ recalled.types)
    (f : Fragment) (stopped : Bool) :
    Collected recalled { state.file label f (utf16Length f.content) with stopped := stopped } where
  strays other hother := by
    have hne : other ≠ label := Ne.symm (ne_of_mem_of_not_mem hlabel hother)
    simp only [CoreState.file, Function.update_of_ne hne]
    exact h.strays other hother
  total := by
    simp only [CoreState.file]
    rw [length_flatMap_update nodup_labels state.guaranteed (mem_labels.mpr hlabel), h.total]
  used := by
    have hchars := chars_flatMap_update state.guaranteed hlabel f
    have hused := h.used
    simp only [CoreState.file, Recalled.collect] at hused ⊢
    omega

theorem Collected.addExtra {state : CoreState} (h : Collected recalled state) {f : Fragment}
    (hf : collects recalled f = true) : Collected recalled (addExtra state f) := by
  have hlabel : typeName f.type ∈ recalled.types := List.contains_iff_mem.mp hf
  obtain ⟨stopped, heq⟩ | ⟨-, g, stopped, -, heq⟩ := addExtra_filed state f
  · rw [heq]
    exact ⟨h.strays, h.total, h.used⟩
  · rw [heq]
    exact h.file hlabel g stopped

theorem collected_foldl {state : CoreState} (h : Collected recalled state) {extras : List Fragment}
    (hextras : ∀ f ∈ extras, collects recalled f = true) :
    Collected recalled (extras.foldl CoreMemory.addExtra state) := by
  induction extras generalizing state with
  | nil => exact h
  | cons f later ih =>
    exact ih (h.addExtra (hextras f List.mem_cons_self)) fun g hg => hextras g (List.mem_cons_of_mem f hg)

/-- After a `break` the extras that follow change nothing. -/
theorem foldl_stopped {state : CoreState} (h : state.stopped = true) (extras : List Fragment) :
    extras.foldl addExtra state = state := by
  induction extras with
  | nil => rfl
  | cons f later ih =>
    have hsame : addExtra state f = state := by rw [addExtra, if_pos h]
    rw [List.foldl_cons, hsame, ih]

/-- The extras before the first one that no label collects. -/
def collectedFront (recalled : Recalled) (now : Time) : List Fragment :=
  (recalled.sortedExtras now).takeWhile (collects recalled)

theorem collected_front : Collected recalled ((collectedFront recalled now).foldl addExtra recalled.start) :=
  collected_foldl collected_start fun _ hf => List.mem_takeWhile_imp hf

/-- The extra after them is of a type that no label collects. -/
theorem first_stray {f : Fragment}
    (hhead : ((recalled.sortedExtras now).dropWhile (collects recalled)).head? = some f) :
    typeName f.type ∉ recalled.types := by
  have hnot := List.head?_dropWhile_not (collects recalled) (recalled.sortedExtras now)
  rw [hhead] at hnot
  intro hmem
  have htrue : collects recalled f = true := List.contains_iff_mem.mpr hmem
  simp [htrue] at hnot

/-- So far nothing is counted for a type that no label collects. -/
theorem slot_of_stray {label : String} (hstray : label ∉ recalled.types) :
    ((collectedFront recalled now).foldl addExtra recalled.start).typeCounters label = 0 := by
  have haccounted : Accounted recalled ([] ++ collectedFront recalled now)
      ((collectedFront recalled now).foldl addExtra recalled.start) := accounted_foldl accounted_start _
  rw [haccounted.counters, collected_front.strays _ hstray, List.length_nil]

theorem loaded_split : recalled.loaded now =
    ((recalled.sortedExtras now).dropWhile (collects recalled)).foldl addExtra
      ((collectedFront recalled now).foldl addExtra recalled.start) := by
  rw [collectedFront, ← List.foldl_append, List.takeWhile_append_dropWhile]
  rfl

/-- The slot of a type is open as long as nothing is filed under it. -/
theorem typeSlot_pos (label : String) : 0 < typeSlot label := by
  rw [typeSlot]
  split
  · omega
  · omega

/-- An extra that finds a cap reached ends the loop, where nothing is filed under its type. -/
theorem addExtra_closed {state : CoreState} {f : Fragment} (hclosed : Closed state f)
    (hslot : state.typeCounters (typeName f.type) = 0) : addExtra state f = { state with stopped := true } := by
  have hpos := typeSlot_pos (typeName f.type)
  obtain ⟨heq, hstopped | hfull⟩ | ⟨heq, -⟩ | ⟨hrunning, htotal, -, hfiled⟩ := addExtra_cases state f
  · rw [heq, ← hstopped]
  · omega
  · exact heq
  · rcases hclosed with hstopped | hmax | ⟨hlong, hroom⟩
    · rw [hrunning] at hstopped
      cases hstopped
    · omega
    · rcases hfiled with ⟨-, -, hleft⟩ | ⟨-, hfits⟩
      · omega
      · omega

theorem collected_loaded (h : ClosedToStrays recalled now) : Collected recalled (recalled.loaded now) := by
  have hfront : Collected recalled ((collectedFront recalled now).foldl addExtra recalled.start) := collected_front
  rw [loaded_split]
  cases hrest : (recalled.sortedExtras now).dropWhile (collects recalled) with
  | nil => exact hfront
  | cons f later =>
    have hhead : ((recalled.sortedExtras now).dropWhile (collects recalled)).head? = some f := by
      rw [hrest]
      rfl
    have hclosed : Closed ((collectedFront recalled now).foldl addExtra recalled.start) f := h f hhead
    have hslot := @slot_of_stray recalled now _ (first_stray hhead)
    rw [List.foldl_cons, addExtra_closed hclosed hslot, foldl_stopped rfl]
    exact ⟨hfront.strays, hfront.total, hfront.used⟩

/-! ## The caps and the strays -/

theorem collected_mem {label : String} {f : Fragment} (hlabel : label ∈ recalled.types)
    (hf : f ∈ (recalled.loaded now).guaranteed label) : f ∈ loadCoreMemory recalled now :=
  List.mem_flatMap.mpr ⟨label, hlabel, hf⟩

theorem capsHold_of_collected (h : Collected recalled (recalled.loaded now)) : CapsHold recalled now := by
  have haccounted : Accounted recalled (recalled.sortedExtras now) (recalled.loaded now) := accounted_loaded
  have hlabels : (recalled.labels.flatMap (recalled.loaded now).guaranteed).Sublist (loadCoreMemory recalled now) :=
    (distinctOn_sublist _ _).flatMap _
  have htotal := h.total
  have hbound := haccounted.bound
  have hlength := hlabels.length_le
  have hused := h.used
  have hstrays : ∀ label, ∀ f ∈ (recalled.loaded now).guaranteed label, label ∈ recalled.types := by
    intro label f hf
    by_contra hstray
    rw [h.strays label hstray] at hf
    exact absurd hf List.not_mem_nil
  refine ⟨?_, ?_, ?_, ?_, ?_⟩
  · intro label f hf
    exact collected_mem (hstrays label f hf) hf
  · intro label hlabel f hf
    exact collected_mem hlabel (haccounted.tops label hlabel f hf)
  · have hsubset : (loadCoreMemory recalled now).dedup ⊆ recalled.labels.flatMap (recalled.loaded now).guaranteed := by
      intro f hf
      obtain ⟨label, hlabel, hmem⟩ := List.mem_flatMap.mp (List.mem_dedup.mp hf)
      exact List.mem_flatMap.mpr ⟨label, mem_labels.mpr hlabel, hmem⟩
    have hle := (List.subperm_of_subset (List.nodup_dedup _) hsubset).length_le
    omega
  · intro hnodup
    have hsame : recalled.labels = recalled.types :=
      (distinctOn_sublist _ _).eq_of_length_le
        (List.subperm_of_subset hnodup fun _ => mem_labels.mpr).length_le
    rw [hsame] at htotal
    exact htotal.symm.trans_le hbound
  · intro f hf hout
    rcases haccounted.handled f hf with ⟨g, hg, hid⟩ | hmax | hchars | hslot
    · exact absurd hid (hout g (collected_mem (hstrays _ g hg) hg))
    · exact Or.inl (by omega)
    · exact Or.inr (Or.inl (hchars.trans (Nat.add_le_add_right hused 80)))
    · rw [haccounted.counters] at hslot
      refine Or.inr (Or.inr ?_)
      by_cases hlabel : typeName f.type ∈ recalled.types
      · rw [returnedUnder, if_pos hlabel]
        exact hslot
      · have hpos := typeSlot_pos (typeName f.type)
        rw [h.strays _ hlabel, List.length_nil] at hslot
        omega

/-- What one extra files stays filed. -/
theorem grown_foldl (state : CoreState) (extras : List Fragment) : Grown state (extras.foldl addExtra state) := by
  induction extras generalizing state with
  | nil => exact ⟨fun _ _ hf => hf, fun _ => le_rfl, le_rfl, le_rfl⟩
  | cons f later ih =>
    have hfirst := grown_addExtra state f
    have hlater := ih (addExtra state f)
    exact ⟨fun label g hg => hlater.guaranteed label g (hfirst.guaranteed label g hg),
      fun label => (hfirst.typeCounters label).trans (hlater.typeCounters label),
      hfirst.totalAdded.trans hlater.totalAdded, hfirst.usedChars.trans hlater.usedChars⟩

/-- An extra that finds no cap reached is filed, where nothing is filed under its type. -/
theorem addExtra_open {state : CoreState} {f : Fragment} (hopen : ¬ Closed state f)
    (hslot : state.typeCounters (typeName f.type) = 0) :
    ∃ g ∈ (addExtra state f).guaranteed (typeName f.type), g.id = f.id := by
  have hpos := typeSlot_pos (typeName f.type)
  obtain ⟨-, hstopped | hfull⟩ | ⟨-, -, hcap⟩ | ⟨-, -, -, ⟨heq, -⟩ | ⟨heq, -⟩⟩ := addExtra_cases state f
  · exact absurd (Or.inl hstopped) hopen
  · omega
  · exact absurd (Or.inr hcap) hopen
  · rw [heq]
    refine ⟨truncated f (coreCharBudget - state.usedChars), ?_, rfl⟩
    simp only [CoreState.file, Function.update_self]
    exact List.mem_append_right _ (List.mem_singleton.mpr rfl)
  · rw [heq]
    refine ⟨f, ?_, rfl⟩
    simp only [CoreState.file, Function.update_self]
    exact List.mem_append_right _ (List.mem_singleton.mpr rfl)

theorem nodup_sortedExtras : ((recalled.sortedExtras now).map Fragment.id).Nodup :=
  ((List.perm_insertionSort _ _).map _).nodup_iff.mpr (nodup_distinctOn _ _)

theorem not_top_of_extra {f : Fragment} (hf : f ∈ recalled.sortedExtras now) : f.id ∉ recalled.topIds := by
  have hextra : f ∈ recalled.extras := (List.perm_insertionSort _ _).mem_iff.mp hf
  have hkept := (List.mem_filter.mp ((distinctOn_sublist _ _).subset hextra)).2
  simpa using hkept

theorem closed_of_capsHold (h : CapsHold recalled now) : ClosedToStrays recalled now := by
  intro f hhead
  by_contra hopen
  obtain ⟨later, hrest⟩ := List.head?_eq_some_iff.mp hhead
  have hf : f ∈ recalled.sortedExtras now := by
    refine (List.dropWhile_sublist (collects recalled)).subset ?_
    rw [hrest]
    exact List.mem_cons_self
  have hstray := first_stray hhead
  have hslot := @slot_of_stray recalled now _ hstray
  obtain ⟨g, hg, hid⟩ := addExtra_open hopen hslot
  have hloaded : g ∈ (recalled.loaded now).guaranteed (typeName f.type) := by
    rw [loaded_split, hrest]
    exact (grown_foldl _ later).guaranteed _ g hg
  obtain ⟨label, hlabel, hreturned⟩ := List.mem_flatMap.mp (h.counted _ g hloaded)
  have haccounted : Accounted recalled (recalled.sortedExtras now) (recalled.loaded now) := accounted_loaded
  rcases haccounted.ids label g hreturned with htop | ⟨e, he, htype, heid⟩
  · rw [hid] at htop
    exact not_top_of_extra hf htop
  · have hsame := List.inj_on_of_nodup_map nodup_sortedExtras he hf (heid.trans hid)
    rw [hsame] at htype
    rw [htype] at hstray
    exact hstray hlabel

/-- The caps count only what is returned, exactly when one of them is reached before the first extra whose type is the
label of no list. -/
theorem capsHold_iff (recalled : Recalled) (now : Time) : CapsHold recalled now ↔ ClosedToStrays recalled now :=
  ⟨closed_of_capsHold, fun h => capsHold_of_collected (collected_loaded h)⟩

/-- The two facts that the last reflect of a session has stored. -/
def reflectRecalled : Recalled where
  types := ["preference", "error", "procedure", "decision", "session_reflect"]
  lists label :=
    let fact : Fragment :=
      { id := "frag-01", content := "The gateway restarts at night.", topic := "session_reflect", type := .fact
        importance := 6 / 10, contentHash := "", keyId := none, createdAt := 0 }
    if label = "session_reflect" then [fact, { fact with id := "frag-02", content := "The runner has two cores." }] else []

/-- The second fact is counted and not returned. -/
theorem reflect_extra_lost : ¬ CapsHold reflectRecalled 0 := by
  intro h
  have hfiled : ((reflectRecalled.loaded 0).guaranteed "fact").map Fragment.id = ["frag-02"] := by decide
  have hreturned : (loadCoreMemory reflectRecalled 0).map Fragment.id = ["frag-01"] := by decide
  have hmem : "frag-02" ∈ ((reflectRecalled.loaded 0).guaranteed "fact").map Fragment.id := by
    rw [hfiled]
    exact List.mem_singleton.mpr rfl
  obtain ⟨f, hf, hid⟩ := List.mem_map.mp hmem
  have hin := List.mem_map_of_mem (f := Fragment.id) (h.counted "fact" f hf)
  rw [hreturned, hid] at hin
  simp at hin

end FragmentMemory.CoreMemory
