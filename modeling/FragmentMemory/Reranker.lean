import Mathlib.Tactic.Linarith
import Mathlib.Tactic.Positivity
import FragmentMemory.AccessedSearch

/-! # Reranker

`rerank` multiplies the scores of a service by a recency boost and sorts by the products.  An array of results is read
into one score for each candidate, while the `scores` of an object are taken as they are: a candidate without one gets
`NaN`, and a boost above one moves a negative score down.
-/
namespace FragmentMemory.Reranker
open FragmentTables RecallQueries VisibleRows

/-- A number of JavaScript, exact where it is finite; the text `1e999` of an answer is read as infinite. -/
inductive JsNumber
  | finite (q : ℚ)
  | infinite (positive : Bool)
  | nan
  deriving DecidableEq

namespace JsNumber

/-- The product with a positive number. -/
def scale (factor : ℚ) : JsNumber → JsNumber
  | finite q => finite (q * factor)
  | infinite positive => infinite positive
  | nan => nan

/-- The order of the numbers; `NaN` is in no relation. -/
def less : JsNumber → JsNumber → Prop
  | finite p, finite q => p < q
  | finite _, infinite positive => positive = true
  | infinite positive, finite _ => positive = false
  | infinite positive, infinite other => positive = false ∧ other = true
  | _, _ => False

def isFinite : JsNumber → Bool
  | finite _ => true
  | _ => false

def value : JsNumber → ℚ
  | finite q => q
  | _ => 0

@[simp] theorem isFinite_scale (factor : ℚ) (x : JsNumber) : (x.scale factor).isFinite = x.isFinite := by
  cases x <;> rfl

theorem eq_finite {x : JsNumber} (h : x.isFinite = true) : x = finite x.value := by
  cases x with
  | finite q => rfl
  | infinite positive => cases h
  | nan => cases h

theorem value_scale (factor : ℚ) (x : JsNumber) : (x.scale factor).value = x.value * factor := by
  cases x with
  | finite q => rfl
  | infinite positive => exact (zero_mul factor).symm
  | nan => exact (zero_mul factor).symm

theorem less_iff {x y : JsNumber} (hx : x.isFinite = true) (hy : y.isFinite = true) : x.less y ↔ x.value < y.value := by
  rw [eq_finite hx, eq_finite hy]
  rfl

end JsNumber

/-! ## The answer of the service -/

/-- An entry of an array answer; none stands for a field that is no integer, or no number. -/
structure RankedEntry where
  index : Option ℤ
  score : Option JsNumber

inductive Answer
  /-- An error, a timeout, or a status or body that cannot be used. -/
  | failed
  | entries (results : List RankedEntry)
  /-- An object; none when it has no `scores`. -/
  | object (scores : Option (List JsNumber))

def setScore (scores : List JsNumber) (r : RankedEntry) : List JsNumber :=
  match r.index, r.score with
  | some index, some score => if 0 ≤ index ∧ index < scores.length then scores.set index.toNat score else scores
  | _, _ => scores

/-- `rerankExternal`: the scores for so many documents. -/
def rerankExternal (answer : Answer) (documents : ℕ) : Option (List JsNumber) :=
  match answer with
  | .failed => none
  | .entries [] => none
  | .entries (first :: later) => some ((first :: later).foldl setScore (List.replicate documents (.finite 0)))
  | .object scores => scores

/-! ## `rerank` -/

/-- A linear decay over 365 days, from 1.1 down to 0.92; a candidate without a time counts as new. -/
def computeRecencyBoost (createdAt : Option Time) (now : Time) : ℚ :=
  let ageDays := max 0 (((now : ℚ) - (createdAt.getD now : ℚ)) / 86400000)
  let recency := max (1 / 10) (min 1 (1 - ageDays / 365 * (9 / 10)))
  1 + 2 / 10 * (recency - 1 / 2)

structure Scored (α : Type*) where
  candidate : α
  rerankerScore : JsNumber
  deriving DecidableEq

/-- The comparison of the sort, where the scores are finite. -/
def Above {α : Type*} (s t : Scored α) : Prop := t.rerankerScore.value ≤ s.rerankerScore.value

instance {α : Type*} : DecidableRel (@Above α) := fun s t =>
  inferInstanceAs (Decidable (t.rerankerScore.value ≤ s.rerankerScore.value))

instance {α : Type*} : Std.Total (@Above α) := ⟨fun _ _ => le_total _ _⟩

instance {α : Type*} : IsTrans (Scored α) Above := ⟨fun _ _ _ hst htu => le_trans htu hst⟩

/-- `Array.prototype.sort` by descending scores.  It is stable, and the language leaves the order open when the
comparison is inconsistent, which it is with `NaN`. -/
structure SortEngine (α : Type*) where
  sort : List (Scored α) → List (Scored α)
  perm : ∀ scored, (sort scored).Perm scored
  stable : ∀ scored, (∀ s ∈ scored, s.rerankerScore.isFinite = true) →
    sort scored = scored.insertionSort Above

def SortEngine.insertion (α : Type*) : SortEngine α where
  sort scored := scored.insertionSort Above
  perm scored := List.perm_insertionSort _ scored
  stable _ _ := rfl

inductive Mode | external | inprocess
  deriving DecidableEq

structure RerankerState where
  mode : Mode
  consecutiveExternalFails : ℕ := 0
  externalCooldownUntil : Time := 0
  deriving DecidableEq

/-- `RERANKER_EXTERNAL_FALLBACK` is `inprocess`, and `RERANKER_EXTERNAL_COOLDOWN_MS`. -/
structure RerankerSettings where
  fallbackInprocess : Bool := false
  cooldownMs : ℕ := 60000

/-- A failed call; every third one in a row gives up the service, for a while or for good. -/
def RerankerState.afterFailure (settings : RerankerSettings) (now : Time) (state : RerankerState) : RerankerState :=
  if state.consecutiveExternalFails + 1 ≥ 3 then
    if settings.fallbackInprocess then { state with mode := .inprocess, consecutiveExternalFails := 0 }
    else
      { state with
        consecutiveExternalFails := state.consecutiveExternalFails + 1
        externalCooldownUntil := now + settings.cooldownMs }
  else { state with consecutiveExternalFails := state.consecutiveExternalFails + 1 }

inductive Reranked (α : Type*)
  | unchanged (candidates : List α)
  | scored (result : List (Scored α))
  deriving DecidableEq

variable {α : Type*} (createdAt : α → Option Time) (now : Time)

/-- A candidate with the score at its position; there may be none. -/
structure Given (α : Type*) where
  candidate : α
  score : JsNumber

def given (scores : List JsNumber) (candidates : List α) : List (Given α) :=
  candidates.zipIdx.map fun entry => ⟨entry.1, scores.getD entry.2 .nan⟩

/-- `scores[i] * computeRecencyBoost(c.created_at)`. -/
def Given.boosted (g : Given α) : Scored α :=
  ⟨g.candidate, g.score.scale (computeRecencyBoost (createdAt g.candidate) now)⟩

/-- `rerank`; in process the scores come from the model, where it is loaded. -/
def rerank (engine : SortEngine α) (settings : RerankerSettings) (answer : Answer) (inProcess : Option (List JsNumber))
    (state : RerankerState) (candidates : List α) (topK : ℕ) : Reranked α × RerankerState :=
  if candidates.isEmpty then (.unchanged [], state)
  else if state.mode = .external ∧ now < state.externalCooldownUntil then (.unchanged candidates, state)
  else
    match if state.mode = .external then rerankExternal answer candidates.length else inProcess with
    | none => (.unchanged candidates, if state.mode = .external then state.afterFailure settings now else state)
    | some scores =>
      (.scored ((engine.sort ((given scores candidates).map (Given.boosted createdAt now))).take topK),
        if state.mode = .external then { state with consecutiveExternalFails := 0, externalCooldownUntil := 0 } else state)

/-- The scores that a call sorts by; none when it returns the candidates as they are. -/
def usedScores (answer : Answer) (inProcess : Option (List JsNumber)) (state : RerankerState) (candidates : List α) :
    Option (List JsNumber) :=
  if candidates.isEmpty ∨ (state.mode = .external ∧ now < state.externalCooldownUntil) then none
  else if state.mode = .external then rerankExternal answer candidates.length else inProcess

variable {createdAt now}

theorem rerank_eq (engine : SortEngine α) (settings : RerankerSettings) (answer : Answer)
    (inProcess : Option (List JsNumber)) (state : RerankerState) (candidates : List α) (topK : ℕ) :
    (rerank createdAt now engine settings answer inProcess state candidates topK).1 =
      match usedScores now answer inProcess state candidates with
      | none => .unchanged candidates
      | some scores =>
        .scored ((engine.sort ((given scores candidates).map (Given.boosted createdAt now))).take topK) := by
  cases candidates with
  | nil => rfl
  | cons first later =>
    by_cases hcooldown : state.mode = .external ∧ now < state.externalCooldownUntil
    · simp [rerank, usedScores, hcooldown]
    · simp only [rerank, usedScores, List.isEmpty_cons, Bool.false_eq_true, if_false, hcooldown, or_self]
      cases if state.mode = .external then rerankExternal answer (first :: later).length else inProcess with
      | none => rfl
      | some scores => rfl

/-! ## The boost -/

theorem boost_pos (time : Option Time) : 0 < computeRecencyBoost time now := by
  have hrecency : (1 : ℚ) / 10 ≤ max (1 / 10)
      (min 1 (1 - max 0 (((now : ℚ) - (time.getD now : ℚ)) / 86400000) / 365 * (9 / 10))) := le_max_left _ _
  rw [computeRecencyBoost]
  linarith

/-- A more recent time has at least the boost of an older one. -/
theorem boost_mono {older newer : Time} (h : older ≤ newer) :
    computeRecencyBoost (some older) now ≤ computeRecencyBoost (some newer) now := by
  have htime : (older : ℚ) ≤ newer := by exact_mod_cast h
  have hage : max 0 (((now : ℚ) - newer) / 86400000) ≤ max 0 (((now : ℚ) - older) / 86400000) := by
    refine max_le_max le_rfl ?_
    linarith
  have hrecency := max_le_max (le_refl ((1 : ℚ) / 10)) (min_le_min (le_refl (1 : ℚ))
    (show 1 - max 0 (((now : ℚ) - older) / 86400000) / 365 * (9 / 10) ≤
      1 - max 0 (((now : ℚ) - newer) / 86400000) / 365 * (9 / 10) by linarith))
  simp only [computeRecencyBoost, Option.getD_some]
  linarith

/-- The product of the score and the boost. -/
def Given.product (createdAt : α → Option Time) (now : Time) (g : Given α) : ℚ :=
  g.score.value * computeRecencyBoost (createdAt g.candidate) now

theorem boosted_value (g : Given α) : (g.boosted createdAt now).rerankerScore.value = g.product createdAt now :=
  JsNumber.value_scale _ _

theorem above_boosted {g h : Given α} :
    Above (h.boosted createdAt now) (g.boosted createdAt now) ↔ g.product createdAt now ≤ h.product createdAt now := by
  rw [Above, boosted_value, boosted_value]

/-- What a candidate was given can be read off its product. -/
theorem boosted_injective {g h : Given α} (hg : g.score.isFinite = true) (hh : h.score.isFinite = true)
    (heq : g.boosted createdAt now = h.boosted createdAt now) : g = h := by
  have hcandidate : g.candidate = h.candidate := congrArg Scored.candidate heq
  have hvalue : g.product createdAt now = h.product createdAt now := by
    rw [← boosted_value, ← boosted_value, heq]
  have hpos := @boost_pos now (createdAt h.candidate)
  rw [Given.product, Given.product, hcandidate] at hvalue
  have hscore : g.score = h.score := by
    rw [JsNumber.eq_finite hg, JsNumber.eq_finite hh, mul_right_cancel₀ (ne_of_gt hpos) hvalue]
  obtain ⟨candidate, score⟩ := g
  obtain ⟨candidate', score'⟩ := h
  dsimp only at hcandidate hscore
  rw [hcandidate, hscore]

/-! ## The law of a ranking -/

/-- More recent than another candidate. -/
def Newer (createdAt : α → Option Time) (g h : Given α) : Prop :=
  ∃ time time', createdAt g.candidate = some time ∧ createdAt h.candidate = some time' ∧ time' < time

/-- A higher score at the same time, or at least the same score at a later one. -/
def Better (createdAt : α → Option Time) (g h : Given α) : Prop :=
  ((∃ time, createdAt g.candidate = some time ∧ createdAt h.candidate = some time) ∧ h.score.less g.score) ∨
    (Newer createdAt g h ∧ (h.score.less g.score ∨ (h.score = g.score ∧ g.score ≠ .nan)))

/-- At most so many of the candidates, all with finite scores in descending order, and no candidate behind one that it is
better than, or left out in favour of it. -/
structure Ranked (createdAt : α → Option Time) (now : Time) (all : List (Given α)) (topK : ℕ)
    (result : List (Scored α)) : Prop where
  length : result.length ≤ topK
  distinct : (result.map Scored.candidate).Subperm (all.map Given.candidate)
  finite : ∀ s ∈ result, s.rerankerScore.isFinite = true
  descending : result.Pairwise fun s t => ¬ s.rerankerScore.less t.rerankerScore
  ordered : ∀ g ∈ all, ∀ h ∈ all, Better createdAt g h →
    ¬ [h.boosted createdAt now, g.boosted createdAt now].Sublist result
  kept : ∀ g ∈ all, ∀ h ∈ all, Better createdAt g h → h.boosted createdAt now ∈ result → g.boosted createdAt now ∈ result

/-- A more recent candidate with at least the same score that the boost does not keep in front: a negative score falls
below the other one, or the products are equal and the other one stands first in the list. -/
def Inverted (createdAt : α → Option Time) (now : Time) (all : List (Given α)) (g h : Given α) : Prop :=
  Newer createdAt g h ∧ h.score.value ≤ g.score.value ∧
    ((g.score.value < 0 ∧ g.product createdAt now < h.product createdAt now) ∨
      (g.product createdAt now = h.product createdAt now ∧ [h, g].Sublist all))

structure Orderable (createdAt : α → Option Time) (now : Time) (all : List (Given α)) : Prop where
  finite : ∀ g ∈ all, g.score.isFinite = true
  upright : ∀ g ∈ all, ∀ h ∈ all, ¬ Inverted createdAt now all g h

theorem product_le_of_newer {g h : Given α} (hnewer : Newer createdAt g h) (hscore : h.score.value ≤ g.score.value)
    (hpos : 0 ≤ g.score.value) : h.product createdAt now ≤ g.product createdAt now := by
  obtain ⟨time, time', htime, htime', hlt⟩ := hnewer
  have hboost := @boost_mono now _ _ hlt.le
  have hold := @boost_pos now (some time')
  rw [Given.product, Given.product, htime, htime']
  calc h.score.value * computeRecencyBoost (some time') now
      ≤ g.score.value * computeRecencyBoost (some time') now := mul_le_mul_of_nonneg_right hscore hold.le
    _ ≤ g.score.value * computeRecencyBoost (some time) now := mul_le_mul_of_nonneg_left hboost hpos

theorem product_lt_of_less {g h : Given α} {time : Time} (hg : createdAt g.candidate = some time)
    (hh : createdAt h.candidate = some time) (hscore : h.score.value < g.score.value) :
    h.product createdAt now < g.product createdAt now := by
  rw [Given.product, Given.product, hg, hh]
  exact mul_lt_mul_of_pos_right hscore (boost_pos _)

variable {all : List (Given α)}

/-- Of two candidates the one in front has at least the product of the other one. -/
theorem product_le_of_sublist {g h : Given α}
    (hpair : [h.boosted createdAt now, g.boosted createdAt now].Sublist
      ((all.map (Given.boosted createdAt now)).insertionSort Above)) :
    g.product createdAt now ≤ h.product createdAt now := by
  have hsorted := (List.pairwise_insertionSort Above
    (all.map (Given.boosted createdAt now))).sublist hpair
  exact above_boosted.mp ((List.pairwise_cons.mp hsorted).1 _ (List.mem_singleton.mpr rfl))

/-- In the sorted products a tie keeps the order of the candidates. -/
theorem tied_sublist (hfinite : ∀ g ∈ all, g.score.isFinite = true) {g h : Given α} (hg : g ∈ all) (hh : h ∈ all)
    (htied : g.product createdAt now = h.product createdAt now)
    (hpair : [h.boosted createdAt now, g.boosted createdAt now].Sublist
      ((all.map (Given.boosted createdAt now)).insertionSort Above)) :
    [h, g].Sublist all := by
  have hmapped := pair_sublist_of_tied (above_boosted.mpr htied.le) (above_boosted.mpr htied.ge) hpair
  obtain ⟨pair, hsub, heq⟩ := List.sublist_map_iff.mp hmapped
  obtain ⟨x, rest, rfl, hx, hrest⟩ := List.map_eq_cons_iff.mp heq.symm
  obtain ⟨y, rest', rfl, hy, hnil⟩ := List.map_eq_cons_iff.mp hrest
  obtain rfl := List.map_eq_nil_iff.mp hnil
  have hxmem : x ∈ all := hsub.subset List.mem_cons_self
  have hymem : y ∈ all := hsub.subset (List.mem_cons_of_mem x List.mem_cons_self)
  rw [← boosted_injective (hfinite x hxmem) (hfinite h hh) hx, ← boosted_injective (hfinite y hymem) (hfinite g hg) hy]
  exact hsub

/-- Without an inversion no candidate stands behind one that it is better than. -/
theorem not_sublist_of_better (horderable : Orderable createdAt now all) {g h : Given α}
    (hg : g ∈ all) (hh : h ∈ all) (hbetter : Better createdAt g h) :
    ¬ [h.boosted createdAt now, g.boosted createdAt now].Sublist
      ((all.map (Given.boosted createdAt now)).insertionSort Above) := by
  intro hpair
  have hle := product_le_of_sublist hpair
  have hless := JsNumber.less_iff (horderable.finite h hh) (horderable.finite g hg)
  rcases hbetter with ⟨⟨time, htime, htime'⟩, hscore⟩ | ⟨hnewer, hscore⟩
  · have hlt := @product_lt_of_less _ createdAt now _ _ _ htime htime' (hless.mp hscore)
    exact absurd hle (not_le.mpr hlt)
  · have hvalue : h.score.value ≤ g.score.value := by
      rcases hscore with hlower | ⟨heq, -⟩
      · exact (hless.mp hlower).le
      · rw [heq]
    rcases lt_or_eq_of_le hle with hlt | htied
    · rcases lt_or_ge g.score.value 0 with hneg | hpos
      · exact horderable.upright g hg h hh ⟨hnewer, hvalue, Or.inl ⟨hneg, hlt⟩⟩
      · exact absurd hlt (not_lt.mpr (product_le_of_newer hnewer hvalue hpos))
    · have hfirst := tied_sublist horderable.finite hg hh htied hpair
      exact horderable.upright g hg h hh ⟨hnewer, hvalue, Or.inr ⟨htied, hfirst⟩⟩

variable {engine : SortEngine α}

theorem isFinite_boosted (hfinite : ∀ g ∈ all, g.score.isFinite = true) :
    ∀ s ∈ all.map (Given.boosted createdAt now), s.rerankerScore.isFinite = true := by
  intro s hs
  obtain ⟨g, hg, rfl⟩ := List.mem_map.mp hs
  exact (JsNumber.isFinite_scale _ _).trans (hfinite g hg)

theorem subperm_candidates {scored : List (Scored α)} (hperm : scored.Perm (all.map (Given.boosted createdAt now)))
    (topK : ℕ) : ((scored.take topK).map Scored.candidate).Subperm (all.map Given.candidate) := by
  have hmap : (all.map (Given.boosted createdAt now)).map Scored.candidate = all.map Given.candidate := by
    rw [List.map_map]
    rfl
  have htake : ((scored.take topK).map Scored.candidate).Sublist (scored.map Scored.candidate) :=
    (List.take_sublist topK scored).map _
  rw [← hmap]
  exact htake.subperm.trans (hperm.map _).subperm

theorem ranked_of_orderable (h : Orderable createdAt now all) (topK : ℕ) :
    Ranked createdAt now all topK ((engine.sort (all.map (Given.boosted createdAt now))).take topK) := by
  have hscored := @isFinite_boosted _ createdAt now _ h.finite
  have hstable := engine.stable _ hscored
  have hperm := engine.perm (all.map (Given.boosted createdAt now))
  have hfinite : ∀ s ∈ (engine.sort (all.map (Given.boosted createdAt now))).take topK,
      s.rerankerScore.isFinite = true := fun s hs => hscored s (hperm.mem_iff.mp (List.mem_of_mem_take hs))
  have hsorted := List.pairwise_insertionSort Above
    (all.map (Given.boosted createdAt now))
  rw [← hstable] at hsorted
  refine ⟨List.length_take_le _ _, subperm_candidates hperm topK, hfinite, ?_, ?_, ?_⟩
  · refine (hsorted.sublist (List.take_sublist topK _)).imp_of_mem fun hs ht hle hless => ?_
    exact absurd hle (not_le.mpr ((JsNumber.less_iff (hfinite _ hs) (hfinite _ ht)).mp hless))
  · intro g hg h' hh' hbetter hpair
    have hall := hpair.trans (List.take_sublist topK _)
    rw [hstable] at hall
    exact not_sublist_of_better h hg hh' hbetter hall
  · intro g hg h' hh' hbetter hin
    by_contra hout
    have hg' : g.boosted createdAt now ∈ engine.sort (all.map (Given.boosted createdAt now)) :=
      hperm.mem_iff.mpr (List.mem_map_of_mem hg)
    rw [← List.take_append_drop topK (engine.sort _)] at hg'
    have hdropped := (List.mem_append.mp hg').resolve_left hout
    have hall := (List.singleton_sublist.mpr hin).append (List.singleton_sublist.mpr hdropped)
    rw [List.take_append_drop, hstable] at hall
    exact not_sublist_of_better h hg hh' hbetter hall

/-- The ranking of all the candidates shows whether they can be ordered. -/
theorem orderable_of_ranked
    (h : Ranked createdAt now all all.length ((engine.sort (all.map (Given.boosted createdAt now))).take all.length)) :
    Orderable createdAt now all := by
  have hperm := engine.perm (all.map (Given.boosted createdAt now))
  have hwhole : (engine.sort (all.map (Given.boosted createdAt now))).take all.length =
      engine.sort (all.map (Given.boosted createdAt now)) := by
    rw [List.take_of_length_le]
    rw [hperm.length_eq, List.length_map]
  rw [hwhole] at h
  have hfinite : ∀ g ∈ all, g.score.isFinite = true := by
    intro g hg
    have hscore := h.finite _ (hperm.mem_iff.mpr (List.mem_map_of_mem hg))
    exact (JsNumber.isFinite_scale _ _).symm.trans hscore
  have hstable := engine.stable _ (@isFinite_boosted _ createdAt now _ hfinite)
  refine ⟨hfinite, ?_⟩
  intro g hg h' hh' hinverted
  obtain ⟨hnewer, hvalue, hcase⟩ := hinverted
  have hbetter : Better createdAt g h' := by
    refine Or.inr ⟨hnewer, ?_⟩
    rcases lt_or_eq_of_le hvalue with hlt | heq
    · exact Or.inl ((JsNumber.less_iff (hfinite h' hh') (hfinite g hg)).mpr hlt)
    · refine Or.inr ⟨?_, ?_⟩
      · rw [JsNumber.eq_finite (hfinite h' hh'), JsNumber.eq_finite (hfinite g hg), heq]
      · intro hnan
        have := hfinite g hg
        rw [hnan] at this
        cases this
  refine h.ordered g hg h' hh' hbetter ?_
  rw [hstable]
  rcases hcase with ⟨-, hlt⟩ | ⟨htied, hfirst⟩
  · refine pair_sublist_of_sorted (List.pairwise_insertionSort _ _) ?_ ?_ ?_ ?_
    · exact (List.mem_insertionSort _).mpr (List.mem_map_of_mem hh')
    · exact (List.mem_insertionSort _).mpr (List.mem_map_of_mem hg)
    · exact fun habove => absurd (above_boosted.mp habove) (not_le.mpr hlt)
    · intro heq
      have hsame : h'.product createdAt now = g.product createdAt now := by
        rw [← boosted_value, ← boosted_value, heq]
      exact absurd hsame (ne_of_gt hlt)
  · refine List.pair_sublist_insertionSort ?_ (hfirst.map _)
    exact above_boosted.mpr htied.le

/-- The candidates as they are, or a ranking by the scores of the call. -/
def Respects (createdAt : α → Option Time) (now : Time) (used : Option (List JsNumber)) (candidates : List α) (topK : ℕ)
    (result : Reranked α) : Prop :=
  result = .unchanged candidates ∨
    ∃ scores r, used = some scores ∧ result = .scored r ∧ Ranked createdAt now (given scores candidates) topK r

/-- A scored hit of the search. -/
def scoredHit (s : Scored Hit) : Hit := { s.candidate with rerankerScore := some s.rerankerScore.value }

theorem scoredHit_given (scores : List JsNumber) (hits : List Hit) :
    ((given scores hits).map (Given.boosted (fun hit => some hit.row.createdAt) now)).map scoredHit =
      hits.zipIdx.map (AccessedSearch.withScore
        ((given scores hits).map (Given.product (fun hit => some hit.row.createdAt) now))) := by
  refine List.ext_getElem (by simp [given]) fun i hi hi' => ?_
  have hindex : i < hits.length := by simpa [given] using hi
  have hproduct : ((given scores hits).map (Given.product (fun hit => some hit.row.createdAt) now))[i]? =
      some ((scores.getD i .nan).value * computeRecencyBoost (some hits[i].row.createdAt) now) := by
    simp [given, Given.product, hindex]
  simp only [List.getElem_map, List.getElem_zipIdx, AccessedSearch.withScore, scoredHit, boosted_value, Nat.zero_add,
    List.getD_eq_getElem?_getD, hproduct]
  simp [given, Given.boosted, Given.product]

/-- With finite scores the first fifteen hits are those of the search that reorders by the products. -/
theorem rerank_hits (engine : SortEngine Hit) {scores : List JsNumber} {hits : List Hit}
    (hfinite : ∀ g ∈ given scores hits, g.score.isFinite = true) :
    ((engine.sort ((given scores hits).map (Given.boosted (fun hit => some hit.row.createdAt) now))).take 15).map scoredHit =
      FragmentSearch.rerank hits ((given scores hits).map (Given.product (fun hit => some hit.row.createdAt) now)) := by
  have hsorted := AccessColumns.sorted_map (r := @Above Hit) (s := fun a b : Hit =>
    b.rerankerScore.getD 0 ≤ a.rerankerScore.getD 0) scoredHit fun _ _ => Iff.rfl
  rw [engine.stable _ (isFinite_boosted hfinite), List.map_take, ← hsorted, scoredHit_given,
    AccessedSearch.rerank_eq_sorted]

end FragmentMemory.Reranker
