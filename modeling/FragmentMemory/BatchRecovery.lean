import FragmentMemory.EmbeddingWorker
import FragmentMemory.IndexedIsolation

/-! # Recovery from a rejected batch of embeddings

`_embedChunk` and `_registerChunk` with a service that rejects every request with a bad text and names an
index.  `generateBatchEmbeddings` sends a chunk in requests of 100 texts, while the index is taken as a
position in the whole chunk, so the recovery is right for the first request only.
-/
namespace FragmentMemory.BatchRecovery
open IndexedIsolation
open EmbeddingWorker hiding generateBatchEmbeddings

/-- A service that rejects a request with a bad text as `Invalid 'input[N]'`.  The number may be any, and
another one at each attempt. -/
structure RejectingService (Vec : Type) extends EmbeddingService Vec where
  rejects : String → Bool
  index : ℕ → List String → ℕ

variable {Vec : Type} (service : RejectingService Vec)

/-- The number is the position of a bad text in the rejected request. -/
def RejectingService.Honest : Prop :=
  ∀ attempt batch, batch.any service.rejects = true →
    ∃ text, batch[service.index attempt batch]? = some text ∧ service.rejects text = true

/-- The requests of one call in their order; the first rejection is thrown. -/
def sendAll (attempt : ℕ) : List (List String) → Except ℕ (List Vec)
  | [] => .ok []
  | batch :: later =>
    if batch.any service.rejects then .error (service.index attempt batch)
    else (sendAll attempt later).map fun vecs => embedBatch service.toEmbeddingService batch ++ vecs

def generateBatchEmbeddings (attempt : ℕ) (texts : List String) : Except ℕ (List Vec) :=
  sendAll service attempt (batches 100 texts)

/-- One round of `_embedChunk`: the cached vectors when there is one for every row. -/
def chunkAnswer (config : Config) (cache : String → Option Vec) (attempt : ℕ) (rows : List WorkRow) :
    Except ℕ (List (WorkRow × Vec)) :=
  let texts := rows.map fun row => config.cacheKeyText row.content
  match texts.mapM cache with
  | some vecs => .ok (rows.zip vecs)
  | none => (generateBatchEmbeddings service attempt texts).map fun vecs => rows.zip vecs

/-- `_embedChunk`: the rows of the UPDATE with their vectors, and the dead letters. -/
def embedChunk (config : Config) (cache : String → Option Vec) (fuel : ℕ) (rows : List WorkRow) :
    Option (Isolation WorkRow Vec) := isolate (chunkAnswer service config cache) fuel 0 rows

/-- `_fallbackSingleRegister`. -/
def fallbackSingleRegister (batch : List String) : List (String × Vec) :=
  batch.filterMap fun morpheme =>
    if service.rejects morpheme then none
    else (generateEmbedding service.toEmbeddingService morpheme).map fun vec => (morpheme, vec)

/-- One round of `_registerChunk`. -/
def registerAnswer (attempt : ℕ) (batch : List String) : Except ℕ (List (String × Vec)) :=
  (generateBatchEmbeddings service attempt batch).map fun vecs =>
    if vecs.length ≠ batch.length then fallbackSingleRegister service batch else batch.zip vecs

/-- `_registerChunk`: the registered morphemes with their vectors, and the skipped ones. -/
def registerChunk (fuel : ℕ) (batch : List String) : Option (Isolation String Vec) :=
  isolate (registerAnswer service) fuel 0 batch

def rejectsRow (config : Config) (row : WorkRow) : Bool := service.rejects (config.cacheKeyText row.content)

/-- The call returns, only bad items are dead-lettered or skipped, and every other item is embedded. -/
def Recovers {α : Type} (call : ℕ → List α → Option (Isolation α Vec)) (bad : α → Bool) (items : List α) : Prop :=
  ∃ fuel result, call fuel items = some result ∧ (∀ item ∈ result.setAside, bad item = true) ∧
    ∀ item ∈ items, bad item = false → item ∈ result.answered.map Prod.fst

/-- Fewer than 100 good items stand before each bad one. -/
def FewBefore {α : Type} (bad : α → Bool) (items : List α) : Prop :=
  ∀ before item after, items = before ++ item :: after → bad item = true →
    (before.filter fun other => !bad other).length < 100

/-! ## The requests of a call -/

theorem batches_cons {texts : List String} (h : texts ≠ []) :
    batches 100 texts = texts.take 100 :: batches 100 (texts.drop 100) := by
  rw [batches, dif_neg (by simp [h])]

theorem length_le_of_mem_batches {texts batch : List String} (h : batch ∈ batches 100 texts) : batch.length ≤ 100 := by
  fun_induction batches 100 texts with
  | case1 texts hstop => exact absurd h List.not_mem_nil
  | case2 texts hgo ih =>
    rcases List.mem_cons.mp h with rfl | hlater
    · exact List.length_take_le 100 texts
    · exact ih hlater

variable {service} {attempt index : ℕ} {texts : List String}

theorem sendAll_ok {requests : List (List String)} {vecs : List Vec} (h : sendAll service attempt requests = .ok vecs) :
    (∀ batch ∈ requests, batch.any service.rejects = false) ∧
      vecs = requests.flatMap (embedBatch service.toEmbeddingService) := by
  induction requests generalizing vecs with
  | nil => exact ⟨fun _ hbatch => absurd hbatch List.not_mem_nil, (Except.ok.inj h).symm⟩
  | cons batch later ih =>
    rw [sendAll] at h
    split at h
    · cases h
    · rename_i haccepted
      cases hlater : sendAll service attempt later with
      | error number =>
        rw [hlater] at h
        cases h
      | ok rest =>
        rw [hlater] at h
        obtain ⟨hrest, hvecs⟩ := ih hlater
        refine ⟨?_, ?_⟩
        · intro other hother
          rcases List.mem_cons.mp hother with rfl | hmem
          · exact Bool.of_not_eq_true haccepted
          · exact hrest other hmem
        · rw [List.flatMap_cons, ← hvecs]
          exact (Except.ok.inj h).symm

theorem sendAll_error {requests : List (List String)} (h : sendAll service attempt requests = .error index) :
    ∃ before batch after, requests = before ++ batch :: after ∧
      (∀ other ∈ before, other.any service.rejects = false) ∧ batch.any service.rejects = true ∧
        index = service.index attempt batch := by
  induction requests with
  | nil => cases h
  | cons batch later ih =>
    rw [sendAll] at h
    split at h
    · rename_i hrejected
      exact ⟨[], batch, later, rfl, fun _ hother => absurd hother List.not_mem_nil, hrejected, (Except.error.inj h).symm⟩
    · rename_i haccepted
      cases hlater : sendAll service attempt later with
      | ok vecs =>
        rw [hlater] at h
        cases h
      | error number =>
        rw [hlater] at h
        obtain rfl : number = index := Except.error.inj h
        obtain ⟨before, other, after, rfl, hbefore, hrejected, hindex⟩ := ih hlater
        refine ⟨batch :: before, other, after, rfl, ?_, hrejected, hindex⟩
        intro first hfirst
        rcases List.mem_cons.mp hfirst with rfl | hmem
        · exact Bool.of_not_eq_true haccepted
        · exact hbefore first hmem

/-- An answered call has no bad text, and a vector for each text. -/
theorem generateBatchEmbeddings_ok {vecs : List Vec} (h : generateBatchEmbeddings service attempt texts = .ok vecs) :
    (∀ text ∈ texts, service.rejects text = false) ∧ vecs.length = texts.length := by
  obtain ⟨haccepted, rfl⟩ := sendAll_ok h
  have hflat := flatten_batches 100 (by omega) texts
  constructor
  · intro text htext
    rw [← hflat] at htext
    obtain ⟨batch, hbatch, hmem⟩ := List.mem_flatten.mp htext
    exact Bool.of_not_eq_true fun hrejects => by
      have hany := List.any_eq_true.mpr ⟨text, hmem, hrejects⟩
      rw [haccepted batch hbatch] at hany
      cases hany
  · have hlength :=
      congrArg List.length (@EmbeddingWorker.generateBatchEmbeddings_eq Vec service.toEmbeddingService texts)
    rw [List.length_map] at hlength
    exact hlength

theorem batches_ne_nil {requests : List (List String)} {batch : List String} (h : batches 100 texts = requests)
    (hbatch : batch ∈ requests) : texts ≠ [] := by
  rintro rfl
  rw [batches, dif_pos (Or.inl rfl)] at h
  rw [← h] at hbatch
  exact absurd hbatch List.not_mem_nil

/-- A bad text after a whole request of good ones. -/
theorem not_fewBefore_of_rejected {batch : List String} (hbatch : batch ∈ batches 100 (texts.drop 100))
    (hrejected : batch.any service.rejects = true) (hlength : 100 ≤ texts.length)
    (hgood : ∀ text ∈ texts.take 100, service.rejects text = false) : ¬ FewBefore service.rejects texts := by
  intro hfew
  obtain ⟨text, htext, hbad⟩ := List.any_eq_true.mp hrejected
  have hmem : text ∈ texts.drop 100 := by
    rw [← flatten_batches 100 (by omega) (texts.drop 100)]
    exact List.mem_flatten.mpr ⟨batch, hbatch, htext⟩
  obtain ⟨between, after, hdrop⟩ := List.append_of_mem hmem
  have htexts : texts = texts.take 100 ++ between ++ text :: after := by
    rw [List.append_assoc, ← hdrop, List.take_append_drop]
  have hcount := hfew _ text after htexts hbad
  have hall : (texts.take 100).filter (fun other => !service.rejects other) = texts.take 100 :=
    List.filter_eq_self.mpr fun other hother => by rw [hgood other hother, Bool.not_false]
  rw [List.filter_append, hall, List.length_append, List.length_take, Nat.min_eq_left hlength] at hcount
  omega

/-- Where an honest service points in the chunk: at the bad text of the first request, or else at a good text, with
a bad one after a whole request of good ones. -/
theorem generateBatchEmbeddings_error (hhonest : service.Honest)
    (h : generateBatchEmbeddings service attempt texts = .error index) :
    index < 100 ∧ ∃ text, texts[index]? = some text ∧ (service.rejects text = true ∨
      (service.rejects text = false ∧ ¬ FewBefore service.rejects texts)) := by
  obtain ⟨before, batch, after, hrequests, hgood, hrejected, rfl⟩ := sendAll_error h
  obtain ⟨text, htext, hbad⟩ := hhonest attempt batch hrejected
  have hmem : batch ∈ before ++ batch :: after := List.mem_append_right _ List.mem_cons_self
  have hinside : service.index attempt batch < batch.length := (List.getElem?_eq_some_iff.mp htext).1
  have hshort : batch.length ≤ 100 := length_le_of_mem_batches (hrequests ▸ hmem)
  have hindex : service.index attempt batch < 100 := by omega
  refine ⟨hindex, ?_⟩
  rw [batches_cons (batches_ne_nil hrequests hmem)] at hrequests
  cases before with
  | nil =>
    obtain ⟨rfl, -⟩ := List.cons.inj hrequests
    rw [List.getElem?_take_of_lt hindex] at htext
    exact ⟨text, htext, Or.inl hbad⟩
  | cons first rest =>
    obtain ⟨rfl, hlater⟩ := List.cons.inj hrequests
    have hlaterMem : batch ∈ rest ++ batch :: after := List.mem_append_right _ List.mem_cons_self
    have hlong : 100 < texts.length := by
      by_contra hle
      exact batches_ne_nil hlater hlaterMem (List.drop_eq_nil_of_le (by omega))
    have hfirst : ∀ other ∈ texts.take 100, service.rejects other = false := by
      intro other hother
      exact Bool.of_not_eq_true fun hrejects => by
        have hany := List.any_eq_true.mpr ⟨other, hother, hrejects⟩
        rw [hgood _ List.mem_cons_self] at hany
        cases hany
    have hother : texts[service.index attempt batch]? = some texts[service.index attempt batch] :=
      List.getElem?_eq_getElem (by omega)
    refine ⟨_, hother, Or.inr ⟨hfirst _ ?_, ?_⟩⟩
    · rw [← List.getElem?_take_of_lt hindex] at hother
      exact List.mem_of_getElem? hother
    · exact not_fewBefore_of_rejected (hlater ▸ hlaterMem) hrejected (by omega) hfirst

/-! ## Bad items behind few good ones -/

variable {α : Type} {bad : α → Bool} {items : List α} {item : α}

/-- The same count along the list, from a number of good items already seen. -/
def FewFrom (bad : α → Bool) : ℕ → List α → Prop
  | _, [] => True
  | seen, item :: later => if bad item then seen < 100 ∧ FewFrom bad seen later else FewFrom bad (seen + 1) later

theorem fewFrom_iff (seen : ℕ) : FewFrom bad seen items ↔ ∀ before item after, items = before ++ item :: after →
    bad item = true → seen + (before.filter fun other => !bad other).length < 100 := by
  induction items generalizing seen with
  | nil => simp [FewFrom]
  | cons first later ih =>
    rw [FewFrom]
    split
    · rename_i hbad
      rw [ih]
      constructor
      · intro h before item after hitems hitem
        cases before with
        | nil => exact h.1
        | cons head before =>
          obtain ⟨rfl, hlater⟩ := List.cons.inj hitems
          have hcount := h.2 before item after hlater hitem
          rw [List.filter_cons_of_neg (by simp [hbad])]
          exact hcount
      · intro h
        refine ⟨h [] first later rfl hbad, ?_⟩
        intro before item after hlater hitem
        have hcount := h (first :: before) item after (by rw [hlater, List.cons_append]) hitem
        rw [List.filter_cons_of_neg (by simp [hbad])] at hcount
        exact hcount
    · rename_i hgood
      rw [ih]
      constructor
      · intro h before item after hitems hitem
        cases before with
        | nil =>
          obtain ⟨rfl, -⟩ := List.cons.inj hitems
          exact absurd hitem hgood
        | cons head before =>
          obtain ⟨rfl, hlater⟩ := List.cons.inj hitems
          have hcount := h before item after hlater hitem
          rw [List.filter_cons_of_pos (by simp [hgood]), List.length_cons]
          omega
      · intro h before item after hlater hitem
        have hcount := h (first :: before) item after (by rw [hlater, List.cons_append]) hitem
        rw [List.filter_cons_of_pos (by simp [hgood]), List.length_cons] at hcount
        omega

theorem fewBefore_iff : FewBefore bad items ↔ FewFrom bad 0 items := by
  rw [fewFrom_iff, FewBefore]
  simp only [Nat.zero_add]

theorem fewFrom_append (seen : ℕ) (before after : List α) : FewFrom bad seen (before ++ after) ↔
    FewFrom bad seen before ∧ FewFrom bad (seen + (before.filter fun other => !bad other).length) after := by
  induction before generalizing seen with
  | nil => simp [FewFrom]
  | cons first before ih =>
    rw [List.cons_append, FewFrom, FewFrom]
    split
    · rename_i hbad
      rw [ih, List.filter_cons_of_neg (by simp [hbad]), and_assoc]
    · rename_i hgood
      rw [ih, List.filter_cons_of_pos (by simp [hgood]), List.length_cons, Nat.add_assoc, Nat.add_comm 1]

/-- A bad item among the first 100 does not matter. -/
theorem fewBefore_eraseIdx (hitem : items[index]? = some item) (hbad : bad item = true) (hindex : index < 100) :
    FewBefore bad (items.eraseIdx index) ↔ FewBefore bad items := by
  obtain ⟨hlength, hget⟩ := List.getElem?_eq_some_iff.mp hitem
  have hsplit : items = items.take index ++ item :: items.drop (index + 1) := by
    rw [← hget, List.getElem_cons_drop, List.take_append_drop]
  have hcount : ((items.take index).filter fun other => !bad other).length ≤ index :=
    (List.length_filter_le _ _).trans (List.length_take_le _ _)
  rw [fewBefore_iff, fewBefore_iff, List.eraseIdx_eq_take_drop_succ]
  conv_rhs => rw [hsplit]
  rw [fewFrom_append, fewFrom_append, FewFrom, if_pos hbad]
  have hfew : 0 + ((items.take index).filter fun other => !bad other).length < 100 := by omega
  simp only [hfew, true_and]

theorem fewFrom_map (text : α → String) (refused : String → Bool) (seen : ℕ) :
    FewFrom refused seen (items.map text) ↔ FewFrom (fun item => refused (text item)) seen items := by
  induction items generalizing seen with
  | nil => exact Iff.rfl
  | cons first later ih => simp only [List.map_cons, FewFrom, ih]

theorem fewBefore_map (text : α → String) (refused : String → Bool) :
    FewBefore refused (items.map text) ↔ FewBefore (fun item => refused (text item)) items := by
  rw [fewBefore_iff, fewBefore_iff, fewFrom_map]

/-- For an honest service the refusals name bad items as long as the first request has any, which is so when few
good items stand before each bad one. -/
theorem named_iff_fewBefore {β : Type} (hhonest : service.Honest) {answer : ℕ → List α → Except ℕ (List (α × β))}
    (text : α → String) (asked : List α → Prop)
    (herror : ∀ attempt items index, answer attempt items = .error index →
      generateBatchEmbeddings service attempt (items.map text) = .error index)
    (hok : ∀ attempt items answered, answer attempt items = .ok answered → asked items →
      ∀ item ∈ items, service.rejects (text item) = false)
    (hasked : ∀ items index item, asked items → items[index]? = some item → service.rejects (text item) = true →
      asked (items.eraseIdx index)) {items : List α} (hitems : asked items) (attempt : ℕ) :
    Named answer (fun item => service.rejects (text item)) attempt items ↔
      FewBefore (fun item => service.rejects (text item)) items := by
  induction hlength : items.length generalizing items attempt with
  | zero =>
    obtain rfl := List.length_eq_zero_iff.mp hlength
    cases hanswer : answer attempt [] with
    | ok answered => exact iff_of_true (.answered attempt [] answered hanswer) (fewBefore_iff.mpr trivial)
    | error index =>
      obtain ⟨-, found, hfound, -⟩ := generateBatchEmbeddings_error hhonest (herror attempt [] index hanswer)
      cases hfound
  | succ n ih =>
    cases hanswer : answer attempt items with
    | ok answered =>
      refine iff_of_true (.answered attempt items answered hanswer) ?_
      intro before item after hsplit hbad
      have hmem : item ∈ items := hsplit ▸ List.mem_append_right before List.mem_cons_self
      have haccepted := hok attempt items answered hanswer hitems item hmem
      exact absurd (hbad.symm.trans haccepted) (by simp)
    | error index =>
      obtain ⟨hindex, found, hfound, hcase⟩ :=
        generateBatchEmbeddings_error hhonest (herror attempt items index hanswer)
      rw [List.getElem?_map] at hfound
      obtain ⟨item, hitem, rfl⟩ := Option.map_eq_some_iff.mp hfound
      rw [named_error_iff hanswer hitem]
      rcases hcase with hbad | ⟨hgood, hmany⟩
      · have hshorter : (items.eraseIdx index).length = n := by
          rw [List.length_eraseIdx_of_lt (List.getElem?_eq_some_iff.mp hitem).1, hlength, Nat.add_sub_cancel]
        rw [ih (hasked items index item hitems hitem hbad) (attempt + 1) hshorter]
        rw [fewBefore_eraseIdx hitem hbad hindex, and_iff_right hbad]
      · rw [fewBefore_map] at hmany
        rw [hgood]
        exact iff_of_false (fun h => Bool.false_ne_true h.1) hmany

/-! ## The two recoveries -/

theorem mapM_some {γ : Type} {f : γ → Option Vec} {all : List γ} {vecs : List Vec} (h : all.mapM f = some vecs) :
    vecs.length = all.length ∧ ∀ item ∈ all, (f item).isSome = true := by
  induction all generalizing vecs with
  | nil =>
    obtain rfl := Option.some.inj h
    exact ⟨rfl, fun _ hitem => absurd hitem List.not_mem_nil⟩
  | cons first later ih =>
    rw [List.mapM_cons] at h
    obtain ⟨vec, hvec, h⟩ := Option.bind_eq_some_iff.mp h
    obtain ⟨rest, hrest, h⟩ := Option.bind_eq_some_iff.mp h
    obtain rfl := Option.some.inj h
    obtain ⟨hlength, hall⟩ := ih hrest
    refine ⟨by rw [List.length_cons, List.length_cons, hlength], ?_⟩
    intro item hitem
    rcases List.mem_cons.mp hitem with rfl | hmem
    · rw [hvec, Option.isSome_some]
    · exact hall item hmem

theorem mem_zip_of_length {vecs : List Vec} (h : vecs.length = items.length) (hitem : item ∈ items) :
    item ∈ (items.zip vecs).map Prod.fst := by
  rw [List.map_fst_zip h.ge]
  exact hitem

variable {config : EmbeddingWorker.Config} {cache : String → Option Vec} {rows : List WorkRow}

theorem chunkAnswer_ok {answered : List (WorkRow × Vec)}
    (h : chunkAnswer service config cache attempt rows = .ok answered) :
    ((∀ row ∈ rows, (cache (config.cacheKeyText row.content)).isSome = true) ∨
      ∀ row ∈ rows, rejectsRow service config row = false) ∧ ∀ row ∈ rows, row ∈ answered.map Prod.fst := by
  rw [chunkAnswer] at h
  cases hcached : (rows.map fun row => config.cacheKeyText row.content).mapM cache with
  | some vecs =>
    simp only [hcached] at h
    obtain rfl := Except.ok.inj h
    obtain ⟨hlength, hall⟩ := mapM_some hcached
    rw [List.length_map] at hlength
    exact ⟨Or.inl fun row hrow => hall _ (List.mem_map_of_mem hrow), fun row hrow => mem_zip_of_length hlength hrow⟩
  | none =>
    simp only [hcached] at h
    cases hvecs : generateBatchEmbeddings service attempt (rows.map fun row => config.cacheKeyText row.content) with
    | error index =>
      rw [hvecs] at h
      cases h
    | ok vecs =>
      rw [hvecs] at h
      obtain rfl := Except.ok.inj h
      obtain ⟨haccepted, hlength⟩ := generateBatchEmbeddings_ok hvecs
      rw [List.length_map] at hlength
      exact ⟨Or.inr fun row hrow => haccepted _ (List.mem_map_of_mem hrow), fun row hrow => mem_zip_of_length hlength hrow⟩

theorem chunkAnswer_error (h : chunkAnswer service config cache attempt rows = .error index) :
    generateBatchEmbeddings service attempt (rows.map fun row => config.cacheKeyText row.content) = .error index := by
  rw [chunkAnswer] at h
  split at h
  · cases h
  · cases hvecs : generateBatchEmbeddings service attempt (rows.map fun row => config.cacheKeyText row.content) with
    | error number =>
      rw [hvecs] at h
      rw [Except.error.inj h]
    | ok vecs =>
      rw [hvecs] at h
      cases h

theorem registerAnswer_ok {answered : List (String × Vec)} (h : registerAnswer service attempt texts = .ok answered) :
    (∀ text ∈ texts, service.rejects text = false) ∧ ∀ text ∈ texts, text ∈ answered.map Prod.fst := by
  rw [registerAnswer] at h
  cases hvecs : generateBatchEmbeddings service attempt texts with
  | error index =>
    rw [hvecs] at h
    cases h
  | ok vecs =>
    rw [hvecs] at h
    obtain ⟨haccepted, hlength⟩ := generateBatchEmbeddings_ok hvecs
    have hanswered : texts.zip vecs = answered := by
      rw [← Except.ok.inj h]
      exact (if_neg (not_not.mpr hlength)).symm
    refine ⟨haccepted, fun text htext => ?_⟩
    rw [← hanswered]
    exact mem_zip_of_length hlength htext

theorem registerAnswer_error (h : registerAnswer service attempt texts = .error index) :
    generateBatchEmbeddings service attempt texts = .error index := by
  rw [registerAnswer] at h
  cases hvecs : generateBatchEmbeddings service attempt texts with
  | error number =>
    rw [hvecs] at h
    rw [Except.error.inj h]
  | ok vecs =>
    rw [hvecs] at h
    cases h

theorem registerAnswer_nil (attempt : ℕ) : ∃ answered, registerAnswer service attempt [] = .ok answered := by
  refine ⟨[], ?_⟩
  rw [registerAnswer, generateBatchEmbeddings, batches, dif_pos (Or.inl rfl)]
  rfl

theorem embedChunk_recovers_iff : Recovers (embedChunk service config cache) (rejectsRow service config) rows ↔
    Named (chunkAnswer service config cache) (rejectsRow service config) 0 rows :=
  isolates_iff_named (fun _ => ⟨[], rfl⟩) fun _ _ _ h => (chunkAnswer_ok h).2

theorem registerChunk_recovers_iff : Recovers (registerChunk service) service.rejects texts ↔
    Named (registerAnswer service) service.rejects 0 texts :=
  isolates_iff_named registerAnswer_nil fun _ _ _ h => (registerAnswer_ok h).2

theorem chunk_named_iff_fewBefore (hhonest : service.Honest)
    (huncached : ∃ row ∈ rows, rejectsRow service config row = false ∧ cache (config.cacheKeyText row.content) = none) :
    Named (chunkAnswer service config cache) (rejectsRow service config) attempt rows ↔
      FewBefore (rejectsRow service config) rows := by
  refine named_iff_fewBefore hhonest (fun row => config.cacheKeyText row.content)
    (fun rows => ∃ row ∈ rows, rejectsRow service config row = false ∧
      cache (config.cacheKeyText row.content) = none) (fun _ _ _ h => chunkAnswer_error h) ?_ ?_ huncached attempt
  · intro attempt rows answered h hrow
    obtain ⟨row, hmem, -, hnone⟩ := hrow
    rcases (chunkAnswer_ok h).1 with hcached | haccepted
    · have hsome := hcached row hmem
      rw [hnone] at hsome
      cases hsome
    · exact haccepted
  · intro rows index bad hrow hbad hrejects
    obtain ⟨row, hmem, hgood, hnone⟩ := hrow
    rcases mem_eraseIdx_or hbad hmem with rfl | hleft
    · have hsame : rejectsRow service config row = true := hrejects
      rw [hgood] at hsame
      cases hsame
    · exact ⟨row, hleft, hgood, hnone⟩

theorem register_named_iff_fewBefore (hhonest : service.Honest) :
    Named (registerAnswer service) service.rejects attempt texts ↔ FewBefore service.rejects texts :=
  named_iff_fewBefore hhonest (fun text => text) (fun _ => True)
    (fun _ _ _ h => by simpa using registerAnswer_error h) (fun _ _ _ h _ => (registerAnswer_ok h).1)
    (fun _ _ _ _ _ _ => trivial) trivial attempt

/-- Both recoveries set aside only bad texts and embed all others exactly when each rejection names a bad text of
the whole chunk that is left, or nothing for a while.  With a service that counts within the request this is so
when fewer than 100 good texts stand before each bad one. -/
theorem recovers_iff (service : RejectingService Vec) (config : EmbeddingWorker.Config)
    (cache : String → Option Vec) (rows : List WorkRow) (batch : List String) :
    ((Recovers (embedChunk service config cache) (rejectsRow service config) rows ↔
        Named (chunkAnswer service config cache) (rejectsRow service config) 0 rows) ∧
      (Recovers (registerChunk service) service.rejects batch ↔
        Named (registerAnswer service) service.rejects 0 batch)) ∧
    (service.Honest →
      ((∃ row ∈ rows, rejectsRow service config row = false ∧ cache (config.cacheKeyText row.content) = none) →
        (Recovers (embedChunk service config cache) (rejectsRow service config) rows ↔
          FewBefore (rejectsRow service config) rows)) ∧
      (Recovers (registerChunk service) service.rejects batch ↔ FewBefore service.rejects batch)) := by
  refine ⟨⟨embedChunk_recovers_iff, registerChunk_recovers_iff⟩, ?_⟩
  intro hhonest
  constructor
  · intro huncached
    rw [embedChunk_recovers_iff]
    exact chunk_named_iff_fewBefore hhonest huncached
  · rw [registerChunk_recovers_iff]
    exact register_named_iff_fewBefore hhonest

/-- A service that takes texts as vectors and rejects one text, with the given numbers. -/
def pickyService (index : ℕ → List String → ℕ) : RejectingService String where
  inProcess := false
  model := id
  normalizeL2 := id
  respond := fun batch => batch.mapIdx Prod.mk
  indexed := fun batch => by simp
  rejects := fun text => text = "oversized"
  index := index

/-- It counts within the request. -/
def positionService : RejectingService String := pickyService fun _ batch => batch.findIdx fun text =>
    text = "oversized"

theorem positionService_honest : positionService.Honest := by
  intro attempt batch hrejected
  have hfound : batch.findIdx (fun text => decide (text = "oversized")) < batch.length :=
    List.findIdx_lt_length_of_exists (List.any_eq_true.mp hrejected)
  exact ⟨_, List.getElem?_eq_getElem hfound, List.findIdx_getElem (w := hfound)⟩

/-- A hundred good morphemes and then the rejected one. -/
def lateBatch : List String := List.replicate 100 "pool" ++ ["oversized"]

/-- A good morpheme is skipped in place of the rejected one, and with a number beyond the chunk the recovery
never returns. -/
theorem lateBatch_not_recovered :
    ¬ Recovers (registerChunk positionService) positionService.rejects lateBatch ∧
      ¬ Recovers (registerChunk (pickyService fun _ _ => 100)) (pickyService fun _ _ => 100).rejects ["oversized"] := by
  constructor
  · rw [registerChunk_recovers_iff, register_named_iff_fewBefore positionService_honest]
    intro hfew
    have hcount := hfew (List.replicate 100 "pool") "oversized" [] rfl rfl
    have hall : (List.replicate 100 "pool").filter (fun other => !positionService.rejects other) =
        List.replicate 100 "pool" := List.filter_replicate_of_pos rfl
    rw [hall, List.length_replicate] at hcount
    exact absurd hcount (Nat.lt_irrefl 100)
  · rw [registerChunk_recovers_iff]
    apply not_named_of_beyond
    intro attempt
    refine ⟨100, ?_, by decide⟩
    rw [registerAnswer, generateBatchEmbeddings, batches_cons (List.cons_ne_nil _ _)]
    rfl

end FragmentMemory.BatchRecovery
