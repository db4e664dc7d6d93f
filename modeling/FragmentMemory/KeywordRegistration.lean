import FragmentMemory.ContentUniqueness
import FragmentMemory.KeywordExtraction
import FragmentMemory.RecallQueries

/-! # Registration and removal in the index

`FragmentIndex.index` registers a fragment under its stored keywords and under the terms that it extracts
from the content; `deindex` is given the stored columns only.  Here is when the one undoes the other.
-/
namespace FragmentMemory.KeywordRegistration
open ApiKeyStore FragmentTables FragmentFactory FragmentIndex RecallQueries KeywordExtraction ContentUniqueness

variable (tools : TextTools)

/-- `FragmentIndex.searchByKeywords` for one key or for the members of a group. -/
def searchByKeywords (ready : Bool) (store : Store) (keywords : List String) (keyIds : Option (List KeyId)) :
    List FragmentId :=
  if !ready || keywords.isEmpty then []
  else unionFromNamespaces keyIds (keywordMembers tools store keywords)

/-- The terms that `index` extracts. -/
def contentTerms (f : Fragment) : List String := if f.content = "" then [] else tools.extractKeywords f.content 8

/-- The removal leaves nothing of the registration, and between the two the fragment is found by its keywords
and its terms. -/
structure Reversible (store : Store) (f : Fragment) (sessionId : Option String) (keyId : Option KeyId) : Prop where
  undone : ∀ member ∈ (deindex true tools (index true tools store f sessionId keyId) f keyId).index, member.2 ≠ f.id
  byKeyword : ∀ word ∈ f.keywords,
    f.id ∈ searchByKeywords tools true (index true tools store f sessionId keyId) [word] (keyId.map fun key => [key])
  byTerm : ∀ term ∈ contentTerms tools f,
    f.id ∈ searchByKeywords tools true (index true tools store f sessionId keyId) [term] (keyId.map fun key => [key])

/-- Without a session, with a topic, and with stored keywords that have every extracted term in lower case. -/
def Covered (f : Fragment) (sessionId : Option String) : Prop :=
  JsString.truthy sessionId = none ∧ f.topic ≠ "" ∧
    ∀ term ∈ contentTerms tools f, term ∈ f.keywords.map tools.toLowerCase

instance (f : Fragment) (sessionId : Option String) : Decidable (Covered tools f sessionId) :=
  inferInstanceAs (Decidable (_ ∧ _ ∧ ∀ term ∈ contentTerms tools f, _))

instance (store : Store) (f : Fragment) (sessionId : Option String) (keyId : Option KeyId) :
    Decidable (Reversible tools store f sessionId keyId) :=
  decidable_of_iff (_ ∧ _ ∧ _) ⟨fun h => ⟨h.1, h.2.1, h.2.2⟩, fun h => ⟨h.undone, h.byKeyword, h.byTerm⟩⟩

variable {tools}

theorem mem_members {store : Store} {key : IndexSet} {id : FragmentId} : id ∈ members store key ↔
    (key, id) ∈ store.index := by
  simp [members]

/-- A search by one keyword reads the set of its lower-case form. -/
theorem mem_searchByKeywords_singleton {store : Store} {word : String} {keyId : Option KeyId} {id : FragmentId} :
    id ∈ searchByKeywords tools true store [word] (keyId.map fun key => [key]) ↔
      (IndexSet.keyword keyId (tools.toLowerCase word), id) ∈ store.index := by
  have hmembers :
    keywordMembers tools store [word] keyId = members store (.keyword keyId (tools.toLowerCase word)) := by
    simp [keywordMembers]
  have hspaces : namespaces (keyId.map fun key => [key]) = [keyId] := by
    cases keyId <;> rfl
  rw [← mem_members, ← hmembers]
  simp [searchByKeywords, unionFromNamespaces, hspaces, List.mem_eraseDups]

/-- What the index has of the fragment between the two calls. -/
theorem mem_registered {store : Store} {f : Fragment} {sessionId : Option String} {keyId : Option KeyId}
    (hprior : ∀ member ∈ store.index, member.2 ≠ f.id) {set : IndexSet} :
    (set, f.id) ∈ (index true tools store f sessionId keyId).index ↔ set ∈ indexSets tools f sessionId keyId := by
  rw [index, if_pos rfl, mem_addAll]
  exact or_iff_right fun hmem => hprior _ hmem rfl

/-- A set that the removal does not reach is one of a session, of an empty topic or of a term that is no stored
keyword. -/
theorem indexSets_subset_deindexSets_iff {f : Fragment} {sessionId : Option String} {keyId : Option KeyId} :
    (∀ set ∈ indexSets tools f sessionId keyId, set ∈ deindexSets tools f keyId) ↔ Covered tools f sessionId := by
  have hterms : indexWords tools f = f.keywords.map tools.toLowerCase ++
      (contentTerms tools f).filter fun term => !(f.keywords.map tools.toLowerCase).contains term := rfl
  constructor
  · intro h
    refine ⟨?_, ?_, fun term hterm => ?_⟩
    · rcases hsession : JsString.truthy sessionId with _ | session
      · rfl
      · have hmem := h (.session session) (by simp [indexSets, hsession])
        simp [deindexSets] at hmem
    · have hmem := h (.topic keyId f.topic) (by simp [indexSets])
      intro hempty
      simp [deindexSets, hempty, JsString.truthy] at hmem
    · by_contra hnot
      have hword : term ∈ indexWords tools f := by
        rw [hterms, List.mem_append, List.mem_filter]
        exact Or.inr ⟨hterm, by simpa using hnot⟩
      have hmem := h (.keyword keyId term) (by simp [indexSets, hword])
      simp only [deindexSets, List.mem_append, List.mem_map, List.mem_cons, Option.mem_toList, reduceCtorEq, and_false,
        exists_false, or_false, List.not_mem_nil, IndexSet.keyword.injEq, true_and] at hmem
      exact hnot (List.mem_map.mpr hmem)
  · rintro ⟨hsession, htopic, hcovered⟩ set hset
    simp only [indexSets, hsession, Option.toList_none, List.map_nil, List.append_nil, List.mem_append, List.mem_map,
      List.mem_cons, List.not_mem_nil, or_false] at hset
    simp only [deindexSets, List.mem_append, List.mem_map, List.mem_cons, List.not_mem_nil, or_false]
    rcases hset with ⟨word, hword, rfl⟩ | rfl | rfl | rfl
    · left
      left
      have hstored : word ∈ f.keywords.map tools.toLowerCase := by
        rw [hterms, List.mem_append, List.mem_filter] at hword
        rcases hword with hexplicit | ⟨hterm, -⟩
        · exact hexplicit
        · exact hcovered word hterm
      obtain ⟨keyword, hkeyword, rfl⟩ := List.mem_map.mp hstored
      exact ⟨keyword, hkeyword, rfl⟩
    · exact Or.inl (Or.inr ⟨f.topic, by simp [JsString.truthy, htopic], rfl⟩)
    · exact Or.inr (Or.inl rfl)
    · exact Or.inr (Or.inr (Or.inl rfl))

/-- The removal undoes the registration when it reaches every set of it. -/
theorem undone_iff {store : Store} {f : Fragment} {sessionId : Option String} {keyId : Option KeyId}
    (hprior : ∀ member ∈ store.index, member.2 ≠ f.id) :
    (∀ member ∈ (deindex true tools (index true tools store f sessionId keyId) f keyId).index, member.2 ≠ f.id) ↔
      Covered tools f sessionId := by
  have hleft : ∀ set, (set, f.id) ∈ (deindex true tools (index true tools store f sessionId keyId) f keyId).index ↔
      set ∈ indexSets tools f sessionId keyId ∧ set ∉ deindexSets tools f keyId := by
    intro set
    rw [← mem_registered hprior, deindex, if_pos rfl]
    simp [removeAll]
  rw [← indexSets_subset_deindexSets_iff]
  constructor
  · intro h set hset
    by_contra hnot
    exact h _ ((hleft set).mpr ⟨hset, hnot⟩) rfl
  · rintro h ⟨set, id⟩ hmember rfl
    obtain ⟨hset, hnot⟩ := (hleft set).mp hmember
    exact hnot (h set hset)

/-- On an index that does not mention the fragment: removing what was registered leaves nothing, and the
fragment is found in between, exactly when keywords, topic and session are such that nothing escapes. -/
theorem reversible_iff_covered (toLowerCase : String → String) (countTokens : String → ℕ) (redactPII : String → String)
    (hlower : ∀ text, toLowerCase (toLowerCase text) = toLowerCase text) (store : Store) (f : Fragment)
    (sessionId : Option String) (keyId : Option KeyId) (hprior : ∀ member ∈ store.index, member.2 ≠ f.id) :
    Reversible (factoryTools toLowerCase countTokens redactPII) store f sessionId keyId ↔
      Covered (factoryTools toLowerCase countTokens redactPII) f sessionId := by
  constructor
  · intro h
    exact (undone_iff hprior).mp h.undone
  · intro hcovered
    have hfound : ∀ word, (factoryTools toLowerCase countTokens redactPII).toLowerCase word ∈
        f.keywords.map (factoryTools toLowerCase countTokens redactPII).toLowerCase →
        f.id ∈ searchByKeywords (factoryTools toLowerCase countTokens redactPII) true
          (index true (factoryTools toLowerCase countTokens redactPII) store f sessionId keyId) [word]
          (keyId.map fun key => [key]) := by
      intro word hword
      rw [mem_searchByKeywords_singleton, mem_registered hprior]
      simp only [indexSets, indexWords, List.mem_append, List.mem_map]
      exact Or.inl (Or.inl ⟨_, Or.inl (List.mem_map.mp hword), rfl⟩)
    refine ⟨(undone_iff hprior).mpr hcovered, fun word hword => hfound word (List.mem_map_of_mem hword), fun term hterm => ?_⟩
    obtain ⟨keyword, hkeyword, rfl⟩ := List.mem_map.mp (hcovered.2.2 term hterm)
    refine hfound _ ?_
    have hsame := hlower keyword
    simp only [factoryTools] at hsame ⊢
    rw [hsame]
    exact List.mem_map_of_mem hkeyword

def tunnelFragment : Fragment :=
  { sampleFragment with content := "deploy needs a vpn", keywords := ["deploy", "needs", "vpn"] }

theorem reversible_tunnel :
    Reversible (factoryTools asciiLower sampleTools.countTokens id) {} tunnelFragment none (some sampleKey) :=
  (reversible_iff_covered asciiLower sampleTools.countTokens id asciiLower_asciiLower {} tunnelFragment none
    (some sampleKey) (fun _ hmember => absurd hmember List.not_mem_nil)).mpr (by decide)

def retryFragment : Fragment :=
  { sampleFragment with content := "set maxRetries to nine", keywords := ["config"] }

/-- The terms of the content stay in the index, and its identifier is registered under a spelling that no
search asks for. -/
theorem retry_terms_escape :
    ¬ Reversible (factoryTools asciiLower sampleTools.countTokens id) {} retryFragment none (some sampleKey) := by
  decide

end FragmentMemory.KeywordRegistration
