import FragmentMemory.KeywordRegistration

/-! # Keyword lookup with and without Redis

The index is kept and asked in lower case.  The rows keep the spelling of the factory, which is lower case
for keywords of the caller and the original one for identifiers that were extracted, and the SQL search
compares with the keywords of the query as they come.
-/
namespace FragmentMemory.KeywordLookup
open ApiKeyStore FragmentTables FragmentFactory FragmentWriter FragmentReader FragmentIndex RecallQueries KeywordExtraction
  KeywordRegistration ContentUniqueness

/-- The rows that `FragmentReader.searchByKeywords` selects under an agent and keys, with no other option. -/
def keywordRows (store : Store) (keywords : List String) (agentId : String) (keyIds : Option (List KeyId)) : List Fragment :=
  store.fragments.rows.filter fun f =>
    f.keywords.any keywords.contains && agentScope agentId f && keyCond keyIds f && f.live

/-- `FragmentReader.searchByKeywords`. -/
def searchRowsByKeywords (store : Store) (keywords : List String) (agentId : String) (keyIds : Option (List KeyId))
    (limit : ℕ) : List Fragment :=
  ((keywordRows store keywords agentId keyIds).insertionSort (byKeywordScore keywords · ·)).take limit

variable (tools : TextTools)

/-- Both lookups by one keyword return the fragment: Redis after its registration, and the table. -/
def FoundOnBothPaths (store : Store) (f : Fragment) (sessionId : Option String) (query agentId : String) (limit : ℕ) : Prop :=
  f.id ∈ KeywordRegistration.searchByKeywords tools true (index true tools store f sessionId f.keyId) [query]
      (f.keyId.map fun key => [key]) ∧
    f ∈ searchRowsByKeywords store [query] agentId (f.keyId.map fun key => [key]) limit

instance (store : Store) (f : Fragment) (sessionId : Option String) (query agentId : String) (limit : ℕ) :
    Decidable (FoundOnBothPaths tools store f sessionId query agentId limit) :=
  inferInstanceAs (Decidable (_ ∧ _))

variable {tools}

/-- Redis finds a fragment by every spelling of its keywords. -/
theorem found_in_index {store : Store} {f : Fragment} {sessionId : Option String} {word query : String}
    (hword : word ∈ f.keywords) (hspelling : tools.toLowerCase query = tools.toLowerCase word) :
    f.id ∈ KeywordRegistration.searchByKeywords tools true (index true tools store f sessionId f.keyId) [query]
      (f.keyId.map fun key => [key]) := by
  rw [mem_searchByKeywords_singleton, hspelling, index, if_pos rfl, mem_addAll]
  right
  simp only [indexSets, indexWords, List.mem_append, List.mem_map]
  exact Or.inl (Or.inl ⟨_, Or.inl ⟨word, hword, rfl⟩, rfl⟩)

/-- Below the limit the table finds the rows that have the keyword as it is spelled. -/
theorem found_in_table_iff {store : Store} {f : Fragment} {query agentId : String} {limit : ℕ}
    (hrow : f ∈ store.fragments.rows) (hlive : f.live = true) (hagent : agentScope agentId f = true)
    (hlimit : (keywordRows store [query] agentId (f.keyId.map fun key => [key])).length ≤ limit) :
    f ∈ searchRowsByKeywords store [query] agentId (f.keyId.map fun key => [key]) limit ↔ query ∈ f.keywords := by
  have hkey : keyCond (f.keyId.map fun key => [key]) f = true := by
    cases hkeyId : f.keyId <;> simp [keyCond, hkeyId]
  have hall : ((keywordRows store [query] agentId (f.keyId.map fun key => [key])).insertionSort
      (byKeywordScore [query] · ·)).length ≤ limit := by
    rw [List.length_insertionSort]
    exact hlimit
  rw [searchRowsByKeywords, List.take_of_length_le hall, List.mem_insertionSort, keywordRows, List.mem_filter]
  simp only [hrow, true_and, hagent, hkey, hlive, Bool.and_true, List.any_eq_true, List.contains_iff_mem,
    List.mem_singleton,
    exists_eq_right]

/-- A keyword of the caller is stored in lower case, and only a query in lower case has its spelling. -/
theorem spelled_iff_lower (hlower : ∀ text, tools.toLowerCase (tools.toLowerCase text) = tools.toLowerCase text)
    {keywords : List String} {word query : String} (hword : word ∈ normalizeKeywords tools keywords)
    (hspelling : tools.toLowerCase query = tools.toLowerCase word) :
    query ∈ normalizeKeywords tools keywords ↔ tools.toLowerCase query = query := by
  constructor
  · intro hquery
    obtain ⟨given, -, rfl⟩ := List.mem_map.mp hquery
    exact hlower given
  · intro hsame
    obtain ⟨given, hgiven, rfl⟩ := List.mem_map.mp hword
    have hstored : query = tools.toLowerCase given := by
      rw [← hsame, hspelling, hlower]
    rw [hstored]
    exact List.mem_map_of_mem hgiven

/-- A query that is one of the stored keywords up to letter case finds the row on both paths, below the limit and
under the agent and key of the row, exactly when it is spelled as a stored one. -/
theorem found_on_both_paths_iff (tools : TextTools) (store : Store) (f : Fragment) (sessionId : Option String)
    (word query agentId : String) (limit : ℕ) (hrow : f ∈ store.fragments.rows) (hlive : f.live = true)
    (hagent : agentScope agentId f = true) (hword : word ∈ f.keywords)
    (hspelling : tools.toLowerCase query = tools.toLowerCase word)
    (hlimit : (keywordRows store [query] agentId (f.keyId.map fun key => [key])).length ≤ limit) :
    FoundOnBothPaths tools store f sessionId query agentId limit ↔ query ∈ f.keywords := by
  rw [FoundOnBothPaths, found_in_table_iff hrow hlive hagent hlimit]
  exact and_iff_right (found_in_index hword hspelling)

def tunnelTools : TextTools := factoryTools asciiLower sampleTools.countTokens id

/-- The row of a fragment that the factory makes of a content and the keywords of the caller. -/
def rememberedRow (content : String) (keywords : List String) : Fragment :=
  let created := create sampleDigests tunnelTools "frag-01" 1
    { content := some content, type := some .fact, topic := some "deploy", keywords := keywords }
  prepareInsertRow sampleDigests 1 { created.toOption.getD sampleFragment with keyId := some sampleKey }

def rememberedStore (content : String) (keywords : List String) : Store :=
  ((insert sampleDigests 1 {} (rememberedRow content keywords)).map Prod.fst).getD {}

theorem found_on_both_paths_lower :
    FoundOnBothPaths tunnelTools (rememberedStore sampleContent ["VPN"]) (rememberedRow sampleContent ["VPN"]) none "vpn"
      "default" 20 :=
  (found_on_both_paths_iff tunnelTools (rememberedStore sampleContent ["VPN"]) (rememberedRow sampleContent ["VPN"]) none
    "vpn" "vpn" "default" 20 (by decide +kernel) (by decide +kernel) (by decide +kernel) (by decide +kernel) rfl
    (by decide +kernel)).mpr (by decide +kernel)

/-- A keyword asked for as it was given, and an identifier asked for in lower case. -/
theorem other_spellings_miss :
    (rememberedRow sampleContent ["VPN"] ∈ (rememberedStore sampleContent ["VPN"]).fragments.rows ∧
      "vpn" ∈ (rememberedRow sampleContent ["VPN"]).keywords ∧ asciiLower "VPN" = asciiLower "vpn" ∧
      ¬ FoundOnBothPaths tunnelTools (rememberedStore sampleContent ["VPN"]) (rememberedRow sampleContent ["VPN"]) none
        "VPN" "default" 20) ∧
    (rememberedRow "set maxRetries to nine" [] ∈ (rememberedStore "set maxRetries to nine" []).fragments.rows ∧
      "maxRetries" ∈ (rememberedRow "set maxRetries to nine" []).keywords ∧
      asciiLower "maxretries" = asciiLower "maxRetries" ∧
      ¬ FoundOnBothPaths tunnelTools (rememberedStore "set maxRetries to nine" []) (rememberedRow "set maxRetries to nine" [])
        none "maxretries" "default" 20) := by
  decide +kernel

end FragmentMemory.KeywordLookup
