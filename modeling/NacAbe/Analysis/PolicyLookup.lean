import NacAbe.Interface.ProducerCommands

/-!
# The policy store as a longest-prefix map

The lookups of a producer start their running maximum at 0 and ask for a longer match
(producer.cpp:263-270, 279-286), so an entry for the empty prefix `/` is stored and
never found.  For every sequence of commands and every data name the store is a
longest-prefix map, and `produce` encrypts under the value it finds, exactly when it
is not the empty prefix that governs the name with a value
(`policyStore_isLongestPrefixMap_iff`).
-/

set_option autoImplicit false

namespace NacAbe.Analysis

open NacAbe Producer LongestPrefix PolicyTable

/-- The policies of a sequence of commands. -/
def policyCommands (commands : List PolicyCommand) : List (Name × Policy) :=
  commands.filterMap fun
    | .policy dataPrefix policy => some (dataPrefix, policy)
    | .attributes _ _ => none

/-- The attribute lists of a sequence of commands. -/
def attributeCommands (commands : List PolicyCommand) : List (Name × List Bytes) :=
  commands.filterMap fun
    | .policy _ _ => none
    | .attributes dataPrefix attributes => some (dataPrefix, attributes)

/-- A producer with empty stores after a sequence of accepted commands. -/
def afterCommands (producer : Producer) (commands : List PolicyCommand) : Producer :=
  commands.foldl install { producer with m_policies := [], m_attributes := [] }

/-- A sequence of commands leaves each table as its own commands do. -/
theorem afterCommands_eq (producer : Producer) (commands : List PolicyCommand) :
    afterCommands producer commands =
      { producer with
        m_policies := installed (policyCommands commands)
        m_attributes := installed (attributeCommands commands) } := by
  induction commands using List.reverseRecOn with
  | nil => rfl
  | append_singleton commands command ih =>
    rw [afterCommands, List.foldl_append, ← afterCommands, ih]
    cases command with
    | policy dataPrefix policy =>
      simp [install, addNewPolicy, policyCommands, attributeCommands, installed]
    | attributes dataPrefix attributes =>
      simp [install, addNewAttributes, policyCommands, attributeCommands, installed]

variable {α : Type}

/-- What the store should be, for one data name: at most one entry for a prefix, and the
value found is that of the last command for the longest commanded prefix of the name,
or empty where no commanded prefix matches. -/
structure IsLongestPrefixMap (commands items : List (Name × List α)) (dataName : Name)
    (found : List α) : Prop where
  unique : (items.map Prod.fst).Nodup
  matched : ∀ p v, Governs commands dataName p v → found = v
  unmatched : (∀ p v, ¬ Governs commands dataName p v) → found = []

/-- What `produce` should do with it: encrypt under the governing value, and give back two
empty vectors exactly when there is none or it is empty. -/
structure ProducesUnder (commands : List (Name × List α)) (dataName : Name)
    (produced : Except Exn (List Data × List Data))
    (producedUnder : List α → Except Exn (List Data × List Data)) : Prop where
  under : ∀ p v, Governs commands dataName p v → v ≠ [] → produced = producedUnder v
  empty : ∀ r, produced = .ok r →
    (r = ([], []) ↔ ∀ p v, Governs commands dataName p v → v = [])

/-- The lookup is a longest-prefix map unless the empty prefix governs with a value. -/
theorem isLongestPrefixMap_iff (commands : List (Name × List α)) (dataName : Name) :
    IsLongestPrefixMap commands (installed commands) dataName
        (findMatched (installed commands) dataName) ↔
      ∀ v, Governs commands dataName [] v → v = [] := by
  constructor
  · intro h v hv
    have hfound := h.matched [] v hv
    rw [findMatched_of_governs_nil hv] at hfound
    exact hfound.symm
  · intro h
    refine ⟨(installed_spec commands).1, ?_, ?_⟩
    · intro p v hv
      by_cases hp : p = []
      · subst hp
        rw [findMatched_of_governs_nil hv, h v hv]
      · exact findMatched_of_governs hv hp
    · intro hnone
      refine findMatched_of_short fun q w hq hpre => ?_
      obtain ⟨p, v, hgov⟩ := exists_governs hq hpre
      exact absurd hgov (hnone p v)

/-- Producing by the value found is producing under the governing value, where the store is
a longest-prefix map and producing under a value does not come back empty. -/
theorem producesUnder_of_isLongestPrefixMap {commands items : List (Name × List α)}
    {dataName : Name} {found : List α} {produced : Except Exn (List Data × List Data)}
    {producedUnder : List α → Except Exn (List Data × List Data)}
    (h : IsLongestPrefixMap commands items dataName found)
    (hproduced : produced = if found = [] then .ok ([], []) else producedUnder found)
    (hne : ∀ v r, producedUnder v = .ok r → r ≠ ([], [])) :
    ProducesUnder commands dataName produced producedUnder := by
  refine ⟨?_, ?_⟩
  · intro p v hv hvne
    obtain rfl := h.matched p v hv
    rw [hproduced, if_neg hvne]
  · intro r hr
    rw [hproduced] at hr
    by_cases hfound : found = []
    · rw [if_pos hfound] at hr
      obtain rfl := Except.ok.inj hr
      apply iff_of_true rfl
      intro p v hv
      rw [← h.matched p v hv, hfound]
    · rw [if_neg hfound] at hr
      apply iff_of_false (hne found r hr)
      intro hall
      by_cases hgov : ∃ p v, Governs commands dataName p v
      · obtain ⟨p, v, hv⟩ := hgov
        exact hfound ((h.matched p v hv).trans (hall p v hv))
      · exact hfound (h.unmatched fun p v hv => hgov ⟨p, v, hv⟩)

/-! ## Production does not come back empty -/

/-- Where there is a content key, `produce` returns its packets, and there is one. -/
theorem produceFrom_ne_nil {abe : OpenAbe} {producer : Producer} {dataNameSuffix : Name}
    {content : Bytes} {maxSegmentSize seed : ℕ} {key : ContentKey} {segments : List Data}
    {r : List Data × List Data}
    (h : produceFrom abe producer dataNameSuffix content maxSegmentSize seed
      (some key, segments) = .ok r) : r ≠ ([], []) := by
  cases segments with
  | nil => cases h
  | cons ckData rest =>
    obtain ⟨packets, -, hreturn⟩ := bind_eq_ok.mp h
    cases hreturn
    simp

/-- With parameters and in the policy mode, packets are returned. -/
theorem producePolicy_ne_nil {abe : OpenAbe} {producer : Producer} {dataNameSuffix : Name}
    {policy : Policy} {content : Bytes} {maxSegmentSize word seed : ℕ}
    {r : List Data × List Data} (hpub : producer.m_paramFetcher.m_pubParamsCache.m_pub ≠ [])
    (hmode : producer.m_paramFetcher.m_abeType = abeTypeCpAbe)
    (h : producePolicy abe producer dataNameSuffix policy content maxSegmentSize word seed
      = .ok r) : r ≠ ([], []) := by
  obtain ⟨contentKey, hkey, hrest⟩ := bind_eq_ok.mp h
  rw [ckDataGenPolicy, if_neg hpub, if_neg (not_not.mpr hmode)] at hkey
  obtain ⟨key, -, hsegments⟩ := bind_eq_ok.mp hkey
  obtain ⟨segments, -, hreturn⟩ := bind_eq_ok.mp hsegments
  cases hreturn
  exact produceFrom_ne_nil hrest

/-- With parameters and in the attribute mode, packets are returned. -/
theorem produceAttributes_ne_nil {abe : OpenAbe} {producer : Producer} {dataNameSuffix : Name}
    {attributes : List Bytes} {content : Bytes} {maxSegmentSize word seed : ℕ}
    {r : List Data × List Data} (hpub : producer.m_paramFetcher.m_pubParamsCache.m_pub ≠ [])
    (hmode : producer.m_paramFetcher.m_abeType = abeTypeKpAbe)
    (h : produceAttributes abe producer dataNameSuffix attributes content maxSegmentSize word
      seed = .ok r) : r ≠ ([], []) := by
  obtain ⟨contentKey, hkey, hrest⟩ := bind_eq_ok.mp h
  rw [ckDataGenAttributes, if_neg hpub, if_neg (not_not.mpr hmode)] at hkey
  obtain ⟨key, -, hsegments⟩ := bind_eq_ok.mp hkey
  obtain ⟨segments, -, hreturn⟩ := bind_eq_ok.mp hsegments
  cases hreturn
  exact produceFrom_ne_nil hrest

/-! ## The result -/

/-- **The store is a longest-prefix map exactly where `/` does not govern with a value**,
for policies and for attribute lists, and `produce` then goes by it. -/
theorem policyStore_isLongestPrefixMap_iff (abe : OpenAbe) (producer : Producer)
    (commands : List PolicyCommand) (dataName : Name) :
    let installed := afterCommands producer commands
    let fetcher := installed.m_paramFetcher
    ((IsLongestPrefixMap (policyCommands commands) installed.m_policies dataName
          (installed.findMatchedPolicy dataName) ∧
        (fetcher.m_abeType = abeTypeCpAbe → fetcher.m_pubParamsCache.m_pub ≠ [] →
          ∀ content maxSegmentSize word seed,
            ProducesUnder (policyCommands commands) dataName
              (produce abe installed dataName content maxSegmentSize word seed)
              (producePolicy abe installed dataName · content maxSegmentSize word seed))) ↔
      ∀ v, Governs (policyCommands commands) dataName [] v → v = []) ∧
    ((IsLongestPrefixMap (attributeCommands commands) installed.m_attributes dataName
          (installed.findMatchedAttributes dataName) ∧
        (fetcher.m_abeType = abeTypeKpAbe → fetcher.m_pubParamsCache.m_pub ≠ [] →
          ∀ content maxSegmentSize word seed,
            ProducesUnder (attributeCommands commands) dataName
              (produce abe installed dataName content maxSegmentSize word seed)
              (produceAttributes abe installed dataName · content maxSegmentSize word seed))) ↔
      ∀ v, Governs (attributeCommands commands) dataName [] v → v = []) := by
  intro installed fetcher
  have heq := afterCommands_eq producer commands
  have hpolicies : installed.m_policies = PolicyTable.installed (policyCommands commands) :=
    congrArg Producer.m_policies heq
  have hattributes : installed.m_attributes = PolicyTable.installed (attributeCommands commands) :=
    congrArg Producer.m_attributes heq
  constructor
  · rw [findMatchedPolicy, hpolicies, isLongestPrefixMap_iff, and_iff_left_iff_imp]
    intro h hmode hpub content maxSegmentSize word seed
    have hmap := (isLongestPrefixMap_iff (policyCommands commands) dataName).mpr h
    refine producesUnder_of_isLongestPrefixMap hmap ?_ fun v r hr =>
      producePolicy_ne_nil hpub hmode hr
    rw [produce, produceMatched, if_pos hmode, findMatchedPolicy, hpolicies]
    rfl
  · rw [findMatchedAttributes, hattributes, isLongestPrefixMap_iff, and_iff_left_iff_imp]
    intro h hmode hpub content maxSegmentSize word seed
    have hmap := (isLongestPrefixMap_iff (attributeCommands commands) dataName).mpr h
    refine producesUnder_of_isLongestPrefixMap hmap ?_ fun v r hr =>
      produceAttributes_ne_nil hpub hmode hr
    have hcp : fetcher.m_abeType ≠ abeTypeCpAbe := by
      rw [hmode]
      decide
    rw [produce, produceMatched, if_neg hcp, if_pos hmode, findMatchedAttributes, hattributes]
    rfl

theorem governs_root (v : List α) (dataName : Name) : Governs [([], v)] dataName [] v := by
  refine ⟨rfl, List.nil_prefix, ?_⟩
  intro q w hq hpre
  by_cases h : ([] : Name) = q
  · simp [← h]
  · simp [lastValue, h] at hq

/-- One command for `/`, and the lookup of any name finds nothing. -/
theorem policyStore_ignores_root :
    ¬ ∀ (producer : Producer) (commands : List PolicyCommand) (dataName : Name),
        IsLongestPrefixMap (policyCommands commands)
          (afterCommands producer commands).m_policies dataName
          ((afterCommands producer commands).findMatchedPolicy dataName) := by
  intro h
  have hfound := (h (.initial (.sample (ascii "p") [1]) (.sample (ascii "a") [2])
    (.sample (ascii "o") [3]) ParamFetcher.defaultInterestTemplate) [.policy [] (ascii "x")]
    [Component.generic (ascii "d")]).matched [] (ascii "x") (governs_root _ _)
  exact absurd hfound (by decide)

end NacAbe.Analysis
