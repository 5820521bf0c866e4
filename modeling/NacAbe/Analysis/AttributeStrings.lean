import NacAbe.Program.AbeSupport

/-!
# Attribute lists as OpenABE strings

`cpPrvKeyGen`, `kpContentKeyGen` and `kpEncrypt` write an attribute list as one string,
the attributes with `|` between them, and look at none of the attributes.  OpenABE reads
the list off the string by splitting it at `|`, so an attribute that contains the
separator is read as several.  The other two encodings of the same lists, in
`DataOwner::commandProducerPolicy` (data-owner.cpp:99-104) and in `Producer::ckDataGen`
(producer.cpp:170-172), use elements that carry their length and have no such case.
-/

set_option autoImplicit false

namespace NacAbe.Analysis

open NacAbe AbeSupport

/-- The `|` that the three loops put behind an attribute. -/
def attributeSeparator : UInt8 := 124

/-- No attribute of a list contains the separator. -/
def SeparatorFree (attrList : List Bytes) : Prop := ∀ a ∈ attrList, attributeSeparator ∉ a

/-- `s` is the string OpenABE is handed for a list, by each of the three functions. -/
structure HandedOver (attrList : List Bytes) (s : Bytes) : Prop where
  cpPrvKeyGen_eq : ∀ abe pubParams masterKey seed,
    cpPrvKeyGen abe pubParams masterKey attrList seed =
      prvKeyGen abe .cpAbe pubParams masterKey s seed
  kpContentKeyGen_eq : ∀ abe pubParams seed,
    kpContentKeyGen abe pubParams attrList seed = contentKeyGen abe .kpAbe pubParams s seed
  kpEncrypt_eq : ∀ abe pubParams plaintext seed,
    kpEncrypt abe pubParams attrList plaintext seed =
      (contentKeyGen abe .kpAbe pubParams s seed).bind (encrypt abe · plaintext seed)

/-- The string says what the list says: splitting it gives the list, no other list is
written the same, and nothing is read from it that is not in the list.  The lists it is
told from are those of attributes without the separator. -/
structure SaysList (attrList : List Bytes) (s : Bytes) : Prop where
  splitOn_eq : s.splitOn attributeSeparator = attrList
  unique : ∀ other, other ≠ [] → SeparatorFree other → policyString other = .ok s →
    other = attrList
  noOther : ∀ a ∈ s.splitOn attributeSeparator, a ∈ attrList

variable {attrList : List Bytes} {s : Bytes}

theorem handedOver_of_policyString (h : policyString attrList = .ok s) :
    HandedOver attrList s where
  cpPrvKeyGen_eq abe pubParams masterKey seed := by rw [cpPrvKeyGen, h]; rfl
  kpContentKeyGen_eq abe pubParams seed := by rw [kpContentKeyGen, h]; rfl
  kpEncrypt_eq abe pubParams plaintext seed := by rw [kpEncrypt, h]; rfl

/-- What a string says has no separator in it. -/
theorem SaysList.separatorFree (h : SaysList attrList s) : SeparatorFree attrList := by
  intro a ha
  rw [← h.splitOn_eq] at ha
  exact Separated.notMem_of_mem_splitOn attributeSeparator ha

/-- A list whose attributes do not contain the separator is said by its string. -/
theorem saysList_intercalate (h : attrList ≠ []) (hfree : SeparatorFree attrList) :
    SaysList attrList ([attributeSeparator].intercalate attrList) := by
  have hsplit := (Separated.splitOn_intercalate_iff attributeSeparator h).mpr hfree
  refine ⟨hsplit, ?_, ?_⟩
  · intro other hne hother hsame
    rw [policyString_eq hne] at hsame
    exact Separated.intercalate_injective attributeSeparator hne h hother hfree
      (Except.ok.inj hsame)
  · intro a ha
    rwa [hsplit] at ha

/-- **A list is said by its string exactly when** no attribute of it contains the
separator.  Empty attributes and repeated ones do no harm. -/
theorem attributeString_saysList_iff (attrList : List Bytes) (h : attrList ≠ []) :
    ∃ s, policyString attrList = .ok s ∧ HandedOver attrList s ∧
      (SaysList attrList s ↔ SeparatorFree attrList) := by
  have hs : policyString attrList = .ok ([attributeSeparator].intercalate attrList) :=
    policyString_eq h
  exact ⟨_, hs, handedOver_of_policyString hs, SaysList.separatorFree, saysList_intercalate h⟩

/-- A list with an empty and a repeated attribute. -/
theorem attributeString_saysList_example :
    ∃ s, policyString [ascii "x", [], ascii "x"] = .ok s ∧
      HandedOver [ascii "x", [], ascii "x"] s ∧
      (SaysList [ascii "x", [], ascii "x"] s ↔ SeparatorFree [ascii "x", [], ascii "x"]) :=
  attributeString_saysList_iff [ascii "x", [], ascii "x"] (by simp)

/-- A decryptor authorised for the one attribute `x|admin` gets the key of one authorised
for `x` and `admin`. -/
theorem attributeString_smuggles_attribute :
    (∀ abe pubParams masterKey seed,
      cpPrvKeyGen abe pubParams masterKey [ascii "x|admin"] seed =
        cpPrvKeyGen abe pubParams masterKey [ascii "x", ascii "admin"] seed) ∧
    ¬ ∀ attrList : List Bytes, attrList ≠ [] → ∃ s, policyString attrList = .ok s ∧
      s.splitOn attributeSeparator = attrList ∧
      (∀ other, other ≠ [] → policyString other = .ok s → other = attrList) ∧
      ∀ a ∈ s.splitOn attributeSeparator, a ∈ attrList := by
  constructor
  · intro abe pubParams masterKey seed
    rfl
  · intro h
    obtain ⟨s, hs, hsplit, -, -⟩ := h [ascii "x|admin"] (by simp)
    obtain rfl : ascii "x|admin" = s := Except.ok.inj hs
    exact absurd hsplit (by decide)

end NacAbe.Analysis
