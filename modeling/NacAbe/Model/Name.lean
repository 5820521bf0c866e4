import NacAbe.Library.Tlv
import NacAbe.Model.Prelude

/-!
# Names

A name is a list of components and a component is a TLV element.  This file has
the operations of `ndn::Name` and `ndn::name::Component` that the source uses, and
the naming conventions of `ndn::security` that tie an identity, a key name and a
certificate name:

    /<identity>/KEY/<key id>                       key name
    /<identity>/KEY/<key id>/<issuer>/<version>    certificate name

A block is a TLV element too; its sub-elements are decoded when they are asked for.
-/

set_option autoImplicit false

namespace NacAbe

open Tlv

/-- `ndn::Block`. -/
abbrev Block := Tlv.Element

/-- `ndn::name::Component`. -/
abbrev Component := Tlv.Element

/-- `ndn::Name`. -/
abbrev Name := List Component

instance : LawfulBEq Name := inferInstance

/-! ## TLV types -/

def tlvImplicitSha256DigestComponent : ℕ := 1
def tlvParametersSha256DigestComponent : ℕ := 2
def tlvName : ℕ := 7
def tlvContent : ℕ := 21
def tlvGenericNameComponent : ℕ := 8
def tlvSegmentNameComponent : ℕ := 50
def tlvVersionNameComponent : ℕ := 54

-- The project's own types, common.hpp.
def tlvEncryptedAesKey : ℕ := 601
def tlvEncryptedContent : ℕ := 602
def tlvPlainTextSize : ℕ := 603
def tlvInitialVector : ℕ := 605
def tlvAttribute : ℕ := 606

/-! ## Blocks -/

namespace Block

/-- `Block(ConstBufferPtr)`: the buffer is exactly one element. -/
def ofBuffer (buffer : Bytes) : Except Exn Block :=
  match Tlv.decode buffer with
  | some b => .ok b
  | none => .error .tlvError

/-- `parse()` followed by `elements()`. -/
def elements (b : Block) : Except Exn (List Block) :=
  match Tlv.decodeAll b.value with
  | some es => .ok es
  | none => .error .tlvError

/-- The first element of a type among parsed ones, as `get(type)` finds it. -/
def firstOf (type : ℕ) (es : List Block) : Except Exn Block :=
  match es.find? fun e => e.type = type with
  | some e => .ok e
  | none => .error .tlvError

/-- `parse()` followed by `get(type)`. -/
def get (b : Block) (type : ℕ) : Except Exn Block := do
  firstOf type (← b.elements)

/-- `readNonNegativeInteger(block)`. -/
def readNonNegativeInteger (b : Block) : Except Exn ℕ :=
  match Tlv.readNonNegative b.value with
  | some n => .ok n
  | none => .error .tlvError

/-- `push_back(element)` on a block that will be encoded. -/
def pushBack (b : Block) (element : Block) : Block := ⟨b.type, b.value ++ element.encode⟩

/-- `blockFromValue()`. -/
def blockFromValue (b : Block) : Except Exn Block := ofBuffer b.value

/-- A block that the format can carry is read back from its wire form. -/
theorem ofBuffer_encode {b : Block} (h : b.Valid) : ofBuffer b.encode = .ok b := by
  simp [ofBuffer, decode_encode h]

/-- The elements that were put into a block are found again. -/
theorem elements_encodeAll {type : ℕ} {es : List Block} (h : ∀ e ∈ es, e.Valid) :
    elements ⟨type, encodeAll es⟩ = .ok es := by
  simp [elements, decodeAll_encodeAll h]

end Block

/-! ## Components -/

namespace Component

/-- A GenericNameComponent with the given octets. -/
def generic (value : Bytes) : Component := ⟨tlvGenericNameComponent, value⟩

/-- `Component::fromSegment`. -/
def fromSegment (i : ℕ) : Component := ⟨tlvSegmentNameComponent, encodeNonNegative i⟩

/-- `Component::fromVersion`. -/
def fromVersion (v : ℕ) : Component := ⟨tlvVersionNameComponent, encodeNonNegative v⟩

def isSegment (c : Component) : Bool :=
  c.type = tlvSegmentNameComponent && isNonNegative c.value

def isVersion (c : Component) : Bool :=
  c.type = tlvVersionNameComponent && isNonNegative c.value

@[simp] theorem isSegment_generic (value : Bytes) : isSegment (generic value) = false := rfl

theorem fromSegment_injective {i j : ℕ} (hi : i < 2 ^ 64) (hj : j < 2 ^ 64)
    (h : fromSegment i = fromSegment j) : i = j := by
  injection h with _ hv
  exact encodeNonNegative_injective hi hj hv

end Component

/-! ## Names -/

namespace Name

/-- `getPrefix(-n)`. -/
def getPrefixNeg (name : Name) (n : ℕ) : Name := name.take (name.length - n)

/-- `at(i)` for `i ≥ 0`. -/
def atPos (name : Name) (i : ℕ) : Except Exn Component :=
  match name[i]? with
  | some c => .ok c
  | none => .error .nameError

/-- `at(-n)` for `n > 0`. -/
def atNeg (name : Name) (n : ℕ) : Except Exn Component :=
  if name.length < n then .error .nameError else name.atPos (name.length - n)

/-- `wireEncode()`. -/
def wireEncode (name : Name) : Block := ⟨tlvName, encodeAll name⟩

/-- `Name(block)`. -/
def ofBlock (b : Block) : Except Exn Name :=
  if b.type = tlvName then b.elements else .error .tlvError

@[simp] theorem getPrefixNeg_append_singleton (name : Name) (c : Component) :
    getPrefixNeg (name ++ [c]) 1 = name := by
  simp [getPrefixNeg]

/-- A name of valid components is read back from its wire form. -/
theorem ofBlock_wireEncode {name : Name} (h : ∀ c ∈ name, c.Valid) :
    ofBlock name.wireEncode = .ok name := by
  simp [ofBlock, wireEncode, Block.elements, decodeAll_encodeAll h]

/-- A component behind a known front. -/
theorem atPos_append_cons {front rest : Name} {marker c : Component} {i : ℕ} :
    (front ++ marker :: rest).atPos (front.length + (i + 1)) = .ok c ↔ rest[i]? = some c := by
  have hget : (front ++ marker :: rest)[front.length + (i + 1)]? = rest[i]? := by
    rw [List.getElem?_append_right (by omega), Nat.add_sub_cancel_left, List.getElem?_cons_succ]
  unfold atPos
  rw [hget]
  cases rest[i]? with
  | none => exact ⟨nofun, nofun⟩
  | some other =>
    constructor
    · intro h
      exact congrArg some (Except.ok.inj h)
    · intro h
      exact congrArg Except.ok (Option.some.inj h)

end Name

/-- The component holds the wire form of a name, and nothing else. -/
def Component.CarriesName (c : Component) (name : Name) : Prop :=
  ∃ block, Block.ofBuffer c.value = .ok block ∧ block.type = tlvName ∧ block.elements = .ok name

/-- `Name(component.blockFromValue())`, for a component behind a known front. -/
theorem Name.carried_append_cons {front rest name : Name} {marker : Component} {i : ℕ} :
    (do
      let component ← (front ++ marker :: rest).atPos (front.length + (i + 1))
      ofBlock (← Block.blockFromValue component)) = .ok name ↔
      ∃ c, rest[i]? = some c ∧ c.CarriesName name := by
  constructor
  · intro h
    obtain ⟨c, hc, hread⟩ := bind_eq_ok.mp h
    obtain ⟨block, hblock, hname⟩ := bind_eq_ok.mp hread
    unfold ofBlock at hname
    split at hname
    · next htype => exact ⟨c, atPos_append_cons.mp hc, block, hblock, htype, hname⟩
    · cases hname
  · rintro ⟨c, hc, block, hblock, htype, hname⟩
    refine bind_eq_ok.mpr ⟨c, atPos_append_cons.mpr hc, bind_eq_ok.mpr ⟨block, hblock, ?_⟩⟩
    rw [ofBlock, if_pos htype]
    exact hname

/-! ## Components of common.hpp -/

def publicParamsComponent : Component := Component.generic (ascii "PUBPARAMS")
def decryptKeyComponent : Component := Component.generic (ascii "DKEY")
def encryptByComponent : Component := Component.generic (ascii "ENC-BY")
def contentKeyComponent : Component := Component.generic (ascii "CK")
def setPolicyComponent : Component := Component.generic (ascii "SET_POLICY")

/-- `/AA-prefix/DKEY/<key name block>`, the name of a request for a decryption key. -/
def decryptionKeyName (aaPrefix keyName : Name) : Name :=
  aaPrefix ++ [decryptKeyComponent, Component.generic keyName.wireEncode.encode]

/-! ## Keys and certificates -/

/-- `Certificate::KEY_COMPONENT`. -/
def keyComponent : Component := Component.generic (ascii "KEY")

/-- `security::isValidKeyName`. -/
def isValidKeyName (keyName : Name) : Bool :=
  2 ≤ keyName.length && keyName[keyName.length - 2]? = some keyComponent

/-- `security::extractIdentityFromKeyName`. -/
def extractIdentityFromKeyName (keyName : Name) : Except Exn Name :=
  if isValidKeyName keyName then .ok (keyName.getPrefixNeg 2) else .error .invalidArgument

/-- `Certificate::isValidName`. -/
def isValidCertName (certName : Name) : Bool :=
  4 ≤ certName.length && certName[certName.length - 4]? = some keyComponent

/-- `security::extractIdentityFromCertName`. -/
def extractIdentityFromCertName (certName : Name) : Except Exn Name :=
  if isValidCertName certName then .ok (certName.getPrefixNeg 4) else .error .invalidArgument

/-- `security::extractKeyNameFromCertName`. -/
def extractKeyNameFromCertName (certName : Name) : Except Exn Name :=
  if isValidCertName certName then .ok (certName.getPrefixNeg 2) else .error .invalidArgument

/-- The key name of a certificate's name is a valid key name of the certificate's
own identity. -/
theorem isValidKeyName_of_certName {certName : Name} (h : isValidCertName certName = true) :
    isValidKeyName (certName.getPrefixNeg 2) = true ∧
      (certName.getPrefixNeg 2).getPrefixNeg 2 = certName.getPrefixNeg 4 := by
  simp only [isValidCertName, Bool.and_eq_true, decide_eq_true_eq] at h
  obtain ⟨hlen, hkey⟩ := h
  have hpre : (certName.getPrefixNeg 2).length = certName.length - 2 := by
    simp [Name.getPrefixNeg]
  constructor
  · simp only [isValidKeyName, hpre, Bool.and_eq_true, decide_eq_true_eq]
    refine ⟨by omega, ?_⟩
    rw [show certName.length - 2 - 2 = certName.length - 4 by omega]
    rw [Name.getPrefixNeg, List.getElem?_take_of_lt (by omega)]
    exact hkey
  · rw [Name.getPrefixNeg, hpre, Name.getPrefixNeg, List.take_take, Name.getPrefixNeg]
    congr 1
    omega

end NacAbe
