import NacAbe.Program.AbeSupport
import NacAbe.Program.ParamFetcher
import NacAbe.Program.TrustConfig

/-!
# `Producer`

The policy store that SET_POLICY commands fill, the lookup by data name, and the
production of encrypted data and content key packets.  The store for CP-ABE maps a
data prefix to a policy string and the one for KP-ABE to an attribute list; both are
lists of pairs with the same loops over them, so the loops are written once, over
prefixes with a list as value.
-/

set_option autoImplicit false

namespace NacAbe

/-- `std::to_string`. -/
def decimal (n : ℕ) : Bytes := (Nat.toDigits 10 n).map fun c => UInt8.ofNat c.toNat

/-! ## The policy store -/

namespace PolicyTable

variable {α : Type}

/-- The loop of `addNewPolicy` and `addNewAttributes`, with the `emplace_back` after it. -/
def addNew (dataPrefix : Name) (value : List α) : List (Name × List α) → List (Name × List α)
  | [] => [(dataPrefix, value)]
  | item :: items =>
    if item.1 = dataPrefix then (item.1, value) :: items
    else item :: addNew dataPrefix value items

/-- One round of the loop of `findMatchedPolicy` and `findMatchedAttributes`. -/
def matchStep (dataName : Name) (acc : List α × ℕ) (item : Name × List α) : List α × ℕ :=
  let (index, maxMatchedComponents) := acc
  if item.1.isPrefixOf dataName && maxMatchedComponents < item.1.length then
    (item.2, item.1.length)
  else (index, maxMatchedComponents)

/-- `findMatchedPolicy` and `findMatchedAttributes`. -/
def findMatched (items : List (Name × List α)) (dataName : Name) : List α :=
  (items.foldl (matchStep dataName) ([], 0)).1

end PolicyTable

/-! ## State -/

/-- What a producer is told to set. -/
inductive PolicyCommand
  | policy (dataPrefix : Name) (policy : Policy)
  | attributes (dataPrefix : Name) (attributes : List Bytes)
deriving DecidableEq, Repr

structure Producer where
  m_cert : Certificate
  m_dataOwnerKeyName : Name
  m_trustConfig : TrustConfig
  /-- For CP-ABE. -/
  m_policies : List (Name × Policy)
  /-- For KP-ABE. -/
  m_attributes : List (Name × List Bytes)
  m_paramFetcher : ParamFetcher
  /-- What has been put on the face. -/
  sent : List Data

namespace Producer

/-- A producer with a data owner, as it is constructed, producer.cpp:34-74. -/
def initial (identityCert attrAuthorityCertificate dataOwnerCertificate : Certificate)
    (publicParamInterestTemplate : Interest) : Producer where
  m_cert := identityCert
  m_dataOwnerKeyName := dataOwnerCertificate.getKeyName
  m_trustConfig := (TrustConfig.initial.addOrUpdateCertificate
    attrAuthorityCertificate).addOrUpdateCertificate dataOwnerCertificate
  m_policies := []
  m_attributes := []
  m_paramFetcher := .initial attrAuthorityCertificate.getIdentity publicParamInterestTemplate
  sent := []

/-- `addNewPolicy`, producer.cpp:230-241. -/
def addNewPolicy (producer : Producer) (dataPrefix : Name) (policy : Policy) : Producer :=
  { producer with m_policies := PolicyTable.addNew dataPrefix policy producer.m_policies }

/-- `addNewAttributes`, producer.cpp:243-257. -/
def addNewAttributes (producer : Producer) (dataPrefix : Name) (attributes : List Bytes) :
    Producer :=
  { producer with m_attributes := PolicyTable.addNew dataPrefix attributes producer.m_attributes }

/-- `findMatchedPolicy`, producer.cpp:259-273. -/
def findMatchedPolicy (producer : Producer) (dataName : Name) : Policy :=
  PolicyTable.findMatched producer.m_policies dataName

/-- `findMatchedAttributes`, producer.cpp:275-289. -/
def findMatchedAttributes (producer : Producer) (dataName : Name) : List Bytes :=
  PolicyTable.findMatched producer.m_attributes dataName

/-! ## Commands -/

/-- What decides whether an Interest is authentic: the signature check against a
certificate, and the validator, which answers within the delivery. -/
structure Authentication where
  verifySignature : Interest → Certificate → Bool
  validate : Interest → Bool

/-- The body of `generateReply` in `onPolicyInterest`: what the command sets and the word
of the reply. -/
def applyPolicy (dataPrefix : Name) (interest : Interest) : Prog Producer Exn Empty Bool := do
  let producer ← get
  if producer.m_paramFetcher.m_abeType = abeTypeCpAbe then
    let policyBlock ← interest.name.atPos (producer.m_cert.getIdentity.length + 2)
    modify (addNewPolicy · dataPrefix policyBlock.value)
    return true
  else if producer.m_paramFetcher.m_abeType = abeTypeKpAbe then
    let attrBlock ← interest.name.atPos (producer.m_cert.getIdentity.length + 2)
    let elements ← Block.elements attrBlock
    modify (addNewAttributes · dataPrefix (elements.map (·.value)))
    return true
  else return false

/-- `generateReply`. -/
def generateReply (dataPrefix : Name) (interest : Interest) : Prog Producer Exn Empty Unit := do
  let success ← applyPolicy dataPrefix interest
  let reply : Data := ⟨interest.name, if success then ascii "success" else ascii "failure"⟩
  modify fun producer => { producer with sent := producer.sent ++ [reply] }

/-- `onPolicyInterest`, producer.cpp:291-340. -/
def onPolicyInterest (auth : Authentication) (interest : Interest) :
    Prog Producer Exn Empty Unit := do
  let producer ← get
  let dataPrefixBlock ← interest.name.atPos (producer.m_cert.getIdentity.length + 1)
  let dataPrefix ← Name.ofBlock (← Block.blockFromValue dataPrefixBlock)
  match producer.m_trustConfig.findCertificateFromLocal producer.m_dataOwnerKeyName with
  | some dataOwnerKey =>
    if auth.verifySignature interest dataOwnerKey then generateReply dataPrefix interest
  | none =>
    if auth.validate interest then generateReply dataPrefix interest

/-! ## Production -/

/-- `getCkEncryptedData`, producer.cpp:342-358. -/
def getCkEncryptedData (producer : Producer) (dataNameSuffix : Name) (cipherText : CipherText)
    (ckName : Name) (maxSegmentSize : ℕ) : Except Exn (List Data) :=
  let contentDataName := producer.m_cert.getIdentity ++ dataNameSuffix
  let dataBlock := cipherText.makeDataContent.pushBack ckName.wireEncode
  segment dataBlock.encode contentDataName maxSegmentSize

/-- `produce` from a known content key, producer.cpp:218-228. -/
def produceWithKey (abe : OpenAbe) (producer : Producer) (key : ContentKey) (keyName : Name)
    (dataNameSuffix : Name) (content : Bytes) (maxSegmentSize seed : ℕ) :
    Except Exn (List Data) := do
  let cipherText ← AbeSupport.encrypt abe key content seed
  getCkEncryptedData producer dataNameSuffix cipherText keyName maxSegmentSize

/-- The packets of a content key: what both `ckDataGen` do once they have one.  `word` is
the random number in the name. -/
def ckSegments (producer : Producer) (contentKey : ContentKey) (encryptBy : Bytes)
    (maxSegmentSize word : ℕ) : Except Exn (List Data) := do
  let identity ← extractIdentityFromCertName producer.m_cert.getName
  let ckDataName := identity ++ [contentKeyComponent, Component.generic (decimal word),
    encryptByComponent, Component.generic encryptBy]
  segment contentKey.makeCKContent.encode ckDataName maxSegmentSize

/-- `ckDataGen` for a policy, producer.cpp:96-124.  `c_str()` ends the name component at
the first terminator. -/
def ckDataGenPolicy (abe : OpenAbe) (producer : Producer) (accessPolicy : Policy)
    (maxSegmentSize word seed : ℕ) : Except Exn (Option ContentKey × List Data) :=
  if producer.m_paramFetcher.m_pubParamsCache.m_pub = [] then .ok (none, [])
  else if producer.m_paramFetcher.m_abeType ≠ abeTypeCpAbe then .ok (none, [])
  else do
    let contentKey ← AbeSupport.cpContentKeyGen abe producer.m_paramFetcher.m_pubParamsCache
      accessPolicy seed
    let segments ← ckSegments producer contentKey (accessPolicy.takeWhile (· ≠ 0))
      maxSegmentSize word
    return (some contentKey, segments)

/-- `ckDataGen` for an attribute list, producer.cpp:148-186. -/
def ckDataGenAttributes (abe : OpenAbe) (producer : Producer) (attributes : List Bytes)
    (maxSegmentSize word seed : ℕ) : Except Exn (Option ContentKey × List Data) :=
  if producer.m_paramFetcher.m_pubParamsCache.m_pub = [] then .ok (none, [])
  else if producer.m_paramFetcher.m_abeType ≠ abeTypeKpAbe then .ok (none, [])
  else do
    let contentKey ← AbeSupport.kpContentKeyGen abe producer.m_paramFetcher.m_pubParamsCache
      attributes seed
    let segments ← ckSegments producer contentKey
      (Tlv.encodeAll (attributes.map fun a => ⟨tlvAttribute, a⟩)) maxSegmentSize word
    return (some contentKey, segments)

/-- The common end of `produce` for a policy and for an attribute list. -/
def produceFrom (abe : OpenAbe) (producer : Producer) (dataNameSuffix : Name) (content : Bytes)
    (maxSegmentSize seed : ℕ) (contentKey : Option ContentKey × List Data) :
    Except Exn (List Data × List Data) :=
  match contentKey with
  | (none, _) => .ok ([], [])
  | (some _, []) => .error .outOfRange
  | (some key, ckData :: rest) => do
    let ckObjName := ckData.name.getPrefixNeg 1
    let data ← produceWithKey abe producer key ckObjName dataNameSuffix content maxSegmentSize
      seed
    return (data, ckData :: rest)

/-- `produce` for a policy, producer.cpp:77-94. -/
def producePolicy (abe : OpenAbe) (producer : Producer) (dataNameSuffix : Name)
    (accessPolicy : Policy) (content : Bytes) (maxSegmentSize word seed : ℕ) :
    Except Exn (List Data × List Data) := do
  let contentKey ← ckDataGenPolicy abe producer accessPolicy maxSegmentSize word seed
  produceFrom abe producer dataNameSuffix content maxSegmentSize seed contentKey

/-- `produce` for an attribute list, producer.cpp:126-146. -/
def produceAttributes (abe : OpenAbe) (producer : Producer) (dataNameSuffix : Name)
    (attributes : List Bytes) (content : Bytes) (maxSegmentSize word seed : ℕ) :
    Except Exn (List Data × List Data) := do
  let contentKey ← ckDataGenAttributes abe producer attributes maxSegmentSize word seed
  produceFrom abe producer dataNameSuffix content maxSegmentSize seed contentKey

/-- The choice `produce` makes from the data name, producer.cpp:188-216, over the two
virtual functions it calls. -/
def produceMatched {m : Type → Type} [Monad m] (producer : Producer)
    (producePolicy : Policy → m (List Data × List Data))
    (produceAttributes : List Bytes → m (List Data × List Data)) (dataNameSuffix : Name) :
    m (List Data × List Data) :=
  if producer.m_paramFetcher.m_abeType = abeTypeCpAbe then
    let policy := producer.findMatchedPolicy dataNameSuffix
    if policy = [] then pure ([], []) else producePolicy policy
  else if producer.m_paramFetcher.m_abeType = abeTypeKpAbe then
    let attributes := producer.findMatchedAttributes dataNameSuffix
    if attributes = [] then pure ([], []) else produceAttributes attributes
  else pure ([], [])

/-- `produce` by data name. -/
def produce (abe : OpenAbe) (producer : Producer) (dataNameSuffix : Name) (content : Bytes)
    (maxSegmentSize word seed : ℕ) : Except Exn (List Data × List Data) :=
  produceMatched producer
    (fun policy => producePolicy abe producer dataNameSuffix policy content maxSegmentSize word
      seed)
    (fun attributes => produceAttributes abe producer dataNameSuffix attributes content
      maxSegmentSize word seed)
    dataNameSuffix

end Producer

end NacAbe
