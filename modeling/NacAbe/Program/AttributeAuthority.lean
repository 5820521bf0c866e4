import NacAbe.Library.Reentrant
import NacAbe.Library.Runs
import NacAbe.Program.AbeSupport
import NacAbe.Program.DataEncDec
import NacAbe.Program.TrustConfig

/-!
# `AttributeAuthority`, `CpAttributeAuthority` and `KpAttributeAuthority`

The two authorities differ in the token they keep for an identity, an attribute
list or a policy, and in the call of `ABESupport` that makes a private key of it.
Everything else is one text, so one definition with these two as parameters stands
for both; `CpAttributeAuthority` and `KpAttributeAuthority` are its instances.

Next to the members of the class the state has what the results speak of and the
object does not store: the certificate Interests that are outstanding and a log of
what was generated and sent.
-/

set_option autoImplicit false

namespace NacAbe

/-! ## State -/

/-- One result of `generateDecryptionKeySegments` and what it was made from. -/
structure Generation where
  objName : Name
  cert : Certificate
  prvKey : PrivateKey
  dkBlock : Block
  dkSegments : List Data
deriving DecidableEq, Repr

/-- What an authority does besides changing its members. -/
inductive AuthorityEffect (Token : Type)
  /-- `getPrivateKey(identityName)` made a key from a token. -/
  | keygen (identityName : Name) (token : Token) (prvKey : PrivateKey)
  /-- `generateDecryptionKeySegments` returned. -/
  | generated (g : Generation)
  /-- `m_face.put(data)`. -/
  | put (data : Data)
  /-- The Interest of `findCertificateFromNetwork`. -/
  | expressInterest (keyName : Name)
deriving DecidableEq, Repr

structure AttributeAuthority (Token : Type) where
  m_cert : Certificate
  m_abeType : AbeType
  m_maxSegmentSize : ℕ
  m_pubParams : PublicParams
  m_masterKey : MasterKey
  m_trustConfig : TrustConfig
  m_segmentMap : PartialMap Name (List Data)
  m_tokens : PartialMap Name Token
  /-- The key names whose certificates have been asked for and have not come. -/
  fetches : List Name
  log : List (AuthorityEffect Token)

/-- How an authority makes a private key of a token: `cpPrvKeyGen` or `kpPrvKeyGen`. -/
abbrev KeyGen (Token : Type) := PublicParams → MasterKey → Token → ℕ → Except Exn PrivateKey

abbrev AuthorityM (Token : Type) := Prog (AttributeAuthority Token) Exn Empty

namespace AttributeAuthority

variable {Token : Type}

/-- An authority that has been constructed and not yet used. -/
def initial (identityCert : Certificate) (abeType : AbeType) (maxSegmentSize : ℕ)
    (keys : PublicParams × MasterKey) : AttributeAuthority Token where
  m_cert := identityCert
  m_abeType := abeType
  m_maxSegmentSize := maxSegmentSize
  m_pubParams := keys.1
  m_masterKey := keys.2
  m_trustConfig := .initial
  m_segmentMap := .empty
  m_tokens := .empty
  fetches := []
  log := []

/-- The constructor, attribute-authority.cpp:33-72. -/
def construct (abe : OpenAbe) (identityCert : Certificate) (abeType : AbeType)
    (maxSegmentSize seed : ℕ) : Except Exn (AttributeAuthority Token) :=
  if abeType = abeTypeCpAbe then
    .ok (initial identityCert abeType maxSegmentSize (AbeSupport.init abe .cpAbe seed))
  else if abeType = abeTypeKpAbe then
    .ok (initial identityCert abeType maxSegmentSize (AbeSupport.init abe .kpAbe seed))
  else .error (.runtimeError ("Unsupported ABE type: " ++ text abeType))

/-- Append to the log. -/
def record (aa : AttributeAuthority Token) (effects : List (AuthorityEffect Token)) :
    AttributeAuthority Token := { aa with log := aa.log ++ effects }

/-! ## Policies -/

/-- `addNewPolicy(decryptorIdentityName, token)`, attribute-authority.cpp:172-176 and
220-223: `std::map::insert`. -/
def addNewPolicy (decryptorIdentityName : Name) (token : Token) : AuthorityM Token Unit :=
  modify fun aa => { aa with m_tokens := aa.m_tokens.insert decryptorIdentityName token }

/-- `addNewPolicy(decryptorCert, token)`, attribute-authority.cpp:178-184 and 225-230. -/
def addNewPolicyCert (decryptorCert : Certificate) (token : Token) : AuthorityM Token Unit := do
  modify fun aa =>
    { aa with m_trustConfig := aa.m_trustConfig.addOrUpdateCertificate decryptorCert }
  addNewPolicy decryptorCert.getIdentity token

/-! ## Decryption keys -/

section

variable (keyGen : KeyGen Token) (crypto : Crypto)

/-- `getPrivateKey`, attribute-authority.cpp:186-194 and 232-239. -/
def getPrivateKey (identityName : Name) (seed : ℕ) : AuthorityM Token PrivateKey := do
  let aa ← get
  match aa.m_tokens.find identityName with
  | none => throw .outOfRange
  | some token =>
    let prvKey ← keyGen aa.m_pubParams aa.m_masterKey token seed
    modify (record · [.keygen identityName token prvKey])
    return prvKey

/-- `generateDecryptionKeySegments`, attribute-authority.cpp:126-139.  `emplace` keeps
the segments an object name already has; the new ones are returned all the same. -/
def generateDecryptionKeySegments (objName : Name) (cert : Certificate) (seed : ℕ) :
    AuthorityM Token (List Data) := do
  let ABEPrvKey ← getPrivateKey keyGen cert.getIdentity seed
  let prvBuffer := ABEPrvKey.toBuffer
  let dkBlock ← encryptDataContentWithCK crypto prvBuffer cert.getPublicKey seed
  let dkSegments ← segment dkBlock.encode objName (← get).m_maxSegmentSize
  modify fun aa => { aa with m_segmentMap := aa.m_segmentMap.insert objName dkSegments }
  modify (record · [.generated ⟨objName, cert, ABEPrvKey, dkBlock, dkSegments⟩])
  return dkSegments

def put (data : Data) : AuthorityM Token Unit := modify (record · [.put data])

/-- `if (dkSegments.size() > 0) m_face.put(*dkSegments.at(0))`. -/
def putFirst : List Data → AuthorityM Token Unit
  | [] => pure ()
  | data :: _ => put data

/-- Generate and reply, with the time `now` read by `appendVersion`. -/
def replyDecryptionKey (requestName : Name) (cert : Certificate) (now seed : ℕ) :
    AuthorityM Token Unit := do
  let dkSegments ← generateDecryptionKeySegments keyGen crypto
    (requestName ++ [Component.fromVersion now]) cert seed
  putFirst dkSegments

/-- `requestName.at(-1).isSegment() && requestName.at(-2).isVersion()`. -/
def isSegmentRequest (requestName : Name) : Except Exn Bool := do
  if Component.isSegment (← requestName.atNeg 1) then
    return Component.isVersion (← requestName.atNeg 2)
  else return false

/-- The key name a request carries behind `/<aa>/DKEY`. -/
def supposedKeyName (aa : AttributeAuthority Token) (requestName : Name) : Except Exn Name := do
  let component ← requestName.atPos (aa.m_cert.getIdentity.length + 1)
  Name.ofBlock (← Block.blockFromValue component)

/-- `findCertificateFromNetwork` up to its Interest, trust-config.cpp:83-93. -/
def findCertificateFromNetwork (keyName : Name) : AuthorityM Token Unit := do
  let interest ← Interest.ofName keyName
  modify fun aa => { aa with fetches := interest.name :: aa.fetches }
  modify (record · [.expressInterest interest.name])

/-- `AttributeAuthority::onDecryptionKeyRequest`, attribute-authority.cpp:76-124. -/
def onDecryptionKeyRequestBase (request : Interest) (now seed : ℕ) :
    AuthorityM Token Unit := do
  let requestName := request.name
  let keyName ← supposedKeyName (← get) requestName
  if ← isSegmentRequest requestName then
    match (← get).m_segmentMap.find (requestName.getPrefixNeg 1) with
    | some dkSegments =>
      Prog.forEach (fun data => if requestName = data.name then put data else pure ()) dkSegments
    | none => pure ()
  else if isValidKeyName keyName then
    let _identityName ← extractIdentityFromKeyName keyName
    match (← get).m_trustConfig.findCertificateFromLocal keyName with
    | some cert => replyDecryptionKey keyGen crypto request.name cert now seed
    | none => findCertificateFromNetwork keyName
  else pure ()

/-- `onDecryptionKeyRequest` of the derived classes, attribute-authority.cpp:196-207 and
241-252. -/
def onDecryptionKeyRequest (request : Interest) (now seed : ℕ) : AuthorityM Token Unit := do
  let keyName ← supposedKeyName (← get) request.name
  let identityName ← extractIdentityFromKeyName keyName
  if ((← get).m_tokens.find identityName).isSome then
    onDecryptionKeyRequestBase keyGen crypto request now seed

/-- The continuations of `findCertificateFromNetwork` for one outstanding Interest, when
Data that matches it arrives and the validator has decided, trust-config.cpp:90-95.
The success callback captures `request` by reference, and the Interest is gone by
then: `requestRead` is whatever name the reference reads. -/
def onCertificateData (keyName : Name) (data : Data) (digest : Bytes) (keyPacket accepted : Bool)
    (requestRead : Name) (now seed : ℕ) : AuthorityM Token Unit := do
  if keyName ∈ (← get).fetches ∧
      (⟨keyName, true, none, none⟩ : Interest).matchesData data digest then
    modify fun aa => { aa with fetches := aa.fetches.erase keyName }
    if accepted then
      let cert ← Certificate.ofData data keyPacket
      replyDecryptionKey keyGen crypto requestRead cert now seed

/-- A nack or a timeout. -/
def onCertificateFailure (keyName : Name) : AuthorityM Token Unit :=
  modify fun aa => { aa with fetches := aa.fetches.erase keyName }

end

/-! ## Public parameters -/

/-- The Data that answers a request for the public parameters. -/
def publicParamsData (aa : AttributeAuthority Token) (interest : Interest) (now : ℕ) : Data :=
  ⟨interest.name ++ [Component.generic aa.m_abeType, Component.fromVersion now],
    aa.m_pubParams.toBuffer⟩

/-- `onPublicParamsRequest`, attribute-authority.cpp:141-160. -/
def onPublicParamsRequest (interest : Interest) (now : ℕ) : AuthorityM Token Unit := do
  put (publicParamsData (← get) interest now)

/-! ## Runs -/

/-- What can happen to an authority, one event after the other: `now` and `seed` are
what the clock and the random generator give. -/
inductive Event (Token : Type)
  | addNewPolicy (decryptorIdentityName : Name) (token : Token)
  | addNewPolicyCert (decryptorCert : Certificate) (token : Token)
  | decryptionKeyRequest (request : Interest) (now seed : ℕ)
  | certificateData (keyName : Name) (data : Data) (digest : Bytes) (keyPacket accepted : Bool)
      (requestRead : Name) (now seed : ℕ)
  | certificateFailure (keyName : Name)
  | publicParamsRequest (interest : Interest) (now : ℕ)
deriving DecidableEq, Repr

variable (keyGen : KeyGen Token) (crypto : Crypto)

def Event.handle : Event Token → AuthorityM Token Unit
  | .addNewPolicy identityName token => AttributeAuthority.addNewPolicy identityName token
  | .addNewPolicyCert cert token => AttributeAuthority.addNewPolicyCert cert token
  | .decryptionKeyRequest request now seed =>
    onDecryptionKeyRequest keyGen crypto request now seed
  | .certificateData keyName data digest keyPacket accepted requestRead now seed =>
    onCertificateData keyGen crypto keyName data digest keyPacket accepted requestRead now seed
  | .certificateFailure keyName => onCertificateFailure keyName
  | .publicParamsRequest interest now => onPublicParamsRequest interest now

/-- The state an event leaves.  An exception ends the event and nothing else. -/
def next (aa : AttributeAuthority Token) (e : Event Token) : AttributeAuthority Token :=
  ((e.handle keyGen crypto).exec aa).2

/-- The state after a list of events. -/
def run (aa : AttributeAuthority Token) (events : List (Event Token)) :
    AttributeAuthority Token :=
  Runs.after (next keyGen crypto) aa events

/-- What an event adds to the log. -/
def newEffects (aa : AttributeAuthority Token) (e : Event Token) :
    List (AuthorityEffect Token) :=
  (next keyGen crypto aa e).log.drop aa.log.length

end AttributeAuthority

/-! ## The two authorities -/

abbrev CpAttributeAuthority := AttributeAuthority (List Bytes)

abbrev CpAttributeAuthority.keyGen (abe : OpenAbe) : KeyGen (List Bytes) :=
  AbeSupport.cpPrvKeyGen abe

abbrev KpAttributeAuthority := AttributeAuthority Policy

abbrev KpAttributeAuthority.keyGen (abe : OpenAbe) : KeyGen Policy :=
  AbeSupport.kpPrvKeyGen abe

end NacAbe
