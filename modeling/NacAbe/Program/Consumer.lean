import Mathlib.Data.Finset.Basic
import NacAbe.Library.Reentrant
import NacAbe.Program.DataEncDec
import NacAbe.Program.Producer

/-!
# `Consumer`

A consumer is driven from two sides.  The application calls `consume`, and may do so
again from inside the callbacks it passed; the event loop completes the fetches that
were started.  Every invocation of a callback therefore hands control out: the
functions below are programs (`Prog`) whose outside calls are the callbacks, and
`Consumer.system` says which of them the application may start and which the event
loop starts.

Two things about the containers are said explicitly.  The loops over the waiting tasks
go over a vector that a nested `consume` may append to; when that has happened the
iterators are invalid and the loop goes on over `stale` tasks, of which nothing is
known.  And `erase(it)` erases the entry of the key: the nodes of an `unordered_map`
stay where they are when a nested `consume` makes the table grow.
-/

set_option autoImplicit false

namespace NacAbe

/-! ## State -/

/-- The callbacks of one call of `consume`, by the number of the call, and whether the
two `std::function`s are set. -/
structure Callbacks where
  id : ℕ
  hasSuccess : Bool
  hasError : Bool
deriving DecidableEq, Repr

/-- An invocation of a callback. -/
inductive Invocation
  | success (id : ℕ) (result : Bytes)
  | error (id : ℕ) (what : String)
deriving DecidableEq, Repr

/-- The call whose callback is invoked. -/
def Invocation.id : Invocation → ℕ
  | .success id _ => id
  | .error id _ => id

structure PendingTask where
  cipher : CipherText
  callbacks : Callbacks
deriving DecidableEq, Repr

structure Consumer where
  m_cert : Certificate
  m_attrAuthorityPrefix : Name
  m_keyCache : PrivateKey
  m_ckInterestsSent : Finset Name
  m_pendingCallbacks : PartialMap Name (List PendingTask)
  m_ckEncAesCache : PartialMap Name Bytes
  /-- In milliseconds. -/
  m_defaultTimeout : ℤ
  m_paramFetcher : ParamFetcher
  /-- `ABESupport::getInstance()`, which the consumer shares with the rest of the process. -/
  abeSupport : AbeSupport
  /-- The fetches that have been started and have not ended: of content keys, by CK name,
  of data, by Interest name, and of the decryption key. -/
  ckFetches : List Name
  dataFetches : List (Name × Callbacks)
  keyFetches : List Name
  /-- The number of the next call of `consume`. -/
  nextCall : ℕ
  /-- The calls whose content has been taken on, or that have been told why not. -/
  accepted : List ℕ
  /-- The callbacks invoked so far. -/
  invoked : List Invocation
  /-- The content key fetches started so far, with what the cache held. -/
  started : List (Name × Option Bytes)

/-- What a consumer runs on. -/
structure Platform where
  abe : OpenAbe
  mem : Memory
  crypto : Crypto
  /-- What a loop reads through iterators that have become invalid. -/
  stale : List PendingTask → List PendingTask

abbrev ConsumerM := Prog Consumer Exn Invocation

namespace Consumer

/-- A consumer as it is constructed, consumer.cpp:39-53. -/
def initial (identityCert attrAuthorityCertificate : Certificate)
    (publicParamInterestTemplate : Interest) : Consumer where
  m_cert := identityCert
  m_attrAuthorityPrefix := attrAuthorityCertificate.getIdentity
  m_keyCache := ⟨[]⟩
  m_ckInterestsSent := ∅
  m_pendingCallbacks := .empty
  m_ckEncAesCache := .empty
  m_defaultTimeout := 200
  m_paramFetcher := .initial attrAuthorityCertificate.getIdentity publicParamInterestTemplate
  abeSupport := .initial
  ckFetches := []
  dataFetches := []
  keyFetches := []
  nextCall := 0
  accepted := []
  invoked := []
  started := []

/-! ## Callbacks -/

/-- `successCallBack(result)`.  Invoking an empty `std::function` throws. -/
def invokeSuccess (callbacks : Callbacks) (result : Bytes) : ConsumerM Unit := do
  if callbacks.hasSuccess then
    modify fun c => { c with invoked := c.invoked ++ [.success callbacks.id result] }
    Prog.callOut (.success callbacks.id result)
  else throw .badFunctionCall

/-- `errorCallback(what)`. -/
def invokeError (callbacks : Callbacks) (what : String) : ConsumerM Unit := do
  if callbacks.hasError then
    modify fun c => { c with invoked := c.invoked ++ [.error callbacks.id what] }
    Prog.callOut (.error callbacks.id what)
  else throw .badFunctionCall

/-- A call into the `ABESupport` singleton. -/
def callAbe (decrypt : ExceptT Exn (StateM AbeSupport) Bytes) : ConsumerM Bytes := do
  let c ← get
  let returned := decrypt.run.run c.abeSupport
  set { c with abeSupport := returned.2 }
  liftM returned.1

/-- `readyForDecryption`, consumer.cpp:87-99. -/
def readyForDecryption (c : Consumer) : Bool :=
  c.m_paramFetcher.m_pubParamsCache.m_pub ≠ [] && c.m_keyCache.m_prv ≠ []

def notReady : String := "Public params or private decryption key doesn't exist"

/-- `setDefaultTimeout`. -/
def setDefaultTimeout (defaultTimeout : ℤ) (c : Consumer) : Consumer :=
  { c with m_defaultTimeout := defaultTimeout }

/-- The Interest for a name with the default lifetime, consumer.cpp:106-110 and 231-232. -/
def timedInterest (c : Consumer) (name : Name) : Except Exn Interest := do
  let interest ← Interest.ofName name
  interest.setInterestLifetime c.m_defaultTimeout

/-! ## Content and content keys -/

/-- `normalizeCkKey`, consumer.cpp:172-178. -/
def normalizeCkKey (ckName : Name) : Name :=
  match ckName.getLast? with
  | some last => if Component.isSegment last then ckName.getPrefixNeg 1 else ckName
  | none => ckName

/-- What `decryptContent` reads from a content block, consumer.cpp:186-195: the cipher text,
without a content key, and the CK name. -/
def parseContent (content : Block) : Except Exn (CipherText × Name) := do
  let elements ← content.elements
  let encryptedContentTLV ← Block.firstOf tlvEncryptedContent elements
  let plainTextSize ← Block.readNonNegativeInteger (← Block.firstOf tlvPlainTextSize elements)
  let ckName ← Name.ofBlock (← Block.firstOf tlvName elements)
  return (⟨default, encryptedContentTLV.value, toUint32 plainTextSize⟩, ckName)

/-- The try block that the cache path of `decryptContent` and `onCkeyData` share,
consumer.cpp:205-216 and 295-310: decrypt and report. -/
def decryptAndReport (p : Platform) (cipherText : CipherText) (callbacks : Callbacks) :
    ConsumerM Unit :=
  tryCatch
    (do
      let c ← get
      let pubParams := c.m_paramFetcher.m_pubParamsCache
      if c.m_paramFetcher.m_abeType = abeTypeCpAbe then
        let result ← callAbe (AbeSupport.cpDecrypt p.abe p.mem pubParams c.m_keyCache cipherText)
        invokeSuccess callbacks result
      else if c.m_paramFetcher.m_abeType = abeTypeKpAbe then
        let result ← callAbe (AbeSupport.kpDecrypt p.abe p.mem pubParams c.m_keyCache cipherText)
        invokeSuccess callbacks result
      else invokeError callbacks "Unsupported ABE type")
    fun e => if e.isStd then invokeError callbacks e.what else throw e

/-- `m_pendingCallbacks[ckKey].push_back(task)`. -/
def queue (ckKey : Name) (task : PendingTask) (c : Consumer) : Consumer :=
  let tasks := (c.m_pendingCallbacks.find ckKey).getD []
  { c with m_pendingCallbacks := c.m_pendingCallbacks.assign ckKey (tasks ++ [task]) }

/-- `SegmentFetcher::start` for a content key. -/
def startCkFetch (ckKey : Name) (c : Consumer) : Consumer :=
  { c with
    ckFetches := ckKey :: c.ckFetches
    started := c.started ++ [(ckKey, c.m_ckEncAesCache.find ckKey)] }

/-- `decryptContent`, consumer.cpp:180-239.  The task is queued and the name marked before the
Interest is made, which may be refused. -/
def decryptContent (p : Platform) (content : Block) (callbacks : Callbacks) :
    ConsumerM Unit := do
  let (cipherText, ckName) ← (liftM (parseContent content) : ConsumerM (CipherText × Name))
  modify fun c => { c with accepted := callbacks.id :: c.accepted }
  let ckKey := normalizeCkKey ckName
  let c ← get
  match c.m_ckEncAesCache.find ckKey with
  | some encAesKey =>
    decryptAndReport p { cipherText with m_contentKey := ⟨[], encAesKey⟩ } callbacks
  | none =>
    if ckKey ∈ c.m_ckInterestsSent then modify (queue ckKey ⟨cipherText, callbacks⟩)
    else
      modify fun c => { c with m_ckInterestsSent := insert ckKey c.m_ckInterestsSent }
      modify (queue ckKey ⟨cipherText, callbacks⟩)
      let _ckInterest ← (liftM (timedInterest (← get) ckKey) : ConsumerM Interest)
      modify (startCkFetch ckKey)

/-- `onCkeyData`, consumer.cpp:279-311. -/
def onCkeyData (p : Platform) (content : Block) (task : PendingTask) : ConsumerM Unit := do
  let encryptedAESKeyTLV ← (liftM (Block.get content tlvEncryptedAesKey) : ConsumerM Block)
  decryptAndReport p { task.cipher with m_contentKey := ⟨[], encryptedAESKeyTLV.value⟩ }
    task.callbacks

/-- The number of tasks that wait for a content key. -/
def waiting (ckKey : Name) (c : Consumer) : ℕ :=
  ((c.m_pendingCallbacks.find ckKey).getD []).length

/-- `m_pendingCallbacks.erase(it)`. -/
def erasePending (ckKey : Name) (c : Consumer) : Consumer :=
  { c with m_pendingCallbacks := c.m_pendingCallbacks.erase ckKey }

/-- `m_ckInterestsSent.erase(ckKey)`. -/
def eraseSent (ckKey : Name) (c : Consumer) : Consumer :=
  { c with m_ckInterestsSent := c.m_ckInterestsSent.erase ckKey }

/-- The fetcher of a content key has ended. -/
def endCkFetch (ckKey : Name) (c : Consumer) : Consumer :=
  { c with ckFetches := c.ckFetches.erase ckKey }

/-- Both handlers of a content key fetch, from the point where they look for the waiting
tasks on: tell every task, forget the tasks, clear the in-flight mark. -/
def broadcast (p : Platform) (ckKey : Name) (tell : PendingTask → ConsumerM Unit) :
    ConsumerM Unit := do
  match (← get).m_pendingCallbacks.find ckKey with
  | some tasks =>
    Prog.walk (waiting ckKey) p.stale tell tasks
    modify (erasePending ckKey)
  | none => pure ()
  modify (eraseSent ckKey)

/-- Fill the cache from the content of a fetch, best-effort, consumer.cpp:246-254. -/
def fillCache (ckKey : Name) (ckBlock : Block) : ConsumerM Unit :=
  tryCatch
    (do
      let encTLV ← (liftM (Block.get ckBlock tlvEncryptedAesKey) : ConsumerM Block)
      modify fun c => { c with m_ckEncAesCache := c.m_ckEncAesCache.assign ckKey encTLV.value })
    fun e => if e.isStd then pure () else throw e

/-- `ckFetcher->onComplete`, consumer.cpp:243-264. -/
def onCkComplete (p : Platform) (ckKey : Name) (contentBuffer : Bytes) : ConsumerM Unit := do
  modify (endCkFetch ckKey)
  let ckBlock ← (liftM (Block.ofBuffer contentBuffer) : ConsumerM Block)
  fillCache ckKey ckBlock
  broadcast p ckKey (onCkeyData p ckBlock)

/-- `if (t.onError) t.onError(errorMsg)`. -/
def tellError (errorMsg : String) (task : PendingTask) : ConsumerM Unit :=
  if task.callbacks.hasError then invokeError task.callbacks errorMsg else pure ()

/-- `ckFetcher->onError`, consumer.cpp:265-276. -/
def onCkError (p : Platform) (ckKey : Name) (errorMsg : String) : ConsumerM Unit := do
  modify (endCkFetch ckKey)
  broadcast p ckKey (tellError errorMsg)

/-! ## The public operations -/

/-- A call of `consume` gets its number. -/
def enterCall (hasSuccess hasError : Bool) : ConsumerM Callbacks := do
  let c ← get
  set { c with nextCall := c.nextCall + 1 }
  return ⟨c.nextCall, hasSuccess, hasError⟩

/-- Report to a call that goes no further. -/
def refuse (callbacks : Callbacks) (what : String) : ConsumerM Unit := do
  modify fun c => { c with accepted := callbacks.id :: c.accepted }
  invokeError callbacks what

/-- `consume(dataName, dataBlock, ..)`, consumer.cpp:147-158.  The data name is only logged. -/
def consumeBlock (p : Platform) (dataBlock : Block) (hasSuccess hasError : Bool) :
    ConsumerM Unit := do
  let callbacks ← enterCall hasSuccess hasError
  if (← get).readyForDecryption then decryptContent p dataBlock callbacks
  else refuse callbacks notReady

/-- `consume(dataInterest, ..)`, consumer.cpp:114-145. -/
def consumeInterest (dataInterest : Name) (hasSuccess hasError : Bool) : ConsumerM Unit := do
  let callbacks ← enterCall hasSuccess hasError
  if (← get).readyForDecryption then
    modify fun c => { c with dataFetches := (dataInterest, callbacks) :: c.dataFetches }
  else refuse callbacks notReady

/-- `consume(dataName, ..)`, consumer.cpp:101-112. -/
def consumeName (dataName : Name) (hasSuccess hasError : Bool) : ConsumerM Unit := do
  let interest ← (liftM (timedInterest (← get) dataName) : ConsumerM Interest)
  consumeInterest interest.name hasSuccess hasError

/-- `fetcher->onComplete` of a data fetch. -/
def onDataComplete (p : Platform) (fetch : Name × Callbacks) (contentBuffer : Bytes) :
    ConsumerM Unit := do
  modify fun c => { c with dataFetches := c.dataFetches.erase fetch }
  let content ← (liftM (Block.ofBuffer contentBuffer) : ConsumerM Block)
  decryptContent p content fetch.2

/-- `fetcher->onError` of a data fetch. -/
def onDataError (fetch : Name × Callbacks) (errorMsg : String) : ConsumerM Unit := do
  modify fun c => { c with dataFetches := c.dataFetches.erase fetch }
  refuse fetch.2 ("Data fetch failed: " ++ errorMsg)

/-- `obtainDecryptionKey`, consumer.cpp:55-85. -/
def obtainDecryptionKey : ConsumerM Unit := do
  let c ← get
  let keyName ← (liftM (extractKeyNameFromCertName c.m_cert.getName) : ConsumerM Name)
  let interestName := decryptionKeyName c.m_attrAuthorityPrefix keyName
  let interest ← (liftM (Interest.ofName interestName) : ConsumerM Interest)
  modify fun c => { c with keyFetches := interest.name :: c.keyFetches }

/-- `fetcher->onComplete` of the decryption key fetch. -/
def onKeyComplete (p : Platform) (interestName : Name) (contentBuffer : Bytes) :
    ConsumerM Unit := do
  modify fun c => { c with keyFetches := c.keyFetches.erase interestName }
  let block ← (liftM (Block.ofBuffer contentBuffer) : ConsumerM Block)
  let certName := (← get).m_cert.getName
  let prvBlock ← (liftM (decryptDataContentTpm p.crypto block certName) : ConsumerM Bytes)
  let prv ← (liftM (PrivateKey.fromBuffer p.mem prvBlock) : ConsumerM PrivateKey)
  modify fun c => { c with m_keyCache := prv }

/-! ## The system -/

/-- What the application may start whenever it has control, other users of the singleton
included. -/
inductive Entry
  | consumeBlock (dataBlock : Block) (hasSuccess hasError : Bool)
  | consumeInterest (dataInterest : Name) (hasSuccess hasError : Bool)
  | consumeName (dataName : Name) (hasSuccess hasError : Bool)
  | setDefaultTimeout (defaultTimeout : ℤ)
  | obtainDecryptionKey
  | abeCall (call : AbeSupport.Call)
deriving DecidableEq, Repr

/-- What the event loop starts. -/
inductive Event
  | ckComplete (ckKey : Name) (contentBuffer : Bytes)
  | ckError (ckKey : Name) (errorMsg : String)
  | dataComplete (fetch : Name × Callbacks) (contentBuffer : Bytes)
  | dataError (fetch : Name × Callbacks) (errorMsg : String)
  | keyComplete (interestName : Name) (contentBuffer : Bytes)
  | keyError (interestName : Name)
  | publicParams (pubParamData : Data) (validationError : Option String)
deriving DecidableEq, Repr

def Entry.program (p : Platform) : Entry → ConsumerM Unit
  | .consumeBlock dataBlock hasSuccess hasError =>
    Consumer.consumeBlock p dataBlock hasSuccess hasError
  | .consumeInterest dataInterest hasSuccess hasError =>
    Consumer.consumeInterest dataInterest hasSuccess hasError
  | .consumeName dataName hasSuccess hasError => Consumer.consumeName dataName hasSuccess hasError
  | .setDefaultTimeout defaultTimeout => modify (Consumer.setDefaultTimeout defaultTimeout)
  | .obtainDecryptionKey => Consumer.obtainDecryptionKey
  | .abeCall call => modify fun c => { c with abeSupport := call.next p.abe p.mem c.abeSupport }

def Event.program (p : Platform) : Event → ConsumerM Unit
  | .ckComplete ckKey contentBuffer => onCkComplete p ckKey contentBuffer
  | .ckError ckKey errorMsg => onCkError p ckKey errorMsg
  | .dataComplete fetch contentBuffer => onDataComplete p fetch contentBuffer
  | .dataError fetch errorMsg => onDataError fetch errorMsg
  | .keyComplete interestName contentBuffer => onKeyComplete p interestName contentBuffer
  | .keyError interestName =>
    modify fun c => { c with keyFetches := c.keyFetches.erase interestName }
  | .publicParams pubParamData validationError =>
    let onData := ParamFetcher.onAttributePubParams p.mem pubParamData validationError
    modify fun c => { c with m_paramFetcher := (onData.exec c.m_paramFetcher).2 }

/-- A fetch ends once. -/
def Event.enabled : Event → Consumer → Bool
  | .ckComplete ckKey _, c => ckKey ∈ c.ckFetches
  | .ckError ckKey _, c => ckKey ∈ c.ckFetches
  | .dataComplete fetch _, c => fetch ∈ c.dataFetches
  | .dataError fetch _, c => fetch ∈ c.dataFetches
  | .keyComplete interestName _, c => interestName ∈ c.keyFetches
  | .keyError interestName, c => interestName ∈ c.keyFetches
  | .publicParams _ _, _ => true

def system (p : Platform) : System Consumer Exn Invocation Entry Event where
  entry := Entry.program p
  event := Event.program p
  enabled := Event.enabled

end Consumer

end NacAbe
