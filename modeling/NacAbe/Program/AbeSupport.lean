import NacAbe.Library.PartialMap
import NacAbe.Library.Separated
import NacAbe.Model.Name
import NacAbe.Model.OpenAbe

/-!
# `algo::ABESupport` and the values it works on

The keys, parameters and cipher texts of src/algo with their encodings, and the
singleton that calls OpenABE.  Its only state is `m_decryptedContentKeyMap`, the
content keys decrypted so far, keyed by their encrypted form.

`AbeCall` and `runCalls` are the histories of the calls that touch that state.
-/

set_option autoImplicit false

namespace NacAbe

/-! ## Types of common.hpp -/

abbrev AbeType := Bytes

def abeTypeCpAbe : AbeType := ascii "CP-ABE"
def abeTypeKpAbe : AbeType := ascii "KP-ABE"

abbrev Policy := Bytes

/-! ## Keys, parameters and cipher texts -/

structure PublicParams where
  m_pub : Bytes
deriving DecidableEq, Repr

structure MasterKey where
  m_msk : Bytes
deriving DecidableEq, Repr

structure PrivateKey where
  m_prv : Bytes
deriving DecidableEq, Repr

def PublicParams.toBuffer (params : PublicParams) : Bytes := params.m_pub ++ [0]

def PublicParams.fromBuffer (mem : Memory) (buffer : Bytes) : Except Exn PublicParams := do
  return ⟨← stringFrom mem buffer⟩

def PrivateKey.toBuffer (key : PrivateKey) : Bytes := key.m_prv ++ [0]

def PrivateKey.fromBuffer (mem : Memory) (buffer : Bytes) : Except Exn PrivateKey := do
  return ⟨← stringFrom mem buffer⟩

/-- Parameters are read from every buffer that is not empty. -/
theorem PublicParams.fromBuffer_eq_ok_iff {mem : Memory} {buffer : Bytes} {params : PublicParams} :
    fromBuffer mem buffer = .ok params ↔ buffer ≠ [] ∧ params = ⟨cString mem buffer⟩ := by
  by_cases h : buffer = []
  · subst h
    exact ⟨nofun, fun hne => absurd rfl hne.1⟩
  · rw [fromBuffer, stringFrom_of_ne_nil mem h, ok_bind]
    exact ⟨fun heq => ⟨h, (Except.ok.inj heq).symm⟩, fun heq => congrArg Except.ok heq.2.symm⟩

/-- Parameters without a terminator of their own are read back. -/
theorem PublicParams.fromBuffer_toBuffer (mem : Memory) {params : PublicParams}
    (h : (0 : UInt8) ∉ params.m_pub) : fromBuffer mem params.toBuffer = .ok params := by
  rw [fromBuffer, toBuffer, stringFrom_terminated mem h]
  rfl

theorem PrivateKey.fromBuffer_toBuffer (mem : Memory) {key : PrivateKey}
    (h : (0 : UInt8) ∉ key.m_prv) : fromBuffer mem key.toBuffer = .ok key := by
  rw [fromBuffer, toBuffer, stringFrom_terminated mem h]
  rfl

structure ContentKey where
  m_aesKey : Bytes
  m_encAesKey : Bytes
deriving DecidableEq, Repr, Inhabited

/-- `makeCKContent()`. -/
def ContentKey.makeCKContent (key : ContentKey) : Block :=
  Block.pushBack ⟨tlvContent, []⟩ ⟨tlvEncryptedAesKey, key.m_encAesKey⟩

/-- A cipher text.  `m_contentKey` of a fresh one is the default content key. -/
structure CipherText where
  m_contentKey : ContentKey
  m_content : Bytes
  m_plainTextSize : ℕ
deriving DecidableEq, Repr, Inhabited

/-- `makeDataContent()`. -/
def CipherText.makeDataContent (cipherText : CipherText) : Block :=
  (Block.pushBack ⟨tlvContent, []⟩ ⟨tlvEncryptedContent, cipherText.m_content⟩).pushBack
    ⟨tlvPlainTextSize, Tlv.encodeNonNegative cipherText.m_plainTextSize⟩

/-! ## Set-up, key generation and encryption -/

/-- `init`, behind `cpInit` and `kpInit`. -/
def AbeSupport.init (abe : OpenAbe) (context : Scheme) (seed : ℕ) : PublicParams × MasterKey :=
  (⟨(abe.generateParams context seed).1⟩, ⟨(abe.generateParams context seed).2⟩)

/-- The loop over an attribute list that `cpPrvKeyGen`, `kpContentKeyGen` and
`kpEncrypt` share, and the `pop_back` after it: an empty string has no last
character to remove. -/
def policyString (attrList : List Bytes) : Except Exn Bytes :=
  let joined := attrList.foldl (fun s it => s ++ it ++ ascii "|") []
  if joined = [] then .error .undefined else .ok joined.dropLast

/-- What the loop writes for a list that is not empty. -/
theorem joined_eq {attrList : List Bytes} (h : attrList ≠ []) :
    attrList.foldl (fun s it => s ++ it ++ ascii "|") [] =
      (ascii "|").intercalate attrList ++ ascii "|" := by
  rw [Separated.foldl_terminated, List.nil_append]
  exact Separated.flatMap_eq_intercalate (ascii "|") h

/-- The loop and the `pop_back` write the attributes with the separator between them. -/
theorem policyString_eq {attrList : List Bytes} (h : attrList ≠ []) :
    policyString attrList = .ok ((ascii "|").intercalate attrList) := by
  have hne : (ascii "|").intercalate attrList ++ ascii "|" ≠ [] := by simp [ascii]
  rw [policyString, joined_eq h, if_neg hne]
  exact congrArg Except.ok List.dropLast_concat

namespace AbeSupport

/-- `prvKeyGen`. -/
def prvKeyGen (abe : OpenAbe) (context : Scheme) (pubParams : PublicParams)
    (masterKey : MasterKey) (policyOrAttribute : Bytes) (seed : ℕ) : Except Exn PrivateKey :=
  match abe.keygen context pubParams.m_pub masterKey.m_msk policyOrAttribute seed with
  | some privKey => .ok ⟨privKey⟩
  | none => .error (.nacAlgoError "cannot generate private key for the policy")

def cpPrvKeyGen (abe : OpenAbe) (pubParams : PublicParams) (masterKey : MasterKey)
    (attrList : List Bytes) (seed : ℕ) : Except Exn PrivateKey := do
  prvKeyGen abe .cpAbe pubParams masterKey (← policyString attrList) seed

def kpPrvKeyGen (abe : OpenAbe) (pubParams : PublicParams) (masterKey : MasterKey)
    (policy : Policy) (seed : ℕ) : Except Exn PrivateKey :=
  prvKeyGen abe .kpAbe pubParams masterKey policy seed

def cannotEncrypt : Exn :=
  .nacAlgoError "cannot encrypt the plaintext using given public paramater and policy."

/-- `contentKeyGen`. -/
def contentKeyGen (abe : OpenAbe) (context : Scheme) (pubParams : PublicParams)
    (policyOrAttribute : Bytes) (seed : ℕ) : Except Exn ContentKey :=
  if abe.importPublicParams context pubParams.m_pub then
    let symmetricKey := abe.generateSymmetricKey seed
    match abe.encrypt context pubParams.m_pub policyOrAttribute symmetricKey seed with
    | some encryptedSymmetricKey => .ok ⟨symmetricKey, cStrBuffer encryptedSymmetricKey⟩
    | none => .error cannotEncrypt
  else .error cannotEncrypt

/-- A content key that was made holds the buffer of its encryption. -/
theorem encrypted_of_contentKeyGen {abe : OpenAbe} {context : Scheme} {pubParams : PublicParams}
    {policyOrAttribute : Bytes} {seed : ℕ} {key : ContentKey}
    (h : contentKeyGen abe context pubParams policyOrAttribute seed = .ok key) :
    ∃ encrypted, abe.encrypt context pubParams.m_pub policyOrAttribute key.m_aesKey seed =
      some encrypted ∧ key.m_encAesKey = cStrBuffer encrypted := by
  unfold contentKeyGen at h
  split at h
  · dsimp only at h
    split at h
    · next encrypted hencrypt =>
      cases h
      exact ⟨encrypted, hencrypt, rfl⟩
    · cases h
  · cases h

def cpContentKeyGen (abe : OpenAbe) (pubParams : PublicParams) (policy : Policy) (seed : ℕ) :
    Except Exn ContentKey :=
  contentKeyGen abe .cpAbe pubParams policy seed

def kpContentKeyGen (abe : OpenAbe) (pubParams : PublicParams) (attrList : List Bytes)
    (seed : ℕ) : Except Exn ContentKey := do
  contentKeyGen abe .kpAbe pubParams (← policyString attrList) seed

/-- `encrypt`: the length handed to AES, the length of the buffer made from the
result and the recorded plaintext size all go through `uint32_t`. -/
def encrypt (abe : OpenAbe) (contentKey : ContentKey) (plaintext : Bytes) (seed : ℕ) :
    Except Exn CipherText :=
  match abe.symEncrypt contentKey.m_aesKey (plaintext.take (toUint32 plaintext.length)) seed with
  | some ciphertext =>
    .ok ⟨contentKey, cStrBuffer ciphertext, toUint32 plaintext.length⟩
  | none => .error cannotEncrypt

def cpEncrypt (abe : OpenAbe) (pubParams : PublicParams) (policy : Policy) (plaintext : Bytes)
    (seed : ℕ) : Except Exn CipherText := do
  encrypt abe (← contentKeyGen abe .cpAbe pubParams policy seed) plaintext seed

def kpEncrypt (abe : OpenAbe) (pubParams : PublicParams) (attrList : List Bytes)
    (plaintext : Bytes) (seed : ℕ) : Except Exn CipherText := do
  let policy ← policyString attrList
  encrypt abe (← contentKeyGen abe .kpAbe pubParams policy seed) plaintext seed

end AbeSupport

/-! ## Decryption and its cache -/

/-- The state of the singleton. -/
structure AbeSupport where
  m_decryptedContentKeyMap : PartialMap Bytes Bytes

namespace AbeSupport

/-- The singleton as it is constructed. -/
def initial : AbeSupport := ⟨.empty⟩

def cannotDecrypt : Exn :=
  .nacAlgoError "cannot encrypt the ciphertext using given private key."

/-- Steps 0 to 2 of `decrypt`, taken when the encrypted key is not in the map. -/
def decryptKey (abe : OpenAbe) (context : Scheme) (pubParams : PublicParams)
    (prvKey : PrivateKey) (encryptedSymmetricKey : Bytes) : Except Exn Bytes :=
  if abe.importPublicParams context pubParams.m_pub = false then .error cannotDecrypt
  else if abe.importUserKey context pubParams.m_pub prvKey.m_prv = false then
    .error cannotDecrypt
  else
    match abe.decrypt context pubParams.m_pub prvKey.m_prv encryptedSymmetricKey with
    | none => .error cannotDecrypt
    | some none => .error (.nacAlgoError "Decryption error!")
    | some (some aesKey) => .ok aesKey

/-- Steps 3 and 4 of `decrypt`. -/
def decryptContent (abe : OpenAbe) (mem : Memory) (decryptedSymmetricKey m_content : Bytes) :
    Except Exn Bytes := do
  let cipherContentStr ← stringFrom mem m_content
  match abe.symDecrypt decryptedSymmetricKey cipherContentStr with
  | some recoveredContent => .ok (recoveredContent.take (toUint32 recoveredContent.length))
  | none => .error cannotDecrypt

/-- `decrypt`.  The key found by steps 0 to 2 stays in the map also when the AES step
that follows fails.  It is written to `cipherText.m_contentKey` as well, where nothing
reads it again. -/
def decrypt (abe : OpenAbe) (mem : Memory) (context : Scheme) (pubParams : PublicParams)
    (prvKey : PrivateKey) (cipherText : CipherText) : ExceptT Exn (StateM AbeSupport) Bytes := do
  let encryptedSymmetricKey ← stringFrom mem cipherText.m_contentKey.m_encAesKey
  match (← get).m_decryptedContentKeyMap.find encryptedSymmetricKey with
  | some decryptedSymmetricKey =>
    decryptContent abe mem decryptedSymmetricKey cipherText.m_content
  | none =>
    let decryptedSymmetricKey ← decryptKey abe context pubParams prvKey encryptedSymmetricKey
    modify fun st => ⟨st.m_decryptedContentKeyMap.assign encryptedSymmetricKey
      decryptedSymmetricKey⟩
    decryptContent abe mem decryptedSymmetricKey cipherText.m_content

def cpDecrypt (abe : OpenAbe) (mem : Memory) (pubParams : PublicParams) (prvKey : PrivateKey)
    (cipherText : CipherText) : ExceptT Exn (StateM AbeSupport) Bytes :=
  decrypt abe mem .cpAbe pubParams prvKey cipherText

def kpDecrypt (abe : OpenAbe) (mem : Memory) (pubParams : PublicParams) (prvKey : PrivateKey)
    (cipherText : CipherText) : ExceptT Exn (StateM AbeSupport) Bytes :=
  decrypt abe mem .kpAbe pubParams prvKey cipherText

def clearCachedContentKeys : StateM AbeSupport Unit :=
  modify fun _ => ⟨.empty⟩

/-- What `decrypt` returns and leaves behind, by what it finds in the map. -/
theorem decrypt_run (abe : OpenAbe) (mem : Memory) (context : Scheme) (pubParams : PublicParams)
    (prvKey : PrivateKey) (cipherText : CipherText) (st : AbeSupport) :
    (decrypt abe mem context pubParams prvKey cipherText).run.run st =
      match stringFrom mem cipherText.m_contentKey.m_encAesKey with
      | .error e => (.error e, st)
      | .ok encryptedSymmetricKey =>
        match st.m_decryptedContentKeyMap.find encryptedSymmetricKey with
        | some key => (decryptContent abe mem key cipherText.m_content, st)
        | none =>
          match decryptKey abe context pubParams prvKey encryptedSymmetricKey with
          | .error e => (.error e, st)
          | .ok key => (decryptContent abe mem key cipherText.m_content,
              ⟨st.m_decryptedContentKeyMap.assign encryptedSymmetricKey key⟩) := by
  simp only [decrypt, bind, ExceptT.bind, ExceptT.run, ExceptT.mk, ExceptT.bindCont, StateT.run,
    StateT.bind, get, getThe, MonadStateOf.get, liftM, monadLift, MonadLift.monadLift,
    ExceptT.lift, pure, Functor.map]
  cases stringFrom mem cipherText.m_contentKey.m_encAesKey with
  | error e => rfl
  | ok encryptedSymmetricKey =>
    have hpure : ∀ {α : Type} (a : α) (s : AbeSupport),
        (StateT.pure a : StateM AbeSupport α) s = (a, s) := fun _ _ => rfl
    simp only [hpure, StateT.map, StateT.get, StateT.bind, pure, bind, ExceptT.bindCont]
    cases st.m_decryptedContentKeyMap.find encryptedSymmetricKey with
    | some key => cases decryptContent abe mem key cipherText.m_content <;> rfl
    | none =>
      cases decryptKey abe context pubParams prvKey encryptedSymmetricKey with
      | error e => rfl
      | ok key => cases decryptContent abe mem key cipherText.m_content <;> rfl

/-! ## Histories -/

/-- A call that reads or writes the map: `cpDecrypt` or `kpDecrypt`, by the scheme,
or `clearCachedContentKeys`. -/
inductive Call
  | decrypt (context : Scheme) (pubParams : PublicParams) (prvKey : PrivateKey)
      (cipherText : CipherText)
  | clearCachedContentKeys
deriving DecidableEq, Repr

/-- The state a call leaves. -/
def Call.next (abe : OpenAbe) (mem : Memory) (st : AbeSupport) : Call → AbeSupport
  | .decrypt context pubParams prvKey cipherText =>
    ((AbeSupport.decrypt abe mem context pubParams prvKey cipherText).run.run st).2
  | .clearCachedContentKeys => (AbeSupport.clearCachedContentKeys.run st).2

/-- The state after a history of calls. -/
def runCalls (abe : OpenAbe) (mem : Memory) (history : List Call) : AbeSupport :=
  history.foldl (Call.next abe mem) initial

end AbeSupport

end NacAbe
