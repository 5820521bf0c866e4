import NacAbe.Interface.AuthorityEvents
import NacAbe.Interface.ProducedPackets

/-!
# What an authority seals and a consumer opens

`encryptDataContentWithCK` puts three elements into a block, and both
`decryptDataContent` get the payload back out of it, one with the private key and one
through the TPM.  A consumer that is handed the segments of a `Generation` for its own
certificate ends up with the private key in it (`Generation.Sealed.exec_onKeyComplete`).
-/

set_option autoImplicit false

namespace NacAbe

variable {crypto : Crypto} {payload publicKey privateKey : Bytes} {keyName certName : Name}
  {block : Block} {seed : ℕ}

/-! ## The block -/

/-- What is in a block that was encrypted. -/
theorem encryptDataContentWithCK_eq_ok
    (h : encryptDataContentWithCK crypto payload publicKey seed = .ok block) :
    ∃ aesKey iv encryptedPayload encryptedAesKey,
      crypto.aesEncrypt aesKey payload iv = some encryptedPayload ∧
      crypto.rsaEncrypt publicKey aesKey seed = some encryptedAesKey ∧
      block = ⟨tlvContent, Tlv.encodeAll [⟨tlvEncryptedContent, encryptedPayload⟩,
        ⟨tlvEncryptedAesKey, encryptedAesKey⟩, ⟨tlvInitialVector, iv⟩]⟩ := by
  obtain ⟨encryptedPayload, hpayload, hrest⟩ := bind_eq_ok.mp h
  obtain ⟨encryptedAesKey, haesKey, hreturn⟩ := bind_eq_ok.mp hrest
  cases hreturn
  refine ⟨_, _, encryptedPayload, encryptedAesKey, eq_some_of_orThrow hpayload,
    eq_some_of_orThrow haesKey, ?_⟩
  simp [Block.pushBack]

/-- **Both ways to decrypt undo the encryption.** -/
theorem decryptDataContent_of_encrypted (hlaw : crypto.Lawful)
    (hpair : crypto.KeyPair publicKey privateKey keyName)
    (hcert : extractKeyNameFromCertName certName = .ok keyName)
    (h : encryptDataContentWithCK crypto payload publicKey seed = .ok block)
    (hsize : block.value.length < 2 ^ 64) :
    decryptDataContent crypto block privateKey = .ok payload ∧
      decryptDataContentTpm crypto block certName = .ok payload := by
  obtain ⟨aesKey, iv, encryptedPayload, encryptedAesKey, hpayload, haesKey, rfl⟩ :=
    encryptDataContentWithCK_eq_ok h
  have hvalid := Tlv.valid_of_encodeAll
    (by simp [tlvEncryptedContent, tlvEncryptedAesKey, tlvInitialVector]) hsize
  have helements : Block.elements ⟨tlvContent, Tlv.encodeAll [⟨tlvEncryptedContent,
      encryptedPayload⟩, ⟨tlvEncryptedAesKey, encryptedAesKey⟩, ⟨tlvInitialVector, iv⟩]⟩ = .ok _ :=
    Block.elements_encodeAll hvalid
  have hplain : crypto.aesDecrypt aesKey encryptedPayload iv = some payload :=
    hlaw.aesDecrypt_aesEncrypt hpayload
  constructor
  · have hkey := hpair.rsaDecrypt_rsaEncrypt haesKey
    simp only [decryptDataContent, Block.get, helements, bind, Except.bind]
    show (orThrow (crypto.rsaDecrypt privateKey encryptedAesKey)).bind
      (fun aesKey => orThrow (crypto.aesDecrypt aesKey encryptedPayload iv)) = _
    rw [hkey]
    exact congrArg orThrow hplain
  · have hkey := hpair.tpmDecrypt_rsaEncrypt haesKey
    simp only [decryptDataContentTpm, Block.get, helements, hcert, bind, Except.bind]
    show (orThrow (crypto.tpmDecrypt encryptedAesKey keyName)).bind
      (fun aesKey => orThrow (crypto.aesDecrypt aesKey encryptedPayload iv)) = _
    rw [hkey]
    exact congrArg orThrow hplain

/-- The TPM opens under a key name nothing but what was encrypted with the public key. -/
structure Crypto.OpensOnly (crypto : Crypto) (publicKey : Bytes) (keyName : Name) : Prop where
  eq_of_tpmDecrypt : ∀ {publicKey' payload seed cipherText opened},
    crypto.rsaEncrypt publicKey' payload seed = some cipherText →
    crypto.tpmDecrypt cipherText keyName = some opened →
    publicKey' = publicKey ∧ opened = payload

/-- **What the TPM gets out of a block** that was encrypted with any public key: the key is its
own, and the payload is what was encrypted. -/
theorem payload_of_decryptDataContentTpm (hlaw : crypto.Lawful) {publicKey' opened : Bytes}
    (honly : crypto.OpensOnly publicKey keyName)
    (hcert : extractKeyNameFromCertName certName = .ok keyName)
    (h : encryptDataContentWithCK crypto payload publicKey' seed = .ok block)
    (hsize : block.value.length < 2 ^ 64)
    (hopened : decryptDataContentTpm crypto block certName = .ok opened) :
    publicKey' = publicKey ∧ opened = payload := by
  obtain ⟨aesKey, iv, encryptedPayload, encryptedAesKey, hpayload, haesKey, rfl⟩ :=
    encryptDataContentWithCK_eq_ok h
  have hvalid := Tlv.valid_of_encodeAll
    (by simp [tlvEncryptedContent, tlvEncryptedAesKey, tlvInitialVector]) hsize
  have helements : Block.elements ⟨tlvContent, Tlv.encodeAll [⟨tlvEncryptedContent,
      encryptedPayload⟩, ⟨tlvEncryptedAesKey, encryptedAesKey⟩, ⟨tlvInitialVector, iv⟩]⟩ = .ok _ :=
    Block.elements_encodeAll hvalid
  simp only [decryptDataContentTpm, Block.get, helements, hcert, bind, Except.bind] at hopened
  change (orThrow (crypto.tpmDecrypt encryptedAesKey keyName)).bind
    (fun aesKey => orThrow (crypto.aesDecrypt aesKey encryptedPayload iv)) = _ at hopened
  obtain ⟨aesKey', htpm, hplain⟩ := bind_eq_ok.mp hopened
  obtain ⟨hkey, rfl⟩ := honly.eq_of_tpmDecrypt haesKey (eq_some_of_orThrow htpm)
  have hpayload' : crypto.aesDecrypt aesKey' encryptedPayload iv = some payload :=
    hlaw.aesDecrypt_aesEncrypt hpayload
  rw [hpayload'] at hplain
  exact ⟨hkey, (Except.ok.inj hplain).symm⟩

/-! ## The consumer -/

/-- A fetcher gets the block of a sealed key out of its segments. -/
theorem Generation.Sealed.ofBuffer_eq {maxSegmentSize : ℕ} {g : Generation}
    (h : g.Sealed crypto maxSegmentSize) :
    Block.ofBuffer (NacAbe.reassemble g.dkSegments) = .ok g.dkBlock ∧
      g.dkBlock.value.length < 2 ^ 64 := by
  obtain ⟨seed, hencrypt⟩ := h.block_eq
  obtain ⟨aesKey, iv, encryptedPayload, encryptedAesKey, -, -, hblock⟩ :=
    encryptDataContentWithCK_eq_ok hencrypt
  have hsegments := h.segments_eq
  rw [hblock] at hsegments
  have hread := ofBuffer_reassemble
    (by simp [tlvEncryptedContent, tlvEncryptedAesKey, tlvInitialVector]) hsegments
  rw [hblock]
  exact ⟨hread.1, hread.2.1⟩

/-- **A consumer opens a sealed key only if it was sealed to its own public key**, and then gets
the key that was sealed. -/
theorem Generation.Sealed.prvKey_of_opened {maxSegmentSize : ℕ} {g : Generation}
    (h : g.Sealed crypto maxSegmentSize) (hlaw : crypto.Lawful)
    (honly : crypto.OpensOnly publicKey keyName)
    (hcert : extractKeyNameFromCertName certName = .ok keyName)
    (hnul : (0 : UInt8) ∉ g.prvKey.m_prv) (mem : Memory) {opened : Bytes}
    (hopened : decryptDataContentTpm crypto g.dkBlock certName = .ok opened) :
    g.cert.getPublicKey = publicKey ∧ PrivateKey.fromBuffer mem opened = .ok g.prvKey := by
  obtain ⟨seed, hencrypt⟩ := h.block_eq
  obtain ⟨hkey, rfl⟩ := payload_of_decryptDataContentTpm hlaw honly hcert hencrypt
    h.ofBuffer_eq.2 hopened
  exact ⟨hkey, PrivateKey.fromBuffer_toBuffer mem hnul⟩

/-- **A consumer that is handed a sealed key keeps exactly that key.** -/
theorem Generation.Sealed.exec_onKeyComplete {p : Platform} {maxSegmentSize : ℕ} {g : Generation}
    (h : g.Sealed p.crypto maxSegmentSize) (hlaw : p.crypto.Lawful)
    (hpair : p.crypto.KeyPair g.cert.getPublicKey privateKey g.cert.getKeyName)
    (hnul : (0 : UInt8) ∉ g.prvKey.m_prv) {c : Consumer}
    (hcert : c.m_cert.getKeyName = g.cert.getKeyName) (interestName : Name) :
    (Consumer.onKeyComplete p interestName (NacAbe.reassemble g.dkSegments)).exec c =
      (.ok (), { c with
        keyFetches := c.keyFetches.erase interestName
        m_keyCache := g.prvKey }) := by
  obtain ⟨seed, hencrypt⟩ := h.block_eq
  have hbuffer := h.ofBuffer_eq
  have hname : extractKeyNameFromCertName c.m_cert.getName = .ok g.cert.getKeyName := by
    rw [← hcert]
    exact if_pos c.m_cert.valid
  have hplain := (decryptDataContent_of_encrypted hlaw hpair hname hencrypt hbuffer.2).2
  have hkey : PrivateKey.fromBuffer p.mem g.prvKey.toBuffer = .ok g.prvKey :=
    PrivateKey.fromBuffer_toBuffer p.mem hnul
  apply Prog.exec_eq_of_wp
  simp only [Consumer.onKeyComplete, Prog.wp_bind, Prog.wp_modify, Prog.andThen_ok, Prog.wp_liftM,
    hbuffer.1, Prog.wp_get, hplain, hkey, and_self]

/-! ## The authority -/

/-- A name that the format can carry. -/
def Name.Carriable (name : Name) : Prop := (∀ c ∈ name, c.Valid) ∧ name.wireEncode.Valid

namespace AttributeAuthority

variable {Token : Type} {keyGen : KeyGen Token} {aa : AttributeAuthority Token} {cert : Certificate}

/-- **The key name in the name of a request is found again.** -/
theorem supposedKeyName_decryptionKeyName (h : keyName.Carriable) :
    aa.supposedKeyName (decryptionKeyName aa.m_cert.getIdentity keyName) = .ok keyName := by
  have hcomponent : Name.atPos (decryptionKeyName aa.m_cert.getIdentity keyName)
      (aa.m_cert.getIdentity.length + 1) =
        .ok (Component.generic keyName.wireEncode.encode) := by
    simp [decryptionKeyName, Name.atPos]
  have hblock : Block.blockFromValue (Component.generic keyName.wireEncode.encode) =
      .ok keyName.wireEncode := Block.ofBuffer_encode h.2
  simp only [supposedKeyName, hcomponent, hblock, bind, Except.bind]
  exact Name.ofBlock_wireEncode h.1

theorem isSegmentRequest_decryptionKeyName (aaPrefix keyName : Name) :
    isSegmentRequest (decryptionKeyName aaPrefix keyName) = .ok false := by
  have hlast : Name.atNeg (decryptionKeyName aaPrefix keyName) 1 =
      .ok (Component.generic keyName.wireEncode.encode) := by
    simp [decryptionKeyName, Name.atNeg, Name.atPos]
  simp only [isSegmentRequest, hlast, bind, Except.bind, Component.isSegment_generic]
  rfl

/-- A request for the key of a certificate that the local store has goes on to the reply. -/
theorem wp_onDecryptionKeyRequest_of_local {request : Interest} {now seed : ℕ}
    {Q : Except Exn Unit → AttributeAuthority Token → Prop}
    (hkey : aa.supposedKeyName request.name = .ok cert.getKeyName)
    (hsegment : isSegmentRequest request.name = .ok false)
    (htoken : (aa.m_tokens.find cert.getIdentity).isSome = true)
    (hlocal : aa.m_trustConfig.findCertificateFromLocal cert.getKeyName = some cert)
    (h : (replyDecryptionKey keyGen crypto request.name cert now seed).wp (Prog.silent _ _ _) Q
      aa) :
    (onDecryptionKeyRequest keyGen crypto request now seed).wp (Prog.silent _ _ _) Q aa := by
  simp only [onDecryptionKeyRequest, onDecryptionKeyRequestBase, Prog.wp_bind, Prog.wp_get,
    Prog.andThen_ok, Prog.wp_liftM, hkey, cert.extractIdentity_getKeyName, htoken, if_true,
    hsegment, Bool.false_eq_true, if_false, cert.isValidKeyName_getKeyName, hlocal]
  exact h

/-- **A reply that can be made is made**: the object is stored and its first segment sent. -/
theorem exec_replyDecryptionKey {requestName : Name} {now seed : ℕ} {token : Token}
    {g : Generation} (hname : g.objName = requestName ++ [Component.fromVersion now])
    (htoken : aa.m_tokens.find g.cert.getIdentity = some token)
    (hkey : keyGen aa.m_pubParams aa.m_masterKey token seed = .ok g.prvKey)
    (hblock : encryptDataContentWithCK crypto g.prvKey.toBuffer g.cert.getPublicKey seed =
      .ok g.dkBlock)
    (hsegments : segment g.dkBlock.encode g.objName aa.m_maxSegmentSize = .ok g.dkSegments) :
    ∃ first, first ∈ g.dkSegments ∧
      (replyDecryptionKey keyGen crypto requestName g.cert now seed).exec aa =
        (.ok (), (aa.store token g).record [.put first]) := by
  obtain ⟨objName, cert, prvKey, dkBlock, dkSegments⟩ := g
  dsimp only at hname htoken hkey hblock hsegments
  subst hname
  cases dkSegments with
  | nil => exact absurd rfl (segment_ne_nil hsegments)
  | cons first rest =>
    refine ⟨first, List.mem_cons_self, Prog.exec_eq_of_wp ?_⟩
    simp only [replyDecryptionKey, generateDecryptionKeySegments, getPrivateKey, putFirst, put,
      Prog.wp_bind, Prog.wp_get, Prog.andThen_ok, Prog.wp_liftM, Prog.wp_modify, Prog.wp_pure,
      htoken, hkey, hblock, hsegments, record, store]
    simp

end AttributeAuthority

end NacAbe
