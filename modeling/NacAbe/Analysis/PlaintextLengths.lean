import NacAbe.Interface.DecryptedKeys
import NacAbe.Interface.ProducedPackets

/-!
# Lengths that go through 32 bits

`encrypt` casts the length of the plaintext to `uint32_t` before it hands it to AES, the length
of the cipher string before it adds the terminator, and the recorded size; `contentKeyGen` casts
the length of the encrypted key (abe-support.cpp:210-233).  Which lengths survive is said by
`Fits`; the last narrowing, of the PlainTextSize element that a consumer reads, never loses
anything, because what is written there is a `uint32_t` already.
-/

set_option autoImplicit false

namespace NacAbe

namespace AbeSupport

/-- A cipher text that one of the three ways to encrypt returns. -/
def Encrypted (abe : OpenAbe) (plaintext : Bytes) (seed : ℕ) (cipherText : CipherText) : Prop :=
  (∃ contentKey, encrypt abe contentKey plaintext seed = .ok cipherText) ∨
    (∃ pubParams policy, cpEncrypt abe pubParams policy plaintext seed = .ok cipherText) ∨
    ∃ pubParams attrList, kpEncrypt abe pubParams attrList plaintext seed = .ok cipherText

/-- Nothing of the plaintext, of its cipher string and of the size has been cut off. -/
structure Untruncated (abe : OpenAbe) (plaintext : Bytes) (seed : ℕ) (cipherText : CipherText) :
    Prop where
  content : ∃ ciphertext,
    abe.symEncrypt cipherText.m_contentKey.m_aesKey plaintext seed = some ciphertext ∧
      cipherText.m_content = ciphertext ++ [0]
  size : cipherText.m_plainTextSize = plaintext.length

/-- A consumer reads what `makeDataContent` wrote, the size among it. -/
def Recovered (cipherText : CipherText) : Prop :=
  ∀ ckName : Name, ckName.wireEncode.Valid → (∀ c ∈ ckName, c.Valid) →
    Consumer.parseContent (cipherText.makeDataContent.pushBack ckName.wireEncode) =
      .ok ({ cipherText with m_contentKey := default }, ckName)

/-- Whoever reads the encrypted key and finds the content key gets the plaintext. -/
def RoundTrips (abe : OpenAbe) (plaintext : Bytes) (cipherText : CipherText) : Prop :=
  ∀ mem context pubParams prvKey (st : AbeSupport) encrypted,
    stringFrom mem cipherText.m_contentKey.m_encAesKey = .ok encrypted →
    st.keyFor abe context pubParams prvKey encrypted = .ok cipherText.m_contentKey.m_aesKey →
    ((decrypt abe mem context pubParams prvKey cipherText).run.run st).1 = .ok plaintext

/-- The length of the plaintext is a `uint32_t`, and so is that of its cipher string with the
terminator. -/
def Fits (abe : OpenAbe) (aesKey plaintext : Bytes) (seed : ℕ) : Prop :=
  plaintext.length < 2 ^ 32 ∧
    ∀ ciphertext, abe.symEncrypt aesKey plaintext seed = some ciphertext →
      ciphertext.length + 1 < 2 ^ 32

variable {abe : OpenAbe} {plaintext : Bytes} {seed : ℕ} {cipherText : CipherText}

/-! ## What is encrypted -/

/-- What `encrypt` returns. -/
theorem encrypt_eq_ok {contentKey : ContentKey}
    (h : encrypt abe contentKey plaintext seed = .ok cipherText) :
    ∃ ciphertext, abe.symEncrypt contentKey.m_aesKey
        (plaintext.take (toUint32 plaintext.length)) seed = some ciphertext ∧
      cipherText = ⟨contentKey, cStrBuffer ciphertext, toUint32 plaintext.length⟩ := by
  unfold encrypt at h
  split at h
  · next ciphertext hcipher =>
    cases h
    exact ⟨ciphertext, hcipher, rfl⟩
  · cases h

/-- All three ways end in `encrypt`. -/
theorem Encrypted.eq_ok (h : Encrypted abe plaintext seed cipherText) :
    ∃ ciphertext, abe.symEncrypt cipherText.m_contentKey.m_aesKey
        (plaintext.take (toUint32 plaintext.length)) seed = some ciphertext ∧
      cipherText.m_content = cStrBuffer ciphertext ∧
      cipherText.m_plainTextSize = toUint32 plaintext.length := by
  obtain ⟨contentKey, hencrypt⟩ : ∃ contentKey,
      encrypt abe contentKey plaintext seed = .ok cipherText := by
    rcases h with h | ⟨pubParams, policy, h⟩ | ⟨pubParams, attrList, h⟩
    · exact h
    · obtain ⟨contentKey, -, hencrypt⟩ := bind_eq_ok.mp h
      exact ⟨contentKey, hencrypt⟩
    · obtain ⟨policy, -, hrest⟩ := bind_eq_ok.mp h
      obtain ⟨contentKey, -, hencrypt⟩ := bind_eq_ok.mp hrest
      exact ⟨contentKey, hencrypt⟩
  obtain ⟨ciphertext, hcipher, rfl⟩ := encrypt_eq_ok hencrypt
  exact ⟨ciphertext, hcipher, rfl, rfl⟩

/-- **A cipher text is whole exactly when the lengths fit.** -/
theorem untruncated_iff (h : Encrypted abe plaintext seed cipherText) :
    Untruncated abe plaintext seed cipherText ↔
      Fits abe cipherText.m_contentKey.m_aesKey plaintext seed := by
  obtain ⟨ciphertext, hcipher, hcontent, hsize⟩ := h.eq_ok
  constructor
  · rintro ⟨⟨whole, hwhole, hbuffer⟩, hplain⟩
    have hlength : plaintext.length < 2 ^ 32 := by
      have hshort : toUint32 plaintext.length < 2 ^ 32 := Nat.mod_lt _ (by decide)
      omega
    rw [toUint32_of_lt hlength, List.take_length] at hcipher
    obtain rfl : ciphertext = whole := Option.some.inj (hcipher.symm.trans hwhole)
    refine ⟨hlength, ?_⟩
    intro other hother
    obtain rfl : ciphertext = other := Option.some.inj (hcipher.symm.trans hother)
    exact (cStrBuffer_eq_iff ciphertext).mp (hcontent.symm.trans hbuffer)
  · rintro ⟨hlength, hfit⟩
    rw [toUint32_of_lt hlength, List.take_length] at hcipher
    refine ⟨⟨ciphertext, hcipher, ?_⟩, hsize.trans (toUint32_of_lt hlength)⟩
    rw [hcontent, cStrBuffer_of_lt (hfit ciphertext hcipher)]

/-- The size is written and read as a `uint32_t`. -/
theorem Encrypted.recovered (h : Encrypted abe plaintext seed cipherText) :
    Recovered cipherText := by
  obtain ⟨ciphertext, -, hcontent, hsize⟩ := h.eq_ok
  intro ckName hwire hname
  have hshort : cipherText.m_plainTextSize < 2 ^ 32 := by
    rw [hsize]
    exact Nat.mod_lt _ (by decide)
  have hvalid : ∀ e ∈ contentElements cipherText ckName, e.Valid := by
    intro e he
    simp only [contentElements, List.mem_cons, List.not_mem_nil, or_false] at he
    rcases he with rfl | rfl | rfl
    · have hlength := length_cStrBuffer_lt ciphertext
      rw [← hcontent] at hlength
      have htype : 0 < tlvEncryptedContent ∧ tlvEncryptedContent < 2 ^ 32 := by decide
      exact ⟨htype.1, htype.2, by show cipherText.m_content.length < 2 ^ 64; omega⟩
    · have hlength := Tlv.length_encodeNonNegative_le cipherText.m_plainTextSize
      have htype : 0 < tlvPlainTextSize ∧ tlvPlainTextSize < 2 ^ 32 := by decide
      exact ⟨htype.1, htype.2, lt_of_le_of_lt hlength (by decide)⟩
    · exact hwire
  rw [makeDataContent_pushBack]
  exact parseContent_contentElements hshort hvalid hname

/-! ## What is decrypted -/

/-- The AES step gives a whole plaintext back. -/
theorem Encrypted.decryptContent_eq (hlaw : abe.Lawful)
    (h : Encrypted abe plaintext seed cipherText)
    (hfit : Fits abe cipherText.m_contentKey.m_aesKey plaintext seed) (mem : Memory) :
    decryptContent abe mem cipherText.m_contentKey.m_aesKey cipherText.m_content =
      .ok plaintext := by
  obtain ⟨⟨ciphertext, hcipher, hcontent⟩, -⟩ := (untruncated_iff h).mpr hfit
  have hstring : stringFrom mem cipherText.m_content = .ok ciphertext := by
    rw [hcontent, stringFrom_terminated mem (hlaw.symEncrypt_no_nul hcipher)]
  rw [decryptContent, hstring, ok_bind, hlaw.symDecrypt_symEncrypt hcipher]
  change Except.ok (plaintext.take (toUint32 plaintext.length)) = _
  rw [toUint32_of_lt hfit.1, List.take_length]

theorem Encrypted.roundTrips (hlaw : abe.Lawful) (h : Encrypted abe plaintext seed cipherText)
    (hfit : Fits abe cipherText.m_contentKey.m_aesKey plaintext seed) :
    RoundTrips abe plaintext cipherText := by
  intro mem context pubParams prvKey st encrypted hstring hkey
  rw [decrypt_result, hstring, ok_bind, hkey]
  exact h.decryptContent_eq hlaw hfit mem

end AbeSupport

/-! ## The result -/

namespace Analysis

open AbeSupport

/-- **Nothing is truncated exactly when the lengths fit.**  A cipher text that `encrypt`,
`cpEncrypt` or `kpEncrypt` returns holds the whole cipher string of the whole plaintext and its
size, is read back by a consumer and decrypts to the plaintext if and only if the plaintext is
shorter than 2^32 and its cipher string shorter than 2^32 - 1.  The same bound decides whether a
content key holds the whole of its encrypted form; every decryption of it then finds that key. -/
theorem lengths_untruncated_iff (abe : OpenAbe) (hlaw : abe.Lawful) :
    (∀ plaintext seed cipherText, Encrypted abe plaintext seed cipherText →
      ((Untruncated abe plaintext seed cipherText ∧ Recovered cipherText ∧
          RoundTrips abe plaintext cipherText) ↔
        Fits abe cipherText.m_contentKey.m_aesKey plaintext seed)) ∧
    ∀ context pubParams policyOrAttribute seed key encrypted,
      contentKeyGen abe context pubParams policyOrAttribute seed = .ok key →
      abe.encrypt context pubParams.m_pub policyOrAttribute key.m_aesKey seed = some encrypted →
      (key.m_encAesKey = encrypted ++ [0] ↔ encrypted.length + 1 < 2 ^ 32) ∧
      (encrypted.length + 1 < 2 ^ 32 →
        ∀ mem context' pubParams' prvKey key' (st : AbeSupport), st.Sound abe →
          st.keyFor abe context' pubParams' prvKey (cString mem key.m_encAesKey) = .ok key' →
          key' = key.m_aesKey) := by
  constructor
  · intro plaintext seed cipherText h
    constructor
    · rintro ⟨hwhole, -, -⟩
      exact (untruncated_iff h).mp hwhole
    · intro hfit
      exact ⟨(untruncated_iff h).mpr hfit, h.recovered, h.roundTrips hlaw hfit⟩
  · intro context pubParams policyOrAttribute seed key encrypted hkey hencrypted
    obtain ⟨encrypted', hencrypt, hbuffer⟩ := encrypted_of_contentKeyGen hkey
    obtain rfl : encrypted = encrypted' := Option.some.inj (hencrypted.symm.trans hencrypt)
    rw [hbuffer]
    refine ⟨cStrBuffer_eq_iff encrypted, ?_⟩
    intro hfit mem context' pubParams' prvKey key' st hsound hfound
    rw [cString_cStrBuffer mem (hlaw.encrypt_no_nul hencrypt) hfit] at hfound
    exact hsound.eq_of_keyFor hlaw ⟨_, _, _, _, hencrypt⟩ hfound

/-- The cipher text of "hi" under the key `[4]`. -/
def hiCipherText : CipherText := ⟨⟨[4], []⟩, MockAbe.enclose [4] (ascii "hi") ++ [0], 2⟩

theorem lengths_untruncated_hi :
    Untruncated mockAbe (ascii "hi") 0 hiCipherText ∧ Recovered hiCipherText ∧
      RoundTrips mockAbe (ascii "hi") hiCipherText := by
  refine ((lengths_untruncated_iff mockAbe mockAbe_lawful).1 (ascii "hi") 0 hiCipherText
    (Or.inl ⟨⟨[4], []⟩, rfl⟩)).mpr ⟨by decide, ?_⟩
  intro ciphertext hcipher
  cases hcipher
  decide

/-- Of a plaintext of 2^32 octets none is encrypted, and the size recorded is 0. -/
theorem encrypt_truncates :
    ∃ cipherText, Encrypted mockAbe (List.replicate (2 ^ 32) 0) 0 cipherText ∧
      ¬ Untruncated mockAbe (List.replicate (2 ^ 32) 0) 0 cipherText := by
  have hencrypted : Encrypted mockAbe (List.replicate (2 ^ 32) 0) 0
      ⟨⟨[4], []⟩, cStrBuffer (MockAbe.enclose [4]
        ((List.replicate (2 ^ 32) 0).take (toUint32 (List.replicate (2 ^ 32) (0 : UInt8)).length))),
        toUint32 (List.replicate (2 ^ 32) (0 : UInt8)).length⟩ := Or.inl ⟨⟨[4], []⟩, rfl⟩
  refine ⟨_, hencrypted, ?_⟩
  intro h
  have hlength := ((untruncated_iff hencrypted).mp h).1
  rw [List.length_replicate] at hlength
  omega

end Analysis

end NacAbe
