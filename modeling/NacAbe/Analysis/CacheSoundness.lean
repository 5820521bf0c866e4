import NacAbe.Interface.DecryptedKeys
import NacAbe.Interface.GrantedKeys

/-!
# The decryption cache and the uncached computation

`decrypt` writes an entry before the AES step, which may still fail, and reads the
entries of other parameters, private keys and schemes (abe-support.cpp:247-275).  An
entry is nevertheless never wrong: it was decrypted from a string that `contentKeyGen`
made, and OpenABE returns the enclosed key or none (`runCalls_entry`).  A cached call
therefore agrees with the uncached one wherever that one returns.
-/

set_option autoImplicit false

namespace NacAbe.Analysis

open NacAbe AbeSupport Interface

/-- A content key that `contentKeyGen` has made. -/
def MadeKey (abe : OpenAbe) (contentKey : ContentKey) : Prop :=
  ∃ context pubParams policyOrAttribute seed,
    contentKeyGen abe context pubParams policyOrAttribute seed = .ok contentKey

/-- The encrypted AES key of a cipher text comes from `contentKeyGen`. -/
def HonestKey (abe : OpenAbe) (cipherText : CipherText) : Prop :=
  ∃ contentKey, MadeKey abe contentKey ∧
    cipherText.m_contentKey.m_encAesKey = contentKey.m_encAesKey

/-- So does that of every call of a history. -/
def HonestHistory (abe : OpenAbe) (history : List Call) : Prop :=
  ∀ context pubParams prvKey cipherText,
    .decrypt context pubParams prvKey cipherText ∈ history → HonestKey abe cipherText

variable {abe : OpenAbe} {mem : Memory} {history : List Call} {context : Scheme}
  {pubParams : PublicParams} {prvKey : PrivateKey} {cipherText : CipherText}
  {contentKey : ContentKey} {e key : Bytes}

/-- The string read off the buffer of a made key is the one OpenABE returned for it. -/
theorem encrypt_of_madeKey (hlaw : abe.Lawful) (hfit : abe.KeysFit)
    (h : MadeKey abe contentKey) (he : stringFrom mem contentKey.m_encAesKey = .ok e) :
    ∃ scheme pub policyOrAttribute seed, abe.encrypt scheme pub policyOrAttribute
      contentKey.m_aesKey seed = some e := by
  obtain ⟨context, pubParams, policyOrAttribute, seed, h⟩ := h
  obtain ⟨encrypted, hencrypt, hbuffer⟩ := encrypted_of_contentKeyGen h
  rw [hbuffer, stringFrom_cStrBuffer mem (hlaw.encrypt_no_nul hencrypt) (hfit hencrypt)] at he
  cases he
  exact ⟨context, pubParams.m_pub, policyOrAttribute, seed, hencrypt⟩

/-- What OpenABE decrypts from the string of a made key is that key. -/
theorem aesKey_of_decryptKey (hlaw : abe.Lawful) (hfit : abe.KeysFit)
    (h : MadeKey abe contentKey) (he : stringFrom mem contentKey.m_encAesKey = .ok e)
    (hkey : decryptKey abe context pubParams prvKey e = .ok key) : key = contentKey.m_aesKey :=
  eq_of_decryptKey hlaw (encrypt_of_madeKey hlaw hfit h he) hkey

/-- A granted key was decrypted by a call of the history. -/
theorem call_of_granted (h : grantedKey abe mem history e = some key) :
    ∃ context pubParams prvKey cipherText,
      .decrypt context pubParams prvKey cipherText ∈ history ∧
      encryptedKey mem cipherText = .ok e ∧
      decryptKey abe context pubParams prvKey e = .ok key := by
  obtain ⟨call, hcall, haccepted⟩ := List.exists_of_findSome?_eq_some h
  have hmem : call ∈ history :=
    List.mem_reverse.mp ((List.takeWhile_sublist _).subset (List.mem_reverse.mp hcall))
  cases call with
  | clearCachedContentKeys => cases haccepted
  | decrypt context pubParams prvKey cipherText =>
    rw [acceptedKey] at haccepted
    split at haccepted
    · next heq =>
      refine ⟨context, pubParams, prvKey, cipherText, hmem, heq, ?_⟩
      cases hd : decryptKey abe context pubParams prvKey e with
      | error err =>
        rw [hd] at haccepted
        cases haccepted
      | ok key' =>
        rw [hd] at haccepted
        exact congrArg Except.ok (Option.some.inj haccepted)
    · cases haccepted

/-- **Every entry is right**: its string is that of a made key, and its key is the one of
every made key with that string. -/
theorem runCalls_entry (hlaw : abe.Lawful) (hfit : abe.KeysFit)
    (hhonest : HonestHistory abe history)
    (h : (runCalls abe mem history).m_decryptedContentKeyMap.find e = some key) :
    (∃ contentKey, MadeKey abe contentKey ∧ stringFrom mem contentKey.m_encAesKey = .ok e) ∧
      ∀ contentKey, MadeKey abe contentKey → stringFrom mem contentKey.m_encAesKey = .ok e →
        contentKey.m_aesKey = key := by
  rw [runCalls_find] at h
  obtain ⟨context, pubParams, prvKey, cipherText, hcall, henc, hkey⟩ := call_of_granted h
  obtain ⟨contentKey, hmade, hsame⟩ := hhonest context pubParams prvKey cipherText hcall
  refine ⟨⟨contentKey, hmade, by rw [← hsame]; exact henc⟩, ?_⟩
  intro other hother he
  exact (aesKey_of_decryptKey hlaw hfit hother he hkey).symm

/-- A call whose ABE decryption fails leaves the map as it is, whatever it finds in it. -/
theorem next_of_decryptKey_error {err : Exn} {st : AbeSupport}
    (h : (encryptedKey mem cipherText >>= decryptKey abe context pubParams prvKey) =
      .error err) :
    Call.next abe mem st (.decrypt context pubParams prvKey cipherText) = st := by
  rw [Call.next]
  cases he : encryptedKey mem cipherText with
  | error x => rw [decrypt_of_no_key he]
  | ok e =>
    rw [he, ok_bind] at h
    rw [decrypt_encryptedKey he, h]
    split <;> rfl

/-- The result of `decrypt` with nothing cached. -/
def uncached (abe : OpenAbe) (mem : Memory) (context : Scheme) (pubParams : PublicParams)
    (prvKey : PrivateKey) (cipherText : CipherText) : Except Exn Bytes :=
  ((decrypt abe mem context pubParams prvKey cipherText).run.run initial).1

/-- An uncached call that returns has decrypted the key and then the content. -/
theorem decryptKey_of_uncached {plaintext : Bytes}
    (h : uncached abe mem context pubParams prvKey cipherText = .ok plaintext) :
    ∃ e key, encryptedKey mem cipherText = .ok e ∧
      decryptKey abe context pubParams prvKey e = .ok key ∧
      decryptContent abe mem key cipherText.m_content = .ok plaintext := by
  rw [uncached] at h
  cases he : encryptedKey mem cipherText with
  | error x =>
    rw [decrypt_of_no_key he] at h
    cases h
  | ok e =>
    rw [decrypt_encryptedKey he, initial, PartialMap.find_empty] at h
    cases hd : decryptKey abe context pubParams prvKey e with
    | error err =>
      rw [hd] at h
      cases h
    | ok key =>
      rw [hd] at h
      exact ⟨e, key, rfl, hd, h⟩

/-- **The decryption cache never changes a correct result.**  For every history of calls on
keys that `contentKeyGen` made: every entry holds the key that is enclosed in its string,
a call whose ABE decryption fails adds none, and a call that returns with nothing cached
returns the same after the history. -/
theorem decryptionCache_correct (abe : OpenAbe) (mem : Memory) (history : List Call)
    (hlaw : abe.Lawful) (hfit : abe.KeysFit) (hhonest : HonestHistory abe history) :
    (∀ e key, (runCalls abe mem history).m_decryptedContentKeyMap.find e = some key →
      (∃ contentKey, MadeKey abe contentKey ∧ stringFrom mem contentKey.m_encAesKey = .ok e) ∧
        ∀ contentKey, MadeKey abe contentKey → stringFrom mem contentKey.m_encAesKey = .ok e →
          contentKey.m_aesKey = key) ∧
    ∀ context pubParams prvKey cipherText, HonestKey abe cipherText →
      (∀ err, (encryptedKey mem cipherText >>= decryptKey abe context pubParams prvKey) =
          .error err →
        runCalls abe mem (history ++ [.decrypt context pubParams prvKey cipherText]) =
          runCalls abe mem history) ∧
      ∀ plaintext, uncached abe mem context pubParams prvKey cipherText = .ok plaintext →
        ((decrypt abe mem context pubParams prvKey cipherText).run.run
          (runCalls abe mem history)).1 = .ok plaintext := by
  refine ⟨fun e key hfind => runCalls_entry hlaw hfit hhonest hfind, ?_⟩
  intro context pubParams prvKey cipherText hkey
  constructor
  · intro err herr
    rw [runCalls, List.foldl_append]
    exact next_of_decryptKey_error herr
  · intro plaintext hplain
    obtain ⟨e, key, he, hdecrypt, hcontent⟩ := decryptKey_of_uncached hplain
    rw [decrypt_encryptedKey he]
    cases hfind : (runCalls abe mem history).m_decryptedContentKeyMap.find e with
    | none =>
      rw [hdecrypt]
      exact hcontent
    | some cached =>
      obtain ⟨contentKey, hmade, hsame⟩ := hkey
      have hstring : stringFrom mem contentKey.m_encAesKey = .ok e := by
        rw [← hsame]
        exact he
      have hcached := (runCalls_entry hlaw hfit hhonest hfind).2 contentKey hmade hstring
      rw [← hcached, ← aesKey_of_decryptKey hlaw hfit hmade hstring hdecrypt]
      exact hcontent

/-! ## A cached key, asked for again -/

/-- `mockAbe`, refusing to make strings that are too long. -/
def boundedAbe : OpenAbe :=
  { mockAbe with
    encrypt := fun _ _ policyOrAttribute plain _ =>
      let cipher := MockAbe.enclose policyOrAttribute plain
      if cipher.length + 1 < 2 ^ 32 then some cipher else none }

theorem boundedAbe_keysFit : boundedAbe.KeysFit := by
  intro scheme pub policyOrAttribute key seed cipher h
  simp only [boundedAbe] at h
  split at h
  · next hlt =>
    cases h
    exact hlt
  · cases h

theorem encrypt_boundedAbe {scheme : Scheme} {pub policyOrAttribute key cipher : Bytes}
    {seed : ℕ} (h : boundedAbe.encrypt scheme pub policyOrAttribute key seed = some cipher) :
    mockAbe.encrypt scheme pub policyOrAttribute key seed = some cipher := by
  simp only [boundedAbe] at h
  split at h
  · exact h
  · cases h

/-- It is an ABE scheme. -/
theorem boundedAbe_lawful : boundedAbe.Lawful where
  decrypt_encrypt := by
    intro scheme pub policyOrAttribute key seed cipher h scheme' pub' prv key' hdecrypt
    have hmock : mockAbe.decrypt scheme' pub' prv cipher = some (some key') := hdecrypt
    exact mockAbe_lawful.decrypt_encrypt (encrypt_boundedAbe h) hmock
  encrypt_no_nul h := mockAbe_lawful.encrypt_no_nul (encrypt_boundedAbe h)
  symDecrypt_symEncrypt := by
    rintro key plain seed _ ⟨⟩
    exact MockAbe.disclose_enclose_self key plain
  symEncrypt_no_nul := by
    rintro key plain seed _ ⟨⟩
    exact MockAbe.nul_notMem_enclose _ _

/-- A cipher text under `ucla` of the content key `[7]`, with the content `hi`. -/
def cachedExample : CipherText :=
  ⟨⟨[], MockAbe.enclose (ascii "ucla") [7] ++ [0]⟩, MockAbe.enclose [7] (ascii "hi") ++ [0], 2⟩

theorem honestKey_cachedExample : HonestKey boundedAbe cachedExample :=
  ⟨⟨[7], MockAbe.enclose (ascii "ucla") [7] ++ [0]⟩,
    ⟨.cpAbe, ⟨[1]⟩, ascii "ucla", 7, by decide⟩, rfl⟩

/-- After a call that decrypted it and one that OpenABE refuses, it is decrypted the
same. -/
theorem decryptionCache_correct_example :
    ((decrypt boundedAbe ⟨fun _ => []⟩ .cpAbe ⟨[1]⟩ ⟨ascii "ucla"⟩ cachedExample).run.run
      (runCalls boundedAbe ⟨fun _ => []⟩
        [.decrypt .cpAbe ⟨[1]⟩ ⟨ascii "ucla"⟩ cachedExample,
          .decrypt .cpAbe ⟨[1]⟩ ⟨ascii "mit"⟩ cachedExample])).1 = .ok (ascii "hi") := by
  have hhonest : HonestHistory boundedAbe
      [.decrypt .cpAbe ⟨[1]⟩ ⟨ascii "ucla"⟩ cachedExample,
        .decrypt .cpAbe ⟨[1]⟩ ⟨ascii "mit"⟩ cachedExample] := by
    intro context pubParams prvKey cipherText hcall
    simp only [List.mem_cons, Call.decrypt.injEq, List.not_mem_nil, or_false] at hcall
    rcases hcall with ⟨-, -, -, rfl⟩ | ⟨-, -, -, rfl⟩
    · exact honestKey_cachedExample
    · exact honestKey_cachedExample
  exact ((decryptionCache_correct boundedAbe ⟨fun _ => []⟩ _ boundedAbe_lawful
    boundedAbe_keysFit hhonest).2 .cpAbe ⟨[1]⟩ ⟨ascii "ucla"⟩ cachedExample
    honestKey_cachedExample).2 (ascii "hi") (by decide)

end NacAbe.Analysis
