import NacAbe.Interface.GrantedKeys

/-!
# Who the decryption cache lets in

A call of `cpDecrypt` or `kpDecrypt` whose encrypted key is in
`m_decryptedContentKeyMap` skips importing the parameters and the private key
(abe-support.cpp:247-252), so what it is given depends on the earlier calls of the
process and not on the private key it was called with.  The README has it that a
content key "can only be decrypted when the attributes (DKEY) can satisfy the
EKEY"; `decrypt_grants_iff` says in which histories that holds of a call.
-/

set_option autoImplicit false

namespace NacAbe.Analysis

open NacAbe AbeSupport Interface

/-- A call returns a plaintext: the result of `decrypt` in the state a history left. -/
def Returns (abe : OpenAbe) (mem : Memory) (history : List Call) (context : Scheme)
    (pubParams : PublicParams) (prvKey : PrivateKey) (cipherText : CipherText)
    (plaintext : Bytes) : Prop :=
  ((decrypt abe mem context pubParams prvKey cipherText).run.run
    (runCalls abe mem history)).1 = .ok plaintext

/-- The uncached path succeeds: there is an encrypted key, and OpenABE takes the parameters and
the private key and decrypts it with them. -/
def Satisfies (abe : OpenAbe) (mem : Memory) (context : Scheme) (pubParams : PublicParams)
    (prvKey : PrivateKey) (cipherText : CipherText) : Prop :=
  ∃ e key, encryptedKey mem cipherText = .ok e ∧
    decryptKey abe context pubParams prvKey e = .ok key

variable {abe : OpenAbe} {mem : Memory} {history : List Call} {context : Scheme}
  {pubParams : PublicParams} {prvKey : PrivateKey} {cipherText : CipherText} {e : Bytes}

/-- A call that returns has found a string in the buffer of the encrypted key. -/
theorem encryptedKey_of_returns {plaintext : Bytes}
    (h : Returns abe mem history context pubParams prvKey cipherText plaintext) :
    ∃ e, encryptedKey mem cipherText = .ok e := by
  cases he : encryptedKey mem cipherText with
  | ok e => exact ⟨e, rfl⟩
  | error x =>
    rw [Returns, decrypt_of_no_key he] at h
    cases h

/-- With the key granted, a call returns what the AES step returns. -/
theorem returns_of_granted {key : Bytes} (he : encryptedKey mem cipherText = .ok e)
    (h : grantedKey abe mem history e = some key) (plaintext : Bytes) :
    Returns abe mem history context pubParams prvKey cipherText plaintext ↔
      decryptContent abe mem key cipherText.m_content = .ok plaintext := by
  rw [← runCalls_find] at h
  rw [Returns, decrypt_encryptedKey he, h]

/-- Without it, a call that returns has satisfied OpenABE. -/
theorem satisfies_of_returns {plaintext : Bytes} (he : encryptedKey mem cipherText = .ok e)
    (h : grantedKey abe mem history e = none)
    (hr : Returns abe mem history context pubParams prvKey cipherText plaintext) :
    Satisfies abe mem context pubParams prvKey cipherText := by
  rw [← runCalls_find] at h
  rw [Returns, decrypt_encryptedKey he, h] at hr
  cases hd : decryptKey abe context pubParams prvKey e with
  | ok key => exact ⟨e, key, he, hd⟩
  | error x =>
    rw [hd] at hr
    cases hr

/-- The AES step under a key fails: the content gives no string, or one that AES refuses. -/
def AesFails (abe : OpenAbe) (mem : Memory) (key m_content : Bytes) : Prop :=
  ∀ s, stringFrom mem m_content = .ok s → abe.symDecrypt key s = none

/-- The AES step gives a plaintext unless it fails. -/
theorem decryptContent_returns_iff (key m_content : Bytes) :
    (∃ plaintext, decryptContent abe mem key m_content = .ok plaintext) ↔
      ¬ AesFails abe mem key m_content := by
  unfold decryptContent AesFails
  cases stringFrom mem m_content with
  | error x => exact iff_of_false (fun ⟨_, h⟩ => nomatch h) (not_not.mpr nofun)
  | ok s =>
    rw [ok_bind]
    cases hplain : abe.symDecrypt key s with
    | none => simp [hplain]
    | some recoveredContent => simp [hplain]

/-- **A call is as good as the uncached path exactly when** OpenABE accepts its own
parameters and private key, or its encrypted key has not been granted since the last
clear, or the AES step fails under the granted key. -/
theorem decrypt_grants_iff (abe : OpenAbe) (mem : Memory) (history : List Call)
    (context : Scheme) (pubParams : PublicParams) (prvKey : PrivateKey)
    (cipherText : CipherText) :
    ((∃ plaintext, Returns abe mem history context pubParams prvKey cipherText plaintext) →
        Satisfies abe mem context pubParams prvKey cipherText) ↔
      (Satisfies abe mem context pubParams prvKey cipherText ∨
        ∀ e key, encryptedKey mem cipherText = .ok e →
          grantedKey abe mem history e = some key → AesFails abe mem key cipherText.m_content) := by
  constructor
  · intro h
    by_cases hs : Satisfies abe mem context pubParams prvKey cipherText
    · exact Or.inl hs
    · refine Or.inr fun e key he hkey => ?_
      by_contra hne
      obtain ⟨plaintext, hp⟩ := (decryptContent_returns_iff key cipherText.m_content).mpr hne
      exact hs (h ⟨plaintext, (returns_of_granted he hkey plaintext).mpr hp⟩)
  · rintro h ⟨plaintext, hr⟩
    rcases h with hs | hgrant
    · exact hs
    · obtain ⟨e, he⟩ := encryptedKey_of_returns hr
      cases hk : grantedKey abe mem history e with
      | none => exact satisfies_of_returns he hk hr
      | some key =>
        have hp := (returns_of_granted he hk plaintext).mp hr
        exact absurd (hgrant e key he hk) ((decryptContent_returns_iff key _).mp ⟨plaintext, hp⟩)

/-- Two consumers of one process, one ciphertext: a key whose attributes are
`"ucla"` decrypts it, and the key `"mit"`, which OpenABE refuses, then does too. -/
theorem decrypt_grants_refused_key :
    ¬ ∀ (abe : OpenAbe) (mem : Memory) (history : List Call) (context : Scheme)
        (pubParams : PublicParams) (prvKey : PrivateKey) (cipherText : CipherText),
        (∃ plaintext, Returns abe mem history context pubParams prvKey cipherText plaintext) →
          Satisfies abe mem context pubParams prvKey cipherText := by
  intro h
  let cipherText : CipherText :=
    ⟨⟨[], MockAbe.enclose (ascii "ucla") [7] ++ [0]⟩, MockAbe.enclose [7] [104, 105] ++ [0], 2⟩
  obtain ⟨e, key, he, hkey⟩ := h mockAbe ⟨fun _ => []⟩
    [.decrypt .cpAbe ⟨[1]⟩ ⟨ascii "ucla"⟩ cipherText] .cpAbe ⟨[1]⟩ ⟨ascii "mit"⟩ cipherText
    ⟨[104, 105], rfl⟩
  obtain rfl : MockAbe.enclose (ascii "ucla") [7] = e := Except.ok.inj he
  have hrefused : decryptKey mockAbe .cpAbe ⟨[1]⟩ ⟨ascii "mit"⟩
      (MockAbe.enclose (ascii "ucla") [7]) = .error (.nacAlgoError "Decryption error!") := rfl
  rw [hrefused] at hkey
  cases hkey

end NacAbe.Analysis
