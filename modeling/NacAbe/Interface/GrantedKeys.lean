import Mathlib.Data.List.Induction
import NacAbe.Program.AbeSupport

/-!
# The decryption cache as a record of grants

What `m_decryptedContentKeyMap` is for, said without the map: an encrypted key is
*granted* by the first call since the last `clearCachedContentKeys` for which
OpenABE decrypts it, and stays granted, with the content key of that call, until
the next clear.  `runCalls_find` says the map of every history holds exactly the
granted keys.
-/

set_option autoImplicit false

namespace NacAbe.Interface

open NacAbe AbeSupport

/-- The C string a call looks up, if its buffer is one. -/
def encryptedKey (mem : Memory) (cipherText : CipherText) : Except Exn Bytes :=
  stringFrom mem cipherText.m_contentKey.m_encAesKey

/-- `decrypt_run` for a call with an encrypted key. -/
theorem decrypt_encryptedKey {abe : OpenAbe} {mem : Memory} {context : Scheme}
    {pubParams : PublicParams} {prvKey : PrivateKey} {cipherText : CipherText} {st : AbeSupport}
    {e : Bytes} (he : encryptedKey mem cipherText = .ok e) :
    (decrypt abe mem context pubParams prvKey cipherText).run.run st =
      match st.m_decryptedContentKeyMap.find e with
      | some key => (decryptContent abe mem key cipherText.m_content, st)
      | none =>
        match decryptKey abe context pubParams prvKey e with
        | .error x => (.error x, st)
        | .ok key => (decryptContent abe mem key cipherText.m_content,
            ⟨st.m_decryptedContentKeyMap.assign e key⟩) := by
  have hrun := decrypt_run abe mem context pubParams prvKey cipherText st
  rw [encryptedKey] at he
  rw [he] at hrun
  exact hrun

/-- A call without one changes nothing. -/
theorem decrypt_of_no_key {abe : OpenAbe} {mem : Memory} {context : Scheme}
    {pubParams : PublicParams} {prvKey : PrivateKey} {cipherText : CipherText} {st : AbeSupport}
    {x : Exn} (he : encryptedKey mem cipherText = .error x) :
    (decrypt abe mem context pubParams prvKey cipherText).run.run st = (.error x, st) := by
  rw [encryptedKey] at he
  rw [decrypt_run, he]

/-- The content key OpenABE gives a call for `e`, if the call is about `e`. -/
def acceptedKey (abe : OpenAbe) (mem : Memory) (e : Bytes) : Call → Option Bytes
  | .decrypt context pubParams prvKey cipherText =>
    if encryptedKey mem cipherText = .ok e then
      (decryptKey abe context pubParams prvKey e).toOption
    else none
  | .clearCachedContentKeys => none

/-- The calls after the last clear. -/
def sinceClear (history : List Call) : List Call :=
  (history.reverse.takeWhile (· ≠ .clearCachedContentKeys)).reverse

/-- The content key `e` is granted with. -/
def grantedKey (abe : OpenAbe) (mem : Memory) (history : List Call) (e : Bytes) : Option Bytes :=
  (sinceClear history).findSome? (acceptedKey abe mem e)

theorem grantedKey_clear (abe : OpenAbe) (mem : Memory) (history : List Call) (e : Bytes) :
    grantedKey abe mem (history ++ [.clearCachedContentKeys]) e = none := by
  simp [grantedKey, sinceClear]

/-- A decryption grants the key it accepts, unless one was granted before. -/
theorem grantedKey_decrypt (abe : OpenAbe) (mem : Memory) (history : List Call) (e : Bytes)
    (context : Scheme) (pubParams : PublicParams) (prvKey : PrivateKey)
    (cipherText : CipherText) :
    grantedKey abe mem (history ++ [.decrypt context pubParams prvKey cipherText]) e =
      (grantedKey abe mem history e).or
        (acceptedKey abe mem e (.decrypt context pubParams prvKey cipherText)) := by
  simp [grantedKey, sinceClear, List.findSome?_append]

/-- **The map holds the granted keys.**  Induction on the history; a call that finds
its key granted changes nothing, one that does not adds what OpenABE accepts. -/
theorem runCalls_find (abe : OpenAbe) (mem : Memory) (history : List Call) (e : Bytes) :
    (runCalls abe mem history).m_decryptedContentKeyMap.find e =
      grantedKey abe mem history e := by
  induction history using List.reverseRecOn with
  | nil => rfl
  | append_singleton history call ih =>
    rw [runCalls, List.foldl_append, ← runCalls, List.foldl_cons, List.foldl_nil]
    cases call with
    | clearCachedContentKeys =>
      rw [grantedKey_clear]
      rfl
    | decrypt context pubParams prvKey cipherText =>
      rw [grantedKey_decrypt, ← ih, Call.next, acceptedKey]
      cases hstring : encryptedKey mem cipherText with
      | error x =>
        have hne : ¬ (Except.error x : Except Exn Bytes) = .ok e := by
          rintro ⟨⟩
        rw [decrypt_of_no_key hstring, if_neg hne, Option.or_none]
      | ok e' =>
        rw [decrypt_encryptedKey hstring]
        by_cases he : e' = e
        · subst he
          rw [if_pos rfl]
          cases hf : (runCalls abe mem history).m_decryptedContentKeyMap.find e' with
          | some key => simp [hf]
          | none =>
            cases hd : decryptKey abe context pubParams prvKey e' with
            | error x => simp [hf, Except.toOption]
            | ok key => simp [Except.toOption]
        · have hne : ¬ (Except.ok e' : Except Exn Bytes) = .ok e := fun h => he (Except.ok.inj h)
          rw [if_neg hne, Option.or_none]
          have he' : e ≠ e' := fun h => he h.symm
          split
          · rfl
          · split
            · rfl
            · simp [he']

end NacAbe.Interface
