import NacAbe.Model.Prelude

/-!
# OpenABE

The library that does the attribute-based encryption is not part of this
repository and stands here as a parameter: one partial function for each call the
source makes, `none` where the call throws `ZCryptoBoxException`.  Operations that
draw randomness take a seed.

`OpenAbe.Lawful` is what the source relies on: a decryption that succeeds returns
the enclosed key, AES decryption undoes encryption, and the strings both
encryptions return contain no terminator.
-/

set_option autoImplicit false

namespace NacAbe

/-- The two contexts `OpenABECryptoContext` is built with. -/
inductive Scheme
  | cpAbe
  | kpAbe
deriving DecidableEq, Repr

/-- The calls into OpenABE. -/
structure OpenAbe where
  /-- `exportPublicParams` and `exportSecretParams` after `generateParams`. -/
  generateParams : Scheme → ℕ → Bytes × Bytes
  importPublicParams : Scheme → Bytes → Bool
  /-- `keygen` and `exportUserKey` with public and secret parameters imported. -/
  keygen : Scheme → (pub msk policyOrAttribute : Bytes) → ℕ → Option Bytes
  /-- `importUserKey` with public parameters imported. -/
  importUserKey : Scheme → (pub prv : Bytes) → Bool
  /-- `encrypt` with public parameters imported. -/
  encrypt : Scheme → (pub policyOrAttribute plain : Bytes) → ℕ → Option Bytes
  /-- `decrypt` with public parameters and a user key imported: the plaintext when it
  returns `true`, `some none` when it returns `false`. -/
  decrypt : Scheme → (pub prv cipher : Bytes) → Option (Option Bytes)
  /-- `OpenABESymKey::generateSymmetricKey` and `toString`. -/
  generateSymmetricKey : ℕ → Bytes
  /-- `OpenABESymKeyEnc(key).encrypt(plain, plain.size())`. -/
  symEncrypt : (key plain : Bytes) → ℕ → Option Bytes
  /-- `OpenABESymKeyEnc(key).decrypt(cipher)`. -/
  symDecrypt : (key cipher : Bytes) → Option Bytes

/-- What the source relies on. -/
structure OpenAbe.Lawful (abe : OpenAbe) : Prop where
  decrypt_encrypt : ∀ {scheme pub policyOrAttribute key seed cipher},
    abe.encrypt scheme pub policyOrAttribute key seed = some cipher →
    ∀ {scheme' pub' prv key'}, abe.decrypt scheme' pub' prv cipher = some (some key') → key' = key
  encrypt_no_nul : ∀ {scheme pub policyOrAttribute key seed cipher},
    abe.encrypt scheme pub policyOrAttribute key seed = some cipher → (0 : UInt8) ∉ cipher
  symDecrypt_symEncrypt : ∀ {key plain seed cipher},
    abe.symEncrypt key plain seed = some cipher → abe.symDecrypt key cipher = some plain
  symEncrypt_no_nul : ∀ {key plain seed cipher},
    abe.symEncrypt key plain seed = some cipher → (0 : UInt8) ∉ cipher

/-- The string of an encrypted content key has, with its terminator, a length that a
`uint32_t` holds: `contentKeyGen` converts it to one. -/
def OpenAbe.KeysFit (abe : OpenAbe) : Prop :=
  ∀ {scheme pub policyOrAttribute key seed cipher},
    abe.encrypt scheme pub policyOrAttribute key seed = some cipher → cipher.length + 1 < 2 ^ 32

/-! ## An instance

`mockAbe` encloses the plaintext in clear and accepts a user key when it equals the
string the ciphertext was made for; its ciphertexts are spelled with octets from 1
to 16 and the mark 255.  It is lawful, so the laws are consistent, and it can be
run. -/

namespace MockAbe

/-- Two octets from 1 to 16 for every octet. -/
def spell : Bytes → Bytes
  | [] => []
  | b :: bs => UInt8.ofNat (b.toNat / 16 + 1) :: UInt8.ofNat (b.toNat % 16 + 1) :: spell bs

def unspell : Bytes → Bytes
  | hi :: lo :: bs => UInt8.ofNat ((hi.toNat - 1) * 16 + (lo.toNat - 1)) :: unspell bs
  | _ => []

/-- The spelling of `label`, the mark, the spelling of `plain`. -/
def enclose (label plain : Bytes) : Bytes := spell label ++ 255 :: spell plain

/-- The plaintext of a enclosure, if `label` is what it was made with. -/
def disclose (label cipher : Bytes) : Option Bytes :=
  if cipher.takeWhile (· ≠ 255) = spell label then
    some (unspell ((cipher.dropWhile (· ≠ 255)).drop 1))
  else none

/-- What is spelled can be read back. -/
theorem unspell_spell (bs : Bytes) : unspell (spell bs) = bs := by
  induction bs with
  | nil => rfl
  | cons b bs ih =>
    have hb : b.toNat < 256 := b.toNat_lt
    have hhi : (UInt8.ofNat (b.toNat / 16 + 1)).toNat = b.toNat / 16 + 1 := by
      simp; omega
    have hlo : (UInt8.ofNat (b.toNat % 16 + 1)).toNat = b.toNat % 16 + 1 := by
      simp; omega
    rw [spell, unspell, hhi, hlo, ih]
    congr 1
    rw [show (b.toNat / 16 + 1 - 1) * 16 + (b.toNat % 16 + 1 - 1) = b.toNat by omega]
    simp

/-- A spelling holds neither the terminator nor the mark. -/
theorem mem_spell {bs : Bytes} {c : UInt8} (h : c ∈ spell bs) : c ≠ 0 ∧ c ≠ 255 := by
  induction bs with
  | nil => cases h
  | cons b bs ih =>
    have hb : b.toNat < 256 := b.toNat_lt
    simp only [spell, List.mem_cons] at h
    rcases h with rfl | rfl | h
    · constructor <;> · intro h0; have := congrArg UInt8.toNat h0; simp at this; omega
    · constructor <;> · intro h0; have := congrArg UInt8.toNat h0; simp at this; omega
    · exact ih h

theorem spell_ne_mark (bs : Bytes) : ∀ c ∈ spell bs, decide (c ≠ 255) = true := by
  intro c hc
  simpa using (mem_spell hc).2

theorem takeWhile_enclose (label plain : Bytes) :
    (enclose label plain).takeWhile (· ≠ 255) = spell label := by
  rw [enclose, List.takeWhile_append_of_pos (spell_ne_mark label)]
  simp

/-- Disclosing what was enclosed gives the plaintext, and only under the same label. -/
theorem disclose_enclose {label label' plain plain' : Bytes}
    (h : disclose label' (enclose label plain) = some plain') : plain' = plain := by
  rw [disclose, takeWhile_enclose] at h
  split at h
  · rw [enclose, List.dropWhile_append_of_pos (spell_ne_mark label)] at h
    simp only [ne_eq, not_true_eq_false, decide_false, Bool.false_eq_true, not_false_eq_true,
      List.dropWhile_cons_of_neg, List.drop_succ_cons, List.drop_zero, Option.some.injEq] at h
    rw [← h, unspell_spell]
  · cases h

theorem label_of_disclose {label label' plain plain' : Bytes}
    (h : disclose label' (enclose label plain) = some plain') : label' = label := by
  rw [disclose, takeWhile_enclose] at h
  split at h
  · next hspell => rw [← unspell_spell label', ← hspell, unspell_spell]
  · cases h

theorem disclose_enclose_self (label plain : Bytes) :
    disclose label (enclose label plain) = some plain := by
  cases h : disclose label (enclose label plain) with
  | some plain' => rw [disclose_enclose h]
  | none =>
    rw [disclose, takeWhile_enclose, if_pos rfl] at h
    cases h

theorem nul_notMem_enclose (label plain : Bytes) : (0 : UInt8) ∉ enclose label plain := by
  intro h
  simp only [enclose, List.mem_append, List.mem_cons] at h
  rcases h with h | h | h
  · exact (mem_spell h).1 rfl
  · cases h
  · exact (mem_spell h).1 rfl

end MockAbe

open MockAbe in
/-- An OpenABE that can be run. -/
def mockAbe : OpenAbe where
  generateParams _ seed := ([UInt8.ofNat seed, 1], [UInt8.ofNat seed, 2])
  importPublicParams _ pub := pub ≠ []
  keygen _ _ _ policyOrAttribute _ := some policyOrAttribute
  importUserKey _ _ prv := prv ≠ []
  encrypt _ _ policyOrAttribute plain _ := some (enclose policyOrAttribute plain)
  decrypt _ _ prv cipher := some (disclose prv cipher)
  generateSymmetricKey seed := [UInt8.ofNat seed]
  symEncrypt key plain _ := some (enclose key plain)
  symDecrypt key cipher := disclose key cipher

/-- The instance that can be run is an ABE scheme. -/
theorem mockAbe_lawful : mockAbe.Lawful where
  decrypt_encrypt := by
    rintro scheme pub policyOrAttribute key seed _ ⟨⟩ scheme' pub' prv key' h
    exact MockAbe.disclose_enclose (Option.some.inj h)
  encrypt_no_nul := by
    rintro scheme pub policyOrAttribute key seed _ ⟨⟩
    exact MockAbe.nul_notMem_enclose _ _
  symDecrypt_symEncrypt := by
    rintro key plain seed _ ⟨⟩
    exact MockAbe.disclose_enclose_self key plain
  symEncrypt_no_nul := by
    rintro key plain seed _ ⟨⟩
    exact MockAbe.nul_notMem_enclose _ _

end NacAbe
