import NacAbe.Model.Name
import NacAbe.Model.OpenAbe

/-!
# AES and RSA

The transforms behind src/ndn-crypto are the library's and stand here as
parameters, `none` where they throw.
-/

set_option autoImplicit false

namespace NacAbe

/-- The cryptographic operations of the library; those that draw randomness take a
seed.  `tpmDecrypt` decrypts with the private key that the TPM holds for a key name. -/
structure Crypto where
  generateKey : ℕ → Bytes
  generateIV : ℕ → Bytes
  aesEncrypt : (key payload iv : Bytes) → Option Bytes
  aesDecrypt : (key payload iv : Bytes) → Option Bytes
  rsaEncrypt : (key payload : Bytes) → ℕ → Option Bytes
  rsaDecrypt : (key payload : Bytes) → Option Bytes
  tpmDecrypt : (cipherText : Bytes) → (keyName : Name) → Option Bytes

/-- AES decryption undoes encryption. -/
structure Crypto.Lawful (crypto : Crypto) : Prop where
  aesDecrypt_aesEncrypt : ∀ {key payload iv cipherText},
    crypto.aesEncrypt key payload iv = some cipherText →
    crypto.aesDecrypt key cipherText iv = some payload

/-- RSA decryption with the private key undoes encryption with the public key, and the TPM
holds the private key under the key name. -/
structure Crypto.KeyPair (crypto : Crypto) (publicKey privateKey : Bytes) (keyName : Name) :
    Prop where
  rsaDecrypt_rsaEncrypt : ∀ {payload seed cipherText},
    crypto.rsaEncrypt publicKey payload seed = some cipherText →
    crypto.rsaDecrypt privateKey cipherText = some payload
  tpmDecrypt_rsaEncrypt : ∀ {payload seed cipherText},
    crypto.rsaEncrypt publicKey payload seed = some cipherText →
    crypto.tpmDecrypt cipherText keyName = some payload

/-- The exception of a transform that fails. -/
def transformError : Exn := .other "transform::Error"

def orThrow (result : Option Bytes) : Except Exn Bytes :=
  match result with
  | some bytes => .ok bytes
  | none => .error transformError

theorem eq_some_of_orThrow {result : Option Bytes} {bytes : Bytes}
    (h : orThrow result = .ok bytes) : result = some bytes := by
  cases result with
  | none => cases h
  | some b => exact congrArg some (Except.ok.inj h)

open MockAbe in
/-- An instance that can be run: a key opens what was enclosed with it, public and
private RSA keys are the same octets and the TPM holds the key `[9]` for every name. -/
def mockCrypto : Crypto where
  generateKey seed := [UInt8.ofNat seed]
  generateIV seed := [UInt8.ofNat seed]
  aesEncrypt key payload _ := some (enclose key payload)
  aesDecrypt key payload _ := disclose key payload
  rsaEncrypt key payload _ := some (enclose key payload)
  rsaDecrypt key payload := disclose key payload
  tpmDecrypt cipherText _ := disclose [9] cipherText

theorem mockCrypto_lawful : mockCrypto.Lawful where
  aesDecrypt_aesEncrypt := by
    rintro key payload iv _ ⟨⟩
    exact MockAbe.disclose_enclose_self key payload

theorem mockCrypto_keyPair (keyName : Name) : mockCrypto.KeyPair [9] [9] keyName where
  rsaDecrypt_rsaEncrypt := by
    rintro payload seed _ ⟨⟩
    exact MockAbe.disclose_enclose_self [9] payload
  tpmDecrypt_rsaEncrypt := by
    rintro payload seed _ ⟨⟩
    exact MockAbe.disclose_enclose_self [9] payload

end NacAbe
