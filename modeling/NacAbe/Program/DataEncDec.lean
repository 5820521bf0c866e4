import NacAbe.Model.Crypto

/-!
# Hybrid encryption of a payload, data-enc-dec.cpp

A payload is encrypted under a fresh AES key and the AES key under an RSA public
key; both and the initial vector travel in one content block.
-/

set_option autoImplicit false

namespace NacAbe

/-- `encryptDataContentWithCK(payload, rsaKey)`. -/
def encryptDataContentWithCK (crypto : Crypto) (payload rsaKey : Bytes) (seed : ℕ) :
    Except Exn Block := do
  let aesKey := crypto.generateKey seed
  let iv := crypto.generateIV seed
  let encryptedPayload ← orThrow (crypto.aesEncrypt aesKey payload iv)
  let encryptedAesKey ← orThrow (crypto.rsaEncrypt rsaKey aesKey seed)
  return ((Block.pushBack ⟨tlvContent, []⟩ ⟨tlvEncryptedContent, encryptedPayload⟩).pushBack
    ⟨tlvEncryptedAesKey, encryptedAesKey⟩).pushBack ⟨tlvInitialVector, iv⟩

/-- `decryptDataContent(dataBlock, key)`. -/
def decryptDataContent (crypto : Crypto) (dataBlock : Block) (key : Bytes) : Except Exn Bytes := do
  let iv := (← dataBlock.get tlvInitialVector).value
  let encryptedAesKey := (← dataBlock.get tlvEncryptedAesKey).value
  let encryptedPayload := (← dataBlock.get tlvEncryptedContent).value
  let aesKey ← orThrow (crypto.rsaDecrypt key encryptedAesKey)
  orThrow (crypto.aesDecrypt aesKey encryptedPayload iv)

/-- `decryptDataContent(dataBlock, tpm, certName)`. -/
def decryptDataContentTpm (crypto : Crypto) (dataBlock : Block) (certName : Name) :
    Except Exn Bytes := do
  let iv := (← dataBlock.get tlvInitialVector).value
  let encryptedAesKey := (← dataBlock.get tlvEncryptedAesKey).value
  let encryptedPayload := (← dataBlock.get tlvEncryptedContent).value
  let aesKey ← orThrow (crypto.tpmDecrypt encryptedAesKey (← extractKeyNameFromCertName certName))
  orThrow (crypto.aesDecrypt aesKey encryptedPayload iv)

end NacAbe
