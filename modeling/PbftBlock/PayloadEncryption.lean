import PbftBlock.Library.Ciphers
import PbftBlock.Sm4

/-!
# Encrypted payloads

`Encryption` pads the payload to whole blocks and chains SM4 over it, with the key
as the initial vector too. `Decryption` takes the chaining and the padding off
again.
-/

namespace PbftBlock.PayloadEncryption

open PbftBlock.Library.Ciphers PbftBlock.Sm4

set_option autoImplicit false

inductive PayloadError where
  | text (msg : String)
  | panicked (msg : String)
deriving DecidableEq

def padding (data : List UInt8) (blockSize : Nat) : List UInt8 :=
  let padding := blockSize - data.length % blockSize
  data ++ List.replicate padding (UInt8.ofNat padding)

/-- The empty list stands for nil too, which is what bytes without proper padding
give. -/
def unpadding (data : List UInt8) : List UInt8 :=
  if data.length = 0 then []
  else
    let padding := data.getD (data.length - 1) 0
    if data.length < padding.toNat ∨ 16 < padding then []
    else if padding = 0 then []
    else if (data.drop (data.length - padding.toNat)).any (· != padding) then []
    else data.take (data.length - padding.toNat)

def cryptBlocks (chain : Nat → List UInt8 → List UInt8) (src : List UInt8) :
    Except PayloadError (List UInt8) :=
  if src.length % blockSize ≠ 0 then .error (.panicked "crypto/cipher: input not full blocks")
  else .ok (chain (src.length / blockSize) src)

def encryption (desKey data : List UInt8) : Except PayloadError (List UInt8) :=
  match newCipher desKey with
  | .error _ => .error (.text "can't get a des key")
  | .ok block =>
      cryptBlocks (fun count => chainEncrypt blockSize block.encrypt count desKey)
        (padding data blockSize)

def decryption (desKey data : List UInt8) : Except PayloadError (List UInt8) :=
  match newCipher desKey with
  | .error _ => .error (.text "can't get a des key")
  | .ok block =>
      match cryptBlocks (fun count => chainDecrypt blockSize block.decrypt count desKey) data with
      | .error err => .error err
      | .ok plain => .ok (unpadding plain)

theorem padding_length (data : List UInt8) : (padding data blockSize).length % blockSize = 0 := by
  rw [padding, List.length_append, List.length_replicate]
  change (data.length + (16 - data.length % 16)) % 16 = 0
  omega

theorem unpadding_append (data : List UInt8) {count : Nat} (positive : 0 < count)
    (fits : count ≤ 16) : unpadding (data ++ List.replicate count (UInt8.ofNat count)) = data := by
  have value : (UInt8.ofNat count).toNat = count := by
    rw [UInt8.toNat_ofNat']
    omega
  have length : (data ++ List.replicate count (UInt8.ofNat count)).length = data.length + count := by
    rw [List.length_append, List.length_replicate]
  have last : (data ++ List.replicate count (UInt8.ofNat count)).getD (data.length + count - 1) 0 =
      UInt8.ofNat count := by
    rw [List.getD_append_right _ _ _ _ (by omega)]
    apply List.getD_replicate
    omega
  have small : ¬(data.length + count < count ∨ 16 < UInt8.ofNat count) := by
    rw [UInt8.lt_iff_toNat_lt, value]
    change ¬(data.length + count < count ∨ 16 < count)
    omega
  have nonzero : UInt8.ofNat count ≠ 0 := by
    intro zero
    rw [zero] at value
    have none : 0 = count := value
    omega
  have same : (List.replicate count (UInt8.ofNat count)).any (· != UInt8.ofNat count) = false := by
    simp
  simp only [unpadding, length, last]
  rw [if_neg (by omega), value, if_neg small, if_neg nonzero, Nat.add_sub_cancel, List.drop_left,
    same, List.take_left]
  rfl

theorem unpadding_padding (data : List UInt8) : unpadding (padding data blockSize) = data := by
  have size : data.length % blockSize < 16 := Nat.mod_lt _ (by decide)
  apply unpadding_append
  · change 0 < 16 - data.length % blockSize
    omega
  · exact Nat.sub_le _ _

theorem decrypt_encrypt (c : Sm4Cipher) (block : List UInt8) (whole : block.length = blockSize) :
    c.decrypt (c.encrypt block) = block :=
  crypt_block_inverts c.whole whole

theorem new_cipher_of_block (key : Block) :
    newCipher key.1 = .ok ⟨generateSubKeys key.1, generate_sub_keys_length key.1⟩ := by
  rw [newCipher, if_neg (not_not_intro key.2)]

/-- Decryption gives the payload back, and so does the cipher a block. -/
theorem decryption_encryption (key : Block) (data : List UInt8) :
    (∃ bytes, encryption key.1 data = .ok bytes ∧ decryption key.1 bytes = .ok data) ∧
      ∀ block : Block, decryptBlock key.1 (encryptBlock key.1 block.1) = block.1 := by
  let c : Sm4Cipher := ⟨generateSubKeys key.1, generate_sub_keys_length key.1⟩
  let count := (padding data blockSize).length / blockSize
  have full : (padding data blockSize).length = count * blockSize :=
    (Nat.div_mul_cancel (Nat.dvd_of_mod_eq_zero (padding_length data))).symm
  have encryptWhole : ∀ block, (c.encrypt block).length = blockSize :=
    fun block => crypt_block_length _ block false
  let bytes := chainEncrypt blockSize c.encrypt count key.1 (padding data blockSize)
  have length : bytes.length = count * blockSize :=
    chain_encrypt_length encryptWhole count key.1 (padding data blockSize)
  have plain : chainDecrypt blockSize c.decrypt count key.1 bytes = padding data blockSize :=
    chain_decrypt_encrypt encryptWhole (decrypt_encrypt c) count key.2 full
  refine ⟨⟨bytes, ?_, ?_⟩, fun block => crypt_block_inverts c.whole block.2⟩
  · rw [encryption, new_cipher_of_block]
    exact if_neg (not_not_intro (padding_length data))
  · have blocks : bytes.length / blockSize = count := by
      rw [length, Nat.mul_div_cancel _ (by decide)]
    have aligned : bytes.length % blockSize = 0 := by rw [length, Nat.mul_mod_left]
    have decrypted : cryptBlocks (fun count => chainDecrypt blockSize c.decrypt count key.1) bytes =
        .ok (padding data blockSize) := by
      rw [cryptBlocks, if_neg (not_not_intro aligned), blocks, plain]
    rw [decryption, new_cipher_of_block]
    simp only
    rw [decrypted]
    simp only
    rw [unpadding_padding]

end PbftBlock.PayloadEncryption
