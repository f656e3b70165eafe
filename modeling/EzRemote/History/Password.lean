import EzRemote.History.Base64
import EzRemote.Download.History

/-!
# Saved passwords

`CONFIG::Encrypt` and `CONFIG::Decrypt` over AES and Base64, and what a load
makes of the password that a save wrote.
-/

namespace EzRemote.History

open Download

/-- `openssl_encrypt` and `openssl_decrypt` with the key of `config.cpp`, on
buffers that are large enough; `none` is the result 0. -/
structure Aes where
  encrypt : Bytes → Option Bytes
  decrypt : Bytes → Option Bytes

/-- AES in CBC mode: decryption inverts encryption, a padded text is a positive
number of blocks, and no text at all is not padded. -/
structure Aes.Lawful (aes : Aes) : Prop where
  inverts : ∀ text, text ≠ [] → ∃ t, aes.encrypt text = some t ∧ aes.decrypt t = some text
  blocks : ∀ text t, aes.encrypt text = some t → t.length % 16 = 0 ∧ t ≠ []
  rejects : aes.decrypt [] = none

namespace Aes

variable (aes : Aes) (outside : Nat → UInt8)

/-- `CONFIG::Encrypt`; the inner `none` is the result 0. -/
def configEncrypt (text : Bytes) : Option (Option Bytes) :=
  match aes.encrypt text with
  | none => some none
  | some tmpEncryptText => (Base64.encode tmpEncryptText).map some

/-- `CONFIG::Decrypt`; the inner `none` is the result 0. -/
def configDecrypt (text : Bytes) : Option (Option Bytes) :=
  (Base64.decode outside text).map fun decoded => decoded.bind aes.decrypt

/-- The two functions as a save and a load use them; `saved_defined` shows that
neither call of a round trip is undefined. -/
def cipher : Cipher :=
  ⟨fun text => (aes.configEncrypt text).join, fun text => (aes.configDecrypt outside text).join⟩

variable {aes outside}

theorem configEncrypt_eq (h : aes.Lawful) {password : Bytes} (hne : password ≠ []) :
    ∃ t, aes.configEncrypt password = some (some (Base64.encodeLoop t)) ∧
      aes.decrypt t = some password := by
  obtain ⟨t, he, hd⟩ := h.inverts password hne
  obtain ⟨hmod, hnil⟩ := h.blocks password t he
  have hpos : 0 < t.length := List.length_pos_iff.mpr hnil
  refine ⟨t, ?_, hd⟩
  unfold configEncrypt Base64.encode
  rw [he]
  dsimp only
  rw [if_neg (by omega), Option.map_some]

theorem configDecrypt_encodeLoop (ho : ∀ k, outside k ≠ Base64.padding) (t : Bytes) :
    aes.configDecrypt outside (Base64.encodeLoop t) = some (aes.decrypt t) := by
  rw [configDecrypt, Base64.decode_encodeLoop ho, Option.map_some, Option.bind_some]

/-- The text of a saved password is that of some ciphertext, empty for the empty
password. -/
theorem savedPassword_eq (h : aes.Lawful) (password : Bytes) :
    ∃ t, savedPassword (aes.cipher outside) password = Base64.encodeLoop t ∧
      aes.decrypt t = if password = [] then none else some password := by
  unfold savedPassword
  by_cases hne : password = []
  · refine ⟨[], ?_, ?_⟩
    · rw [if_pos hne]
      rfl
    · rw [if_pos hne, h.rejects]
  · obtain ⟨t, he, hd⟩ := configEncrypt_eq h hne
    refine ⟨t, ?_, ?_⟩
    · rw [if_neg hne]
      show ((aes.configEncrypt password).join).getD [] = _
      rw [he]
      rfl
    · rw [if_neg hne, hd]

theorem saved_defined (h : aes.Lawful) (ho : ∀ k, outside k ≠ Base64.padding) (password : Bytes) :
    (password ≠ [] → (aes.configEncrypt password).isSome) ∧
      (aes.configDecrypt outside (savedPassword (aes.cipher outside) password)).isSome := by
  constructor
  · intro hne
    obtain ⟨t, he, -⟩ := configEncrypt_eq h hne
    rw [he]
    rfl
  · have hsaved : ∃ t, savedPassword (aes.cipher outside) password = Base64.encodeLoop t ∧ _ :=
      savedPassword_eq h password
    obtain ⟨t, hs, -⟩ := hsaved
    rw [hs, configDecrypt_encodeLoop ho]
    rfl

/-- A load restores every password, the empty one through the fallback that
keeps the stored text. -/
theorem restored_password (h : aes.Lawful) (ho : ∀ k, outside k ≠ Base64.padding)
    (password : Bytes) :
    let text := cStr (savedPassword (aes.cipher outside) password)
    ((aes.cipher outside).decrypt text).getD text = password := by
  have hsaved : ∃ t, savedPassword (aes.cipher outside) password = Base64.encodeLoop t ∧ _ :=
    savedPassword_eq h password
  obtain ⟨t, hs, hd⟩ := hsaved
  have htext : cStr (Base64.encodeLoop t) = Base64.encodeLoop t :=
    cStr_of_notMem (Base64.zero_notMem_encodeLoop t)
  have hdec : (aes.cipher outside).decrypt (Base64.encodeLoop t) = aes.decrypt t := by
    show (aes.configDecrypt outside (Base64.encodeLoop t)).join = _
    rw [configDecrypt_encodeLoop ho]
    rfl
  dsimp only
  rw [hs, htext, hdec, hd]
  by_cases hne : password = []
  · -- the stored text is empty too: an encoding of something decrypts
    rw [if_pos hne, Option.getD_none, hne, ← hs, hne]
    rfl
  · rw [if_neg hne, Option.getD_some]

end Aes

end EzRemote.History
