import Fula.Lib.Cbc

/-!
# What the file protocol uses of `aes-js`

The package is not part of the repository: `AesJs` is its interface as the two
packages call it, and `Lawful` what its documentation promises and the code
relies on. `ofCipher` is the package over any block cipher in place of AES; it
is lawful, so the laws are consistent and a concrete run can be made of them.
-/

namespace Fula.FileProtocol
set_option autoImplicit false

abbrev Bytes := List UInt8

/-- `new ModeOfOperation.cbc(symKey, iv)` with its two methods, and
`padding.pkcs7`. `none` is an exception. -/
structure AesJs where
  encrypt : (symKey iv plaintext : Bytes) → Option Bytes
  decrypt : (symKey iv ciphertext : Bytes) → Option Bytes
  pad : Bytes → Bytes
  strip : Bytes → Option Bytes

/-- The keys that AES takes: 128, 192 or 256 bits. -/
def LegalKey (symKey : Bytes) : Prop := symKey.length = 16 ∨ symKey.length = 24 ∨ symKey.length = 32

instance (symKey : Bytes) : Decidable (LegalKey symKey) := inferInstanceAs (Decidable (_ ∨ _ ∨ _))

theorem LegalKey.nonempty {symKey : Bytes} (legal : LegalKey symKey) : symKey.length ≠ 0 := by
  rcases legal with h | h | h <;> omega

/-- The documented behaviour of the package. -/
structure AesJs.Lawful (aes : AesJs) : Prop where
  /-- CBC encrypts whole blocks of 16 bytes, and decryption inverts it. -/
  encrypt : ∀ symKey iv plaintext : Bytes, LegalKey symKey → iv.length = 16 → 16 ∣ plaintext.length →
    ∃ ciphertext, aes.encrypt symKey iv plaintext = some ciphertext ∧
      ciphertext.length = plaintext.length ∧ aes.decrypt symKey iv ciphertext = some plaintext
  /-- PKCS#7 fills up to the next multiple of 16, with at least one byte. -/
  pad : ∀ bs, (aes.pad bs).length = bs.length + (16 - bs.length % 16)
  strip : ∀ bs, aes.strip (aes.pad bs) = some bs

theorem AesJs.Lawful.dvd_pad {aes : AesJs} (lawful : aes.Lawful) (bs : Bytes) : 16 ∣ (aes.pad bs).length := by
  rw [lawful.pad]; omega

open Lib.Cbc in
/-- The package over the block cipher `cipher symKey`. -/
def AesJs.ofCipher (cipher : Bytes → BlockCipher 16) : AesJs where
  encrypt symKey iv plaintext :=
    if LegalKey symKey ∧ iv.length = 16 ∧ 16 ∣ plaintext.length then some (Lib.Cbc.encrypt (cipher symKey) iv plaintext)
    else none
  decrypt symKey iv ciphertext :=
    if LegalKey symKey ∧ iv.length = 16 ∧ 16 ∣ ciphertext.length then some (Lib.Cbc.decrypt (cipher symKey) iv ciphertext)
    else none
  pad := Lib.Cbc.pad 16
  strip := Lib.Cbc.strip 16

open Lib.Cbc in
theorem AesJs.ofCipher_lawful (cipher : Bytes → BlockCipher 16) : (AesJs.ofCipher cipher).Lawful where
  encrypt symKey iv plaintext legal chained whole := by
    have length := encrypt_length (E := cipher symKey) chained whole
    refine ⟨_, if_pos ⟨legal, chained, whole⟩, length, ?_⟩
    simp only [ofCipher]
    rw [if_pos ⟨legal, chained, by rw [length]; exact whole⟩, decrypt_encrypt chained whole]
  pad bs := pad_length 16 bs
  strip bs := strip_pad (by decide) (by decide) bs

end Fula.FileProtocol
