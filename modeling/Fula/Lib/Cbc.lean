import Mathlib

/-!
# Cipher block chaining and padding

CBC mode over a block cipher with blocks of `n` bytes, and the padding that
fills a message up to a whole number of blocks (PKCS#7). The cipher is any
bijection on blocks; a `BlockCipher` carries the two laws that make it one.

* `decrypt_encrypt`: decryption inverts encryption on whole blocks.
* `strip_pad`: stripping inverts padding.
-/

namespace Lib.Cbc
set_option autoImplicit false

/-- A keyed permutation of the blocks of `n` bytes, with its inverse. -/
structure BlockCipher (n : Nat) where
  encipher : List UInt8 → List UInt8
  decipher : List UInt8 → List UInt8
  positive : 0 < n
  length_encipher : ∀ b, b.length = n → (encipher b).length = n
  decipher_encipher : ∀ b, b.length = n → decipher (encipher b) = b

/-- The block cipher that exchanges two blocks. -/
def BlockCipher.exchange {n : Nat} (positive : 0 < n) (p c : List UInt8) (lengthP : p.length = n)
    (lengthC : c.length = n) : BlockCipher n where
  encipher b := if b = p then c else if b = c then p else b
  decipher b := if b = p then c else if b = c then p else b
  positive := positive
  length_encipher b length := by
    split
    · exact lengthC
    · split
      · exact lengthP
      · exact length
  decipher_encipher b _ := by
    by_cases isP : b = p
    · subst isP
      by_cases same : c = b <;> simp [same]
    · by_cases isC : b = c <;> simp [isP, isC]

/-- Byte-wise exclusive or of two blocks. -/
def xor (a b : List UInt8) : List UInt8 := List.zipWith (· ^^^ ·) a b

theorem xor_length {a b : List UInt8} (same : b.length = a.length) : (xor a b).length = a.length := by
  simp [xor, same]

theorem xor_xor {a b : List UInt8} (same : b.length = a.length) : xor (xor a b) b = a := by
  induction a generalizing b with
  | nil => cases b <;> simp_all [xor]
  | cons x a ih =>
    cases b with
    | nil => simp at same
    | cons y b =>
      simp only [xor, List.zipWith_cons_cons, List.cons.injEq]
      refine ⟨?_, ih (by simpa using same)⟩
      rw [UInt8.xor_assoc, UInt8.xor_self, UInt8.xor_zero]

section
variable {n : Nat}

/-- CBC encryption: each block is combined with the ciphertext of the block
before it (`prev`, at first the initialisation vector). -/
def encrypt (E : BlockCipher n) (prev bs : List UInt8) : List UInt8 :=
  if bs = [] then [] else
    let c := E.encipher (xor (bs.take n) prev)
    c ++ encrypt E c (bs.drop n)
  termination_by bs.length
  decreasing_by
    have := E.positive
    have := List.length_pos_iff.2 ‹bs ≠ []›
    simp only [List.length_drop]; omega

/-- CBC decryption. -/
def decrypt (E : BlockCipher n) (prev bs : List UInt8) : List UInt8 :=
  if bs = [] then [] else
    let p := xor (E.decipher (bs.take n)) prev
    p ++ decrypt E (bs.take n) (bs.drop n)
  termination_by bs.length
  decreasing_by
    have := E.positive
    have := List.length_pos_iff.2 ‹bs ≠ []›
    simp only [List.length_drop]; omega

variable (E : BlockCipher n)

@[simp] theorem encrypt_nil (prev : List UInt8) : encrypt E prev [] = [] := by
  rw [encrypt, if_pos rfl]

@[simp] theorem decrypt_nil (prev : List UInt8) : decrypt E prev [] = [] := by
  rw [decrypt, if_pos rfl]

variable {E}

theorem append_ne_nil {b : List UInt8} (positive : 0 < n) (whole : b.length = n) (bs : List UInt8) :
    b ++ bs ≠ [] := by
  apply List.append_ne_nil_of_left_ne_nil
  exact List.length_pos_iff.1 (whole ▸ positive)

theorem encrypt_block {prev b bs : List UInt8} (whole : b.length = n) :
    encrypt E prev (b ++ bs) = E.encipher (xor b prev) ++ encrypt E (E.encipher (xor b prev)) bs := by
  have nonempty := append_ne_nil E.positive whole bs
  rw [encrypt, if_neg nonempty, List.take_left' whole, List.drop_left' whole]

theorem decrypt_block {prev c cs : List UInt8} (whole : c.length = n) :
    decrypt E prev (c ++ cs) = xor (E.decipher c) prev ++ decrypt E c cs := by
  have nonempty := append_ne_nil E.positive whole cs
  rw [decrypt, if_neg nonempty, List.take_left' whole, List.drop_left' whole]

/-- The rule for messages of whole blocks: what holds of the empty message and
is kept by one more block in front holds of all of them. -/
theorem blocks_induction {P : List UInt8 → Prop} (nil : P [])
    (block : ∀ b bs, b.length = n → P bs → P (b ++ bs)) {bs : List UInt8} (whole : n ∣ bs.length) : P bs := by
  obtain ⟨k, length⟩ := whole
  induction k generalizing bs with
  | zero =>
    have empty : bs = [] := List.length_eq_zero_iff.1 (by simpa using length)
    rw [empty]; exact nil
  | succ k ih =>
    have length : bs.length = n * k + n := by rw [length, Nat.mul_succ]
    have rest : (bs.drop n).length = n * k := by simp only [List.length_drop]; omega
    rw [← List.take_append_drop n bs]
    apply block
    · simp only [List.length_take]; omega
    · exact ih rest

theorem encrypt_length {prev bs : List UInt8} (chained : prev.length = n) (whole : n ∣ bs.length) :
    (encrypt E prev bs).length = bs.length := by
  refine blocks_induction (P := fun bs => ∀ prev : List UInt8, prev.length = n → (encrypt E prev bs).length = bs.length)
    ?_ ?_ whole prev chained
  · intro prev _
    rw [encrypt_nil]
  · intro b bs length ih prev chained
    have enciphered : (E.encipher (xor b prev)).length = n :=
      E.length_encipher _ ((xor_length (by rw [chained, length])).trans length)
    rw [encrypt_block length, List.length_append, ih _ enciphered, enciphered, List.length_append, length]

/-- Decryption inverts encryption on whole blocks. -/
theorem decrypt_encrypt {prev bs : List UInt8} (chained : prev.length = n) (whole : n ∣ bs.length) :
    decrypt E prev (encrypt E prev bs) = bs := by
  refine blocks_induction (P := fun bs => ∀ prev : List UInt8, prev.length = n → decrypt E prev (encrypt E prev bs) = bs)
    ?_ ?_ whole prev chained
  · intro prev _
    rw [encrypt_nil, decrypt_nil]
  · intro b bs length ih prev chained
    have same : prev.length = b.length := by rw [chained, length]
    have combined : (xor b prev).length = n := (xor_length same).trans length
    have enciphered := E.length_encipher _ combined
    rw [encrypt_block length, decrypt_block enciphered, E.decipher_encipher _ combined, xor_xor same, ih _ enciphered]

end

/-! ## Padding -/

/-- Fill up to a whole number of blocks of `n` bytes; every added byte is the
number of added bytes. -/
def pad (n : Nat) (bs : List UInt8) : List UInt8 :=
  bs ++ List.replicate (n - bs.length % n) (UInt8.ofNat (n - bs.length % n))

/-- Remove the padding, after checking it. -/
def strip (n : Nat) (bs : List UInt8) : Option (List UInt8) :=
  if bs.length < n then none else
    let last := bs.getLast?.getD 0
    if n < last.toNat then none else
      let length := bs.length - last.toNat
      if (bs.drop length).all (· == last) then some (bs.take length) else none

theorem pad_length (n : Nat) (bs : List UInt8) : (pad n bs).length = bs.length + (n - bs.length % n) := by
  simp [pad]

theorem dvd_pad_length {n : Nat} (positive : 0 < n) (bs : List UInt8) : n ∣ (pad n bs).length := by
  have split := Nat.div_add_mod bs.length n
  have less := Nat.mod_lt bs.length positive
  refine ⟨bs.length / n + 1, ?_⟩
  rw [pad_length, Nat.mul_add]; omega

/-- Stripping inverts padding, for blocks whose length fits in a byte. -/
theorem strip_pad {n : Nat} (positive : 0 < n) (small : n < 256) (bs : List UInt8) : strip n (pad n bs) = some bs := by
  have less := Nat.mod_lt bs.length positive
  obtain ⟨k, added⟩ : ∃ k, n - bs.length % n = k + 1 := ⟨n - bs.length % n - 1, by omega⟩
  have fits : (UInt8.ofNat (k + 1)).toNat = k + 1 := by
    rw [UInt8.toNat_ofNat']; omega
  have long : n ≤ (pad n bs).length := Nat.le_of_dvd (by rw [pad_length]; omega) (dvd_pad_length positive bs)
  have last : (pad n bs).getLast?.getD 0 = UInt8.ofNat (k + 1) := by
    simp [pad, added, List.getLast?_replicate]
  have length : (pad n bs).length - (k + 1) = bs.length := by
    rw [pad_length]; omega
  simp only [strip, if_neg (Nat.not_lt.2 long), last, fits, length, if_neg (show ¬ n < k + 1 by omega)]
  simp [pad, added]

end Lib.Cbc
