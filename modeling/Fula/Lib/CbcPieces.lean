import Fula.Lib.Cbc

/-!
# Cipher block chaining, piece by piece

A message that is encrypted in several calls is one CBC message only if each call
starts from the last ciphertext block of the one before (`encrypt_append`).
`restarted_iff` says when starting each call from the initialisation vector comes
to the same: when that block is the initialisation vector again.

`pieces` cuts a message, `fill` pads the piece that is too short, and
`fill_pieces` says what has been padded then.
-/

namespace Lib.Cbc
set_option autoImplicit false

/-! ## Chaining -/

section
variable {n : Nat}

/-- The last ciphertext block, with which the next block is combined. -/
def final (E : BlockCipher n) (prev bs : List UInt8) : List UInt8 :=
  if bs = [] then prev else final E (E.encipher (xor (bs.take n) prev)) (bs.drop n)
  termination_by bs.length
  decreasing_by
    have := E.positive
    have := List.length_pos_iff.2 ‹bs ≠ []›
    simp only [List.length_drop]; omega

variable {E : BlockCipher n} {prev prev' bs : List UInt8}

@[simp] theorem final_nil (E : BlockCipher n) (prev : List UInt8) : final E prev [] = prev := by
  rw [final, if_pos rfl]

theorem final_block {b : List UInt8} (whole : b.length = n) :
    final E prev (b ++ bs) = final E (E.encipher (xor b prev)) bs := by
  have nonempty := append_ne_nil E.positive whole bs
  rw [final, if_neg nonempty, List.take_left' whole, List.drop_left' whole]

theorem encipher_length {b : List UInt8} (chained : prev.length = n) (whole : b.length = n) :
    (E.encipher (xor b prev)).length = n :=
  E.length_encipher _ ((xor_length (by rw [chained, whole])).trans whole)

theorem final_length (chained : prev.length = n) (whole : n ∣ bs.length) : (final E prev bs).length = n := by
  refine blocks_induction (P := fun bs => ∀ prev : List UInt8, prev.length = n → (final E prev bs).length = n)
    ?_ ?_ whole prev chained
  · intro prev chained
    rwa [final_nil]
  · intro b bs length ih prev chained
    rw [final_block length]
    exact ih _ (encipher_length chained length)

/-- The second part of a message is chained to the first. -/
theorem encrypt_append {as : List UInt8} (whole : n ∣ as.length) (prev bs : List UInt8) :
    encrypt E prev (as ++ bs) = encrypt E prev as ++ encrypt E (final E prev as) bs := by
  refine blocks_induction
    (P := fun as => ∀ prev, encrypt E prev (as ++ bs) = encrypt E prev as ++ encrypt E (final E prev as) bs)
    ?_ ?_ whole prev
  · intro prev
    rw [encrypt_nil, final_nil, List.nil_append, List.nil_append]
  · intro b as length ih prev
    rw [List.append_assoc, encrypt_block length, encrypt_block length, final_block length, ih,
      List.append_assoc]

theorem xor_right_inj {b : List UInt8} (same : prev.length = b.length) (same' : prev'.length = b.length)
    (eq : xor b prev = xor b prev') : prev = prev' := by
  have comm (a : List UInt8) : xor b a = xor a b :=
    List.zipWith_comm_of_comm fun x y => UInt8.xor_comm x y
  rw [comm, comm] at eq
  rw [← xor_xor same.symm, eq, xor_xor same'.symm]

/-- The ciphertext tells what the message was chained to. -/
theorem encrypt_prev_inj (chained : prev.length = n) (chained' : prev'.length = n) (some_ : bs ≠ [])
    (whole : n ∣ bs.length) (eq : encrypt E prev bs = encrypt E prev' bs) : prev = prev' := by
  have long : n ≤ bs.length := Nat.le_of_dvd (List.length_pos_iff.2 some_) whole
  have block : (bs.take n).length = n := by rw [List.length_take]; omega
  rw [← List.take_append_drop n bs, encrypt_block block, encrypt_block block] at eq
  have first := List.append_inj_left eq
    (by rw [encipher_length chained block, encipher_length chained' block])
  have combined : xor (bs.take n) prev = xor (bs.take n) prev' := by
    rw [← E.decipher_encipher (xor (bs.take n) prev), first, E.decipher_encipher]
    · rw [xor_length (by rw [chained', block]), block]
    · rw [xor_length (by rw [chained, block]), block]
  exact xor_right_inj (by rw [chained, block]) (by rw [chained', block]) combined

/-- Messages that are encrypted one by one, each from the initialisation vector, are
encrypted as one just where each but the last leads back to it. -/
theorem restarted_iff {iv : List UInt8} (chained : iv.length = n) {messages : List (List UInt8)}
    (whole : ∀ m ∈ messages, m ≠ [] ∧ n ∣ m.length) :
    (messages.map (encrypt E iv)).flatten = encrypt E iv messages.flatten ↔
      ∀ m ∈ messages.dropLast, final E iv m = iv := by
  induction messages with
  | nil => simp
  | cons m messages ih =>
    cases messages with
    | nil => simp
    | cons m' messages =>
      obtain ⟨-, here⟩ := whole m List.mem_cons_self
      obtain ⟨some_, next⟩ := whole m' (by simp)
      have rest := ih fun m member => whole m (List.mem_cons_of_mem _ member)
      have chained' := final_length (E := E) chained here
      rw [List.map_cons, List.flatten_cons, List.flatten_cons, encrypt_append here,
        List.append_cancel_left_eq,
        List.dropLast_cons_cons, List.forall_mem_cons]
      constructor
      · intro same
        have back : final E iv m = iv := by
          rw [List.map_cons, List.flatten_cons, List.flatten_cons, encrypt_append next] at same
          have first := List.append_inj_left same
            (by rw [encrypt_length chained next, encrypt_length chained' next])
          exact (encrypt_prev_inj chained chained' some_ next first).symm
        rw [back] at same
        exact ⟨back, rest.1 same⟩
      · rintro ⟨back, later⟩
        rw [back]
        exact rest.2 later

theorem restarted_length {iv : List UInt8} (chained : iv.length = n) {messages : List (List UInt8)}
    (whole : ∀ m ∈ messages, n ∣ m.length) :
    (messages.map (encrypt E iv)).flatten.length = messages.flatten.length := by
  induction messages with
  | nil => rfl
  | cons m messages ih =>
    rw [List.forall_mem_cons] at whole
    rw [List.map_cons, List.flatten_cons, List.flatten_cons, List.length_append, List.length_append,
      ih whole.2,
      encrypt_length chained whole.1]

end

/-! ## Pieces -/

/-- Pieces of `size` bytes, and a last one with what is left. -/
def pieces (size : Nat) (bs : List UInt8) : List (List UInt8) :=
  if size = 0 ∨ bs.length ≤ size then [bs] else bs.take size :: pieces size (bs.drop size)
  termination_by bs.length
  decreasing_by simp only [List.length_drop]; omega

/-- A piece of less than `size` bytes is padded. -/
def fill (n size : Nat) (piece : List UInt8) : List UInt8 :=
  if piece.length < size then pad n piece else piece

section
variable {n size : Nat} {bs : List UInt8}

theorem pieces_last (last : bs.length ≤ size) : pieces size bs = [bs] := by
  rw [pieces, if_pos (.inr last)]

theorem pieces_more (positive : 0 < size) (more : size < bs.length) :
    pieces size bs = bs.take size :: pieces size (bs.drop size) := by
  rw [pieces, if_neg (by omega)]

/-- The rule for pieces: the last one, and one more in front. -/
theorem pieces_induction {P : List UInt8 → Prop} (positive : 0 < size) (last : ∀ bs, bs.length ≤ size → P bs)
    (more : ∀ bs, size < bs.length → P (bs.drop size) → P bs) (bs : List UInt8) : P bs := by
  generalize length : bs.length = m
  induction m using Nat.strongRecOn generalizing bs with
  | ind m ih =>
    rcases Nat.lt_or_ge size bs.length with less | le
    · exact more bs less (ih _ (by rw [← length]; omega) _ List.length_drop)
    · exact last bs le

theorem pieces_length_le (positive : 0 < size) (bs : List UInt8) : ∀ piece ∈ pieces size bs,
    piece.length ≤ size := by
  induction bs using pieces_induction positive with
  | last bs le =>
    rw [pieces_last le]
    simpa using le
  | more bs less ih =>
    rw [pieces_more positive less, List.forall_mem_cons]
    exact ⟨by rw [List.length_take]; omega, ih⟩

theorem pieces_ne_nil (positive : 0 < size) (bs : List UInt8) : pieces size bs ≠ [] := by
  rcases Nat.lt_or_ge size bs.length with less | le
  · rw [pieces_more positive less]
    exact List.cons_ne_nil _ _
  · rw [pieces_last le]
    exact List.cons_ne_nil _ _

/-- All pieces but the last are full. -/
theorem pieces_full (positive : 0 < size) (bs : List UInt8) :
    ∀ piece ∈ (pieces size bs).dropLast, piece.length = size := by
  induction bs using pieces_induction positive with
  | last bs le =>
    rw [pieces_last le]
    simp
  | more bs less ih =>
    rw [pieces_more positive less, List.dropLast_cons_of_ne_nil (pieces_ne_nil positive _),
      List.forall_mem_cons]
    exact ⟨by rw [List.length_take]; omega, ih⟩

theorem fill_full {piece : List UInt8} (full : piece.length = size) : fill n size piece = piece := by
  rw [fill, if_neg (by omega)]

/-- A filled piece is whole blocks. -/
theorem fill_whole (positive : 0 < n) (whole : n ∣ size) (some_ : 0 < size) {piece : List UInt8}
    (le : piece.length ≤ size) : fill n size piece ≠ [] ∧ n ∣ (fill n size piece).length := by
  rcases Nat.lt_or_ge piece.length size with less | full
  · rw [fill, if_pos less]
    refine ⟨?_, dvd_pad_length positive piece⟩
    have := Nat.mod_lt piece.length positive
    rw [← List.length_pos_iff, pad_length]; omega
  · have same : piece.length = size := Nat.le_antisymm le full
    rw [fill_full same, ← List.length_pos_iff, same]
    exact ⟨some_, whole⟩

theorem pad_append {as : List UInt8} (whole : n ∣ as.length) (bs : List UInt8) :
    pad n (as ++ bs) = as ++ pad n bs := by
  obtain ⟨k, length⟩ := whole
  have same : (as ++ bs).length % n = bs.length % n := by
    rw [List.length_append, length, Nat.mul_add_mod]
  rw [pad, pad, same, List.append_assoc]

/-- The pieces make up the message, padded unless they all are full. -/
theorem fill_pieces (whole : n ∣ size) (positive : 0 < size) (bs : List UInt8) :
    ((pieces size bs).map (fill n size)).flatten =
      if bs.length % size ≠ 0 ∨ bs = [] then pad n bs else bs := by
  induction bs using pieces_induction positive with
  | last bs le =>
    rw [pieces_last le, List.map_singleton, List.flatten_singleton]
    rcases Nat.lt_or_ge bs.length size with less | full
    · rw [fill, if_pos less, if_pos]
      rw [Nat.mod_eq_of_lt less, ← List.length_eq_zero_iff]
      omega
    · have same : bs.length = size := Nat.le_antisymm le full
      rw [fill_full same, if_neg]
      rw [same, Nat.mod_self, ← List.length_eq_zero_iff]
      omega
  | more bs less ih =>
    have length : (bs.take size).length = size := by rw [List.length_take]; omega
    have rest : (bs.drop size).length % size = bs.length % size := by
      rw [List.length_drop]
      exact (Nat.mod_eq_sub_mod (Nat.le_of_lt less)).symm
    have some_ : bs ≠ [] ∧ bs.drop size ≠ [] := by
      simp only [← List.length_pos_iff, List.length_drop]; omega
    rw [pieces_more positive less, List.map_cons, List.flatten_cons, fill_full length, ih, rest]
    simp only [some_.1, some_.2, or_false]
    split
    · rw [← pad_append (by rw [length]; exact whole), List.take_append_drop]
    · exact List.take_append_drop size bs

end

end Lib.Cbc
