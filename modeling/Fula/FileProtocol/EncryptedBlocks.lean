import Fula.Lib.CbcPieces
import Fula.FileProtocol.SendFile

/-!
# What an encrypted file is

`sendFile` makes a new cipher from the key and the initialisation vector for each
slice of the file, as `receiveDecryptedFile` does on the other side: every slice
is a CBC message of its own, and equal slices that fill their block have equal
ciphertexts. `sendContent_cbc` says so over any block cipher, and when the blocks
are nevertheless the CBC encryption of the whole file.
-/

namespace Fula.FileProtocol.SendFile
set_option autoImplicit false
open Lib.Cbc

/-- What is sent for one slice. -/
def encryptSlice (E : BlockCipher 16) (iv slice : Bytes) : Bytes :=
  encrypt E iv (fill 16 encryptionBlockSize slice)

section
variable {cipher : Bytes → BlockCipher 16} {symKey iv : Bytes}

theorem encryptionBlockSize_pos : 0 < encryptionBlockSize := by decide

theorem dvd_encryptionBlockSize : 16 ∣ encryptionBlockSize := by decide

theorem encrypt_ofCipher (cipher : Bytes → BlockCipher 16) (legal : LegalKey symKey)
    (chained : iv.length = 16) {plaintext : Bytes} (whole : 16 ∣ plaintext.length) :
    (AesJs.ofCipher cipher).encrypt symKey iv plaintext = some (encrypt (cipher symKey) iv plaintext) :=
  if_pos ⟨legal, chained, whole⟩

theorem sendBlock_cipher (legal : LegalKey symKey) (chained : iv.length = 16) (file : Bytes) (startP : Nat) :
    sendBlock (.ofCipher cipher) symKey iv file startP (startP + encryptionBlockSize) =
      some (encryptSlice (cipher symKey) iv (file.extract startP (startP + encryptionBlockSize))) := by
  have length : (file.extract startP (startP + encryptionBlockSize)).length =
      min encryptionBlockSize (file.length - startP) := by
    rw [List.extract_eq_take_drop, List.length_take, List.length_drop, Nat.add_sub_cancel_left]
  obtain ⟨-, whole⟩ := fill_whole (n := 16) (by decide) dvd_encryptionBlockSize encryptionBlockSize_pos
    (show (file.extract startP (startP + encryptionBlockSize)).length ≤ encryptionBlockSize by omega)
  have sent := encrypt_ofCipher cipher legal chained whole
  rw [encryptSlice, ← sent]
  simp only [sendBlock]
  rw [if_pos legal.nonempty, fill]
  have positive := encryptionBlockSize_pos
  by_cases last : file.length < startP + encryptionBlockSize
  · rw [if_pos (by omega), if_pos (by rw [length]; omega)]
    rfl
  · rw [if_neg (by omega), if_neg (by rw [length]; omega)]

/-- The loop sends one block for each piece of the file. -/
theorem sendBlocks_pieces (cipher : Bytes → BlockCipher 16) (legal : LegalKey symKey)
    (chained : iv.length = 16) (file : Bytes) {startP : Nat}
    (more : startP < file.length ∨ startP = 0) :
    sendBlocks (.ofCipher cipher) symKey iv file startP (startP + encryptionBlockSize) =
      some ((pieces encryptionBlockSize (file.drop startP)).map (encryptSlice (cipher symKey) iv)) := by
  have slice : file.extract startP (startP + encryptionBlockSize) =
    (file.drop startP).take encryptionBlockSize := by
    rw [List.extract_eq_take_drop, Nat.add_sub_cancel_left]
  generalize left : file.length - startP = m
  induction m using Nat.strongRecOn generalizing startP with
  | ind m ih =>
    rw [sendBlocks_more more, sendBlock_cipher legal chained, Option.bind_some, slice]
    by_cases last : file.length ≤ startP + encryptionBlockSize
    · have short : (file.drop startP).length ≤ encryptionBlockSize := by rw [List.length_drop]; omega
      have started : startP + encryptionBlockSize ≠ 0 := by
        have := encryptionBlockSize_pos
        omega
      rw [sendBlocks_end last started, pieces_last short, List.take_of_length_le short]
      rfl
    · have long : encryptionBlockSize < (file.drop startP).length := by rw [List.length_drop]; omega
      have positive := encryptionBlockSize_pos
      rw [pieces_more positive long, List.drop_drop, List.map_cons,
        ih (file.length - (startP + encryptionBlockSize)) (by omega) (.inl (by omega)) ?_ rfl]
      · rfl
      · rw [List.extract_eq_take_drop, Nat.add_sub_cancel_left]

theorem sendContent_pieces (legal : LegalKey symKey) (chained : iv.length = 16) (file : Bytes) :
    sendContent (.ofCipher cipher) symKey iv file =
      some ((pieces encryptionBlockSize file).map (encryptSlice (cipher symKey) iv)) := by
  have sent := sendBlocks_pieces cipher legal chained file (.inr rfl)
  rwa [Nat.zero_add, List.drop_zero] at sent

end

/-- The blocks as one ciphertext. -/
theorem flatten_pieces_iff (E : BlockCipher 16) {iv : Bytes} (chained : iv.length = 16) (file : Bytes) :
    ((pieces encryptionBlockSize file).map (encryptSlice E iv)).flatten = encrypt E iv (pad 16 file) ↔
      (file.length % encryptionBlockSize ≠ 0 ∨ file = []) ∧
        ∀ slice ∈ (pieces encryptionBlockSize file).dropLast, final E iv slice = iv := by
  have positive := encryptionBlockSize_pos
  have whole := fill_pieces dvd_encryptionBlockSize positive file
  have messages : (pieces encryptionBlockSize file).map (encryptSlice E iv) =
      ((pieces encryptionBlockSize file).map (fill 16 encryptionBlockSize)).map (encrypt E iv) := by
    rw [List.map_map]
    rfl
  have blocks : ∀ m ∈ (pieces encryptionBlockSize file).map (fill 16 encryptionBlockSize), m ≠ [] ∧
    16 ∣ m.length := by
    intro m member
    obtain ⟨piece, inside, rfl⟩ := List.mem_map.1 member
    exact fill_whole (by decide) dvd_encryptionBlockSize positive
      (pieces_length_le positive file piece inside)
  rw [messages]
  by_cases padded : file.length % encryptionBlockSize ≠ 0 ∨ file = []
  · rw [if_pos padded] at whole
    rw [← whole, restarted_iff chained blocks, ← List.map_dropLast, List.forall_mem_map, and_iff_right padded]
    refine forall₂_congr fun slice member => ?_
    rw [fill_full (pieces_full positive file slice member)]
  · -- nothing is padded, and the ciphertext is too short
    rw [if_neg padded] at whole
    refine iff_of_false (fun same => ?_) fun both => padded both.1
    have lengths := congrArg List.length same
    rw [restarted_length chained fun m member => (blocks m member).2, whole,
      encrypt_length chained (dvd_pad_length (by decide) file), pad_length] at lengths
    omega

/-- **Encryption block by block**: each slice of the file is a CBC message of its own,
from the initialisation vector on, and padded if it does not fill its block; so equal
slices are sent as equal blocks. Together the blocks are the CBC encryption of the whole
file, padded as one message, just where the last slice is padded and the ciphertext of
each other one ends with the initialisation vector, which for a file of one slice says
only that it is padded. -/
theorem sendContent_cbc (cipher : Bytes → BlockCipher 16) {symKey iv : Bytes} (legal : LegalKey symKey)
    (chained : iv.length = 16) (file : Bytes) :
    ∃ blocks, sendContent (.ofCipher cipher) symKey iv file = some blocks ∧
      blocks = (pieces encryptionBlockSize file).map (encryptSlice (cipher symKey) iv) ∧
      (∀ i j : Nat, (pieces encryptionBlockSize file)[i]? = (pieces encryptionBlockSize file)[j]? →
        blocks[i]? = blocks[j]?) ∧
      (blocks.flatten = encrypt (cipher symKey) iv (pad 16 file) ↔
        (file.length % encryptionBlockSize ≠ 0 ∨ file = []) ∧
          ∀ slice ∈ (pieces encryptionBlockSize file).dropLast, final (cipher symKey) iv slice = iv) := by
  refine ⟨_, sendContent_pieces legal chained file, rfl, ?_, flatten_pieces_iff (cipher symKey) chained file⟩
  intro i j same
  rw [List.getElem?_map, List.getElem?_map, same]

/-! ### Files of several slices -/

def sampleKey : Bytes := List.replicate 16 7
def sampleIv : Bytes := List.replicate 16 0

/-- A cipher that exchanges two blocks, neither of which comes up below. -/
def sampleCipher : BlockCipher 16 :=
  .exchange (Nat.succ_pos 15) (List.replicate 16 2) (List.replicate 16 3) rfl rfl

/-- Blocks of zeros hand on what the one before them hands on, where the cipher leaves that alone. -/
theorem final_zeros {iv : Bytes} (kept : ∀ rest, final sampleCipher iv (List.replicate 16 0 ++ rest) = final sampleCipher iv rest)
    (k : Nat) : final sampleCipher iv (List.replicate (16 * k) 0) = iv := by
  induction k with
  | zero => exact final_nil _ _
  | succ k ih =>
    rw [Nat.mul_succ, Nat.add_comm, ← List.replicate_append_replicate, kept]
    exact ih

/-- A slice of zeros. -/
def zeros : Bytes := List.replicate (16 * 1024) 0

theorem zeros_length : zeros.length = encryptionBlockSize := by
  rw [zeros, List.length_replicate]
  rfl

/-- Two slices, of which the first hands on the initialisation vector. -/
theorem sendContent_cbc_sample :
    ∃ blocks, sendContent (.ofCipher fun _ => sampleCipher) sampleKey sampleIv (zeros ++ [1, 2, 3]) = some blocks ∧
      blocks.length = 2 ∧ blocks.flatten = encrypt sampleCipher sampleIv (pad 16 (zeros ++ [1, 2, 3])) := by
  have cut : pieces encryptionBlockSize (zeros ++ [1, 2, 3]) = [zeros, [1, 2, 3]] := by
    rw [pieces_more encryptionBlockSize_pos (by simp [zeros_length]), List.take_left' zeros_length,
      List.drop_left' zeros_length, pieces_last (by decide)]
  obtain ⟨blocks, sent, each, -, whole⟩ :=
    sendContent_cbc (fun _ => sampleCipher) (show LegalKey sampleKey by decide)
    (show sampleIv.length = 16 from rfl) (zeros ++ [1, 2, 3])
  have last : final sampleCipher sampleIv zeros = sampleIv :=
    final_zeros (fun _ => final_block List.length_replicate) 1024
  refine ⟨blocks, sent, by rw [each, cut]; rfl, whole.2 ⟨.inl ?_, ?_⟩⟩
  · rw [List.length_append, zeros_length]
    decide
  · rw [cut]
    simpa using last

/-- A slice that fills its block: a block of ones and many of zeros. -/
def sampleSlice : Bytes := List.replicate 16 1 ++ List.replicate (16 * 1023) 0

theorem sampleSlice_length : sampleSlice.length = encryptionBlockSize := by
  rw [sampleSlice, List.length_append, List.length_replicate, List.length_replicate]
  rfl

/-- Twice the same slice: its two blocks are the same, and not those of the CBC encryption. -/
theorem equal_slices_unchained :
    ∃ blocks, sendContent (.ofCipher fun _ => sampleCipher) sampleKey sampleIv
          (sampleSlice ++ (sampleSlice ++ [0])) = some blocks ∧
      blocks[0]? = blocks[1]? ∧
      blocks.flatten ≠ encrypt sampleCipher sampleIv (pad 16 (sampleSlice ++ (sampleSlice ++ [0]))) := by
  have length := sampleSlice_length
  have positive := encryptionBlockSize_pos
  have cut : pieces encryptionBlockSize (sampleSlice ++ (sampleSlice ++ [0])) =
      [sampleSlice, sampleSlice, [0]] := by
    rw [pieces_more positive (by simp [length]), List.take_left' length, List.drop_left' length,
      pieces_more positive (by simp [length]), List.take_left' length, List.drop_left' length,
      pieces_last (by decide)]
  refine ⟨_, sendContent_pieces (by decide) rfl _, by rw [cut]; rfl, fun same => ?_⟩
  have back := ((flatten_pieces_iff sampleCipher rfl _).1 same).2 sampleSlice (by rw [cut]; simp)
  rw [sampleSlice, final_block List.length_replicate] at back
  have ones : final sampleCipher (List.replicate 16 1) (List.replicate (16 * 1023) 0) = sampleIv := back
  rw [final_zeros fun _ => final_block List.length_replicate] at ones
  cases ones

end Fula.FileProtocol.SendFile
