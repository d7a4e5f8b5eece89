import Fula.FileProtocol.AesJs

/-!
# The block loop of `sendFile`

After the header, `sendFile` yields the file in slices of `ENCRYPTION_BLOCK_SIZE`
bytes, each encrypted on its own when a key is given. The last slice is padded
when it does not fill its block; a file of no bytes is one empty slice.
-/

namespace Fula.FileProtocol.SendFile
set_option autoImplicit false

def encryptionBlockSize : Nat := 16 * 1024

section
variable (aes : AesJs) (symKey iv file : Bytes)

/-- What is yielded for the slice of the file from `startP` to `endP`. -/
def sendBlock (startP endP : Nat) : Option Bytes :=
  let block := file.extract startP endP
  if symKey.length ≠ 0 then
    if (file.length : Int) - endP < 0 then aes.encrypt symKey iv (aes.pad block)
    else aes.encrypt symKey iv block
  else some block

/-- The `while` loop, from a given turn on. -/
def sendBlocks (startP endP : Nat) : Option (List Bytes) :=
  if startP < file.length ∨ startP = 0 then do
    let encrypted ← sendBlock aes symKey iv file startP endP
    let rest ← sendBlocks (startP + encryptionBlockSize) (endP + encryptionBlockSize)
    some (encrypted :: rest)
  else some []
  termination_by file.length + 1 - startP
  decreasing_by simp only [encryptionBlockSize]; omega

/-- What `sendFile` yields after the header. -/
def sendContent : Option (List Bytes) := sendBlocks aes symKey iv file 0 encryptionBlockSize

end

section
variable {aes : AesJs} {symKey iv file : Bytes} {startP endP : Nat}

theorem sendBlocks_more (more : startP < file.length ∨ startP = 0) :
    sendBlocks aes symKey iv file startP endP = (sendBlock aes symKey iv file startP endP).bind fun encrypted =>
      (sendBlocks aes symKey iv file (startP + encryptionBlockSize) (endP + encryptionBlockSize)).map (encrypted :: ·) := by
  rw [sendBlocks, if_pos more]
  simp only [Option.bind_eq_bind, Option.map_eq_bind, Function.comp_def]

theorem sendBlocks_end (sent : file.length ≤ startP) (started : startP ≠ 0) :
    sendBlocks aes symKey iv file startP endP = some [] := by
  rw [sendBlocks, if_neg (by omega)]

/-- A slice that fills its block is encrypted as it is. -/
theorem sendBlock_full (lawful : aes.Lawful) (legal : LegalKey symKey) (chained : iv.length = 16)
    (full : startP + encryptionBlockSize ≤ file.length) :
    ∃ encrypted, sendBlock aes symKey iv file startP (startP + encryptionBlockSize) = some encrypted ∧
      encrypted.length = encryptionBlockSize ∧
      aes.decrypt symKey iv encrypted = some (file.extract startP (startP + encryptionBlockSize)) := by
  have length : (file.extract startP (startP + encryptionBlockSize)).length = encryptionBlockSize := by
    simp only [List.extract_eq_take_drop, List.length_take, List.length_drop]; omega
  obtain ⟨encrypted, sent, same, back⟩ := lawful.encrypt symKey iv _ legal chained
    (show 16 ∣ (file.extract startP (startP + encryptionBlockSize)).length by rw [length]; decide)
  refine ⟨encrypted, ?_, same.trans length, back⟩
  simp only [sendBlock]
  rw [if_pos legal.nonempty, if_neg (by omega)]
  exact sent

/-- A slice that does not is padded first. -/
theorem sendBlock_last (lawful : aes.Lawful) (legal : LegalKey symKey) (chained : iv.length = 16)
    (last : file.length < startP + encryptionBlockSize) :
    ∃ encrypted, sendBlock aes symKey iv file startP (startP + encryptionBlockSize) = some encrypted ∧
      encrypted.length = (aes.pad (file.drop startP)).length ∧
      aes.decrypt symKey iv encrypted = some (aes.pad (file.drop startP)) := by
  obtain ⟨encrypted, sent, same, back⟩ := lawful.encrypt symKey iv _ legal chained (lawful.dvd_pad (file.drop startP))
  have slice : file.extract startP (startP + encryptionBlockSize) = file.drop startP := by
    rw [List.extract_eq_take_drop, List.take_of_length_le]
    simp only [List.length_drop]; omega
  refine ⟨encrypted, ?_, same, back⟩
  simp only [sendBlock]
  rw [slice, if_pos legal.nonempty, if_pos (by omega)]
  exact sent

/-- Without a key the slices are sent as they are. -/
theorem sendBlocks_plain (file : Bytes) (aes : AesJs) (iv : Bytes) (startP : Nat) :
    ∃ blocks, sendBlocks aes [] iv file startP (startP + encryptionBlockSize) = some blocks ∧
      blocks.flatten = file.drop startP := by
  generalize left : file.length - startP = m
  induction m using Nat.strongRecOn generalizing startP with
  | ind m ih =>
    by_cases more : startP < file.length ∨ startP = 0
    · have block : sendBlock aes [] iv file startP (startP + encryptionBlockSize) =
          some (file.extract startP (startP + encryptionBlockSize)) := by
        simp only [sendBlock]
        rw [if_neg (by simp)]
      have whole : file.extract startP (startP + encryptionBlockSize) ++ file.drop (startP + encryptionBlockSize) =
          file.drop startP := by
        rw [List.extract_eq_take_drop, Nat.add_sub_cancel_left, ← List.drop_drop, List.take_append_drop]
      by_cases last : file.length ≤ startP + encryptionBlockSize
      · refine ⟨[file.extract startP (startP + encryptionBlockSize)], ?_, ?_⟩
        · rw [sendBlocks_more more, block, Option.bind_some, sendBlocks_end last, Option.map_some]
          simp only [encryptionBlockSize]; omega
        · rw [List.drop_of_length_le last, List.append_nil] at whole
          simpa using whole
      · obtain ⟨blocks, sent, rest⟩ := ih (file.length - (startP + encryptionBlockSize))
          (by simp only [encryptionBlockSize] at *; omega) (startP + encryptionBlockSize) rfl
        refine ⟨file.extract startP (startP + encryptionBlockSize) :: blocks, ?_, ?_⟩
        · rw [sendBlocks_more more, block, Option.bind_some, sent, Option.map_some]
        · rw [List.flatten_cons, rest, whole]
    · refine ⟨[], sendBlocks_end (by omega) (by omega), ?_⟩
      rw [List.drop_of_length_le (by omega)]; rfl

theorem sendContent_plain (aes : AesJs) (iv file : Bytes) :
    ∃ blocks, sendContent aes [] iv file = some blocks ∧ blocks.flatten = file := by
  have sent := sendBlocks_plain file aes iv 0
  rwa [Nat.zero_add, List.drop_zero] at sent

end

end Fula.FileProtocol.SendFile
