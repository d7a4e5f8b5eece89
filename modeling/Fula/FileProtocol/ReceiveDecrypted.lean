import Fula.FileProtocol.SendFile

/-!
# Encrypted files: `sendFile` and `receiveDecryptedFile`

The receiver cuts the ciphertext into blocks of the same size and decrypts
each on its own. The sender pads by the size of the *file*, the receiver strips
by the size of the *ciphertext*: the two agree unless the padding itself fills
the last block, which happens for the files of `16368` to `16383` bytes more
than a multiple of the block size.
-/

namespace Fula.FileProtocol.ReceiveDecrypted
set_option autoImplicit false

/-- The receiver's own constant. -/
def encryptionBlockSize : Nat := 16 * 1024

section
variable (aes : AesJs) (symKey iv : Bytes)

/-- `for await (const chunk of source) content = content.concat(Array.from(chunk))` -/
def gather (chunks : List Bytes) : Bytes := chunks.foldl (fun content chunk => content ++ chunk) []

/-- What is decrypted of the slice of `content` from `startP` to `endP`. -/
def receiveBlock (content : Bytes) (startP endP : Nat) : Option Bytes :=
  let block := content.extract startP endP
  if (content.length : Int) - endP < 0 then (aes.decrypt symKey iv block).bind aes.strip
  else aes.decrypt symKey iv block

/-- The `while` loop, from a given turn on; `res` is the file so far. -/
def receiveBlocks (content : Bytes) (startP endP : Nat) (res : Bytes) : Option Bytes :=
  if startP < content.length ∨ startP = 0 then do
    let decrypted ← receiveBlock aes symKey iv content startP endP
    receiveBlocks content (startP + encryptionBlockSize) (endP + encryptionBlockSize) (res ++ decrypted)
  else some res
  termination_by content.length + 1 - startP
  decreasing_by simp only [encryptionBlockSize]; omega

/-- The bytes of the file that `receiveDecryptedFile` returns for the chunks of
the content. -/
def receiveDecryptedFile (chunks : List Bytes) : Option Bytes :=
  receiveBlocks aes symKey iv (gather chunks) 0 encryptionBlockSize []

end

/-- The two packages agree on the block size. -/
theorem blockSizes_agree : SendFile.encryptionBlockSize = encryptionBlockSize := rfl

section
variable {aes : AesJs} {symKey iv file content res : Bytes} {startP endP : Nat}

theorem gather_eq (chunks : List Bytes) : gather chunks = chunks.flatten := by
  have from_ : ∀ content, chunks.foldl (fun content chunk => content ++ chunk) content = content ++ chunks.flatten := by
    induction chunks with
    | nil => simp
    | cons chunk chunks ih => intro content; simp [ih]
  simpa only [gather, List.nil_append] using from_ []

theorem receiveBlocks_more (more : startP < content.length ∨ startP = 0) :
    receiveBlocks aes symKey iv content startP endP res =
      (receiveBlock aes symKey iv content startP endP).bind fun decrypted =>
        receiveBlocks aes symKey iv content (startP + encryptionBlockSize) (endP + encryptionBlockSize)
          (res ++ decrypted) := by
  rw [receiveBlocks, if_pos more]; rfl

theorem receiveBlocks_end (received : content.length ≤ startP) (started : startP ≠ 0) :
    receiveBlocks aes symKey iv content startP endP res = some res := by
  rw [receiveBlocks, if_neg (by omega)]

theorem slice_between {before block after : Bytes} (start : before.length = startP)
    (fits : block.length = encryptionBlockSize ∨ block.length ≤ encryptionBlockSize ∧ after = []) :
    (before ++ block ++ after).extract startP (startP + encryptionBlockSize) = block := by
  rw [List.extract_eq_take_drop, List.append_assoc, List.drop_left' start, Nat.add_sub_cancel_left]
  rcases fits with full | ⟨short, rfl⟩
  · exact List.take_left' full
  · rw [List.append_nil]; exact List.take_of_length_le short

/-- A block that reaches the block size is not stripped. -/
theorem receiveBlock_full {before block after : Bytes} (start : before.length = startP)
    (full : block.length = encryptionBlockSize) :
    receiveBlock aes symKey iv (before ++ block ++ after) startP (startP + encryptionBlockSize) =
      aes.decrypt symKey iv block := by
  simp only [receiveBlock]
  rw [slice_between start (.inl full), if_neg]
  simp only [List.length_append, start, full]; omega

/-- A block that does not is. -/
theorem receiveBlock_last {before block : Bytes} (start : before.length = startP)
    (short : block.length < encryptionBlockSize) :
    receiveBlock aes symKey iv (before ++ block ++ []) startP (startP + encryptionBlockSize) =
      (aes.decrypt symKey iv block).bind aes.strip := by
  simp only [receiveBlock]
  rw [slice_between start (.inr ⟨Nat.le_of_lt short, rfl⟩), if_pos]
  simp only [List.length_append, start, List.length_nil]; omega

/-- What comes back for the last slice: its padding stays where it fills the
block. -/
def returned (aes : AesJs) (last : Bytes) : Bytes :=
  if last.length < encryptionBlockSize - 16 then last else aes.pad last

theorem returned_eq_iff (lawful : aes.Lawful) (last : Bytes) :
    returned aes last = last ↔ last.length < encryptionBlockSize - 16 := by
  constructor
  · intro same
    by_contra more
    rw [returned, if_neg more] at same
    have length := congrArg List.length same
    rw [lawful.pad] at length; omega
  · intro less
    rw [returned, if_pos less]

/-- What the two loops do together, from the turn that starts at `startP`: the
slices that fill a block come back, and then what is `returned` of the rest. -/
def Loops (aes : AesJs) (symKey iv file : Bytes) (startP : Nat) : Prop :=
  ∃ (blocks : List Bytes) (full last : Bytes),
    SendFile.sendBlocks aes symKey iv file startP (startP + encryptionBlockSize) = some blocks ∧
    file.drop startP = full ++ last ∧ last.length = file.length % encryptionBlockSize ∧
    ∀ before res : Bytes, before.length = startP →
      receiveBlocks aes symKey iv (before ++ blocks.flatten) startP (startP + encryptionBlockSize) res =
        some (res ++ full ++ returned aes last)

theorem Loops.sent (lawful : aes.Lawful) (aligned : encryptionBlockSize ∣ startP) (sent : startP = file.length)
    (started : startP ≠ 0) : Loops aes symKey iv file startP := by
  refine ⟨[], [], [], SendFile.sendBlocks_end (by omega) started, ?_, ?_, ?_⟩
  · rw [sent, List.drop_length]; rfl
  · rw [← sent, Nat.mod_eq_zero_of_dvd aligned]; rfl
  · intro before res start
    rw [receiveBlocks_end (by simp [start]) started, (returned_eq_iff lawful []).2 (by decide)]
    simp

/-- One turn with a whole slice. -/
theorem Loops.full (lawful : aes.Lawful) (legal : LegalKey symKey) (chained : iv.length = 16)
    (whole : startP + encryptionBlockSize ≤ file.length)
    (next : Loops aes symKey iv file (startP + encryptionBlockSize)) : Loops aes symKey iv file startP := by
  obtain ⟨encrypted, sent, length, back⟩ := SendFile.sendBlock_full lawful legal chained whole
  rw [blockSizes_agree] at sent length back
  obtain ⟨blocks, full, last, sentRest, split, lastLength, received⟩ := next
  have more : startP < file.length ∨ startP = 0 := by
    simp only [encryptionBlockSize] at whole; omega
  refine ⟨encrypted :: blocks, file.extract startP (startP + encryptionBlockSize) ++ full, last, ?_, ?_, lastLength, ?_⟩
  · rw [SendFile.sendBlocks_more more, sent, Option.bind_some, blockSizes_agree, sentRest, Option.map_some]
  · rw [List.extract_eq_take_drop, Nat.add_sub_cancel_left, List.append_assoc, ← split, ← List.drop_drop,
      List.take_append_drop]
  · intro before res start
    have content : before ++ (encrypted :: blocks).flatten = before ++ encrypted ++ blocks.flatten := by simp
    have unread : startP < (before ++ encrypted ++ blocks.flatten).length := by
      simp only [List.length_append, start, length]
      exact Nat.lt_of_lt_of_le (Nat.lt_add_of_pos_right (by decide)) (Nat.le_add_right _ _)
    rw [content, receiveBlocks_more (.inl unread), receiveBlock_full start length, back, Option.bind_some,
      received (before ++ encrypted) _ (by rw [List.length_append, start, length])]
    simp

/-- The turn with the last slice, when it does not fill its block. -/
theorem Loops.last (lawful : aes.Lawful) (legal : LegalKey symKey) (chained : iv.length = 16)
    (aligned : encryptionBlockSize ∣ startP) (more : startP < file.length ∨ startP = 0)
    (short : file.length < startP + encryptionBlockSize) : Loops aes symKey iv file startP := by
  obtain ⟨encrypted, sent, length, back⟩ := SendFile.sendBlock_last lawful legal chained short
  rw [blockSizes_agree] at sent
  have rest : (file.drop startP).length = file.length % encryptionBlockSize := by
    obtain ⟨k, aligned⟩ := aligned
    rw [List.length_drop, aligned]
    simp only [encryptionBlockSize] at *; omega
  refine ⟨[encrypted], [], file.drop startP, ?_, rfl, rest, ?_⟩
  · have started : startP + encryptionBlockSize ≠ 0 := by
      simp only [encryptionBlockSize]; omega
    rw [SendFile.sendBlocks_more more, sent, Option.bind_some, blockSizes_agree,
      SendFile.sendBlocks_end (Nat.le_of_lt short) started, Option.map_some]
  · intro before res start
    have content : before ++ [encrypted].flatten = before ++ encrypted ++ [] := by simp
    have padded := lawful.pad (file.drop startP)
    rw [← length] at padded
    have unread : startP < (before ++ encrypted ++ []).length := by
      simp only [List.length_append, start, List.length_nil]; omega
    rw [content, receiveBlocks_more (.inl unread)]
    by_cases fits : (file.drop startP).length < encryptionBlockSize - 16
    · have strips : encrypted.length < encryptionBlockSize := by
        simp only [encryptionBlockSize] at *; omega
      rw [receiveBlock_last start strips, back, Option.bind_some, lawful.strip, Option.bind_some,
        (returned_eq_iff lawful _).2 fits, receiveBlocks_end, List.append_nil]
      · simp only [List.length_append, start, List.length_nil]; omega
      · simp only [encryptionBlockSize]; omega
    · have fills : encrypted.length = encryptionBlockSize := by
        simp only [encryptionBlockSize] at *; omega
      rw [receiveBlock_full start fills, back, Option.bind_some, returned, if_neg fits, receiveBlocks_end,
        List.append_nil]
      · simp only [List.length_append, start, List.length_nil, fills]; omega
      · simp only [encryptionBlockSize]; omega

theorem loops (lawful : aes.Lawful) (legal : LegalKey symKey) (chained : iv.length = 16)
    (aligned : encryptionBlockSize ∣ startP) (inside : startP ≤ file.length) : Loops aes symKey iv file startP := by
  generalize left : file.length - startP = m
  induction m using Nat.strongRecOn generalizing startP with
  | ind m ih =>
    by_cases whole : startP + encryptionBlockSize ≤ file.length
    · apply Loops.full lawful legal chained whole
      apply ih (file.length - (startP + encryptionBlockSize))
      · simp only [encryptionBlockSize] at *; omega
      · exact (Nat.dvd_add_right aligned).2 (Nat.dvd_refl _)
      · exact whole
      · rfl
    · by_cases more : startP < file.length ∨ startP = 0
      · exact Loops.last lawful legal chained aligned more (Nat.not_le.1 whole)
      · exact Loops.sent lawful aligned (by omega) (by omega)

/-- What comes back of a file. -/
theorem receive_sent (lawful : aes.Lawful) (legal : LegalKey symKey) (chained : iv.length = 16) (file : Bytes) :
    ∃ (blocks : List Bytes) (full last : Bytes), SendFile.sendContent aes symKey iv file = some blocks ∧
      file = full ++ last ∧ last.length = file.length % encryptionBlockSize ∧
      ∀ chunks : List Bytes, chunks.flatten = blocks.flatten →
        receiveDecryptedFile aes symKey iv chunks = some (full ++ returned aes last) := by
  obtain ⟨blocks, full, last, sent, split, length, received⟩ :=
    loops lawful legal chained (Nat.dvd_zero _) (Nat.zero_le file.length)
  rw [Nat.zero_add] at sent
  refine ⟨blocks, full, last, sent, split, length, ?_⟩
  intro chunks same
  rw [receiveDecryptedFile, gather_eq, same]
  simpa using received [] [] rfl

/-- **Encrypted files round-trip exactly when their padding does not fill a
block.** -/
theorem receiveDecryptedFile_sendFile (lawful : aes.Lawful) (legal : LegalKey symKey) (chained : iv.length = 16)
    (file : Bytes) :
    ∃ blocks, SendFile.sendContent aes symKey iv file = some blocks ∧
      ∀ chunks : List Bytes, chunks.flatten = blocks.flatten →
        (receiveDecryptedFile aes symKey iv chunks = some file ↔
          file.length % encryptionBlockSize < encryptionBlockSize - 16) := by
  obtain ⟨blocks, full, last, sent, split, length, received⟩ := receive_sent lawful legal chained file
  refine ⟨blocks, sent, ?_⟩
  intro chunks same
  rw [received chunks same, ← length, Option.some.injEq]
  conv_lhs => rw [split]
  rw [List.append_cancel_left_eq, returned_eq_iff lawful]

end

/-! ## A run on AES -/

def sampleKey : Bytes := [0, 1, 2, 3, 4, 5, 6, 7, 8, 9, 10, 11, 12, 13, 14, 15]

/-- A block and what AES-128 makes of it under `sampleKey`. -/
def sampleBlock : Bytes := [0, 0, 0, 0, 0, 0, 0, 0, 0, 0, 0, 0, 0, 0, 0, 9]
def sampleIv : Bytes := [97, 66, 100, 90, 31, 51, 35, 94, 119, 236, 15, 251, 234, 52, 22, 8]

/-- The package with AES replaced by a cipher that agrees with it on
`sampleBlock`, the only block enciphered below: the combination of each
plaintext block with the ciphertext `sampleIv` before it is `sampleBlock`. -/
def sampleAes : AesJs :=
  AesJs.ofCipher fun _ => .exchange (by decide) sampleBlock sampleIv rfl rfl

theorem receiveDecryptedFile_sendFile_sample :
    ∃ blocks, SendFile.sendContent sampleAes sampleKey sampleIv (sampleIv.take 15) = some blocks ∧
      ∀ chunks : List Bytes, chunks.flatten = blocks.flatten →
        (receiveDecryptedFile sampleAes sampleKey sampleIv chunks = some (sampleIv.take 15) ↔
          (sampleIv.take 15).length % encryptionBlockSize < encryptionBlockSize - 16) :=
  receiveDecryptedFile_sendFile (AesJs.ofCipher_lawful _) (by decide) (by decide) _

/-- A file of one byte less than a block. -/
def longFile : Bytes := (List.replicate 1023 (sampleIv.take 15 ++ [1])).flatten ++ sampleIv.take 15

theorem longFile_length : longFile.length = 16383 := by
  have block : (sampleIv.take 15 ++ [1]).length = 16 := rfl
  have text : (sampleIv.take 15).length = 15 := rfl
  simp only [longFile, List.length_append, List.length_flatten, List.map_replicate, block, text, List.sum_replicate,
    smul_eq_mul]

/-- It comes back one byte longer. -/
theorem longFile_not_returned :
    ∃ blocks, SendFile.sendContent sampleAes sampleKey sampleIv longFile = some blocks ∧
      receiveDecryptedFile sampleAes sampleKey sampleIv blocks = some (longFile ++ [1]) ∧
      longFile ++ [1] ≠ longFile := by
  have lawful : sampleAes.Lawful := AesJs.ofCipher_lawful _
  obtain ⟨blocks, full, last, sent, split, length, received⟩ :=
    receive_sent lawful (show LegalKey sampleKey by decide) (show sampleIv.length = 16 by decide) longFile
  have whole := congrArg List.length split
  rw [longFile_length] at length
  rw [longFile_length, List.length_append, length] at whole
  have none : full = [] := by
    apply List.length_eq_zero_iff.1
    simp only [encryptionBlockSize] at whole; omega
  subst none
  rw [List.nil_append] at split
  subst split
  refine ⟨blocks, sent, ?_, by simp⟩
  rw [received blocks rfl, returned, if_neg (by rw [longFile_length]; decide)]
  have padding : sampleAes.pad longFile = longFile ++ [1] := by
    simp only [sampleAes, AesJs.ofCipher, Lib.Cbc.pad, longFile_length]
    rfl
  rw [padding, List.nil_append]

end Fula.FileProtocol.ReceiveDecrypted
