import Fula.Lib.ContentStore
import Fula.FileProtocol.MetaRoundTrip
import Fula.FileProtocol.ReceiveDecrypted

/-!
# Files over the life of a box

Clients open uploads at any time, the box serves them side by side, and
everybody who uses the same IPFS adds content of his own. `step` is the next
step of any of them. What `ipfsNode.add` has come back for is in the store for
good, so a file can be downloaded from the moment on at which the client has
the id: `receiveFile_later` for plain files, `receiveDecryptedFile_later` for
encrypted ones.
-/

namespace Fula.FileProtocol
set_option autoImplicit false
open Lib AsyncLater Schema

/-! ## Encrypted files -/

/-- `sendFile` with a key writes the header of the file and encrypted blocks. -/
def encrypted (file : WebFile) (blocks : List Bytes) : Client :=
  .streamFile blocks { name := file.name, type := file.type, size := file.size, lastModified := file.lastModified }

/-- `receiveDecryptedFile`, with both requests. -/
def receiveDecryptedFile (aesjs : AesJs) (dropsEmpty : Bool) (catMeta catContent : Cat) (id : String)
    (symKey iv : Bytes) : Option Received := do
  let info ← receiveMeta dropsEmpty catMeta id
  let source ← receiveContent dropsEmpty catContent id
  let content ← ReceiveDecrypted.receiveDecryptedFile aesjs symKey iv source
  some { name := info.name, type := info.type, lastModified := info.lastModified, content }

/-! ## The box and its store -/

/-- What `ipfsNode.add` stores when it comes back. -/
def Upload.stored {ε : Type} (u : Upload ε) : Upload.Act → List Bytes
  | .added => (u.content.observers[0]?).elim [] fun later => (Upload.readToEnd later.gen.results).toList
  | .recorded =>
    match u.store with
    | .recording info file => (File.toBinary { meta_ := some info, contentPath := file.text }).toList
    | _ => []
  | _ => []

/-- The uploads so far, each with what its client sends, and the contents of the store. -/
structure History (aes : AesJs) (ε : Type) where
  uploads : List (Transmission aes × Upload ε) := []
  blobs : List Bytes := []

namespace History

inductive Act (aes : AesJs) where
  /-- A client sends an upload, and the box calls `handler`. -/
  | start (x : Transmission aes)
  | upload (i : Nat) (a : Upload.Act)
  /-- Somebody else adds something. -/
  | foreign (blob : Bytes)

variable {aes : AesJs} {ε : Type}

def step (add : Bytes → Cid) (s : History aes ε) : Act aes → Option (History aes ε)
  | .start x => some { s with uploads := s.uploads ++ [(x, .start x)] }
  | .upload i a => (s.uploads[i]?).bind fun sent => (Upload.step add sent.2 a).map fun u =>
    { uploads := s.uploads.set i (sent.1, u), blobs := s.blobs ++ sent.2.stored a }
  | .foreign blob => some { s with blobs := s.blobs ++ [blob] }

/-- `ipfsNode.cat`, which yields a content in pieces. -/
def cat (add : Bytes → Cid) (pieces : Bytes → List Bytes) (s : History aes ε) : Cat := fun path =>
  (ContentStore.find (fun blob => (add blob).text) s.blobs path).map pieces

/-- What the box relies on: no two contents that are ever stored have one id, ids are short, and a content comes back
as it was added. -/
structure Ipfs (add : Bytes → Cid) (pieces : Bytes → List Bytes) (blobs : List Bytes) : Prop where
  apart : ContentStore.Apart (fun blob => (add blob).text) blobs
  short : ∀ blob, (encodeText (add blob).text).length < 2 ^ 31
  whole : ∀ blob, (pieces blob).flatten = blob

/-! ## What is in the store -/

/-- What an upload has added is in the store. -/
def Kept (add : Bytes → Cid) (blobs : List Bytes) (x : Transmission aes) : Store → Prop
  | .idle | .adding _ => True
  | .recording _ _ => x.client.content ∈ blobs
  | .declared _ => x.client.content ∈ blobs ∧ ∃ record ∈ blobs,
      File.toBinary { meta_ := some x.client.info.received, contentPath := (add x.client.content).text } = some record

structure Inv (add : Bytes → Cid) (s : History aes ε) : Prop where
  uploads : ∀ sent ∈ s.uploads, sent.2.Inv add sent.1
  kept : ∀ sent ∈ s.uploads, Kept add s.blobs sent.1 sent.2.store

variable {add : Bytes → Cid} {pieces : Bytes → List Bytes} {s s' : History aes ε} {blobs more : List Bytes}
  {x : Transmission aes} {u u' : Upload ε}

theorem Kept.mono (le : blobs ⊆ more) : ∀ {store : Store}, Kept add blobs x store → Kept add more x store
  | .idle, _ | .adding _, _ => trivial
  | .recording _ _, h => le h
  | .declared _, ⟨content, record, stored, written⟩ => ⟨le content, record, le stored, written⟩

/-- A step of an upload stores what it has declared to be there. -/
theorem Kept.step (inv : u.Inv add x) (h : Kept add blobs x u.store) {a : Upload.Act}
    (moved : Upload.step add u a = some u') : Kept add (blobs ++ u.stored a) x u'.store := by
  have same : Kept add (blobs ++ u.stored a) x u.store := h.mono (List.subset_append_left _ _)
  cases Upload.step_moves moved with
  | stream | pullTail | pullContent | tickContent | respond | receive => exact same
  | head waits answer =>
    rw [inv.handle_eq waits answer]
    trivial
  | @takeTail taken r waits answer => cases r <;> exact same
  | added waits at_ read =>
    have all := Upload.readToEnd_served (inv.content_initial at_) read
    refine List.mem_append_right _ ?_
    rw [Upload.stored, at_, Option.elim_some, read, all, x.body_content]
    exact List.mem_singleton_self _
  | @recorded info file id waits wrote =>
    obtain ⟨record, written, rfl⟩ := Option.map_eq_some_iff.1 wrote
    have works := inv.store
    rw [waits] at works h
    obtain ⟨rfl, rfl⟩ := works
    have stored : u.stored .recorded = [record] := by simp only [Upload.stored, waits, written, Option.toList]
    rw [stored]
    refine ⟨List.mem_append_left _ h, record, by simp, ?_⟩
    rw [← x.body_content]
    exact written

theorem Inv.step (h : Inv add s) {a : Act aes} (moved : History.step add s a = some s') :
    Inv add s' ∧ s.blobs ⊆ s'.blobs := by
  cases a with
  | start x =>
    cases moved
    refine ⟨⟨?_, ?_⟩, List.Subset.refl _⟩
    · intro sent member
      rcases List.mem_append.1 member with old | new
      · exact h.uploads sent old
      · cases List.mem_singleton.1 new
        exact Upload.inv_start x
    · intro sent member
      rcases List.mem_append.1 member with old | new
      · exact h.kept sent old
      · cases List.mem_singleton.1 new
        exact trivial
  | upload i a =>
    simp only [History.step, Option.bind_eq_some_iff, Option.map_eq_some_iff] at moved
    obtain ⟨⟨x, u⟩, at_, u', moved, rfl⟩ := moved
    have member := List.mem_of_getElem? at_
    refine ⟨⟨?_, ?_⟩, List.subset_append_left _ _⟩
    · intro sent set
      rcases List.mem_or_eq_of_mem_set set with old | rfl
      · exact h.uploads sent old
      · exact Upload.inv_step (h.uploads (x, u) member) moved
    · intro sent set
      rcases List.mem_or_eq_of_mem_set set with old | rfl
      · exact (h.kept sent old).mono (List.subset_append_left _ _)
      · exact (h.kept (x, u) member).step (h.uploads (x, u) member) moved
  | foreign blob =>
    cases moved
    exact ⟨⟨h.uploads, fun sent member => (h.kept sent member).mono (List.subset_append_left _ _)⟩,
      List.subset_append_left _ _⟩

theorem inv_run {acts : List (Act aes)} (reached : run (History.step add) ({} : History aes ε) acts = some s) :
    Inv add s :=
  run_invariant ⟨by simp, by simp⟩ (fun _ _ _ h moved => (h.step moved).1) reached

/-- Nothing leaves the store. -/
theorem blobs_run (h : Inv add s) {acts : List (Act aes)} (reached : run (History.step add) s acts = some s') :
    Inv add s' ∧ s.blobs ⊆ s'.blobs := by
  refine run_invariant (I := fun s' => Inv add s' ∧ s.blobs ⊆ s'.blobs) ⟨h, List.Subset.refl _⟩ ?_ reached
  rintro m a m' ⟨inv, le⟩ moved
  obtain ⟨inv', le'⟩ := inv.step moved
  exact ⟨inv', List.Subset.trans le le'⟩

/-! ## Downloads -/

/-- The record of a client's file is small enough to come back in one piece. -/
def OnePiece (add : Bytes → Cid) (pieces : Bytes → List Bytes) (c : Client) : Prop :=
  ∀ record, File.toBinary { meta_ := some c.info.received, contentPath := (add c.content).text } = some record →
    pieces record = [record]

/-- A file whose id has been returned lies in the store, its record under the id. -/
theorem Inv.declared (h : Inv add s) (sent : (x, u) ∈ s.uploads) {id : String} (returned : u.received = some id) :
    x.client.content ∈ s.blobs ∧ ∃ record ∈ s.blobs, (add record).text = id ∧
      File.toBinary { meta_ := some x.client.info.received, contentPath := (add x.client.content).text } = some record := by
  obtain ⟨cid, declared, rfl, filed⟩ := (h.uploads (x, u) sent).answered returned
  have kept : Kept add s.blobs x u.store := h.kept (x, u) sent
  rw [declared] at kept
  obtain ⟨content, record, stored, recorded⟩ := kept
  rw [fileId, recorded, Option.map_some, Option.some.injEq] at filed
  exact ⟨content, record, stored, by rw [filed], recorded⟩

/-- It is served by every later store. -/
theorem Inv.served (h : Inv add s) (ipfs : Ipfs add pieces blobs) (sent : (x, u) ∈ s.uploads)
    (single : OnePiece add pieces x.client) {id : String} (returned : u.received = some id) :
    ∃ f : StoredFile, f.id.text = id ∧ f.info = x.client.info.received ∧ f.content = x.client.content ∧
      ∀ s' : History aes ε, s.blobs ⊆ s'.blobs → s'.blobs ⊆ blobs → Backend f true (s'.cat add pieces) := by
  obtain ⟨content, record, stored, rfl, recorded⟩ := h.declared sent returned
  refine ⟨{
    id := add record
    info := x.client.info.received
    contentPath := add x.client.content
    content := x.client.content
    record := record
    id_fits := ipfs.short record
    recorded := recorded }, rfl, rfl, rfl, fun s' le le' => ⟨?_, pieces x.client.content, ?_, ipfs.whole _⟩⟩
  · have found := ContentStore.find_stored (ipfs.apart.mono le') (le stored)
    rw [cat, found, Option.map_some, single record recorded]
  · have found := ContentStore.find_stored (ipfs.apart.mono le') (le content)
    rw [cat, found, Option.map_some]

/-- The two states that the requests of a download find, and the file in both. -/
theorem Inv.served_twice {acts later later' : List (Act aes)} {s₁ s₂ : History aes ε}
    (reached : run (History.step add) ({} : History aes ε) acts = some s)
    (then_ : run (History.step add) s later = some s₁) (then' : run (History.step add) s₁ later' = some s₂)
    (ipfs : Ipfs add pieces s₂.blobs) (sent : (x, u) ∈ s.uploads) (single : OnePiece add pieces x.client) {id : String}
    (returned : u.received = some id) :
    ∃ f : StoredFile, f.id.text = id ∧ f.info = x.client.info.received ∧ f.content = x.client.content ∧
      Backend f true (s₁.cat add pieces) ∧ Backend f true (s₂.cat add pieces) := by
  have inv := inv_run reached
  obtain ⟨inv₁, le₁⟩ := blobs_run inv then_
  obtain ⟨-, le₂⟩ := blobs_run inv₁ then'
  obtain ⟨f, same, info, content, served⟩ := inv.served ipfs sent single returned
  exact ⟨f, same, info, content, served s₁ le₁ le₂, served s₂ (List.Subset.trans le₁ le₂) (List.Subset.refl _)⟩

/-- **What an id stands for**: two uploads are answered with one id just when the box has read the same metadata (of
which the preview is no part) and they sent the same content, cut up however. -/
theorem same_id_iff {acts : List (Act aes)} (reached : run (History.step add) ({} : History aes ε) acts = some s)
    (apart : ContentStore.Apart (fun blob => (add blob).text) s.blobs) {x' : Transmission aes} {u' : Upload ε}
    (sent : (x, u) ∈ s.uploads) (sent' : (x', u') ∈ s.uploads) {id id' : String} (returned : u.received = some id)
    (returned' : u'.received = some id') :
    id = id' ↔ x.client.info.received = x'.client.info.received ∧ x.client.content = x'.client.content := by
  obtain ⟨content, record, stored, rfl, recorded⟩ := (inv_run reached).declared sent returned
  obtain ⟨content', record', stored', rfl, recorded'⟩ := (inv_run reached).declared sent' returned'
  constructor
  · intro same
    cases apart record stored record' stored' same
    have one := File.toBinary_inj recorded recorded'
    simp only [File.mk.injEq, Option.some.injEq] at one
    exact ⟨one.1, apart _ content _ content' one.2⟩
  · rintro ⟨info, content⟩
    rw [info, content, recorded', Option.some.injEq] at recorded
    rw [recorded]

/-! ## Encrypted files come back -/

/-- **An encrypted file comes back through the box**, at any later moment of its life: with the key and the iv it was
sent with, `receiveDecryptedFile` returns the file itself just when some of its metadata is not the default, neither
its name nor its type starts with U+FEFF and the padding does not fill its last block. -/
theorem receiveDecryptedFile_later {aesjs : AesJs} {symKey iv : Bytes} {file : WebFile} {blocks : List Bytes}
    {acts later later' : List (Act aes)} {s₁ s₂ : History aes ε} (lawful : aesjs.Lawful) (legal : LegalKey symKey)
    (chained : iv.length = 16) (encrypts : SendFile.sendContent aesjs symKey iv file.content = some blocks)
    (reached : run (History.step add) ({} : History aes ε) acts = some s)
    (then_ : run (History.step add) s later = some s₁) (then' : run (History.step add) s₁ later' = some s₂)
    (ipfs : Ipfs add pieces s₂.blobs) (sent : (x, u) ∈ s.uploads) (client : x.client = encrypted file blocks)
    (single : OnePiece add pieces x.client) {id : String} (returned : u.received = some id) :
    receiveDecryptedFile aesjs true (s₁.cat add pieces) (s₂.cat add pieces) id symKey iv =
        some { name := file.name, type := file.type, lastModified := file.lastModified, content := file.content } ↔
      ¬(file.name = "" ∧ file.type = "" ∧ file.content = [] ∧ file.lastModified = 0) ∧
        (¬Marked file.name ∧ ¬Marked file.type) ∧
        file.content.length % ReceiveDecrypted.encryptionBlockSize < ReceiveDecrypted.encryptionBlockSize - 16 := by
  obtain ⟨f, rfl, info, content, first, second⟩ := Inv.served_twice reached then_ then' ipfs sent single returned
  obtain ⟨blocks', full, last, sends, split, length, received⟩ :=
    ReceiveDecrypted.receive_sent lawful legal chained file.content
  rw [encrypts, Option.some.injEq] at sends
  subst sends
  obtain ⟨cs, got, whole⟩ := receiveContent_eq true second
  have all : cs.flatten = blocks.flatten := by
    rw [whole, if_pos rfl, content, client]
    rfl
  have header : x.client.info =
      { name := file.name, type := file.type, size := file.size, lastModified := file.lastModified } := by
    rw [client]
    rfl
  rw [receiveDecryptedFile, receiveMeta_eq first, got, info]
  simp only [true_and, Meta.toBinary_eq_nil, Option.bind_eq_bind]
  by_cases unmarked : x.client.info.Unmarked
  · have defaults : x.client.info = Meta.create ↔
        file.name = "" ∧ file.type = "" ∧ file.content = [] ∧ file.lastModified = 0 := by
      have size : file.size = 0 ↔ file.content = [] := by
        rw [← List.length_eq_zero_iff, Subtype.ext_iff]
        rfl
      rw [header]
      simp only [Meta.create, Meta.mk.injEq, size, and_true]
    have copied : x.client.info.name = file.name ∧ x.client.info.type = file.type ∧
        x.client.info.lastModified = file.lastModified := by
      rw [header]
      exact ⟨rfl, rfl, rfl⟩
    have plain : ¬Marked file.name ∧ ¬Marked file.type := by rwa [Meta.Unmarked, copied.1, copied.2.1] at unmarked
    rw [Meta.received_of_unmarked unmarked, Meta.received_of_unmarked unmarked, Meta.received_of_unmarked unmarked]
    by_cases default_ : x.client.info = Meta.create
    · rw [if_neg (not_not.2 default_)]
      simp only [Option.bind_none, reduceCtorEq, ← defaults, default_, not_true, false_and]
    · rw [if_pos default_]
      simp only [Option.bind_some, received cs all, Option.some.injEq, Received.mk.injEq, ← defaults, default_, copied,
        plain, not_false_eq_true, true_and]
      rw [← length]
      conv_lhs => rw [split]
      rw [List.append_cancel_left_eq, ReceiveDecrypted.returned_eq_iff lawful]
  · -- a mark that is lost does not come back
    constructor
    · intro same
      obtain ⟨seen, decoded, same⟩ := Option.bind_eq_some_iff.1 same
      split at decoded
      · cases decoded
        simp only [Option.bind_some, received cs all, Option.some.injEq, Received.mk.injEq] at same
        refine absurd (Meta.received_thrice.1 ?_) unmarked
        rw [header] at same ⊢
        exact Meta.mk.injEq .. ▸ ⟨same.1, same.2.1, rfl, rfl, rfl⟩
      · cases decoded
    · rintro ⟨-, plain, -⟩
      rw [header] at unmarked
      exact absurd plain unmarked

/-! ## The sample upload -/

def sampleHistory : List (Act noAes) := .start sampleUpload :: sampleActs.map fun act => .upload act.1 act.2

/-- An `ipfsNode.cat` that yields every content in one piece. -/
def onePiece (blob : Bytes) : List Bytes := [blob]

theorem sampleHistory_reached : ∃ (s : History noAes String) (u : Upload String),
    run (History.step sampleAdd) {} sampleHistory = some s ∧ (sampleUpload, u) ∈ s.uploads ∧
      u.received = some "QmNU3VBpaJ3g6yg7Spdc695TwLefaEP2XjvWg5pAH3oNxJ" ∧
      Ipfs sampleAdd onePiece s.blobs := by
  have ran : (run (History.step (ε := String) sampleAdd) {} sampleHistory).map
      (fun s => (s.uploads.map fun sent => (sent.1, sent.2.received), s.blobs)) =
        some ([(sampleUpload, some "QmNU3VBpaJ3g6yg7Spdc695TwLefaEP2XjvWg5pAH3oNxJ")],
          [[1, 2, 3], [10, 2, 24, 3, 18, 46] ++ encodeText "QmanYeBG6APPbZZgAgmzM9nkQpvcBRwAb8AYgdERwH6Amb"]) := by
    rfl
  obtain ⟨s, reached, seen⟩ := Option.map_eq_some_iff.1 ran
  rw [Prod.mk.injEq] at seen
  obtain ⟨⟨x, u⟩, only, seen'⟩ := List.map_eq_singleton_iff.1 seen.1
  rw [Prod.mk.injEq] at seen'
  obtain ⟨rfl, returned⟩ := seen'
  refine ⟨s, u, reached, by simp [only], returned, ?_, ?_, fun blob => by simp [onePiece]⟩
  · rw [seen.2]
    decide
  · intro blob
    unfold sampleAdd
    split <;> decide

theorem same_id_iff_sample :
    ∃ (s : History noAes String) (u : Upload String), run (History.step sampleAdd) {} sampleHistory = some s ∧
      (sampleUpload, u) ∈ s.uploads ∧
      ("QmNU3VBpaJ3g6yg7Spdc695TwLefaEP2XjvWg5pAH3oNxJ" = "QmNU3VBpaJ3g6yg7Spdc695TwLefaEP2XjvWg5pAH3oNxJ" ↔
        sampleUpload.client.info.received = sampleUpload.client.info.received ∧
          sampleUpload.client.content = sampleUpload.client.content) := by
  obtain ⟨s, u, reached, sent, returned, ipfs⟩ := sampleHistory_reached
  exact ⟨s, u, reached, sent, same_id_iff reached ipfs.apart sent sent returned returned⟩

/-- Fifteen bytes, one less than a block of the cipher. -/
def secretFile : WebFile where
  name := ""
  type := ""
  lastModified := 0
  content := ReceiveDecrypted.sampleIv.take 15
  size_safe := by decide

theorem secretFile_encrypts : SendFile.sendContent ReceiveDecrypted.sampleAes ReceiveDecrypted.sampleKey
    ReceiveDecrypted.sampleIv secretFile.content = some [ReceiveDecrypted.sampleIv] := by
  have padded : ReceiveDecrypted.sampleAes.pad secretFile.content = secretFile.content ++ [1] := by rfl
  have enciphered : ReceiveDecrypted.sampleAes.encrypt ReceiveDecrypted.sampleKey ReceiveDecrypted.sampleIv
      (secretFile.content ++ [1]) = some ReceiveDecrypted.sampleIv := by
    have length : (secretFile.content ++ [1]).length = 16 := by decide
    have block := @Cbc.encrypt_block 16
      (.exchange (by decide) ReceiveDecrypted.sampleBlock ReceiveDecrypted.sampleIv rfl rfl) ReceiveDecrypted.sampleIv _ []
      length
    rw [List.append_nil, Cbc.encrypt_nil, List.append_nil] at block
    have fits : LegalKey ReceiveDecrypted.sampleKey ∧ ReceiveDecrypted.sampleIv.length = 16 ∧
        16 ∣ (secretFile.content ++ [1]).length := by decide
    exact (if_pos (e := none) fits).trans (congrArg some block)
  have block : SendFile.sendBlock ReceiveDecrypted.sampleAes ReceiveDecrypted.sampleKey ReceiveDecrypted.sampleIv
      secretFile.content 0 SendFile.encryptionBlockSize = some ReceiveDecrypted.sampleIv := by
    have slice : secretFile.content.extract 0 SendFile.encryptionBlockSize = secretFile.content := by rfl
    simp only [SendFile.sendBlock]
    rw [if_pos (by decide), if_pos (by decide), slice, padded, enciphered]
  rw [SendFile.sendContent, SendFile.sendBlocks_more (.inr rfl), block, Option.bind_some,
    SendFile.sendBlocks_end (by decide) (by decide), Option.map_some]

def secretUpload : Transmission noAes where
  client := encrypted secretFile [ReceiveDecrypted.sampleIv]
  header := [26, 2, 24, 15]
  body := [ReceiveDecrypted.sampleIv.take 8, ReceiveDecrypted.sampleIv.drop 8]
  headerSent := rfl
  bodySent := ⟨_, rfl, rfl⟩

def secretAdd (bs : Bytes) : Cid :=
  if bs = ReceiveDecrypted.sampleIv then sampleAdd [1, 2, 3] else sampleAdd []

def secretHistory : List (Act noAes) := .start secretUpload :: sampleActs.map fun act => .upload act.1 act.2

theorem receiveDecryptedFile_later_sample :
    ∃ s : History noAes String, run (History.step secretAdd) {} secretHistory = some s ∧
      (receiveDecryptedFile ReceiveDecrypted.sampleAes true (s.cat secretAdd onePiece) (s.cat secretAdd onePiece)
          "QmNU3VBpaJ3g6yg7Spdc695TwLefaEP2XjvWg5pAH3oNxJ" ReceiveDecrypted.sampleKey ReceiveDecrypted.sampleIv =
        some { name := "", type := "", lastModified := 0, content := secretFile.content } ↔
      ¬(secretFile.name = "" ∧ secretFile.type = "" ∧ secretFile.content = [] ∧ secretFile.lastModified = 0) ∧
        (¬Marked secretFile.name ∧ ¬Marked secretFile.type) ∧
        secretFile.content.length % ReceiveDecrypted.encryptionBlockSize < ReceiveDecrypted.encryptionBlockSize - 16) := by
  have ran : (run (History.step (ε := String) secretAdd) {} secretHistory).map
      (fun s => (s.uploads.map fun sent => (sent.1, sent.2.received), s.blobs)) =
        some ([(secretUpload, some "QmNU3VBpaJ3g6yg7Spdc695TwLefaEP2XjvWg5pAH3oNxJ")], [ReceiveDecrypted.sampleIv,
          [10, 2, 24, 15, 18, 46] ++ encodeText "QmanYeBG6APPbZZgAgmzM9nkQpvcBRwAb8AYgdERwH6Amb"]) := by
    rfl
  obtain ⟨s, reached, seen⟩ := Option.map_eq_some_iff.1 ran
  rw [Prod.mk.injEq] at seen
  obtain ⟨⟨x, u⟩, only, seen'⟩ := List.map_eq_singleton_iff.1 seen.1
  rw [Prod.mk.injEq] at seen'
  obtain ⟨rfl, returned⟩ := seen'
  have ipfs : Ipfs secretAdd onePiece s.blobs := by
    refine ⟨by rw [seen.2]; decide, fun blob => ?_, fun blob => by simp [onePiece]⟩
    unfold secretAdd
    split <;> decide
  have still : run (History.step secretAdd) s [] = some s := rfl
  have sent : (secretUpload, u) ∈ s.uploads := by simp [only]
  exact ⟨s, reached, receiveDecryptedFile_later (AesJs.ofCipher_lawful _) (by decide) (by decide) secretFile_encrypts
    reached still still ipfs sent rfl (fun _ _ => rfl) returned⟩

end History

end Fula.FileProtocol
