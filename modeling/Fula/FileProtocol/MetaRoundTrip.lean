import Fula.FileProtocol.Uploads
import Fula.FileProtocol.Retrieve

/-!
# Metadata from an upload back to a client

`streamFile` copies four of the five fields of its `meta` into the header, the
box stores them in the record of the file, and `receiveMeta` reads them out of
it again. The preview is not copied. Metadata that has a default value in
every field is an empty message, which the transport does not deliver. On its
way the metadata is decoded three times, each time without a U+FEFF in front
of the name or the type.
-/

namespace Fula.FileProtocol
set_option autoImplicit false
open Lib Schema

namespace Schema.Meta

/-- The only metadata written as no bytes at all. -/
theorem toBinary_eq_nil {m : Meta} : m.toBinary = some [] ↔ m = create := by
  constructor
  · exact fun wrote => toBinary_inj wrote rfl
  · rintro rfl
    rfl

end Schema.Meta

section
variable {ε : Type} {aes : AesJs} {add : Bytes → Cid} {cat : Cat}

/-- The store keeps the record of the upload, and ids are short. -/
structure Keeps (add : Bytes → Cid) (cat : Cat) (client : Client) : Prop where
  served : ∀ record,
    File.toBinary { meta_ := some client.info.received, contentPath := (add client.content).text } = some record →
    cat (add record).text = some [record]
  short : ∀ bytes, (encodeText (add bytes).text).length < 2 ^ 31

/-- What `receiveMeta` makes of the id of an uploaded file. -/
theorem receiveMeta_fileId {client : Client} {id : Cid} (keeps : Keeps add cat client)
    (filed : fileId add client.info.received client.content = some id) :
    receiveMeta true cat id.text =
      if client.info.received.received = Meta.create then none else some client.info.received.received.received := by
  obtain ⟨record, recorded, rfl⟩ := Option.map_eq_some_iff.1 filed
  let f : StoredFile := {
    id := add record
    info := client.info.received
    contentPath := add client.content
    content := client.content
    record := record
    id_fits := keeps.short record
    recorded := recorded }
  have found : lookup cat f.id.text = some f.file := by
    rw [lookup, keeps.served record recorded]
    exact f.file_read
  have received : receiveMeta true cat f.id.text = _ := receiveMeta_found found
  simpa only [true_and, Meta.toBinary_eq_nil] using received

/-- **Which metadata comes back**: for every `streamFile` among any uploads,
`receiveMeta` of the id it returned is its `meta` exactly when there is no
preview in it, not all of its fields have their defaults, and neither its name
nor its type starts with U+FEFF. -/
theorem receiveMeta_streamFile {xs : List (Transmission aes)} {acts : List (Nat × Upload.Act)} {us : List (Upload ε)}
    (reached : run (each (Upload.step add)) (xs.map Upload.start) acts = some us) {i : Nat} {x : Transmission aes}
    {u : Upload ε} (sent : xs[i]? = some x) (at_ : us[i]? = some u) {source : List Bytes} {info : Meta}
    (client : x.client = .streamFile source info) (keeps : Keeps add cat x.client) {id : String}
    (returned : u.received = some id) :
    receiveMeta true cat id = some info ↔ info.preview = none ∧ info ≠ Meta.create ∧ info.Unmarked := by
  obtain ⟨cid, -, rfl, filed⟩ := (Upload.inv_each reached sent at_).answered returned
  have header : x.client.info = { info with preview := none } := by rw [client]; rfl
  rw [receiveMeta_fileId keeps filed, header]
  constructor
  · intro same
    split at same
    · cases same
    · next some_ =>
      have copied := Option.some.inj same
      have none : info.preview = none := by rw [← copied]; rfl
      rw [show { info with preview := Option.none } = info by rw [← none]] at copied some_
      have unmarked := Meta.received_thrice.1 copied
      rw [Meta.received_of_unmarked unmarked, Meta.received_of_unmarked unmarked] at some_
      exact ⟨none, some_, unmarked⟩
  · rintro ⟨none, some_, unmarked⟩
    have copied : { info with preview := Option.none } = info := by rw [← none]
    rw [copied, Meta.received_of_unmarked unmarked, Meta.received_of_unmarked unmarked,
      Meta.received_of_unmarked unmarked, if_neg some_]

end

/-- The store after the sample upload: the record of its three bytes. -/
def recordCat : Cat := fun path =>
  if path = "QmNU3VBpaJ3g6yg7Spdc695TwLefaEP2XjvWg5pAH3oNxJ" then
    some [[10, 2, 24, 3, 18, 46] ++ encodeText "QmanYeBG6APPbZZgAgmzM9nkQpvcBRwAb8AYgdERwH6Amb"]
  else none

theorem recordCat_keeps {client : Client} (info : client.info.received = sampleUpload.client.info)
    (content : client.content = [1, 2, 3]) : Keeps sampleAdd recordCat client where
  served record recorded := by
    rw [info, content] at recorded
    have written : record = [10, 2, 24, 3, 18, 46] ++ encodeText "QmanYeBG6APPbZZgAgmzM9nkQpvcBRwAb8AYgdERwH6Amb" :=
      Option.some.inj (recorded.symm.trans rfl)
    subst written
    rfl
  short bytes := by
    unfold sampleAdd
    split <;> decide

/-- The sample upload has no preview. -/
theorem receiveMeta_streamFile_sample :
    receiveMeta true recordCat "QmNU3VBpaJ3g6yg7Spdc695TwLefaEP2XjvWg5pAH3oNxJ" = some sampleUpload.client.info ↔
      sampleUpload.client.info.preview = none ∧ sampleUpload.client.info ≠ Meta.create ∧
        sampleUpload.client.info.Unmarked := by
  have ran : (run (each (Upload.step (ε := String) sampleAdd)) ([sampleUpload].map Upload.start) sampleActs).map
      (·.map (·.received)) = some [some "QmNU3VBpaJ3g6yg7Spdc695TwLefaEP2XjvWg5pAH3oNxJ"] := by
    rfl
  obtain ⟨us, reached, received⟩ := Option.map_eq_some_iff.1 ran
  obtain ⟨u, rfl, returned⟩ := List.map_eq_singleton_iff.1 received
  exact receiveMeta_streamFile (i := 0) reached rfl rfl rfl (recordCat_keeps rfl rfl) returned

/-- Metadata with a preview. -/
def previewMeta : Meta := { sampleUpload.client.info with preview := some [7] }

def previewUpload : Transmission noAes := { sampleUpload with client := .streamFile [[1], [2, 3]] previewMeta }

/-- The metadata comes back without its preview. -/
theorem preview_lost :
    ∃ us : List (Upload String), run (each (Upload.step sampleAdd)) ([previewUpload].map Upload.start) sampleActs = some us ∧
      us.map (·.received) = [some "QmNU3VBpaJ3g6yg7Spdc695TwLefaEP2XjvWg5pAH3oNxJ"] ∧
      Keeps sampleAdd recordCat previewUpload.client ∧
      receiveMeta true recordCat "QmNU3VBpaJ3g6yg7Spdc695TwLefaEP2XjvWg5pAH3oNxJ" =
        some { previewMeta with preview := none } ∧
      some { previewMeta with preview := none } ≠ some previewMeta := by
  have ran : (run (each (Upload.step (ε := String) sampleAdd)) ([previewUpload].map Upload.start) sampleActs).map
      (·.map (·.received)) = some [some "QmNU3VBpaJ3g6yg7Spdc695TwLefaEP2XjvWg5pAH3oNxJ"] := by
    rfl
  obtain ⟨us, reached, received⟩ := Option.map_eq_some_iff.1 ran
  exact ⟨us, reached, received, recordCat_keeps rfl rfl, rfl, by decide⟩

end Fula.FileProtocol
