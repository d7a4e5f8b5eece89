import Fula.FileProtocol.Schema

/-!
# Downloads: the retrieval methods, `handler` and `receiveFile`

`receiveFile` makes two requests on two streams, one for the metadata and one
for the content. On the box the method that `registerFile` installed looks the
record of the id up; what fails there is caught and logged, and the method
returns `undefined`. `handler` writes `Response.EMPTY` in place of an
`undefined` response, and the client reads what comes as metadata or content.
-/

namespace Fula.FileProtocol
set_option autoImplicit false
open Lib Lib.Wire Schema

/-! ## The box -/

/-- `ipfsNode.cat`: the chunks behind a path, or an exception. -/
abbrev Cat := String → Option (List Bytes)

/-- The first chunk of the record, decoded; `none` is an exception, which both
methods catch, or a record of no chunks. -/
def lookup (cat : Cat) (id : String) : Option File :=
  ((cat id).bind List.head?).bind File.fromBinary

/-- `Promise<AsyncIterable | undefined>`. -/
inductive Response where
  /-- The promise rejects, or the iterable throws before its first value. -/
  | rejected
  | undefined
  | chunks (cs : List Bytes)
  deriving DecidableEq

/-- `getMeta`, with the method of `registerFile`. -/
def getMeta (cat : Cat) (id : String) : Response :=
  match (lookup cat id).bind (·.meta_) with
  | none => .undefined
  | some info => match info.toBinary with
    | none => .rejected
    | some binary => .chunks [binary]

/-- `retrieve`, with the method of `registerFile`; the range is not used. -/
def retrieve (cat : Cat) (chunk : Chunk) : Response :=
  match lookup cat chunk.id with
  | none => .undefined
  | some file => match cat file.contentPath with
    | none => .rejected
    | some cs => .chunks cs

/-- `Response.EMPTY` as it is written. -/
def emptyResponse : Bytes := encodeText "Empty response"

/-- What `handler` writes to the stream of a download request. -/
def handler (cat : Cat) (message : Bytes) : List Bytes :=
  let response := match Request.fromBinary message with
    | some (.meta_ id) => getMeta cat id
    | some (.receive chunk) => retrieve cat chunk
    | some _ => .undefined
    | none => .rejected
  match response with
  | .rejected => []
  | .undefined => [emptyResponse]
  | .chunks cs => cs

/-! ## The client -/

/-- What the client's stream delivers of the written messages; the transport
may drop empty ones. -/
def deliver (dropsEmpty : Bool) (written : List Bytes) : List Bytes :=
  if dropsEmpty then written.filter (· ≠ []) else written

/-- `receiveMeta`: every message is decoded, and the last one counts. -/
def receiveMeta (dropsEmpty : Bool) (cat : Cat) (id : String) : Option Meta := do
  let request ← (Request.meta_ id).toBinary
  let metas ← (deliver dropsEmpty (handler cat request)).mapM Meta.fromBinary
  metas.getLast?

/-- `receiveContent`, without a range. -/
def receiveContent (dropsEmpty : Bool) (cat : Cat) (id : String) : Option (List Bytes) := do
  let request ← (Request.receive { id }).toBinary
  some (deliver dropsEmpty (handler cat request))

/-- The `File` that `receiveFile` makes. -/
structure Received where
  name : String
  type : String
  lastModified : SafeInt
  content : Bytes

/-- `receiveFile`; the two requests may find the store in different states. -/
def receiveFile (dropsEmpty : Bool) (catMeta catContent : Cat) (id : String) : Option Received := do
  let info ← receiveMeta dropsEmpty catMeta id
  let content ← receiveContent dropsEmpty catContent id
  some { name := info.name, type := info.type, lastModified := info.lastModified, content := content.flatten }

/-! ## A stored file -/

/-- A file as `registerFile` stores it: its record, with metadata, and its content. -/
structure StoredFile where
  id : Cid
  info : Meta
  contentPath : Cid
  content : Bytes
  /-- The bytes of the record. -/
  record : Bytes
  /-- Ids are short. -/
  id_fits : (encodeText id.text).length < 2 ^ 31
  recorded : File.toBinary { meta_ := some info, contentPath := contentPath.text } = some record

/-- What the box reads of its record. -/
def StoredFile.file (f : StoredFile) : File := { meta_ := some f.info.received, contentPath := f.contentPath.text }

/-- The store serves the file to a request, or the lookup of its record fails. -/
def Backend (f : StoredFile) (ok : Bool) (cat : Cat) : Prop :=
  if ok then cat f.id.text = some [f.record] ∧ ∃ cs, cat f.contentPath.text = some cs ∧ cs.flatten = f.content
  else lookup cat f.id.text = none

section
variable {f : StoredFile} {ok dropsEmpty : Bool} {cat : Cat}

theorem StoredFile.file_read (f : StoredFile) : File.fromBinary f.record = some f.file := by
  rw [File.fromBinary_toBinary f.recorded, File.received, File.texts, Cid.unmark_text]
  rfl

theorem Backend.lookup (h : Backend f true cat) : FileProtocol.lookup cat f.id.text = some f.file := by
  rw [FileProtocol.lookup, h.1]
  exact f.file_read

/-- The metadata of a stored record is written again as it is read. -/
theorem StoredFile.info_written (f : StoredFile) : ∃ binary, f.info.received.toBinary = some binary := by
  have recorded := f.recorded
  simp only [File.toBinary, Option.bind_eq_bind, Option.bind_eq_some_iff] at recorded
  obtain ⟨written, field, -⟩ := recorded
  simp only [fieldUnless, Option.isNone_some, Bool.false_eq_true, if_false, Option.bind_some, Option.map_eq_some_iff,
    Option.bind_eq_some_iff] at field
  obtain ⟨value, ⟨binary, wrote, -⟩, -⟩ := field
  exact Meta.received_written wrote

/-- The id comes to the handler as it is asked for. -/
theorem StoredFile.meta_requested (f : StoredFile) : ∃ request, (Request.meta_ f.id.text).toBinary = some request ∧
    Request.fromBinary request = some (.meta_ f.id.text) := by
  have fits := f.id_fits
  obtain ⟨id, written, -⟩ := lengthDelimited_fits (show (encodeText f.id.text).length < 2 ^ 32 by omega)
  obtain ⟨request, whole, -⟩ := fieldUnless_fits false 1 .lengthDelimited written
  have requested : (Request.meta_ f.id.text).toBinary = some request := whole
  exact ⟨request, requested, by rw [Request.fromBinary_toBinary requested, Request.received, Cid.unmark_text]⟩

theorem StoredFile.content_requested (f : StoredFile) (skip limit : Option SafeNat) :
    ∃ request, (Request.receive { id := f.id.text, skip, limit }).toBinary = some request ∧
      Request.fromBinary request = some (.receive { id := f.id.text, skip, limit }) := by
  have fits := f.id_fits
  have position : ∀ (no : Nat) (n : Option SafeNat), ∃ field,
      fieldUnless n.isNone no .varint (n.map fun n => varint n.1) = some field ∧ field.length ≤ 20 := by
    intro no n
    cases n with
    | none => exact ⟨[], rfl, by decide⟩
    | some n =>
      obtain ⟨field, wrote, short⟩ := fieldUnless_fits false no .varint (v := varint n.1) rfl
      have digits := groups_length_le 10 n.1
      exact ⟨field, wrote, by rw [varint] at short; omega⟩
  obtain ⟨id, written, short⟩ := lengthDelimited_fits (show (encodeText f.id.text).length < 2 ^ 32 by omega)
  obtain ⟨b1, field1, short1⟩ := fieldUnless_fits (f.id.text = "") 1 .lengthDelimited written
  obtain ⟨b2, field2, short2⟩ := position 2 skip
  obtain ⟨b3, field3, short3⟩ := position 3 limit
  have chunk : Chunk.toBinary { id := f.id.text, skip, limit } = some (b1 ++ (b2 ++ b3)) := by
    simp only [Chunk.toBinary, Option.bind_eq_bind, string, field1, field2, field3, Option.bind_some]
  obtain ⟨value, delimited, -⟩ := lengthDelimited_fits (show (b1 ++ (b2 ++ b3)).length < 2 ^ 32 by
    rw [List.length_append, List.length_append]; omega)
  obtain ⟨request, whole, -⟩ := fieldUnless_fits false 2 .lengthDelimited delimited
  have requested : (Request.receive { id := f.id.text, skip, limit }).toBinary = some request := by
    rw [Request.toBinary, chunk, Option.bind_some]
    exact whole
  refine ⟨request, requested, ?_⟩
  rw [Request.fromBinary_toBinary requested, Request.received, Chunk.received, Cid.unmark_text]

/-- No metadata can be read from the placeholder: it starts with unknown fields
and ends inside a group. -/
theorem emptyResponse_no_meta : Meta.fromBinary emptyResponse = none := by rfl

theorem deliver_one {dropsEmpty : Bool} {message : Bytes} (some_ : dropsEmpty = true → message ≠ []) :
    deliver dropsEmpty [message] = [message] := by
  cases dropsEmpty with
  | false => rfl
  | true => simp [deliver, some_ rfl]

theorem deliver_flatten (dropsEmpty : Bool) (written : List Bytes) :
    (deliver dropsEmpty written).flatten = written.flatten := by
  cases dropsEmpty with
  | false => rfl
  | true =>
    induction written with
    | nil => rfl
    | cons message written ih =>
      by_cases empty : message = []
      · simpa [deliver, empty] using ih
      · simpa [deliver, empty] using ih

/-! ### The two requests -/

/-- The metadata of a record that is found: the client decodes once more what
the box has decoded. -/
theorem receiveMeta_found (found : FileProtocol.lookup cat f.id.text = some f.file) :
    receiveMeta dropsEmpty cat f.id.text =
      if dropsEmpty = true ∧ f.info.received.toBinary = some [] then none else some f.info.received.received := by
  obtain ⟨request, requested, read⟩ := f.meta_requested
  obtain ⟨binary, written⟩ := f.info_written
  rw [receiveMeta, requested]
  simp only [Option.bind_eq_bind, Option.bind_some, handler, read, getMeta, found, StoredFile.file, written,
    Option.some.injEq]
  by_cases dropped : dropsEmpty = true ∧ binary = []
  · obtain ⟨rfl, rfl⟩ := dropped
    simp [deliver]
  · rw [if_neg dropped, deliver_one fun drops empty => dropped ⟨drops, empty⟩]
    simp [Meta.fromBinary_toBinary written]

/-- The metadata request: it rejects when the lookup fails. -/
theorem receiveMeta_eq (h : Backend f ok cat) :
    receiveMeta dropsEmpty cat f.id.text =
      if ok = true ∧ ¬ (dropsEmpty = true ∧ f.info.received.toBinary = some []) then some f.info.received.received
      else none := by
  cases ok with
  | true =>
    rw [receiveMeta_found h.lookup]
    by_cases dropped : dropsEmpty = true ∧ f.info.received.toBinary = some []
    · rw [if_pos dropped, if_neg fun both => both.2 dropped]
    · rw [if_neg dropped, if_pos ⟨rfl, dropped⟩]
  | false =>
    obtain ⟨request, requested, read⟩ := f.meta_requested
    have missing : lookup cat f.id.text = none := h
    have placeholder : emptyResponse ≠ [] := by decide
    rw [receiveMeta, requested]
    simp only [Option.bind_eq_bind, Option.bind_some, handler, read, getMeta, missing, Option.bind_none]
    rw [deliver_one fun _ => placeholder]
    simp [emptyResponse_no_meta]

/-- The content request: a failed lookup is answered with the placeholder. -/
theorem receiveContent_eq (dropsEmpty : Bool) (h : Backend f ok cat) :
    ∃ cs, receiveContent dropsEmpty cat f.id.text = some cs ∧
      cs.flatten = if ok = true then f.content else emptyResponse := by
  obtain ⟨request, requested, read⟩ := f.content_requested none none
  refine ⟨_, by rw [receiveContent, requested]; rfl, ?_⟩
  rw [deliver_flatten, handler, read]
  cases ok with
  | true =>
    obtain ⟨cs, served, whole⟩ := h.2
    simp only [retrieve, h.lookup, StoredFile.file, served, whole, if_true]
  | false =>
    have missing : lookup cat f.id.text = none := h
    simp [retrieve, missing]

/-- **`receiveFile` rejects or returns the stored content, unless only the
content request fails.** The bytes of the placeholder are the one content for
which that goes unnoticed. -/
theorem receiveFile_content {metaOk contentOk : Bool} {catMeta catContent : Cat} (found : Backend f metaOk catMeta)
    (served : Backend f contentOk catContent) :
    (∀ file, receiveFile dropsEmpty catMeta catContent f.id.text = some file → file.content = f.content) ↔
      metaOk = false ∨ (dropsEmpty = true ∧ f.info.received.toBinary = some []) ∨ contentOk = true ∨
        f.content = emptyResponse := by
  obtain ⟨cs, got, whole⟩ := receiveContent_eq dropsEmpty served
  rw [receiveFile, receiveMeta_eq found, got]
  by_cases read : metaOk = true ∧ ¬ (dropsEmpty = true ∧ f.info.received.toBinary = some [])
  · obtain ⟨isFound, notDropped⟩ := read
    rw [if_pos ⟨isFound, notDropped⟩]
    simp only [Option.bind_eq_bind, Option.bind_some, Option.some.injEq, whole, forall_eq', isFound, Bool.true_eq_false,
      notDropped, false_or]
    cases contentOk with
    | true => simp
    | false =>
      simp only [Bool.false_eq_true, if_false, false_or]
      exact eq_comm
  · rw [if_neg read]
    constructor
    · intro _
      cases metaOk with
      | false => exact .inl rfl
      | true => exact .inr (.inl (not_not.1 fun dropped => read ⟨rfl, dropped⟩))
    · intro _ file returned
      cases returned

end

/-- Two bytes, stored under the id of their record. -/
def sampleStored : StoredFile where
  id := { text := "QmYwAPJzv5CZsnA625s3Xf2nemtYgPpHdWEz79ojWKPbdG" }
  info := { name := "", type := "", size := ⟨2, by decide⟩, lastModified := 0 }
  contentPath := { text := "QmTkzDwWqPbnAh5YiV5VwcTLnGdwSNsNTn2aDxdXBFca7D" }
  content := [1, 2]
  record := [10, 2, 24, 2, 18, 46] ++ encodeText "QmTkzDwWqPbnAh5YiV5VwcTLnGdwSNsNTn2aDxdXBFca7D"
  id_fits := by decide
  recorded := by rfl

/-- A store that has the file. -/
def sampleCat : Cat := fun path =>
  if path = sampleStored.id.text then some [sampleStored.record]
  else if path = sampleStored.contentPath.text then some [[1], [2]]
  else none

theorem sampleCat_serves : Backend sampleStored true sampleCat :=
  ⟨rfl, [[1], [2]], rfl, rfl⟩

theorem receiveFile_content_sample :
    (∀ file, receiveFile true sampleCat sampleCat sampleStored.id.text = some file → file.content = sampleStored.content) ↔
      true = false ∨ (true = true ∧ sampleStored.info.received.toBinary = some []) ∨ true = true ∨
        sampleStored.content = emptyResponse :=
  receiveFile_content sampleCat_serves sampleCat_serves

/-- The store fails on the second request, and the placeholder comes back as
the file. -/
theorem placeholder_returned :
    Backend sampleStored true sampleCat ∧ Backend sampleStored false (fun _ => none) ∧
      ∃ file, receiveFile true sampleCat (fun _ => none) sampleStored.id.text = some file ∧
        file.content = emptyResponse ∧ file.content ≠ sampleStored.content := by
  refine ⟨sampleCat_serves, rfl, _, rfl, rfl, ?_⟩
  decide

end Fula.FileProtocol
