import Fula.Lib.Wire
import Fula.FileProtocol.AesJs

/-!
# The messages of the file protocol

`schema/index.ts`: for each message type its fields, `internalBinaryRead` and
`internalBinaryWrite`. A field is read by its number alone, whatever its wire
type; a field with its default value is not written. What the runtime keeps of
unknown fields is left out.

The reader's text decoder drops a byte order mark, so that a message comes with
each of its strings unmarked: `received`. The readers are given the decoder, as
the runtime's are; one that keeps the mark shows that no two messages are
written alike.
-/

namespace Fula.FileProtocol
set_option autoImplicit false

/-- A content id, as text; it does not start with U+FEFF. -/
structure Cid where
  text : String
  unmarked : ¬Lib.Marked text := by decide

@[simp] theorem Cid.unmark_text (id : Cid) : Lib.unmark id.text = id.text := Lib.unmark_eq_self.2 id.unmarked

namespace Schema
open Lib Lib.Wire

def maxSafeInteger : Nat := 9007199254740991

/-- A JavaScript number that is a natural number below `2 ^ 53`. -/
abbrev SafeNat := {n : Nat // n ≤ maxSafeInteger}

/-- A JavaScript number that is an integer of absolute value below `2 ^ 53`. -/
abbrev SafeInt := {i : Int // i.natAbs ≤ maxSafeInteger}

instance : OfNat SafeNat 0 := ⟨⟨0, Nat.zero_le _⟩⟩
instance : OfNat SafeInt 0 := ⟨⟨0, Nat.zero_le _⟩⟩

/-- `reader.uint64().toNumber()` -/
def readSafeNat (bs : Bytes) : Option (SafeNat × Bytes) :=
  (readUint64 bs).bind fun (n, rest) => if safe : n ≤ maxSafeInteger then some (⟨n, safe⟩, rest) else none

/-- `reader.int64().toNumber()` -/
def readSafeInt (bs : Bytes) : Option (SafeInt × Bytes) :=
  (readInt64 bs).bind fun (i, rest) => if safe : i.natAbs ≤ maxSafeInteger then some (⟨i, safe⟩, rest) else none

theorem readSafeNat_varint (n : SafeNat) (rest : Bytes) : readSafeNat (varint n.1 ++ rest) = some (n, rest) := by
  have safe := n.2
  have fits : n.1 < 2 ^ 64 := by simp only [maxSafeInteger] at safe; omega
  rw [readSafeNat, readUint64_varint fits]
  exact dif_pos safe

theorem readSafeInt_int64 (i : SafeInt) (rest : Bytes) : readSafeInt (int64 i.1 ++ rest) = some (i, rest) := by
  have safe := i.2
  have fits : -2 ^ 63 ≤ i.1 ∧ i.1 < 2 ^ 63 := by simp only [maxSafeInteger] at safe; omega
  rw [readSafeInt, readInt64_int64 fits.1 fits.2]
  exact dif_pos safe

/-! ## Meta -/

structure Meta where
  name : String
  type : String
  size : SafeNat
  lastModified : SafeInt
  preview : Option Bytes := none
  deriving DecidableEq

namespace Meta

def create : Meta := { name := "", type := "", size := 0, lastModified := 0 }

def readField (decode : TextDecoder) : FieldReader Meta
  | m, 1, _, bs => (readString decode bs).map fun (name, rest) => ({ m with name }, rest)
  | m, 2, _, bs => (readString decode bs).map fun (type, rest) => ({ m with type }, rest)
  | m, 3, _, bs => (readSafeNat bs).map fun (size, rest) => ({ m with size }, rest)
  | m, 4, _, bs => (readSafeInt bs).map fun (lastModified, rest) => ({ m with lastModified }, rest)
  | m, 5, _, bs => (readBytes bs).map fun (preview, rest) => ({ m with preview := some preview }, rest)
  | m, _, wireType, bs => (skipField wireType bs).map fun rest => (m, rest)

def toBinary (m : Meta) : Option Bytes := do
  let name ← fieldUnless (m.name = "") 1 .lengthDelimited (string m.name)
  let type ← fieldUnless (m.type = "") 2 .lengthDelimited (string m.type)
  let size ← fieldUnless (m.size = 0) 3 .varint (some (varint m.size.1))
  let lastModified ← fieldUnless (m.lastModified = 0) 4 .varint (some (int64 m.lastModified.1))
  let preview ← fieldUnless m.preview.isNone 5 .lengthDelimited (m.preview.bind lengthDelimited)
  some (name ++ (type ++ (size ++ (lastModified ++ preview))))

def fromBinary (bs : Bytes) : Option Meta := Lib.Wire.fromBinary (readField decodeText) create bs

/-- The message with `seen` of its strings. -/
def texts (seen : String → String) (m : Meta) : Meta := { m with name := seen m.name, type := seen m.type }

/-- As it is read: a U+FEFF in front of a string is lost. -/
def received (m : Meta) : Meta := m.texts unmark

/-- Neither of its strings starts with U+FEFF. -/
def Unmarked (m : Meta) : Prop := ¬Marked m.name ∧ ¬Marked m.type

theorem received_of_unmarked {m : Meta} (unmarked : m.Unmarked) : m.received = m := by
  rw [received, texts, unmark_eq_self.2 unmarked.1, unmark_eq_self.2 unmarked.2]

/-- A message that is decoded, written and decoded again, three times in all. -/
theorem received_thrice {m : Meta} : m.received.received.received = m ↔ m.Unmarked := by
  obtain ⟨name, type, size, lastModified, preview⟩ := m
  simp only [received, texts, Meta.mk.injEq, unmark_thrice, and_true, Unmarked]

theorem fields {decode : TextDecoder} {seen : String → String} (decodes : Decodes decode seen) {m : Meta} {bs : Bytes}
    (wrote : m.toBinary = some bs) : Fields (readField decode) create bs (m.texts seen) := by
  obtain ⟨name, type, size, lastModified, preview⟩ := m
  simp only [toBinary, Option.bind_eq_bind, Option.bind_eq_some_iff] at wrote
  obtain ⟨b1, field1, b2, field2, b3, field3, b4, field4, b5, field5, whole⟩ := wrote
  cases whole
  have read1 : Fields (readField decode) create b1 { create with name := seen name } :=
    text_fields decodes (fun name => ({ create with name } : Meta)) field1 (by decide) (by decide) fun _ => rfl
  have read2 : Fields (readField decode) { create with name := seen name } b2
      { create with name := seen name, type := seen type } :=
    text_fields decodes (fun type => ({ create with name := seen name, type } : Meta)) field2 (by decide) (by decide)
      fun _ => rfl
  have read3 : Fields (readField decode) { create with name := seen name, type := seen type } b3
      { create with name := seen name, type := seen type, size } := by
    apply scalar_fields (fun size => ({ create with name := seen name, type := seen type, size } : Meta)) field3
      (by decide) (by decide) id
    rintro v ⟨rfl⟩ rest
    simp only [readField, readSafeNat_varint, Option.map_some]
  have read4 : Fields (readField decode) { create with name := seen name, type := seen type, size } b4
      { create with name := seen name, type := seen type, size, lastModified } := by
    apply scalar_fields
      (fun lastModified => ({ create with name := seen name, type := seen type, size, lastModified } : Meta)) field4
      (by decide) (by decide) id
    rintro v ⟨rfl⟩ rest
    simp only [readField, readSafeInt_int64, Option.map_some]
  have read5 : Fields (readField decode) { create with name := seen name, type := seen type, size, lastModified } b5
      { name := seen name, type := seen type, size, lastModified, preview } := by
    apply optional_fields
      (fun preview => ({ name := seen name, type := seen type, size, lastModified, preview } : Meta)) field5
      (by decide) (by decide)
    rintro content rfl v given rest
    simp only [readField, readBytes_lengthDelimited given, Option.map_some]
  exact read1.append (read2.append (read3.append (read4.append read5)))

/-- What is written of a `Meta` is read back, but for the marks. -/
theorem fromBinary_toBinary {m : Meta} {bs : Bytes} (wrote : m.toBinary = some bs) :
    fromBinary bs = some m.received :=
  fromBinary_fields (fields decodes_text wrote)

/-- What is written is written also as it has been read. -/
theorem received_written {m : Meta} {bs : Bytes} (wrote : m.toBinary = some bs) :
    ∃ bs', m.received.toBinary = some bs' := by
  simp only [toBinary, Option.bind_eq_bind, Option.bind_eq_some_iff] at wrote
  obtain ⟨_, field1, _, field2, b3, field3, b4, field4, b5, field5, -⟩ := wrote
  obtain ⟨b1, name⟩ := unmark_written field1
  obtain ⟨b2, type⟩ := unmark_written field2
  refine ⟨b1 ++ (b2 ++ (b3 ++ (b4 ++ b5))), ?_⟩
  simp only [toBinary, Option.bind_eq_bind, Option.bind_eq_some_iff]
  exact ⟨b1, name, b2, type, b3, field3, b4, field4, b5, field5, rfl⟩

/-- No two are written alike. -/
theorem toBinary_inj {m m' : Meta} {bs : Bytes} (wrote : m.toBinary = some bs) (wrote' : m'.toBinary = some bs) :
    m = m' :=
  Option.some.inj ((fromBinary_fields (fields decodes_marked wrote)).symm.trans
    (fromBinary_fields (fields decodes_marked wrote')))

end Meta

/-! ## Chunk -/

structure Chunk where
  id : String
  skip : Option SafeNat := none
  limit : Option SafeNat := none
  deriving DecidableEq

namespace Chunk

def create : Chunk := { id := "" }

def readField : FieldReader Chunk
  | m, 1, _, bs => (readString decodeText bs).map fun (id, rest) => ({ m with id }, rest)
  | m, 2, _, bs => (readSafeNat bs).map fun (skip, rest) => ({ m with skip := some skip }, rest)
  | m, 3, _, bs => (readSafeNat bs).map fun (limit, rest) => ({ m with limit := some limit }, rest)
  | m, _, wireType, bs => (skipField wireType bs).map fun rest => (m, rest)

def toBinary (m : Chunk) : Option Bytes := do
  let id ← fieldUnless (m.id = "") 1 .lengthDelimited (string m.id)
  let skip ← fieldUnless m.skip.isNone 2 .varint (m.skip.map fun n => varint n.1)
  let limit ← fieldUnless m.limit.isNone 3 .varint (m.limit.map fun n => varint n.1)
  some (id ++ (skip ++ limit))

def received (m : Chunk) : Chunk := { m with id := unmark m.id }

theorem fields {m : Chunk} {bs : Bytes} (wrote : m.toBinary = some bs) : Fields readField create bs m.received := by
  obtain ⟨id, skip, limit⟩ := m
  simp only [toBinary, Option.bind_eq_bind, Option.bind_eq_some_iff] at wrote
  obtain ⟨b1, field1, b2, field2, b3, field3, whole⟩ := wrote
  cases whole
  have read1 : Fields readField create b1 { create with id := unmark id } :=
    text_fields decodes_text (fun id => ({ create with id } : Chunk)) field1 (by decide) (by decide) fun _ => rfl
  have read2 : Fields readField { create with id := unmark id } b2 { create with id := unmark id, skip } := by
    apply optional_fields (fun skip => ({ create with id := unmark id, skip } : Chunk)) field2 (by decide) (by decide)
    rintro n rfl v ⟨rfl⟩ rest
    simp only [readField, readSafeNat_varint, Option.map_some]
  have read3 : Fields readField { create with id := unmark id, skip } b3 { id := unmark id, skip, limit } := by
    apply optional_fields (fun limit => ({ id := unmark id, skip, limit } : Chunk)) field3 (by decide) (by decide)
    rintro n rfl v ⟨rfl⟩ rest
    simp only [readField, readSafeNat_varint, Option.map_some]
  exact read1.append (read2.append read3)

end Chunk

/-! ## Request -/

/-- The `oneof`; `unset` is `oneofKind: undefined`. -/
inductive Request where
  | unset
  | meta_ (id : String)
  | receive (chunk : Chunk)
  | send (meta_ : Meta)
  deriving DecidableEq

namespace Request

/-- The message that a nested field is merged into. -/
def receiveTarget : Request → Chunk
  | .receive chunk => chunk
  | _ => Chunk.create

def sendTarget : Request → Meta
  | .send info => info
  | _ => Meta.create

def readField : FieldReader Request
  | _, 1, _, bs => (readString decodeText bs).map fun (id, rest) => (.meta_ id, rest)
  | m, 2, _, bs => (readNested Chunk.readField m.receiveTarget bs).map fun (chunk, rest) => (.receive chunk, rest)
  | m, 3, _, bs => (readNested (Meta.readField decodeText) m.sendTarget bs).map fun (info, rest) => (.send info, rest)
  | m, _, wireType, bs => (skipField wireType bs).map fun rest => (m, rest)

def toBinary : Request → Option Bytes
  | .unset => some []
  | .meta_ id => fieldUnless false 1 .lengthDelimited (string id)
  | .receive chunk => fieldUnless false 2 .lengthDelimited (chunk.toBinary.bind lengthDelimited)
  | .send info => fieldUnless false 3 .lengthDelimited (info.toBinary.bind lengthDelimited)

def fromBinary (bs : Bytes) : Option Request := Lib.Wire.fromBinary readField .unset bs

def received : Request → Request
  | .unset => .unset
  | .meta_ id => .meta_ (unmark id)
  | .receive chunk => .receive chunk.received
  | .send info => .send info.received

/-- What is written of a request is read back, but for the marks. -/
theorem fromBinary_toBinary {r : Request} {bs : Bytes} (wrote : r.toBinary = some bs) :
    fromBinary bs = some r.received := by
  apply fromBinary_fields
  cases r with
  | unset => cases wrote; exact .nil _
  | meta_ id =>
    rw [toBinary] at wrote
    apply fieldUnless_fields wrote (by decide) (by decide) nofun
    intro v given rest
    simp only [readField, readString_string decodes_text given, Option.map_some, received]
  | receive chunk =>
    rw [toBinary] at wrote
    apply fieldUnless_fields wrote (by decide) (by decide) nofun
    intro v given rest
    obtain ⟨inner, written, given⟩ := Option.bind_eq_some_iff.1 given
    simp only [readField, receiveTarget, readNested_fields (Chunk.fields written) given, Option.map_some, received]
  | send info =>
    rw [toBinary] at wrote
    apply fieldUnless_fields wrote (by decide) (by decide) nofun
    intro v given rest
    obtain ⟨inner, written, given⟩ := Option.bind_eq_some_iff.1 given
    simp only [readField, sendTarget, readNested_fields (Meta.fields decodes_text written) given, Option.map_some,
      received, Meta.received]

end Request

/-! ## File -/

/-- The record of a stored file. -/
structure File where
  meta_ : Option Meta := none
  contentPath : String
  deriving DecidableEq

namespace File

def create : File := { contentPath := "" }

def readField (decode : TextDecoder) : FieldReader File
  | m, 1, _, bs => (readNested (Meta.readField decode) (m.meta_.getD Meta.create) bs).map
    fun (meta_, rest) => ({ m with meta_ := some meta_ }, rest)
  | m, 2, _, bs => (readString decode bs).map fun (contentPath, rest) => ({ m with contentPath }, rest)
  | m, _, wireType, bs => (skipField wireType bs).map fun rest => (m, rest)

def toBinary (m : File) : Option Bytes := do
  let meta_ ← fieldUnless m.meta_.isNone 1 .lengthDelimited ((m.meta_.bind Meta.toBinary).bind lengthDelimited)
  let contentPath ← fieldUnless (m.contentPath = "") 2 .lengthDelimited (string m.contentPath)
  some (meta_ ++ contentPath)

def fromBinary (bs : Bytes) : Option File := Lib.Wire.fromBinary (readField decodeText) create bs

def texts (seen : String → String) (m : File) : File :=
  { meta_ := m.meta_.map (·.texts seen), contentPath := seen m.contentPath }

def received (m : File) : File := m.texts unmark

theorem fields {decode : TextDecoder} {seen : String → String} (decodes : Decodes decode seen) {m : File} {bs : Bytes}
    (wrote : m.toBinary = some bs) : Fields (readField decode) create bs (m.texts seen) := by
  obtain ⟨meta_, contentPath⟩ := m
  simp only [toBinary, Option.bind_eq_bind, Option.bind_eq_some_iff] at wrote
  obtain ⟨b1, field1, b2, field2, whole⟩ := wrote
  cases whole
  have read1 : Fields (readField decode) create b1 { create with meta_ := meta_.map (·.texts seen) } := by
    apply optional_fields (fun meta_ => ({ create with meta_ := meta_.map (·.texts seen) } : File)) field1
      (by decide) (by decide)
    rintro info rfl v given rest
    obtain ⟨inner, written, delimited⟩ := Option.bind_eq_some_iff.1 given
    have nested := readNested_fields (Meta.fields decodes written) delimited rest
    simp only [readField, create, Option.map_none, Option.getD_none, nested, Option.map_some]
  have read2 : Fields (readField decode) { create with meta_ := meta_.map (·.texts seen) } b2
      { meta_ := meta_.map (·.texts seen), contentPath := seen contentPath } :=
    text_fields decodes (fun contentPath => ({ meta_ := meta_.map (·.texts seen), contentPath } : File)) field2
      (by decide) (by decide) fun _ => rfl
  exact read1.append read2

/-- What is written of a record is read back, but for the marks. -/
theorem fromBinary_toBinary {m : File} {bs : Bytes} (wrote : m.toBinary = some bs) :
    fromBinary bs = some m.received :=
  fromBinary_fields (fields decodes_text wrote)

theorem texts_id (m : File) : m.texts id = m := by
  obtain ⟨_ | info, contentPath⟩ := m <;> rfl

/-- No two are written alike. -/
theorem toBinary_inj {m m' : File} {bs : Bytes} (wrote : m.toBinary = some bs) (wrote' : m'.toBinary = some bs) :
    m = m' := by
  have same := Option.some.inj ((fromBinary_fields (fields decodes_marked wrote)).symm.trans
    (fromBinary_fields (fields decodes_marked wrote')))
  rwa [texts_id, texts_id] at same

end File

end Schema

end Fula.FileProtocol
