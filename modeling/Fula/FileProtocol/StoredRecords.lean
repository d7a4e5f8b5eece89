import Fula.Lib.Truncation
import Fula.FileProtocol.Retrieve

/-!
# Records that come in several chunks

The two retrieval methods of `registerFile` decode the first chunk of the record
and return. `File.fromBinary_part` says what is made of a part of a record: it is
not read, unless it ends between the two fields.
-/

namespace Fula.FileProtocol
set_option autoImplicit false
open Lib Lib.Wire Schema

/-! ## Parts of a record -/

namespace Schema

theorem readSafeNat_part {n : SafeNat} {p : Bytes} (part : p <+: varint n.1) (proper : p ≠ varint n.1) :
    readSafeNat p = none := by
  rw [readSafeNat, readUint64_part part proper]
  rfl

theorem readSafeInt_part {i : SafeInt} {p : Bytes} (part : p <+: int64 i.1) (proper : p ≠ int64 i.1) :
    readSafeInt p = none := by
  rw [readSafeInt, readInt64, readUint64_part part proper]
  rfl

namespace Meta

/-- How many fields are written. -/
def rank (m : Meta) : Nat :=
  (!decide (m.name = "")).toNat + ((!decide (m.type = "")).toNat + ((!decide (m.size = 0)).toNat +
    ((!decide (m.lastModified = 0)).toNat + (!m.preview.isNone).toNat)))

theorem written {m : Meta} {bs : Bytes} (wrote : m.toBinary = some bs) :
    Written (readField decodeText) m.rank create bs m.received := by
  obtain ⟨name, type, size, lastModified, preview⟩ := m
  simp only [toBinary, Option.bind_eq_bind, Option.bind_eq_some_iff] at wrote
  obtain ⟨b1, field1, b2, field2, b3, field3, b4, field4, b5, field5, whole⟩ := wrote
  cases whole
  have read1 : Written (readField decodeText) (!decide (name = "")).toNat create b1
      { create with name := unmark name } :=
    text_written decodes_text (fun name => ({ create with name } : Meta)) field1 (by decide) (by decide) fun _ => rfl
  have read2 : Written (readField decodeText) (!decide (type = "")).toNat { create with name := unmark name } b2
      { create with name := unmark name, type := unmark type } :=
    text_written decodes_text (fun type => ({ create with name := unmark name, type } : Meta)) field2 (by decide)
      (by decide) fun _ => rfl
  have read3 : Written (readField decodeText) (!decide (size = 0)).toNat
      { create with name := unmark name, type := unmark type } b3
      { create with name := unmark name, type := unmark type, size } := by
    apply scalar_written (fun size => ({ create with name := unmark name, type := unmark type, size } : Meta)) field3
      (by decide) (by decide) id
    · rintro v ⟨rfl⟩ rest
      simp only [readField, readSafeNat_varint, Option.map_some]
    · rintro v ⟨rfl⟩ p part proper
      simp only [readField, readSafeNat_part part proper, Option.map_none]
  have read4 : Written (readField decodeText) (!decide (lastModified = 0)).toNat
      { create with name := unmark name, type := unmark type, size } b4
      { create with name := unmark name, type := unmark type, size, lastModified } := by
    apply scalar_written
      (fun lastModified => ({ create with name := unmark name, type := unmark type, size, lastModified } : Meta)) field4
      (by decide) (by decide) id
    · rintro v ⟨rfl⟩ rest
      simp only [readField, readSafeInt_int64, Option.map_some]
    · rintro v ⟨rfl⟩ p part proper
      simp only [readField, readSafeInt_part part proper, Option.map_none]
  have read5 : Written (readField decodeText) (!preview.isNone).toNat
      { create with name := unmark name, type := unmark type, size, lastModified } b5
      { name := unmark name, type := unmark type, size, lastModified, preview } := by
    cases preview with
    | none =>
      cases field5
      exact .nil _
    | some content =>
      refine fieldUnless_written field5 (fun absent => by cases absent) fun _ v given => .field (by decide) (by decide) ?_ ?_
      · intro rest
        simp only [readField, readBytes_lengthDelimited given, Option.map_some]
      · intro p part proper
        simp only [readField, readBytes_part given part proper, Option.map_none]
  exact read1.append (read2.append (read3.append (read4.append read5)))

end Meta

namespace File

/-- The field `meta` as it is written. -/
def metaField (m : File) : Option Bytes :=
  fieldUnless m.meta_.isNone 1 .lengthDelimited ((m.meta_.bind Meta.toBinary).bind lengthDelimited)

/-- A record is its two fields, neither of which is read from a part of its bytes. -/
theorem parts {m : File} {record : Bytes} (wrote : m.toBinary = some record) :
    ∃ meta_ path, record = meta_ ++ path ∧ m.metaField = some meta_ ∧
      Fields (readField decodeText) create meta_ { m.received with contentPath := "" } ∧
      Strict (readField decodeText) create meta_ ∧
      Strict (readField decodeText) { m.received with contentPath := "" } path ∧
      (m.contentPath = "" → path = []) := by
  obtain ⟨info, contentPath⟩ := m
  simp only [toBinary, Option.bind_eq_bind, Option.bind_eq_some_iff] at wrote
  obtain ⟨b1, field1, b2, field2, whole⟩ := wrote
  cases whole
  refine ⟨b1, b2, rfl, field1, ?_, ?_, ?_, ?_⟩
  · apply optional_fields (fun meta_ => ({ create with meta_ := meta_.map Meta.received } : File)) field1
      (by decide) (by decide)
    rintro info rfl v given rest
    obtain ⟨inner, written, delimited⟩ := Option.bind_eq_some_iff.1 given
    have nested := readNested_fields (Meta.fields decodes_text written) delimited rest
    simp only [readField, create, Option.map_none, Option.getD_none, nested, Option.map_some, Meta.received]
  · apply fieldUnless_strict field1 (by decide) (by decide)
    intro v given p part proper
    obtain ⟨inner, written, delimited⟩ := Option.bind_eq_some_iff.1 given
    obtain ⟨info', rfl, written⟩ := Option.bind_eq_some_iff.1 written
    have cut := (Meta.written written).nested_part delimited part proper
    simp only [readField, create, Option.getD_none, cut, Option.map_none]
  · apply fieldUnless_strict field2 (by decide) (by decide)
    intro v given p part proper
    simp only [readField, readString_part given part proper, Option.map_none]
  · rintro rfl
    cases field2
    rfl

/-- What is made of a part of a record. -/
theorem fromBinary_part {m : File} {record p : Bytes} (wrote : m.toBinary = some record) (part : p <+: record)
    (some_ : p ≠ []) : fromBinary p =
      if p = record then some m.received
      else if m.metaField = some p then some { m.received with contentPath := "" } else none := by
  obtain ⟨info, path, rfl, field, reads, strict, strict', -⟩ := parts wrote
  by_cases whole : p = info ++ path
  · rw [if_pos whole, whole]
    exact fromBinary_toBinary wrote
  rw [if_neg whole, field]
  rcases prefix_append_cases part with ⟨inside, short⟩ | ⟨q, rfl, rest⟩
  · rw [if_neg fun same => short (Option.some.inj same).symm]
    exact strict.fromBinary inside short some_
  · by_cases none : q = []
    · subst none
      rw [List.append_nil, if_pos rfl]
      exact fromBinary_fields reads
    · rw [if_neg fun same => none (List.append_right_eq_self.1 (Option.some.inj same).symm)]
      rw [fromBinary, Lib.Wire.fromBinary, readMessage, Option.map_eq_none_iff]
      exact reads.cut strict' rest (fun same => whole (by rw [same])) none _

end File

end Schema

/-! ## The two methods -/

/-- The method given to `setMetaRetrievalMethod`. -/
def metaRetrieval (cat : Cat) (id : String) : Option Meta := (lookup cat id).bind (·.meta_)

/-- The path whose content the method given to `setContentRetrievalMethod` returns. -/
def contentRetrieval (cat : Cat) (id : String) : Option String := (lookup cat id).map (·.contentPath)

theorem getMeta_eq (cat : Cat) (id : String) : getMeta cat id =
    match metaRetrieval cat id with
    | none => .undefined
    | some info => match info.toBinary with
      | none => .rejected
      | some binary => .chunks [binary] := rfl

theorem retrieve_eq (cat : Cat) (chunk : Chunk) : retrieve cat chunk =
    match contentRetrieval cat chunk.id with
    | none => .undefined
    | some path => match cat path with
      | none => .rejected
      | some cs => .chunks cs := by
  rw [retrieve, contentRetrieval]
  cases lookup cat chunk.id <;> rfl

section
variable {r : File} {record : Bytes} {cs : List Bytes} {cat : Cat} {id : String}

/-- What the first chunk of a record is decoded to. -/
theorem lookup_cut (recorded : r.toBinary = some record) (stored : cat id = some cs)
    (whole : cs.flatten = record) (some_ : ∀ c ∈ cs, c ≠ []) :
    lookup cat id = cs.head?.bind fun first =>
      if first = record then some r.received
      else if r.metaField = some first then some { r.received with contentPath := "" } else none := by
  rw [lookup, stored, Option.bind_some]
  cases cs with
  | nil => rfl
  | cons first rest =>
    have part : first <+: record := by
      rw [← whole, List.flatten_cons]
      exact List.prefix_append _ _
    exact File.fromBinary_part recorded part (some_ first List.mem_cons_self)

/-- The first chunk is all of the record just when it is the only one. -/
theorem first_whole_iff (whole : cs.flatten = record) (some_ : ∀ c ∈ cs, c ≠ []) :
    cs.head? = some record ↔ cs = [record] := by
  constructor
  · intro first
    obtain ⟨rest, rfl⟩ := List.head?_eq_some_iff.1 first
    rw [List.flatten_cons, List.append_right_eq_self, List.flatten_eq_nil_iff] at whole
    cases rest with
    | nil => rfl
    | cons c rest => exact absurd (whole c List.mem_cons_self) (some_ c (by simp))
  · rintro rfl
    rfl

/-- The metadata is right where there is none, or the first chunk ends behind it or at
the end of the record. -/
theorem metaRetrieval_iff (recorded : r.toBinary = some record) (stored : cat id = some cs)
    (whole : cs.flatten = record) (some_ : ∀ c ∈ cs, c ≠ []) :
    metaRetrieval cat id = r.received.meta_ ↔ r.meta_ = none ∨ cs = [record] ∨ cs.head? = r.metaField := by
  obtain ⟨info, path, -, field, -⟩ := File.parts recorded
  have absent : r.received.meta_ = none ↔ r.meta_ = none := Option.map_eq_none_iff
  rw [metaRetrieval, lookup_cut recorded stored whole some_, ← first_whole_iff whole some_, field, ← absent]
  cases cs.head? with
  | none => simp [eq_comm]
  | some first =>
    simp only [Option.bind_some, Option.some.injEq]
    by_cases all : first = record
    · simp [all]
    by_cases ends : info = first
    · simp [all, ends]
    · simp [all, ends, Ne.symm ends, eq_comm]

/-- The content path is right where the record is one chunk, or nothing is read of the
path and the first chunk ends in front of it. -/
theorem contentRetrieval_iff (recorded : r.toBinary = some record) (stored : cat id = some cs)
    (whole : cs.flatten = record) (some_ : ∀ c ∈ cs, c ≠ []) :
    contentRetrieval cat id = some r.received.contentPath ↔
      cs = [record] ∨ (r.received.contentPath = "" ∧ cs.head? = r.metaField) := by
  obtain ⟨info, path, parts, field, -⟩ := File.parts recorded
  rw [contentRetrieval, lookup_cut recorded stored whole some_, ← first_whole_iff whole some_, field]
  cases cs.head? with
  | none => simp
  | some first =>
    simp only [Option.bind_some, Option.some.injEq]
    by_cases all : first = record
    · simp [all]
    by_cases ends : info = first
    · simp only [all, ends, if_true, if_false, Option.map_some, Option.some.injEq, and_true, false_or]
      exact eq_comm
    · simp [all, ends, Ne.symm ends]

/-- **Records are read whole**, as they are from one chunk, just when they come in one, or
nothing is read of the path and the first chunk ends in front of it. -/
theorem record_whole_iff (recorded : r.toBinary = some record) (stored : cat id = some cs)
    (whole : cs.flatten = record) (some_ : ∀ c ∈ cs, c ≠ []) :
    metaRetrieval cat id = r.received.meta_ ∧ contentRetrieval cat id = some r.received.contentPath ↔
      cs = [record] ∨ (r.received.contentPath = "" ∧ cs.head? = r.metaField) := by
  rw [metaRetrieval_iff recorded stored whole some_, contentRetrieval_iff recorded stored whole some_]
  constructor
  · rintro ⟨-, read⟩
    exact read
  · rintro (one | ⟨none, ends⟩)
    · exact ⟨.inr (.inl one), .inl one⟩
    · exact ⟨.inr (.inr ends), .inr ⟨none, ends⟩⟩

end

/-- The record of two bytes in one chunk. -/
theorem record_whole_iff_sample :
    metaRetrieval sampleCat sampleStored.id.text = some sampleStored.info ∧
      contentRetrieval sampleCat sampleStored.id.text = some sampleStored.contentPath.text :=
  (record_whole_iff sampleStored.recorded rfl (List.append_nil _) (by decide)).2 (.inl rfl)

/-- The same record, cut behind its metadata. -/
def cutCat : Cat := fun path =>
  if path = sampleStored.id.text then some [sampleStored.record.take 4, sampleStored.record.drop 4] else none

/-- The content method asks for the content of the empty path. -/
theorem cut_record :
    ∃ cs, cutCat sampleStored.id.text = some cs ∧ cs.flatten = sampleStored.record ∧ (∀ c ∈ cs, c ≠ []) ∧
      contentRetrieval cutCat sampleStored.id.text = some "" ∧
      ¬ (metaRetrieval cutCat sampleStored.id.text = some sampleStored.info ∧
        contentRetrieval cutCat sampleStored.id.text = some sampleStored.contentPath.text) :=
  ⟨[sampleStored.record.take 4, sampleStored.record.drop 4], rfl, rfl, by decide, rfl, by decide⟩

end Fula.FileProtocol
