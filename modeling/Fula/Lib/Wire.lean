import Mathlib
import Fula.Lib.Utf8

/-!
# The protocol buffer wire format

A message is a sequence of fields, each a tag (field number and wire type) and
a value. Readers take the unread bytes and return what they read with the rest;
`none` is an exception, in particular the end of the input inside a value.

A message type is given by what it does with one field (`FieldReader`), and
`readMessage` is its loop. `Encodes read m bs m'` says that `bs` is one field
that turns `m` into `m'`, `Fields` is a sequence of such fields, and
`readMessage_fields` is the rule for decoding: a message that is written as
`Fields` is read back.
-/

namespace Lib.Wire
set_option autoImplicit false

inductive WireType where
  | varint
  | bit64
  | lengthDelimited
  | startGroup
  | endGroup
  | bit32
  deriving DecidableEq, Repr

def WireType.toNat : WireType → Nat
  | .varint => 0
  | .bit64 => 1
  | .lengthDelimited => 2
  | .startGroup => 3
  | .endGroup => 4
  | .bit32 => 5

def WireType.ofNat? : Nat → Option WireType
  | 0 => some .varint
  | 1 => some .bit64
  | 2 => some .lengthDelimited
  | 3 => some .startGroup
  | 4 => some .endGroup
  | 5 => some .bit32
  | _ => none

theorem WireType.toNat_lt (type : WireType) : type.toNat < 8 := by
  cases type <;> decide

@[simp] theorem WireType.ofNat?_toNat (type : WireType) : ofNat? type.toNat = some type := by
  cases type <;> rfl

/-! ## Varints -/

/-- `n` in at most `k` groups of seven bits, the lowest first; all but the last
carry the continuation bit. -/
def groups : Nat → Nat → List UInt8
  | 0, _ => []
  | k + 1, n => if n < 128 then [UInt8.ofNat n] else UInt8.ofNat (n % 128 + 128) :: groups k (n / 128)

def readGroups : Nat → List UInt8 → Option (Nat × List UInt8)
  | 0, _ => none
  | _ + 1, [] => none
  | k + 1, b :: bs =>
    if b.toNat < 128 then some (b.toNat, bs)
    else (readGroups k bs).map fun (n, rest) => (b.toNat - 128 + 128 * n, rest)

theorem groups_length_pos (k n : Nat) : 0 < (groups (k + 1) n).length := by
  rw [groups]; split <;> simp

theorem groups_length_le (k n : Nat) : (groups k n).length ≤ k := by
  induction k generalizing n with
  | zero => exact Nat.le_refl 0
  | succ k ih =>
    rw [groups]
    split
    · simp
    · simpa using ih (n / 128)

theorem readGroups_groups {k n : Nat} (fits : n < 128 ^ k) (positive : 0 < k) (rest : List UInt8) :
    readGroups k (groups k n ++ rest) = some (n, rest) := by
  induction k generalizing n with
  | zero => omega
  | succ k ih =>
    by_cases small : n < 128
    · have byte : (UInt8.ofNat n).toNat = n := by rw [UInt8.toNat_ofNat']; omega
      simp only [groups, if_pos small, List.singleton_append, readGroups, byte]
    · have byte : (UInt8.ofNat (n % 128 + 128)).toNat = n % 128 + 128 := by rw [UInt8.toNat_ofNat']; omega
      rw [Nat.pow_succ] at fits
      have high : n / 128 < 128 ^ k := Nat.div_lt_of_lt_mul (by omega)
      have more : 0 < k := by
        rcases Nat.eq_zero_or_pos k with rfl | more
        · simp at fits; omega
        · exact more
      simp only [groups, if_neg small, List.cons_append, readGroups, byte, ih high more]
      rw [if_neg (by omega), Option.map_some]
      congr 2; omega

def varint (n : Nat) : List UInt8 := groups 10 n

theorem varint_length_pos (n : Nat) : 0 < (varint n).length := groups_length_pos 9 n

def readUint64 (bs : List UInt8) : Option (Nat × List UInt8) :=
  (readGroups 10 bs).map fun (n, rest) => (n % 2 ^ 64, rest)

def readUint32 (bs : List UInt8) : Option (Nat × List UInt8) :=
  (readGroups 10 bs).map fun (n, rest) => (n % 2 ^ 32, rest)

/-- Two's complement in 64 bits. -/
def int64 (i : Int) : List UInt8 := varint (i % 2 ^ 64).toNat

def readInt64 (bs : List UInt8) : Option (Int × List UInt8) :=
  (readUint64 bs).map fun (n, rest) => (if n < 2 ^ 63 then (n : Int) else n - 2 ^ 64, rest)

theorem readUint64_varint {n : Nat} (fits : n < 2 ^ 64) (rest : List UInt8) :
    readUint64 (varint n ++ rest) = some (n, rest) := by
  rw [readUint64, varint, readGroups_groups (by omega) (by decide)]
  simp only [Option.map_some, Nat.mod_eq_of_lt fits]

theorem readUint32_varint {n : Nat} (fits : n < 2 ^ 32) (rest : List UInt8) :
    readUint32 (varint n ++ rest) = some (n, rest) := by
  rw [readUint32, varint, readGroups_groups (by omega) (by decide)]
  simp only [Option.map_some, Nat.mod_eq_of_lt fits]

theorem readInt64_int64 {i : Int} (low : -2 ^ 63 ≤ i) (high : i < 2 ^ 63) (rest : List UInt8) :
    readInt64 (int64 i ++ rest) = some (i, rest) := by
  rw [readInt64, int64, readUint64_varint (by omega)]
  simp only [Option.map_some, Option.some.injEq, Prod.mk.injEq, and_true]
  split <;> omega

/-! ## Tags and values -/

def tag (no : Nat) (type : WireType) : List UInt8 := varint (no * 8 + type.toNat)

def readTag (bs : List UInt8) : Option ((Nat × WireType) × List UInt8) := do
  let (n, rest) ← readUint32 bs
  let type ← WireType.ofNat? (n % 8)
  if n / 8 = 0 then none else some ((n / 8, type), rest)

theorem readTag_tag {no : Nat} (positive : 0 < no) (fits : no < 2 ^ 29) (type : WireType) (rest : List UInt8) :
    readTag (tag no type ++ rest) = some ((no, type), rest) := by
  have low := type.toNat_lt
  have number : (no * 8 + type.toNat) / 8 = no := by omega
  have kind : (no * 8 + type.toNat) % 8 = type.toNat := by omega
  rw [tag, readTag, readUint32_varint (by omega)]
  simp only [Option.bind_eq_bind, Option.bind_some, kind, WireType.ofNat?_toNat, number]
  rw [if_neg (by omega)]

/-- Bytes with their length in front; a length that does not fit in 32 bits is
refused. -/
def lengthDelimited (bs : List UInt8) : Option (List UInt8) :=
  if bs.length < 2 ^ 32 then some (varint bs.length ++ bs) else none

def readBytes (bs : List UInt8) : Option (List UInt8 × List UInt8) := do
  let (length, rest) ← readUint32 bs
  if length ≤ rest.length then some (rest.take length, rest.drop length) else none

theorem lengthDelimited_eq {bs written : List UInt8} (wrote : lengthDelimited bs = some written) :
    bs.length < 2 ^ 32 ∧ written = varint bs.length ++ bs := by
  unfold lengthDelimited at wrote
  split at wrote
  · rename_i fits
    cases wrote
    exact ⟨fits, rfl⟩
  · cases wrote

/-- What fits is written, with at most ten bytes in front. -/
theorem lengthDelimited_fits {bs : List UInt8} (fits : bs.length < 2 ^ 32) :
    ∃ written, lengthDelimited bs = some written ∧ written.length ≤ bs.length + 10 := by
  refine ⟨_, if_pos fits, ?_⟩
  have := groups_length_le 10 bs.length
  rw [List.length_append, varint]; omega

theorem readBytes_lengthDelimited {bs written : List UInt8} (wrote : lengthDelimited bs = some written)
    (rest : List UInt8) : readBytes (written ++ rest) = some (bs, rest) := by
  obtain ⟨fits, rfl⟩ := lengthDelimited_eq wrote
  rw [List.append_assoc, readBytes, readUint32_varint fits]
  simp

def string (s : String) : Option (List UInt8) := lengthDelimited (encodeText s)

/-- A reader is made with a text decoder. -/
def readString (decode : TextDecoder) (bs : List UInt8) : Option (String × List UInt8) := do
  let (text, rest) ← readBytes bs
  let s ← decode text
  some (s, rest)

/-- A text comes to the reader as its decoder has it. -/
theorem readString_string {decode : TextDecoder} {seen : String → String} (decodes : Decodes decode seen) {s : String}
    {written : List UInt8} (wrote : string s = some written) (rest : List UInt8) :
    readString decode (written ++ rest) = some (seen s, rest) := by
  rw [readString, readBytes_lengthDelimited wrote]
  simp only [Option.bind_eq_bind, Option.bind_some, decodes.text]

/-! ## Unknown fields -/

def skipVarint : List UInt8 → Option (List UInt8)
  | [] => none
  | b :: bs => if b.toNat < 128 then some bs else skipVarint bs

def skipBytes (n : Nat) (bs : List UInt8) : Option (List UInt8) :=
  if n ≤ bs.length then some (bs.drop n) else none

/-- Skip the value of a field of unknown number, a group with all its fields.
The first argument bounds the number of fields. -/
def skip : Nat → WireType → List UInt8 → Option (List UInt8)
  | _, .varint, bs => skipVarint bs
  | _, .bit64, bs => skipBytes 8 bs
  | _, .bit32, bs => skipBytes 4 bs
  | _, .lengthDelimited, bs => (readBytes bs).map Prod.snd
  | _, .endGroup, _ => none
  | 0, .startGroup, _ => none
  | k + 1, .startGroup, bs => do
    let ((_, type), value) ← readTag bs
    if type = .endGroup then some value else
      let rest ← skip k type value
      skip k .startGroup rest

/-- Every field takes a byte or more, so the bound is never met. -/
def skipField (type : WireType) (bs : List UInt8) : Option (List UInt8) := skip bs.length type bs

/-! ## Messages -/

/-- What a message type does with one field: the message so far, the field
number, the wire type and the unread bytes from the value on. -/
abbrev FieldReader (M : Type) := M → Nat → WireType → List UInt8 → Option (M × List UInt8)

section
variable {M : Type} (read : FieldReader M)

/-- Read fields until `length` bytes are read; the first argument bounds the
number of fields. -/
def readFields : Nat → Nat → M → List UInt8 → Option (M × List UInt8)
  | _, 0, m, bs => some (m, bs)
  | 0, _ + 1, _, _ => none
  | k + 1, length + 1, m, bs => do
    let ((no, type), value) ← readTag bs
    let (m, rest) ← read m no type value
    readFields k (length + 1 - (bs.length - rest.length)) m rest

/-- Read a message of `length` bytes into `m`. Every field takes a byte or
more, so the bound is never met. -/
def readMessage (length : Nat) (m : M) (bs : List UInt8) : Option (M × List UInt8) :=
  readFields read length length m bs

/-- `bs` is one field, and it turns `m` into `m'`. -/
def Encodes (m : M) (bs : List UInt8) (m' : M) : Prop :=
  0 < bs.length ∧ ∀ rest, ∃ no type value,
    readTag (bs ++ rest) = some ((no, type), value) ∧ read m no type value = some (m', rest)

/-- A sequence of fields. -/
inductive Fields : M → List UInt8 → M → Prop
  | nil (m : M) : Fields m [] m
  | cons {m m' m'' : M} {b bs : List UInt8} (field : Encodes read m b m') (rest : Fields m' bs m'') :
      Fields m (b ++ bs) m''

variable {read}

theorem Fields.one {m m' : M} {bs : List UInt8} (field : Encodes read m bs m') : Fields read m bs m' := by
  have fields := Fields.cons field (.nil m')
  rwa [List.append_nil] at fields

theorem Fields.append {m m' m'' : M} {as bs : List UInt8} (first : Fields read m as m')
    (second : Fields read m' bs m'') : Fields read m (as ++ bs) m'' := by
  induction first with
  | nil => exact second
  | cons field _ ih => rw [List.append_assoc]; exact .cons field (ih second)

theorem readFields_fields {m m' : M} {bs : List UInt8} (fields : Fields read m bs m') {k : Nat}
    (enough : bs.length ≤ k) (rest : List UInt8) :
    readFields read k bs.length m (bs ++ rest) = some (m', rest) := by
  induction fields generalizing k with
  | nil => cases k <;> rfl
  | @cons m _ _ b bs field fields ih =>
    obtain ⟨positive, reads⟩ := field
    obtain ⟨no, type, value, tagged, valued⟩ := reads (bs ++ rest)
    rw [List.length_append] at enough
    obtain ⟨k, rfl⟩ : ∃ k', k = k' + 1 := ⟨k - 1, by omega⟩
    obtain ⟨length, whole⟩ : ∃ length, (b ++ bs).length = length + 1 :=
      ⟨(b ++ bs).length - 1, by rw [List.length_append]; omega⟩
    have left : length + 1 - ((b ++ (bs ++ rest)).length - (bs ++ rest).length) = bs.length := by
      rw [← whole]; simp only [List.length_append]; omega
    rw [whole, List.append_assoc, readFields, tagged]
    simp only [Option.bind_eq_bind, Option.bind_some, valued, left]
    exact ih (by omega)

/-- A message that is written as a sequence of fields is read back. -/
theorem readMessage_fields {m m' : M} {bs : List UInt8} (fields : Fields read m bs m') (rest : List UInt8) :
    readMessage read bs.length m (bs ++ rest) = some (m', rest) :=
  readFields_fields fields (Nat.le_refl _) rest

/-- A field, given by its number, its wire type and its value. -/
theorem Encodes.of_value {m m' : M} {no : Nat} {type : WireType} {value : List UInt8} (positive : 0 < no)
    (fits : no < 2 ^ 29) (reads : ∀ rest, read m no type (value ++ rest) = some (m', rest)) :
    Encodes read m (tag no type ++ value) m' := by
  constructor
  · rw [List.length_append]
    exact Nat.add_pos_left (varint_length_pos _) _
  · intro rest
    exact ⟨no, type, value ++ rest, by rw [List.append_assoc, readTag_tag positive fits], reads rest⟩

/-- A field that is left out when its value is the default. -/
def fieldUnless (absent : Bool) (no : Nat) (type : WireType) (value : Option (List UInt8)) : Option (List UInt8) :=
  if absent then some [] else value.map (tag no type ++ ·)

theorem fieldUnless_fields {m m' : M} {absent : Bool} {no : Nat} {type : WireType} {value : Option (List UInt8)}
    {bs : List UInt8} (wrote : fieldUnless absent no type value = some bs) (positive : 0 < no) (fits : no < 2 ^ 29)
    (same : absent = true → m' = m)
    (reads : ∀ v, value = some v → ∀ rest, read m no type (v ++ rest) = some (m', rest)) :
    Fields read m bs m' := by
  unfold fieldUnless at wrote
  split at wrote
  · rename_i left
    cases wrote
    rw [same left]; exact .nil m
  · obtain ⟨v, given, rfl⟩ := Option.map_eq_some_iff.1 wrote
    exact .one (.of_value positive fits (reads v given))

/-- A field of a value, left out when it is the default; it is read as `y`. -/
theorem scalar_fields {T : Type*} {x y default_ : T} [Decidable (x = default_)] {no : Nat} {type : WireType}
    {value : Option (List UInt8)} {bs : List UInt8} (set : T → M)
    (wrote : fieldUnless (decide (x = default_)) no type value = some bs) (positive : 0 < no) (fits : no < 2 ^ 29)
    (same : x = default_ → y = default_)
    (reads : ∀ v, value = some v → ∀ rest, read (set default_) no type (v ++ rest) = some (set y, rest)) :
    Fields read (set default_) bs (set y) :=
  fieldUnless_fields wrote positive fits (fun absent => by rw [same (of_decide_eq_true absent)]) reads

/-- A field of text, left out when there is none of it; it is read as its decoder has it. -/
theorem text_fields {decode : TextDecoder} {seen : String → String} (decodes : Decodes decode seen) {s : String}
    {no : Nat} {bs : List UInt8} (set : String → M)
    (wrote : fieldUnless (decide (s = "")) no .lengthDelimited (string s) = some bs) (positive : 0 < no)
    (fits : no < 2 ^ 29)
    (reads : ∀ bs, read (set "") no .lengthDelimited bs = (readString decode bs).map fun (s, rest) => (set s, rest)) :
    Fields read (set "") bs (set (seen s)) := by
  apply scalar_fields set wrote positive fits
  · rintro rfl
    exact decodes.empty
  · intro v given rest
    rw [reads, readString_string decodes given, Option.map_some]

/-- A field of an optional value, left out when there is none. -/
theorem optional_fields {T : Type*} {x : Option T} {no : Nat} {type : WireType} {value : Option (List UInt8)}
    {bs : List UInt8} (set : Option T → M) (wrote : fieldUnless x.isNone no type value = some bs) (positive : 0 < no)
    (fits : no < 2 ^ 29)
    (reads : ∀ t, x = some t → ∀ v, value = some v → ∀ rest,
      read (set none) no type (v ++ rest) = some (set (some t), rest)) :
    Fields read (set none) bs (set x) := by
  cases x with
  | none =>
    cases wrote
    exact .nil _
  | some t =>
    apply fieldUnless_fields wrote positive fits
    · intro absent
      cases absent
    · exact reads t rfl

theorem fieldUnless_fits (absent : Bool) (no : Nat) (type : WireType) {value : Option (List UInt8)} {v : List UInt8}
    (given : value = some v) :
    ∃ written, fieldUnless absent no type value = some written ∧ written.length ≤ v.length + 10 := by
  subst given
  cases absent with
  | true => exact ⟨[], rfl, Nat.zero_le _⟩
  | false =>
    refine ⟨_, rfl, ?_⟩
    have := groups_length_le 10 (no * 8 + type.toNat)
    rw [List.length_append, tag, varint]; omega

/-- A text that is written is written also without its mark. -/
theorem unmark_written {s : String} {no : Nat} {bs : List UInt8}
    (wrote : fieldUnless (decide (s = "")) no .lengthDelimited (string s) = some bs) :
    ∃ bs', fieldUnless (decide (unmark s = "")) no .lengthDelimited (string (unmark s)) = some bs' := by
  suffices fits : (encodeText (unmark s)).length < 2 ^ 32 by
    obtain ⟨written, given, -⟩ := lengthDelimited_fits fits
    obtain ⟨bs', wrote', -⟩ := fieldUnless_fits (decide (unmark s = "")) no .lengthDelimited given
    exact ⟨bs', wrote'⟩
  by_cases empty : s = ""
  · subst empty
    decide
  · rw [decide_eq_false empty] at wrote
    obtain ⟨written, given, -⟩ := Option.map_eq_some_iff.1 wrote
    exact Nat.lt_of_le_of_lt (encodeText_unmark_length s) (lengthDelimited_eq given).1

/-- A message inside a message: its length and its fields. -/
def readNested (read : FieldReader M) (m : M) (bs : List UInt8) : Option (M × List UInt8) :=
  (readUint32 bs).bind fun (length, rest) => readMessage read length m rest

theorem readNested_fields {m m' : M} {bs written : List UInt8} (fields : Fields read m bs m')
    (wrote : lengthDelimited bs = some written) (rest : List UInt8) :
    readNested read m (written ++ rest) = some (m', rest) := by
  obtain ⟨fits, rfl⟩ := lengthDelimited_eq wrote
  rw [List.append_assoc, readNested, readUint32_varint fits]
  exact readMessage_fields fields rest

/-- A whole message. -/
def fromBinary (read : FieldReader M) (create : M) (bs : List UInt8) : Option M :=
  (readMessage read bs.length create bs).map Prod.fst

theorem fromBinary_fields {create m : M} {bs : List UInt8} (fields : Fields read create bs m) :
    fromBinary read create bs = some m := by
  have whole := readMessage_fields fields []
  rw [List.append_nil] at whole
  rw [fromBinary, whole]; rfl

end

end Lib.Wire
