import Fula.Lib.Truncation
import Fula.Lib.Properties

/-!
# The messages of the graph protocol

`schema/graph.ts` and the `google.protobuf.Value` it uses: for each message type
`internalBinaryRead` and `internalBinaryWrite`. A value nests structs and lists
of values, so its reader is given a depth, which the bytes of a message bound.
What the runtime keeps of unknown fields is left out.

A message is read as it was written, but for what `received` says: the reader's
text decoder drops a byte order mark from the front of each string, and an
object that is read property by property has none called `__proto__`.
-/

namespace Fula.GraphProtocol
set_option autoImplicit false
open Lib Lib.Wire

abbrev Bytes := List UInt8

/-- A JavaScript number, as its eight bytes. -/
abbrev Double := {bs : Bytes // bs.length = 8}

def readDouble (bs : Bytes) : Option (Double × Bytes) :=
  if enough : 8 ≤ bs.length then some (⟨bs.take 8, by simpa using enough⟩, bs.drop 8) else none

theorem readDouble_append (d : Double) (rest : Bytes) : readDouble (d.1 ++ rest) = some (d, rest) := by
  have eight := d.2
  rw [readDouble, dif_pos (by rw [List.length_append]; omega)]
  simp [eight]

theorem readDouble_part (d : Double) {p : Bytes} (part : p <+: d.1) (proper : p ≠ d.1) : readDouble p = none := by
  have eight := d.2
  have less : p.length < d.1.length := lt_of_le_of_ne part.length_le fun same => proper (part.eq_of_length same)
  rw [readDouble, dif_neg (by omega)]

/-! ## Value -/

/-- The `oneof`; `unset` is `oneofKind: undefined`. `NullValue` has just one value. -/
inductive Value where
  | unset
  | null
  | number (numberValue : Double)
  | string (stringValue : String)
  | bool (boolValue : Bool)
  | struct (fields : List (String × Value))
  | list (values : List Value)

namespace Value

/-- `(message.kind as any).structValue`, or a new one. -/
def structTarget : Value → Properties Value
  | .struct fields => fields
  | _ => []

def listTarget : Value → List Value
  | .list values => values
  | _ => []

section
variable (read : FieldReader Value)

/-- The loop of `binaryReadMap1`: the key and the value of one entry. -/
def entryField : FieldReader (Option String × Option Value)
  | m, 1, _, bs => (readString decodeText bs).map fun (key, rest) => ((some key, m.2), rest)
  | m, 2, _, bs => (readNested read .unset bs).map fun (value, rest) => ((m.1, some value), rest)
  | _, _, _, _ => none

/-- `Struct.internalBinaryRead`. -/
def structField : FieldReader (Properties Value)
  | m, 1, _, bs => (readNested (entryField read) (none, none) bs).map fun ((key, value), rest) =>
    (m.setOwn (key.getD "") (value.getD .unset), rest)
  | m, _, wireType, bs => (skipField wireType bs).map fun rest => (m, rest)

/-- `ListValue.internalBinaryRead`. -/
def listField : FieldReader (List Value)
  | m, 1, _, bs => (readNested read .unset bs).map fun (value, rest) => (m ++ [value], rest)
  | m, _, wireType, bs => (skipField wireType bs).map fun rest => (m, rest)

end

/-- Every level of nesting takes a byte or more, so a depth above the number of
bytes is never used up. -/
def readField : Nat → FieldReader Value
  | 0, _, _, _, _ => none
  | _ + 1, _, 1, _, bs => (readUint32 bs).map fun (_, rest) => (.null, rest)
  | _ + 1, _, 2, _, bs => (readDouble bs).map fun (d, rest) => (.number d, rest)
  | _ + 1, _, 3, _, bs => (readString decodeText bs).map fun (s, rest) => (.string s, rest)
  | _ + 1, _, 4, _, bs => (readUint64 bs).map fun (n, rest) => (.bool (n ≠ 0), rest)
  | depth + 1, m, 5, _, bs =>
    (readNested (structField (readField depth)) m.structTarget bs).map fun (fields, rest) => (.struct fields, rest)
  | depth + 1, m, 6, _, bs =>
    (readNested (listField (readField depth)) m.listTarget bs).map fun (values, rest) => (.list values, rest)
  | _ + 1, m, _, wireType, bs => (skipField wireType bs).map fun rest => (m, rest)

mutual

def toBinary : Value → Option Bytes
  | .unset => some []
  | .null => some (tag 1 .varint ++ varint 0)
  | .number d => some (tag 2 .bit64 ++ d.1)
  | .string s => (Wire.string s).map (tag 3 .lengthDelimited ++ ·)
  | .bool b => some (tag 4 .varint ++ varint (if b then 1 else 0))
  | .struct fields => ((structBinary fields).bind lengthDelimited).map (tag 5 .lengthDelimited ++ ·)
  | .list values => ((listBinary values).bind lengthDelimited).map (tag 6 .lengthDelimited ++ ·)

/-- `Struct.internalBinaryWrite`. -/
def structBinary : List (String × Value) → Option Bytes
  | [] => some []
  | (key, value) :: fields => do
    let key ← Wire.string key
    let value ← (toBinary value).bind lengthDelimited
    let entry ← lengthDelimited (tag 1 .lengthDelimited ++ key ++ (tag 2 .lengthDelimited ++ value))
    let rest ← structBinary fields
    some (tag 1 .lengthDelimited ++ entry ++ rest)

/-- `ListValue.internalBinaryWrite`. -/
def listBinary : List Value → Option Bytes
  | [] => some []
  | value :: values => do
    let value ← (toBinary value).bind lengthDelimited
    let rest ← listBinary values
    some (tag 1 .lengthDelimited ++ value ++ rest)

end

mutual

/-- An object has one value for each of its keys. -/
def Distinct : Value → Prop
  | .struct fields => (fields.map (·.1)).Nodup ∧ StructDistinct fields
  | .list values => ListDistinct values
  | _ => True

def StructDistinct : List (String × Value) → Prop
  | [] => True
  | (_, value) :: fields => Distinct value ∧ StructDistinct fields

def ListDistinct : List Value → Prop
  | [] => True
  | value :: values => Distinct value ∧ ListDistinct values

end

mutual

/-- As it is read. -/
def received : Value → Value
  | .string s => .string (unmark s)
  | .struct fields => .struct (Properties.setAll [] (structReceived fields))
  | .list values => .list (listReceived values)
  | value => value

def structReceived : List (String × Value) → List (String × Value)
  | [] => []
  | (key, value) :: fields => (unmark key, received value) :: structReceived fields

def listReceived : List Value → List Value
  | [] => []
  | value :: values => received value :: listReceived values

end

mutual

/-- No string and no property name in it starts with U+FEFF, and no property is called `__proto__`. -/
def Plain : Value → Prop
  | .string s => ¬Marked s
  | .struct fields => StructPlain fields
  | .list values => ListPlain values
  | _ => True

def StructPlain : List (String × Value) → Prop
  | [] => True
  | (key, value) :: fields => (¬Marked key ∧ key ≠ "__proto__") ∧ Plain value ∧ StructPlain fields

def ListPlain : List Value → Prop
  | [] => True
  | value :: values => Plain value ∧ ListPlain values

end

theorem structReceived_length (fields : List (String × Value)) :
    (structReceived fields).length = fields.length := by
  induction fields with
  | nil => rfl
  | cons property fields ih => rw [structReceived, List.length_cons, ih, List.length_cons]

mutual

theorem received_eq_self : ∀ {value : Value}, value.Distinct → (value.received = value ↔ value.Plain)
  | .unset, _ | .null, _ | .number _, _ | .bool _, _ => by simp [received, Plain]
  | .string s, _ => by rw [received, string.injEq, unmark_eq_self, Plain]
  | .struct fields, distinct => by
    rw [received, struct.injEq, Plain, ← structReceived_eq_self distinct.2,
      Properties.setAll_eq_self (structReceived_length fields) distinct.1]
  | .list values, distinct => by rw [received, list.injEq, Plain, listReceived_eq_self distinct]

theorem structReceived_eq_self : ∀ {fields : List (String × Value)}, StructDistinct fields →
    (structReceived fields = fields ∧ "__proto__" ∉ fields.map (·.1) ↔ StructPlain fields)
  | [], _ => by simp [structReceived, StructPlain]
  | (key, value) :: fields, distinct => by
    rw [structReceived, StructPlain, List.cons.injEq, Prod.mk.injEq, unmark_eq_self, received_eq_self distinct.1,
      ← structReceived_eq_self distinct.2, List.map_cons, List.mem_cons, not_or, ne_comm, ne_eq]
    tauto

theorem listReceived_eq_self : ∀ {values : List Value}, ListDistinct values →
    (listReceived values = values ↔ ListPlain values)
  | [], _ => by simp [listReceived, ListPlain]
  | value :: values, distinct => by
    rw [listReceived, ListPlain, List.cons.injEq, received_eq_self distinct.1, listReceived_eq_self distinct.2]

end

/-- How many fields are written. -/
def rank : Value → Nat
  | .unset => 0
  | _ => 1

/-! What is written of a value is read back, and from no part of its bytes. -/

theorem entry_written {read : FieldReader Value} {key : String} {value : Value} {k inner v : Bytes} {n : Nat}
    (wroteKey : Wire.string key = some k) (written : Written read n .unset inner value)
    (wroteValue : lengthDelimited inner = some v) :
    Written (entryField read) 2 (none, none) (tag 1 .lengthDelimited ++ k ++ (tag 2 .lengthDelimited ++ v))
      (some (unmark key), some value) := by
  have keyed : Written (entryField read) 1 (none, none) (tag 1 .lengthDelimited ++ k) (some (unmark key), none) := by
    refine .field (by decide) (by decide) ?_ ?_
    · intro rest
      simp only [entryField, readString_string decodes_text wroteKey, Option.map_some]
    · intro p part proper
      simp only [entryField, readString_part wroteKey part proper, Option.map_none]
  refine keyed.append (.field (by decide) (by decide) ?_ ?_)
  · intro rest
    simp only [entryField, readNested_fields written.fields wroteValue, Option.map_some]
  · intro p part proper
    simp only [entryField, written.nested_part wroteValue part proper, Option.map_none]

mutual

theorem written : ∀ (value : Value) {bs : Bytes}, value.toBinary = some bs → ∀ {depth : Nat}, bs.length < depth →
    Written (readField depth) value.rank .unset bs value.received
  | .unset, _, wrote, _, _ => by
    cases wrote
    exact .nil _
  | .null, _, wrote, depth + 1, _ => by
    cases wrote
    refine .field (by decide) (by decide) ?_ ?_
    · intro rest
      simp only [readField, readUint32_varint (show 0 < 2 ^ 32 by decide), Option.map_some, received]
    · intro p part proper
      simp only [readField, readUint32_part part proper, Option.map_none]
  | .number d, _, wrote, depth + 1, _ => by
    cases wrote
    refine .field (by decide) (by decide) ?_ ?_
    · intro rest
      simp only [readField, readDouble_append, Option.map_some, received]
    · intro p part proper
      simp only [readField, readDouble_part d part proper, Option.map_none]
  | .string s, _, wrote, depth + 1, _ => by
    obtain ⟨text, given, rfl⟩ := Option.map_eq_some_iff.1 wrote
    refine .field (by decide) (by decide) ?_ ?_
    · intro rest
      simp only [readField, readString_string decodes_text given, Option.map_some, received]
    · intro p part proper
      simp only [readField, readString_part given part proper, Option.map_none]
  | .bool b, _, wrote, depth + 1, _ => by
    cases wrote
    have fits : (if b then 1 else 0) < 2 ^ 64 := by cases b <;> decide
    refine .field (by decide) (by decide) ?_ ?_
    · intro rest
      simp only [readField, readUint64_varint fits, Option.map_some, received]
      cases b <;> rfl
    · intro p part proper
      simp only [readField, readUint64_part part proper, Option.map_none]
  | .struct fields, _, wrote, depth + 1, bound => by
    obtain ⟨_, given, rfl⟩ := Option.map_eq_some_iff.1 wrote
    obtain ⟨inner, made, delimited⟩ := Option.bind_eq_some_iff.1 given
    have shorter := lengthDelimited_length delimited
    rw [List.length_append] at bound
    have nested := struct_written fields made (show inner.length < depth by omega) []
    refine .field (by decide) (by decide) ?_ ?_
    · intro rest
      simp only [readField, structTarget, readNested_fields nested.fields delimited, Option.map_some, received]
    · intro p part proper
      simp only [readField, structTarget, nested.nested_part delimited part proper, Option.map_none]
  | .list values, _, wrote, depth + 1, bound => by
    obtain ⟨_, given, rfl⟩ := Option.map_eq_some_iff.1 wrote
    obtain ⟨inner, made, delimited⟩ := Option.bind_eq_some_iff.1 given
    have shorter := lengthDelimited_length delimited
    rw [List.length_append] at bound
    have nested := list_written values made (show inner.length < depth by omega) []
    refine .field (by decide) (by decide) ?_ ?_
    · intro rest
      simp only [readField, listTarget, readNested_fields nested.fields delimited, Option.map_some, received,
        List.nil_append]
    · intro p part proper
      simp only [readField, listTarget, nested.nested_part delimited part proper, Option.map_none]

theorem struct_written : ∀ (fields : List (String × Value)) {bs : Bytes}, structBinary fields = some bs →
    ∀ {depth : Nat}, bs.length < depth → ∀ before : Properties Value,
      Written (structField (readField depth)) fields.length before bs (before.setAll (structReceived fields))
  | [], _, wrote, _, _, before => by
    cases wrote
    exact .nil _
  | (key, value) :: fields, _, wrote, depth, bound, before => by
    simp only [structBinary, Option.bind_eq_bind, Option.bind_eq_some_iff] at wrote
    obtain ⟨k, wroteKey, v, ⟨inner, made, wroteValue⟩, entry, wroteEntry, rest, wroteRest, whole⟩ := wrote
    cases whole
    have innerLess := lengthDelimited_length wroteValue
    have entryLess := lengthDelimited_length wroteEntry
    simp only [List.length_append] at bound entryLess
    have its := written value made (show inner.length < depth by omega)
    have nested := entry_written wroteKey its wroteValue
    have later := struct_written fields wroteRest (show rest.length < depth by omega)
      (before.setOwn (unmark key) value.received)
    rw [List.length_cons, Nat.add_comm]
    refine .append (.field (by decide) (by decide) ?_ ?_) later
    · intro rest
      simp only [structField, readNested_fields nested.fields wroteEntry, Option.map_some, Option.getD_some]
    · intro p part proper
      simp only [structField, nested.nested_part wroteEntry part proper, Option.map_none]

theorem list_written : ∀ (values : List Value) {bs : Bytes}, listBinary values = some bs →
    ∀ {depth : Nat}, bs.length < depth → ∀ before : List Value,
      Written (listField (readField depth)) values.length before bs (before ++ listReceived values)
  | [], _, wrote, _, _, before => by
    cases wrote
    rw [listReceived, List.append_nil]
    exact .nil _
  | value :: values, _, wrote, depth, bound, before => by
    simp only [listBinary, Option.bind_eq_bind, Option.bind_eq_some_iff] at wrote
    obtain ⟨v, ⟨inner, made, delimited⟩, rest, wroteRest, whole⟩ := wrote
    cases whole
    have innerLess := lengthDelimited_length delimited
    simp only [List.length_append] at bound
    have nested := written value made (show inner.length < depth by omega)
    have later := list_written values wroteRest (show rest.length < depth by omega) (before ++ [value.received])
    rw [List.append_assoc] at later
    rw [List.length_cons, Nat.add_comm]
    refine .append (.field (by decide) (by decide) ?_ ?_) later
    · intro rest
      simp only [listField, readNested_fields nested.fields delimited, Option.map_some]
    · intro p part proper
      simp only [listField, nested.nested_part delimited part proper, Option.map_none]

end

/-! A greater depth reads no less. -/

section
variable {read read' : FieldReader Value}

theorem entryField_less (less : Less read read') : Less (entryField read) (entryField read') := by
  intro m no type bs r reads
  unfold entryField at reads ⊢
  split at reads
  · exact reads
  · obtain ⟨nested, found, rfl⟩ := Option.map_eq_some_iff.1 reads
    exact Option.map_eq_some_iff.2 ⟨nested, less.nested found, rfl⟩
  · cases reads

theorem structField_less (less : Less read read') : Less (structField read) (structField read') := by
  intro m no type bs r reads
  unfold structField at reads ⊢
  split at reads
  · obtain ⟨nested, found, rfl⟩ := Option.map_eq_some_iff.1 reads
    exact Option.map_eq_some_iff.2 ⟨nested, (entryField_less less).nested found, rfl⟩
  · exact reads

theorem listField_less (less : Less read read') : Less (listField read) (listField read') := by
  intro m no type bs r reads
  unfold listField at reads ⊢
  split at reads
  · obtain ⟨nested, found, rfl⟩ := Option.map_eq_some_iff.1 reads
    exact Option.map_eq_some_iff.2 ⟨nested, less.nested found, rfl⟩
  · exact reads

end

theorem readField_succ (depth : Nat) : Less (readField depth) (readField (depth + 1)) := by
  induction depth with
  | zero => exact fun _ _ _ _ _ reads => by cases reads
  | succ depth ih =>
    intro m no type bs r reads
    match no with
    | 5 =>
      obtain ⟨nested, found, rfl⟩ := Option.map_eq_some_iff.1 reads
      exact Option.map_eq_some_iff.2 ⟨nested, (structField_less ih).nested found, rfl⟩
    | 6 =>
      obtain ⟨nested, found, rfl⟩ := Option.map_eq_some_iff.1 reads
      exact Option.map_eq_some_iff.2 ⟨nested, (listField_less ih).nested found, rfl⟩
    | 0 | 1 | 2 | 3 | 4 | _ + 7 => exact reads

theorem readField_less {depth depth' : Nat} (le : depth ≤ depth') : Less (readField depth) (readField depth') := by
  induction le with
  | refl => exact fun _ _ _ _ _ reads => reads
  | step _ ih => exact fun m no type bs r reads => readField_succ _ m no type bs r (ih m no type bs r reads)

/-- A value nested in a message of `depth` bytes or less. -/
theorem nested_written {value : Value} {v : Bytes} (given : value.toBinary.bind lengthDelimited = some v)
    {depth : Nat} (bound : v.length ≤ depth) :
    (∀ rest, readNested (readField depth) .unset (v ++ rest) = some (value.received, rest)) ∧
      ∀ p, p <+: v → p ≠ v → readNested (readField depth) .unset p = none := by
  obtain ⟨inner, made, delimited⟩ := Option.bind_eq_some_iff.1 given
  have shorter := lengthDelimited_length delimited
  have nested := written value made (show inner.length < depth by omega)
  exact ⟨readNested_fields nested.fields delimited, fun p => nested.nested_part delimited⟩

end Value

/-! ## Request -/

structure Request where
  query : String := ""
  variableValues : Option Value := none
  operationName : String := ""
  subscribe : Bool := false

namespace Request

def create : Request := {}

def readField (depth : Nat) : FieldReader Request
  | m, 1, _, bs => (readString decodeText bs).map fun (query, rest) => ({ m with query }, rest)
  | m, 2, _, bs => (readNested (Value.readField depth) (m.variableValues.getD .unset) bs).map
    fun (variableValues, rest) => ({ m with variableValues := some variableValues }, rest)
  | m, 3, _, bs => (readString decodeText bs).map fun (operationName, rest) => ({ m with operationName }, rest)
  | m, 4, _, bs => (readUint64 bs).map fun (n, rest) => ({ m with subscribe := n ≠ 0 }, rest)
  | m, _, wireType, bs => (skipField wireType bs).map fun rest => (m, rest)

def toBinary (m : Request) : Option Bytes := do
  let query ← fieldUnless (m.query = "") 1 .lengthDelimited (Wire.string m.query)
  let variableValues ← fieldUnless m.variableValues.isNone 2 .lengthDelimited
    ((m.variableValues.bind Value.toBinary).bind lengthDelimited)
  let operationName ← fieldUnless (m.operationName = "") 3 .lengthDelimited (Wire.string m.operationName)
  let subscribe ← fieldUnless (!m.subscribe) 4 .varint (some (varint (if m.subscribe then 1 else 0)))
  some (query ++ (variableValues ++ (operationName ++ subscribe)))

def fromBinary (bs : Bytes) : Option Request := Wire.fromBinary (readField (bs.length + 1)) create bs

def Distinct (m : Request) : Prop := ∀ value, m.variableValues = some value → value.Distinct

def received (m : Request) : Request :=
  { m with
    query := unmark m.query
    variableValues := m.variableValues.map Value.received
    operationName := unmark m.operationName }

/-- None of its strings starts with U+FEFF, and its variables are read as they are. -/
def Plain (m : Request) : Prop :=
  ¬Marked m.query ∧ ¬Marked m.operationName ∧ ∀ value, m.variableValues = some value → value.Plain

theorem received_eq_self {m : Request} (distinct : m.Distinct) : m.received = m ↔ m.Plain := by
  obtain ⟨query, _ | value, operationName, subscribe⟩ := m
  · simp only [received, Plain, Request.mk.injEq, unmark_eq_self, Option.map_none, and_true, true_and, reduceCtorEq,
      false_implies, implies_true]
  · simp only [received, Plain, Request.mk.injEq, unmark_eq_self, Option.map_some, Option.some.injEq,
      Value.received_eq_self (distinct value rfl), and_true, forall_eq']
    tauto

/-- How many fields differ from their defaults. -/
def rank (m : Request) : Nat :=
  (!decide (m.query = "")).toNat + ((!m.variableValues.isNone).toNat + ((!decide (m.operationName = "")).toNat +
    (!!m.subscribe).toNat))

theorem written {m : Request} {bs : Bytes} (wrote : m.toBinary = some bs) {depth : Nat}
    (bound : bs.length < depth) : Written (readField depth) m.rank create bs m.received := by
  obtain ⟨query, variableValues, operationName, subscribe⟩ := m
  simp only [toBinary, Option.bind_eq_bind, Option.bind_eq_some_iff] at wrote
  obtain ⟨b1, field1, b2, field2, b3, field3, b4, field4, whole⟩ := wrote
  cases whole
  simp only [List.length_append] at bound
  have read1 : Written (readField depth) (!decide (query = "")).toNat create b1 { query := unmark query } :=
    text_written decodes_text (fun query => ({ query } : Request)) field1 (by decide) (by decide) fun _ => rfl
  have read2 : Written (readField depth) (!variableValues.isNone).toNat { query := unmark query } b2
      { query := unmark query, variableValues := variableValues.map Value.received } := by
    cases variableValues with
    | none =>
      cases field2
      exact .nil _
    | some value =>
      obtain ⟨v, given, rfl⟩ := Option.map_eq_some_iff.1 field2
      rw [List.length_append] at bound
      obtain ⟨reads, strict⟩ := Value.nested_written given (show v.length ≤ depth by omega)
      refine .field (by decide) (by decide) ?_ ?_
      · intro rest
        simp only [readField, Option.getD_none, reads, Option.map_some]
      · intro p part proper
        simp only [readField, Option.getD_none, strict p part proper, Option.map_none]
  have read3 : Written (readField depth) (!decide (operationName = "")).toNat
      { query := unmark query, variableValues := variableValues.map Value.received } b3
      { query := unmark query, variableValues := variableValues.map Value.received,
        operationName := unmark operationName } :=
    text_written decodes_text
      (fun operationName =>
        ({ query := unmark query, variableValues := variableValues.map Value.received, operationName } : Request)) field3
      (by decide) (by decide) fun _ => rfl
  have read4 : Written (readField depth) (!!subscribe).toNat
      { query := unmark query, variableValues := variableValues.map Value.received,
        operationName := unmark operationName } b4
      { query := unmark query, variableValues := variableValues.map Value.received,
        operationName := unmark operationName, subscribe } := by
    cases subscribe with
    | false =>
      cases field4
      exact .nil _
    | true =>
      cases field4
      refine .field (by decide) (by decide) ?_ ?_
      · intro rest
        simp only [readField, if_true, readUint64_varint (show 1 < 2 ^ 64 by decide), Option.map_some]
        rfl
      · intro p part proper
        simp only [readField, readUint64_part part proper, Option.map_none]
  exact read1.append (read2.append (read3.append read4))

/-- A field sets one of the four, or none. -/
theorem readField_ranked (depth : Nat) : Ranked (readField depth) rank := by
  intro m no type bs m' rest reads
  unfold readField at reads
  split at reads
  case h_5 =>
    obtain ⟨_, -, same⟩ := Option.map_eq_some_iff.1 reads
    cases same
    exact Nat.le_succ _
  all_goals obtain ⟨⟨value, rest⟩, -, same⟩ := Option.map_eq_some_iff.1 reads; cases same
  · have one := Bool.toNat_le (!decide (value = ""))
    simp only [rank]
    omega
  · have one := Bool.toNat_le (!(some value).isNone)
    simp only [rank]
    omega
  · have one := Bool.toNat_le (!decide (value = ""))
    simp only [rank]
    omega
  · have one := Bool.toNat_le (!!decide (value ≠ 0))
    simp only [rank]
    omega

theorem readField_less {depth depth' : Nat} (le : depth ≤ depth') : Less (readField depth) (readField depth') := by
  intro m no type bs r reads
  unfold readField at reads ⊢
  split at reads
  case h_2 =>
    obtain ⟨nested, found, rfl⟩ := Option.map_eq_some_iff.1 reads
    exact Option.map_eq_some_iff.2 ⟨nested, (Value.readField_less le).nested found, rfl⟩
  all_goals exact reads

/-- What is written of a request is read back as `received` says. -/
theorem fromBinary_toBinary {m : Request} {bs : Bytes} (wrote : m.toBinary = some bs) :
    fromBinary bs = some m.received :=
  fromBinary_fields (written wrote (Nat.lt_succ_self _)).fields

/-- A request is not read from a part of its bytes. -/
theorem only_whole {m : Request} {bs p : Bytes} (wrote : m.toBinary = some bs) (part : p <+: bs)
    (reads : fromBinary p = some m) : p = bs :=
  (written wrote (Nat.lt_succ_self _)).only_whole (readField_ranked _) part
    ((readField_less (Nat.succ_le_succ part.length_le)).fromBinary reads) (by rw [show rank create = 0 from rfl]; omega)

end Request

/-! ## Result -/

/-- The `oneof`; `unset` is `oneofKind: undefined`. -/
inductive Result where
  | unset
  | data (data : Value)
  | error (error : Value)

namespace Result

/-- `(message.dataOrError as any).data`, or a new one. -/
def dataTarget : Result → Value
  | .data value => value
  | _ => .unset

def errorTarget : Result → Value
  | .error value => value
  | _ => .unset

def readField (depth : Nat) : FieldReader Result
  | m, 1, _, bs => (readNested (Value.readField depth) m.dataTarget bs).map fun (value, rest) => (.data value, rest)
  | m, 2, _, bs => (readNested (Value.readField depth) m.errorTarget bs).map fun (value, rest) => (.error value, rest)
  | m, _, wireType, bs => (skipField wireType bs).map fun rest => (m, rest)

def toBinary : Result → Option Bytes
  | .unset => some []
  | .data value => (value.toBinary.bind lengthDelimited).map (tag 1 .lengthDelimited ++ ·)
  | .error value => (value.toBinary.bind lengthDelimited).map (tag 2 .lengthDelimited ++ ·)

def fromBinary (bs : Bytes) : Option Result := Wire.fromBinary (readField (bs.length + 1)) .unset bs

def Distinct : Result → Prop
  | .unset => True
  | .data value => value.Distinct
  | .error value => value.Distinct

theorem readField_less {depth depth' : Nat} (le : depth ≤ depth') : Less (readField depth) (readField depth') := by
  intro m no type bs r reads
  unfold readField at reads ⊢
  split at reads
  case h_3 => exact reads
  all_goals
    obtain ⟨nested, found, rfl⟩ := Option.map_eq_some_iff.1 reads
    exact Option.map_eq_some_iff.2 ⟨nested, (Value.readField_less le).nested found, rfl⟩

def received : Result → Result
  | .unset => .unset
  | .data value => .data value.received
  | .error value => .error value.received

/-- Its value is read as it is. -/
def Plain : Result → Prop
  | .unset => True
  | .data value => value.Plain
  | .error value => value.Plain

theorem received_eq_self {m : Result} (distinct : m.Distinct) : m.received = m ↔ m.Plain := by
  cases m with
  | unset => simp [received, Plain]
  | data value => rw [received, data.injEq, Plain, Value.received_eq_self distinct]
  | error value => rw [received, error.injEq, Plain, Value.received_eq_self distinct]

/-- A result is written as no field or as one. -/
theorem written {m : Result} {bs : Bytes} (wrote : m.toBinary = some bs) {depth : Nat} (bound : bs.length < depth) :
    Fields (readField depth) .unset bs m.received ∧ Strict (readField depth) .unset bs := by
  cases m with
  | unset =>
    cases wrote
    exact ⟨.nil _, fun p part proper => absurd (List.prefix_nil.1 part) proper⟩
  | data value =>
    obtain ⟨v, given, rfl⟩ := Option.map_eq_some_iff.1 wrote
    rw [List.length_append] at bound
    obtain ⟨reads, strict⟩ := Value.nested_written given (show v.length ≤ depth by omega)
    refine ⟨.one (.of_value (by decide) (by decide) ?_), .of_value (by decide) (by decide) ?_⟩
    · intro rest
      simp only [readField, dataTarget, reads, Option.map_some, received]
    · intro p part proper
      simp only [readField, dataTarget, strict p part proper, Option.map_none]
  | error value =>
    obtain ⟨v, given, rfl⟩ := Option.map_eq_some_iff.1 wrote
    rw [List.length_append] at bound
    obtain ⟨reads, strict⟩ := Value.nested_written given (show v.length ≤ depth by omega)
    refine ⟨.one (.of_value (by decide) (by decide) ?_), .of_value (by decide) (by decide) ?_⟩
    · intro rest
      simp only [readField, errorTarget, reads, Option.map_some, received]
    · intro p part proper
      simp only [readField, errorTarget, strict p part proper, Option.map_none]

/-- What is written of a result is read back as `received` says. -/
theorem fromBinary_toBinary {m : Result} {bs : Bytes} (wrote : m.toBinary = some bs) :
    fromBinary bs = some m.received :=
  fromBinary_fields (written wrote (Nat.lt_succ_self _)).1

/-- A part of a result is not read, unless it is empty. -/
theorem fromBinary_part {m r : Result} {bs p : Bytes} (wrote : m.toBinary = some bs) (part : p <+: bs)
    (some_ : p ≠ []) (reads : fromBinary p = some r) : p = bs := by
  by_contra proper
  have strict := (written wrote (Nat.lt_succ_self _)).2
  have more := (readField_less (Nat.succ_le_succ part.length_le)).fromBinary reads
  rw [strict.fromBinary part proper some_] at more
  cases more

/-- A result is not read from a part of its bytes. -/
theorem only_whole {m : Result} {bs p : Bytes} (wrote : m.toBinary = some bs) (part : p <+: bs)
    (reads : fromBinary p = some m) : p = bs := by
  cases p with
  | nil =>
    cases reads
    cases wrote
    rfl
  | cons byte p => exact fromBinary_part wrote part (List.cons_ne_nil _ _) reads

end Result

end Fula.GraphProtocol
