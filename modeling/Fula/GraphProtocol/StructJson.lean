import Fula.GraphProtocol.Framing

/-!
# JSON values as protobuf values

`fula.graphql` hands its variables over as JSON. `Value.fromJson` makes a
`google.protobuf.Value` of them, which is sent, and the box takes the JSON out
again with `Value.toJson`; a result goes the same way back.

An object literal cannot be given a property of the name `__proto__` by an
assignment: it sets the prototype. And the reader drops a U+FEFF from the front
of each string and key. `toJson_received` says that this is all that is lost.
`internalJsonRead` decodes each object twice; `calls_eq` says what that costs.
-/

namespace Fula.GraphProtocol
set_option autoImplicit false
open Lib Lib.Wire

/-- What `fromJson` is given: an object is the list of its `Object.entries`. -/
inductive JsonValue where
  | null
  | number (n : Double)
  | string (s : String)
  | boolean (b : Bool)
  | array (elements : List JsonValue)
  | object (entries : List (String × JsonValue))
  /-- `undefined`, a function, a symbol or a bigint. -/
  | other

namespace Value

mutual

/-- `Value.internalJsonRead` -/
def fromJson : JsonValue → Option Value
  | .null => some .null
  | .number n => some (.number n)
  | .string s => some (.string s)
  | .boolean b => some (.bool b)
  | .array elements => (listFromJson elements).map .list
  | .object entries => do
    -- `val` is not used
    let _val ← structFromJson [] entries
    let fields ← structFromJson [] entries
    some (.struct fields)
  | .other => none

/-- `Struct.internalJsonRead`, with what it has assigned so far. -/
def structFromJson (fields : Properties Value) : List (String × JsonValue) → Option (Properties Value)
  | [] => some fields
  | (k, v) :: entries => do
    let value ← fromJson v
    structFromJson (fields.setOwn k value) entries

/-- `ListValue.internalJsonRead` -/
def listFromJson : List JsonValue → Option (List Value)
  | [] => some []
  | element :: elements => do
    let value ← fromJson element
    let values ← listFromJson elements
    some (value :: values)

end

mutual

/-- `Value.internalJsonWrite` -/
def toJson : Value → Option JsonValue
  | .unset => none
  | .null => some .null
  | .number n => some (.number n)
  | .string s => some (.string s)
  | .bool b => some (.boolean b)
  | .struct fields => (structToJson [] fields).map .object
  | .list values => (listToJson values).map .array

/-- `Struct.internalJsonWrite`, with what it has assigned so far. -/
def structToJson (json : Properties JsonValue) : List (String × Value) → Option (Properties JsonValue)
  | [] => some json
  | (k, v) :: fields => do
    let value ← toJson v
    structToJson (json.setOwn k value) fields

/-- `ListValue.internalJsonWrite` -/
def listToJson : List Value → Option (List JsonValue)
  | [] => some []
  | value :: values => do
    let element ← toJson value
    let elements ← listToJson values
    some (element :: elements)

end

end Value

namespace JsonValue

mutual

/-- The value itself and all that it contains. -/
def nodes : JsonValue → List JsonValue
  | .array elements => .array elements :: listNodes elements
  | .object entries => .object entries :: entriesNodes entries
  | j => [j]

def listNodes : List JsonValue → List JsonValue
  | [] => []
  | element :: elements => nodes element ++ listNodes elements

def entriesNodes : List (String × JsonValue) → List JsonValue
  | [] => []
  | (_, v) :: entries => nodes v ++ entriesNodes entries

end

mutual

/-- As it comes out on the other side. -/
def received : JsonValue → JsonValue
  | .string s => .string (unmark s)
  | .array elements => .array (elementsReceived elements)
  | .object entries => .object (Properties.setAll [] (entriesReceived entries))
  | j => j

def elementsReceived : List JsonValue → List JsonValue
  | [] => []
  | element :: elements => received element :: elementsReceived elements

def entriesReceived : List (String × JsonValue) → List (String × JsonValue)
  | [] => []
  | (k, v) :: entries => (unmark k, received v) :: entriesReceived entries

end

/-- An object has one value for each of its keys. -/
def Distinct (j : JsonValue) : Prop := ∀ entries, .object entries ∈ j.nodes → (entries.map (·.1)).Nodup

/-- A string, or the keys of an object, without the two things that are lost. -/
def PlainNode : JsonValue → Prop
  | .string s => ¬Marked s
  | .object entries => "__proto__" ∉ entries.map (·.1) ∧ ∀ k ∈ entries.map (·.1), ¬Marked k
  | _ => True

/-- No object in it has a property called `__proto__`, and no string and no key in it starts with U+FEFF. -/
def Plain (j : JsonValue) : Prop := ∀ node ∈ j.nodes, node.PlainNode

end JsonValue

/-! ## What is lost -/

namespace Value
open JsonValue

mutual

/-- Nothing but a value that JSON has no form for is refused. -/
theorem fromJson_isSome : ∀ j : JsonValue, (fromJson j).isSome = true ↔ .other ∉ j.nodes
  | .null | .number _ | .string _ | .boolean _ | .other => by simp [fromJson, nodes]
  | .array elements => by simp [fromJson, nodes, listFromJson_isSome elements]
  | .object entries => by
    have fields := structFromJson_isSome entries []
    cases made : structFromJson [] entries with
    | none => simpa [fromJson, nodes, made] using fields
    | some _ => simpa [fromJson, nodes, made] using fields

theorem structFromJson_isSome : ∀ (entries : List (String × JsonValue)) (fields : Properties Value),
    (structFromJson fields entries).isSome = true ↔ .other ∉ entriesNodes entries
  | [], _ => by simp [structFromJson, entriesNodes]
  | (k, v) :: entries, fields => by
    have first := fromJson_isSome v
    cases made : fromJson v with
    | none => simp_all [structFromJson, entriesNodes]
    | some value => simp_all [structFromJson, entriesNodes, structFromJson_isSome entries (fields.setOwn k value)]

theorem listFromJson_isSome : ∀ elements : List JsonValue,
    (listFromJson elements).isSome = true ↔ .other ∉ listNodes elements
  | [] => by simp [listFromJson, listNodes]
  | element :: elements => by
    have first := fromJson_isSome element
    have later := listFromJson_isSome elements
    cases made : fromJson element with
    | none => simp_all [listFromJson, listNodes]
    | some value => cases rest : listFromJson elements <;> simp_all [listFromJson, listNodes]

end

/-- An object that is read: the values of its entries, assigned one after the other. -/
theorem structFromJson_eq {entries : List (String × JsonValue)} {before fields : Properties Value}
    (read : structFromJson before entries = some fields) :
    ∃ values, Properties.onValues fromJson entries = Properties.onValues some values ∧
      fields = before.setAll values := by
  induction entries generalizing before with
  | nil =>
    cases read
    exact ⟨[], rfl, rfl⟩
  | cons entry entries ih =>
    obtain ⟨k, v⟩ := entry
    simp only [structFromJson, Option.bind_eq_bind, Option.bind_eq_some_iff] at read
    obtain ⟨value, its, read⟩ := read
    obtain ⟨values, others, rfl⟩ := ih read
    refine ⟨(k, value) :: values, ?_, rfl⟩
    rw [Properties.onValues_cons, Properties.onValues_cons, its, others]

theorem structToJson_eq {fields : List (String × Value)} {json' : Properties JsonValue}
    (each : Properties.onValues toJson fields = Properties.onValues some json') (json : Properties JsonValue) :
    structToJson json fields = some (json.setAll json') := by
  induction fields generalizing json json' with
  | nil =>
    obtain rfl := List.map_eq_nil_iff.1 each.symm
    rfl
  | cons field fields ih =>
    obtain ⟨k, value⟩ := field
    obtain ⟨⟨k', v⟩, json', rfl, first, later⟩ := List.map_eq_cons_iff.1 each.symm
    rw [Prod.mk.injEq] at first
    obtain ⟨rfl, its⟩ := first
    rw [structToJson, ← its, Option.bind_eq_bind, Option.bind_some, ih later.symm]
    rfl

/-- What is left out at once would be left out later. -/
theorem setAll_structReceived (object : Properties Value) (values : Properties Value) :
    object.setAll (structReceived (values.filter (·.1 ≠ "__proto__"))) = object.setAll (structReceived values) := by
  induction values generalizing object with
  | nil => rfl
  | cons entry values ih =>
    obtain ⟨k, value⟩ := entry
    by_cases proto : k = "__proto__"
    · subst proto
      rw [List.filter_cons_of_neg (by simp), ih, structReceived, Properties.setAll_cons,
        show unmark "__proto__" = "__proto__" by decide, Properties.setOwn_proto]
    · rw [List.filter_cons_of_pos (by simpa using proto), structReceived, structReceived, Properties.setAll_cons,
        Properties.setAll_cons, ih]

mutual

/-- What comes out of a value that was read from JSON and received. -/
theorem toJson_received : ∀ (j : JsonValue) {v : Value}, fromJson j = some v → j.Distinct →
    v.received.toJson = some j.received
  | .null, _, read, _ | .number _, _, read, _ | .string _, _, read, _ | .boolean _, _, read, _ => by
    cases read
    rfl
  | .array elements, _, read, distinct => by
    obtain ⟨values, made, rfl⟩ := Option.map_eq_some_iff.1 read
    have wrote := listToJson_received elements made fun entries member =>
      distinct entries (List.mem_cons_of_mem _ member)
    rw [Value.received, toJson, wrote]
    rfl
  | .object entries, _, read, distinct => by
    simp only [fromJson, Option.bind_eq_bind, Option.bind_eq_some_iff] at read
    obtain ⟨_, -, _, made, whole⟩ := read
    cases whole
    obtain ⟨values, each, rfl⟩ := structFromJson_eq made
    have keys : (values.map (·.1)).Nodup := by
      have same := congrArg (List.map (·.1)) each
      rw [Properties.keys_onValues, Properties.keys_onValues] at same
      rw [← same]
      exact distinct entries List.mem_cons_self
    have wrote := structToJson_received entries each fun inner member =>
      distinct inner (List.mem_cons_of_mem _ member)
    have assigned : Properties.onValues toJson (Properties.setAll [] (structReceived values)) =
        Properties.onValues some (Properties.setAll [] (entriesReceived entries)) := by
      rw [Properties.onValues_setAll, wrote, Properties.onValues_setAll]
      rfl
    obtain ⟨one, own⟩ := @Properties.keys_setAll _ [] List.nodup_nil List.not_mem_nil (entriesReceived entries)
    rw [Value.received, @Properties.setAll_new _ [] values (by simpa using keys), List.nil_append,
      setAll_structReceived, toJson, structToJson_eq assigned, Properties.setAll_self one own]
    rfl

theorem structToJson_received : ∀ (entries : List (String × JsonValue)) {values : List (String × Value)},
    Properties.onValues fromJson entries = Properties.onValues some values →
    (∀ inner, .object inner ∈ entriesNodes entries → (inner.map (·.1)).Nodup) →
    Properties.onValues toJson (structReceived values) = Properties.onValues some (entriesReceived entries)
  | [], _, each, _ => by
    obtain rfl := List.map_eq_nil_iff.1 each.symm
    rfl
  | (k, v) :: entries, _, each, distinct => by
    obtain ⟨⟨k', value⟩, values, rfl, first, later⟩ := List.map_eq_cons_iff.1 each.symm
    rw [Prod.mk.injEq] at first
    obtain ⟨rfl, its⟩ := first
    have wrote := toJson_received v its.symm fun inner member => distinct inner (List.mem_append_left _ member)
    have others := structToJson_received entries later.symm fun inner member =>
      distinct inner (List.mem_append_right _ member)
    rw [structReceived, entriesReceived, Properties.onValues_cons, Properties.onValues_cons, wrote, others]

theorem listToJson_received : ∀ (elements : List JsonValue) {values : List Value},
    listFromJson elements = some values →
    (∀ inner, .object inner ∈ listNodes elements → (inner.map (·.1)).Nodup) →
    listToJson (listReceived values) = some (elementsReceived elements)
  | [], _, read, _ => by
    cases read
    rfl
  | element :: elements, _, read, distinct => by
    simp only [listFromJson, Option.bind_eq_bind, Option.bind_eq_some_iff] at read
    obtain ⟨value, its, values, rest, whole⟩ := read
    cases whole
    have wrote := toJson_received element its fun inner member => distinct inner (List.mem_append_left _ member)
    have others := listToJson_received elements rest fun inner member =>
      distinct inner (List.mem_append_right _ member)
    rw [listReceived, listToJson, wrote, Option.bind_eq_bind, Option.bind_some, others]
    rfl

end

end Value

namespace JsonValue

theorem entriesReceived_length (entries : List (String × JsonValue)) :
    (entriesReceived entries).length = entries.length := by
  induction entries with
  | nil => rfl
  | cons property entries ih => rw [entriesReceived, List.length_cons, ih, List.length_cons]

mutual

theorem received_eq_self : ∀ {j : JsonValue}, j.Distinct → (j.received = j ↔ j.Plain)
  | .null, _ | .number _, _ | .boolean _, _ | .other, _ => by simp [received, Plain, nodes, PlainNode]
  | .string s, _ => by simp [received, unmark_eq_self, Plain, nodes, PlainNode]
  | .array elements, distinct => by
    rw [received, array.injEq, elementsReceived_eq_self fun inner member => distinct inner (List.mem_cons_of_mem _ member)]
    simp [Plain, nodes, PlainNode]
  | .object entries, distinct => by
    rw [received, object.injEq,
      Properties.setAll_eq_self (entriesReceived_length entries) (distinct entries List.mem_cons_self),
      entriesReceived_eq_self fun inner member => distinct inner (List.mem_cons_of_mem _ member)]
    simp only [Plain, nodes, List.forall_mem_cons, PlainNode]
    tauto

theorem elementsReceived_eq_self : ∀ {elements : List JsonValue},
    (∀ inner, .object inner ∈ listNodes elements → (inner.map (·.1)).Nodup) →
    (elementsReceived elements = elements ↔ ∀ node ∈ listNodes elements, node.PlainNode)
  | [], _ => by simp [elementsReceived, listNodes]
  | element :: elements, distinct => by
    rw [elementsReceived, List.cons.injEq, listNodes, List.forall_mem_append,
      received_eq_self fun inner member => distinct inner (List.mem_append_left _ member),
      elementsReceived_eq_self fun inner member => distinct inner (List.mem_append_right _ member), Plain]

theorem entriesReceived_eq_self : ∀ {entries : List (String × JsonValue)},
    (∀ inner, .object inner ∈ entriesNodes entries → (inner.map (·.1)).Nodup) →
    (entriesReceived entries = entries ↔
      (∀ k ∈ entries.map (·.1), ¬Marked k) ∧ ∀ node ∈ entriesNodes entries, node.PlainNode)
  | [], _ => by simp [entriesReceived, entriesNodes]
  | (k, v) :: entries, distinct => by
    rw [entriesReceived, List.cons.injEq, Prod.mk.injEq, unmark_eq_self, entriesNodes, List.forall_mem_append,
      received_eq_self fun inner member => distinct inner (List.mem_append_left _ member),
      entriesReceived_eq_self fun inner member => distinct inner (List.mem_append_right _ member), Plain,
      List.map_cons, List.forall_mem_cons]
    tauto

end

end JsonValue

/-! ## A query and its answer -/

theorem receivedJson_iff {j : JsonValue} {v : Value} (distinct : j.Distinct) (read : Value.fromJson j = some v) :
    v.received.toJson = some j ↔ j.Plain := by
  rw [Value.toJson_received j read distinct, Option.some.injEq, JsonValue.received_eq_self distinct]

section
variable {asked answer : JsonValue} {v w : Value} {bs : Bytes} {frames : List Bytes}

/-- **What crosses between `graphql` and the box's executor**: the query method is called with the query and the
operation name as they are decoded, and with what is received of the client's variables; the client gets what is
received of the box's answer. Variables and answer are what they were just when nothing in them has a property called
`__proto__`, nor a string or a key that starts with U+FEFF. -/
theorem query_exchange (req : Request) (distinct : asked.Distinct) (distinct' : answer.Distinct)
    (read : Value.fromJson asked = some v) (read' : Value.fromJson answer = some w)
    (wrote : { req with variableValues := some v, subscribe := false }.toBinary = some bs)
    (answered : queryResolution (.data w) = some frames) :
    ∃ received data, handler (streamQuerySubmission { req with variableValues := some v, subscribe := false }) =
        some (.resolve received) ∧
      received.query = unmark req.query ∧ received.operationName = unmark req.operationName ∧
      submitQuery protocol frames = some (some (.data data)) ∧
      received.variableValues.bind Value.toJson = some asked.received ∧ data.toJson = some answer.received ∧
      (received.variableValues.bind Value.toJson = some asked ↔ asked.Plain) ∧
      (data.toJson = some answer ↔ answer.Plain) := by
  obtain ⟨bs', wrote', rfl⟩ := Option.map_eq_some_iff.1 answered
  refine ⟨({ req with variableValues := some v, subscribe := false } : Request).received, w.received, ?_, rfl, rfl, ?_,
    Value.toJson_received asked read distinct, Value.toJson_received answer read' distinct',
    receivedJson_iff distinct read, receivedJson_iff distinct' read'⟩
  · simp [handler, streamQuerySubmission, wrote, Request.fromBinary_toBinary wrote, resolution, Request.received]
  · simp [submitQuery, Result.fromBinary_toBinary wrote', Result.received]

/-- A variable called `__proto__`: the box is asked with no variables. -/
theorem query_exchange_proto : ∃ received data,
    handler (streamQuerySubmission { variableValues := some (.struct []), subscribe := false }) =
      some (.resolve received) ∧
    received.query = unmark "" ∧ received.operationName = unmark "" ∧
    submitQuery protocol [[10, 2, 32, 1]] = some (some (.data data)) ∧
    received.variableValues.bind Value.toJson = some (JsonValue.object [("__proto__", .null)]).received ∧
    data.toJson = some (JsonValue.boolean true).received ∧
    (received.variableValues.bind Value.toJson = some (.object [("__proto__", .null)]) ↔
      (JsonValue.object [("__proto__", .null)]).Plain) ∧
    (data.toJson = some (.boolean true) ↔ (JsonValue.boolean true).Plain) :=
  @query_exchange (.object [("__proto__", .null)]) (.boolean true) _ _ _ _ {}
    (by simp [JsonValue.Distinct, JsonValue.nodes, JsonValue.entriesNodes])
    (by simp [JsonValue.Distinct, JsonValue.nodes]) rfl rfl rfl rfl

end

/-! ## What decoding costs -/

namespace JsonValue
open Value

mutual

/-- The calls of `Value.fromJson` made by decoding, the first included, as `counted` counts them; nothing is called
after one that throws. -/
def calls : JsonValue → Nat
  | .array elements => 1 + listCalls elements
  | .object entries =>
    1 + (entriesCalls entries + if (structFromJson [] entries).isSome then entriesCalls entries else 0)
  | _ => 1

def listCalls : List JsonValue → Nat
  | [] => 0
  | element :: elements => calls element + if (fromJson element).isSome then listCalls elements else 0

def entriesCalls : List (String × JsonValue) → Nat
  | [] => 0
  | (_, v) :: entries => calls v + if (fromJson v).isSome then entriesCalls entries else 0

end

mutual

/-- `Value.fromJson` with a counter of its calls. -/
def counted : JsonValue → Option Value × Nat
  | .null => (some .null, 1)
  | .number n => (some (.number n), 1)
  | .string s => (some (.string s), 1)
  | .boolean b => (some (.bool b), 1)
  | .array elements =>
    let (values, n) := listCounted elements
    (values.map .list, 1 + n)
  | .object entries =>
    match structCounted [] entries with
    | (none, n) => (none, 1 + n)
    | (some _, n) =>
      let (fields, m) := structCounted [] entries
      (fields.map .struct, 1 + (n + m))
  | .other => (none, 1)

def structCounted (fields : Properties Value) : List (String × JsonValue) → Option (Properties Value) × Nat
  | [] => (some fields, 0)
  | (k, v) :: entries =>
    match counted v with
    | (none, n) => (none, n)
    | (some value, n) =>
      let (fields, m) := structCounted (fields.setOwn k value) entries
      (fields, n + m)

def listCounted : List JsonValue → Option (List Value) × Nat
  | [] => (some [], 0)
  | element :: elements =>
    match counted element with
    | (none, n) => (none, n)
    | (some value, n) =>
      let (values, m) := listCounted elements
      (values.map (value :: ·), n + m)

end

mutual

theorem counted_eq : ∀ j : JsonValue, j.counted = (fromJson j, j.calls)
  | .null | .number _ | .string _ | .boolean _ | .other => rfl
  | .array elements => by rw [counted, listCounted_eq elements]; rfl
  | .object entries => by
    rw [counted, structCounted_eq entries []]
    cases made : structFromJson [] entries with
    | none => simp [fromJson, calls, made]
    | some fields => simp [fromJson, calls, made]

theorem structCounted_eq : ∀ (entries : List (String × JsonValue)) (fields : Properties Value),
    structCounted fields entries = (structFromJson fields entries, entriesCalls entries)
  | [], _ => rfl
  | (k, v) :: entries, fields => by
    rw [structCounted, counted_eq v]
    cases made : fromJson v with
    | none => simp [structFromJson, entriesCalls, made]
    | some value => simp [structFromJson, entriesCalls, made, structCounted_eq entries (fields.setOwn k value)]

theorem listCounted_eq : ∀ elements : List JsonValue,
    listCounted elements = (listFromJson elements, listCalls elements)
  | [] => rfl
  | element :: elements => by
    rw [listCounted, counted_eq element]
    cases made : fromJson element with
    | none => simp [listFromJson, listCalls, made]
    | some value =>
      rw [listCounted_eq elements]
      cases rest : listFromJson elements <;> simp [listFromJson, listCalls, made, rest]

end

mutual

/-- For each node, how many objects it is in, `d` more. -/
def depths (d : Nat) : JsonValue → List Nat
  | .array elements => d :: listDepths d elements
  | .object entries => d :: entriesDepths (d + 1) entries
  | _ => [d]

def listDepths (d : Nat) : List JsonValue → List Nat
  | [] => []
  | element :: elements => depths d element ++ listDepths d elements

def entriesDepths (d : Nat) : List (String × JsonValue) → List Nat
  | [] => []
  | (_, v) :: entries => depths d v ++ entriesDepths d entries

end

mutual

theorem sum_depths : ∀ (j : JsonValue) (d : Nat), .other ∉ j.nodes → ((depths d j).map (2 ^ ·)).sum = 2 ^ d * j.calls
  | .null, _, _ | .number _, _, _ | .string _, _, _ | .boolean _, _, _ | .other, _, _ => by simp [depths, calls]
  | .array elements, d, plain => by
    have later := sum_listDepths elements d fun member => plain (List.mem_cons_of_mem _ member)
    rw [depths, calls, List.map_cons, List.sum_cons, later]
    ring
  | .object entries, d, plain => by
    have inside : .other ∉ entriesNodes entries := fun member => plain (List.mem_cons_of_mem _ member)
    have later := sum_entriesDepths entries (d + 1) inside
    rw [depths, calls, if_pos ((structFromJson_isSome entries []).2 inside), List.map_cons, List.sum_cons, later]
    ring

theorem sum_listDepths : ∀ (elements : List JsonValue) (d : Nat), .other ∉ listNodes elements →
    ((listDepths d elements).map (2 ^ ·)).sum = 2 ^ d * listCalls elements
  | [], _, _ => by simp [listDepths, listCalls]
  | element :: elements, d, plain => by
    obtain ⟨first, later⟩ := not_or.1 (mt List.mem_append.2 plain)
    rw [listDepths, listCalls, if_pos ((fromJson_isSome element).2 first), List.map_append, List.sum_append,
      sum_depths element d first, sum_listDepths elements d later]
    ring

theorem sum_entriesDepths : ∀ (entries : List (String × JsonValue)) (d : Nat), .other ∉ entriesNodes entries →
    ((entriesDepths d entries).map (2 ^ ·)).sum = 2 ^ d * entriesCalls entries
  | [], _, _ => by simp [entriesDepths, entriesCalls]
  | (_, v) :: entries, d, plain => by
    obtain ⟨first, later⟩ := not_or.1 (mt List.mem_append.2 plain)
    rw [entriesDepths, entriesCalls, if_pos ((fromJson_isSome v).2 first), List.map_append, List.sum_append,
      sum_depths v d first, sum_entriesDepths entries d later]
    ring

end

/-- **Each object doubles the work on what it contains**: a value that is decoded is decoded once for every two to
the number of objects around it, so that the calls grow exponentially with the nesting. -/
theorem calls_eq {j : JsonValue} (plain : .other ∉ j.nodes) :
    j.calls = ((j.depths 0).map (2 ^ ·)).sum ∧ ∀ d ∈ j.depths 0, 2 ^ d ≤ j.calls := by
  have whole := sum_depths j 0 plain
  rw [Nat.pow_zero, Nat.one_mul] at whole
  refine ⟨whole.symm, fun d member => ?_⟩
  rw [← whole]
  exact List.single_le_sum (by simp) _ (List.mem_map_of_mem member)

/-- Three objects around a `null`. -/
theorem calls_eq_nested :
    (object [("a", .object [("b", .object [("c", .null)])])]).calls =
        (((object [("a", .object [("b", .object [("c", .null)])])]).depths 0).map (2 ^ ·)).sum ∧
      ∀ d ∈ (object [("a", .object [("b", .object [("c", .null)])])]).depths 0,
        2 ^ d ≤ (object [("a", .object [("b", .object [("c", .null)])])]).calls :=
  calls_eq (by simp [nodes, entriesNodes])

end JsonValue

end Fula.GraphProtocol
