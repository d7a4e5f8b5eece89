import Fula.Lib.Throws
import Fula.Graph.UpdateQuery

/-!
# Filters that are refused

A filter is whatever JSON value came in the request, and nothing checks it: it
is refused when making the filter function or calling it on a document throws.
`Refused` says which values are, by the kind of each value on the way down:
null, strings and lists that are not empty, logical keys without a list, and
conditions with an operand or an operator that `evaluate` does not take.

Numbers, booleans and what is empty have no entries. As conditions they hold of
every document.
-/

namespace Fula.Graph
set_option autoImplicit false
open Lib

variable {V : Type} (js : JavaScript V)

/-- `_reGetFilter(filter)(doc)`. -/
def verdict (filter : Json) (doc : Doc) : Except Error Bool := do
  let selects ← _reGetFilter js filter
  selects doc

/-- The operators of `evaluate`. -/
def operators : List String := ["ne", "gt", "lt", "gte", "lte", "eq", "in", "nin"]

/-- What an operator says of a field, where it does not throw. -/
def comparison (field : V) : String × Json → Bool
  | ("ne", value) => js.ne field value
  | ("gt", value) => js.gt field value
  | ("lt", value) => js.lt field value
  | ("gte", value) => js.gte field value
  | ("lte", value) => js.lte field value
  | ("eq", value) => js.eq field value
  | ("in", .arr elements) => elements.any (js.strictEq field)
  | ("nin", .arr elements) => !elements.any (js.strictEq field)
  | _ => false

/-- An operand that is falsy, or an operator that is not implemented. -/
def Unusable (op : String × Json) : Prop := op.2.truthy = false ∨ op.1 ∉ operators

/-- `in` or `nin` of an object, which has no `indexOf`. -/
def Indexless (op : String × Json) : Prop := (op.1 = "in" ∨ op.1 = "nin") ∧ ∃ fields, op.2 = .obj fields

/-- A condition on the field that `evaluate` refuses. -/
inductive RefusedCondition (field : V) : Json → Prop
  | null : RefusedCondition field .null
  | string (s : String) (some_ : s ≠ "") : RefusedCondition field (.str s)
  | list (vs : List Json) (some_ : vs ≠ []) : RefusedCondition field (.arr vs)
  | unusable (ops : List (String × Json)) (op : String × Json) (member : op ∈ ops) (bad : Unusable op) :
      RefusedCondition field (.obj ops)
  -- It is only called where all operators before it hold.
  | indexless (before after : List (String × Json)) (op : String × Json) (bad : Indexless op)
      (hold : before.all (comparison js field) = true) : RefusedCondition field (.obj (before ++ op :: after))

/-- A filter that `_reGetFilter` refuses on the document. -/
inductive Refused (doc : Doc) : Json → Prop
  | null : Refused doc .null
  | string (s : String) (some_ : s ≠ "") : Refused doc (.str s)
  | list (vs : List Json) (name : String) (atom : Json) (member : (name, atom) ∈ Json.indexed vs)
      (bad : RefusedCondition js (js.get doc name) atom) : Refused doc (.arr vs)
  | field (fields : List (String × Json)) (leaf : isLeaf fields = true) (name : String) (atom : Json)
      (member : (name, atom) ∈ fields) (bad : RefusedCondition js (js.get doc name) atom) :
      Refused doc (.obj fields)
  | operand (op : String) (value : Json) (rest : List (String × Json))
      (logical : isLeaf ((op, value) :: rest) = false) (bad : ∀ nodes, value ≠ .arr nodes) :
      Refused doc (.obj ((op, value) :: rest))
  -- Of the logical keys only the first is looked at.
  | child (op : String) (nodes : List Json) (rest : List (String × Json))
      (logical : isLeaf ((op, .arr nodes) :: rest) = false) (node : Json) (member : node ∈ nodes)
      (bad : Refused doc node) : Refused doc (.obj ((op, .arr nodes) :: rest))

/-! ## One condition -/

variable {js}

/-- The two operators that call `indexOf`. -/
theorem evaluateOperator_list {doc : Doc} {fieldName name : String} {value : Json} {prev : Bool}
    (list : name = "in" ∨ name = "nin") (truthy : value.truthy = true)
    (called : ¬(Indexless (name, value) ∧ prev = true)) :
    evaluateOperator js doc fieldName prev (name, value) =
      .ok (prev && comparison js (js.get doc fieldName) (name, value)) := by
  simp only [evaluateOperator, truthy, Bool.not_true, Bool.false_eq_true, if_false]
  cases value with
  | obj fields =>
    have first : prev = false := by simpa [Indexless, list] using called
    rcases list with rfl | rfl <;> simp [first]
  | arr elements => rcases list with rfl | rfl <;> rfl
  | null => cases truthy
  | bool b => rcases list with rfl | rfl <;> simp [comparison]
  | num n => rcases list with rfl | rfl <;> simp [comparison]
  | str s => rcases list with rfl | rfl <;> simp [comparison]

theorem evaluateOperator_usable {doc : Doc} {fieldName : String} {op : String × Json} (usable : ¬Unusable op)
    {prev : Bool} (called : ¬(Indexless op ∧ prev = true)) :
    evaluateOperator js doc fieldName prev op = .ok (prev && comparison js (js.get doc fieldName) op) := by
  obtain ⟨name, value⟩ := op
  simp only [Unusable, not_or, Bool.not_eq_false, not_not] at usable
  obtain ⟨truthy, known⟩ := usable
  simp only [operators, List.mem_cons, List.not_mem_nil, or_false] at known
  by_cases list : name = "in" ∨ name = "nin"
  · exact evaluateOperator_list list truthy called
  · rw [not_or] at list
    simp only [list.1, list.2, or_false] at known
    simp only [evaluateOperator, truthy, Bool.not_true, Bool.false_eq_true, if_false]
    rcases known with rfl | rfl | rfl | rfl | rfl | rfl <;> rfl

theorem throws_evaluateOperator {doc : Doc} {fieldName : String} {op : String × Json} {prev : Bool} :
    Throws (evaluateOperator js doc fieldName prev op) ↔ Unusable op ∨ Indexless op ∧ prev = true := by
  constructor
  · intro thrown
    by_contra usable
    rw [not_or] at usable
    rw [evaluateOperator_usable usable.1 usable.2] at thrown
    exact not_throws_ok _ thrown
  · obtain ⟨name, value⟩ := op
    rintro ((falsy | unknown) | ⟨⟨list, fields, object⟩, first⟩)
    · change value.truthy = false at falsy
      exact ⟨.thrown "bad query", by simp [evaluateOperator, falsy]⟩
    · change name ∉ operators at unknown
      simp only [operators, List.mem_cons, List.not_mem_nil, or_false, not_or] at unknown
      simp only [evaluateOperator]
      split
      · exact throws_error _
      · split <;> simp_all
    · change value = _ at object
      subst object first
      rcases list with rfl | rfl
      · exact throws_error _
      · exact throws_error _

theorem throws_foldlM {doc : Doc} {fieldName : String} {prev : Bool} {ops : List (String × Json)} :
    Throws (ops.foldlM (evaluateOperator js doc fieldName) prev) ↔ (∃ op ∈ ops, Unusable op) ∨
      prev = true ∧ ∃ before op after, ops = before ++ op :: after ∧ Indexless op ∧
        before.all (comparison js (js.get doc fieldName)) = true := by
  induction ops generalizing prev with
  | nil => simp [pure, Except.pure]
  | cons first ops ih =>
    rw [List.foldlM_cons, throws_bind, throws_evaluateOperator]
    by_cases bad : Unusable first
    · simp [bad]
    by_cases called : Indexless first ∧ prev = true
    · simp only [called, true_and, or_true, true_or, true_iff]
      exact .inr ⟨[], first, ops, rfl, called.1, rfl⟩
    simp only [bad, called, or_false, false_or, evaluateOperator_usable bad called, Except.ok.injEq,
      exists_eq_left', ih, List.mem_cons, exists_eq_or_imp, Bool.and_eq_true]
    refine or_congr Iff.rfl ⟨?_, ?_⟩
    · rintro ⟨⟨on, holds⟩, before, op, after, rfl, object, hold⟩
      exact ⟨on, first :: before, op, after, rfl, object, by simp [holds, hold]⟩
    · rintro ⟨on, before, op, after, split, object, hold⟩
      cases before with
      | nil =>
        cases split
        exact absurd ⟨object, on⟩ called
      | cons b before =>
        cases split
        rw [List.all_cons, Bool.and_eq_true] at hold
        exact ⟨⟨on, hold.1⟩, before, op, after, rfl, object, hold.2⟩

theorem isDigit_of_mem_indexed {vs : List Json} {name : String} {value : Json}
    (member : (name, value) ∈ Json.indexed vs) : ∀ c ∈ name.toList, c.isDigit = true := by
  simp only [Json.indexed, List.mem_map, Prod.exists, Prod.mk.injEq] at member
  obtain ⟨v, i, -, rfl, -⟩ := member
  intro c inside
  rw [Nat.toString_eq_repr, Nat.toList_repr] at inside
  exact Nat.isDigit_of_mem_toDigits (by decide) (by decide) inside

/-- An index is no operator. -/
theorem unusable_of_indexed {vs : List Json} {op : String × Json} (member : op ∈ Json.indexed vs) :
    Unusable op := by
  refine .inr fun known => ?_
  have letter : ∀ name ∈ operators, name.toList.any (fun c => !c.isDigit) = true := by decide
  obtain ⟨c, inside, other⟩ := List.any_eq_true.1 (letter op.1 known)
  simp [isDigit_of_mem_indexed member c inside] at other

/-- Of an indexed value with anything in it `evaluate` makes operators. -/
theorem throws_foldlM_indexed {doc : Doc} {fieldName : String} {vs : List Json} :
    Throws ((Json.indexed vs).foldlM (evaluateOperator js doc fieldName) true) ↔ vs ≠ [] := by
  cases vs with
  | nil => simp [Json.indexed, pure, Except.pure]
  | cons v vs =>
    obtain ⟨op, member⟩ := List.exists_mem_of_ne_nil (Json.indexed (v :: vs)) (by simp [Json.indexed])
    exact iff_of_true (throws_foldlM.2 (.inl ⟨op, member, unusable_of_indexed member⟩))
      (List.cons_ne_nil v vs)

theorem throws_evaluateField {doc : Doc} {fieldName : String} {atom : Json} :
    Throws (evaluateField js doc (fieldName, atom)) ↔ RefusedCondition js (js.get doc fieldName) atom := by
  cases atom with
  | null => exact iff_of_true (throws_error _) .null
  | bool b => exact iff_of_false (not_throws_ok _) (by rintro ⟨⟩)
  | num n => exact iff_of_false (not_throws_ok _) (by rintro ⟨⟩)
  | str s =>
    simp only [evaluateField, Json.entries, throws_foldlM_indexed]
    constructor
    · intro some_
      exact .string s (by rintro rfl; simp at some_)
    · rintro ⟨⟩
      simp_all
  | arr vs =>
    simp only [evaluateField, Json.entries, throws_foldlM_indexed]
    constructor
    · exact .list vs
    · rintro ⟨⟩
      assumption
  | obj ops =>
    simp only [evaluateField, Json.entries, throws_foldlM, true_and]
    constructor
    · rintro (⟨op, member, bad⟩ | ⟨before, op, after, rfl, bad, hold⟩)
      · exact .unusable ops op member bad
      · exact .indexless before after op bad hold
    · intro refused
      cases refused with
      | unusable _ op member bad => exact .inl ⟨op, member, bad⟩
      | indexless before after op bad hold => exact .inr ⟨before, op, after, rfl, bad, hold⟩

theorem throws_evaluate {doc : Doc} {leaf : List (String × Json)} :
    Throws (evaluate js leaf doc) ↔
      ∃ name atom, (name, atom) ∈ leaf ∧ RefusedCondition js (js.get doc name) atom := by
  rw [evaluate, throws_bind, throws_mapM]
  simp [Prod.exists, throws_evaluateField, pure, Except.pure]

/-! ## The tree -/

theorem verdict_ok {filter : Json} {selects : Doc → Except Error Bool}
    (made : _reGetFilter js filter = .ok selects) (doc : Doc) : verdict js filter doc = selects doc := by
  rw [verdict, made]
  rfl

theorem childResults_eq (nodes : List Json) (doc : Doc) :
    childResults js nodes doc = nodes.mapM fun node => verdict js node doc := by
  induction nodes with
  | nil => rfl
  | cons node nodes ih =>
    rw [childResults, List.mapM_cons, ih, verdict]
    cases _reGetFilter js node <;> rfl

/-- A node whose keys are not all logical is a leaf. -/
theorem throws_leaf {doc : Doc} {fields : List (String × Json)} (leaf : isLeaf fields = true) :
    Throws (verdict js (.obj fields) doc) ↔ Refused js doc (.obj fields) := by
  have made : _reGetFilter js (.obj fields) = .ok (evaluate js fields) := by
    cases fields with
    | nil => cases leaf
    | cons field fields =>
      simp only [_reGetFilter, leaf, if_true]
      rfl
  rw [verdict_ok made, throws_evaluate]
  constructor
  · rintro ⟨name, atom, member, bad⟩
    exact .field fields leaf name atom member bad
  · intro refused
    cases refused with
    | field _ _ name atom member bad => exact ⟨name, atom, member, bad⟩
    | operand op value rest logical bad => simp [logical] at leaf
    | child op nodes rest logical node member bad => simp [logical] at leaf

/-- The first key of any other decides. -/
theorem verdict_logical {doc : Doc} {op : String} {value : Json} {rest : List (String × Json)}
    (logical : isLeaf ((op, value) :: rest) = false) :
    isLogical op = true ∧ verdict js (.obj ((op, value) :: rest)) doc = match value with
      | .arr nodes => (nodes.mapM fun node => verdict js node doc).map fun results =>
          if op = "or" then results.any id else results.all id
      | _ => .error .typeError := by
  have named : isLogical op = true := by
    by_contra other
    simp [isLeaf, other] at logical
  refine ⟨named, ?_⟩
  have root : _reGetFilter js (.obj ((op, value) :: rest)) = rootOperator js ((op, value) :: rest) := by
    simp [_reGetFilter, logical]
  rw [verdict, root]
  simp only [isLogical, logicalFilterKeys, List.contains_cons, List.contains_nil, Bool.or_false,
    Bool.or_eq_true, beq_iff_eq] at named
  rcases named with rfl | rfl
  · cases value with
    | arr nodes => simp [rootOperator, bind, Except.bind, childResults_eq]
    | _ => rfl
  · cases value with
    | arr nodes => simp [rootOperator, bind, Except.bind, childResults_eq]
    | _ => rfl

theorem throws_indexed {doc : Doc} {vs : List Json} (some_ : vs ≠ []) :
    Throws (verdict js (.arr vs) doc) ↔
      ∃ name atom, (name, atom) ∈ Json.indexed vs ∧ RefusedCondition js (js.get doc name) atom := by
  have made : _reGetFilter js (.arr vs) = .ok (evaluate js (Json.indexed vs)) := by simp [_reGetFilter, some_]
  rw [verdict_ok made, throws_evaluate]

theorem throws_string {doc : Doc} {s : String} (some_ : s ≠ "") : Throws (verdict js (.str s) doc) := by
  have made : _reGetFilter js (.str s) = .ok
    (evaluate js (Json.indexed (s.toList.map fun c => .str c.toString))) := by
    simp [_reGetFilter, some_, Json.entries]
  rw [verdict_ok made, throws_evaluate]
  have chars : s.toList ≠ [] := by simpa using some_
  obtain ⟨c, cs, split⟩ := List.exists_cons_of_ne_nil chars
  -- The condition on the field 0 is a string itself.
  refine ⟨toString 0, .str c.toString, ?_, .string _ (by simp)⟩
  simp [split, Json.indexed, List.zipIdx_cons]

/-- The evaluator throws on just what is refused, by induction on the filter. -/
theorem throws_verdict (doc : Doc) : ∀ filter, Throws (verdict js filter doc) ↔ Refused js doc filter
  | .null => iff_of_true (throws_error _) .null
  | .bool _ => iff_of_false (not_throws_ok _) (by rintro ⟨⟩)
  | .num _ => iff_of_false (not_throws_ok _) (by rintro ⟨⟩)
  | .str s => by
    by_cases empty : s = ""
    · subst empty
      exact iff_of_false (not_throws_ok true) (by rintro ⟨⟩; contradiction)
    · exact iff_of_true (throws_string empty) (.string s empty)
  | .arr vs => by
    by_cases empty : vs = []
    · subst empty
      exact iff_of_false (not_throws_ok true) (by rintro ⟨⟩; contradiction)
    · rw [throws_indexed empty]
      constructor
      · rintro ⟨name, atom, member, bad⟩
        exact .list vs name atom member bad
      · intro refused
        cases refused with
        | list _ name atom member bad => exact ⟨name, atom, member, bad⟩
  | .obj [] => iff_of_false (not_throws_ok true) (by
      intro refused
      cases refused with
      | field _ leaf => cases leaf)
  | .obj ((op, value) :: rest) => by
    cases leaf : isLeaf ((op, value) :: rest) with
    | true => exact throws_leaf leaf
    | false =>
      rw [(verdict_logical leaf).2]
      cases value with
      | arr nodes =>
        simp only [throws_map, throws_mapM]
        constructor
        · rintro ⟨node, member, thrown⟩
          exact .child op nodes rest leaf node member ((throws_verdict doc node).1 thrown)
        · intro refused
          cases refused with
          | field _ leaf' => simp [leaf] at leaf'
          | operand _ _ _ _ bad => exact absurd rfl (bad nodes)
          | child _ _ _ _ node member bad => exact ⟨node, member, (throws_verdict doc node).2 bad⟩
      | null => exact iff_of_true (throws_error _) (.operand op _ rest leaf (by simp))
      | bool b => exact iff_of_true (throws_error _) (.operand op _ rest leaf (by simp))
      | num n => exact iff_of_true (throws_error _) (.operand op _ rest leaf (by simp))
      | str s => exact iff_of_true (throws_error _) (.operand op _ rest leaf (by simp))
      | obj fields => exact iff_of_true (throws_error _) (.operand op _ rest leaf (by simp))
termination_by filter => sizeOf filter

/-- What is refused on one document fails every read and every `updateQuery` that comes to it. -/
theorem Refused.query {doc : Doc} {filter : Json} (refused : Refused js doc filter) {docs : List Doc}
    (there : doc ∈ docs) (value : Json) : Throws (query js filter docs) ∧ Throws (updateQuery js filter value docs) := by
  have thrown : Throws (Graph.query js filter docs) := by
    rw [Graph.query, throws_bind]
    rcases throws_bind.1 ((throws_verdict doc filter).2 refused) with made | ⟨selects, made, thrown⟩
    · exact .inl made
    · exact .inr ⟨selects, made, throws_filterM.2 ⟨doc, there, thrown⟩⟩
  refine ⟨thrown, ?_⟩
  rw [updateQuery, throws_bind]
  exact .inl thrown

/-! ## Malformed conditions -/

/-- Somewhere in the tree a field has a condition that is no object of operators. -/
inductive Malformed : Json → Prop
  | condition (fields : List (String × Json)) (name : String) (atom : Json) (member : (name, atom) ∈ fields)
      (field : isLogical name = false) (bad : ∀ ops, atom ≠ .obj ops) : Malformed (.obj fields)
  | child (fields : List (String × Json)) (op : String) (nodes : List Json)
      (member : (op, .arr nodes) ∈ fields) (logical : isLogical op = true) (node : Json) (inside : node ∈ nodes)
      (bad : Malformed node) : Malformed (.obj fields)

structure MalformedFilter where
  filter : Json
  malformed : Malformed filter

/-- **Malformed filters**: a filter with a malformed condition is rejected on a
document just when the evaluator comes to something that it refuses. Where it is,
no read returns and no `updateQuery` rewrites anything. -/
theorem malformed_rejected_iff (js : JavaScript V) (f : MalformedFilter) (doc : Doc) :
    (Throws (verdict js f.filter doc) ↔ Refused js doc f.filter) ∧
      (Refused js doc f.filter → ∀ docs value, doc ∈ docs →
        Throws (query js f.filter docs) ∧ Throws (updateQuery js f.filter value docs)) :=
  ⟨throws_verdict doc f.filter, fun refused _ value there => refused.query there value⟩

/-- A list of ages for a condition on the age. -/
def agesFilter : MalformedFilter where
  filter := .obj [("age", .arr [.num 7])]
  malformed := .condition _ "age" _ List.mem_cons_self rfl (by simp)

/-- Its index is no operator, so every document refuses it. -/
theorem malformed_rejected_sample :
    Throws (verdict noComparisons agesFilter.filter [("age", .num 7)]) ∧
      Throws (query noComparisons agesFilter.filter [[("age", .num 7)]]) ∧
      Throws (updateQuery noComparisons agesFilter.filter (.obj [("name", .str "x")]) [[("age", .num 7)]]) := by
  have ⟨rejected, untouched⟩ := malformed_rejected_iff noComparisons agesFilter [("age", .num 7)]
  have refused : Refused noComparisons [("age", .num 7)] agesFilter.filter :=
    .field [("age", .arr [.num 7])] rfl "age" _ List.mem_cons_self (.list _ (by simp))
  exact ⟨rejected.2 refused, untouched refused _ _ List.mem_cons_self⟩

/-- A number for a condition selects every document, and `updateQuery` rewrites it. -/
theorem malformed_selects :
    Malformed (.obj [("age", .num 5)]) ∧
      verdict noComparisons (.obj [("age", .num 5)]) [("age", .num 7)] = .ok true ∧
      ∃ answer, updateQuery noComparisons (.obj [("age", .num 5)])
        (.obj [("name", .str "x")]) [[("_id", .str "a")]] =
        .ok ([.put [("_id", .str "a"), ("name", .str "x")]], answer) :=
  ⟨.condition _ "age" (.num 5) (by simp) rfl (by simp), rfl, _, rfl⟩

end Fula.Graph
