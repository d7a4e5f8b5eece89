import Mathlib.Data.List.Induction
import Fula.Graph.ExecuteAndSelect

/-!
# Query documents

A document has operations and fragments in any order. `execute` takes the
operation that the request names and runs a resolver for each response key
among its root fields. `executeAndSelect` then cuts every answer down to the
fields that `getFields` finds, which are those of the first root field of the
document's first definition.
-/

namespace Fula.Graph
set_option autoImplicit false
open Lib

/-- A root field, whose resolver gets arguments of type `A`. -/
structure Field (A : Type) where
  alias_ : Option String := none
  name : String
  args : A
  /-- The names in its selection set, if it has one. -/
  selections : Option (List String)

/-- Its response key. -/
def Field.key {A : Type} (f : Field A) : String := f.alias_.getD f.name

/-- A selection set is not empty. -/
structure SelectionSet (A : Type) where
  first : Field A
  rest : List (Field A) := []

def SelectionSet.fields {A : Type} (set : SelectionSet A) : List (Field A) := set.first :: set.rest

inductive Definition (A : Type) where
  | operation (name : Option String) (selectionSet : SelectionSet A)
  | fragment (name : String) (selectionSet : SelectionSet A)

def Definition.selectionSet {A : Type} : Definition A → SelectionSet A
  | .operation _ set => set
  | .fragment _ set => set

/-- What `parse` makes of a request's query has a definition. -/
structure Document (A : Type) where
  first : Definition A
  rest : List (Definition A) := []

def Document.definitions {A : Type} (d : Document A) : List (Definition A) := d.first :: d.rest

/-- An answer after the selector. -/
inductive Projected where
  | values (values : List Item)
  | ids (ids : List String)

/-- What `executeAndSelect` returns. -/
inductive Selected where
  /-- By what has been assigned to its keys; to `__proto__`, that is its prototype. -/
  | data (data : Properties Projected)
  | error (error : Error)

variable {A : Type}

def Definition.operation? : Definition A → Option (Option String × SelectionSet A)
  | .operation name set => some (name, set)
  | .fragment _ _ => none

/-- The operation that `execute` runs: the only one, or the last with the name. -/
def Document.operation (d : Document A) : Option String → Except Error (SelectionSet A)
  | none => match d.definitions.filterMap (·.operation?) with
    | [] => .error (.thrown "Must provide an operation.")
    | [(_, set)] => .ok set
    | _ => .error (.thrown "Must provide operation name if query contains multiple operations.")
  | some operationName =>
    match (d.definitions.filterMap (·.operation?)).reverse.find? (·.1 = some operationName) with
    | some (_, set) => .ok set
    | none => .error (.thrown ("Unknown operation named \"" ++ operationName ++ "\"."))

/-- The fields by response key, in the order of their first appearance; of
several with one key the first has the resolver and the arguments. -/
def collectFields (fields : List (Field A)) : Properties (Field A) :=
  fields.foldl (fun groups f => if groups.any (·.1 = f.key) then groups else groups ++ [(f.key, f)]) []

/-- Where several resolvers fail, graphql-js has the errors in the order in which
they happened; here the first is that of the first key. -/
def Document.execute (d : Document A) (operationName : Option String) (resolve : Field A → Except Error Answer) :
    Except Error (Properties Answer) := do
  let set ← d.operation operationName
  (collectFields set.fields).mapValues resolve

/-- `def.selectionSet.selections[0].selectionSet.selections`, the names; `none` where it throws. -/
def getFields (def_ : Definition A) : Option (List String) := def_.selectionSet.first.selections

/-- An item that is an object; `getFields` is called for each. -/
def selectItem (fields : Option (List String)) (item : Doc) : Except Error Item :=
  match fields with
  | some fields => .ok (project fields item)
  | none => .error .typeError

/-- One list of `selector`. An item that is no object stays. -/
def selectItems (fields : Option (List String)) : Answer → Except Error Projected
  | .ids ids => .ok (.ids ids)
  | .values docs => (docs.mapM (selectItem fields)).map .values

/-- `selector(res, query.definitions[0])`. -/
def Document.selector (d : Document A) (data : Properties Answer) : Except Error Selected :=
  (data.mapValues (selectItems (getFields d.first))).map .data

/-- An error here is one that rejects the promise. -/
def Document.executeAndSelect (d : Document A) (operationName : Option String)
    (resolve : Field A → Except Error Answer) : Except Error Selected :=
  match d.execute operationName resolve with
  | .ok data => d.selector data
  | .error e => .ok (.error e)

theorem selector_ok {d : Document A} {data : Properties Answer} {result : Selected} :
    d.selector data = .ok result ↔
      ∃ outs, data.mapValues (selectItems (getFields d.first)) = .ok outs ∧ result = .data outs := by
  rw [Document.selector]
  cases data.mapValues (selectItems (getFields d.first)) <;> simp [Except.map, eq_comm]

/-! ## What is executed -/

theorem collectFields_snoc (fields : List (Field A)) (f : Field A) :
    collectFields (fields ++ [f]) =
      if ((collectFields fields).lookup f.key).isSome then collectFields fields
      else collectFields fields ++ [(f.key, f)] := by
  simp only [← Properties.any_key]
  rw [collectFields, List.foldl_append]
  rfl

/-- The field of a key is the first that has it. -/
theorem lookup_collectFields (fields : List (Field A)) (key : String) :
    (collectFields fields).lookup key = fields.find? (·.key = key) := by
  induction fields using List.reverseRecOn with
  | nil => rfl
  | append_singleton fields f ih =>
    rw [collectFields_snoc, List.find?_append, ← ih]
    by_cases same : f.key = key
    · subst same
      split
      · next old =>
        obtain ⟨node, there⟩ := Option.isSome_iff_exists.1 old
        simp [there]
      · next new =>
        simp [List.lookup_append, Option.not_isSome_iff_eq_none.1 new]
    · have other : (key == f.key) = false := beq_eq_false_iff_ne.2 (Ne.symm same)
      split
      · simp [same]
      · rw [List.lookup_append, List.lookup_cons, other]
        simp [same]

theorem mem_collectFields {fields : List (Field A)} {key : String} {node : Field A}
    (member : (key, node) ∈ collectFields fields) : node ∈ fields ∧ node.key = key ∧
      fields.find? (·.key = key) = some node := by
  induction fields using List.reverseRecOn with
  | nil => cases member
  | append_singleton fields f ih =>
    rw [collectFields_snoc] at member
    have old (member : (key, node) ∈ collectFields fields) : node ∈ fields ++ [f] ∧ node.key = key ∧
        (fields ++ [f]).find? (·.key = key) = some node := by
      obtain ⟨there, named, found⟩ := ih member
      exact ⟨by simp [there], named, by rw [List.find?_append, found]; rfl⟩
    split at member
    · exact old member
    · next new =>
      rcases List.mem_append.1 member with member | last
      · exact old member
      · simp only [List.mem_singleton, Prod.mk.injEq] at last
        obtain ⟨rfl, rfl⟩ := last
        have absent := Option.not_isSome_iff_eq_none.1 new
        rw [lookup_collectFields] at absent
        exact ⟨by simp, rfl, by rw [List.find?_append, absent]; simp⟩

/-! ## Projections -/

/-- `out` is `item` restricted to the fields that are requested and that it has. -/
def Restricts (fields : List String) (item : Doc) (out : Item) : Prop :=
  ∀ name, out.lookup name = if name ∈ fields then (item.lookup name).map .own else none

/-- An answer restricted item by item. -/
def Restricted (fields : List String) : Answer → Projected → Prop
  | .values docs, .values outs => List.Forall₂ (Restricts fields) docs outs
  | .ids ids, .ids outs => outs = ids
  | _, _ => False

/-- Of the document's properties both selections name the same, and none is `__proto__`; and the selection
that is applied names none that is only inherited. -/
def Agree (own : List String) (fields : Option (List String)) (item : Doc) : Prop :=
  ∃ first, fields = some first ∧
    (∀ name, (item.lookup name).isSome → (name ∈ own ↔ name ∈ first ∧ name ≠ "__proto__")) ∧
    ∀ name ∈ first, name ∈ inherited → name ≠ "__proto__" → (item.lookup name).isSome

theorem restricts_project (own fields : List String) (item : Doc) :
    Restricts own item (project fields item) ↔
      (∀ name, (item.lookup name).isSome → (name ∈ own ↔ name ∈ fields ∧ name ≠ "__proto__")) ∧
        ∀ name ∈ fields, name ∈ inherited → name ≠ "__proto__" → (item.lookup name).isSome := by
  simp only [Restricts, ← forall_and]
  refine forall_congr' fun name => ?_
  rw [lookup_project]
  cases there : item.lookup name with
  | none =>
    -- only what is inherited can be in it
    have within : isIn item name = true ↔ name ∈ inherited := by simp [isIn, Properties.any_key, there]
    simp [within]
  | some value =>
    have within : isIn item name = true := by simp [isIn, Properties.any_key, there]
    have its : held item name = .own value := by simp [held, there]
    by_cases requested : name ∈ fields ∧ name ≠ "__proto__"
    · by_cases wanted : name ∈ own <;> simp [requested, wanted, within, its]
    · have never : ¬(name ∈ fields ∧ isIn item name = true ∧ name ≠ "__proto__") := fun all => requested ⟨all.1, all.2.2⟩
      by_cases wanted : name ∈ own <;> simp [requested, wanted, never]

theorem selectItem_restricts (own : List String) (fields : Option (List String)) (item : Doc) :
    (∃ out, selectItem fields item = .ok out ∧ Restricts own item out) ↔ Agree own fields item := by
  cases fields with
  | none => simp [selectItem, Agree]
  | some first => simp [selectItem, Agree, restricts_project]

theorem selectItems_restricts (own : List String) (fields : Option (List String)) (docs : List Doc) :
    (∃ outs, docs.mapM (selectItem fields) = .ok outs ∧ List.Forall₂ (Restricts own) docs outs) ↔
      ∀ item ∈ docs, Agree own fields item := by
  induction docs with
  | nil => simp [pure, Except.pure]
  | cons item docs ih =>
    rw [List.forall_mem_cons, ← selectItem_restricts, ← ih]
    simp only [List.mapM_cons, bind, Except.bind, pure, Except.pure]
    constructor
    · rintro ⟨outs, selected, restricted⟩
      cases first : selectItem fields item with
      | error e => simp [first] at selected
      | ok out =>
        cases rest : docs.mapM (selectItem fields) with
        | error e => simp [first, rest] at selected
        | ok outs' =>
          simp only [first, rest, Except.ok.injEq] at selected
          subst selected
          cases restricted with
          | cons here there => exact ⟨⟨out, rfl, here⟩, outs', rfl, there⟩
    · rintro ⟨⟨out, first, here⟩, outs, rest, there⟩
      exact ⟨out :: outs, by simp [first, rest], .cons here there⟩

theorem selected_restricted (own : List String) (fields : Option (List String)) (answer : Answer) :
    (∃ out, selectItems fields answer = .ok out ∧ Restricted own answer out) ↔
      ∀ docs, answer = .values docs → ∀ item ∈ docs, Agree own fields item := by
  cases answer with
  | ids ids => simp [selectItems, Restricted]
  | values docs =>
    simp only [Answer.values.injEq, forall_eq', ← selectItems_restricts]
    constructor
    · rintro ⟨out, selected, restricted⟩
      cases made : docs.mapM (selectItem fields) with
      | error e => simp [selectItems, made, Except.map] at selected
      | ok outs =>
        simp only [selectItems, made, Except.map, Except.ok.injEq] at selected
        subst selected
        exact ⟨outs, rfl, restricted⟩
    · rintro ⟨outs, made, restricted⟩
      exact ⟨.values outs, by simp [selectItems, made, Except.map], restricted⟩

theorem selectItems_some (fields : List String) (docs : List Doc) :
    selectItems (some fields) (.values docs) = .ok (.values (docs.map (project fields))) := by
  have each : docs.mapM (selectItem (some fields)) = .ok (docs.map (project fields)) := by
    induction docs with
    | nil => rfl
    | cons item docs ih =>
      rw [List.mapM_cons, ih]
      rfl
  rw [selectItems, each]
  rfl

/-! ## Each result by its own selection -/

/-- The names that the root fields of one response key request. -/
def requested (fields : List (Field A)) (key : String) : List String :=
  (fields.filter (·.key = key)).flatMap fun f => f.selections.getD []

/-- What the resolver of a response key answers. -/
def answerOf (resolve : Field A → Except Error Answer) (fields : List (Field A)) (key : String) :
    Option (Except Error Answer) :=
  (fields.find? (·.key = key)).map resolve

/-- The list that the result has as a property of its own. -/
def ownList (data : Properties Projected) (key : String) : Option Projected :=
  if key = "__proto__" then none else data.lookup key

/-- Under the key of every root field there is its answer, restricted to what that field requests. -/
def OwnSelections (resolve : Field A → Except Error Answer) (fields : List (Field A)) (result : Except Error Selected) :
    Prop :=
  ∃ data, result = .ok (.data data) ∧ ∀ f ∈ fields, ∃ answer out, answerOf resolve fields f.key = some (.ok answer) ∧
    ownList data f.key = some out ∧ Restricted (requested fields f.key) answer out

theorem ownList_eq_some {data : Properties Projected} {key : String} {out : Projected} :
    ownList data key = some out ↔ key ≠ "__proto__" ∧ data.lookup key = some out := by
  rw [ownList]
  split <;> simp [*]

/-- What `execute` returns where every resolver answers. -/
theorem execute_answers {d : Document A} {operationName : Option String} {resolve : Field A → Except Error Answer}
    {set : SelectionSet A} (picked : d.operation operationName = .ok set)
    (answers : ∀ f ∈ set.fields, ∃ answer, answerOf resolve set.fields f.key = some (.ok answer)) :
    ∃ data, d.execute operationName resolve = .ok data ∧
      (∀ key, data.lookup key = (answerOf resolve set.fields key).bind (·.toOption)) ∧
      ∀ property ∈ data, ∃ f ∈ set.fields, f.key = property.1 ∧
        answerOf resolve set.fields f.key = some (.ok property.2) := by
  have node (key : String) (f : Field A) (member : (key, f) ∈ collectFields set.fields) :
      f ∈ set.fields ∧ f.key = key ∧ answerOf resolve set.fields key = some (resolve f) := by
    obtain ⟨there, named, found⟩ := mem_collectFields member
    exact ⟨there, named, by rw [answerOf, found]; rfl⟩
  obtain ⟨data, mapped⟩ := (Properties.exists_mapValues (g := resolve)).2 fun property member => by
    obtain ⟨there, named, answered⟩ := node property.1 property.2 member
    obtain ⟨answer, ok⟩ := answers property.2 there
    rw [named, answered, Option.some.injEq] at ok
    exact ⟨answer, ok⟩
  refine ⟨data, ?_, ?_, ?_⟩
  · rw [Document.execute, picked]; exact mapped
  · intro key
    have same := Properties.lookup_mapValues mapped key
    rw [lookup_collectFields] at same
    rw [answerOf, same]
    cases data.lookup key <;> rfl
  · rintro ⟨key, answer⟩ member
    obtain ⟨f, there, made⟩ := Properties.mem_mapValues mapped member
    obtain ⟨inSet, named, answered⟩ := node key f there
    exact ⟨f, inSet, named, by rw [named, answered, made]⟩

/-- **When each list is projected by its own selection**: exactly when no root field
has the key `__proto__`, and its own selection and the first one of the first
definition agree on every answered document. -/
theorem projected_by_own (d : Document A) (operationName : Option String) (resolve : Field A → Except Error Answer)
    {set : SelectionSet A} (picked : d.operation operationName = .ok set)
    (answers : ∀ f ∈ set.fields, ∃ answer, answerOf resolve set.fields f.key = some (.ok answer)) :
    OwnSelections resolve set.fields (d.executeAndSelect operationName resolve) ↔
      ∀ f ∈ set.fields, f.key ≠ "__proto__" ∧
        ∀ docs, answerOf resolve set.fields f.key = some (.ok (.values docs)) →
          ∀ item ∈ docs, Agree (requested set.fields f.key) (getFields d.first) item := by
  obtain ⟨data, executed, found, from_⟩ := execute_answers picked answers
  have result : d.executeAndSelect operationName resolve = d.selector data := by
    rw [Document.executeAndSelect, executed]
  rw [result]
  constructor
  · rintro ⟨_, selected, projected⟩ f member
    obtain ⟨outs, mapped, ⟨⟩⟩ := selector_ok.1 selected
    obtain ⟨answer, out, same, own, restricted⟩ := projected f member
    obtain ⟨proper, there⟩ := ownList_eq_some.1 own
    refine ⟨proper, fun docs answered => ?_⟩
    rw [answered, Option.some.injEq, Except.ok.injEq] at same
    subst same
    have values := Properties.lookup_mapValues mapped f.key
    rw [found, answered, there] at values
    exact (selected_restricted _ _ _).1 ⟨out, by simpa [Except.toOption] using values, restricted⟩ docs rfl
  · intro agree
    have restricts (f : Field A) (member : f ∈ set.fields) (answer : Answer)
        (answered : answerOf resolve set.fields f.key = some (.ok answer)) :
        ∃ out, selectItems (getFields d.first) answer = .ok out ∧ Restricted (requested set.fields f.key) answer out :=
      (selected_restricted _ _ _).2 fun docs same => (agree f member).2 docs (by rw [answered, same])
    obtain ⟨outs, mapped⟩ := (Properties.exists_mapValues (g := selectItems (getFields d.first))).2
      fun property member => by
        obtain ⟨f, inSet, -, answered⟩ := from_ property member
        obtain ⟨out, made, -⟩ := restricts f inSet property.2 answered
        exact ⟨out, made⟩
    refine ⟨outs, selector_ok.2 ⟨outs, mapped, rfl⟩, fun f member => ?_⟩
    obtain ⟨answer, answered⟩ := answers f member
    obtain ⟨out, made, restricted⟩ := restricts f member answer answered
    have values := Properties.lookup_mapValues mapped f.key
    rw [found, answered] at values
    simp only [Option.bind_some, Except.toOption, Option.map_some, made] at values
    refine ⟨answer, out, answered, ownList_eq_some.2 ⟨(agree f member).1, ?_⟩, restricted⟩
    cases there : outs.lookup f.key with
    | none => simp [there] at values
    | some out' => simpa [there, eq_comm] using values

/-- `query { read(...) { name } }`. -/
def readName : Field Unit := { name := "read", args := (), selections := some ["name"] }

/-- `age: read(...) { age }`. -/
def readAge : Field Unit := { alias_ := some "age", name := "read", args := (), selections := some ["age"] }

/-- A collection of one document. -/
def nameAndAge (_ : Field Unit) : Except Error Answer := .ok (.values [[("name", .str "x"), ("age", .num 7)]])

/-- A document of one operation with one root field. -/
theorem projected_by_own_sample :
    OwnSelections nameAndAge [readName]
        (Document.executeAndSelect { first := .operation none { first := readName } } none nameAndAge) ↔
      ∀ f ∈ [readName], f.key ≠ "__proto__" ∧
        ∀ docs, answerOf nameAndAge [readName] f.key = some (.ok (.values docs)) →
          ∀ item ∈ docs, Agree (requested [readName] f.key) (getFields (.operation none { first := readName })) item :=
  @projected_by_own _ { first := .operation none { first := readName } } none nameAndAge { first := readName } rfl (by
      intro f member
      obtain rfl := List.mem_singleton.1 member
      exact ⟨_, rfl⟩)

/-- `query { read(...) { name } age: read(...) { age } }`: the second list has the first field's names. -/
theorem second_loses_age :
    let set : SelectionSet Unit := { first := readName, rest := [readAge] }
    ¬ OwnSelections nameAndAge set.fields
      (Document.executeAndSelect { first := .operation none set } none nameAndAge) := by
  rintro set ⟨data, result, projected⟩
  cases result
  obtain ⟨answer, out, answered, there, restricted⟩ := projected readAge (by simp [set, SelectionSet.fields])
  cases answered
  cases there
  cases restricted with
  | cons here rest =>
    have age := here "age"
    simp only [lookup_project] at age
    cases age

end Fula.Graph
