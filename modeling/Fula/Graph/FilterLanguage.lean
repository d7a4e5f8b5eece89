import Fula.Graph.OrbitFilter

/-!
# The filter language and its evaluator

The filters a client is meant to write: `{}`, conditions on fields, and `and`
and `or` over lists of filters, to any depth. `Filter.eval` says what such a
filter means, by recursion on it; `_reGetFilter_toJson` says that
`_reGetFilter` computes just that of its JSON form, and throws nowhere.
-/

namespace Fula.Graph
set_option autoImplicit false
open Lib

inductive FilterKeys where
  | NE
  | GT
  | LT
  | GTE
  | LTE
  | EQ
  | IN
  | NIN
  deriving DecidableEq

def FilterKeys.name : FilterKeys → String
  | NE => "ne"
  | GT => "gt"
  | LT => "lt"
  | GTE => "gte"
  | LTE => "lte"
  | EQ => "eq"
  | IN => "in"
  | NIN => "nin"

/-- Whether the operand is a list of alternatives. -/
def FilterKeys.takesList : FilterKeys → Bool
  | IN => true
  | NIN => true
  | _ => false

/-- An operator and its operand. -/
structure Condition where
  op : FilterKeys
  value : Json
  truthy : value.truthy = true
  list : op.takesList = true → ∃ elements, value = .arr elements

/-- A name that is not taken for a logical operator. -/
abbrev FieldName := { name : String // isLogical name = false }

inductive Filter where
  | all
  | leaf (fields : List (FieldName × List Condition))
  | and (filters : List Filter)
  | or (filters : List Filter)

/-! ## What a filter means -/

/-- The alternatives of an operand. -/
def alternatives : Json → List Json
  | .arr elements => elements
  | _ => []

variable {V : Type} (js : JavaScript V)

def Condition.eval (field : V) (c : Condition) : Bool :=
  match c.op with
  | .NE => js.ne field c.value
  | .GT => js.gt field c.value
  | .LT => js.lt field c.value
  | .GTE => js.gte field c.value
  | .LTE => js.lte field c.value
  | .EQ => js.eq field c.value
  | .IN => (alternatives c.value).any (js.strictEq field)
  | .NIN => !(alternatives c.value).any (js.strictEq field)

/-- Every condition of every field. -/
def evalLeaf (doc : Doc) (fields : List (FieldName × List Condition)) : Bool :=
  fields.all fun (name, conditions) => conditions.all (Condition.eval js (js.get doc name))

mutual

def Filter.eval (doc : Doc) : Filter → Bool
  | .all => true
  | .leaf fields => evalLeaf js doc fields
  | .and filters => evalEvery doc filters
  | .or filters => evalSome doc filters

def evalEvery (doc : Doc) : List Filter → Bool
  | [] => true
  | f :: fs => f.eval doc && evalEvery doc fs

def evalSome (doc : Doc) : List Filter → Bool
  | [] => false
  | f :: fs => f.eval doc || evalSome doc fs

end

/-! ## Its JSON form -/

def Condition.toEntry (c : Condition) : String × Json := (c.op.name, c.value)

def leafFields (fields : List (FieldName × List Condition)) : List (String × Json) :=
  fields.map fun (name, conditions) => (name.1, .obj (conditions.map Condition.toEntry))

mutual

def Filter.toJson : Filter → Json
  | .all => .obj []
  | .leaf fields => .obj (leafFields fields)
  | .and filters => .obj [("and", .arr (toJsons filters))]
  | .or filters => .obj [("or", .arr (toJsons filters))]

def toJsons : List Filter → List Json
  | [] => []
  | f :: fs => f.toJson :: toJsons fs

end

/-! ## The evaluator computes the meaning -/

variable {js}

theorem evaluateOperator_toEntry (doc : Doc) (fieldName : String) (prev : Bool) (c : Condition) :
    evaluateOperator js doc fieldName prev c.toEntry = .ok (prev && c.eval js (js.get doc fieldName)) := by
  obtain ⟨op, value, truthy, list⟩ := c
  cases op with
  | IN =>
    obtain ⟨elements, rfl⟩ := list rfl
    rfl
  | NIN =>
    obtain ⟨elements, rfl⟩ := list rfl
    rfl
  | NE => simp [evaluateOperator, Condition.toEntry, FilterKeys.name, Condition.eval, truthy]
  | GT => simp [evaluateOperator, Condition.toEntry, FilterKeys.name, Condition.eval, truthy]
  | LT => simp [evaluateOperator, Condition.toEntry, FilterKeys.name, Condition.eval, truthy]
  | GTE => simp [evaluateOperator, Condition.toEntry, FilterKeys.name, Condition.eval, truthy]
  | LTE => simp [evaluateOperator, Condition.toEntry, FilterKeys.name, Condition.eval, truthy]
  | EQ => simp [evaluateOperator, Condition.toEntry, FilterKeys.name, Condition.eval, truthy]

theorem foldlM_evaluateOperator (doc : Doc) (fieldName : String) (prev : Bool) (conditions : List Condition) :
    (conditions.map Condition.toEntry).foldlM (evaluateOperator js doc fieldName) prev =
      .ok (prev && conditions.all (Condition.eval js (js.get doc fieldName))) := by
  induction conditions generalizing prev with
  | nil => simp [pure, Except.pure]
  | cons c conditions ih =>
    rw [List.map_cons, List.foldlM_cons, evaluateOperator_toEntry]
    exact (ih _).trans (by rw [List.all_cons, Bool.and_assoc])

theorem evaluate_leafFields (doc : Doc) (fields : List (FieldName × List Condition)) :
    evaluate js (leafFields fields) doc = .ok (evalLeaf js doc fields) := by
  have results : (leafFields fields).mapM (evaluateField js doc) =
      .ok (fields.map fun (name, conditions) => conditions.all (Condition.eval js (js.get doc name))) := by
    induction fields with
    | nil => rfl
    | cons field fields ih =>
      obtain ⟨name, conditions⟩ := field
      have first : evaluateField js doc (name.1, .obj (conditions.map Condition.toEntry)) =
          .ok (conditions.all (Condition.eval js (js.get doc name))) := by
        simp only [evaluateField, Json.entries, foldlM_evaluateOperator, Bool.true_and]
      simp only [leafFields, List.map_cons, List.mapM_cons, first] at ih ⊢
      rw [ih]
      rfl
  rw [evaluate, results]
  simp [evalLeaf, bind, Except.bind, pure, Except.pure, List.all_map]

theorem isLeaf_leafFields {fields : List (FieldName × List Condition)} (some_ : fields ≠ []) :
    isLeaf (leafFields fields) = true := by
  cases fields with
  | nil => contradiction
  | cons field fields => simp [isLeaf, leafFields, field.1.2]

theorem evalEvery_eq (doc : Doc) (fs : List Filter) : evalEvery js doc fs = (fs.map (Filter.eval js doc)).all id := by
  induction fs with
  | nil => rfl
  | cons f fs ih => simp [evalEvery, ih]

theorem evalSome_eq (doc : Doc) (fs : List Filter) : evalSome js doc fs = (fs.map (Filter.eval js doc)).any id := by
  induction fs with
  | nil => rfl
  | cons f fs ih => simp [evalSome, ih]

/-- The filter function is made, and never throws. -/
def Computes (js : JavaScript V) (node : Json) (meaning : Doc → Bool) : Prop :=
  ∃ filter, _reGetFilter js node = .ok filter ∧ ∀ doc, filter doc = .ok (meaning doc)

theorem computes_leaf (fields : List (FieldName × List Condition)) :
    Computes js (.obj (leafFields fields)) fun doc => evalLeaf js doc fields := by
  cases fields with
  | nil => exact ⟨_, rfl, fun _ => rfl⟩
  | cons field fields =>
    refine ⟨evaluate js (leafFields (field :: fields)), ?_, fun doc => evaluate_leafFields doc _⟩
    have leaf := isLeaf_leafFields (List.cons_ne_nil field fields)
    simp only [_reGetFilter, leaf, if_true]
    rfl

mutual

/-- By induction on the filter, over the filters of its lists. -/
theorem computes_toJson : ∀ f : Filter, Computes js f.toJson fun doc => f.eval js doc
  | .all => ⟨_, rfl, fun _ => rfl⟩
  | .leaf fields => computes_leaf fields
  | .and filters => by
    refine ⟨_, rfl, fun doc => ?_⟩
    simp only [childResults_toJsons filters doc, Filter.eval, evalEvery_eq]
    rfl
  | .or filters => by
    refine ⟨_, rfl, fun doc => ?_⟩
    simp only [childResults_toJsons filters doc, Filter.eval, evalSome_eq]
    rfl

theorem childResults_toJsons : ∀ (fs : List Filter) (doc : Doc),
    childResults js (toJsons fs) doc = .ok (fs.map (Filter.eval js doc))
  | [], _ => rfl
  | f :: fs, doc => by
    obtain ⟨filter, made, result⟩ := computes_toJson f
    have rest := childResults_toJsons fs doc
    simp only [toJsons, childResults, made, rest, List.map_cons]
    simp only [bind, Except.bind, result, pure, Except.pure]

end

/-- **The evaluator implements the language**: for every filter, `_reGetFilter`
makes a function that returns the filter's meaning on every document. -/
theorem _reGetFilter_toJson (js : JavaScript V) (f : Filter) :
    ∃ filter, _reGetFilter js f.toJson = .ok filter ∧ ∀ doc, filter doc = .ok (f.eval js doc) :=
  computes_toJson f

example : (Filter.and [.leaf [(⟨"name", rfl⟩, [⟨.NIN, .arr [.str "keyvan", .str "mahdi"], rfl, fun _ => ⟨_, rfl⟩⟩])],
      .leaf [(⟨"age", rfl⟩, [⟨.GT, .num 15, rfl, nofun⟩])]]).toJson =
    .obj [("and", .arr [.obj [("name", .obj [("nin", .arr [.str "keyvan", .str "mahdi"])])],
      .obj [("age", .obj [("gt", .num 15)])]])] :=
  rfl

end Fula.Graph
