import Fula.Graph.FilterLanguage
import Fula.Graph.RefusedFilters

/-!
# Filters of the declared types

The filters that the types admit: conditions whose operand is any string, number
or list of these, and `and` and `or` over lists of filters, to any depth.
`evaluate` takes a falsy operand for a bad query, so that the empty string and 0
cannot be compared with. `declared_iff` says that this, and a leaf with no other
fields than `and` and `or`, is all that keeps such a filter from its meaning.
-/

namespace Fula.Graph
set_option autoImplicit false
open Lib

inductive LogicalFilterKeys where
  | AND
  | OR
  deriving DecidableEq

def LogicalFilterKeys.name : LogicalFilterKeys → String
  | AND => "and"
  | OR => "or"

/-- What the results of the branches come to. -/
def LogicalFilterKeys.combine : LogicalFilterKeys → List Bool → Bool
  | AND, results => results.all id
  | OR, results => results.any id

inductive Scalar where
  | string (s : String)
  | number (n : ℚ)
  deriving DecidableEq

def Scalar.toJson : Scalar → Json
  | string s => .str s
  | number n => .num n

inductive FilterValues where
  | scalar (v : Scalar)
  | list (vs : List Scalar)

def FilterValues.toJson : FilterValues → Json
  | scalar v => v.toJson
  | list vs => .arr (vs.map Scalar.toJson)

/-- What `evaluate` takes for a bad query. -/
def FilterValues.isBlank : FilterValues → Bool
  | scalar (.string s) => s = ""
  | scalar (.number n) => n = 0
  | list _ => false

abbrev FieldFilterValue := List (FilterKeys × FilterValues)

abbrev FieldFilter := List (String × FieldFilterValue)

inductive FilterTree where
  | fieldFilter (leaf : FieldFilter)
  | logical (op : LogicalFilterKeys) (children : List FilterTree)

/-! ## What it means -/

variable {V : Type} (js : JavaScript V)

/-- The value of a comparison. A value that is no list has nothing in it, nor out of it. -/
def FilterKeys.holds (field : V) (value : FilterValues) : FilterKeys → Bool
  | NE => js.ne field value.toJson
  | GT => js.gt field value.toJson
  | LT => js.lt field value.toJson
  | GTE => js.gte field value.toJson
  | LTE => js.lte field value.toJson
  | EQ => js.eq field value.toJson
  | IN => match value with
    | .scalar _ => false
    | .list vs => vs.any fun v => js.strictEq field v.toJson
  | NIN => match value with
    | .scalar _ => false
    | .list vs => !vs.any fun v => js.strictEq field v.toJson

def holdsAll (field : V) (ops : FieldFilterValue) : Bool := ops.all fun (op, value) => op.holds js field value

mutual

def FilterTree.eval (doc : Doc) : FilterTree → Bool
  | .fieldFilter leaf => leaf.all fun (name, ops) => holdsAll js (js.get doc name) ops
  | .logical op children => op.combine (evalChildren doc children)

def evalChildren (doc : Doc) : List FilterTree → List Bool
  | [] => []
  | f :: fs => f.eval doc :: evalChildren doc fs

end

/-! ## Its JSON form -/

def conditionEntry (c : FilterKeys × FilterValues) : String × Json := (c.1.name, c.2.toJson)

def fieldEntry (field : String × FieldFilterValue) : String × Json :=
  (field.1, .obj (field.2.map conditionEntry))

mutual

def FilterTree.toJson : FilterTree → Json
  | .fieldFilter leaf => .obj (leaf.map fieldEntry)
  | .logical op children => .obj [(op.name, .arr (childrenToJson children))]

def childrenToJson : List FilterTree → List Json
  | [] => []
  | f :: fs => f.toJson :: childrenToJson fs

end

mutual

def FilterTree.leaves : FilterTree → List FieldFilter
  | .fieldFilter leaf => [leaf]
  | .logical _ children => childLeaves children

def childLeaves : List FilterTree → List FieldFilter
  | [] => []
  | f :: fs => f.leaves ++ childLeaves fs

end

/-- A leaf that `_reGetFilter` takes for one, with operands that `evaluate` takes. -/
structure Usable (leaf : FieldFilter) : Prop where
  named : leaf ≠ [] → ∃ field ∈ leaf, isLogical field.1 = false
  operands : ∀ field ∈ leaf, ∀ c ∈ field.2, c.2.isBlank = false

/-! ## Conditions -/

variable {js}

theorem comparison_conditionEntry (field : V) (c : FilterKeys × FilterValues) :
    comparison js field (conditionEntry c) = c.1.holds js field c.2 := by
  obtain ⟨op, value⟩ := c
  cases value with
  | scalar v => cases op <;> cases v <;> rfl
  | list vs =>
    cases op with
    | IN | NIN =>
      simp [comparison, conditionEntry, FilterKeys.name, FilterValues.toJson, FilterKeys.holds, Function.comp_def]
    | _ => rfl

theorem unusable_conditionEntry (c : FilterKeys × FilterValues) :
    Unusable (conditionEntry c) ↔ c.2.isBlank = true := by
  obtain ⟨op, value⟩ := c
  have known : op.name ∈ operators := by cases op <;> decide
  have operand : value.toJson.truthy = !value.isBlank := by
    cases value with
    | list vs => rfl
    | scalar v => cases v <;> simp [FilterValues.toJson, Scalar.toJson, Json.truthy, FilterValues.isBlank]
  simp [Unusable, conditionEntry, known, operand]

theorem not_indexless_conditionEntry (c : FilterKeys × FilterValues) : ¬Indexless (conditionEntry c) := by
  obtain ⟨op, value⟩ := c
  rintro ⟨-, fields, object⟩
  cases value with
  | list vs => cases object
  | scalar v => cases v <;> cases object

theorem evaluateOperator_conditionEntry {c : FilterKeys × FilterValues} (usable : c.2.isBlank = false)
    (doc : Doc) (fieldName : String) (prev : Bool) :
    evaluateOperator js doc fieldName prev (conditionEntry c) =
      .ok (prev && c.1.holds js (js.get doc fieldName) c.2) := by
  have taken : ¬Unusable (conditionEntry c) := by simp [unusable_conditionEntry, usable]
  rw [evaluateOperator_usable taken (by simp [not_indexless_conditionEntry]), comparison_conditionEntry]

theorem evaluateField_fieldEntry {field : String × FieldFilterValue}
    (usable : ∀ c ∈ field.2, c.2.isBlank = false) (doc : Doc) :
    evaluateField js doc (fieldEntry field) = .ok (holdsAll js (js.get doc field.1) field.2) := by
  obtain ⟨name, ops⟩ := field
  have folded (prev : Bool) : (ops.map conditionEntry).foldlM (evaluateOperator js doc name) prev =
      .ok (prev && holdsAll js (js.get doc name) ops) := by
    induction ops generalizing prev with
    | nil => simp [holdsAll, pure, Except.pure]
    | cons c ops ih =>
      rw [List.map_cons, List.foldlM_cons, evaluateOperator_conditionEntry (usable c (by simp))]
      exact (ih (fun c' member => usable c' (by simp [member])) _).trans (by simp [holdsAll, Bool.and_assoc])
  exact (folded true).trans (by rw [Bool.true_and])

theorem refusedCondition_fieldEntry (doc : Doc) (field : String × FieldFilterValue) :
    RefusedCondition js (js.get doc field.1) (fieldEntry field).2 ↔ ∃ c ∈ field.2, c.2.isBlank = true := by
  constructor
  · intro refused
    by_contra usable
    have usable : ∀ c ∈ field.2, c.2.isBlank = false := fun c member => by
      by_contra blank
      exact usable ⟨c, member, by simpa using blank⟩
    have thrown := throws_evaluateField.2 refused
    have ok : evaluateField js doc (fieldEntry field) = .ok _ := evaluateField_fieldEntry usable doc
    simp only [fieldEntry] at thrown ok
    rw [ok] at thrown
    exact not_throws_ok _ thrown
  · rintro ⟨c, member, blank⟩
    exact .unusable _ (conditionEntry c) (List.mem_map_of_mem member) ((unusable_conditionEntry c).2 blank)

/-! ## Leaves -/

theorem isLeaf_map {leaf : FieldFilter} :
    isLeaf (leaf.map fieldEntry) = true ↔ ∃ field ∈ leaf, isLogical field.1 = false := by
  simp [isLeaf, fieldEntry]

theorem Usable.verdict {leaf : FieldFilter} (usable : Usable leaf) (doc : Doc) :
    verdict js (.obj (leaf.map fieldEntry)) doc =
      .ok (leaf.all fun (name, ops) => holdsAll js (js.get doc name) ops) := by
  by_cases empty : leaf = []
  · subst empty
    rfl
  · have made : _reGetFilter js (.obj (leaf.map fieldEntry)) = .ok (evaluate js (leaf.map fieldEntry)) := by
      simp [_reGetFilter, isLeaf_map.2 (usable.named empty), empty]
    have results : (leaf.map fieldEntry).mapM (evaluateField js doc) =
        .ok (leaf.map fun field => holdsAll js (js.get doc field.1) field.2) := by
      rw [List.mapM_map]
      exact mapM_of_ok fun field member => evaluateField_fieldEntry (usable.operands field member) doc
    rw [verdict_ok made, evaluate, results]
    simp [bind, Except.bind, pure, Except.pure, List.all_map]

theorem refused_of_not_usable {leaf : FieldFilter} (unusable : ¬Usable leaf) (doc : Doc) :
    Refused js doc (.obj (leaf.map fieldEntry)) := by
  cases kind : isLeaf (leaf.map fieldEntry) with
  | true =>
    have operand : ∃ field ∈ leaf, ∃ c ∈ field.2, c.2.isBlank = true := by
      by_contra none_
      refine unusable ⟨fun _ => isLeaf_map.1 kind, fun field inside c member => ?_⟩
      by_contra blank
      exact none_ ⟨field, inside, c, member, by simpa using blank⟩
    obtain ⟨field, inside, blank⟩ := operand
    exact .field _ kind _ _ (List.mem_map_of_mem inside) ((refusedCondition_fieldEntry doc field).2 blank)
  | false =>
    cases leaf with
    | nil => exact absurd ⟨fun some_ => absurd rfl some_, by simp⟩ unusable
    | cons field rest => exact .operand _ _ _ kind (by simp)

/-! ## Trees -/

theorem isLeaf_logical (op : LogicalFilterKeys) (value : Json) : isLeaf [(op.name, value)] = false := by
  cases op <;> rfl

theorem verdict_node {op : LogicalFilterKeys} {nodes : List Json} {rest : List (String × Json)}
    (logical : isLeaf ((op.name, .arr nodes) :: rest) = false) (doc : Doc) :
    verdict js (.obj ((op.name, .arr nodes) :: rest)) doc =
      (nodes.mapM fun node => verdict js node doc).map op.combine := by
  rw [(verdict_logical logical).2]
  cases op <;> rfl

mutual

/-- By induction on the tree, over the filters of its lists. -/
theorem FilterTree.verdict_toJson (doc : Doc) : ∀ f : FilterTree, (∀ leaf ∈ f.leaves, Usable leaf) →
    verdict js f.toJson doc = .ok (f.eval js doc)
  | .fieldFilter leaf, usable => (usable leaf (by simp [FilterTree.leaves])).verdict doc
  | .logical op children, usable => by
    rw [FilterTree.toJson, verdict_node (isLeaf_logical op _), verdicts_childrenToJson doc children usable]
    rfl

theorem verdicts_childrenToJson (doc : Doc) : ∀ fs : List FilterTree, (∀ leaf ∈ childLeaves fs, Usable leaf) →
    (childrenToJson fs).mapM (fun node => verdict js node doc) = .ok (evalChildren js doc fs)
  | [], _ => rfl
  | f :: fs, usable => by
    have first := f.verdict_toJson doc fun leaf member => usable leaf (by simp [childLeaves, member])
    have rest := verdicts_childrenToJson doc fs fun leaf member => usable leaf (by simp [childLeaves, member])
    rw [childrenToJson, List.mapM_cons, first, rest]
    rfl

end

mutual

theorem FilterTree.refused (doc : Doc) : ∀ (f : FilterTree) (leaf : FieldFilter), leaf ∈ f.leaves →
    ¬Usable leaf →
    Refused js doc f.toJson
  | .fieldFilter leaf', leaf, member, unusable => by
    rw [FilterTree.leaves, List.mem_singleton] at member
    subst member
    exact refused_of_not_usable unusable doc
  | .logical op children, leaf, member, unusable => by
    obtain ⟨node, inside, refused⟩ := refused_childrenToJson doc children leaf member unusable
    exact .child _ _ _ (isLeaf_logical op _) node inside refused

theorem refused_childrenToJson (doc : Doc) : ∀ (fs : List FilterTree) (leaf : FieldFilter),
    leaf ∈ childLeaves fs →
    ¬Usable leaf → ∃ node ∈ childrenToJson fs, Refused js doc node
  | f :: fs, leaf, member, unusable => by
    rcases List.mem_append.1 member with first | later
    · exact ⟨f.toJson, by simp [childrenToJson], f.refused doc leaf first unusable⟩
    · obtain ⟨node, inside, refused⟩ := refused_childrenToJson doc fs leaf later unusable
      exact ⟨node, by simp [childrenToJson, inside], refused⟩

end

end Fula.Graph
