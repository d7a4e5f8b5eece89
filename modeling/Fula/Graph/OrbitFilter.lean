import Fula.Lib.Json
import Fula.Lib.Properties

/-!
# The filter evaluator of the GraphQL engine

`_reGetFilter` turns a filter, as it came in the request, into a function from
documents to booleans. A filter whose keys are all logical (`and`, `or`) is a
node over a list of filters; any other is a leaf, a table of conditions on
fields. What can throw is kept where it throws: making the function, or
calling it on a document. JavaScript's property access and comparisons are
parameters.
-/

namespace Fula.Graph
set_option autoImplicit false
open Lib

/-- A document: its own properties. -/
abbrev Doc := Properties Json

/-- JavaScript's part, over the values `V` that a property can have. The
comparisons are taken as given and as total: what JavaScript does to an object
that it cannot convert to a primitive, a TypeError, is not among their answers. -/
structure JavaScript (V : Type) where
  /-- `doc[fieldName]`. -/
  get : Doc → String → V
  ne : V → Json → Bool
  gt : V → Json → Bool
  lt : V → Json → Bool
  gte : V → Json → Bool
  lte : V → Json → Bool
  eq : V → Json → Bool
  /-- `===`, by which `indexOf` compares. -/
  strictEq : V → Json → Bool

inductive Error where
  | typeError
  /-- `throw` of a string. -/
  | thrown (message : String)
  deriving DecidableEq

def logicalFilterKeys : List String := ["and", "or"]

def isLogical (op : String) : Bool := logicalFilterKeys.contains op

variable {V : Type} (js : JavaScript V)

/-- One round of the reduce over the operators of a field. -/
def evaluateOperator (doc : Doc) (fieldName : String) (prev : Bool) : String × Json → Except Error Bool
  | (op, value) =>
    let field := js.get doc fieldName
    if !value.truthy then .error (.thrown "bad query") else
    match op with
    | "ne" => .ok (prev && js.ne field value)
    | "gt" => .ok (prev && js.gt field value)
    | "lt" => .ok (prev && js.lt field value)
    | "gte" => .ok (prev && js.gte field value)
    | "lte" => .ok (prev && js.lte field value)
    | "eq" => .ok (prev && js.eq field value)
    | "in" => match value with
      | .arr elements => .ok (prev && elements.any (js.strictEq field))
      -- An object has no `indexOf` to call.
      | .obj _ => if prev then .error .typeError else .ok false
      | _ => .ok false
    | "nin" => match value with
      | .arr elements => .ok (prev && !elements.any (js.strictEq field))
      | .obj _ => if prev then .error .typeError else .ok false
      | _ => .ok false
    | op => .error (.thrown ("Not implemented operator " ++ op))

/-- The evaluator of one field. -/
def evaluateField (doc : Doc) : String × Json → Except Error Bool
  | (fieldName, atom) => match atom.entries with
    | none => .error .typeError
    | some ops => ops.foldlM (evaluateOperator js doc fieldName) true

/-- `evaluate`, on the entries of the leaf. Every field is evaluated. -/
def evaluate (leaf : List (String × Json)) (doc : Doc) : Except Error Bool := do
  let results ← leaf.mapM (evaluateField js doc)
  return results.all id

def isLeaf (node : List (String × Json)) : Bool := node.any fun (key, _) => !isLogical key

mutual

def _reGetFilter : Json → Except Error (Doc → Except Error Bool)
  | .null => .error .typeError
  | .bool _ => .ok fun _ => .ok true
  | .num _ => .ok fun _ => .ok true
  | .obj fields =>
    if fields.isEmpty then .ok fun _ => .ok true
    else if isLeaf fields then .ok (evaluate js fields)
    else rootOperator fields
  -- The keys of a string or an array are indices, none of them logical.
  | .str s => if s = "" then .ok fun _ => .ok true else .ok (evaluate js ((Json.str s).entries.getD []))
  | .arr vs => if vs.isEmpty then .ok fun _ => .ok true else .ok (evaluate js (Json.indexed vs))

/-- The branches of the root operator: the first logical key. -/
def rootOperator : List (String × Json) → Except Error (Doc → Except Error Bool)
  | [] => .error (.thrown "Not implemented operator undefined")
  | (op, .arr childrenNodes) :: rest =>
    if op = "or" then .ok fun doc => (childResults childrenNodes doc).map (·.any id)
    else if op = "and" then .ok fun doc => (childResults childrenNodes doc).map (·.all id)
    else rootOperator rest
  -- Only an array has `map`.
  | (op, _) :: rest => if isLogical op then .ok fun _ => .error .typeError else rootOperator rest

/-- `childrenNodes.map(node => _reGetFilter(node)(doc))`. -/
def childResults : List Json → Doc → Except Error (List Bool)
  | [], _ => .ok []
  | node :: nodes, doc => do
    let filter ← _reGetFilter node
    let result ← filter doc
    let results ← childResults nodes doc
    return result :: results

end

end Fula.Graph
