import Fula.Graph.Batches

/-!
# Optional parts of the inputs

The schema lets a request leave out, or set to null, the input of a `read`, the
filter of a `read` or an `updateQuery` and the ids of a `delete`. The resolvers
read each of these parts as if it were there: `optional_iff` says that they agree
with the schema on the requests that give all of them.
-/

namespace Fula.Graph
set_option autoImplicit false
open Lib

/-- A part of a type without `!`. -/
inductive Nullable (α : Type) where
  | given (value : α)
  | null
  | omitted

/-- A JSON argument; null is not one. -/
abbrev JsonValue := { value : Json // value ≠ .null }

/-- The input of a `read`. -/
structure ReadArgs where
  collection : String
  filter : Nullable JsonValue

/-- That of a `create` or an `update`. -/
structure ValuesArgs where
  collection : String
  values : JsonValue

structure UpdateQueryArgs where
  collection : String
  value : JsonValue
  filter : Nullable JsonValue

structure DeleteArgs where
  collection : String
  ids : Nullable (List String)

/-- A root field with its argument. -/
inductive Request where
  | read (input : Nullable ReadArgs)
  | create (input : ValuesArgs)
  | update (input : ValuesArgs)
  | updateQuery (input : UpdateQueryArgs)
  | delete (input : DeleteArgs)

/-- A property or a method of `null` and `undefined` cannot be read. -/
def Nullable.get {α : Type} : Nullable α → Except Error α
  | given value => .ok value
  | null => .error .typeError
  | omitted => .error .typeError

def Nullable.isGiven {α : Type} : Nullable α → Bool
  | given _ => true
  | null => false
  | omitted => false

/-- `args.input.filter`, of which `_reGetFilter` asks the keys first. -/
def filterArgument : Nullable JsonValue → Except Error Json
  | .given filter => .ok filter.1
  | .null => .ok .null
  | .omitted => .error .typeError

/-- Only an array has `map`. -/
def elements : Json → Except Error (List Json)
  | .arr values => .ok values
  | _ => .error .typeError

namespace Request

variable {V : Type} (js : JavaScript V) (docs : String → List Doc)

/-- What the resolver does on the documents of the collections: its calls on the store and its answer. -/
def resolve : Request → Except Error (List Write × Answer)
  | read input => do
    let input ← input.get
    let filter ← filterArgument input.filter
    let result ← query js filter (docs input.collection)
    return ([], .values result)
  | create input => do
    let values ← elements input.values.1
    (Batch.create values).calls
  | update input => do
    let values ← elements input.values.1
    (Batch.update values).calls
  | updateQuery input => do
    let filter ← filterArgument input.filter
    Graph.updateQuery js filter input.value.1 (docs input.collection)
  | delete input => do
    let ids ← input.ids.get
    (Batch.delete ids).calls

/-- Every nullable part is there. -/
def complete : Request → Bool
  | read (.given input) => input.filter.isGiven
  | read _ => false
  | create _ => true
  | update _ => true
  | updateQuery input => input.filter.isGiven
  | delete input => input.ids.isGiven

def emptyFilter : JsonValue := ⟨.obj [], by simp⟩

/-- A missing filter is the empty one. -/
def filterOrEmpty (filter : Nullable JsonValue) : Nullable JsonValue :=
  if filter.isGiven then filter else .given emptyFilter

def filtered : Request → Request
  | read (.given input) => read (.given { input with filter := filterOrEmpty input.filter })
  | updateQuery input => updateQuery { input with filter := filterOrEmpty input.filter }
  | request => request

/-- No type error for want of a part, and no filter is the empty filter. -/
structure Agrees (request : Request) : Prop where
  part : request.complete = false → request.resolve js docs ≠ .error .typeError
  filter : request.resolve js docs = request.filtered.resolve js docs

variable {js docs} {request : Request}

theorem get_of_not_given {α : Type} {part : Nullable α} (missing : part.isGiven = false) :
    part.get = .error .typeError := by
  cases part with
  | given value => cases missing
  | null => rfl
  | omitted => rfl

theorem query_of_not_given (js : JavaScript V) {filter : Nullable JsonValue} (missing : filter.isGiven = false)
    (db : List Doc) :
    (filterArgument filter >>= fun filter => query js filter db) = .error .typeError := by
  cases filter with
  | given value => cases missing
  | null => rfl
  | omitted => rfl

/-- Whatever is missing, and whatever the collections hold. -/
theorem resolve_incomplete (missing : request.complete = false) :
    request.resolve js docs = .error .typeError := by
  cases request with
  | read input =>
    cases input with
    | given input =>
      have fails := query_of_not_given js missing (docs input.collection)
      cases found : filterArgument input.filter with
      | error e => simpa [resolve, Nullable.get, found, bind, Except.bind] using fails
      | ok filter =>
        rw [found] at fails
        simp only [resolve, Nullable.get, found, bind, Except.bind] at fails ⊢
        rw [fails]
    | null => rfl
    | omitted => rfl
  | create input => cases missing
  | update input => cases missing
  | updateQuery input =>
    have fails := query_of_not_given js missing (docs input.collection)
    cases found : filterArgument input.filter with
    | error e => simpa [resolve, found, bind, Except.bind] using fails
    | ok filter =>
      rw [found] at fails
      simp only [resolve, found, bind, Except.bind, Graph.updateQuery] at fails ⊢
      rw [fails]
  | delete input =>
    rw [resolve, get_of_not_given missing]
    rfl

theorem filtered_of_complete (all : request.complete = true) : request.filtered = request := by
  cases request with
  | read input =>
    cases input with
    | given input => simp [filtered, filterOrEmpty, show input.filter.isGiven = true from all]
    | null => cases all
    | omitted => cases all
  | create input => rfl
  | update input => rfl
  | updateQuery input => simp [filtered, filterOrEmpty, show input.filter.isGiven = true from all]
  | delete input => rfl

variable (js docs)

/-- **Optional inputs**: the resolvers agree with the schema on a request, whatever
the collections hold, just when the request gives every part. -/
theorem optional_iff (request : Request) : request.Agrees js docs ↔ request.complete = true := by
  constructor
  · intro agrees
    by_contra missing
    rw [Bool.not_eq_true] at missing
    exact agrees.part missing (resolve_incomplete missing)
  · intro all
    refine ⟨fun missing => ?_, by rw [filtered_of_complete all]⟩
    rw [all] at missing
    cases missing

end Request

/-- A read without a filter. -/
def unfiltered : Request := .read (.given { collection := "profile", filter := .omitted })

theorem unfiltered_fails :
    unfiltered.resolve noComparisons (fun _ => []) = .error .typeError ∧
    ¬unfiltered.Agrees noComparisons fun _ => [] :=
  ⟨rfl, fun agrees => agrees.part rfl rfl⟩

end Fula.Graph
