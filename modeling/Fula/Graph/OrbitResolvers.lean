import Fula.Lib.DelayedWrites
import Fula.Graph.OrbitFilter

/-!
# The resolvers of a collection

`createResolver`: what a request on one collection reads, and which writes it
issues. Between the moment the collection is loaded and the moment all writes
are issued a resolver does not wait, so a mutation is one step on the store:
it may read the documents, and it issues writes that land later. The document
store itself is OrbitDB's, a parameter.
-/

namespace Fula.Graph
set_option autoImplicit false
open Lib

/-- OrbitDB's document store, over its index `S`. -/
structure DocStore (S : Type) where
  /-- A put takes effect. -/
  put : Doc → S → S
  /-- A del takes effect. -/
  del : String → S → S
  /-- The documents a query visits. -/
  docs : S → List Doc

inductive Write where
  | put (doc : Doc)
  | del (id : String)

def DocStore.apply {S : Type} (store : DocStore S) : Write → S → S
  | .put doc => store.put doc
  | .del id => store.del id

/-- `{...base, ...overrides}`. -/
def spread (base overrides : Doc) : Doc := overrides.foldl (fun doc (key, value) => doc.assign key value) base

/-- What a spread copies of any value; of `null` it copies nothing. -/
def ownProperties (value : Json) : Doc := value.entries.getD []

variable {V S : Type} (js : JavaScript V) (store : DocStore S)

/-- `db.query(_reGetFilter(filter))`. -/
def query (filter : Json) (docs : List Doc) : Except Error (List Doc) := do
  let selected ← _reGetFilter js filter
  docs.filterM selected

/-- `{_id: value.id, ...value}`. -/
def withId (value : Doc) : Doc :=
  -- With no `id` this is `undefined`; it is overwritten, or the document is refused.
  spread [("_id", (value.lookup "id").getD .null)] value

inductive Mutation where
  | create (values : List Doc)
  | update (values : List Doc)
  | updateQuery (filter value : Json)
  | delete (ids : List String)

/-- What a mutation is answered with. -/
inductive Answer where
  | values (values : List Doc)
  | ids (ids : List String)

/-- `create` and `update` alike. -/
def putValues (values : List Doc) : List Write × Answer :=
  let _values := values.map withId
  (_values.map .put, .values _values)

def create (values : List Doc) : List Write × Answer := putValues values

def update (values : List Doc) : List Write × Answer := putValues values

def updateQuery (filter value : Json) (docs : List Doc) : Except Error (List Write × Answer) := do
  let result ← query js filter docs
  let _values := result.map fun currentValue => spread currentValue (ownProperties value)
  return (_values.map .put, .values _values)

def delete (ids : List String) : List Write × Answer := (ids.map .del, .ids ids)

/-- The writes a mutation issues, on the documents it finds, and its answer. -/
def Mutation.run (docs : List Doc) : Mutation → Except Error (List Write × Answer)
  | .create values => .ok (Graph.create values)
  | .update values => .ok (Graph.update values)
  | .updateQuery filter value => Graph.updateQuery js filter value docs
  | .delete ids => .ok (Graph.delete ids)

/-- The writes alone; `none` when the mutation fails. -/
def Mutation.writes (m : Mutation) (s : S) : Option (List Write) :=
  ((m.run js (store.docs s)).toOption).map (·.1)

/-- A store that keeps its documents in a list, by `_id`. -/
def listStore : DocStore (List (String × Doc)) where
  put doc s := match doc.lookup "_id" with
    | some (.str id) =>
      if s.any (·.1 = id) then s.map fun (key, old) => if key = id then (key, doc) else (key, old) else s ++ [(id, doc)]
    | _ => s
  del id s := s.filter fun (key, _) => key ≠ id
  docs s := s.map (·.2)

/-- For filters that compare nothing. -/
def noComparisons : JavaScript Unit where
  get _ _ := ()
  ne _ _ := false
  gt _ _ := false
  lt _ _ := false
  gte _ _ := false
  lte _ _ := false
  eq _ _ := false
  strictEq _ _ := false

end Fula.Graph
