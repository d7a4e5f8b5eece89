import Fula.Graph.Document

/-!
# What a subscription pushes

A read that is subscribed to answers as any read does. Its later answers come
from `onChange`, which queries the collection again and pushes `{read: res}`
through the selector, whatever the response key of the field is and whatever
other root fields the operation has.
-/

namespace Fula.Graph
set_option autoImplicit false
open Lib

structure ReadInput where
  collection : String
  filter : Json

variable {V : Type} (js : JavaScript V)

/-- The resolver of `read`, on the collections at this moment. Without an input
it throws at `args.input.collection`. -/
def read (docs : String → List Doc) (f : Field (Option ReadInput)) : Except Error Answer :=
  match f.args with
  | some input => (query js input.filter (docs input.collection)).map .values
  | none => .error .typeError

/-- What the `onChange` of a read field passes to `next`; nothing where it throws. -/
def pushed (d : Document (Option ReadInput)) (docs : String → List Doc) (f : Field (Option ReadInput)) :
    Option Selected :=
  match read js docs f with
  | .ok res => (d.selector [("read", res)]).toOption
  | .error _ => none

variable {js}

theorem keys_execute {A : Type} {d : Document A} {operationName : Option String} {set : SelectionSet A}
    (picked : d.operation operationName = .ok set) {resolve : Field A → Except Error Answer} {data : Properties Answer}
    (executed : d.execute operationName resolve = .ok data) :
    data.map (·.1) = (collectFields set.fields).map (·.1) := by
  rw [Document.execute, picked] at executed
  exact Properties.keys_mapValues executed

theorem keys_selector {A : Type} {d : Document A} {data : Properties Answer} {outs : Properties Projected}
    (selected : d.selector data = .ok (.data outs)) : outs.map (·.1) = data.map (·.1) := by
  obtain ⟨_, mapped, ⟨⟩⟩ := selector_ok.1 selected
  exact Properties.keys_mapValues mapped

theorem mem_keys {A : Type} {fields : List (Field A)} {f : Field A} (member : f ∈ fields) :
    f.key ∈ (collectFields fields).map (·.1) := by
  have found : (fields.find? (·.key = f.key)).isSome := List.find?_isSome.2 ⟨f, member, by simp⟩
  rw [← lookup_collectFields] at found
  obtain ⟨property, there, same⟩ := List.lookup_isSome_iff.1 found
  exact List.mem_map.2 ⟨property, there, (beq_iff_eq.1 same).symm⟩

/-- Fields of one key are one group. -/
theorem collectFields_same {A : Type} {key : String} (first : Field A) (rest : List (Field A))
    (same : ∀ f ∈ first :: rest, f.key = key) : collectFields (first :: rest) = [(key, first)] := by
  induction rest using List.reverseRecOn with
  | nil => simp [collectFields, same first]
  | append_singleton rest f ih =>
    have before := ih fun g member => same g (by
      rcases List.mem_cons.1 member with rfl | member <;> simp [*])
    rw [← List.cons_append, collectFields_snoc, before, same f (by simp)]
    simp

/-- **When what is pushed is what a fresh execution returns**: exactly when `read`
is the only response key. -/
theorem pushed_fresh {d : Document (Option ReadInput)} {operationName : Option String}
    {set : SelectionSet (Option ReadInput)} (picked : d.operation operationName = .ok set)
    (reads : ∀ f ∈ set.fields, f.name = "read") {key : String} {f : Field (Option ReadInput)}
    (subscribed : (key, f) ∈ collectFields set.fields) (docs : String → List Doc) {result : Selected}
    (push : pushed js d docs f = some result) :
    d.executeAndSelect operationName (read js docs) = .ok result ↔
      ∀ g ∈ set.fields, g.alias_ = none ∨ g.alias_ = some "read" := by
  have keys (g : Field (Option ReadInput)) (member : g ∈ set.fields) :
      g.key = "read" ↔ g.alias_ = none ∨ g.alias_ = some "read" := by
    rw [Field.key, reads g member]
    cases g.alias_ <;> simp
  obtain ⟨res, ok⟩ : ∃ res, read js docs f = .ok res := by
    cases ok : read js docs f with
    | ok res => exact ⟨res, rfl⟩
    | error e => simp [pushed, ok] at push
  have selected : d.selector [("read", res)] = .ok result := by
    simp only [pushed, ok] at push
    cases made : d.selector [("read", res)] with
    | ok r => simpa [made, Except.toOption] using push
    | error e => simp [made, Except.toOption] at push
  constructor
  · intro fresh g member
    obtain ⟨outs, -, rfl⟩ := selector_ok.1 selected
    cases executed : d.execute operationName (read js docs) with
    | error e => simp [Document.executeAndSelect, executed] at fresh
    | ok data =>
      simp only [Document.executeAndSelect, executed] at fresh
      have same : (collectFields set.fields).map (·.1) = ["read"] := by
        rw [← keys_execute picked executed, ← keys_selector fresh, keys_selector selected]
        rfl
      have its := mem_keys member
      rw [same, List.mem_singleton] at its
      exact (keys g member).1 its
  · intro unaliased
    have key_read (g : Field (Option ReadInput)) (member : g ∈ set.fields) : g.key = "read" :=
      (keys g member).2 (unaliased g member)
    have one := collectFields_same set.first set.rest key_read
    have its : f = set.first := by
      have member := subscribed
      rw [SelectionSet.fields, one] at member
      simp only [List.mem_singleton, Prod.mk.injEq] at member
      exact member.2
    have executed : d.execute operationName (read js docs) = .ok [("read", res)] := by
      rw [Document.execute, picked]
      simp only [bind, Except.bind, SelectionSet.fields]
      rw [one]
      exact Properties.mapValues_cons.2 ⟨res, [], its ▸ ok, rfl, rfl⟩
    rw [Document.executeAndSelect, executed]
    exact selected

/-- An unfiltered read of the names in a collection. -/
def readNames (alias_ : Option String) : Field (Option ReadInput) :=
  { alias_, name := "read", args := some { collection := "profile", filter := .obj [] }, selections := some ["name"] }

/-- Collections of one document each. -/
def oneProfile (_ : String) : List Doc := [[("name", .str "x")]]

/-- An unaliased read. -/
theorem pushed_fresh_sample :
    Document.executeAndSelect { first := .operation none { first := readNames none } } none
        (read noComparisons oneProfile) = .ok (.data [("read", .values [project ["name"] [("name", .str "x")]])]) ↔
      ∀ g ∈ [readNames none], g.alias_ = none ∨ g.alias_ = some "read" :=
  @pushed_fresh _ noComparisons { first := .operation none { first := readNames none } } none
    { first := readNames none } rfl (by simp [readNames, SelectionSet.fields]) "read" (readNames none)
    (by simp [SelectionSet.fields, collectFields, Field.key, readNames]) oneProfile _ rfl

/-- `query { profiles: read(...) { name } }` is answered under `profiles` and pushed under `read`. -/
theorem alias_pushed_as_read :
    let d : Document (Option ReadInput) := { first := .operation none { first := readNames (some "profiles") } }
    let names : Projected := .values [project ["name"] [("name", .str "x")]]
    d.executeAndSelect none (read noComparisons oneProfile) = .ok (.data [("profiles", names)]) ∧
      pushed noComparisons d oneProfile (readNames (some "profiles")) = some (.data [("read", names)]) ∧
      Selected.data [("profiles", names)] ≠ .data [("read", names)] := by
  refine ⟨rfl, rfl, ?_⟩
  simp

/-! ## One field -/

def QueryResult.selected : QueryResult → Selected
  | .data results => .data (results.map fun (key, items) => (key, .values items))
  | .error e => .error e

/-- The field in a document of its own. -/
def ReadField.field (field : ReadField) (collection : String) : Field (Option ReadInput) where
  alias_ := field.alias_
  name := "read"
  args := some { collection, filter := field.filter }
  selections := some field.fields

def ReadField.document (field : ReadField) (collection : String) : Document (Option ReadInput) where
  first := .operation none { first := field.field collection }

/-- A document of one read is answered, and pushed to, as that read is. -/
theorem document_read (field : ReadField) (collection : String) (docs : String → List Doc) :
    (field.document collection).executeAndSelect none (read js docs) =
        .ok (executeAndSelect js field (docs collection)).selected ∧
      pushed js (field.document collection) docs (field.field collection) =
        (onChange js field (docs collection)).map (·.selected) := by
  have answer : read js docs (field.field collection) = (query js field.filter (docs collection)).map .values := rfl
  have selected (key : String) (res : List Doc) : (field.document collection).selector [(key, .values res)] =
      .ok (.data [(key, .values (res.map (project field.fields)))]) :=
    selector_ok.2 ⟨_, Properties.mapValues_cons.2 ⟨_, [], selectItems_some field.fields res, rfl, rfl⟩, rfl⟩
  have executed : (field.document collection).execute none (read js docs) =
      Properties.mapValues (read js docs) [(field.key, field.field collection)] := rfl
  cases found : query js field.filter (docs collection) with
  | error e =>
    have failed : Properties.mapValues (read js docs) [(field.key, field.field collection)] = .error e := by
      simp only [Properties.mapValues, answer, found]
      rfl
    constructor
    · rw [Document.executeAndSelect, executed, failed, executeAndSelect, found]
      rfl
    · simp only [pushed, answer, found, onChange]
      rfl
  | ok res =>
    have ok : read js docs (field.field collection) = .ok (.values res) := by rw [answer, found]; rfl
    constructor
    · rw [Document.executeAndSelect, executed, Properties.mapValues_cons.2 ⟨_, [], ok, rfl, rfl⟩, executeAndSelect,
        found]
      exact selected field.key res
    · simp only [pushed, ok, onChange, found, selected]
      rfl

end Fula.Graph
