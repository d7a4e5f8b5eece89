import Fula.Graph.FilterLanguage
import Fula.Graph.OrbitResolvers

/-!
# A read and its selection

`executeAndSelect` answers a query with what its resolver returns, cut down to
the fields of the query's own selection set. A read that is subscribed to gets
its later answers from `onChange`, which pushes `{read: res}` through the same
selector.
-/

namespace Fula.Graph
set_option autoImplicit false
open Lib

/-- The root field of a query document that reads one collection. -/
structure ReadField where
  alias_ : Option String := none
  filter : Json
  /-- The names in its selection set: `getFields`. -/
  fields : List String

/-- The key of the field in what `execute` returns. -/
def ReadField.key (field : ReadField) : String := field.alias_.getD "read"

/-- What `item[key]` can be: a value of the document's own, or what `Object.prototype` has there. -/
inductive Held where
  | own (value : Json)
  | inherited (name : String)

/-- A document after the selector: its own properties. -/
abbrev Item := Properties Held

inductive QueryResult where
  | data (data : List (String × List Item))
  | error (error : Error)

/-- `key in item`. -/
def isIn (item : Doc) (key : String) : Bool := item.any (·.1 = key) || inherited.contains key

/-- `item[key]`, of a key that is in it. -/
def held (item : Doc) (key : String) : Held := ((item.lookup key).map .own).getD (.inherited key)

/-- The fields of a selection that are in the item, inherited ones among them. -/
def project (fields : List String) (item : Doc) : Item :=
  (fields.filter (isIn item)).foldl (fun obj key => obj.setOwn key (held item key)) []

def selector (data : List (String × List Doc)) (fields : List String) : QueryResult :=
  .data (data.map fun (key, items) => (key, items.map (project fields)))

variable {V : Type} (js : JavaScript V) (field : ReadField)

/-- The answer to the query itself. -/
def executeAndSelect (docs : List Doc) : QueryResult :=
  match query js field.filter docs with
  | .ok res => selector [(field.key, res)] field.fields
  | .error e => .error e

/-- What `onChange` pushes; where the filter throws it is nothing. -/
def onChange (docs : List Doc) : Option QueryResult :=
  match query js field.filter docs with
  | .ok res => some (selector [("read", res)] field.fields)
  | .error _ => none

/-- What a client is sent, every value as it is in JSON. -/
inductive ReadResult where
  | data (data : List (String × List Doc))
  | error (error : Error)

def itemJson : Item → Option Doc
  | [] => some []
  | (key, .own value) :: item => (itemJson item).map ((key, value) :: ·)
  -- a function is no JSON
  | (_, .inherited _) :: _ => none

def listJson : String × List Item → Option (String × List Doc)
  | (key, items) => (items.mapM itemJson).map (key, ·)

/-- `Result.fromJson`; `none` where it throws. -/
def QueryResult.fromJson : QueryResult → Option ReadResult
  | .data lists => (lists.mapM listJson).map .data
  | .error e => some (.error e)

/-! ## What a selection is for -/

/-- The document restricted to the requested fields that it has. -/
def restrict (fields : List String) (item : Doc) : Doc :=
  (fields.filter fun key => item.any (·.1 = key)).foldl
    (fun obj key => obj.assign key ((item.lookup key).getD .null)) []

/-- The filtered, projected collection. -/
def selected (meaning : Doc → Bool) (fields : List String) (docs : List Doc) : ReadResult :=
  .data [("read", (docs.filter meaning).map (restrict fields))]

/-- Of the requested names that objects inherit, the document has its own, except for `__proto__`. -/
def Selectable (fields : List String) (item : Doc) : Prop :=
  ∀ name ∈ fields, name ∈ inherited → ((item.lookup name).isSome ↔ name ≠ "__proto__")

/-- Every document that the filter selects is so. -/
def AllSelectable (meaning : Doc → Bool) (fields : List String) (docs : List Doc) : Prop :=
  ∀ item ∈ docs, meaning item = true → Selectable fields item

/-- What it is the JSON of. -/
def ReadResult.held : ReadResult → QueryResult
  | .data lists => .data (lists.map fun (key, docs) => (key, docs.map (Properties.onValues .own)))
  | .error e => .error e

variable {js field} {meaning : Doc → Bool}

theorem filterAuxM_of_ok {filter : Doc → Except Error Bool} (result : ∀ doc, filter doc = .ok (meaning doc))
    (docs acc : List Doc) : docs.filterAuxM filter acc = .ok ((docs.filter meaning).reverse ++ acc) := by
  induction docs generalizing acc with
  | nil => rfl
  | cons doc docs ih =>
    simp only [List.filterAuxM, result doc]
    refine (ih _).trans ?_
    cases h : meaning doc
    · simp [h]
    · simp [h]

theorem query_of_computes {filter : Json} (computes : Computes js filter meaning) (docs : List Doc) :
    query js filter docs = .ok (docs.filter meaning) := by
  obtain ⟨made, ok, result⟩ := computes
  have all : docs.filterM made = .ok (docs.filter meaning) := by
    rw [List.filterM, filterAuxM_of_ok result]
    simp [bind, Except.bind, pure, Except.pure]
  rw [query, ok]
  exact all

/-! ## What can be sent -/

theorem itemJson_own (doc : Doc) : itemJson (doc.onValues .own) = some doc := by
  induction doc with
  | nil => rfl
  | cons property doc ih =>
    obtain ⟨key, value⟩ := property
    rw [Properties.onValues_cons, itemJson, ih]
    rfl

/-- An item is sent with the properties it has, and they are all its own. -/
theorem lookup_itemJson {item : Item} {doc : Doc} (sent : itemJson item = some doc) (name : String) :
    item.lookup name = (doc.lookup name).map .own := by
  induction item generalizing doc with
  | nil => cases sent; rfl
  | cons property item ih =>
    obtain ⟨key, value⟩ := property
    cases value with
    | inherited k => cases sent
    | own value =>
      obtain ⟨rest, sent', rfl⟩ := Option.map_eq_some_iff.1 sent
      rw [List.lookup_cons, List.lookup_cons]
      split
      · rfl
      · exact ih sent'

theorem fromJson_held (result : ReadResult) : result.held.fromJson = some result := by
  cases result with
  | error e => rfl
  | data data =>
    have list (docs : List Doc) : (docs.map (Properties.onValues .own)).mapM itemJson = some docs := by
      induction docs with
      | nil => rfl
      | cons doc docs ih => simp [itemJson_own, ih]
    have all (lists : List (String × List Doc)) :
        (lists.map fun (key, docs) => (key, docs.map (Properties.onValues .own))).mapM listJson = some lists := by
      induction lists with
      | nil => rfl
      | cons entry lists ih => simp [listJson, list, ih]
    rw [ReadResult.held, QueryResult.fromJson, all]
    rfl

theorem lookup_restrict (fields : List String) (item : Doc) (name : String) :
    (restrict fields item).lookup name = if name ∈ fields then item.lookup name else none := by
  have assigned (keys : List String) (obj : Doc) :
      (keys.foldl (fun obj key => obj.assign key ((item.lookup key).getD .null)) obj).lookup name =
        if name ∈ keys then some ((item.lookup name).getD .null) else obj.lookup name := by
    induction keys generalizing obj with
    | nil => simp
    | cons key keys ih =>
      rw [List.foldl_cons, ih, Properties.lookup_assign]
      by_cases same : name = key
      · simp [same]
      · simp [same]
  simp only [restrict, assigned, List.mem_filter, Properties.any_key]
  by_cases requested : name ∈ fields
  · cases there : item.lookup name with
    | none => simp [requested]
    | some value => simp [requested]
  · simp [requested]

theorem lookup_project (fields : List String) (item : Doc) (name : String) :
    (project fields item).lookup name =
      if name ∈ fields ∧ isIn item name ∧ name ≠ "__proto__" then some (held item name) else none := by
  have assigned (keys : List String) (obj : Item) :
      (keys.foldl (fun obj key => obj.setOwn key (held item key)) obj).lookup name =
        if name ∈ keys ∧ name ≠ "__proto__" then some (held item name) else obj.lookup name := by
    induction keys generalizing obj with
    | nil => simp
    | cons key keys ih =>
      rw [List.foldl_cons, ih, Properties.lookup_setOwn]
      by_cases same : name = key
      · subst same
        by_cases proto : name = "__proto__" <;> simp [proto]
      · simp [same]
  simp only [project, assigned, List.mem_filter, and_assoc]
  rfl

/-- Where it is so, the selector makes the document that is asked for. -/
theorem project_of_selectable {fields : List String} {item : Doc} (selectable : Selectable fields item) :
    project fields item = (restrict fields item).onValues .own := by
  have each (names : List String) (inside : ∀ name ∈ names, name ∈ fields) (obj : Doc) :
      (names.filter (isIn item)).foldl (fun obj key => obj.setOwn key (held item key)) (obj.onValues .own) =
        ((names.filter fun key => item.any (·.1 = key)).foldl
          (fun obj key => obj.assign key ((item.lookup key).getD .null)) obj).onValues .own := by
    induction names generalizing obj with
    | nil => rfl
    | cons name names ih =>
      have fits := selectable name (inside name List.mem_cons_self)
      have later := ih fun name there => inside name (List.mem_cons_of_mem _ there)
      cases there : item.lookup name with
      | some value =>
        have own : name ≠ "__proto__" := fun proto => (fits (by rw [proto]; decide)).1 (by rw [there]; rfl) proto
        have made : (obj.onValues Held.own).setOwn name (held item name) =
            (obj.assign name ((item.lookup name).getD .null)).onValues .own := by
          have written := Properties.onValues_setOwn Held.own obj name value
          rw [Properties.setOwn, if_neg own] at written
          rw [held, there]
          exact written.symm
        rw [List.filter_cons_of_pos (by simp [isIn, Properties.any_key, there]),
          List.filter_cons_of_pos (by simp [Properties.any_key, there]), List.foldl_cons, List.foldl_cons, made]
        exact later _
      | none =>
        rw [List.filter_cons_of_neg (p := fun key => item.any (·.1 = key)) (by simp [Properties.any_key, there])]
        by_cases common : name ∈ inherited
        · have proto : name = "__proto__" := by
            by_contra other
            have own := (fits common).2 other
            rw [there] at own
            cases own
          subst proto
          rw [List.filter_cons_of_pos (by simp [isIn, common]), List.foldl_cons, Properties.setOwn_proto]
          exact later obj
        · rw [List.filter_cons_of_neg (by simp [isIn, Properties.any_key, there, common])]
          exact later obj
  exact each fields (fun _ there => there) []

/-- **What a client is sent of an item**: exactly where the document is selectable it is what was asked for. -/
theorem sent_iff (fields : List String) (item : Doc) :
    itemJson (project fields item) = some (restrict fields item) ↔ Selectable fields item := by
  constructor
  · intro sent name requested common
    have same := lookup_itemJson sent name
    rw [lookup_project, lookup_restrict, if_pos requested] at same
    have within : isIn item name = true := by simp [isIn, common]
    by_cases proto : name = "__proto__"
    · subst proto
      cases there : item.lookup "__proto__" with
      | none => simp
      | some value => simp [there] at same
    · cases there : item.lookup name with
      | none => simp [there, requested, within, proto] at same
      | some value => simp [proto]
  · intro selectable
    rw [project_of_selectable selectable, itemJson_own]

/-! ## A filter that does not throw -/

theorem selector_of_selectable {docs : List Doc} {fields : List String} (sends : AllSelectable meaning fields docs) :
    selector [("read", docs.filter meaning)] fields = (selected meaning fields docs).held := by
  have each : (docs.filter meaning).map (project fields) =
      ((docs.filter meaning).map (restrict fields)).map (Properties.onValues .own) := by
    rw [List.map_map]
    refine List.map_congr_left fun item there => ?_
    obtain ⟨member, picked⟩ := List.mem_filter.1 there
    exact project_of_selectable (sends item member picked)
  simp [selector, selected, ReadResult.held, each]

theorem executeAndSelect_of_computes (computes : Computes js field.filter meaning) (unaliased : field.alias_ = none)
    {docs : List Doc} (sends : AllSelectable meaning field.fields docs) :
    executeAndSelect js field docs = (selected meaning field.fields docs).held := by
  simp only [executeAndSelect, query_of_computes computes, ReadField.key, unaliased, Option.getD_none]
  exact selector_of_selectable sends

theorem onChange_of_computes (computes : Computes js field.filter meaning) {docs : List Doc}
    (sends : AllSelectable meaning field.fields docs) :
    onChange js field docs = some (selected meaning field.fields docs).held := by
  simp only [onChange, query_of_computes computes]
  exact congrArg some (selector_of_selectable sends)

end Fula.Graph
