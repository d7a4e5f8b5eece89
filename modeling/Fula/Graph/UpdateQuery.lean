import Fula.Graph.OrbitResolvers

/-!
# What `updateQuery` changes

`updateQuery` puts back every selected document with the fields of the value
spread over it. A put goes under the `_id` found in the document it is given,
so a value with an `_id` of its own moves the selected documents there.
`updateQuery_frame` says when each document stays where it was.
-/

namespace Fula.Graph
set_option autoImplicit false
open Lib

/-- What OrbitDB's document store does, as far as it is relied on: a document is
indexed under its `_id`, and one without is refused. -/
structure LawfulStore (S : Type) extends DocStore S where
  /-- The index key of an `_id`; a falsy one has none. -/
  key : Json → Option String
  get : S → String → Option Doc
  get_put : ∀ doc s k, get (put doc s) k = if (doc.lookup "_id").bind key = some k then some doc else get s k
  mem_docs : ∀ s doc, doc ∈ docs s ↔ ∃ k, get s k = some doc
  keyed : ∀ s k doc, get s k = some doc → (doc.lookup "_id").bind key = some k

/-- The value of a request: an object, with a field for each key. -/
structure Value where
  fields : Properties Json
  distinct : (fields.map (·.1)).Nodup

variable {V S : Type} {js : JavaScript V} {filter : Json} {value : Value} {s : S}

/-- The filter selects the document. -/
def Selects (js : JavaScript V) (filter : Json) (doc : Doc) : Prop :=
  ∃ selected, _reGetFilter js filter = .ok selected ∧ selected doc = .ok true

namespace LawfulStore

variable (store : LawfulStore S)

/-- The key that a document is put under. -/
def idOf (doc : Doc) : Option String := (doc.lookup "_id").bind store.key

/-- The store after the writes of a mutation, with no other writer. -/
def write (writes : List Write) (s : S) : S := writes.foldl (fun s w => store.apply w s) s

/-- What the selection changes, and all it changes. -/
structure Updated (js : JavaScript V) (filter : Json) (value : Value) (s s' : S) : Prop where
  ids : ∀ k, (store.get s' k).isSome = (store.get s k).isSome
  unselected : ∀ k doc, store.get s k = some doc → ¬Selects js filter doc → store.get s' k = some doc
  selected : ∀ k doc, store.get s k = some doc → Selects js filter doc → ∃ doc', store.get s' k = some doc' ∧
    ∀ field, doc'.lookup field = (value.fields.lookup field).or (doc.lookup field)

/-- The value has no `_id`, or that of each selected document. -/
def KeepsIds (js : JavaScript V) (filter : Json) (value : Value) (s : S) : Prop :=
  ∀ newId, value.fields.lookup "_id" = some newId → ∀ k doc, store.get s k = some doc → Selects js filter doc →
    store.key newId = some k

end LawfulStore

/-! ## The spread and the selection -/

theorem lookup_spread {base overrides : Doc} (distinct : (overrides.map (·.1)).Nodup) (field : String) :
    (spread base overrides).lookup field = (overrides.lookup field).or (base.lookup field) := by
  induction overrides generalizing base with
  | nil => rfl
  | cons property overrides ih =>
    obtain ⟨key, v⟩ := property
    obtain ⟨fresh, distinct⟩ := List.nodup_cons.1 distinct
    rw [spread, List.foldl_cons, ← spread, ih distinct, Properties.lookup_assign, List.lookup_cons]
    by_cases same : field = key
    · subst same
      have absent : overrides.lookup field = none := by
        rw [List.lookup_eq_none_iff]
        intro property member
        have apart : property.1 ≠ field := fun named => fresh (List.mem_map.2 ⟨property, member, named⟩)
        simpa using Ne.symm apart
      simp [absent]
    · simp [same, beq_eq_false_iff_ne.2 same]

theorem filterAuxM_ok {filter : Doc → Except Error Bool} {docs acc result : List Doc}
    (ran : docs.filterAuxM filter acc = .ok result) (doc : Doc) :
    doc ∈ result ↔ doc ∈ acc ∨ doc ∈ docs ∧ filter doc = .ok true := by
  induction docs generalizing acc with
  | nil =>
    cases ran
    simp
  | cons first docs ih =>
    simp only [List.filterAuxM, bind, Except.bind] at ran
    cases selected : filter first with
    | error e => simp [selected] at ran
    | ok taken =>
      rw [selected] at ran
      have rest := ih ran
      rw [rest]
      cases taken with
      | true =>
        simp only [cond_true, List.mem_cons]
        constructor
        · rintro ((rfl | old) | later)
          · exact .inr ⟨.inl rfl, selected⟩
          · exact .inl old
          · exact .inr ⟨.inr later.1, later.2⟩
        · rintro (old | ⟨rfl | later, taken⟩)
          · exact .inl (.inr old)
          · exact .inl (.inl rfl)
          · exact .inr ⟨later, taken⟩
      | false =>
        simp only [cond_false, List.mem_cons]
        constructor
        · rintro (old | later)
          · exact .inl old
          · exact .inr ⟨.inr later.1, later.2⟩
        · rintro (old | ⟨rfl | later, taken⟩)
          · exact .inl old
          · rw [selected] at taken
            cases taken
          · exact .inr ⟨later, taken⟩

/-- A query that does not throw returns what the filter selects. -/
theorem mem_query {docs result : List Doc} (ran : query js filter docs = .ok result) (doc : Doc) :
    doc ∈ result ↔ doc ∈ docs ∧ Selects js filter doc := by
  simp only [query, bind, Except.bind] at ran
  cases made : _reGetFilter js filter with
  | error e => simp [made] at ran
  | ok selected =>
    rw [made] at ran
    simp only [List.filterM, bind, Except.bind] at ran
    cases all : docs.filterAuxM selected [] with
    | error e => simp [all] at ran
    | ok reversed =>
      rw [all] at ran
      cases ran
      rw [List.mem_reverse, filterAuxM_ok all]
      simp [Selects, made]

theorem updateQuery_ok {docs : List Doc} {writes : List Write} {answer : Answer}
    (ran : updateQuery js filter (.obj value.fields) docs = .ok (writes, answer)) :
    ∃ result, query js filter docs = .ok result ∧ writes = result.map fun doc => .put (spread doc value.fields) := by
  simp only [updateQuery, bind, Except.bind] at ran
  cases found : query js filter docs with
  | error e => simp [found] at ran
  | ok result =>
    rw [found] at ran
    cases ran
    exact ⟨result, rfl, by simp [ownProperties, Json.entries, Function.comp_def]⟩

namespace LawfulStore

variable {store : LawfulStore S} {docs : List Doc} {k : String}

/-- Nothing is put under the key. -/
theorem get_puts_none (away : ∀ doc ∈ docs, store.idOf doc ≠ some k) (s : S) :
    store.get (store.write (docs.map .put) s) k = store.get s k := by
  induction docs generalizing s with
  | nil => rfl
  | cons doc docs ih =>
    refine (ih (fun doc' member => away doc' (by simp [member])) (store.put doc s)).trans ?_
    rw [store.get_put, if_neg]
    exact away doc (by simp)

/-- One document is put under the key, however often. -/
theorem get_puts {doc : Doc} (put_ : doc ∈ docs) (id : store.idOf doc = some k)
    (only : ∀ doc' ∈ docs, store.idOf doc' = some k → doc' = doc) (s : S) :
    store.get (store.write (docs.map .put) s) k = some doc := by
  induction docs generalizing s with
  | nil => cases put_
  | cons first docs ih =>
    have rest : ∀ doc' ∈ docs, store.idOf doc' = some k → doc' = doc := fun doc' member => only doc' (by simp [member])
    by_cases again : doc ∈ docs
    · exact ih again rest (store.put first s)
    · obtain rfl : doc = first := (List.mem_cons.1 put_).resolve_right again
      refine (get_puts_none (fun doc' member same => ?_) (store.put doc s)).trans ?_
      · rw [rest doc' member same] at member
        exact again member
      · rw [store.get_put]
        exact if_pos id

theorem idOf_spread (store : LawfulStore S) (doc : Doc) : store.idOf (spread doc value.fields) =
    ((value.fields.lookup "_id").or (doc.lookup "_id")).bind store.key := by
  rw [idOf, lookup_spread value.distinct]

/-- Where no id changes, a selected document is put under its own key. -/
theorem KeepsIds.idOf (keeps : store.KeepsIds js filter value s) {doc : Doc} (at_ : store.get s k = some doc)
    (selected : Selects js filter doc) : store.idOf (spread doc value.fields) = some k := by
  rw [idOf_spread]
  cases found : value.fields.lookup "_id" with
  | none => exact store.keyed s k doc at_
  | some newId => exact keeps newId found k doc at_ selected

theorem KeepsIds.updated {result : List Doc} (keeps : store.KeepsIds js filter value s)
    (found : query js filter (store.docs s) = .ok result) :
    store.Updated js filter value s (store.write (result.map fun doc => .put (spread doc value.fields)) s) := by
  have split : (result.map fun doc => Write.put (spread doc value.fields)) =
      (result.map fun doc => spread doc value.fields).map .put := by
    rw [List.map_map]
    rfl
  rw [split]
  -- Whatever is put under a key was made of the document that is there.
  have own : ∀ doc' ∈ result.map fun doc => spread doc value.fields, ∀ k, store.idOf doc' = some k →
      ∃ doc, store.get s k = some doc ∧ Selects js filter doc ∧ doc' = spread doc value.fields := by
    intro doc' member k id
    obtain ⟨doc, taken, rfl⟩ := List.mem_map.1 member
    obtain ⟨there, selected⟩ := (mem_query found doc).1 taken
    obtain ⟨k', at_⟩ := (store.mem_docs s doc).1 there
    have same := (keeps.idOf at_ selected).symm.trans id
    rw [Option.some.injEq] at same
    subst same
    exact ⟨doc, at_, selected, rfl⟩
  have kept : ∀ k doc, store.get s k = some doc → ¬Selects js filter doc →
      store.get (store.write ((result.map fun doc => spread doc value.fields).map .put) s) k = some doc := by
    intro k doc at_ passed
    refine (get_puts_none (fun doc' member id => ?_) s).trans at_
    obtain ⟨doc₀, there, selected, -⟩ := own doc' member k id
    rw [at_, Option.some.injEq] at there
    subst there
    exact passed selected
  have changed : ∀ k doc, store.get s k = some doc → Selects js filter doc →
      store.get (store.write ((result.map fun doc => spread doc value.fields).map .put) s) k = some (spread doc value.fields) := by
    intro k doc at_ selected
    have taken := (mem_query found doc).2 ⟨(store.mem_docs s doc).2 ⟨k, at_⟩, selected⟩
    refine get_puts (List.mem_map_of_mem taken) (keeps.idOf at_ selected) (fun doc' member id => ?_) s
    obtain ⟨doc₀, there, -, rfl⟩ := own doc' member k id
    rw [at_, Option.some.injEq] at there
    rw [there]
  refine ⟨fun k => ?_, kept, fun k doc at_ selected => ⟨_, changed k doc at_ selected, lookup_spread value.distinct⟩⟩
  cases at_ : store.get s k with
  | some doc =>
    by_cases selected : Selects js filter doc
    · rw [changed k doc at_ selected]; rfl
    · rw [kept k doc at_ selected]
  | none =>
    refine congrArg Option.isSome ((get_puts_none (fun doc' member id => ?_) s).trans at_)
    obtain ⟨doc, there, -⟩ := own doc' member k id
    rw [at_] at there
    cases there

/-- **What `updateQuery` changes**: with no other writer it changes only what the
filter selects, and there only the fields of the value, exactly when the value
has no `_id` or the one that each selected document has. -/
theorem updateQuery_frame {writes : List Write} {answer : Answer}
    (ran : updateQuery js filter (.obj value.fields) (store.docs s) = .ok (writes, answer)) :
    store.Updated js filter value s (store.write writes s) ↔ store.KeepsIds js filter value s := by
  obtain ⟨result, found, rfl⟩ := updateQuery_ok ran
  constructor
  · intro updated newId named k doc at_ selected
    obtain ⟨doc', there, fields⟩ := updated.selected k doc at_ selected
    have id := store.keyed _ k doc' there
    rw [fields "_id", named] at id
    exact id
  · intro keeps
    exact keeps.updated found

end LawfulStore

/-! ## A store of documents by `_id` -/

/-- A string that is not empty. -/
def stringKey : Json → Option String
  | .str id => if id = "" then none else some id
  | _ => none

/-- The documents of a store that has string ids, by `_id`. -/
structure Collection where
  entries : Properties Doc
  distinct : (entries.map (·.1)).Nodup
  keyed : ∀ entry ∈ entries, (entry.2.lookup "_id").bind stringKey = some entry.1

def Collection.put (doc : Doc) (s : Collection) : Collection :=
  match id : (doc.lookup "_id").bind stringKey with
  | none => s
  | some k => {
      entries := s.entries.assign k doc
      distinct := Properties.nodup_assign s.distinct k doc
      keyed := by
        intro entry member
        have found := (Properties.lookup_eq_some_iff_mem (Properties.nodup_assign s.distinct k doc)).2 member
        rw [Properties.lookup_assign] at found
        split at found
        · next same => cases found; rw [id, same]
        · exact s.keyed entry ((Properties.lookup_eq_some_iff_mem s.distinct).1 found) }

def Collection.del (id : String) (s : Collection) : Collection where
  entries := s.entries.filter fun entry => entry.1 ≠ id
  distinct := (List.filter_sublist.map _).nodup s.distinct
  keyed entry member := s.keyed entry (List.mem_filter.1 member).1

def collectionStore : LawfulStore Collection where
  put := Collection.put
  del := Collection.del
  docs s := s.entries.map (·.2)
  key := stringKey
  get s k := s.entries.lookup k
  get_put doc s k := by
    unfold Collection.put
    split
    · next absent => simp [absent]
    · next id found =>
      change (s.entries.assign id doc).lookup k = _
      rw [found, Properties.lookup_assign]
      by_cases same : k = id
      · subst same; simp
      · simp [same, Ne.symm same]
  mem_docs s doc := by
    constructor
    · intro member
      obtain ⟨entry, there, rfl⟩ := List.mem_map.1 member
      exact ⟨entry.1, (Properties.lookup_eq_some_iff_mem s.distinct).2 there⟩
    · rintro ⟨k, found⟩
      exact List.mem_map.2 ⟨(k, doc), (Properties.lookup_eq_some_iff_mem s.distinct).1 found, rfl⟩
  keyed s k doc found := s.keyed (k, doc) ((Properties.lookup_eq_some_iff_mem s.distinct).1 found)

/-- Two documents with the ids `a` and `b`. -/
def twoDocuments : Collection where
  entries := [("a", [("_id", .str "a"), ("name", .str "x")]), ("b", [("_id", .str "b")])]
  distinct := by decide
  keyed := by
    intro entry member
    simp only [List.mem_cons, List.not_mem_nil, or_false] at member
    rcases member with rfl | rfl <;> rfl

/-- All names changed. -/
theorem updateQuery_frame_sample :
    ∃ writes answer, updateQuery noComparisons (.obj []) (.obj [("name", .str "y")]) (collectionStore.docs twoDocuments) =
        .ok (writes, answer) ∧
      (collectionStore.Updated noComparisons (.obj []) ⟨[("name", .str "y")], by decide⟩ twoDocuments
          (collectionStore.write writes twoDocuments) ↔
        collectionStore.KeepsIds noComparisons (.obj []) ⟨[("name", .str "y")], by decide⟩ twoDocuments) :=
  ⟨_, _, rfl, @LawfulStore.updateQuery_frame Unit Collection noComparisons (.obj []) ⟨[("name", .str "y")], by decide⟩
    twoDocuments collectionStore _ _ rfl⟩

/-- All ids set to `b`: the document `a` stays as it was, and `b` becomes one of the two. -/
theorem updateQuery_moves :
    ∃ writes answer, updateQuery noComparisons (.obj []) (.obj [("_id", .str "b")]) (collectionStore.docs twoDocuments) =
        .ok (writes, answer) ∧
      ¬collectionStore.Updated noComparisons (.obj []) ⟨[("_id", .str "b")], by decide⟩ twoDocuments
        (collectionStore.write writes twoDocuments) := by
  refine ⟨_, _, rfl, fun updated => ?_⟩
  obtain ⟨doc, there, fields⟩ := updated.selected "a" [("_id", .str "a"), ("name", .str "x")] rfl ⟨_, rfl, rfl⟩
  cases there
  have id : some (Json.str "a") = some (.str "b") := fields "_id"
  simp at id

end Fula.Graph
