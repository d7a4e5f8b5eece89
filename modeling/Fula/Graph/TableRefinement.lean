import Fula.Graph.OpenDbs

/-!
# The topic and the table of stores

`DbCollections` has the table alone: names are strings, a message is what the
handler reads from it, and the test on the peers may come out either way.
`step_refines` says that each step of the whole topic is a step of that model,
as long as what a message lists can be made keys of. A result about all runs of
the table then holds of the topic, as in `stores_agree`.
-/

namespace Fula.Graph.OpenDbs
set_option autoImplicit false
open Lib

section
variable (toString_ : Json → Option String)

/-- The elements are found under these keys. -/
def Keys (elements : List Json) (names : List String) : Prop :=
  List.Forall₂ (fun e name => propertyKey toString_ e = some name) elements names

inductive SameLoad : LoadAt → DbCollections.LoadAt → Prop
  | docs (db : Nat) : SameLoad (.docs db) (.docs db)
  | load (db : Nat) : SameLoad (.load db) (.load db)
  | peers (db : Nat) : SameLoad (.peers db) (.peers db)
  | publish (db : Nat) : SameLoad (.publish db) (.publish db)
  | replicated (db : Nat) : SameLoad (.replicated db) (.replicated db)
  | returned (store : DbCollections.Store) : SameLoad .returned (.returned store)
  | rejected (db : Nat) : SameLoad .rejected (.rejected db)

inductive SameHandle : HandleAt → DbCollections.HandleAt → Prop
  | docs {db : Nat} {rest : List Json} {names : List String} (keys : Keys toString_ rest names) :
    SameHandle (.docs db rest) (.docs names)
  | load {db : Nat} {rest : List Json} {names : List String} (keys : Keys toString_ rest names) :
    SameHandle (.load db rest) (.load names)
  | publish : SameHandle .publish .publish
  | returned : SameHandle .returned .returned
  | rejected : SameHandle .rejected .rejected

/-- The same call at the same await. -/
inductive SameProcess : Process → DbCollections.Process → Prop
  | loadDB {dbName : String} {at_ : LoadAt} {at' : DbCollections.LoadAt} (same : SameLoad at_ at') :
    SameProcess (.loadDB dbName at_) (.loadDB dbName at')
  | handleDBNameReceived (opened : List (String × Nat)) {at_ : HandleAt} {at' : DbCollections.HandleAt}
    (same : SameHandle toString_ at_ at') :
    SameProcess (.handleDBNameReceived at_) (.handleDBNameReceived opened at')

/-- `t` is the table of `b`. -/
structure Refines (b : Box) (t : DbCollections.Box) : Prop where
  ready : t.ready = b.ready
  table : t.dbCollections = b.dbCollections
  docs : List.Forall₂ (fun call name => propertyKey toString_ call.1 = some name) b.docs t.docs
  processes : List.Forall₂ (SameProcess toString_) b.processes t.processes
  published : t.published = b.published

/-- What a message lists can be made keys of. -/
def Own (parse : Bytes → Option Json) : Act → Prop
  | .message msg => ∀ data elements, parse msg.data = some data →
      (property "list" data).bind iterated = some elements → ∃ names, Keys toString_ elements names
  | _ => True

end

section
variable {parse : Bytes → Option Json} {toString_ : Json → Option String}
  {positive : List Char → Bool} {b b' : Box} {t : DbCollections.Box}

theorem refines_init : Refines toString_ {} {} := ⟨rfl, rfl, .nil, .nil, rfl⟩

theorem Refines.has (h : Refines toString_ b t) (name : String) : (t.store? name).isSome = b.has name := by
  rw [Bool.eq_iff_iff, DbCollections.store?_isSome, h.table]
  simp [Box.has, or_comm]

theorem Refines.length (h : Refines toString_ b t) : t.docs.length = b.docs.length :=
  h.docs.length_eq.symm

/-- The calls of the two models that stand at one place are the same. -/
theorem Refines.at (h : Refines toString_ b t) {i : Nat} {p : Process} (here : b.processes[i]? = some p) :
    ∃ q, t.processes[i]? = some q ∧ SameProcess toString_ p q := by
  obtain ⟨less, rfl⟩ := List.getElem?_eq_some_iff.1 here
  have less' : i < t.processes.length := h.processes.length_eq ▸ less
  exact ⟨t.processes[i], List.getElem?_eq_getElem less', h.processes.get less less'⟩

theorem forall₂_set {α β : Type} {R : α → β → Prop} {as : List α} {bs : List β} {a : α} {b : β} (same : R a b)
    (h : List.Forall₂ R as bs) (i : Nat) : List.Forall₂ R (as.set i a) (bs.set i b) := by
  induction h generalizing i with
  | nil => exact .nil
  | cons head tail ih =>
    cases i with
    | zero => exact .cons same tail
    | succ i => exact .cons head (ih i)

theorem Refines.set (h : Refines toString_ b t) {p : Process} {q : DbCollections.Process}
    (same : SameProcess toString_ p q) (i : Nat) :
    Refines toString_ (b.set i p) { t with processes := t.processes.set i q } :=
  ⟨h.ready, h.table, h.docs, forall₂_set same h.processes i, h.published⟩

theorem Refines.append (h : Refines toString_ b t) {p : Process} {q : DbCollections.Process}
    (same : SameProcess toString_ p q) :
    Refines toString_ { b with processes := b.processes ++ [p] } { t with processes := t.processes ++ [q] } :=
  ⟨h.ready, h.table, h.docs, List.rel_append h.processes (.cons same .nil), h.published⟩

/-- One more call of `docs`. -/
theorem Refines.open (h : Refines toString_ b t) {e : Json} {name : String}
    (key : propertyKey toString_ e = some name) :
    Refines toString_ { b with docs := b.docs ++ [(e, options)] } { t with docs := t.docs ++ [name] } :=
  ⟨h.ready, h.table, List.rel_append h.docs (.cons key .nil), h.processes, h.published⟩

theorem Refines.openShared (h : Refines toString_ b t) {elements : List Json} {names : List String}
    (keys : Keys toString_ elements names) (opened : List (String × Nat)) :
    ∃ t' opened' at', DbCollections.openShared t opened names = (t', .handleDBNameReceived opened' at') ∧
      Refines toString_ (OpenDbs.openShared toString_ b elements).1 t' ∧
      SameHandle toString_ (OpenDbs.openShared toString_ b elements).2 at' := by
  induction keys with
  | nil => exact ⟨t, opened, .returned, rfl, h, .returned⟩
  | @cons e name rest names key keys ih =>
    simp only [OpenDbs.openShared, DbCollections.openShared, key, h.has name]
    by_cases has : b.has name = true
    · simp only [has, if_true]
      exact ih
    · simp only [has, if_false, Bool.false_eq_true]
      by_cases ready : b.ready = true
      · rw [if_pos ready, if_pos (h.ready.trans ready)]
        exact ⟨_, _, _, rfl, h.open key, .docs keys⟩
      · rw [if_neg ready, if_neg (h.ready ▸ ready)]
        exact ⟨_, _, _, rfl, h, .rejected⟩

theorem Refines.loadDB (h : Refines toString_ b t) (dbName : String) :
    Refines toString_ (OpenDbs.loadDB b dbName) (DbCollections.loadDB t dbName) := by
  have has := h.has dbName
  unfold OpenDbs.loadDB DbCollections.loadDB
  rw [← has]
  cases t.store? dbName with
  | some store =>
    simp only [Option.isSome_some, if_true]
    exact h.append (.loadDB (.returned store))
  | none =>
    simp only [Option.isSome_none, Bool.false_eq_true, if_false, h.length]
    exact (h.open (e := .str dbName) rfl).append (.loadDB (.docs b.docs.length))

/-- What the handler reads from a message. -/
theorem Refines.message (h : Refines toString_ b t) {msg : Message}
    (own : Own toString_ parse (.message msg)) :
    ∃ data t' opened at', DbCollections.handleDBNameReceived t msg.topicIDs data =
        (t', .handleDBNameReceived opened at') ∧
      Refines toString_ (handleDBNameReceived parse toString_ b msg).1 t' ∧
      SameHandle toString_ (handleDBNameReceived parse toString_ b msg).2 at' := by
  unfold handleDBNameReceived
  by_cases topic : msg.topicIDs.contains "open-dbs" = true
  · simp only [DbCollections.handleDBNameReceived, topic, Bool.not_true, Bool.false_eq_true, if_false]
    split
    · exact ⟨none, _, _, _, rfl, h, .rejected⟩
    · exact ⟨none, _, _, _, rfl, h, .rejected⟩
    · next data _ parsed =>
      split
      · refine ⟨some { roi := some "req" }, _, _, _, rfl, ?_, .publish⟩
        refine ⟨h.ready, h.table, h.docs, h.processes, ?_⟩
        simp only [h.table, h.published, Box.announcement, DbCollections.Box.announcement]
      · split
        · exact ⟨none, _, _, _, rfl, h, .rejected⟩
        · next elements list =>
          obtain ⟨names, keys⟩ := own data elements parsed list
          obtain ⟨t', opened, at', opens, refined, same⟩ := h.openShared keys []
          exact ⟨some { list := some names }, t', opened, at', opens, refined, same⟩
  · simp only [DbCollections.handleDBNameReceived, topic, Bool.not_false, if_true]
    exact ⟨none, _, _, _, rfl, h, .returned⟩

/-- What a process awaits is fulfilled, other than the list of peers. -/
theorem Refines.resolve (h : Refines toString_ b t) {i : Nat}
    (moved : step parse toString_ positive b (.resolve i) = some b') :
    ∃ t', DbCollections.step t (.resolve i false) = some t' ∧ Refines toString_ b' t' := by
  simp only [step] at moved
  split at moved
  · next n db here =>
    cases moved
    obtain ⟨_, there, ⟨⟨⟩⟩⟩ := h.at here
    exact ⟨_, by simp only [DbCollections.step, there], h.set (.loadDB (.load db)) i⟩
  · next n db here =>
    cases moved
    obtain ⟨_, there, ⟨⟨⟩⟩⟩ := h.at here
    have recorded : Refines toString_
        { b with loaded := b.loaded ++ [db], dbCollections := b.dbCollections.assign n db }
        { t with dbCollections := t.dbCollections.assign n db } :=
      ⟨h.ready, congrArg (·.assign n db) h.table, h.docs, h.processes, h.published⟩
    exact ⟨_, by simp only [DbCollections.step, there], recorded.set (.loadDB (.peers db)) i⟩
  · next n db here =>
    cases moved
    obtain ⟨_, there, ⟨⟨⟩⟩⟩ := h.at here
    exact ⟨_, by simp only [DbCollections.step, there], h.set (.loadDB (.replicated db)) i⟩
  · next n db here =>
    cases moved
    obtain ⟨_, there, ⟨⟨⟩⟩⟩ := h.at here
    exact ⟨_, by simp only [DbCollections.step, there], h.set (.loadDB (.returned (.db db))) i⟩
  · next db rest here =>
    cases moved
    obtain ⟨_, there, _ | ⟨opened, ⟨keys⟩⟩⟩ := h.at here
    exact ⟨_, by simp only [DbCollections.step, there], h.set (.handleDBNameReceived opened (.load keys)) i⟩
  · next db rest here =>
    cases moved
    obtain ⟨_, there, _ | ⟨opened, _ | ⟨keys⟩⟩⟩ := h.at here
    have loaded : Refines toString_ { b with loaded := b.loaded ++ [db] } t :=
      ⟨h.ready, h.table, h.docs, h.processes, h.published⟩
    obtain ⟨t', opened', at', opens, refined, same⟩ := loaded.openShared keys opened
    exact ⟨_, by simp only [DbCollections.step, there, opens], refined.set
      (.handleDBNameReceived opened' same) i⟩
  · next here =>
    cases moved
    obtain ⟨_, there, _ | ⟨opened, ⟨⟩⟩⟩ := h.at here
    exact ⟨_, by simp only [DbCollections.step, there], h.set (.handleDBNameReceived opened .returned) i⟩
  · cases moved

/-- The list of peers never counts as a positive number, so the call returns. -/
theorem Refines.peers (h : Refines toString_ b t) {i : Nat} {found : List Peer}
    (moved : step parse toString_ positive b (.peers i found) = some b') :
    ∃ t', DbCollections.step t (.resolve i false) = some t' ∧ Refines toString_ b' t' := by
  simp only [step] at moved
  split at moved
  · next n db here =>
    rw [connected_eq_false, if_neg Bool.false_ne_true] at moved
    cases moved
    obtain ⟨_, there, ⟨⟨⟩⟩⟩ := h.at here
    exact ⟨_, by simp [DbCollections.step, there], h.set (.loadDB (.returned (.db db))) i⟩
  · cases moved

theorem Refines.reject (h : Refines toString_ b t) {i : Nat}
    (moved : step parse toString_ positive b (.reject i) = some b') :
    ∃ t', DbCollections.step t (.reject i) = some t' ∧ Refines toString_ b' t' := by
  simp only [step] at moved
  split at moved
  · next n db here =>
    cases moved
    obtain ⟨_, there, ⟨⟨⟩⟩⟩ := h.at here
    exact ⟨_, by simp only [DbCollections.step, there], h.set (.loadDB (.rejected db)) i⟩
  · next n db here =>
    cases moved
    obtain ⟨_, there, ⟨⟨⟩⟩⟩ := h.at here
    exact ⟨_, by simp only [DbCollections.step, there], h.set (.loadDB (.rejected db)) i⟩
  · next n db here =>
    cases moved
    obtain ⟨_, there, ⟨⟨⟩⟩⟩ := h.at here
    exact ⟨_, by simp only [DbCollections.step, there], h.set (.loadDB (.rejected db)) i⟩
  · next n db here =>
    cases moved
    obtain ⟨_, there, ⟨⟨⟩⟩⟩ := h.at here
    exact ⟨_, by simp only [DbCollections.step, there], h.set (.loadDB (.rejected db)) i⟩
  · next db rest here =>
    cases moved
    obtain ⟨_, there, _ | ⟨opened, ⟨⟩⟩⟩ := h.at here
    exact ⟨_, by simp only [DbCollections.step, there], h.set (.handleDBNameReceived opened .rejected) i⟩
  · next db rest here =>
    cases moved
    obtain ⟨_, there, _ | ⟨opened, ⟨⟩⟩⟩ := h.at here
    exact ⟨_, by simp only [DbCollections.step, there], h.set (.handleDBNameReceived opened .rejected) i⟩
  · next here =>
    cases moved
    obtain ⟨_, there, _ | ⟨opened, ⟨⟩⟩⟩ := h.at here
    exact ⟨_, by simp only [DbCollections.step, there], h.set (.handleDBNameReceived opened .rejected) i⟩
  · cases moved

/-- Each step of the topic is a step of the table. -/
theorem step_refines {a : Act} (h : Refines toString_ b t) (own : Own toString_ parse a)
    (moved : step parse toString_ positive b a = some b') :
    ∃ c t', DbCollections.step t c = some t' ∧ Refines toString_ b' t' := by
  cases a with
  | ready =>
    simp only [step] at moved
    split at moved
    · cases moved
    · next early =>
      cases moved
      refine ⟨.ready, _, by simp only [DbCollections.step, h.ready, early]; rfl, ?_⟩
      exact ⟨rfl, h.table, h.docs, h.processes, h.published⟩
  | request n =>
    simp only [step] at moved
    split at moved
    · next ready =>
      cases moved
      exact ⟨.request n, _, by simp only [DbCollections.step, h.ready, ready, if_true], h.loadDB n⟩
    · cases moved
  | message msg =>
    cases moved
    obtain ⟨data, t', opened, at', called, refined, same⟩ := h.message own
    exact ⟨.message msg.topicIDs data, _, by simp only [DbCollections.step, called],
      refined.append (.handleDBNameReceived opened same)⟩
  | resolve i => exact ⟨_, h.resolve moved⟩
  | peers i found => exact ⟨_, h.peers moved⟩
  | reject i => exact ⟨_, h.reject moved⟩

/-- A run of the topic is a run of the table. -/
theorem run_refines {acts : List Act} (own : ∀ a ∈ acts, Own toString_ parse a)
    (reached : run (step parse toString_ positive) {} acts = some b) :
    ∃ tableActs t, run DbCollections.step {} tableActs = some t ∧ Refines toString_ b t :=
  run_simulates refines_init (fun _ _ _ _ h own moved => step_refines h own moved) own reached

/-! ## One store a collection -/

/-- The store that a call of `loadDB` has in hand. -/
def LoadAt.store? : LoadAt → Option Nat
  | docs db => some db
  | load db => some db
  | peers db => some db
  | publish db => some db
  | replicated db => some db
  | returned => none
  | rejected => none

/-- Someone works on the store `db` of this name. -/
def Box.uses (b : Box) (dbName : String) (db : Nat) : Prop :=
  (∃ at_, .loadDB dbName at_ ∈ b.processes ∧ at_.store? = some db) ∨ b.dbCollections.lookup dbName = some db

/-- The keys of the stores that were opened, in order. -/
def Box.opened (toString_ : Json → Option String) (b : Box) : List String :=
  b.docs.filterMap fun call => propertyKey toString_ call.1

theorem SameLoad.store? {at_ : LoadAt} {at' : DbCollections.LoadAt} (same : SameLoad at_ at') {db : Nat}
    (here : at_.store? = some db) : at'.store = .db db := by
  cases same <;> cases here <;> rfl

theorem Refines.uses (h : Refines toString_ b t) {dbName : String} {db : Nat} (used : b.uses dbName db) :
    t.uses dbName (.db db) := by
  rcases used with ⟨at_, member, works⟩ | tabled
  · obtain ⟨i, here⟩ := List.mem_iff_getElem?.1 member
    obtain ⟨_, there, ⟨same⟩⟩ := h.at here
    refine .inl ⟨_, List.mem_of_getElem? there, ?_⟩
    simp only [DbCollections.Process.stores, same.store? works, List.mem_singleton]
  · exact .inr (by rw [DbCollections.Box.store?, h.table, tabled])

theorem Refines.opened (h : Refines toString_ b t) : b.opened toString_ = t.docs := by
  have keys := h.docs
  unfold Box.opened
  generalize b.docs = docs at keys ⊢
  generalize t.docs = names at keys ⊢
  induction keys with
  | nil => rfl
  | cons key _ ih => simp only [List.filterMap_cons, key, ih]

/-- In a run that has opened no key twice, all who work on a collection work on one store. -/
theorem stores_agree {acts : List Act} (own : ∀ a ∈ acts, Own toString_ parse a)
    (reached : run (step parse toString_ positive) {} acts = some b) (once : (b.opened toString_).Nodup)
    {dbName : String} {db db' : Nat} (used : b.uses dbName db) (used' : b.uses dbName db') : db = db' := by
  obtain ⟨tableActs, t, reached', h⟩ := run_refines own reached
  have agreed : DbCollections.OneStore t := (DbCollections.oneStore_iff reached').2 (h.opened ▸ once)
  exact DbCollections.Store.db.inj (agreed.2 dbName (.db db) (.db db') (h.uses used) (h.uses used'))

end
end Fula.Graph.OpenDbs
