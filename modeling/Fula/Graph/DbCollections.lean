import Fula.Lib.Run
import Fula.Lib.Properties

/-!
# The box's table of stores

`registerGraph` keeps the store of each collection in `dbCollections`. Two
functions open stores: `loadDB`, which every request calls, looks the name up,
opens the store when it is missing and records it two awaits later;
`handleDBNameReceived`, which opens the missing ones of the collections that
a peer announced, never records them. The model is the table with all calls of
the two functions in progress. A store is the number of its `docs` call.

The schedule of a run is the order in which names are looked up and recorded.
`one_store` says by it when every collection has one store that everyone uses:
exactly when no name is looked up again before it has been recorded.
-/

namespace Fula.Graph.DbCollections
set_option autoImplicit false
open Lib

/-- The message of the `open-dbs` topic. -/
structure Announcement where
  roi : Option String := none
  list : Option (List String) := none
  deriving DecidableEq

/-- What a request works on: what the call of `docs` returned, or the function
that an object has under an inherited name. -/
inductive Store where
  | db (call : Nat)
  | inherited
  deriving DecidableEq

/-- What a call of `loadDB` awaits, with its store. -/
inductive LoadAt where
  | docs (db : Nat)
  | load (db : Nat)
  | peers (db : Nat)
  | publish (db : Nat)
  | replicated (db : Nat)
  | returned (store : Store)
  | rejected (db : Nat)
  deriving DecidableEq

inductive HandleAt where
  | docs (rest : List String)
  | load (rest : List String)
  | publish
  | returned
  | rejected
  deriving DecidableEq

inductive Process where
  | loadDB (dbName : String) (at_ : LoadAt)
  /-- With the stores it has opened so far. -/
  | handleDBNameReceived (opened : List (String × Nat)) (at_ : HandleAt)
  deriving DecidableEq

structure Box where
  /-- Whether `options` has been initialised, the request methods with it. -/
  ready : Bool := false
  dbCollections : Properties Nat := []
  /-- The names that `orbitDBNode.docs` was called with. -/
  docs : List String := []
  processes : List Process := []
  published : List Announcement := []
  deriving DecidableEq

inductive Act where
  /-- `registerGraph` has published its own request. -/
  | ready
  /-- A request calls `loadDB`. -/
  | request (dbName : String)
  /-- A message is delivered; `none` is not JSON of the shape read here. -/
  | message (topicIDs : List String) (data : Option Announcement)
  /-- What process `i` awaits is fulfilled; `peers` is the outcome of the test on `swarm.peers()`. -/
  | resolve (i : Nat) (peers : Bool)
  /-- What process `i` awaits is rejected. -/
  | reject (i : Nat)

/-- `dbCollections[dbName]`. -/
def Box.store? (b : Box) (dbName : String) : Option Store :=
  match b.dbCollections.lookup dbName with
  | some db => some (.db db)
  | none => if inherited.contains dbName then some .inherited else none

def loadDB (b : Box) (dbName : String) : Box :=
  match b.store? dbName with
  | some store => { b with processes := b.processes ++ [.loadDB dbName (.returned store)] }
  | none => { b with
      docs := b.docs ++ [dbName]
      processes := b.processes ++ [.loadDB dbName (.docs b.docs.length)] }

/-- The loop over the announced names, from the head of a round. -/
def openShared (b : Box) (opened : List (String × Nat)) : List String → Box × Process
  | [] => (b, .handleDBNameReceived opened .returned)
  | dbName :: rest =>
    if (b.store? dbName).isSome then openShared b opened rest
    else if b.ready then
      ({ b with docs := b.docs ++ [dbName] },
        .handleDBNameReceived (opened ++ [(dbName, b.docs.length)]) (.docs rest))
    -- `options` is read before its initialisation
    else (b, .handleDBNameReceived opened .rejected)

def Box.announcement (b : Box) (roi : Option String) : Announcement :=
  { roi, list := some b.dbCollections.objectKeys }

def handleDBNameReceived (b : Box) (topicIDs : List String) (data : Option Announcement) : Box × Process :=
  if !topicIDs.contains "open-dbs" then (b, .handleDBNameReceived [] .returned) else
  match data with
  | none => (b, .handleDBNameReceived [] .rejected)
  | some data =>
    if data.roi = some "req" then
      ({ b with published := b.published ++ [b.announcement (some "res")] }, .handleDBNameReceived [] .publish)
    else match data.list with
      | none => (b, .handleDBNameReceived [] .rejected)
      | some list => openShared b [] list

def step (b : Box) : Act → Option Box
  | .ready => if b.ready then none else some { b with ready := true }
  | .request dbName => if b.ready then some (loadDB b dbName) else none
  | .message topicIDs data =>
    let (b', p) := handleDBNameReceived b topicIDs data
    some { b' with processes := b'.processes ++ [p] }
  | .resolve i peers => match b.processes[i]? with
    | some (.loadDB n (.docs db)) => some { b with processes := b.processes.set i (.loadDB n (.load db)) }
    | some (.loadDB n (.load db)) => some { b with
        dbCollections := b.dbCollections.assign n db
        processes := b.processes.set i (.loadDB n (.peers db)) }
    | some (.loadDB n (.peers db)) =>
      if peers then some { b with
        published := b.published ++ [b.announcement none]
        processes := b.processes.set i (.loadDB n (.publish db)) }
      else some { b with processes := b.processes.set i (.loadDB n (.returned (.db db))) }
    | some (.loadDB n (.publish db)) => some { b with processes := b.processes.set i (.loadDB n (.replicated db)) }
    | some (.loadDB n (.replicated db)) => some { b with
        processes := b.processes.set i (.loadDB n (.returned (.db db))) }
    | some (.handleDBNameReceived opened (.docs rest)) => some { b with
        processes := b.processes.set i (.handleDBNameReceived opened (.load rest)) }
    | some (.handleDBNameReceived opened (.load rest)) =>
      let (b', p) := openShared b opened rest
      some { b' with processes := b'.processes.set i p }
    | some (.handleDBNameReceived opened .publish) => some { b with
        processes := b.processes.set i (.handleDBNameReceived opened .returned) }
    | _ => none
  | .reject i => match b.processes[i]? with
    | some (.loadDB n (.docs db)) => some { b with processes := b.processes.set i (.loadDB n (.rejected db)) }
    | some (.loadDB n (.load db)) => some { b with processes := b.processes.set i (.loadDB n (.rejected db)) }
    | some (.loadDB n (.peers db)) => some { b with processes := b.processes.set i (.loadDB n (.rejected db)) }
    | some (.loadDB n (.publish db)) => some { b with processes := b.processes.set i (.loadDB n (.rejected db)) }
    | some (.handleDBNameReceived opened (.docs _)) => some { b with
        processes := b.processes.set i (.handleDBNameReceived opened .rejected) }
    | some (.handleDBNameReceived opened (.load _)) => some { b with
        processes := b.processes.set i (.handleDBNameReceived opened .rejected) }
    | some (.handleDBNameReceived opened .publish) => some { b with
        processes := b.processes.set i (.handleDBNameReceived opened .rejected) }
    | _ => none

/-! ## Who uses which store -/

def LoadAt.store : LoadAt → Store
  | docs db => .db db
  | load db => .db db
  | peers db => .db db
  | publish db => .db db
  | replicated db => .db db
  | returned store => store
  | rejected db => .db db

/-- The stores a process works on, by the names it asked for. -/
def Process.stores : Process → List (String × Store)
  | .loadDB dbName at_ => [(dbName, at_.store)]
  | .handleDBNameReceived opened _ => opened.map fun (dbName, db) => (dbName, .db db)

def Box.uses (b : Box) (dbName : String) (store : Store) : Prop :=
  (∃ p ∈ b.processes, (dbName, store) ∈ p.stores) ∨ b.store? dbName = some store

/-- Each collection has one store, and everyone uses it. -/
def OneStore (b : Box) : Prop :=
  b.docs.Nodup ∧ ∀ n store store', b.uses n store → b.uses n store' → store = store'

/-! ## The schedule -/

inductive Event where
  /-- `dbCollections[dbName]` is read. -/
  | lookup (dbName : String)
  /-- `loadDB` assigns it. -/
  | record (dbName : String)
  deriving DecidableEq

/-- The names that the loop looks up until it awaits; before the box is ready it opens nothing. -/
def Box.looks (b : Box) : List String → List String
  | [] => []
  | dbName :: rest => if b.ready then dbName :: if (b.store? dbName).isSome then b.looks rest else [] else []

/-- What a step looks up and records. -/
def events (b : Box) : Act → List Event
  | .ready => []
  | .request dbName => [.lookup dbName]
  | .message topicIDs data =>
    if !topicIDs.contains "open-dbs" then [] else
    match data with
    | none => []
    | some data => if data.roi = some "req" then [] else (b.looks (data.list.getD [])).map .lookup
  | .resolve i _ => match b.processes[i]? with
    | some (.loadDB n (.load _)) => [.record n]
    | some (.handleDBNameReceived _ (.load rest)) => (b.looks rest).map .lookup
    | _ => []
  | .reject _ => []

def schedule (acts : List Act) : List Event := (trace step (fun b a => some (events b a)) {} acts).flatten

/-- No name is looked up again before it has been recorded, but for those that every object has. -/
def InTurn (log : List Event) : Prop :=
  ∀ before n after, log = before ++ .lookup n :: after → n ∉ inherited →
    .lookup n ∈ before → .record n ∈ before

section
variable {log : List Event} {b b' : Box} {docs : List String} {table : Properties Nat} {n : String}

theorem inTurn_nil : InTurn [] := by
  intro before n after split
  cases before <;> cases split

/-- One more event is in turn, unless it looks up what has been looked up and not recorded. -/
theorem inTurn_snoc {e : Event} :
    InTurn (log ++ [e]) ↔
      InTurn log ∧ ∀ n, e = .lookup n → n ∉ inherited → .lookup n ∈ log → .record n ∈ log := by
  constructor
  · intro all
    refine ⟨fun before n after split => all before n (after ++ [e]) (by simp [split]), ?_⟩
    rintro n rfl
    exact all log n [] rfl
  · rintro ⟨earlier, last⟩ before n after split
    rcases List.eq_nil_or_concat after with rfl | ⟨after, e', rfl⟩
    · obtain ⟨rfl, same⟩ := List.append_inj' split rfl
      exact last n (List.singleton_inj.1 same)
    · rw [List.concat_eq_append, ← List.cons_append, ← List.append_assoc] at split
      exact earlier before n after (List.append_inj' split rfl).1

theorem store?_isSome : (b.store? n).isSome = true ↔ (b.dbCollections.lookup n).isSome = true ∨ n ∈ inherited := by
  unfold Box.store?
  cases b.dbCollections.lookup n with
  | some db => simp
  | none => by_cases common : n ∈ inherited <;> simp [common]

/-! ### What has been opened and recorded -/

/-- What the events so far say of the calls of `docs` and of the table. -/
structure Logged (log : List Event) (docs : List String) (table : Properties Nat) : Prop where
  opened : ∀ n, n ∈ docs ↔ n ∉ inherited ∧ .lookup n ∈ log
  recorded : ∀ n, (table.lookup n).isSome = true ↔ .record n ∈ log
  tabled : ∀ n db, table.lookup n = some db → docs[db]? = some n
  once : docs.Nodup ↔ InTurn log

theorem logged_init : Logged [] [] [] where
  opened := by simp
  recorded := by simp
  tabled := by simp
  once := by simp [inTurn_nil]

theorem Logged.mem_docs (h : Logged log docs table) (recorded : .record n ∈ log) : n ∈ docs := by
  obtain ⟨db, there⟩ := Option.isSome_iff_exists.1 ((h.recorded n).2 recorded)
  exact List.mem_of_getElem? (h.tabled n db there)

/-- A name is found. -/
theorem Logged.found (h : Logged log docs table) (has : (table.lookup n).isSome = true ∨ n ∈ inherited) :
    Logged (log ++ [.lookup n]) docs table where
  opened m := by
    rw [h.opened]
    simp only [List.mem_append, List.mem_singleton, Event.lookup.injEq]
    refine and_congr_right fun own => ⟨.inl, fun seen => seen.elim id ?_⟩
    rintro rfl
    exact ((h.opened m).1 (h.mem_docs ((h.recorded m).1 (has.resolve_right own)))).2
  recorded m := by simp [h.recorded m]
  tabled := h.tabled
  once := by
    rw [h.once, inTurn_snoc, iff_self_and]
    rintro _ m same own -
    cases same
    exact (h.recorded n).1 (has.resolve_right own)

/-- A name is missing and is opened. -/
theorem Logged.opens (h : Logged log docs table) (new : table.lookup n = none) (own : n ∉ inherited) :
    Logged (log ++ [.lookup n]) (docs ++ [n]) table where
  opened m := by
    simp only [List.mem_append, List.mem_singleton, Event.lookup.injEq, h.opened]
    constructor
    · rintro (⟨other, seen⟩ | rfl)
      · exact ⟨other, .inl seen⟩
      · exact ⟨own, .inr rfl⟩
    · rintro ⟨other, seen | rfl⟩
      · exact .inl ⟨other, seen⟩
      · exact .inr rfl
  recorded m := by simp [h.recorded m]
  tabled m db there := by
    have before := h.tabled m db there
    rw [List.getElem?_append_left (List.getElem?_eq_some_iff.1 before).1]
    exact before
  once := by
    have unrecorded : .record n ∉ log := fun there => by
      have has := (h.recorded n).2 there
      rw [new] at has
      cases has
    have fresh : n ∉ docs ↔ .lookup n ∉ log := by simp [h.opened, own]
    rw [inTurn_snoc, ← h.once, List.nodup_append]
    constructor
    · rintro ⟨before, -, apart⟩
      refine ⟨before, fun m same _ seen => ?_⟩
      cases same
      exact absurd seen (fresh.1 fun there => apart n there n (by simp) rfl)
    · rintro ⟨before, last⟩
      refine ⟨before, by simp, fun m there k new same => ?_⟩
      rw [List.mem_singleton.1 new] at same
      subst same
      exact unrecorded (last m rfl own ((h.opened m).1 there).2)

/-- A store is recorded. -/
theorem Logged.records (h : Logged log docs table) {db : Nat} (opened : docs[db]? = some n) :
    Logged (log ++ [.record n]) docs (table.assign n db) where
  opened m := by simp [h.opened m]
  recorded m := by
    rw [Properties.lookup_assign]
    by_cases same : m = n
    · simp [same]
    · simp [same, h.recorded m]
  tabled m d there := by
    rw [Properties.lookup_assign] at there
    split at there
    · next same => cases there; rw [same]; exact opened
    · exact h.tabled m d there
  once := by
    rw [h.once, inTurn_snoc, iff_self_and]
    rintro _ m ⟨⟩

/-! ### What a step does -/

/-- A step finds names, opens one that is missing, or records a store that someone works on. -/
inductive Sees (b b' : Box) : List Event → Prop
  | looks (found : List String) (opened : Option String) (there : ∀ n ∈ found, (b.store? n).isSome = true)
    (missing : ∀ n, opened = some n → b.store? n = none) (docs : b'.docs = b.docs ++ opened.toList)
    (table : b'.dbCollections = b.dbCollections) : Sees b b' ((found ++ opened.toList).map .lookup)
  | records {n : String} {db : Nat} (loading : b.uses n (.db db)) (docs : b'.docs = b.docs)
    (table : b'.dbCollections = b.dbCollections.assign n db) : Sees b b' [.record n]

structure Moves (es : List Event) (b b' : Box) : Prop where
  sees : Sees b b' es
  uses : ∀ n store, b'.uses n store → b.uses n store ∨ (b'.docs = b.docs ++ [n] ∧ store = .db b.docs.length)

variable {i : Nat} {p p' : Process}

/-- A step that leaves the table as it is. -/
theorem moves_looks (found : List String) (opened : Option String) (there : ∀ n ∈ found, (b.store? n).isSome = true)
    (missing : ∀ n, opened = some n → b.store? n = none) (docs : b'.docs = b.docs ++ opened.toList)
    (table : b'.dbCollections = b.dbCollections)
    (stores : ∀ p' ∈ b'.processes, ∀ n store, (n, store) ∈ p'.stores →
      b.uses n store ∨ (opened = some n ∧ store = .db b.docs.length)) :
    Moves ((found ++ opened.toList).map .lookup) b b' := by
  refine ⟨.looks found opened there missing docs table, ?_⟩
  rintro n store (⟨p', member, used⟩ | tabled)
  · refine (stores p' member n store used).imp_right ?_
    rintro ⟨rfl, same⟩
    exact ⟨docs, same⟩
  · refine .inl (.inr ?_)
    simpa only [Box.store?, table] using tabled

/-- A process goes on and opens nothing. -/
theorem moves_on (at_ : b.processes[i]? = some p) (docs : b'.docs = b.docs) (table : b'.dbCollections = b.dbCollections)
    (processes : b'.processes = b.processes.set i p') (stores : p'.stores = p.stores) : Moves [] b b' := by
  refine moves_looks [] none (by simp) (by simp) (by simp [docs]) table ?_
  intro q member n store used
  rw [processes] at member
  rcases List.mem_or_eq_of_mem_set member with old | rfl
  · exact .inl (.inl ⟨q, old, used⟩)
  · exact .inl (.inl ⟨p, List.mem_of_getElem? at_, stores ▸ used⟩)

/-- A process begins that has opened nothing. -/
theorem moves_begin (found : List String) (p : Process) (published : List Announcement)
    (stores : ∀ n store, (n, store) ∈ p.stores → b.uses n store) (there : ∀ n ∈ found, (b.store? n).isSome = true) :
    Moves (found.map .lookup) b { b with published, processes := b.processes ++ [p] } := by
  rw [← List.append_nil found]
  refine moves_looks found none there (by simp) (by simp) rfl fun q member n store used => ?_
  rcases List.mem_append.1 member with old | new
  · exact .inl (.inl ⟨q, old, used⟩)
  · rw [List.mem_singleton.1 new] at used
    exact .inl (stores n store used)

/-- The first announced name that is not in the table. -/
def Box.firstMissing (b : Box) (names : List String) : Option String := names.find? fun n => (b.store? n).isNone

theorem firstMissing_missing {names : List String} (first : b.firstMissing names = some n) : b.store? n = none := by
  simpa using List.find?_some first

theorem looks_eq (b : Box) (names : List String) :
    ∃ found, b.looks names = found ++ (if b.ready then b.firstMissing names else none).toList ∧
      ∀ n ∈ found, (b.store? n).isSome = true := by
  cases ready : b.ready with
  | false =>
    refine ⟨[], ?_, by simp⟩
    cases names <;> simp [Box.looks, ready]
  | true =>
    induction names with
    | nil => exact ⟨[], rfl, by simp⟩
    | cons n names ih =>
      cases has : b.store? n with
      | none => exact ⟨[], by simp [Box.looks, Box.firstMissing, has, ready], by simp⟩
      | some store =>
        obtain ⟨found, same, there⟩ := ih
        refine ⟨n :: found, ?_, ?_⟩
        · simpa [Box.looks, Box.firstMissing, has, ready] using same
        · simpa [has] using there

/-- The loop opens the first missing name, once `options` is there. -/
theorem openShared_eq (b : Box) (opened : List (String × Nat)) (names : List String) :
    ∃ at_, openShared b opened names =
      ({ b with docs := b.docs ++ (if b.ready then b.firstMissing names else none).toList },
        .handleDBNameReceived
          (opened ++ (if b.ready then b.firstMissing names else none).toList.map fun n => (n, b.docs.length)) at_) := by
  induction names with
  | nil => exact ⟨.returned, by simp [openShared, Box.firstMissing]⟩
  | cons n names ih =>
    cases has : b.store? n with
    | some store =>
      obtain ⟨at_, ih⟩ := ih
      exact ⟨at_, by simpa [openShared, has, Box.firstMissing] using ih⟩
    | none =>
      cases ready : b.ready with
      | true => exact ⟨.docs names, by simp [openShared, has, Box.firstMissing, ready]⟩
      | false =>
        refine ⟨.rejected, ?_⟩
        simp only [openShared, has, Option.isSome_none, Bool.false_eq_true, if_false, ready]
        cases b
        simp_all

/-- A round of the loop, as process `p'` of a box whose other processes have been there before. -/
theorem moves_shared (opened : List (String × Nat)) {names : List String} (at_ : HandleAt)
    (docs : b'.docs = b.docs ++ (if b.ready then b.firstMissing names else none).toList)
    (table : b'.dbCollections = b.dbCollections)
    (before : ∀ n db, (n, db) ∈ opened → b.uses n (.db db))
    (processes : ∀ q ∈ b'.processes, q ∈ b.processes ∨ q = .handleDBNameReceived
      (opened ++ (if b.ready then b.firstMissing names else none).toList.map fun n => (n, b.docs.length)) at_) :
    Moves ((b.looks names).map .lookup) b b' := by
  obtain ⟨found, looked, there⟩ := looks_eq b names
  rw [looked]
  have missing : ∀ n, (if b.ready then b.firstMissing names else none) = some n → b.store? n = none := by
    intro n first
    split at first
    · exact firstMissing_missing first
    · cases first
  generalize (if b.ready then b.firstMissing names else none) = first at docs processes missing ⊢
  have stores : ∀ q ∈ b'.processes, ∀ n store, (n, store) ∈ q.stores →
      b.uses n store ∨ (first = some n ∧ store = .db b.docs.length) := by
    intro q member n store used
    rcases processes q member with old | rfl
    · exact .inl (.inl ⟨q, old, used⟩)
    · obtain ⟨⟨m, db⟩, there, same⟩ := List.mem_map.1 used
      obtain ⟨rfl, rfl⟩ := Prod.mk.inj same
      rcases List.mem_append.1 there with old | new
      · exact .inl (before m db old)
      · obtain ⟨k, here, same⟩ := List.mem_map.1 new
        obtain ⟨rfl, rfl⟩ := Prod.mk.inj same
        exact .inr ⟨Option.mem_toList.1 here, rfl⟩
  exact moves_looks found first there missing docs table stores

theorem moves_request : Moves [.lookup n] b (loadDB b n) := by
  unfold loadDB
  cases has : b.store? n with
  | some store =>
    have stores : ∀ m store', (m, store') ∈ (Process.loadDB n (.returned store)).stores → b.uses m store' := by
      intro m store' used
      obtain ⟨rfl, rfl⟩ := Prod.mk.inj (List.mem_singleton.1 used)
      exact .inr has
    exact moves_begin [n] (.loadDB n (.returned store)) b.published stores (by simp [has])
  | none =>
    refine moves_looks [] (some n) (by simp) (by simp [has]) rfl rfl ?_
    intro q member m store used
    rcases List.mem_append.1 member with old | new
    · exact .inl (.inl ⟨q, old, used⟩)
    · rw [List.mem_singleton.1 new] at used
      obtain ⟨rfl, rfl⟩ := Prod.mk.inj (List.mem_singleton.1 used)
      exact .inr ⟨rfl, rfl⟩

/-- A call of the handler that looks nothing up. -/
theorem moves_idle (at_ : HandleAt) (published : List Announcement) :
    Moves [] b { b with published, processes := b.processes ++ [.handleDBNameReceived [] at_] } :=
  moves_begin [] (.handleDBNameReceived [] at_) published (by simp [Process.stores]) (by simp)

theorem moves_message (topicIDs : List String) (data : Option Announcement) {p : Process}
    (called : handleDBNameReceived b topicIDs data = (b', p)) :
    Moves (events b (.message topicIDs data)) b { b' with processes := b'.processes ++ [p] } := by
  simp only [handleDBNameReceived] at called
  simp only [events]
  split at called
  · next other =>
    cases called
    rw [if_pos other]
    exact moves_idle .returned _
  · next topic =>
    rw [if_neg topic]
    cases data with
    | none =>
      cases called
      exact moves_idle .rejected _
    | some data =>
      simp only at called ⊢
      split at called
      · next asks =>
        cases called
        rw [if_pos asks]
        exact moves_idle .publish _
      · next tells =>
        rw [if_neg tells]
        cases listed : data.list with
        | none =>
          simp only [listed] at called
          cases called
          exact moves_idle .rejected _
        | some names =>
          simp only [listed] at called
          obtain ⟨at_, result⟩ := openShared_eq b [] names
          rw [called] at result
          cases result
          exact moves_shared [] at_ rfl rfl (by simp) (by simp)

theorem moves_resolve {peers : Bool} (moved : step b (.resolve i peers) = some b') :
    Moves (events b (.resolve i peers)) b b' := by
  simp only [step] at moved
  simp only [events]
  split at moved
  · next n db at_ => cases moved; simp only [at_]; exact moves_on at_ rfl rfl rfl rfl
  · next n db at_ =>
    cases moved
    simp only [at_]
    have loading : b.uses n (.db db) := .inl ⟨_, List.mem_of_getElem? at_, by simp [Process.stores, LoadAt.store]⟩
    refine ⟨.records loading rfl rfl, ?_⟩
    rintro m store (⟨q, member, used⟩ | tabled)
    · rcases List.mem_or_eq_of_mem_set member with old | rfl
      · exact .inl (.inl ⟨q, old, used⟩)
      · obtain ⟨rfl, rfl⟩ := Prod.mk.inj (List.mem_singleton.1 used)
        exact .inl loading
    · simp only [Box.store?, Properties.lookup_assign] at tabled
      by_cases same : m = n
      · rw [if_pos same] at tabled
        cases tabled
        exact .inl (same ▸ loading)
      · rw [if_neg same] at tabled
        exact .inl (.inr tabled)
  · next n db at_ =>
    simp only [at_]
    split at moved
    · cases moved; exact moves_on at_ rfl rfl rfl rfl
    · cases moved; exact moves_on at_ rfl rfl rfl rfl
  · next n db at_ => cases moved; simp only [at_]; exact moves_on at_ rfl rfl rfl rfl
  · next n db at_ => cases moved; simp only [at_]; exact moves_on at_ rfl rfl rfl rfl
  · next opened rest at_ => cases moved; simp only [at_]; exact moves_on at_ rfl rfl rfl rfl
  · next opened rest at_ =>
    obtain ⟨next, result⟩ := openShared_eq b opened rest
    rw [result] at moved
    cases moved
    simp only [at_]
    exact moves_shared opened next rfl rfl
      (fun n db there => .inl ⟨_, List.mem_of_getElem? at_, List.mem_map.2 ⟨(n, db), there, rfl⟩⟩)
      fun q member => List.mem_or_eq_of_mem_set member
  · next opened at_ => cases moved; simp only [at_]; exact moves_on at_ rfl rfl rfl rfl
  · cases moved

theorem moves_reject (moved : step b (.reject i) = some b') : Moves [] b b' := by
  simp only [step] at moved
  split at moved
  · next n db at_ => cases moved; exact moves_on at_ rfl rfl rfl rfl
  · next n db at_ => cases moved; exact moves_on at_ rfl rfl rfl rfl
  · next n db at_ => cases moved; exact moves_on at_ rfl rfl rfl rfl
  · next n db at_ => cases moved; exact moves_on at_ rfl rfl rfl rfl
  · next opened rest at_ => cases moved; exact moves_on at_ rfl rfl rfl rfl
  · next opened rest at_ => cases moved; exact moves_on at_ rfl rfl rfl rfl
  · next opened at_ => cases moved; exact moves_on at_ rfl rfl rfl rfl
  · cases moved

/-- Every step looks up names, opens one store at most, and records one at most. -/
theorem moves_step {a : Act} (moved : step b a = some b') : Moves (events b a) b b' := by
  cases a with
  | ready =>
    simp only [step] at moved
    split at moved
    · cases moved
    · cases moved
      exact moves_looks [] none (by simp) (by simp) (by simp) rfl
        fun q member n store used => .inl (.inl ⟨q, member, used⟩)
  | request dbName =>
    simp only [step] at moved
    split at moved
    · cases moved; exact moves_request
    · cases moved
  | message topicIDs data => cases moved; exact moves_message topicIDs data rfl
  | resolve i peers => exact moves_resolve moved
  | reject i => exact moves_reject moved

/-! ## One store a collection -/

/-- `store` is one of this name. -/
def Means (docs : List String) (n : String) : Store → Prop
  | .db call => docs[call]? = some n
  | .inherited => n ∈ inherited

/-- The state after a run with these events. -/
structure Kept (log : List Event) (b : Box) : Prop where
  logged : Logged log b.docs b.dbCollections
  uses : ∀ n store, b.uses n store → Means b.docs n store

theorem kept_init : Kept [] {} where
  logged := logged_init
  uses := by
    rintro n store (⟨p, member, -⟩ | tabled)
    · cases member
    · simp only [Box.store?, List.lookup_nil] at tabled
      split at tabled
      · next common => cases tabled; exact List.contains_iff_mem.1 common
      · cases tabled

theorem Logged.founds (h : Logged log b.docs b.dbCollections) {found : List String}
    (there : ∀ n ∈ found, (b.store? n).isSome = true) :
    Logged (log ++ found.map .lookup) b.docs b.dbCollections := by
  induction found generalizing log with
  | nil => simpa using h
  | cons n found ih =>
    have first := h.found (store?_isSome.1 (there n List.mem_cons_self))
    simpa using ih first fun m later => there m (List.mem_cons_of_mem _ later)

theorem Kept.step {a : Act} (h : Kept log b) (moved : step b a = some b') : Kept (log ++ events b a) b' := by
  obtain ⟨sees, uses⟩ := moves_step moved
  generalize events b a = es at sees ⊢
  have longer : ∃ more, b'.docs = b.docs ++ more := by
    cases sees with
    | looks found opened there missing docs table => exact ⟨_, docs⟩
    | records loading docs table => exact ⟨[], by simp [docs]⟩
  constructor
  · cases sees with
    | looks found opened there missing docs table =>
      have before := h.logged.founds there
      rw [docs, table, List.map_append, ← List.append_assoc]
      cases opened with
      | none => simpa using before
      | some n =>
        have new := missing n rfl
        have absent : ¬(b.store? n).isSome = true := by simp [new]
        rw [store?_isSome, not_or, Option.not_isSome_iff_eq_none] at absent
        exact before.opens absent.1 absent.2
    | records loading docs table =>
      rw [docs, table]
      exact h.logged.records (h.uses _ _ loading)
  · intro n store used
    obtain ⟨more, docs⟩ := longer
    rcases uses n store used with before | ⟨new, rfl⟩
    · have means := h.uses n store before
      cases store with
      | inherited => exact means
      | db call =>
        rw [Means, docs, List.getElem?_append_left (List.getElem?_eq_some_iff.1 means).1]
        exact means
    · rw [Means, new, List.getElem?_append_right (Nat.le_refl _), Nat.sub_self]
      rfl

theorem kept_run {acts : List Act} (reached : run DbCollections.step {} acts = some b) : Kept (schedule acts) b := by
  refine run_traced (I := fun _ bs b => Kept bs.flatten b) kept_init ?_ reached
  intro _ bs m a m' h moved
  rw [List.flatten_append]
  simpa using h.step moved

/-- All who use a name that was opened once use the same. -/
theorem Kept.oneStore_iff (h : Kept log b) : OneStore b ↔ b.docs.Nodup := by
  refine ⟨And.left, fun once => ⟨once, fun n store store' used used' => ?_⟩⟩
  have means := h.uses n store used
  have means' := h.uses n store' used'
  have own : n ∈ b.docs → n ∉ inherited := fun there => ((h.logged.opened n).1 there).1
  cases store with
  | inherited =>
    cases store' with
    | inherited => rfl
    | db call => exact absurd means (own (List.mem_of_getElem? means'))
  | db call =>
    cases store' with
    | inherited => exact absurd means' (own (List.mem_of_getElem? means))
    | db call' =>
      obtain ⟨inside, here⟩ := List.getElem?_eq_some_iff.1 means
      obtain ⟨inside', here'⟩ := List.getElem?_eq_some_iff.1 means'
      rw [once.getElem_inj_iff.1 (here.trans here'.symm)]

/-- In a run that has opened no name twice every collection has one store. -/
theorem oneStore_iff {acts : List Act} (reached : run DbCollections.step {} acts = some b) :
    OneStore b ↔ b.docs.Nodup :=
  (kept_run reached).oneStore_iff

/-- **One store a collection**, exactly where no name was looked up again before it had been recorded. -/
theorem one_store {acts : List Act} (reached : run DbCollections.step {} acts = some b) :
    OneStore b ↔ InTurn (schedule acts) :=
  (oneStore_iff reached).trans (kept_run reached).logged.once

end

/-- Two requests on one collection, the second after the first has recorded its store, and two on a name that
every object has. -/
def sampleActs : List Act :=
  [.ready, .request "profile", .resolve 0 false, .resolve 0 false, .request "profile", .request "toString",
    .request "toString"]

theorem one_store_sample : ∃ b, run step {} sampleActs = some b ∧ OneStore b := by
  refine ⟨_, rfl, (one_store (show run step {} sampleActs = some _ from rfl)).2 ?_⟩
  change InTurn ([] ++ [Event.lookup "profile"] ++ [Event.record "profile"] ++ [Event.lookup "profile"] ++
    [Event.lookup "toString"] ++ [Event.lookup "toString"])
  simp only [inTurn_snoc]
  simp [inTurn_nil, inherited]

/-- Two requests on one collection, the second before the first has recorded
its store: each works on a store of its own. -/
theorem two_stores :
    ∃ b, run step {} [.ready, .request "profile", .request "profile", .resolve 0 false, .resolve 1 false,
        .resolve 0 false, .resolve 1 false, .resolve 0 false, .resolve 1 false] = some b ∧
      b.docs = ["profile", "profile"] ∧
      b.processes = [.loadDB "profile" (.returned (.db 0)), .loadDB "profile" (.returned (.db 1))] ∧ ¬OneStore b := by
  refine ⟨_, rfl, rfl, rfl, ?_⟩
  rintro ⟨once, -⟩
  exact absurd once (by decide)

end Fula.Graph.DbCollections
