import Fula.Lib.Run
import Fula.Lib.Json
import Fula.Lib.Coercion
import Fula.Graph.DbCollections

/-!
# The open-dbs topic

Boxes tell each other over a pubsub topic which collections they have, so that
the others open them too. This is `registerGraph` from its subscription on,
with all that decides what is sent and what becomes of a message: the payload
that any peer may send, the names that a plain object inherits, the moment at
which `options` is initialised, and the test on the list of peers.

`announcement_handled_iff` says for which messages the handler does its work,
and `announced_iff` for which peer lists a new collection is announced.
-/

namespace Fula.Graph.OpenDbs
set_option autoImplicit false
open Lib DbCollections

abbrev Bytes := List UInt8

/-- What a store is opened with: the write list of its access controller. -/
structure Options where
  write : List String
  deriving DecidableEq

def options : Options := ⟨["*"]⟩

/-- An element of what `swarm.peers()` resolves to, a plain object. -/
structure Peer where
  addr : String
  peer : String

/-- The string of a plain object. -/
def Peer.string (_ : Peer) : List Char := "[object Object]".toList

/-- A message of a topic. -/
structure Message where
  topicIDs : List String
  data : Bytes

/-- What a call of `loadDB` awaits. -/
inductive LoadAt where
  | docs (db : Nat)
  | load (db : Nat)
  | peers (db : Nat)
  | publish (db : Nat)
  | replicated (db : Nat)
  | returned
  | rejected
  deriving DecidableEq

/-- What a call of `handleDBNameReceived` awaits, with the elements it has still to visit. -/
inductive HandleAt where
  | docs (db : Nat) (rest : List Json)
  | load (db : Nat) (rest : List Json)
  | publish
  | returned
  | rejected

inductive Process where
  | loadDB (dbName : String) (at_ : LoadAt)
  | handleDBNameReceived (at_ : HandleAt)

structure Box where
  /-- Whether `options` has been initialised, the request methods with it. -/
  ready : Bool := false
  dbCollections : Properties Nat := []
  /-- The calls of `orbitDBNode.docs`; a store is the number of its call. -/
  docs : List (Json × Options) := []
  /-- The stores whose `load()` has come back. -/
  loaded : List Nat := []
  processes : List Process := []
  published : List Announcement := []

inductive Act where
  /-- `registerGraph` has published its own request. -/
  | ready
  /-- A request calls `loadDB`. -/
  | request (dbName : String)
  | message (message : Message)
  /-- What process `i` awaits is fulfilled. -/
  | resolve (i : Nat)
  /-- `swarm.peers()` resolves for process `i`. -/
  | peers (i : Nat) (found : List Peer)
  /-- What process `i` awaits is rejected. -/
  | reject (i : Nat)

section
/- `JSON.parse` of the decoded bytes, the string of a value that is none, which an
object may fail to have, and which numeric literals are positive. -/
variable (parse : Bytes → Option Json) (toString_ : Json → Option String) (positive : List Char → Bool)

/-- `dbCollections[dbName]` is truthy. -/
def Box.has (b : Box) (dbName : String) : Bool :=
  inherited.contains dbName || (b.dbCollections.lookup dbName).isSome

def propertyKey : Json → Option String
  | .str s => some s
  | value => toString_ value

/-- `value[key]` for a key that nothing inherits; reading from `null` is an error. -/
def property (key : String) : Json → Option Json
  | .obj fields => fields.lookup key
  | _ => none

/-- What `for (const x of value)` visits. -/
def iterated : Json → Option (List Json)
  | .arr elements => some elements
  | .str s => some (s.toList.map fun c => .str c.toString)
  | _ => none

/-- `{list: [...Object.keys(dbCollections)], ...}` -/
def Box.announcement (b : Box) (roi : Option String) : Announcement :=
  { roi, list := some b.dbCollections.objectKeys }

/-- The loop over the announced names, from the head of a round. -/
def openShared (b : Box) : List Json → Box × HandleAt
  | [] => (b, .returned)
  | dbName :: rest => match propertyKey toString_ dbName with
    | none => (b, .rejected)
    | some key =>
      if b.has key then openShared b rest
      else if b.ready then ({ b with docs := b.docs ++ [(dbName, options)] }, .docs b.docs.length rest)
      -- `options` is read before its initialisation
      else (b, .rejected)

def handleDBNameReceived (b : Box) (msg : Message) : Box × HandleAt :=
  if !msg.topicIDs.contains "open-dbs" then (b, .returned) else
  match parse msg.data with
  | none | some .null => (b, .rejected)
  | some data => match property "ROI" data with
    | some (.str "req") => ({ b with published := b.published ++ [b.announcement (some "res")] }, .publish)
    | _ => match (property "list" data).bind iterated with
      | none => (b, .rejected)
      | some elements => openShared toString_ b elements

def loadDB (b : Box) (dbName : String) : Box :=
  if b.has dbName then { b with processes := b.processes ++ [.loadDB dbName .returned] }
  else { b with
    docs := b.docs ++ [(.str dbName, options)]
    processes := b.processes ++ [.loadDB dbName (.docs b.docs.length)] }

/-- `await ipfsNode.swarm.peers() > 0` -/
def connected (found : List Peer) : Bool :=
  Coercion.exceedsZero positive (Coercion.joined (found.map (·.string)))

def Box.set (b : Box) (i : Nat) (p : Process) : Box := { b with processes := b.processes.set i p }

def step (b : Box) : Act → Option Box
  | .ready => if b.ready then none else some { b with ready := true }
  | .request dbName => if b.ready then some (loadDB b dbName) else none
  | .message msg =>
    let (b', at_) := handleDBNameReceived parse toString_ b msg
    some { b' with processes := b'.processes ++ [.handleDBNameReceived at_] }
  | .resolve i => match b.processes[i]? with
    | some (.loadDB n (.docs db)) => some (b.set i (.loadDB n (.load db)))
    | some (.loadDB n (.load db)) =>
      some ({ b with loaded := b.loaded ++ [db], dbCollections := b.dbCollections.assign n db }.set i
        (.loadDB n (.peers db)))
    | some (.loadDB n (.publish db)) => some (b.set i (.loadDB n (.replicated db)))
    | some (.loadDB n (.replicated _)) => some (b.set i (.loadDB n .returned))
    | some (.handleDBNameReceived (.docs db rest)) => some (b.set i (.handleDBNameReceived (.load db rest)))
    | some (.handleDBNameReceived (.load db rest)) =>
      let (b', at_) := openShared toString_ { b with loaded := b.loaded ++ [db] } rest
      some (b'.set i (.handleDBNameReceived at_))
    | some (.handleDBNameReceived .publish) => some (b.set i (.handleDBNameReceived .returned))
    | _ => none
  | .peers i found => match b.processes[i]? with
    | some (.loadDB n (.peers db)) =>
      if connected positive found then
        some ({ b with published := b.published ++ [b.announcement none] }.set i (.loadDB n (.publish db)))
      else some (b.set i (.loadDB n .returned))
    | _ => none
  | .reject i => match b.processes[i]? with
    | some (.loadDB n (.docs _)) => some (b.set i (.loadDB n .rejected))
    | some (.loadDB n (.load _)) => some (b.set i (.loadDB n .rejected))
    | some (.loadDB n (.peers _)) => some (b.set i (.loadDB n .rejected))
    | some (.loadDB n (.publish _)) => some (b.set i (.loadDB n .rejected))
    | some (.handleDBNameReceived (.docs _ _)) => some (b.set i (.handleDBNameReceived .rejected))
    | some (.handleDBNameReceived (.load _ _)) => some (b.set i (.handleDBNameReceived .rejected))
    | some (.handleDBNameReceived .publish) => some (b.set i (.handleDBNameReceived .rejected))
    | _ => none

end

/-! ## What a step does -/

section
variable {parse : Bytes → Option Json} {toString_ : Json → Option String}
  {positive : List Char → Bool} {b b' : Box} {a : Act}

/-- `dbCollections[e]` is truthy. -/
def Known (toString_ : Json → Option String) (b : Box) (e : Json) : Prop :=
  ∃ key, propertyKey toString_ e = some key ∧ b.has key = true

/-- The loop stops at the first element that is not known, if there is one. -/
theorem openShared_cases (toString_ : Json → Option String) (b : Box) (elements : List Json) :
    (openShared toString_ b elements = (b, .returned) ∧ ∀ e ∈ elements, Known toString_ b e) ∨
    (∃ skipped e rest key, elements = skipped ++ e :: rest ∧ (∀ e ∈ skipped, Known toString_ b e) ∧
      propertyKey toString_ e = some key ∧ b.has key = false ∧ b.ready = true ∧
      openShared toString_ b elements =
        ({ b with docs := b.docs ++ [(e, options)] }, .docs b.docs.length rest)) ∨
    openShared toString_ b elements = (b, .rejected) ∧
      ∃ e ∈ elements, ¬Known toString_ b e ∧ (b.ready = true → propertyKey toString_ e = none) := by
  induction elements with
  | nil => exact .inl ⟨rfl, by simp⟩
  | cons e elements ih =>
    cases named : propertyKey toString_ e with
    | none =>
      refine .inr (.inr ⟨by rw [openShared, named], e, List.mem_cons_self, ?_, fun _ => named⟩)
      rintro ⟨key, same, -⟩
      rw [named] at same
      cases same
    | some key =>
      have head : openShared toString_ b (e :: elements) = if b.has key then openShared toString_ b elements
          else if b.ready then ({ b with docs := b.docs ++ [(e, options)] }, .docs b.docs.length elements)
          else (b, .rejected) := by
        rw [openShared, named]
      rw [head]
      cases has : b.has key with
      | true =>
        simp only [if_true]
        have known : Known toString_ b e := ⟨key, named, has⟩
        rcases ih with ⟨done, all⟩ | ⟨skipped, e', rest, key', rfl, all, stops⟩ | ⟨stops, e', member, unknown⟩
        · exact .inl ⟨done, List.forall_mem_cons.2 ⟨known, all⟩⟩
        · exact .inr (.inl ⟨e :: skipped, e', rest, key', rfl, List.forall_mem_cons.2 ⟨known, all⟩, stops⟩)
        · exact .inr (.inr ⟨stops, e', List.mem_cons_of_mem e member, unknown⟩)
      | false =>
        simp only [Bool.false_eq_true, if_false]
        cases ready : b.ready with
        | true => exact .inr (.inl ⟨[], e, elements, key, rfl, by simp, named, has, rfl, by simp⟩)
        | false =>
          refine .inr (.inr ⟨by simp, e, List.mem_cons_self, ?_, fun never => absurd never (by simp)⟩)
          rintro ⟨key', same, there⟩
          rw [named, Option.some.injEq] at same
          subst same
          rw [has] at there
          cases there

/-- What becomes of a pending process, nothing else changing. -/
inductive Follows : Process → Process → Prop where
  | docs (n : String) (db : Nat) : Follows (.loadDB n (.docs db)) (.loadDB n (.load db))
  | publish (n : String) (db : Nat) : Follows (.loadDB n (.publish db)) (.loadDB n (.replicated db))
  | ended (n : String) (at_ : LoadAt) (last : LoadAt) (how : last = .returned ∨ last = .rejected) :
      Follows (.loadDB n at_) (.loadDB n last)
  | shared (db : Nat) (rest : List Json) :
      Follows (.handleDBNameReceived (.docs db rest)) (.handleDBNameReceived (.load db rest))
  | answered : Follows (.handleDBNameReceived .publish) (.handleDBNameReceived .returned)

/-- The steps, by what the process that moves awaited. -/
inductive Moves (parse : Bytes → Option Json) (toString_ : Json → Option String) (positive : List Char → Bool)
    (b : Box) : Act → Box → Prop where
  | ready : Moves parse toString_ positive b .ready { b with ready := true }
  | request {n : String} (ready : b.ready = true) :
    Moves parse toString_ positive b (.request n) (loadDB b n)
  | message (msg : Message) : Moves parse toString_ positive b (.message msg)
      { (handleDBNameReceived parse toString_ b msg).1 with
        processes := (handleDBNameReceived parse toString_ b msg).1.processes ++
          [.handleDBNameReceived (handleDBNameReceived parse toString_ b msg).2] }
  | goes {a : Act} {i : Nat} {p p' : Process} (at_ : b.processes[i]? = some p) (follows : Follows p p')
    (how : (a = .resolve i ∨ ∃ found, a = .peers i found) ∨ a = .reject i ∧ ∃ n at_, p = .loadDB n at_) :
    Moves parse toString_ positive b a (b.set i p')
  | recorded {i : Nat} {n : String} {db : Nat} (at_ : b.processes[i]? = some (.loadDB n (.load db))) :
    Moves parse toString_ positive b (.resolve i)
      (({ b with loaded := b.loaded ++ [db], dbCollections := b.dbCollections.assign n db } : Box).set i
        (.loadDB n (.peers db)))
  | told {i : Nat} {n : String} {db : Nat} {found : List Peer}
    (at_ : b.processes[i]? = some (.loadDB n (.peers db))) (some_ : connected positive found = true) :
    Moves parse toString_ positive b (.peers i found)
      (({ b with published := b.published ++ [b.announcement none] } : Box).set i (.loadDB n (.publish db)))
  | round {i db : Nat} {rest : List Json}
    (at_ : b.processes[i]? = some (.handleDBNameReceived (.load db rest))) :
    Moves parse toString_ positive b (.resolve i)
      ((openShared toString_ { b with loaded := b.loaded ++ [db] } rest).1.set i
        (.handleDBNameReceived (openShared toString_ { b with loaded := b.loaded ++ [db] } rest).2))
  | rejects {i : Nat} {at_ : HandleAt} (here : b.processes[i]? = some (.handleDBNameReceived at_))
    (pending : at_ ≠ .returned) :
    Moves parse toString_ positive b (.reject i) (b.set i (.handleDBNameReceived .rejected))

theorem step_moves (moved : step parse toString_ positive b a = some b') :
    Moves parse toString_ positive b a b' := by
  cases a with
  | ready =>
    simp only [step] at moved
    split at moved
    · cases moved
    · cases moved; exact .ready
  | request n =>
    simp only [step] at moved
    split at moved
    · next ready => cases moved; exact .request ready
    · cases moved
  | message msg => cases moved; exact .message msg
  | resolve i =>
    simp only [step] at moved
    split at moved
    · next at_ => cases moved; exact .goes at_ (.docs _ _) (.inl (.inl rfl))
    · next at_ => cases moved; exact .recorded at_
    · next at_ => cases moved; exact .goes at_ (.publish _ _) (.inl (.inl rfl))
    · next at_ => cases moved; exact .goes at_ (.ended _ _ _ (.inl rfl)) (.inl (.inl rfl))
    · next at_ => cases moved; exact .goes at_ (.shared _ _) (.inl (.inl rfl))
    · next at_ => cases moved; exact .round at_
    · next at_ => cases moved; exact .goes at_ .answered (.inl (.inl rfl))
    · cases moved
  | peers i found =>
    simp only [step] at moved
    split at moved
    · next at_ =>
      split at moved
      · next some_ => cases moved; exact .told at_ some_
      · cases moved; exact .goes at_ (.ended _ _ _ (.inl rfl)) (.inl (.inr ⟨found, rfl⟩))
    · cases moved
  | reject i =>
    simp only [step] at moved
    split at moved
    all_goals first
      | cases moved; done
      | next at_ => cases moved; exact .goes at_ (.ended _ _ _ (.inr rfl)) (.inr ⟨rfl, _, _, rfl⟩)
      | next at_ => cases moved; exact .rejects at_ fun same => (by cases same)

/-- What is opened: with the shared options, and no inherited name. -/
def Opens (toString_ : Json → Option String) (docs : List (Json × Options)) : Prop :=
  ∀ entry ∈ docs, entry.2 = options ∧ ∃ key, propertyKey toString_ entry.1 = some key ∧ key ∉ inherited

theorem not_inherited {dbName : String} (missing : b.has dbName = false) : dbName ∉ inherited := by
  intro there
  simp [Box.has, there] at missing

/-- The loop opens stores and nothing else. -/
theorem openShared_frame (toString_ : Json → Option String) (b : Box) (elements : List Json) :
    ∃ more, (openShared toString_ b elements).1 = { b with docs := b.docs ++ more } ∧
      Opens toString_ more := by
  have nothing : Opens toString_ [] := fun entry member => absurd member List.not_mem_nil
  rcases openShared_cases toString_ b elements with ⟨same, -⟩ |
    ⟨skipped, e, rest, key, -, -, named, missing, -, same⟩ | ⟨same, -⟩
  · exact ⟨[], by rw [same]; simp, nothing⟩
  · refine ⟨[(e, options)], by rw [same], fun entry member => ?_⟩
    rw [List.mem_singleton] at member
    subst member
    exact ⟨rfl, key, named, not_inherited missing⟩
  · exact ⟨[], by rw [same]; simp, nothing⟩

theorem handleDBNameReceived_frame (parse : Bytes → Option Json) (toString_ : Json → Option String)
    (b : Box) (msg : Message) :
    ∃ more messages, (handleDBNameReceived parse toString_ b msg).1 =
      { b with docs := b.docs ++ more, published := b.published ++ messages } ∧ Opens toString_ more := by
  have nothing : Opens toString_ [] := fun entry member => absurd member List.not_mem_nil
  unfold handleDBNameReceived
  split
  · exact ⟨[], [], by simp, nothing⟩
  · split
    · exact ⟨[], [], by simp, nothing⟩
    · exact ⟨[], [], by simp, nothing⟩
    · split
      · exact ⟨[], [b.announcement (some "res")], by simp, nothing⟩
      · split
        · exact ⟨[], [], by simp, nothing⟩
        · next elements _ =>
          obtain ⟨more, same, opens⟩ := openShared_frame toString_ b elements
          exact ⟨more, [], by rw [same]; simp, opens⟩

theorem loadDB_processes (b : Box) (n : String) :
    ∃ at_, (loadDB b n).processes = b.processes ++ [.loadDB n at_] := by
  unfold loadDB
  split
  · exact ⟨_, rfl⟩
  · exact ⟨_, rfl⟩

/-- The other processes stay where they are. -/
theorem process_other {i : Nat} {p : Process} (at_ : b.processes[i]? = some p)
    (moved : step parse toString_ positive b a = some b')
    (other : a ≠ .resolve i ∧ (∀ found, a ≠ .peers i found) ∧ a ≠ .reject i) :
    b'.processes[i]? = some p := by
  have less := (List.getElem?_eq_some_iff.1 at_).1
  have set : ∀ {m : Box} {j : Nat} {p' : Process}, m.processes = b.processes → j ≠ i →
    (m.set j p').processes[i]? = some p := by
    intro m j p' same apart
    simp only [Box.set]
    rw [List.getElem?_set_ne apart, same, at_]
  cases step_moves moved with
  | ready => exact at_
  | @request n ready =>
    obtain ⟨last, more⟩ := loadDB_processes b n
    rw [more, List.getElem?_append_left less, at_]
  | message msg =>
    obtain ⟨more, messages, same, -⟩ := handleDBNameReceived_frame parse toString_ b msg
    dsimp only
    rw [same, List.getElem?_append_left less, at_]
  | goes there follows how =>
    refine set rfl ?_
    rintro rfl
    rcases how with (rfl | ⟨found, rfl⟩) | ⟨rfl, -⟩
    · exact other.1 rfl
    · exact other.2.1 found rfl
    · exact other.2.2 rfl
  | recorded there => exact set rfl (by rintro rfl; exact other.1 rfl)
  | told there some_ => exact set rfl (by rintro rfl; exact other.2.1 _ rfl)
  | @round j db rest there =>
    obtain ⟨more, same, -⟩ := openShared_frame toString_ { b with loaded := b.loaded ++ [db] } rest
    exact set (by rw [same]) (by rintro rfl; exact other.1 rfl)
  | rejects there pending => exact set rfl (by rintro rfl; exact other.2.2 rfl)

/-! ## Announcing a new collection -/

/-- The process that moves. -/
def Act.process : Act → Option Nat
  | .resolve i | .peers i _ | .reject i => some i
  | _ => none

/-- No list of peers is above 0: the empty one is 0, any other is no number. -/
theorem connected_eq_false (positive : List Char → Bool) (found : List Peer) :
    connected positive found = false := by
  cases found with
  | nil => rfl
  | cons first rest =>
    obtain ⟨more, same⟩ := Coercion.prefix_joined first.string (rest.map (·.string))
    unfold connected
    rw [List.map_cons, ← same]
    exact Coercion.exceedsZero_of_head (c := '[') positive rfl rfl

theorem set_processes {m : Box} {i : Nat} {p : Process} (here : b.processes[i]? = some p)
    (same : m.processes = b.processes) (q : Process) : (m.set i q).processes[i]? = some q := by
  simp only [Box.set, same]
  exact List.getElem?_set_self (List.getElem?_eq_some_iff.1 here).1

/-- What a process does in a step of its own. -/
theorem own_cases {i : Nat} {p : Process} (here : b.processes[i]? = some p) (own : a.process = some i)
    (moved : step parse toString_ positive b a = some b') :
    (∃ p', Follows p p' ∧ b' = b.set i p' ∧
      ((a = .resolve i ∨ ∃ found, a = .peers i found) ∨ a = .reject i ∧ ∃ n at_, p = .loadDB n at_)) ∨
    (∃ n db, p = .loadDB n (.load db) ∧ a = .resolve i ∧
      b' = ({ b with loaded := b.loaded ++ [db], dbCollections := b.dbCollections.assign n db } : Box).set i
        (.loadDB n (.peers db))) ∨
    (∃ db rest, p = .handleDBNameReceived (.load db rest) ∧ a = .resolve i ∧
      b' = (openShared toString_ { b with loaded := b.loaded ++ [db] } rest).1.set i
        (.handleDBNameReceived (openShared toString_ { b with loaded := b.loaded ++ [db] } rest).2)) ∨
    (∃ at_, p = .handleDBNameReceived at_ ∧ a = .reject i ∧ at_ ≠ .returned ∧
      b' = b.set i (.handleDBNameReceived .rejected)) := by
  cases step_moves moved with
  | ready => cases own
  | request ready => cases own
  | message msg => cases own
  | @goes _ j q q' there follows how =>
    obtain rfl : j = i := by
      rcases how with (rfl | ⟨found, rfl⟩) | ⟨rfl, -⟩ <;> exact Option.some.inj own
    obtain rfl : p = q := Option.some.inj (here.symm.trans there)
    exact .inl ⟨q', follows, rfl, how⟩
  | recorded there =>
    cases own
    exact .inr (.inl ⟨_, _, Option.some.inj (here.symm.trans there), rfl, rfl⟩)
  | told there some_ =>
    rw [connected_eq_false] at some_
    cases some_
  | round there =>
    cases own
    exact .inr (.inr (.inl ⟨_, _, Option.some.inj (here.symm.trans there), rfl, rfl⟩))
  | rejects there pending =>
    cases own
    exact .inr (.inr (.inr ⟨_, Option.some.inj (here.symm.trans there), rfl, pending, rfl⟩))

/-- A call of `loadDB` stays one, and its steps publish nothing. -/
theorem loadDB_step {i : Nat} {n : String} {at_ : LoadAt} (here : b.processes[i]? = some (.loadDB n at_))
    (moved : step parse toString_ positive b a = some b') :
    (∃ at_', b'.processes[i]? = some (.loadDB n at_')) ∧
    (a.process = some i → b'.published = b.published) := by
  by_cases own : a.process = some i
  · rcases own_cases here own moved with ⟨q, follows, rfl, -⟩ | ⟨n', db, same, -, rfl⟩ | ⟨db, rest, same, -⟩ |
      ⟨at_', same, -⟩
    · refine ⟨?_, fun _ => rfl⟩
      rw [set_processes here rfl q]
      cases follows <;> exact ⟨_, rfl⟩
    · cases same
      exact ⟨⟨_, set_processes here (m := { b with loaded := _, dbCollections := _ }) rfl _⟩, fun _ => rfl⟩
    · cases same
    · cases same
  · refine ⟨⟨at_, process_other here moved ⟨?_, fun found => ?_, ?_⟩⟩, fun mine => absurd mine own⟩ <;>
      (rintro rfl; exact own rfl)

end

section
variable (parse : Bytes → Option Json) (toString_ : Json → Option String) (positive : List Char → Bool)

/-- During the run process `i` publishes a message. -/
def Publishes (i : Nat) (b : Box) (acts : List Act) (content : Box → Announcement → Prop) : Prop :=
  ∃ before a after m m' message, acts = before ++ a :: after ∧
    run (step parse toString_ positive) b before = some m ∧
    step parse toString_ positive m a = some m' ∧ a.process = some i ∧
    m'.published = m.published ++ [message] ∧ content m message

/-- The message lists all open collections, this one among them. -/
def Lists (name : String) (b : Box) (message : Announcement) : Prop :=
  message.list = some b.dbCollections.objectKeys ∧ name ∈ b.dbCollections.objectKeys

variable {b b' : Box} {name : String} {acts : List Act}

/-- A call of `loadDB` never publishes. -/
theorem loadDB_silent (reached : run (step parse toString_ positive) b (.request name :: acts) = some b')
    (content : Box → Announcement → Prop) :
    ¬Publishes parse toString_ positive b.processes.length b (.request name :: acts) content := by
  obtain ⟨first, moved, -⟩ := run_cons.1 reached
  have begun : ∃ at_, first.processes[b.processes.length]? = some (.loadDB name at_) := by
    simp only [step] at moved
    split at moved
    · cases moved
      obtain ⟨at_, more⟩ := loadDB_processes b name
      exact ⟨at_, by simp [more]⟩
    · cases moved
  rintro ⟨before, a, after, m, m', message, split, there, moved', own, published, -⟩
  cases before with
  | nil =>
    obtain ⟨rfl, -⟩ := List.cons.inj split
    cases own
  | cons a' before =>
    obtain ⟨rfl, -⟩ := List.cons.inj split
    obtain ⟨first', moved'', rest⟩ := run_cons.1 there
    rw [moved, Option.some.injEq] at moved''
    subst moved''
    obtain ⟨at_, here⟩ := run_invariant
      (I := fun b' => ∃ at_, b'.processes[b.processes.length]? = some (.loadDB name at_)) begun
      (fun _ _ _ ⟨_, here⟩ moved => (loadDB_step here moved).1) rest
    have same := (loadDB_step here moved').2 own
    rw [published] at same
    simp at same

/-- Whether or not anybody is found, the collection is announced just where somebody is. -/
def Announced (b : Box) (name : String) (acts : List Act) : Prop :=
  ∀ found, .peers b.processes.length found ∈ acts →
    (found ≠ [] → Publishes parse toString_ positive b.processes.length b
      (.request name :: acts) (Lists name)) ∧
    (found = [] → ¬Publishes parse toString_ positive b.processes.length b
      (.request name :: acts) fun _ _ => True)

/-- **New collections are announced** exactly where there is nobody to tell: a
`loadDB` whose `swarm.peers()` finds any peer publishes nothing. -/
theorem announced_iff (reached : run (step parse toString_ positive) b (.request name :: acts) = some b') :
    Announced parse toString_ positive b name acts ↔
      ∀ found, .peers b.processes.length found ∈ acts → found = [] := by
  constructor
  · intro all found member
    by_contra some_
    exact loadDB_silent parse toString_ positive reached _ ((all found member).1 some_)
  · intro none_ found member
    exact ⟨fun some_ => absurd (none_ found member) some_,
      fun _ => loadDB_silent parse toString_ positive reached _⟩

end

/-- A box without peers opens a collection. -/
theorem announced_iff_sample :
    ∃ b', run (step (fun _ => none) (fun _ => "") fun _ => true) { ready := true }
        [.request "profile", .resolve 0, .resolve 0, .peers 0 []] = some b' ∧
      (Announced (fun _ => none) (fun _ => "") (fun _ => true) { ready := true } "profile"
        [.resolve 0, .resolve 0, .peers 0 []] ↔
        ∀ found, Act.peers 0 found ∈ [.resolve 0, .resolve 0, .peers 0 []] → found = []) :=
  ⟨_, rfl, announced_iff (fun _ => none) (fun _ => "") (fun _ => true) rfl⟩

/-- A box with one peer opens a collection and tells nobody. -/
theorem new_collection_unannounced :
    ∃ b', run (step (fun _ => none) (fun _ => "") fun _ => true) { ready := true }
        [.request "profile", .resolve 0, .resolve 0,
          .peers 0 [⟨"/ip4/10.0.0.2/tcp/4001", "QmPeer"⟩]] = some b' ∧
      b'.processes = [.loadDB "profile" .returned] ∧ b'.published = [] ∧
      ¬Announced (fun _ => none) (fun _ => "") (fun _ => true) { ready := true } "profile"
        [.resolve 0, .resolve 0, .peers 0 [⟨"/ip4/10.0.0.2/tcp/4001", "QmPeer"⟩]] :=
  ⟨_, rfl, rfl, rfl, fun all => loadDB_silent (fun _ => none) (fun _ => "") (fun _ => true) rfl _
    ((all [⟨"/ip4/10.0.0.2/tcp/4001", "QmPeer"⟩] (by simp)).1 (by simp))⟩

/-! ## Hearing an announcement -/

/-- A store of this name was opened with the shared options and loaded. -/
def Box.LoadedName (b : Box) (name : String) : Prop :=
  ∃ db, b.docs[db]? = some (.str name, options) ∧ db ∈ b.loaded

/-- Every recorded store was opened under its name and loaded. -/
structure Sound (toString_ : Json → Option String) (b : Box) : Prop where
  opened : Opens toString_ b.docs
  table : ∀ name db, b.dbCollections.lookup name = some db →
    b.docs[db]? = some (.str name, options) ∧ db ∈ b.loaded
  loading : ∀ n db, .loadDB n (.docs db) ∈ b.processes ∨ .loadDB n (.load db) ∈ b.processes →
    b.docs[db]? = some (.str n, options)

/-- Stores are only added. -/
structure Grows (toString_ : Json → Option String) (b b' : Box) : Prop where
  docs : ∃ more, b'.docs = b.docs ++ more ∧ Opens toString_ more
  loaded : ∀ db ∈ b.loaded, db ∈ b'.loaded
  ready : b.ready = true → b'.ready = true

section
variable {parse : Bytes → Option Json} {toString_ : Json → Option String}
  {positive : List Char → Bool} {b b' : Box} {a : Act}

theorem Grows.of_docs {more : List (Json × Options)} (docs : b'.docs = b.docs ++ more)
    (opens : Opens toString_ more) (loaded : ∀ db ∈ b.loaded, db ∈ b'.loaded)
    (ready : b.ready = true → b'.ready = true) : Grows toString_ b b' :=
  ⟨⟨more, docs, opens⟩, loaded, ready⟩

theorem Grows.same (docs : b'.docs = b.docs) (loaded : ∀ db ∈ b.loaded, db ∈ b'.loaded)
    (ready : b.ready = true → b'.ready = true) : Grows toString_ b b' :=
  ⟨⟨[], by simp [docs], fun entry member => absurd member List.not_mem_nil⟩, loaded, ready⟩

theorem Grows.at {db : Nat} {entry : Json × Options} (grows : Grows toString_ b b')
    (there : b.docs[db]? = some entry) :
    b'.docs[db]? = some entry := by
  obtain ⟨more, same, -⟩ := grows.docs
  rw [same, List.getElem?_append_left (List.getElem?_eq_some_iff.1 there).1, there]

theorem Grows.loadedName {name : String} (grows : Grows toString_ b b') :
    b.LoadedName name → b'.LoadedName name :=
  fun ⟨db, there, loaded⟩ => ⟨db, grows.at there, grows.loaded db loaded⟩

theorem Grows.opened (grows : Grows toString_ b b') (opened : Opens toString_ b.docs) :
    Opens toString_ b'.docs := by
  obtain ⟨more, same, opens⟩ := grows.docs
  rw [same]
  intro entry member
  rcases List.mem_append.1 member with old | new
  · exact opened entry old
  · exact opens entry new

theorem grows (moved : step parse toString_ positive b a = some b') : Grows toString_ b b' := by
  cases step_moves moved with
  | ready => exact .same rfl (fun _ there => there) fun _ => rfl
  | @request n ready =>
    unfold loadDB
    split
    · exact .same rfl (fun _ there => there) id
    · next missing =>
      refine .of_docs rfl (fun entry member => ?_) (fun _ there => there) id
      rw [List.mem_singleton] at member
      subst member
      exact ⟨rfl, n, rfl, not_inherited (by simpa using missing)⟩
  | message msg =>
    obtain ⟨more, messages, same, opens⟩ := handleDBNameReceived_frame parse toString_ b msg
    rw [same]
    exact .of_docs rfl opens (fun _ there => there) id
  | goes there follows how => exact .same rfl (fun _ there => there) id
  | recorded there => exact .same rfl (fun _ there => List.mem_append_left _ there) id
  | told there some_ => exact .same rfl (fun _ there => there) id
  | @round j db rest there =>
    obtain ⟨more, same, opens⟩ := openShared_frame toString_ { b with loaded := b.loaded ++ [db] } rest
    rw [same]
    exact .of_docs rfl opens (fun _ there => List.mem_append_left _ there) id
  | rejects there pending => exact .same rfl (fun _ there => there) id

/-- A step that changes neither the table nor what `loadDB` has in progress. -/
theorem Sound.frame (h : Sound toString_ b) (grows : Grows toString_ b b')
    (table : b'.dbCollections = b.dbCollections)
    (loading : ∀ n db, .loadDB n (.docs db) ∈ b'.processes ∨ .loadDB n (.load db) ∈ b'.processes →
      b'.docs[db]? = some (.str n, options) ∨ .loadDB n (.docs db) ∈ b.processes ∨
        .loadDB n (.load db) ∈ b.processes) :
    Sound toString_ b' where
  opened := grows.opened h.opened
  table := by
    intro name db found
    rw [table] at found
    obtain ⟨there, loaded⟩ := h.table name db found
    exact ⟨grows.at there, grows.loaded db loaded⟩
  loading n db there := (loading n db there).elim id fun old => grows.at (h.loading n db old)

/-- The processes of a box where one has become `p'`. -/
theorem loading_set {i : Nat} {p' : Process} {processes : List Process} {n : String} {db : Nat}
    (there : .loadDB n (.docs db) ∈ processes.set i p' ∨ .loadDB n (.load db) ∈ processes.set i p') :
    (.loadDB n (.docs db) ∈ processes ∨ .loadDB n (.load db) ∈ processes) ∨
      p' = .loadDB n (.docs db) ∨ p' = .loadDB n (.load db) := by
  rcases there with there | there
  · rcases List.mem_or_eq_of_mem_set there with old | new
    · exact .inl (.inl old)
    · exact .inr (.inl new.symm)
  · rcases List.mem_or_eq_of_mem_set there with old | new
    · exact .inl (.inr old)
    · exact .inr (.inr new.symm)

/-- A step that takes a process on to anything but loading a database. -/
theorem Sound.set (h : Sound toString_ b) (grows : Grows toString_ b b') (table : b'.dbCollections = b.dbCollections)
    {i : Nat} {p' : Process} (processes : b'.processes = b.processes.set i p')
    (other : ∀ n db, p' ≠ .loadDB n (.docs db) ∧ p' ≠ .loadDB n (.load db)) : Sound toString_ b' := by
  refine h.frame grows table fun n db there => ?_
  rw [processes] at there
  rcases loading_set there with old | docs | load
  · exact .inr old
  · exact absurd docs (other n db).1
  · exact absurd load (other n db).2

theorem Sound.step (h : Sound toString_ b) (moved : step parse toString_ positive b a = some b') :
    Sound toString_ b' := by
  have more := grows moved
  cases step_moves moved with
  | ready => exact h.frame more rfl fun _ _ there => .inr there
  | @request n ready =>
    refine h.frame more (by unfold loadDB; split <;> rfl) fun n' db there => ?_
    unfold loadDB at there ⊢
    split at there
    · simp only [List.mem_append, List.mem_singleton] at there
      exact .inr (by simpa using there)
    · next missing =>
      simp only [List.mem_append, List.mem_singleton, Process.loadDB.injEq, LoadAt.docs.injEq,
        reduceCtorEq, and_false, or_false] at there
      rw [if_neg missing]
      rcases there with (old | ⟨rfl, rfl⟩) | old
      · exact .inr (.inl old)
      · exact .inl (by simp)
      · exact .inr (.inr old)
  | message msg =>
    obtain ⟨docs, messages, same, -⟩ := handleDBNameReceived_frame parse toString_ b msg
    refine h.frame more (by rw [same]) fun n db there => .inr ?_
    rw [same] at there
    simpa using there
  | goes at_ follows =>
    cases follows with
    | docs n' db' =>
      refine h.frame more rfl fun n db there => ?_
      rcases loading_set there with old | new | new
      · exact .inr old
      · cases new
      · cases new
        exact .inr (.inl (List.mem_of_getElem? at_))
    | publish n' db' => exact h.set more rfl rfl (by simp)
    | ended n' at_' last how =>
      refine h.set more rfl rfl fun n db => ?_
      rcases how with rfl | rfl <;> simp
    | shared db' rest => exact h.set more rfl rfl (by simp)
    | answered => exact h.set more rfl rfl (by simp)
  | @recorded j n db at_ =>
    have loaded := more.at (h.loading n db (.inr (List.mem_of_getElem? at_)))
    refine ⟨more.opened h.opened, fun name db' found => ?_, fun n' db' there => ?_⟩
    · simp only [Box.set] at found
      rw [Properties.lookup_assign] at found
      split at found
      · next same =>
        cases found
        subst same
        exact ⟨loaded, List.mem_append_right _ (List.mem_singleton.2 rfl)⟩
      · obtain ⟨there, before⟩ := h.table name db' found
        exact ⟨more.at there, more.loaded db' before⟩
    · rcases loading_set there with old | new
      · exact more.at (h.loading n' db' old)
      · rcases new with new | new <;> cases new
  | told at_ some_ => exact h.set more rfl rfl (by simp)
  | @round j db rest at_ =>
    obtain ⟨docs, same, -⟩ := openShared_frame toString_ { b with loaded := b.loaded ++ [db] } rest
    have table : (openShared toString_ { b with loaded := b.loaded ++ [db] } rest).1.dbCollections = b.dbCollections := by
      rw [same]
    have processes : (openShared toString_ { b with loaded := b.loaded ++ [db] } rest).1.processes = b.processes := by
      rw [same]
    exact h.set more table (congrArg (List.set · j _) processes) (by simp)
  | rejects here pending => exact h.set more rfl rfl (by simp)

theorem Sound.has (h : Sound toString_ b) {name : String} (known : b.has name = true) :
    name ∈ inherited ∨ b.LoadedName name := by
  simp only [Box.has, Bool.or_eq_true, List.contains_iff_mem, Option.isSome_iff_exists] at known
  refine known.imp_right ?_
  rintro ⟨db, found⟩
  exact ⟨db, h.table name db found⟩

/-! ### One announcement -/

/-- The loop is done with these elements. -/
structure Done (toString_ : Json → Option String) (b : Box) (elements : List Json) : Prop where
  named : ∀ e ∈ elements, propertyKey toString_ e ≠ none
  opened : ∀ name, .str name ∈ elements → name ∈ inherited ∨ b.LoadedName name

/-- Where the loop over `elements` is. -/
inductive Visits (toString_ : Json → Option String) (elements : List Json) (b : Box) : HandleAt → Prop where
  | docs {db : Nat} {done rest : List Json} {e : Json} (split : elements = done ++ e :: rest)
      (opened : b.docs[db]? = some (e, options)) (done_ : Done toString_ b done) (ready : b.ready = true) :
      Visits toString_ elements b (.docs db rest)
  | load {db : Nat} {done rest : List Json} {e : Json} (split : elements = done ++ e :: rest)
      (opened : b.docs[db]? = some (e, options)) (done_ : Done toString_ b done) (ready : b.ready = true) :
      Visits toString_ elements b (.load db rest)
  | returned (all : Done toString_ b elements) : Visits toString_ elements b .returned
  | rejected : Visits toString_ elements b .rejected

theorem Done.grows {elements : List Json} (h : Done toString_ b elements) (grows : Grows toString_ b b') :
    Done toString_ b' elements :=
  ⟨h.named, fun name member => (h.opened name member).imp_right grows.loadedName⟩

theorem Done.append {before after : List Json} (h : Done toString_ b before) (h' : Done toString_ b after) :
    Done toString_ b (before ++ after) where
  named e member := (List.mem_append.1 member).elim (h.named e) (h'.named e)
  opened name member := (List.mem_append.1 member).elim (h.opened name) (h'.opened name)

theorem Visits.grows {elements : List Json} {at_ : HandleAt} (h : Visits toString_ elements b at_)
    (grows : Grows toString_ b b') : Visits toString_ elements b' at_ := by
  cases h with
  | docs split opened done ready => exact .docs split (grows.at opened) (done.grows grows) (grows.ready ready)
  | load split opened done ready => exact .load split (grows.at opened) (done.grows grows) (grows.ready ready)
  | returned all => exact .returned (all.grows grows)
  | rejected => exact .rejected

/-- The loop goes on from the head of a round. -/
theorem Visits.openShared {done rest : List Json}
    (table : ∀ {name}, b.has name = true → name ∈ inherited ∨ b.LoadedName name)
    (done_ : Done toString_ b done) :
    Visits toString_ (done ++ rest) (OpenDbs.openShared toString_ b rest).1
      (OpenDbs.openShared toString_ b rest).2 ∧
      ((OpenDbs.openShared toString_ b rest).2 = .rejected →
        ∃ e ∈ rest, ¬Known toString_ b e ∧ (b.ready = true → propertyKey toString_ e = none)) := by
  have visited : ∀ {elements : List Json}, (∀ e ∈ elements, Known toString_ b e) →
    Done toString_ b elements := by
    refine fun all => ⟨fun e member => ?_, fun name member => ?_⟩
    · obtain ⟨key, named, -⟩ := all e member
      rw [named]
      simp
    · obtain ⟨key, named, has⟩ := all _ member
      cases named
      exact table has
  rcases openShared_cases toString_ b rest with ⟨same, all⟩ |
    ⟨skipped, e, rest', key, rfl, all, named, missing, ready, same⟩ |
    ⟨same, unknown⟩
  · rw [same]
    exact ⟨.returned (done_.append (visited all)), fun ended => (by cases ended)⟩
  · rw [same]
    refine ⟨@Visits.docs _ _ _ _ (done ++ skipped) rest' e (by simp) (by simp) ?_ ready,
      fun ended => (by cases ended)⟩
    refine (done_.append (visited all)).grows ⟨⟨[(e, options)], rfl, fun entry member => ?_⟩,
      fun _ there => there, id⟩
    rw [List.mem_singleton] at member
    subst member
    exact ⟨rfl, key, named, not_inherited missing⟩
  · rw [same]
    exact ⟨.rejected, fun _ => unknown⟩

/-- What becomes of a call of `handleDBNameReceived` in a step. -/
theorem handle_step {i : Nat} {at_ : HandleAt} (here : b.processes[i]? = some (.handleDBNameReceived at_))
    (moved : step parse toString_ positive b a = some b') :
    ∃ next, b'.processes[i]? = some (.handleDBNameReceived next) ∧
      ((next = at_ ∧ a ≠ .reject i) ∨
        (∃ db rest, at_ = .docs db rest ∧ next = .load db rest ∧ a = .resolve i) ∨
        (at_ = .publish ∧ next = .returned ∧ a = .resolve i) ∨
        (∃ db rest, at_ = .load db rest ∧ a = .resolve i ∧
          b' = (OpenDbs.openShared toString_ { b with loaded := b.loaded ++ [db] } rest).1.set i
            (.handleDBNameReceived next) ∧
          next = (OpenDbs.openShared toString_ { b with loaded := b.loaded ++ [db] } rest).2) ∨
        (at_ ≠ .returned ∧ next = .rejected ∧ a = .reject i)) := by
  by_cases own : a.process = some i
  · rcases own_cases here own moved with ⟨q, follows, rfl, how⟩ | ⟨n, db, same, -⟩ | ⟨db, rest, same, rfl, rfl⟩ |
      ⟨at_', same, rfl, pending, rfl⟩
    · have resolves : a = .resolve i := by
        rcases how with (rfl | ⟨found, rfl⟩) | ⟨-, n, at_', same⟩
        · rfl
        · simp only [step, here] at moved
          cases moved
        · cases same
      cases follows with
      | shared db rest =>
        exact ⟨_, set_processes here rfl _, .inr (.inl ⟨db, rest, rfl, rfl, resolves⟩)⟩
      | answered => exact ⟨_, set_processes here rfl _, .inr (.inr (.inl ⟨rfl, rfl, resolves⟩))⟩
    · cases same
    · cases same
      obtain ⟨more, same, -⟩ := openShared_frame toString_ { b with loaded := b.loaded ++ [db] } rest
      exact ⟨_, set_processes here (by rw [same]) _, .inr (.inr (.inr (.inl ⟨db, rest, rfl, rfl, rfl, rfl⟩)))⟩
    · cases same
      exact ⟨_, set_processes here rfl _, .inr (.inr (.inr (.inr ⟨pending, rfl, rfl⟩)))⟩
  · have others : a ≠ .resolve i ∧ (∀ found, a ≠ .peers i found) ∧ a ≠ .reject i := by
      refine ⟨?_, fun found => ?_, ?_⟩ <;> (rintro rfl; exact own rfl)
    exact ⟨at_, process_other here moved others, .inl ⟨rfl, others.2.2⟩⟩

/-- The loop over the listed names, after the actions `acts`. -/
structure Listens (toString_ : Json → Option String) (i : Nat) (elements : List Json)
    (acts : List Act) (b : Box) : Prop where
  sound : Sound toString_ b
  at_ : ∃ at_, b.processes[i]? = some (.handleDBNameReceived at_) ∧ Visits toString_ elements b at_ ∧
    (.reject i ∈ acts → at_ = .rejected) ∧
    (at_ = .rejected → .reject i ∈ acts ∨ ∃ e ∈ elements, propertyKey toString_ e = none)

theorem Listens.step {i : Nat} {elements : List Json} {acts : List Act}
    (h : Listens toString_ i elements acts b)
    (moved : step parse toString_ positive b a = some b') :
    Listens toString_ i elements (acts ++ [a]) b' := by
  obtain ⟨at_, here, visits, stays, rejected⟩ := h.at_
  have more := grows moved
  refine ⟨h.sound.step moved, ?_⟩
  obtain ⟨next, there, how⟩ := handle_step here moved
  refine ⟨next, there, ?_⟩
  rcases how with ⟨rfl, other⟩ | ⟨db, rest, rfl, rfl, rfl⟩ | ⟨rfl, -, -⟩ |
    ⟨db, rest, rfl, rfl, same, last⟩ | ⟨-, rfl, rfl⟩
  · have earlier : .reject i ∈ acts ++ [a] ↔ .reject i ∈ acts := by simp [Ne.symm other]
    rw [earlier]
    exact ⟨visits.grows more, stays, rejected⟩
  · have none_ : .reject i ∉ acts := fun there => by cases stays there
    refine ⟨?_, fun there => absurd there (by simpa using none_), fun ended => (by cases ended)⟩
    cases visits with
    | docs split opened done ready => exact .load split (more.at opened) (done.grows more) (more.ready ready)
  · cases visits
  · have none_ : .reject i ∉ acts := fun there => by cases stays there
    cases visits with
    | load split opened done ready =>
      rename_i done' e
      have loaded : Grows toString_ b { b with loaded := b.loaded ++ [db] } :=
        .same rfl (fun _ there => List.mem_append_left _ there) id
      have visited : Done toString_ ({ b with loaded := b.loaded ++ [db] } : Box) (done' ++ [e]) := by
        refine (done.grows loaded).append ⟨fun e' member => ?_, fun name member => .inr ?_⟩
        · rw [List.mem_singleton] at member
          subst member
          obtain ⟨-, key, named, -⟩ := h.sound.opened _ (List.mem_of_getElem? opened)
          simp [named]
        · rw [List.mem_singleton] at member
          subst member
          exact ⟨db, opened, List.mem_append_right _ (List.mem_singleton.2 rfl)⟩
      obtain ⟨goes, ends⟩ := @Visits.openShared toString_ { b with loaded := b.loaded ++ [db] } _ rest
        (fun known => (h.sound.has known).imp_right loaded.loadedName) visited
      have elements_ : elements = (done' ++ [e]) ++ rest := by simpa using split
      refine ⟨?_, fun there => absurd there (by simpa using none_), fun ended => .inr ?_⟩
      · rw [elements_, last, same]
        exact goes.grows (show Grows toString_ _ _ from .same rfl (fun _ there => there) id)
      · obtain ⟨e', member, -, unnamed⟩ := ends (last.symm.trans ended)
        exact ⟨e', elements_ ▸ List.mem_append_right _ member, unnamed ready⟩
  · exact ⟨.rejected, fun _ => rfl, fun _ => .inl (by simp)⟩

theorem Listens.run {i : Nat} {elements : List Json} {acts : List Act} (h : Listens toString_ i elements [] b)
    (reached : run (OpenDbs.step parse toString_ positive) b acts = some b') :
    Listens toString_ i elements acts b' :=
  run_history (I := fun acts b => Listens toString_ i elements acts b) h
    (fun _ _ _ _ h moved => h.step moved) reached

/-- A call that waits for its answer to be published, or has. -/
structure Answers (i : Nat) (acts : List Act) (b : Box) : Prop where
  at_ : ∃ at_, b.processes[i]? = some (.handleDBNameReceived at_) ∧
    (at_ = .publish ∨ at_ = .returned ∨ at_ = .rejected) ∧
    (at_ = .rejected ↔ .reject i ∈ acts)

theorem Answers.run {i : Nat} {acts : List Act} (h : Answers i [] b)
    (reached : run (OpenDbs.step parse toString_ positive) b acts = some b') : Answers i acts b' := by
  refine run_history (I := fun acts b => Answers i acts b) h (fun before a m m' ih moved => ?_) reached
  obtain ⟨at_, here, kind, rejected⟩ := ih.at_
  obtain ⟨next, there, how⟩ := handle_step here moved
  refine ⟨next, there, ?_⟩
  rcases how with ⟨rfl, other⟩ | ⟨db, rest, rfl, -, -⟩ | ⟨rfl, rfl, rfl⟩ | ⟨db, rest, rfl, -⟩ | ⟨-, rfl, rfl⟩
  · exact ⟨kind, by simp [rejected, Ne.symm other]⟩
  · rcases kind with same | same | same <;> cases same
  · exact ⟨.inr (.inl rfl), by simpa using rejected⟩
  · rcases kind with same | same | same <;> cases same
  · exact ⟨.inr (.inr rfl), by simp⟩

/-- A call that has rejected stays so. -/
theorem rejected_run {i : Nat} {acts : List Act}
    (here : b.processes[i]? = some (.handleDBNameReceived .rejected))
    (reached : run (OpenDbs.step parse toString_ positive) b acts = some b') :
    b'.processes[i]? = some (.handleDBNameReceived .rejected) := by
  refine run_invariant (I := fun b => b.processes[i]? = some (.handleDBNameReceived .rejected)) here
    (fun m a m' here moved => ?_) reached
  obtain ⟨next, there, how⟩ := handle_step here moved
  rcases how with ⟨rfl, -⟩ | ⟨db, rest, same, -⟩ | ⟨same, -⟩ | ⟨db, rest, same, -⟩ | ⟨-, rfl, -⟩
  · exact there
  · cases same
  · cases same
  · cases same
  · exact there

end

section
variable (parse : Bytes → Option Json) (toString_ : Json → Option String) (positive : List Char → Bool)

/-- A list message: names, and not the request of a new node. -/
def WellFormed (data : Option Json) (names : List String) : Prop :=
  ∃ fields, data = some (.obj fields) ∧ fields.lookup "ROI" ≠ some (.str "req") ∧
    fields.lookup "list" = some (.arr (names.map .str))

/-- The message delivered to `b` was handled by the time of `b'`: without an
exception, and each listed collection that was not open is. -/
def Handled (b b' : Box) (msg : Message) : Prop :=
  b'.processes[b.processes.length]? = some (.handleDBNameReceived .returned) ∧
    ∀ names, WellFormed (parse msg.data) names → ∀ name ∈ names,
      (b.dbCollections.lookup name).isSome = true ∨ b'.LoadedName name

/-- It parses to a request or to something with an iterable list, each element
of which has a string; the box is past its own first publish or has all that is
listed; and no name of a well-formed list is one that every object inherits. -/
def Accepts (b : Box) (msg : Message) : Prop :=
  ∃ data, parse msg.data = some data ∧ data ≠ .null ∧ (property "ROI" data = some (.str "req") ∨
    (∃ elements, (property "list" data).bind iterated = some elements ∧
      ((b.ready = true ∧ ∀ e ∈ elements, propertyKey toString_ e ≠ none) ∨
        ∀ e ∈ elements, Known toString_ b e)) ∧
    ∀ names, WellFormed (parse msg.data) names → ∀ name ∈ names, name ∉ inherited)

variable {parse toString_ positive}

/-- How the handler starts on a message of the topic. -/
theorem handleDBNameReceived_cases (b : Box) {msg : Message} (onTopic : "open-dbs" ∈ msg.topicIDs) :
    (handleDBNameReceived parse toString_ b msg = (b, .rejected) ∧
      (parse msg.data = none ∨ parse msg.data = some .null ∨
        ∃ data, parse msg.data = some data ∧ property "ROI" data ≠ some (.str "req") ∧
          (property "list" data).bind iterated = none)) ∨
    ∃ data, parse msg.data = some data ∧ data ≠ .null ∧
      ((property "ROI" data = some (.str "req") ∧ handleDBNameReceived parse toString_ b msg =
        ({ b with published := b.published ++ [b.announcement (some "res")] }, .publish)) ∨
      ∃ elements, property "ROI" data ≠ some (.str "req") ∧
        (property "list" data).bind iterated = some elements ∧
        handleDBNameReceived parse toString_ b msg = openShared toString_ b elements) := by
  unfold handleDBNameReceived
  rw [if_neg (by simpa using onTopic)]
  split
  · next bad => exact .inl ⟨rfl, .inl bad⟩
  · next null => exact .inl ⟨rfl, .inr (.inl null)⟩
  · next data some_ parsed =>
    have present : data ≠ .null := some_
    split
    · next roi => exact .inr ⟨data, parsed, present, .inl ⟨roi, rfl⟩⟩
    · next other =>
      have roi : property "ROI" data ≠ some (.str "req") := other
      cases list : (property "list" data).bind iterated with
      | none => exact .inl ⟨rfl, .inr (.inr ⟨data, parsed, roi, list⟩)⟩
      | some elements => exact .inr ⟨data, parsed, present, .inr ⟨elements, roi, list, rfl⟩⟩

theorem Sound.init (toString_ : Json → Option String) : Sound toString_ {} where
  opened := fun entry member => absurd member List.not_mem_nil
  table := fun name db found => by cases found
  loading := fun n db there => by rcases there with there | there <;> cases there

theorem Sound.run {b b' : Box} {acts : List Act} (h : Sound toString_ b)
    (reached : run (OpenDbs.step parse toString_ positive) b acts = some b') : Sound toString_ b' :=
  run_invariant (I := Sound toString_) h (fun _ _ _ h moved => h.step moved) reached

/-- The names of a well-formed list are what the loop visits. -/
theorem WellFormed.iterated {data : Json} {names : List String} (wellFormed : WellFormed (some data) names) :
    property "ROI" data ≠ some (.str "req") ∧
      (property "list" data).bind iterated = some (names.map .str) := by
  obtain ⟨fields, same, roi, list⟩ := wellFormed
  cases same
  exact ⟨roi, by simp [property, list, OpenDbs.iterated]⟩

/-- Whether the loop over `elements` gets to its end, and what it has done then. -/
theorem loop_returned {b first b' : Box} {elements : List Json} {acts : List Act} (sound : Sound toString_ b)
    (sound' : Sound toString_ first) (grown : Grows toString_ (openShared toString_ b elements).1 first)
    (begun : first.processes[b.processes.length]? =
      some (.handleDBNameReceived (openShared toString_ b elements).2))
    (reached : run (step parse toString_ positive) first acts = some b')
    (settled : b'.processes[b.processes.length]? = some (.handleDBNameReceived .returned) ∨
      b'.processes[b.processes.length]? = some (.handleDBNameReceived .rejected)) :
    (b'.processes[b.processes.length]? = some (.handleDBNameReceived .returned) ↔
      ((b.ready = true ∧ ∀ e ∈ elements, propertyKey toString_ e ≠ none) ∨
        ∀ e ∈ elements, Known toString_ b e) ∧
        .reject b.processes.length ∉ acts) ∧
    (b'.processes[b.processes.length]? = some (.handleDBNameReceived .returned) →
      Done toString_ b' elements) := by
  obtain ⟨visits, ends⟩ := @Visits.openShared toString_ b [] elements sound.has ⟨by simp, by simp⟩
  rw [List.nil_append] at visits
  by_cases rejected : (openShared toString_ b elements).2 = .rejected
  · -- the first element that is not known stops it at once
    have stays := rejected_run (rejected ▸ begun) reached
    rw [stays]
    obtain ⟨e, member, unknown, unnamed⟩ := ends rejected
    refine ⟨⟨fun never => (by cases never), ?_⟩, fun never => (by cases never)⟩
    rintro ⟨⟨ready, named⟩ | all, -⟩
    · exact absurd (unnamed ready) (named e member)
    · exact absurd (all e member) unknown
  · have start : Listens toString_ b.processes.length elements [] first :=
      ⟨sound', _, begun, visits.grows grown, fun never => absurd never List.not_mem_nil,
        fun ended => absurd ended rejected⟩
    obtain ⟨-, at_, there, visits', stays, rejects⟩ := start.run reached
    have finished : at_ = .returned → Done toString_ b' elements := by
      rintro rfl
      cases visits' with
      | returned all => exact all
    refine ⟨⟨fun returned => ?_, fun ⟨fit, none_⟩ => ?_⟩, fun returned => ?_⟩
    · rw [there, Option.some.injEq, Process.handleDBNameReceived.injEq] at returned
      refine ⟨?_, fun member => (by cases returned.symm.trans (stays member))⟩
      rcases openShared_cases toString_ b elements with ⟨-, all⟩ |
        ⟨skipped, e, rest, key, -, -, -, -, ready, -⟩ | ⟨same, -⟩
      · exact .inr all
      · exact .inl ⟨ready, (finished returned).named⟩
      · exact absurd (congrArg Prod.snd same) rejected
    · refine settled.resolve_right fun ended => ?_
      rw [there, Option.some.injEq, Process.handleDBNameReceived.injEq] at ended
      rcases rejects ended with member | ⟨e, member, unnamed⟩
      · exact none_ member
      · rcases fit with ⟨-, named⟩ | all
        · exact named e member unnamed
        · obtain ⟨key, named, -⟩ := all e member
          rw [unnamed] at named
          cases named
    · rw [there, Option.some.injEq, Process.handleDBNameReceived.injEq] at returned
      exact finished returned

/-- A store of an inherited name is never opened. -/
theorem Sound.not_inherited {b : Box} {name : String} (h : Sound toString_ b)
    (there : (b.dbCollections.lookup name).isSome = true ∨ b.LoadedName name) : name ∉ inherited := by
  have opened : ∃ db : Nat, b.docs[db]? = some (Json.str name, options) := by
    rcases there with recorded | ⟨db, opened, -⟩
    · obtain ⟨db, found⟩ := Option.isSome_iff_exists.1 recorded
      exact ⟨db, (h.table name db found).1⟩
    · exact ⟨db, opened⟩
  obtain ⟨db, opened⟩ := opened
  obtain ⟨-, key, same, free⟩ := h.opened _ (List.mem_of_getElem? opened)
  cases same
  exact free

/-! ### The kinds of payload -/

/-- Nothing can be read off the payload. -/
theorem unreadable_not_handled {acts : List Act} {b first b' : Box} {msg : Message}
    (bad : parse msg.data = none ∨ parse msg.data = some .null ∨
      ∃ data, parse msg.data = some data ∧ property "ROI" data ≠ some (.str "req") ∧
        (property "list" data).bind iterated = none)
    (begun : first.processes[b.processes.length]? = some (.handleDBNameReceived .rejected))
    (rest : run (step parse toString_ positive) first acts = some b') :
    ¬Handled parse b b' msg ∧ ¬Accepts parse toString_ b msg := by
  constructor
  · intro handled
    have stays := handled.1
    rw [rejected_run begun rest] at stays
    cases stays
  · rintro ⟨data, parsed, present, fit⟩
    rcases bad with none_ | null | ⟨data', parsed', roi, list⟩
    · rw [parsed] at none_
      cases none_
    · rw [parsed, Option.some.injEq] at null
      exact absurd null present
    · rw [parsed, Option.some.injEq] at parsed'
      subst parsed'
      rcases fit with requests | ⟨⟨elements, list', -⟩, -⟩
      · exact absurd requests roi
      · rw [list] at list'
        cases list'

/-- A request is answered. -/
theorem request_handled_iff {acts : List Act} {b first b' : Box} {msg : Message} {data : Json}
    (parsed : parse msg.data = some data) (roi : property "ROI" data = some (.str "req"))
    (begun : first.processes[b.processes.length]? = some (.handleDBNameReceived .publish))
    (rest : run (step parse toString_ positive) first acts = some b')
    (settled : b'.processes[b.processes.length]? = some (.handleDBNameReceived .returned) ∨
      b'.processes[b.processes.length]? = some (.handleDBNameReceived .rejected)) :
    Handled parse b b' msg ↔ .reject b.processes.length ∉ acts := by
  have start : Answers b.processes.length [] first :=
    ⟨_, begun, .inl rfl, fun ended => (by cases ended), fun never => absurd never List.not_mem_nil⟩
  obtain ⟨at_, there, -, rejects⟩ := (start.run rest).at_
  constructor
  · intro handled member
    have returned := handled.1
    rw [there, rejects.2 member] at returned
    cases returned
  · intro none_
    refine ⟨settled.resolve_right fun ended => ?_, ?_⟩
    · rw [there, Option.some.injEq, Process.handleDBNameReceived.injEq] at ended
      exact none_ (rejects.1 ended)
    · intro names wellFormed
      rw [parsed] at wellFormed
      exact absurd roi wellFormed.iterated.1

/-- The loop over a list is gone through. -/
theorem list_handled_iff {acts : List Act} {b first b' : Box} {msg : Message} {data : Json} {elements : List Json}
    (sound : Sound toString_ b) (sound' : Sound toString_ first)
    (grown : Grows toString_ (openShared toString_ b elements).1 first)
    (parsed : parse msg.data = some data) (present : data ≠ .null) (roi : property "ROI" data ≠ some (.str "req"))
    (list : (property "list" data).bind iterated = some elements)
    (begun : first.processes[b.processes.length]? = some (.handleDBNameReceived (openShared toString_ b elements).2))
    (rest : run (step parse toString_ positive) first acts = some b')
    (settled : b'.processes[b.processes.length]? = some (.handleDBNameReceived .returned) ∨
      b'.processes[b.processes.length]? = some (.handleDBNameReceived .rejected)) :
    Handled parse b b' msg ↔ Accepts parse toString_ b msg ∧ .reject b.processes.length ∉ acts := by
  obtain ⟨ends, done⟩ := loop_returned sound sound' grown begun rest settled
  have listed : ∀ names, WellFormed (parse msg.data) names → elements = names.map .str := by
    intro names wellFormed
    rw [parsed] at wellFormed
    rw [wellFormed.iterated.2, Option.some.injEq] at list
    exact list.symm
  constructor
  · rintro ⟨returned, opened⟩
    obtain ⟨fit, none_⟩ := ends.1 returned
    refine ⟨⟨data, parsed, present, .inr ⟨⟨elements, list, fit⟩, fun names wellFormed name member => ?_⟩⟩, none_⟩
    rcases opened names wellFormed name member with before | after
    · exact sound.not_inherited (.inl before)
    · exact (sound'.run rest).not_inherited (.inr after)
  · rintro ⟨⟨data', parsed', -, fit⟩, none_⟩
    rw [parsed, Option.some.injEq] at parsed'
    subst parsed'
    obtain ⟨⟨elements', list', fits⟩, proper⟩ := fit.resolve_left roi
    rw [list, Option.some.injEq] at list'
    subst list'
    have returned := ends.2 ⟨fits, none_⟩
    refine ⟨returned, fun names wellFormed name member => .inr ?_⟩
    have there : Json.str name ∈ elements := by
      rw [listed names wellFormed]
      exact List.mem_map_of_mem member
    exact ((done returned).opened name there).resolve_left (proper names wellFormed name member)

/-- **Announcements** are handled whenever they come, but for payloads that cannot
be read, collections listed before the first publish is through, and names that
every object has; and unless what the handler awaits is rejected. -/
theorem announcement_handled_iff {before acts : List Act} {b b' : Box} {msg : Message}
    (reachable : run (step parse toString_ positive) {} before = some b) (onTopic : "open-dbs" ∈ msg.topicIDs)
    (reached : run (step parse toString_ positive) b (.message msg :: acts) = some b')
    (settled : b'.processes[b.processes.length]? = some (.handleDBNameReceived .returned) ∨
      b'.processes[b.processes.length]? = some (.handleDBNameReceived .rejected)) :
    Handled parse b b' msg ↔ Accepts parse toString_ b msg ∧ .reject b.processes.length ∉ acts := by
  have sound := (Sound.init toString_).run reachable
  obtain ⟨first, moved, rest⟩ := run_cons.1 reached
  have sound' := sound.step moved
  have firsts : first = { (handleDBNameReceived parse toString_ b msg).1 with
      processes := (handleDBNameReceived parse toString_ b msg).1.processes ++
        [.handleDBNameReceived (handleDBNameReceived parse toString_ b msg).2] } :=
      (Option.some.inj moved).symm
  have begun : first.processes[b.processes.length]? =
      some (.handleDBNameReceived (handleDBNameReceived parse toString_ b msg).2) := by
    obtain ⟨more, messages, same, -⟩ := handleDBNameReceived_frame parse toString_ b msg
    rw [firsts]
    simp [same]
  rcases @handleDBNameReceived_cases parse toString_ b msg onTopic with ⟨same, bad⟩ |
    ⟨data, parsed, present, ⟨roi, same⟩ | ⟨elements, roi, list, same⟩⟩
  · rw [same] at begun
    obtain ⟨unhandled, refused⟩ := @unreadable_not_handled parse toString_ positive acts b first b' msg bad begun rest
    exact iff_of_false unhandled fun accepts => refused accepts.1
  · rw [same] at begun
    rw [request_handled_iff parsed roi begun rest settled]
    exact (and_iff_right ⟨data, parsed, present, .inl roi⟩).symm
  · rw [same] at begun
    have grown : Grows toString_ (openShared toString_ b elements).1 first := by
      rw [firsts, same]
      exact .same rfl (fun _ there => there) id
    exact list_handled_iff sound sound' grown parsed present roi list begun rest settled

end

/-- The announcement of a box with one collection. -/
def sampleMessage : Message :=
  ⟨["open-dbs"], [0x7b, 0x22, 0x6c, 0x69, 0x73, 0x74, 0x22, 0x3a, 0x5b, 0x22, 0x61, 0x22, 0x5d, 0x7d]⟩

def sampleParse (data : Bytes) : Option Json :=
  if data = sampleMessage.data then some (.obj [("list", .arr [.str "a"])]) else none

/-- It reaches a box that has started. -/
theorem announcement_handled_iff_sample :
    ∃ b b', run (step sampleParse (fun _ => none) fun _ => true) {} [.ready] = some b ∧
      run (step sampleParse (fun _ => none) fun _ => true) b
        [.message sampleMessage, .resolve 0, .resolve 0] = some b' ∧
      (Handled sampleParse b b' sampleMessage ↔
        Accepts sampleParse (fun _ => none) b sampleMessage ∧ Act.reject 0 ∉ [.resolve 0, .resolve 0]) :=
  ⟨_, _, rfl, rfl, @announcement_handled_iff sampleParse (fun _ => none) (fun _ => true) [.ready]
    [.resolve 0, .resolve 0] _ _
    sampleMessage rfl (by decide) rfl (.inl rfl)⟩

/-- It reaches a box that still awaits its first publish: the handler reads
`options` too early and rejects. -/
theorem early_announcement_rejects :
    ∃ b', run (step sampleParse (fun _ => none) fun _ => true) {} [.message sampleMessage] = some b' ∧
      b'.processes[0]? = some (.handleDBNameReceived .rejected) ∧ ¬Handled sampleParse {} b' sampleMessage :=
  ⟨_, rfl, rfl, fun handled => by cases handled.1⟩

end Fula.Graph.OpenDbs
