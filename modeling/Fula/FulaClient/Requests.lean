import Fula.FulaClient.Boxes

/-!
# The streams of the client's requests (`fula-client/src/index.ts`)

A request opens its streams one after the other, waits for what comes over them, and closes them when
it has all. Requests go on side by side, and the connections come and go meanwhile, so that a stream
that is opened late may go to another peer or fail.

`streams_closed` says which streams are closed: all of a request's or none, and none of those of a
request that fails.
-/

namespace Fula.FulaClient
set_option autoImplicit false
open Lib

variable {P C : Type} [DecidableEq P] [DecidableEq C]

/-! ## The requests -/

/-- The methods of the client that open streams. -/
inductive Request where
  | sendFile
  | sendEncryptedFile
  | sendStreamFile
  | receiveFile
  | receiveDecryptedFile
  | receiveStreamFile
  | receiveMeta
  | graphql
  | graphqlSubscribe
  deriving DecidableEq

inductive Cmd where
  /-- `await _getStreamConnection(protocol)` -/
  | opens (protocol : Option String)
  /-- What may throw, awaited or not. -/
  | work
  /-- `stream.close()` on the stream that was opened as number `i`. -/
  | close (i : Nat)
  deriving DecidableEq

def GRAPH_PROTOCOL : String := "fx/graph/1"

def Request.script : Request → List Cmd
  | .sendFile | .sendEncryptedFile | .sendStreamFile | .receiveMeta => [.opens none, .work, .close 0]
  | .receiveFile | .receiveDecryptedFile => [.opens none, .work, .opens none, .work, .close 0, .close 1]
  -- the second stream is for a generator that nobody has started yet
  | .receiveStreamFile => [.opens none, .work, .opens none]
  -- `Result.toJson` comes after the close
  | .graphql => [.opens (some GRAPH_PROTOCOL), .work, .close 0, .work]
  | .graphqlSubscribe => [.opens (some GRAPH_PROTOCOL), .work]

/-- Where a call of a request is. -/
inductive CallAt (P C : Type) where
  /-- It waits, for a stream or for other things, with the rest of the script to come. -/
  | waits (stream : Option (Stream P C)) (rest : List Cmd)
  | fulfilled
  | rejected (message : String)

structure Call (P C : Type) where
  request : Request
  streams : List (Stream P C) := []
  closed : List Nat := []
  at_ : CallAt P C := .fulfilled

/-- On to what is awaited next. -/
def Call.goOn (client : Client P C) : List Cmd → Call P C → Call P C
  | [], c => { c with at_ := .fulfilled }
  | .close i :: rest, c => goOn client rest { c with closed := c.closed ++ [i] }
  | .work :: rest, c => { c with at_ := .waits none rest }
  | .opens protocol :: rest, c => match client.getStreamConnection protocol with
    | .ok stream => { c with at_ := .waits (some stream) rest }
    | .error message => { c with at_ := .rejected message }

namespace Requests

structure System (P C : Type) where
  client : Client P C := {}
  calls : List (Call P C) := []

inductive Act (P C : Type) where
  | client (a : Client.Act P C)
  | request (r : Request)
  /-- What call `k` waits for comes. -/
  | resolves (k : Nat)
  /-- It fails, or what follows it throws. -/
  | fails (k : Nat) (message : String)

def step (createFromB58String : String → Except String P) (s : System P C) : Act P C → Option (System P C)
  | .client a => (Client.step createFromB58String s.client a).map fun client => { s with client := client }
  | .request r => some { s with calls := s.calls ++ [Call.goOn s.client r.script { request := r }] }
  | .resolves k => match s.calls[k]? with
    | some c => match c.at_ with
      | .waits stream rest =>
        some { s with calls := s.calls.set k (Call.goOn s.client rest { c with streams := c.streams ++ stream.toList }) }
      | .fulfilled | .rejected _ => none
    | none => none
  | .fails k message => match s.calls[k]? with
    | some c => match c.at_ with
      | .waits _ _ => some { s with calls := s.calls.set k { c with at_ := .rejected message } }
      | .fulfilled | .rejected _ => none
    | none => none

/-! ## Scripts -/

def opens : Cmd → Bool
  | .opens _ => true
  | .work | .close _ => false

def closes : Cmd → Option Nat
  | .close i => some i
  | .opens _ | .work => none

/-- A command that something is awaited at. -/
def awaits : Cmd → Bool
  | .opens _ | .work => true
  | .close _ => false

theorem closes_of_awaits {cmd : Cmd} (stops : awaits cmd = true) : closes cmd = none := by
  cases cmd <;> first | rfl | cases stops

/-- The streams that have been opened and closed when the first `n` commands are done. -/
def Done (r : Request) (n opened : Nat) (closed : List Nat) : Prop :=
  opened = (r.script.take n).countP opens ∧ closed = (r.script.take n).filterMap closes

/-- Wherever a script waits, it has closed no stream, or all of them and opens no more. -/
theorem closed_at (r : Request) : ∀ n ≤ r.script.length, ((r.script.drop n).head?.map awaits).getD true →
    (r.script.take n).filterMap closes = [] ∨
      (r.script.take n).filterMap closes = List.range ((r.script.take n).countP opens) := by
  cases r <;> decide

/-- Where it may still fail it has closed none, but for the query whose result has come. -/
theorem closed_before (r : Request) (apart : r ≠ .graphql) : ∀ n < r.script.length,
    ((r.script.drop n).head?.map awaits).getD true → (r.script.take n).filterMap closes = [] := by
  cases r <;> first | contradiction | decide

theorem closed_end (r : Request) :
    r.script.filterMap closes = [] ↔ r = .receiveStreamFile ∨ r = .graphqlSubscribe := by
  cases r <;> decide

section
variable {createFromB58String : String → Except String P} {s s' : System P C} {a : Act P C} {acts : List (Act P C)}
  {c : Call P C} {client : Client P C}

/-- A call is somewhere in its script. -/
def Somewhere (c : Call P C) : Prop :=
  match c.at_ with
  | .waits stream rest => ∃ n cmd, c.request.script.drop n = cmd :: rest ∧ awaits cmd = true ∧ stream.isSome = opens cmd ∧
      Done c.request n c.streams.length c.closed
  | .fulfilled => Done c.request c.request.script.length c.streams.length c.closed
  | .rejected _ => ∃ n cmd rest, c.request.script.drop n = cmd :: rest ∧ awaits cmd = true ∧
      Done c.request n c.streams.length c.closed

theorem inside_of_drop {r : Request} {n : Nat} {cmd : Cmd} {rest : List Cmd} (at_ : r.script.drop n = cmd :: rest) :
    n < r.script.length := by
  by_contra outside
  rw [List.drop_eq_nil_of_le (Nat.le_of_not_lt outside)] at at_
  cases at_

omit [DecidableEq P] [DecidableEq C] in
theorem Done.next {r : Request} {n opened : Nat} {closed : List Nat} {cmd : Cmd} {rest : List Cmd}
    (done : Done r n opened closed) (at_ : r.script.drop n = cmd :: rest) :
    Done r (n + 1) (opened + if opens cmd then 1 else 0) (closed ++ (closes cmd).toList) := by
  have inside : r.script[n]? = some cmd := by rw [← List.head?_drop, at_]; rfl
  have more : r.script.take (n + 1) = r.script.take n ++ [cmd] := by rw [List.take_add_one, inside]; rfl
  rw [Done, more, done.1, done.2, List.countP_append, List.countP_singleton, List.filterMap_append]
  exact ⟨rfl, by cases cmd <;> rfl⟩

omit [DecidableEq P] [DecidableEq C] in
theorem drop_next {r : Request} {n : Nat} {cmd : Cmd} {rest : List Cmd} (at_ : r.script.drop n = cmd :: rest) :
    r.script.drop (n + 1) = rest := by
  rw [← List.tail_drop, at_, List.tail_cons]

omit [DecidableEq P] [DecidableEq C] in
/-- Going on from anywhere in the script ends somewhere in it. -/
theorem somewhere_goOn : ∀ (rest : List Cmd) (c : Call P C) (n : Nat), c.request.script.drop n = rest →
    Done c.request n c.streams.length c.closed → Somewhere (Call.goOn client rest c)
  | [], c, n, at_, done => by
    rw [Done, List.take_of_length_le (List.drop_eq_nil_iff.1 at_)] at done
    simpa only [Somewhere, Call.goOn, Done, List.take_length] using done
  | .close i :: rest, c, n, at_, done => by
    have next := done.next at_
    simp only [opens, Bool.false_eq_true, if_false, Nat.add_zero] at next
    exact somewhere_goOn rest { c with closed := c.closed ++ [i] } (n + 1) (drop_next at_) next
  | .work :: rest, c, n, at_, done => ⟨n, .work, at_, rfl, rfl, done⟩
  | .opens protocol :: rest, c, n, at_, done => by
    rw [Call.goOn]
    split
    · exact ⟨n, .opens protocol, at_, rfl, rfl, done⟩
    · exact ⟨n, .opens protocol, rest, at_, rfl, done⟩

theorem somewhere_step (all : ∀ c ∈ s.calls, Somewhere c) (moved : Requests.step createFromB58String s a = some s') :
    ∀ c ∈ s'.calls, Somewhere c := by
  cases a with
  | client a =>
    obtain ⟨client, -, rfl⟩ := Option.map_eq_some_iff.1 moved
    exact all
  | request r =>
    cases moved
    intro c there
    rcases List.mem_append.1 there with old | new
    · exact all c old
    · rw [List.mem_singleton.1 new]
      exact somewhere_goOn r.script { request := r } 0 List.drop_zero ⟨rfl, rfl⟩
  | resolves k =>
    simp only [Requests.step] at moved
    split at moved
    · next c at_ =>
      split at moved
      · next stream rest waits =>
        cases moved
        intro c' there
        rcases List.mem_or_eq_of_mem_set there with old | rfl
        · exact all c' old
        · have here := all c (List.mem_of_getElem? at_)
          simp only [Somewhere, waits] at here
          obtain ⟨n, cmd, here, stops, opened, done⟩ := here
          have next := done.next here
          rw [closes_of_awaits stops, Option.toList_none, List.append_nil, ← opened] at next
          refine somewhere_goOn rest _ (n + 1) (drop_next here) ?_
          rwa [List.length_append, Option.length_toList]
      · cases moved
      · cases moved
    · cases moved
  | fails k message =>
    simp only [Requests.step] at moved
    split at moved
    · next c at_ =>
      split at moved
      · next stream rest waits =>
        cases moved
        intro c' there
        rcases List.mem_or_eq_of_mem_set there with old | rfl
        · exact all c' old
        · have here := all c (List.mem_of_getElem? at_)
          simp only [Somewhere, waits] at here
          obtain ⟨n, cmd, here, stops, -, done⟩ := here
          exact ⟨n, cmd, rest, here, stops, done⟩
      · cases moved
      · cases moved
    · cases moved

omit [DecidableEq P] [DecidableEq C] in
/-- What is closed somewhere in a script. -/
theorem Somewhere.closed (somewhere : Somewhere c) : c.closed = [] ∨ c.closed = List.range c.streams.length := by
  have at_point : ∀ n ≤ c.request.script.length, ((c.request.script.drop n).head?.map awaits).getD true →
      Done c.request n c.streams.length c.closed → c.closed = [] ∨ c.closed = List.range c.streams.length := by
    intro n inside stops done
    rw [done.1, done.2]
    exact closed_at c.request n inside stops
  unfold Somewhere at somewhere
  split at somewhere
  · obtain ⟨n, cmd, here, stops, -, done⟩ := somewhere
    exact at_point n (inside_of_drop here).le (by rw [here]; exact stops) done
  · exact at_point _ le_rfl (by rw [List.drop_length]; rfl) somewhere
  · obtain ⟨n, cmd, rest, here, stops, done⟩ := somewhere
    exact at_point n (inside_of_drop here).le (by rw [here]; exact stops) done

omit [DecidableEq P] [DecidableEq C] in
theorem Somewhere.unfinished (somewhere : Somewhere c) (apart : c.request ≠ .graphql) (unfinished : c.at_ ≠ .fulfilled) :
    c.closed = [] := by
  unfold Somewhere at somewhere
  split at somewhere
  · obtain ⟨n, cmd, here, stops, -, done⟩ := somewhere
    rw [done.2]
    exact closed_before c.request apart n (inside_of_drop here) (by rw [here]; exact stops)
  · next same => exact absurd same unfinished
  · obtain ⟨n, cmd, rest, here, stops, done⟩ := somewhere
    rw [done.2]
    exact closed_before c.request apart n (inside_of_drop here) (by rw [here]; exact stops)

/-- In every interleaving a call has closed none of its streams or all of them. One that has come to its
end has closed them, but for the two requests whose streams are never closed; one that has not, or has
been rejected, has closed none, but for a query whose result has come and cannot be written as JSON. -/
theorem streams_closed (reached : run (Requests.step createFromB58String) ({} : System P C) acts = some s)
    (there : c ∈ s.calls) :
    (c.closed = [] ∨ c.closed = List.range c.streams.length) ∧
    (c.at_ = .fulfilled → c.streams.length = c.request.script.countP opens ∧
      (c.closed = [] ↔ c.request = .receiveStreamFile ∨ c.request = .graphqlSubscribe)) ∧
    (c.at_ ≠ .fulfilled → c.closed ≠ [] → c.request = .graphql) := by
  have all : ∀ c ∈ s.calls, Somewhere c := run_invariant (I := fun s : System P C => ∀ c ∈ s.calls, Somewhere c)
    (fun _ member => absurd member List.not_mem_nil) (fun _ _ _ all moved => somewhere_step all moved) reached
  have somewhere := all c there
  refine ⟨somewhere.closed, fun fulfilled => ?_, fun unfinished some_ => ?_⟩
  · simp only [Somewhere, fulfilled, Done, List.take_length] at somewhere
    rw [somewhere.2]
    exact ⟨somewhere.1, closed_end c.request⟩
  · by_contra apart
    exact some_ (somewhere.unfinished apart unfinished)

/-- A file whose two streams go to two peers, since the first has gone meanwhile, and a query that finds nobody. -/
def handover : List (Act String Nat) :=
  [.client (.connect (.array ["box"])), .client (.opened "box" 0), .request .receiveFile, .resolves 0,
    .client (.closed "box" 0), .request .graphql, .client (.opened "peer" 1), .resolves 0, .resolves 0, .resolves 0]

theorem streams_closed_sample : ∃ s c, run (Requests.step .ok) {} handover = some s ∧ s.calls[0]? = some c ∧
    c.streams.map (·.peer) = ["box", "peer"] ∧ c.closed ≠ [] := by
  obtain ⟨s, c, reached, there, peers, fulfilled, own⟩ : ∃ s c, run (Requests.step .ok) {} handover = some s ∧
      s.calls[0]? = some c ∧ c.streams.map (·.peer) = ["box", "peer"] ∧ c.at_ = .fulfilled ∧ c.request = .receiveFile :=
    ⟨_, _, rfl, rfl, by decide, rfl, rfl⟩
  have closed := (streams_closed reached (List.mem_of_getElem? there)).2.1 fulfilled
  rw [own] at closed
  exact ⟨s, c, reached, there, peers, fun none_ => by simpa using closed.2.1 none_⟩

end

end Requests

end Fula.FulaClient
