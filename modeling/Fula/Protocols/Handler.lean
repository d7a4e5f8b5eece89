import Fula.AsyncLater.ChainParts
import Fula.FileProtocol.Save
import Fula.GraphProtocol.Framing

/-!
# The handlers of the two protocols

The `handler` of the file protocol and that of the graph protocol are one
program with two ways to decode a request and two tables of methods: it cuts
the stream after its first message, decodes that message, calls a method,
writes the response that the method promises, and closes the stream.

Nobody awaits the pump of the partition. When the stream fails, its promise is
rejected and nobody handles that, which ends the process.

`handles_iff` says for which streams, whatever the order in which the stream,
the queues of the partition and the handler move, the handler comes to its end.
-/

namespace Fula.Protocols
set_option autoImplicit false
open Lib AsyncLater IterateLater FileProtocol

/-! ## What a handler depends on -/

/-- What the iterable of a response does when it is asked for a chunk. -/
inductive Answer where
  | value (chunk : Bytes)
  | done
  | throws
  | pending
  deriving DecidableEq

/-- What becomes of the promise of a response; its iterable answers call number `k` with `answer k`. -/
inductive Reply where
  | pending
  | rejects
  | undefined
  | iterable (answer : Nat → Answer)

/-- What a handler does with a decoded request. -/
inductive Called where
  /-- No case of the switch: `response` stays `Promise.resolve(Response.EMPTY)`. -/
  | empty
  /-- The method throws when it is called. -/
  | throws (message : String)
  | returns (reply : Reply)
  /-- `save`, with the id that a subscriber of `incomingFiles` declares if one ever does. -/
  | save (declared : Option String)

/-- The other end of the stream's sink: whether it takes write number `k`, and `pipe([], stream)`. -/
structure Sink where
  takes : Nat → Bool
  closes : Bool

/-- `toAsyncIterable(cs)` -/
def chunks (cs : List Bytes) (k : Nat) : Answer :=
  match cs[k]? with
  | some c => .value c
  | none => .done

/-- `Response.EMPTY` -/
def EMPTY : Nat → Answer := chunks [encodeText "Empty response"]

/-! ## A handler -/

/-- What a handler awaits. -/
inductive HandlerAt where
  | firstValue
  /-- The promise of the response. -/
  | response (reply : Reply)
  /-- `save` has taken `taken` messages of `streamTail` and is about to call `next()`. -/
  | pulling (declared : Option String) (taken : Nat)
  | awaiting (declared : Option String) (taken : Nat)
  | promiseId (declared : Option String)
  /-- `pipe(response, stream)`, with `k` chunks written. -/
  | writing (answer : Nat → Answer) (k : Nat)
  /-- `pipe([], stream)` -/
  | closing
  | closed
  | rejected

structure Handling (ε : Type) where
  /-- The stream, with the two parts that `partition(1, ..)` makes of it. -/
  chain : Chain Bytes ε
  at_ : HandlerAt := .firstValue
  written : List Bytes := []

/-- The pump has failed: an unhandled rejection ends the process. -/
def Handling.exited {ε : Type} (s : Handling ε) : Bool := s.chain.stages.any (·.loop.isFailed)

inductive Act where
  /-- The stream delivers, the pump takes, a queue of the partition answers. -/
  | stream (a : Chain.Act)
  /-- `firstValue(streamHead)` is answered. -/
  | head
  | pullTail
  | takeTail
  /-- The id is declared. -/
  | declareId
  /-- The promise of the response settles. -/
  | settle
  | write
  | close

/-- What the handler awaits next. -/
def Called.awaits : Called → HandlerAt
  | .empty => .response (.iterable EMPTY)
  | .throws _ => .rejected
  | .returns reply => .response reply
  | .save declared => .pulling declared 0

section
/- `Request.fromBinary`, and what the handler does with a request. -/
variable {R ε : Type} (decode : Bytes → Option R) (call : R → Called) (sink : Sink)

/-- The handler is called: it cuts the stream and calls `next()` on its head. -/
def start (messages : List Bytes) (failure : Option ε) : Handling ε :=
  { chain := (Chain.init 1 messages failure).setStage 0 { index := 1, first := IterateLater.init.pull } }

/-- `Request.fromBinary(await firstValue(streamHead))`, and the switch. -/
def handle : Result Bytes ε → HandlerAt
  | .value message => ((decode message).map fun request => (call request).awaits).getD .rejected
  -- `firstValue` throws: there is no first value
  | _ => .rejected

/-- `save` goes on with the answer to its call number `taken`. -/
def forward (declared : Option String) (taken : Nat) : Result Bytes ε → HandlerAt
  | .value _ => .pulling declared (taken + 1)
  | .done => .promiseId declared
  | .error _ => .rejected

def proceed (s : Handling ε) : Act → Option (Handling ε)
  | .stream a => if Chain.internal a then (Chain.step s.chain a).map fun chain => { s with chain } else none
  | .head => match s.at_ with
    | .firstValue =>
      (((s.chain.stages[0]?).bind fun st => st.first.gen.results[0]?).map fun r =>
      { s with at_ := handle decode call r })
    | _ => none
  | .pullTail => match s.at_ with
    | .pulling declared taken =>
      (Chain.step s.chain .pullLast).map fun chain => { s with chain, at_ := .awaiting declared taken }
    | _ => none
  | .takeTail => match s.at_ with
    | .awaiting declared taken =>
      (((s.chain.stages[0]?).bind fun st => st.second.gen.results[taken]?).map fun r =>
        { s with at_ := forward declared taken r })
    | _ => none
  | .declareId => match s.at_ with
    | .promiseId (some id) => some { s with at_ := .response (.iterable (chunks [encodeText id])) }
    | _ => none
  | .settle => match s.at_ with
    | .response .rejects => some { s with at_ := .rejected }
    | .response .undefined => some { s with at_ := .writing EMPTY 0 }
    | .response (.iterable answer) => some { s with at_ := .writing answer 0 }
    | _ => none
  | .write => match s.at_ with
    | .writing answer k => match answer k with
      | .value chunk =>
        if sink.takes k then some { s with at_ := .writing answer (k + 1), written := s.written ++ [chunk] }
        else some { s with at_ := .rejected }
      | .done => some { s with at_ := .closing }
      | .throws => some { s with at_ := .rejected }
      | .pending => none
    | _ => none
  | .close => match s.at_ with
    | .closing => some { s with at_ := if sink.closes then .closed else .rejected }
    | _ => none

/-- The next step, as long as the process is there. -/
def step (s : Handling ε) (a : Act) : Option (Handling ε) :=
  if s.exited then none else proceed decode call sink s a

end

/-- The response that a fulfilled promise of it asks for. -/
def Reply.due : Reply → Option (Nat → Answer)
  | .undefined => some EMPTY
  | .iterable answer => some answer
  | _ => none

/-! ## What a step does -/

section
variable {R ε : Type} (decode : Bytes → Option R) (call : R → Called) (sink : Sink)

/-- A step, by what the handler awaited. -/
inductive Moves (s : Handling ε) : Handling ε → Prop where
  | stream {a : Chain.Act} {chain : Chain Bytes ε} (inside : Chain.internal a)
    (first : Chain.step s.chain a = some chain) : Moves s { s with chain }
  | head {r : Result Bytes ε} (waits : s.at_ = .firstValue)
    (answered : ((s.chain.stages[0]?).bind fun st => st.first.gen.results[0]?) = some r) :
    Moves s { s with at_ := handle decode call r }
  | pullTail {declared : Option String} {taken : Nat} {chain : Chain Bytes ε}
    (waits : s.at_ = .pulling declared taken) (pulled : Chain.step s.chain .pullLast = some chain) :
    Moves s { s with chain, at_ := .awaiting declared taken }
  | takeTail {declared : Option String} {taken : Nat} {r : Result Bytes ε}
    (waits : s.at_ = .awaiting declared taken)
    (answered : ((s.chain.stages[0]?).bind fun st => st.second.gen.results[taken]?) = some r) :
    Moves s { s with at_ := forward declared taken r }
  | declareId {id : String} (waits : s.at_ = .promiseId (some id)) :
    Moves s { s with at_ := .response (.iterable (chunks [encodeText id])) }
  | rejects (waits : s.at_ = .response .rejects) : Moves s { s with at_ := .rejected }
  | responds {reply : Reply} {answer : Nat → Answer} (waits : s.at_ = .response reply)
    (due : reply.due = some answer) : Moves s { s with at_ := .writing answer 0 }
  | writes {answer : Nat → Answer} {k : Nat} {chunk : Bytes} (waits : s.at_ = .writing answer k)
    (value : answer k = .value chunk) (takes : sink.takes k = true) :
    Moves s { s with at_ := .writing answer (k + 1), written := s.written ++ [chunk] }
  | breaks {answer : Nat → Answer} {k : Nat} (waits : s.at_ = .writing answer k)
    (broken : answer k = .throws ∨ (∃ chunk, answer k = .value chunk) ∧ sink.takes k = false) :
    Moves s { s with at_ := .rejected }
  | ends {answer : Nat → Answer} {k : Nat} (waits : s.at_ = .writing answer k) (ended : answer k = .done) :
    Moves s { s with at_ := .closing }
  | close (waits : s.at_ = .closing) :
    Moves s { s with at_ := if sink.closes then .closed else .rejected }

variable {decode call sink} {s s' : Handling ε}

theorem step_proceeds {a : Act} (moved : step decode call sink s a = some s') :
    proceed decode call sink s a = some s' := by
  unfold step at moved
  split at moved
  · cases moved
  · exact moved

/-- A process that is there and has no step left has none of the handler's. -/
theorem proceed_quiet (running : s.exited = false) (quiet : Quiet (step decode call sink) (fun _ => True) s) (a : Act) :
    proceed decode call sink s a = none := by
  have blocked := quiet a trivial
  rwa [step, running, if_neg Bool.false_ne_true] at blocked

theorem step_moves {a : Act} (moved : step decode call sink s a = some s') : Moves decode call sink s s' := by
  have moved := step_proceeds moved
  cases a with
  | stream a =>
    simp only [proceed] at moved
    split at moved
    · next inside =>
      obtain ⟨chain, first, rfl⟩ := Option.map_eq_some_iff.1 moved
      exact .stream inside first
    · cases moved
  | head =>
    simp only [proceed] at moved
    split at moved
    · next waits =>
      obtain ⟨r, answered, rfl⟩ := Option.map_eq_some_iff.1 moved
      exact .head waits answered
    · cases moved
  | pullTail =>
    simp only [proceed] at moved
    split at moved
    · next declared taken waits =>
      obtain ⟨chain, pulled, rfl⟩ := Option.map_eq_some_iff.1 moved
      exact .pullTail waits pulled
    · cases moved
  | takeTail =>
    simp only [proceed] at moved
    split at moved
    · next declared taken waits =>
      obtain ⟨r, answered, rfl⟩ := Option.map_eq_some_iff.1 moved
      exact .takeTail waits answered
    · cases moved
  | declareId =>
    simp only [proceed] at moved
    split at moved
    · next id waits => cases moved; exact .declareId waits
    · cases moved
  | settle =>
    simp only [proceed] at moved
    split at moved
    · next waits => cases moved; exact .rejects waits
    · next waits => cases moved; exact .responds waits rfl
    · next answer waits => cases moved; exact .responds waits rfl
    · cases moved
  | write =>
    simp only [proceed] at moved
    split at moved
    · next answer k waits =>
      split at moved
      · next chunk value =>
        split at moved
        · next takes => cases moved; exact .writes waits value takes
        · next refused => cases moved; exact .breaks waits (.inr ⟨⟨chunk, value⟩, Bool.eq_false_iff.2 refused⟩)
      · next ended => cases moved; exact .ends waits ended
      · next throws => cases moved; exact .breaks waits (.inl throws)
      · cases moved
    · cases moved
  | close =>
    simp only [proceed] at moved
    split at moved
    · next waits => cases moved; exact .close waits
    · cases moved

end

/-! ## The response that is due -/

def Called.due : Called → Option (Nat → Answer)
  | .empty => some EMPTY
  | .throws _ => none
  | .returns reply => reply.due
  | .save declared => declared.map fun id => chunks [encodeText id]

section
variable {R : Type} (decode : Bytes → Option R) (call : R → Called) (sink : Sink) (messages : List Bytes)

/-- The first message is a request for which the handler does `called`. -/
def Calls (called : Called) : Prop :=
  ∃ request, messages.head?.bind decode = some request ∧ call request = called

/-- A response is due, and it is this one. -/
def Due (answer : Nat → Answer) : Prop :=
  ∃ called, Calls decode call messages called ∧ called.due = some answer

/-- These are the first chunks of the response, and the stream took them. -/
structure Writes (answer : Nat → Answer) (written : List Bytes) : Prop where
  value : ∀ k c, written[k]? = some c → answer k = .value c
  taken : ∀ k, k < written.length → sink.takes k = true

/-- The whole response has been written. -/
def Wrote (written : List Bytes) : Prop :=
  ∃ answer, Due decode call messages answer ∧ Writes sink answer written ∧ answer written.length = .done

/-- What holds where the handler awaits something, after so many calls on `streamTail`. -/
def AwaitsAt (calls : Nat) (written : List Bytes) : HandlerAt → Prop
  | .firstValue => calls = 0 ∧ written = []
  | .response reply => written = [] ∧ ∃ called, Calls decode call messages called ∧ called.due = reply.due
  | .pulling declared taken => written = [] ∧ calls = taken ∧ taken ≤ (messages.drop 1).length ∧
      Calls decode call messages (.save declared)
  | .awaiting declared taken => written = [] ∧ calls = taken + 1 ∧ taken ≤ (messages.drop 1).length ∧
      Calls decode call messages (.save declared)
  | .promiseId declared => written = [] ∧ Calls decode call messages (.save declared)
  | .writing answer k => written.length = k ∧ Due decode call messages answer ∧ Writes sink answer written
  | .closing => Wrote decode call sink messages written
  | .closed => Wrote decode call sink messages written ∧ sink.closes = true
  | .rejected => True

variable {ε : Type} (failure : Option ε)

structure Inv (s : Handling ε) : Prop where
  stream : Chain.RunInv 1 messages failure [] s.chain
  handler : ∃ st, s.chain.stages = [st] ∧ st.first.gen.calls = 1 ∧
    AwaitsAt decode call sink messages st.second.gen.calls s.written s.at_

variable {decode call sink messages failure} {s s' : Handling ε}

theorem inv_start : Inv decode call sink messages failure (start messages failure) where
  stream :=
    have uncut : Chain.RunInv 1 messages failure [] (Chain.init 1 messages failure) :=
      ⟨Chain.inv_init _ _ _, rfl, rfl, rfl⟩
    uncut.uncut (show Chain.step _ (.pullFirst 0) = some _ from rfl) rfl
  handler := ⟨_, rfl, rfl, rfl, rfl⟩

/-- The head of the stream is its first message, or there is none. -/
theorem Inv.head_answer (h : Inv decode call sink messages failure s) {st : Partition Bytes ε} {r : Result Bytes ε}
    (only : s.chain.stages = [st]) (answered : st.first.gen.results[0]? = some r) :
    (∃ message, messages.head? = some message ∧ r = .value message) ∨ messages = [] ∧ r = .done := by
  have part : (Chain.parts s.chain)[0]? = some st.first := by rw [Chain.parts_only only]; rfl
  have answer := h.stream.answer part rfl answered
  cases messages with
  | nil =>
    cases answer
    exact .inr ⟨rfl, rfl⟩
  | cons message rest =>
    cases answer
    exact .inl ⟨message, rfl, rfl⟩

theorem handle_decoded {message : Bytes} {request : R} (decoded : decode message = some request) :
    handle decode call (.value message : Result Bytes ε) = (call request).awaits := by
  simp only [handle, decoded, Option.map_some, Option.getD_some]

/-- The handler goes on with the head of the stream. -/
theorem handle_awaits {message : Bytes} (head : messages.head? = some message) :
    AwaitsAt decode call sink messages 0 []
    (handle decode call (.value message : Result Bytes ε)) := by
  cases decoded : decode message with
  | none =>
    simp only [handle, decoded, Option.map_none, Option.getD_none]
    trivial
  | some request =>
    have calls : Calls decode call messages (call request) := ⟨request, by rw [head]; exact decoded, rfl⟩
    rw [handle_decoded decoded]
    cases called : call request with
    | empty => exact ⟨rfl, .empty, called ▸ calls, rfl⟩
    | throws message => trivial
    | returns reply => exact ⟨rfl, .returns reply, called ▸ calls, rfl⟩
    | save declared => exact ⟨rfl, rfl, Nat.zero_le _, called ▸ calls⟩

theorem Writes.nil (answer : Nat → Answer) : Writes sink answer [] where
  value k c at_ := by cases at_
  taken k less := by cases less

/-- One more chunk. -/
theorem Writes.snoc {answer : Nat → Answer} {written : List Bytes} {chunk : Bytes}
    (h : Writes sink answer written)
    (value : answer written.length = .value chunk) (takes : sink.takes written.length = true) :
    Writes sink answer (written ++ [chunk]) where
  value k c at_ := by
    rcases Nat.lt_or_ge k written.length with old | new
    · rw [List.getElem?_append_left old] at at_
      exact h.value k c at_
    · have last := (List.getElem?_eq_some_iff.1 at_).1
      rw [List.length_append, List.length_singleton] at last
      obtain rfl : k = written.length := by omega
      rw [List.getElem?_concat_length, Option.some.injEq] at at_
      exact at_ ▸ value
  taken k less := by
    rw [List.length_append, List.length_singleton] at less
    rcases Nat.lt_or_ge k written.length with old | new
    · exact h.taken k old
    · obtain rfl : k = written.length := by omega
      exact takes

/-- A step of the handler that leaves the stream alone. -/
theorem Inv.awaits (h : Inv decode call sink messages failure s) {next : HandlerAt} {written : List Bytes}
    (goes : ∀ calls, AwaitsAt decode call sink messages calls s.written s.at_ →
      AwaitsAt decode call sink messages calls written next) :
    Inv decode call sink messages failure { s with at_ := next, written } := by
  obtain ⟨st, only, called, at_⟩ := h.handler
  exact ⟨h.stream, st, only, called, goes _ at_⟩

theorem Inv.step {a : Act} (h : Inv decode call sink messages failure s)
    (moved : step decode call sink s a = some s') : Inv decode call sink messages failure s' := by
  obtain ⟨st, only, called, awaits⟩ := h.handler
  cases step_moves moved with
  | @stream a chain inside first =>
    obtain ⟨st', only', same, same'⟩ := h.stream.internal only inside first
    refine ⟨h.stream.uncut first (Chain.cutAt_internal inside), st', only', same.trans called, ?_⟩
    rw [same']
    exact awaits
  | head waits answered =>
    rw [only] at answered
    rw [waits] at awaits
    obtain ⟨none_, nothing⟩ := awaits
    refine ⟨h.stream, st, only, called, ?_⟩
    dsimp only
    rw [none_, nothing]
    rcases h.head_answer only answered with ⟨message, head, rfl⟩ | ⟨-, rfl⟩
    · exact handle_awaits head
    · trivial
  | pullTail waits pulled =>
    cases pulled
    rw [waits] at awaits
    obtain ⟨nothing, calls, inside, first⟩ := awaits
    refine ⟨h.stream.uncut (show Chain.step s.chain .pullLast = some _ from rfl) rfl,
      { st with second := st.second.pull }, by simp [Chain.pullUpstream, Chain.setStage, only],
      called, nothing, ?_, inside, first⟩
    rw [calls_pull, calls]
  | takeTail waits answered =>
    rw [only] at answered
    rw [waits] at awaits
    obtain ⟨nothing, calls, inside, first⟩ := awaits
    refine ⟨h.stream, st, only, called, ?_⟩
    rcases h.stream.second_answer only answered with ⟨v, at_, rfl⟩ | ⟨rfl, -⟩
    · exact ⟨nothing, calls, (List.getElem?_eq_some_iff.1 at_).1, first⟩
    · exact ⟨nothing, first⟩
  | declareId waits =>
    refine h.awaits fun calls at_ => ?_
    rw [waits] at at_
    obtain ⟨nothing, first⟩ := at_
    exact ⟨nothing, _, first, rfl⟩
  | rejects waits => exact h.awaits fun _ _ => trivial
  | @responds reply answer waits due =>
    refine h.awaits fun calls at_ => ?_
    rw [waits] at at_
    obtain ⟨nothing, called, first, same⟩ := at_
    rw [nothing]
    exact ⟨rfl, ⟨called, first, same.trans due⟩, Writes.nil answer⟩
  | writes waits value takes =>
    refine h.awaits fun calls at_ => ?_
    rw [waits] at at_
    obtain ⟨rfl, due, writes⟩ := at_
    exact ⟨by simp, due, writes.snoc value takes⟩
  | breaks waits broken => exact h.awaits fun _ _ => trivial
  | @ends answer k waits ended =>
    refine h.awaits fun calls at_ => ?_
    rw [waits] at at_
    obtain ⟨rfl, due, writes⟩ := at_
    exact ⟨answer, due, writes, ended⟩
  | close waits =>
    refine h.awaits fun calls at_ => ?_
    rw [waits] at at_
    cases closes : sink.closes with
    | true => exact ⟨at_, closes⟩
    | false => trivial

end

/-! ## Which streams are handled -/

section
variable {R ε : Type} (decode : Bytes → Option R) (call : R → Called) (sink : Sink) (messages : List Bytes)
  (failure : Option ε)

/-- The handler settles without rejecting, in whatever order things happen: no
run goes on for ever, and where nothing can move the process is still there and
the stream is closed, with the response written unless the stream failed. -/
def Handles : Prop :=
  (∃ bound, ∀ acts s, run (step decode call sink) (start messages failure) acts = some s →
    acts.length ≤ bound) ∧
  ∀ acts s, run (step decode call sink) (start messages failure) acts = some s →
    Quiet (step decode call sink) (fun _ => True) s →
    s.exited = false ∧ s.at_ = .closed ∧ (failure = none → Wrote decode call sink messages s.written)

/-- The stream does not fail; there is a first message, it decodes, and what the
handler does with it promises a response that ends; and the stream takes all of
it. -/
def Accepts : Prop :=
  failure = none ∧ sink.closes = true ∧ ∃ answer n, Due decode call messages answer ∧ answer n = .done ∧
    ∀ k, k < n → sink.takes k = true ∧ ∃ chunk, answer k = .value chunk

/-- The most that is left to do for a stream of `m` messages and a response of `n` chunks. -/
def left (m n : Nat) : HandlerAt → Nat
  | .firstValue => 4 * m + n + 12
  | .pulling _ taken => 4 * (m - taken) + n + 8
  | .awaiting _ taken => 4 * (m - taken) + n + 6
  | .promiseId _ => n + 5
  | .response _ => n + 4
  | .writing _ k => n - k + 2
  | .closing => 1
  | .closed | .rejected => 0

def measure (m n : Nat) (s : Handling ε) : Nat := Chain.measure s.chain + left m n s.at_

variable {decode call sink messages failure} {s s' : Handling ε} {answer : Nat → Answer} {n : Nat}

theorem Calls.unique {called called' : Called} (h : Calls decode call messages called)
    (h' : Calls decode call messages called') : called = called' := by
  obtain ⟨request, first, rfl⟩ := h
  obtain ⟨request', first', rfl⟩ := h'
  rw [first, Option.some.injEq] at first'
  rw [first']

theorem Due.unique {answer' : Nat → Answer} (h : Due decode call messages answer)
    (h' : Due decode call messages answer') : answer = answer' := by
  obtain ⟨called, first, due⟩ := h
  obtain ⟨called', first', due'⟩ := h'
  rw [first.unique first', due'] at due
  exact (Option.some.inj due).symm

/-- What is written of a response is no more than there is of it. -/
theorem Writes.length_le {written : List Bytes} (h : Writes sink answer written) (ended : answer n = .done) :
    written.length ≤ n := by
  by_contra more
  have at_ : written[n]? = some written[n] := List.getElem?_eq_getElem (by omega)
  rw [h.value n _ at_] at ended
  cases ended

/-- The next chunk of a response, or its end. -/
theorem next_chunk (ended : answer n = .done)
    (values : ∀ k, k < n → sink.takes k = true ∧ ∃ chunk, answer k = .value chunk) {k : Nat}
    (inside : k ≤ n) :
    (k < n ∧ sink.takes k = true ∧ ∃ chunk, answer k = .value chunk) ∨ k = n ∧ answer k = .done := by
  rcases Nat.lt_or_ge k n with less | more
  · exact .inl ⟨less, values k less⟩
  · obtain rfl : k = n := by omega
    exact .inr ⟨rfl, ended⟩

/-- Nothing goes wrong with a response that ends and that the stream takes. -/
theorem unbroken (ended : answer n = .done)
    (values : ∀ k, k < n → sink.takes k = true ∧ ∃ chunk, answer k = .value chunk) {k : Nat} (inside : k ≤ n) :
    ¬(answer k = .throws ∨ (∃ chunk, answer k = .value chunk) ∧ sink.takes k = false) := by
  rcases next_chunk ended values inside with ⟨-, takes, chunk, value⟩ | ⟨-, done⟩
  · simp [takes, value]
  · simp [done]

/-- A step of the handler that leaves the stream alone brings it nearer to its end by what is left. -/
theorem measure_lt {next : HandlerAt} {m : Nat} (less : left m n next < left m n s.at_) (written : List Bytes) :
    measure m n { s with at_ := next, written } < measure m n s :=
  Nat.add_lt_add_left less _

/-- The response in hand is the one that is due. -/
theorem Inv.promised (h : Inv decode call sink messages failure s)
    (due : Due decode call messages answer) {reply : Reply} (waits : s.at_ = .response reply) :
    reply.due = some answer := by
  obtain ⟨st, -, -, awaits⟩ := h.handler
  rw [waits] at awaits
  obtain ⟨-, called, first, same⟩ := awaits
  obtain ⟨called', first', due'⟩ := due
  rw [← same, first.unique first', due']

theorem Inv.writing (h : Inv decode call sink messages failure s)
    (due : Due decode call messages answer) (ended : answer n = .done) {answer' : Nat → Answer}
    {k : Nat} (waits : s.at_ = .writing answer' k) : answer' = answer ∧ k ≤ n := by
  obtain ⟨st, -, -, awaits⟩ := h.handler
  rw [waits] at awaits
  obtain ⟨rfl, due', writes⟩ := awaits
  obtain rfl := due'.unique due
  exact ⟨rfl, writes.length_le ended⟩

/-- A method that promises a response leaves the handler nearer to its end. -/
theorem Called.awaits_nearer {called : Called} {m : Nat} (due : called.due = some answer) :
    called.awaits ≠ .rejected ∧ left m n called.awaits < left m n .firstValue := by
  cases called with
  | throws message => cases due
  | empty =>
    refine ⟨by simp [awaits], ?_⟩
    simp only [awaits, left]
    omega
  | returns reply =>
    refine ⟨by simp [awaits], ?_⟩
    simp only [awaits, left]
    omega
  | save declared =>
    refine ⟨by simp [awaits], ?_⟩
    simp only [awaits, left]
    omega

/-- A step of an accepted stream brings the handler nearer to its end. -/
theorem Inv.progress (h : Inv decode call sink messages failure s) (closes : sink.closes = true)
    (due : Due decode call messages answer) (ended : answer n = .done)
    (values : ∀ k, k < n → sink.takes k = true ∧ ∃ chunk, answer k = .value chunk)
    (alive : s.at_ ≠ .rejected) {a : Act}
    (moved : Protocols.step decode call sink s a = some s') :
    s'.at_ ≠ .rejected ∧ measure messages.length n s' < measure messages.length n s := by
  obtain ⟨st, only, called, awaits⟩ := h.handler
  have promised := due
  obtain ⟨called', first', due'⟩ := promised
  cases step_moves moved with
  | stream inside first =>
    have less := Chain.measure_step h.stream.inv inside first
    refine ⟨alive, ?_⟩
    simp only [measure]
    omega
  | head waits answered =>
    rw [only] at answered
    obtain ⟨request, decoded, rfl⟩ := first'
    rcases h.head_answer only answered with ⟨message, head, rfl⟩ | ⟨rfl, -⟩
    · rw [head] at decoded
      obtain ⟨alive, nearer⟩ := Called.awaits_nearer (m := messages.length) (n := n) due'
      rw [handle_decoded decoded]
      exact ⟨alive, measure_lt (waits ▸ nearer) _⟩
    · cases decoded
  | pullTail waits pulled =>
    cases pulled
    have more := Chain.measure_pullUpstream s.chain s.chain.stages.length
    refine ⟨by simp, ?_⟩
    simp only [measure, waits, left]
    omega
  | takeTail waits answered =>
    rw [only] at answered
    rcases h.stream.second_answer only answered with ⟨v, at_, rfl⟩ | ⟨rfl, -⟩
    · have inside := (List.getElem?_eq_some_iff.1 at_).1
      rw [List.length_drop] at inside
      refine ⟨by simp [forward], measure_lt ?_ _⟩
      simp only [waits, forward, left]
      omega
    · refine ⟨by simp [forward], measure_lt ?_ _⟩
      simp only [waits, forward, left]
      omega
  | declareId waits =>
    refine ⟨by simp, measure_lt ?_ _⟩
    simp only [waits, left]
    omega
  | rejects waits =>
    have never := h.promised due waits
    cases never
  | responds waits =>
    refine ⟨by simp, measure_lt ?_ _⟩
    simp only [waits, left]
    omega
  | writes waits value =>
    obtain ⟨rfl, inside⟩ := h.writing due ended waits
    rcases next_chunk ended values inside with ⟨less, -⟩ | ⟨-, done⟩
    · refine ⟨by simp, measure_lt ?_ _⟩
      simp only [waits, left]
      omega
    · rw [done] at value
      cases value
  | breaks waits broken =>
    obtain ⟨rfl, inside⟩ := h.writing due ended waits
    exact absurd broken (unbroken ended values inside)
  | ends waits ended' =>
    refine ⟨by simp, measure_lt ?_ _⟩
    simp only [waits, left]
    omega
  | close waits =>
    refine ⟨by simp [closes], measure_lt ?_ _⟩
    simp only [waits, closes, if_true, left]
    omega

/-- The pump of a stream that does not fail ends no process. -/
theorem Inv.running (h : Inv decode call sink messages (none : Option ε) s) : s.exited = false := by
  obtain ⟨st, only, -, -⟩ := h.handler
  obtain ⟨inp, -, -, failed, -, -⟩ := h.stream.halves only
  cases loop : st.loop with
  | awaiting => simp [Handling.exited, only, loop, Loop.isFailed]
  | finished => simp [Handling.exited, only, loop, Loop.isFailed]
  | failed e => cases (failed e loop).2

theorem chain_quiet (running : s.exited = false) (quiet : Quiet (step decode call sink) (fun _ => True) s) :
    Quiet Chain.step Chain.internal s.chain := by
  intro a inside
  have blocked := proceed_quiet running quiet (.stream a)
  simpa only [proceed, if_pos inside, Option.map_eq_none_iff] using blocked

/-- Where nothing can move and the process is there, the stream has not failed. -/
theorem Inv.unfailing (h : Inv decode call sink messages failure s) (running : s.exited = false)
    (quiet : Quiet (Protocols.step decode call sink) (fun _ => True) s) : failure = none := by
  obtain ⟨st, only, -, -⟩ := h.handler
  have rests := h.stream.pump_rests only (chain_quiet running quiet)
  cases failure with
  | none => rfl
  | some e =>
    rw [Option.elim_some] at rests
    simp [Handling.exited, only, rests, Loop.isFailed] at running

/-- Where nothing can move, the handler of an accepted stream has closed it. -/
theorem Inv.rests (h : Inv decode call sink messages (none : Option ε) s)
    (due : Due decode call messages answer)
    (ended : answer n = .done) (values : ∀ k, k < n → sink.takes k = true ∧ ∃ chunk, answer k = .value chunk)
    (alive : s.at_ ≠ .rejected)
    (quiet : Quiet (Protocols.step decode call sink) (fun _ => True) s) : s.at_ = .closed := by
  obtain ⟨st, only, called, awaits⟩ := h.handler
  have promised := due
  obtain ⟨called', first, due'⟩ := promised
  have blocked := proceed_quiet h.running quiet
  obtain ⟨heads, tails⟩ := h.stream.rests only (chain_quiet h.running quiet)
  cases waits : s.at_ with
  | firstValue =>
    have blocked := blocked .head
    simp only [proceed, waits, only, List.getElem?_cons_zero, Option.bind_some,
      Option.map_eq_none_iff] at blocked
    obtain ⟨request, decoded, -⟩ := first
    cases messages with
    | nil => cases decoded
    | cons message rest =>
      rw [heads, called, served_get] at blocked
      cases blocked
  | response reply =>
    rw [waits] at awaits
    obtain ⟨-, called, first', same⟩ := awaits
    rw [first'.unique first, due'] at same
    have blocked := blocked .settle
    cases reply with
    | pending => cases same
    | rejects => cases same
    | undefined => simp [proceed, waits] at blocked
    | iterable answer => simp [proceed, waits] at blocked
  | pulling declared taken =>
    have blocked := blocked .pullTail
    simp [proceed, waits, Chain.step] at blocked
  | awaiting declared taken =>
    rw [waits] at awaits
    obtain ⟨-, calls, -, -⟩ := awaits
    have length := congrArg List.length tails
    rw [Option.isNone_none, served_length, calls] at length
    have blocked := blocked .takeTail
    simp only [proceed, waits, only, List.getElem?_cons_zero, Option.bind_some, Option.map_eq_none_iff,
      List.getElem?_eq_none_iff] at blocked
    omega
  | promiseId declared =>
    rw [waits] at awaits
    obtain ⟨-, first'⟩ := awaits
    rw [first.unique first'] at due'
    have blocked := blocked .declareId
    cases declared with
    | none => cases due'
    | some id => simp [proceed, waits] at blocked
  | writing answer' k =>
    rw [waits] at awaits
    obtain ⟨rfl, due'', writes⟩ := awaits
    obtain rfl := due''.unique due
    have blocked := blocked .write
    rcases next_chunk ended values (writes.length_le ended) with ⟨-, takes, chunk, value⟩ | ⟨-, done⟩
    · simp [proceed, waits, value, takes] at blocked
    · simp [proceed, waits, done] at blocked
  | closing =>
    have blocked := blocked .close
    simp [proceed, waits] at blocked
  | closed => rfl
  | rejected => exact absurd waits alive

/-- **The handlers**: a handler settles without rejecting exactly for the
streams that it accepts. -/
theorem handles_iff :
    Handles decode call sink messages failure ↔ Accepts decode call sink messages failure := by
  constructor
  · rintro ⟨⟨bound, all⟩, settles⟩
    obtain ⟨acts, s, reached, quiet⟩ := exists_quiet_of_bounded all
    have h : Inv decode call sink messages failure s :=
      run_invariant inv_start (fun _ _ _ h moved => h.step moved) reached
    obtain ⟨running, closed, -⟩ := settles acts s reached quiet
    obtain ⟨st, -, -, awaits⟩ := h.handler
    rw [closed] at awaits
    obtain ⟨⟨answer, due, writes, done⟩, closes⟩ := awaits
    refine ⟨h.unfailing running quiet, closes, answer, s.written.length, due, done,
      fun k less => ⟨writes.taken k less, s.written[k], ?_⟩⟩
    exact writes.value k _ (List.getElem?_eq_getElem less)
  · rintro ⟨rfl, closes, answer, n, due, done, values⟩
    have keep : ∀ s a s', (Inv decode call sink messages (none : Option ε) s ∧ s.at_ ≠ .rejected) →
        step decode call sink s a = some s' →
          (Inv decode call sink messages (none : Option ε) s' ∧ s'.at_ ≠ .rejected) ∧
          measure messages.length n s' < measure messages.length n s := by
      rintro s a s' ⟨h, alive⟩ moved
      obtain ⟨alive', less⟩ := h.progress closes due done values alive moved
      exact ⟨⟨h.step moved, alive'⟩, less⟩
    have start_ : Inv decode call sink messages (none : Option ε) (start messages none) ∧
        (start messages (none : Option ε)).at_ ≠ .rejected := ⟨inv_start, fun never => by cases never⟩
    refine ⟨⟨measure messages.length n (start messages (none : Option ε)), fun acts s reached => ?_⟩,
      fun acts s reached quiet => ?_⟩
    · exact run_length_le (measure messages.length n) keep start_ reached
    · obtain ⟨h, alive⟩ := run_invariant (I := fun s => Inv decode call sink messages (none : Option ε) s ∧
        s.at_ ≠ .rejected) start_
        (fun s a s' h moved => (keep s a s' h moved).1) reached
      have closed := h.rests due done values alive quiet
      obtain ⟨st, -, -, awaits⟩ := h.handler
      rw [closed] at awaits
      exact ⟨h.running, closed, fun _ => awaits.1⟩

end

/-! ## The two protocols -/

/-- The methods of the file protocol. -/
structure FileMethods where
  /-- What the subscribers of `incomingFiles` declare for an upload. -/
  incomingFiles : Schema.Meta → Option String
  retrieve : Schema.Chunk → Called
  getMeta : String → Called

structure GraphMethods where
  resolve : GraphProtocol.Request → Called
  subscriptionResolve : GraphProtocol.Request → Called

/-- The methods before any is set: each throws, and nobody has subscribed. -/
def FileMethods.notSupported : FileMethods where
  incomingFiles _ := none
  retrieve _ := .throws "This node does not support file content retrieval"
  getMeta _ := .throws "This node does not support file meta retrieval"

def GraphMethods.notSupported : GraphMethods where
  resolve _ := .throws "This node does not support graphql"
  subscriptionResolve _ := .throws "This node does not support subscription over graphql"

/-- The switch of the file protocol's handler. -/
def FileMethods.call (methods : FileMethods) : Schema.Request → Called
  | .send info => .save (methods.incomingFiles info)
  | .receive chunk => methods.retrieve chunk
  | .meta_ id => methods.getMeta id
  | .unset => .empty

/-- The branch of the graph protocol's handler. -/
def GraphMethods.call (methods : GraphMethods) (request : GraphProtocol.Request) : Called :=
  match GraphProtocol.resolution request with
  | .resolve request => methods.resolve request
  | .subscriptionResolve request => methods.subscriptionResolve request

/-- **Broken streams**: each of the two handlers settles without rejecting
exactly for the streams that it accepts. -/
theorem broken_streams_iff {ε : Type} (file : FileMethods) (graph : GraphMethods) (sink : Sink)
    (messages : List Bytes)
    (failure : Option ε) :
    (Handles Schema.Request.fromBinary file.call sink messages failure ↔
      Accepts Schema.Request.fromBinary file.call sink messages failure) ∧
    (Handles GraphProtocol.Request.fromBinary graph.call sink messages failure ↔
      Accepts GraphProtocol.Request.fromBinary graph.call sink messages failure) :=
  ⟨handles_iff, handles_iff⟩

/-- A stream that ends before its first message: `firstValue` throws, and the handler rejects. -/
theorem empty_stream_rejects :
    ∃ s, run (step Schema.Request.fromBinary FileMethods.notSupported.call ⟨fun _ => true, true⟩)
        (start [] (none : Option String))
        [.stream .yield, .stream (.pump 0), .stream (.tickFirst 0), .head] = some s ∧
      s.at_ = .rejected ∧
      ¬Handles Schema.Request.fromBinary FileMethods.notSupported.call ⟨fun _ => true, true⟩ []
        (none : Option String) := by
  refine ⟨_, rfl, rfl, fun handles => ?_⟩
  obtain ⟨-, -, answer, n, ⟨called, ⟨request, first, -⟩, -⟩, -⟩ := handles_iff.1 handles
  cases first

end Fula.Protocols
