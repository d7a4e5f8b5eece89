import Fula.Lib.Run
import Fula.RnFula.Bridge

/-!
# Calls over the React Native bridge

`bridge` makes three kinds of call to the web view. Each posts a request with
an id of its own; the answers come back as messages, and `messageHandler` turns
them into events of the emitter that the calls wait on. `RPC` waits for the
event of its id, `RPCStreamResponse` for the `CALLBACK` event of its id, and
`RPCStreamArgs` for the event of its id once its `streamSend` is done, which
sends the CHUNKs while messages keep arriving.
-/

namespace Fula.RnFula.Rpc
set_option autoImplicit false
open Lib EventEmitter

/-- In the order of their numbers. -/
inductive MessageType where
  | RPCRequestStream
  | RPCRequest
  | RPCResponse
  | StreamChunk
  | Log
  deriving DecidableEq, Repr

inductive RPCStatusType where
  | done
  | failed
  deriving DecidableEq, Repr

structure RPCRequest where
  id : String
  function : String
  args : List String
  type : MessageType
  deriving DecidableEq, Repr

structure RPCResponse where
  id : String
  payload : String
  status : RPCStatusType
  deriving DecidableEq, Repr

/-- What the native side posts. -/
inductive Posted (M : Type) where
  | request (request : RPCRequest)
  | chunk (chunk : Chunk M)

/-- What `messageHandler` is given. -/
inductive Message (M : Type) where
  | log (message : String)
  | rpcResponse (response : RPCResponse)
  | streamChunk (data : Chunk M)
  /-- Any other type: the handler throws. -/
  | other

/-- The argument of an event. -/
inductive Payload (M : Type) where
  | response (response : RPCResponse)
  | source (source : Source M)
  | data (data : String)
  /-- `{source, meta}` of something that has neither. -/
  | hollow
  deriving DecidableEq

inductive Callback where
  /-- `if (data.status === failed) return reject; return resolve(data)` of call `i`. -/
  | settle (i : Nat)
  /-- `resolve({source, meta})` of call `i`. -/
  | resolve (i : Nat)
  | next (k : Nat)
  | error (k : Nat)
  /-- `emitter.removeAllListeners(data.id); observer.complete()`. -/
  | complete (k : Nat) (id : String)
  deriving DecidableEq

inductive Kind where
  | RPC
  | RPCStreamArgs
  | RPCStreamResponse
  deriving DecidableEq, Repr

inductive Settled (M : Type) where
  | fulfilled (value : Payload M)
  | rejected
  deriving DecidableEq

structure Call (M : Type) where
  kind : Kind
  id : String
  /-- The `meta` of its `streamSend`, until that is done. -/
  sending : Option M := none
  deriving DecidableEq

/-- The parties that the emitter's callbacks tell. -/
structure Parties (M : Type) where
  calls : List (Call M) := []
  /-- What the promise of each call is settled with. -/
  promises : List (Option (Settled M)) := []
  observers : List (Observer (Payload M)) := []
  posted : List (Posted M) := []

abbrev Native (M : Type) := EventEmitter String Callback × Parties M

variable {M : Type}

namespace Parties

def open_ (c : Call M) (p : Parties M) : Parties M :=
  { p with calls := p.calls ++ [c], promises := p.promises ++ [none] }

/-- A settled promise stays as it is. -/
def settle (i : Nat) (settled : Settled M) (p : Parties M) : Parties M :=
  { p with promises := p.promises.modify i fun before => before.or (some settled) }

def sent (i : Nat) (p : Parties M) : Parties M :=
  { p with calls := p.calls.modify i fun c => { c with sending := none } }

def tellObserver (k : Nat) (told : Observer (Payload M) → Observer (Payload M)) (p : Parties M) : Parties M :=
  { p with observers := p.observers.modify k told }

def post (m : Posted M) (p : Parties M) : Parties M := { p with posted := p.posted ++ [m] }

end Parties

/-- `data.status === RPCStatusType.failed`. -/
def Payload.failed : Payload M → Bool
  | .response r => r.status = .failed
  | _ => false

/-- `({source, meta}) => ({source, meta})`. -/
def Payload.destructured : Payload M → Payload M
  | .source s => .source s
  | _ => .hollow

def invoke (payload : Payload M) : Invoke String Callback (Parties M)
  | .settle i, (e, p) =>
    -- `return reject` hands the function out without calling it.
    if payload.failed then ((e, p), false)
    else ((e, p.settle i (.fulfilled payload)), false)
  | .resolve i, (e, p) => ((e, p.settle i (.fulfilled payload.destructured)), false)
  | .next k, (e, p) => ((e, p.tellObserver k (·.next payload)), false)
  | .error k, (e, p) => ((e, p.tellObserver k (·.finish .failed)), false)
  | .complete k id, (e, p) => ((e.removeAllListeners id, p.tellObserver k (·.finish .completed)), false)

def streamListener (data : Chunk M) (n : Native M) : Native M :=
  match data.status with
  | .START => emit (invoke (.source ⟨data.id, data.meta_⟩)) n (data.id ++ "CALLBACK")
  | .CHUNK => emit (invoke (.data data.data)) n (data.id ++ "CHUNK")
  | .END => emit (invoke (.data data.data)) n (data.id ++ "END")

def messageHandler (n : Native M) : Message M → Native M
  | .log _ => n
  | .rpcResponse response => emit (invoke (.response response)) n response.id
  | .streamChunk data => streamListener data n
  | .other => n

/-- The `Observable`'s subscribe function, for a new observer. -/
def subscribe (id : String) (n : Native M) : Native M :=
  let k := n.2.observers.length
  (((n.1.on (id ++ "CHUNK") (.next k)).once (id ++ "error") (.error k)).once (id ++ "END") (.complete k id),
    { n.2 with observers := n.2.observers ++ [{}] })

def RPC (id func : String) (args : List String) (n : Native M) : Native M :=
  (n.1.once id (.settle n.2.calls.length),
    (n.2.post (.request ⟨id, func, args, .RPCRequest⟩)).open_ { kind := .RPC, id })

def RPCStreamResponse (id func : String) (args : List String) (n : Native M) : Native M :=
  (n.1.once (id ++ "CALLBACK") (.resolve n.2.calls.length),
    (n.2.post (.request ⟨id, func, args, .RPCRequestStream⟩)).open_ { kind := .RPCStreamResponse, id })

/-- Up to the first `await iterator.next()` of `streamSend`. -/
def RPCStreamArgs (id func : String) (args : List String) (info : M) (n : Native M) : Native M :=
  (n.1, ((n.2.post (.request ⟨id, func, args, .RPCRequest⟩)).post (.chunk ⟨id, info, "", .START⟩)).open_
    { kind := .RPCStreamArgs, id, sending := some info })

/-- The iterator of call `i` answers `streamSend`: it goes on to its next
`iterator.next()`, or is done, and `RPCStreamArgs` begins to listen. -/
def answered (i : Nat) (c : Call M) (info : M) (n : Native M) : Option String → Native M
  | some value => (n.1, n.2.post (.chunk ⟨c.id, info, value, .CHUNK⟩))
  | none => (n.1.once c.id (.settle i),
    (n.2.post (.chunk ⟨c.id, info, "", .END⟩)).sent i)

/-- What happens at the native side. A promise is awaited in a microtask, so no
message comes between the last step of `streamSend` and the listener. -/
inductive Act (M : Type) where
  | RPC (id func : String) (args : List String)
  | RPCStreamArgs (id func : String) (args : List String) (info : M)
  | RPCStreamResponse (id func : String) (args : List String)
  /-- The iterator of call `i` gives its next value, or is done. -/
  | answers (i : Nat) (value : Option String)
  /-- The iterator of call `i` throws. -/
  | throws (i : Nat)
  | message (m : Message M)
  /-- The source that call `i` was answered with is subscribed to. -/
  | subscribe (i : Nat)

def step (n : Native M) : Act M → Option (Native M)
  | .RPC id func args => some (RPC id func args n)
  | .RPCStreamArgs id func args info => some (RPCStreamArgs id func args info n)
  | .RPCStreamResponse id func args => some (RPCStreamResponse id func args n)
  | .answers i value => match n.2.calls[i]? with
    | some c => c.sending.map fun info => answered i c info n value
    | none => none
  | .throws i => match n.2.calls[i]? with
    | some c => c.sending.map fun _ => (n.1, (n.2.settle i .rejected).sent i)
    | none => none
  | .message m => some (messageHandler n m)
  | .subscribe i => match n.2.calls[i]? with
    | some c => match c.kind, n.2.promises[i]? with
      | .RPCStreamResponse, some (some (.fulfilled (.source source))) => some (subscribe source.id n)
      | _, _ => none
    | none => none

/-- The native side before any call. -/
def init : Native M := ({}, {})

/-! ## Who listens for what -/

/-- A listener was registered for a call that exists, under that call's name. -/
def Registered (calls : List (Call M)) (l : Listener String Callback) : Prop :=
  match l.callback with
  | .settle i => ∃ c, calls[i]? = some c ∧ l.name = c.id ∧ c.kind ≠ .RPCStreamResponse ∧ c.sending = none
  | .resolve i => ∃ c, calls[i]? = some c ∧ l.name = c.id ++ "CALLBACK" ∧ c.kind = .RPCStreamResponse
  | .complete _ id => ∃ (i : Nat) (c : Call M), calls[i]? = some c ∧ c.id = id ∧ c.kind = .RPCStreamResponse
  | .next _ => True
  | .error _ => True

theorem Registered.settle {calls : List (Call M)} {l : Listener String Callback} (registered : Registered calls l)
    {i : Nat} (settles : l.callback = .settle i) {c : Call M} (at_ : calls[i]? = some c) :
    l.name = c.id ∧ c.kind ≠ .RPCStreamResponse ∧ c.sending = none := by
  simp only [Registered, settles] at registered
  obtain ⟨c', at', what⟩ := registered
  rw [at_, Option.some.injEq] at at'
  exact at' ▸ what

theorem Registered.resolve {calls : List (Call M)} {l : Listener String Callback} (registered : Registered calls l)
    {i : Nat} (resolves : l.callback = .resolve i) {c : Call M} (at_ : calls[i]? = some c) :
    l.name = c.id ++ "CALLBACK" ∧ c.kind = .RPCStreamResponse := by
  simp only [Registered, resolves] at registered
  obtain ⟨c', at', what⟩ := registered
  rw [at_, Option.some.injEq] at at'
  exact at' ▸ what

structure Sound (n : Native M) : Prop where
  lengths : n.2.promises.length = n.2.calls.length
  listeners : ∀ l ∈ n.1.listeners, Registered n.2.calls l
  sending : ∀ c ∈ n.2.calls, c.sending ≠ none → c.kind = .RPCStreamArgs
  /-- The source of an answer is the transfer of the call. -/
  source : ∀ (i : Nat) (c : Call M) (source : Source M), n.2.calls[i]? = some c → c.kind = .RPCStreamResponse →
    n.2.promises[i]? = some (some (.fulfilled (.source source))) → source.id = c.id

theorem sound_init : Sound (init : Native M) where
  lengths := rfl
  listeners := by simp [init]
  sending := by simp [init]
  source := by simp [init]

theorem settle_getElem? (i j : Nat) (settled : Settled M) (p : Parties M) :
    (p.settle i settled).promises[j]? =
      if i = j then p.promises[j]?.map (·.or (some settled)) else p.promises[j]? := by
  simp only [Parties.settle, List.getElem?_modify]
  split <;> simp

/-- A callback changes no call and registers nothing. -/
theorem invoke_frame (payload : Payload M) (callback : Callback) (e : EventEmitter String Callback) (p : Parties M) :
    (invoke payload callback (e, p)).1.2.calls = p.calls ∧
      (invoke payload callback (e, p)).1.2.promises.length = p.promises.length ∧
      (invoke payload callback (e, p)).2 = false ∧
      ∀ l ∈ (invoke payload callback (e, p)).1.1.listeners, l ∈ e.listeners := by
  cases callback with
  | settle i =>
    simp only [invoke]
    split
    · exact ⟨rfl, rfl, rfl, fun _ there => there⟩
    · exact ⟨rfl, by simp [Parties.settle], rfl, fun _ there => there⟩
  | resolve i => exact ⟨rfl, by simp [invoke, Parties.settle], rfl, fun _ there => there⟩
  | next k => exact ⟨rfl, rfl, rfl, fun _ there => there⟩
  | error k => exact ⟨rfl, rfl, rfl, fun _ there => there⟩
  | complete k id => exact ⟨rfl, rfl, rfl, fun _ there => (List.mem_filter.1 there).1⟩

/-- An event leaves the calls as they are, and its listeners are some of those before. -/
structure Frame (n t : Native M) : Prop where
  calls : t.2.calls = n.2.calls
  lengths : t.2.promises.length = n.2.promises.length
  listeners : ∀ l ∈ t.1.listeners, l ∈ n.1.listeners

theorem Frame.called {n t : Native M} (frame : Frame n t) (payload : Payload M) (l : Listener String Callback) :
    Frame n (EventEmitter.call (invoke payload) t l).1 := by
  obtain ⟨e, called, fewer, -⟩ := call_eq (invoke payload) t l
  obtain ⟨calls, lengths, -, kept⟩ := invoke_frame payload l.callback e t.2
  rw [called]
  exact ⟨calls.trans frame.calls, lengths.trans frame.lengths,
    fun m there => frame.listeners m (fewer m (kept m there))⟩

theorem frame_emit (payload : Payload M) (n : Native M) (name : String) :
    Frame n (EventEmitter.emit (invoke payload) n name) :=
  emit_keeps ⟨rfl, rfl, fun _ there => there⟩ fun l _ _ frame => frame.called payload l

/-- The source that an event carries is that of its name. -/
def Fits (name : String) (payload : Payload M) : Prop :=
  ∀ source, payload = .source source → name = source.id ++ "CALLBACK"

/-- What a callback does to the promise of call `i`. -/
theorem invoke_promise (payload : Payload M) (callback : Callback) (e : EventEmitter String Callback) (p : Parties M)
    (i : Nat) :
    (callback = .settle i ∧ payload.failed = false ∧ (invoke payload callback (e, p)).1.2.promises[i]? =
      p.promises[i]?.map (·.or (some (.fulfilled payload)))) ∨
    (callback = .resolve i ∧ (invoke payload callback (e, p)).1.2.promises[i]? =
      p.promises[i]?.map (·.or (some (.fulfilled payload.destructured)))) ∨
    ((invoke payload callback (e, p)).1.2.promises[i]? = p.promises[i]? ∧
      (callback = .settle i → payload.failed = true) ∧ callback ≠ .resolve i) := by
  cases callback with
  | settle j =>
    by_cases failed : payload.failed = true
    · exact .inr (.inr ⟨by simp [invoke, failed], fun _ => failed, by simp⟩)
    · by_cases same : j = i
      · exact .inl ⟨by rw [same], by simpa using failed, by simp [invoke, failed, settle_getElem?, same]⟩
      · exact .inr (.inr ⟨by simp [invoke, failed, settle_getElem?, same], by simp [same], by simp⟩)
  | resolve j =>
    by_cases same : j = i
    · exact .inr (.inl ⟨by rw [same], by simp [invoke, settle_getElem?, same]⟩)
    · exact .inr (.inr ⟨by simp [invoke, settle_getElem?, same], by simp, by simp [same]⟩)
  | next k => exact .inr (.inr ⟨rfl, by simp, by simp⟩)
  | error k => exact .inr (.inr ⟨rfl, by simp, by simp⟩)
  | complete k id => exact .inr (.inr ⟨rfl, by simp, by simp⟩)

/-- What a listener does to the promise of call `i`. -/
theorem call_promise (payload : Payload M) (t : Native M) (l : Listener String Callback) (i : Nat) :
    (l.callback = .settle i ∧ payload.failed = false ∧ (EventEmitter.call (invoke payload) t l).1.2.promises[i]? =
      t.2.promises[i]?.map (·.or (some (.fulfilled payload)))) ∨
    (l.callback = .resolve i ∧ (EventEmitter.call (invoke payload) t l).1.2.promises[i]? =
      t.2.promises[i]?.map (·.or (some (.fulfilled payload.destructured)))) ∨
    ((EventEmitter.call (invoke payload) t l).1.2.promises[i]? = t.2.promises[i]? ∧
      (l.callback = .settle i → payload.failed = true) ∧ l.callback ≠ .resolve i) := by
  obtain ⟨e, called, -, -⟩ := call_eq (invoke payload) t l
  rw [called]
  exact invoke_promise payload l.callback e t.2 i

theorem fulfilled_or {before : Option (Option (Settled M))} {v w : Payload M}
    (now : before.map (·.or (some (.fulfilled v))) = some (some (.fulfilled w))) :
    before = some (some (.fulfilled w)) ∨ v = w := by
  simp only [Option.map_eq_some_iff] at now
  obtain ⟨was, rfl, now⟩ := now
  cases was with
  | some settled => exact .inl (by simpa using now)
  | none => exact .inr (by simpa using now)

theorem destructured_eq {payload : Payload M} {source : Source M} (same : payload.destructured = .source source) :
    payload = .source source := by
  cases payload <;> simp_all [Payload.destructured]

/-- **What an event keeps.** -/
theorem Sound.emit {n : Native M} (sound : Sound n) {name : String} {payload : Payload M} (fits : Fits name payload) :
    Sound (EventEmitter.emit (invoke payload) n name) := by
  let Sources (t : Native M) : Prop := ∀ (i : Nat) (c : Call M) (source : Source M), n.2.calls[i]? = some c →
    c.kind = .RPCStreamResponse → t.2.promises[i]? = some (some (.fulfilled (.source source))) → source.id = c.id
  have sources : Sources (EventEmitter.emit (invoke payload) n name) := by
    refine emit_keeps (P := Sources) sound.source ?_
    intro l member t sources
    obtain ⟨there, named⟩ := mem_listenersOf.1 member
    have registered := sound.listeners l there
    intro i c source at_ kind fulfilled
    rcases call_promise payload t l i with ⟨settles, -, -⟩ | ⟨resolves, now⟩ | ⟨same, -, -⟩
    · obtain ⟨-, other, -⟩ := registered.settle settles at_
      exact absurd kind other
    · obtain ⟨suffixed, -⟩ := registered.resolve resolves at_
      rcases fulfilled_or (now ▸ fulfilled) with before | given
      · exact sources i c source at_ kind before
      · have same := fits source (destructured_eq given)
        rw [← named, suffixed, String.append_left_inj] at same
        exact same.symm
    · exact sources i c source at_ kind (same ▸ fulfilled)
  have frame := frame_emit payload n name
  constructor
  · rw [frame.lengths, frame.calls, sound.lengths]
  · intro l there
    rw [frame.calls]
    exact sound.listeners l (frame.listeners l there)
  · rw [frame.calls]
    exact sound.sending
  · rw [frame.calls]
    exact sources

/-- The calls only grow: one that was made stays, and once `streamSend` is done it is done. -/
def Extends (calls calls' : List (Call M)) : Prop :=
  ∀ (i : Nat) (c : Call M), calls[i]? = some c →
    ∃ c', calls'[i]? = some c' ∧ c'.id = c.id ∧ c'.kind = c.kind ∧ (c.sending = none → c'.sending = none)

theorem Extends.refl (calls : List (Call M)) : Extends calls calls :=
  fun _ c at_ => ⟨c, at_, rfl, rfl, fun done => done⟩

theorem Extends.trans {as bs cs : List (Call M)} (first : Extends as bs) (second : Extends bs cs) : Extends as cs := by
  intro i c at_
  obtain ⟨d, at_, id, kind, done⟩ := first i c at_
  obtain ⟨d', at_, id', kind', done'⟩ := second i d at_
  exact ⟨d', at_, id'.trans id, kind'.trans kind, fun sent => done' (done sent)⟩

theorem extends_append (calls : List (Call M)) (c : Call M) : Extends calls (calls ++ [c]) := by
  intro i c' at_
  exact ⟨c', List.getElem?_append_left (List.getElem?_eq_some_iff.1 at_).1 ▸ at_, rfl, rfl, fun done => done⟩

theorem extends_sent (p : Parties M) (i : Nat) : Extends p.calls (p.sent i).calls := by
  intro j c at_
  by_cases same : i = j
  · exact ⟨{ c with sending := none }, by simp [Parties.sent, same, at_], rfl, rfl, fun _ => rfl⟩
  · exact ⟨c, by simp [Parties.sent, same, at_], rfl, rfl, fun done => done⟩

theorem Registered.extends {calls calls' : List (Call M)} {l : Listener String Callback}
    (registered : Registered calls l) (grown : Extends calls calls') : Registered calls' l := by
  unfold Registered at *
  split at registered
  · obtain ⟨c, at_, named, kind, done⟩ := registered
    obtain ⟨c', at', id, kind', done'⟩ := grown _ c at_
    exact ⟨c', at', named.trans id.symm, kind' ▸ kind, done' done⟩
  · obtain ⟨c, at_, named, kind⟩ := registered
    obtain ⟨c', at', id, kind', -⟩ := grown _ c at_
    exact ⟨c', at', id ▸ named, kind'.trans kind⟩
  · obtain ⟨i, c, at_, named, kind⟩ := registered
    obtain ⟨c', at', id, kind', -⟩ := grown i c at_
    exact ⟨i, c', at', id.trans named, kind'.trans kind⟩
  · trivial
  · trivial

/-! ## What a step does -/

/-- A message is an event, or nothing. -/
theorem messageHandler_cases (n : Native M) (m : Message M) :
    (∃ r, m = .rpcResponse r ∧ messageHandler n m = emit (invoke (.response r)) n r.id) ∨
    (∃ name payload, Fits name payload ∧ payload.failed = false ∧ messageHandler n m = emit (invoke payload) n name) ∨
    messageHandler n m = n := by
  cases m with
  | log s => exact .inr (.inr rfl)
  | rpcResponse r => exact .inl ⟨r, rfl, rfl⟩
  | streamChunk data =>
    refine .inr (.inl ?_)
    simp only [messageHandler, streamListener]
    split
    · exact ⟨_, .source _, fun source given => (by cases given; rfl), rfl, rfl⟩
    · exact ⟨_, .data _, fun source given => (by cases given), rfl, rfl⟩
    · exact ⟨_, .data _, fun source given => (by cases given), rfl, rfl⟩
  | other => exact .inr (.inr rfl)

section
variable {n n' : Native M} {i : Nat}

theorem step_answers {value : Option String} (moved : step n (.answers i value) = some n') :
    ∃ c info, n.2.calls[i]? = some c ∧ c.sending = some info ∧ n' = answered i c info n value := by
  simp only [step] at moved
  split at moved
  · next c at_ =>
    obtain ⟨info, sending, rfl⟩ := Option.map_eq_some_iff.1 moved
    exact ⟨c, info, at_, sending, rfl⟩
  · cases moved

theorem step_throws (moved : step n (.throws i) = some n') : n' = (n.1, (n.2.settle i .rejected).sent i) := by
  simp only [step] at moved
  split at moved
  · obtain ⟨info, -, rfl⟩ := Option.map_eq_some_iff.1 moved
    rfl
  · cases moved

theorem step_subscribe (moved : step n (.subscribe i) = some n') :
    ∃ c source, n.2.calls[i]? = some c ∧ c.kind = .RPCStreamResponse ∧
      n.2.promises[i]? = some (some (.fulfilled (.source source))) ∧ n' = subscribe source.id n := by
  simp only [step] at moved
  split at moved
  · next c at_ =>
    split at moved
    · next source kind fulfilled => cases moved; exact ⟨c, source, at_, kind, fulfilled, rfl⟩
    · cases moved
  · cases moved

end

section Sound
variable {n : Native M} (sound : Sound n)
include sound

theorem Sound.post (m : Posted M) : Sound (n.1, n.2.post m) :=
  ⟨sound.lengths, sound.listeners, sound.sending, sound.source⟩

theorem Sound.open_ {c : Call M} (kind : c.sending ≠ none → c.kind = .RPCStreamArgs)
    {e : EventEmitter String Callback}
    (listeners : ∀ l ∈ e.listeners, l ∈ n.1.listeners ∨ Registered (n.2.calls ++ [c]) l) :
    Sound (e, n.2.open_ c) := by
  constructor
  · simp [Parties.open_, sound.lengths]
  · intro l there
    rcases listeners l there with old | new
    · exact (sound.listeners l old).extends (extends_append _ c)
    · exact new
  · intro c' member
    rcases List.mem_append.1 member with old | new
    · exact sound.sending c' old
    · rw [List.mem_singleton.1 new]; exact kind
  · intro i c' source at_ kind' fulfilled
    simp only [Parties.open_] at at_ fulfilled
    rcases Nat.lt_or_ge i n.2.calls.length with old | new
    · rw [List.getElem?_append_left old] at at_
      rw [List.getElem?_append_left (sound.lengths ▸ old)] at fulfilled
      exact sound.source i c' source at_ kind' fulfilled
    · rw [List.getElem?_append_right (sound.lengths ▸ new)] at fulfilled
      simp [List.getElem?_singleton] at fulfilled

theorem Sound.sent (i : Nat) : Sound (n.1, n.2.sent i) := by
  constructor
  · simp [Parties.sent, sound.lengths]
  · intro l there
    exact (sound.listeners l there).extends (extends_sent _ i)
  · intro c member unsent
    obtain ⟨j, at_⟩ := List.mem_iff_getElem?.1 member
    simp only [Parties.sent, List.getElem?_modify, Option.map_eq_map, Option.map_eq_some_iff] at at_
    obtain ⟨c', at_, rfl⟩ := at_
    split at unsent
    · exact absurd rfl unsent
    · next apart =>
      simp only [apart, if_false]
      exact sound.sending c' (List.mem_of_getElem? at_) unsent
  · intro j c source at_ kind fulfilled
    simp only [Parties.sent, List.getElem?_modify, Option.map_eq_map, Option.map_eq_some_iff] at at_
    obtain ⟨c', at_, rfl⟩ := at_
    have same := sound.source j c' source at_ (by split at kind <;> exact kind) fulfilled
    rw [same]
    split <;> rfl

theorem Sound.reject (i : Nat) : Sound (n.1, n.2.settle i .rejected) := by
  refine ⟨by simp [Parties.settle, sound.lengths], sound.listeners, sound.sending, ?_⟩
  intro j c source at_ kind fulfilled
  apply sound.source j c source at_ kind
  simp only [settle_getElem?] at fulfilled
  split at fulfilled
  · simp only [Option.map_eq_some_iff] at fulfilled
    obtain ⟨was, before, now⟩ := fulfilled
    cases was with
    | some settled => rw [before]; simpa using now
    | none => simp at now
  · exact fulfilled

theorem Sound.listening {e : EventEmitter String Callback}
    (listeners : ∀ l ∈ e.listeners, l ∈ n.1.listeners ∨ Registered n.2.calls l) (p : Parties M)
    (calls : p.calls = n.2.calls) (promises : p.promises = n.2.promises) : Sound (e, p) := by
  constructor
  · simp only [calls, promises, sound.lengths]
  · intro l there
    simp only [calls]
    exact (listeners l there).elim (sound.listeners l) fun new => new
  · simp only [calls]; exact sound.sending
  · simp only [calls, promises]; exact sound.source

/-- Only the call that sends its arguments sends. -/
theorem Sound.sent_of_stream {i : Nat} {c : Call M} (at_ : n.2.calls[i]? = some c)
    (kind : c.kind = .RPCStreamResponse) : c.sending = none := by
  by_contra sending
  have args := sound.sending c (List.mem_of_getElem? at_) sending
  rw [kind] at args
  cases args

theorem Sound.message (m : Message M) : Sound (messageHandler n m) := by
  rcases messageHandler_cases n m with ⟨r, -, same⟩ | ⟨name, payload, fits, -, same⟩ | same
  · rw [same]; exact sound.emit fun source given => by cases given
  · rw [same]; exact sound.emit fits
  · rw [same]; exact sound

theorem Sound.subscribe {i : Nat} {c : Call M} {source : Source M} (at_ : n.2.calls[i]? = some c)
    (kind : c.kind = .RPCStreamResponse) (fulfilled : n.2.promises[i]? = some (some (.fulfilled (.source source)))) :
    Sound (subscribe source.id n) := by
  refine sound.listening (fun l there => ?_) _ rfl rfl
  simp only [EventEmitter.once, EventEmitter.on, mem_add] at there
  rcases there with ((old | rfl) | rfl) | rfl
  · exact .inl old
  · exact .inr trivial
  · exact .inr trivial
  · exact .inr ⟨i, c, at_, (sound.source i c source at_ kind fulfilled).symm, kind⟩

end Sound

/-- **What every step keeps.** -/
theorem Sound.step {n n' : Native M} (sound : Sound n) {a : Act M} (moved : step n a = some n') : Sound n' := by
  cases a with
  | RPC id func args =>
    cases moved
    refine (sound.post _).open_ (by simp) fun l there => ?_
    rcases mem_add.1 there with old | rfl
    · exact .inl old
    · exact .inr ⟨{ kind := .RPC, id }, by simp [Parties.post], rfl, by simp, rfl⟩
  | RPCStreamArgs id func args info =>
    cases moved
    exact ((sound.post _).post _).open_ (fun _ => rfl) fun l there => .inl there
  | RPCStreamResponse id func args =>
    cases moved
    refine (sound.post _).open_ (by simp) fun l there => ?_
    rcases mem_add.1 there with old | rfl
    · exact .inl old
    · exact .inr ⟨{ kind := .RPCStreamResponse, id }, by simp [Parties.post], rfl, rfl⟩
  | answers i value =>
    obtain ⟨c, info, at_, sending, rfl⟩ := step_answers moved
    cases value with
    | some value => exact sound.post _
    | none =>
      refine ((sound.post _).sent i).listening (fun l there => ?_) _ rfl rfl
      rcases mem_add.1 there with old | rfl
      · exact .inl old
      · have kind := sound.sending c (List.mem_of_getElem? at_) (by simp [sending])
        exact .inr ⟨{ c with sending := none }, by simp [Parties.sent, Parties.post, at_], rfl, by simp [kind], rfl⟩
  | throws i =>
    rw [step_throws moved]
    exact (sound.reject i).sent i
  | message m => cases moved; exact sound.message m
  | subscribe i =>
    obtain ⟨c, source, at_, kind, fulfilled, rfl⟩ := step_subscribe moved
    exact sound.subscribe at_ kind fulfilled

theorem step_extends {n n' : Native M} {a : Act M} (moved : step n a = some n') : Extends n.2.calls n'.2.calls := by
  have emitted (name : String) (payload : Payload M) :
      Extends n.2.calls (EventEmitter.emit (invoke payload) n name).2.calls := by
    rw [(frame_emit payload n name).calls]
    exact .refl _
  cases a with
  | RPC id func args => cases moved; exact extends_append _ _
  | RPCStreamArgs id func args info => cases moved; exact extends_append _ _
  | RPCStreamResponse id func args => cases moved; exact extends_append _ _
  | answers i value =>
    obtain ⟨c, info, -, -, rfl⟩ := step_answers moved
    cases value with
    | some value => exact .refl _
    | none => exact extends_sent (n.2.post _) i
  | throws i =>
    rw [step_throws moved]
    exact extends_sent (n.2.settle i .rejected) i
  | message m =>
    cases moved
    rcases messageHandler_cases n m with ⟨r, -, same⟩ | ⟨name, payload, -, -, same⟩ | same
    · rw [same]; exact emitted _ _
    · rw [same]; exact emitted _ _
    · rw [same]; exact .refl _
  | subscribe i =>
    obtain ⟨c, source, -, -, -, rfl⟩ := step_subscribe moved
    exact .refl _

theorem run_extends {n n' : Native M} {acts : List (Act M)} (reached : run step n acts = some n') :
    Extends n.2.calls n'.2.calls :=
  run_invariant (I := fun m => Extends n.2.calls m.2.calls) (.refl _)
    (fun _ _ _ grown moved => grown.trans (step_extends moved)) reached

/-! ## A call that waits -/

/-- The event that settles a call, and the callback that does it. -/
def Call.event (c : Call M) : String :=
  match c.kind with
  | .RPC => c.id
  | .RPCStreamArgs => c.id
  | .RPCStreamResponse => c.id ++ "CALLBACK"

def Call.callback (c : Call M) (i : Nat) : Callback :=
  match c.kind with
  | .RPC => .settle i
  | .RPCStreamArgs => .settle i
  | .RPCStreamResponse => .resolve i

theorem ne_callback (id : String) : id ≠ id ++ "CALLBACK" := by
  intro same
  have lengths := congrArg String.length same
  rw [String.length_append] at lengths
  have letters : "CALLBACK".length = 8 := rfl
  omega

/-- The id of no other call is the event that call `i` waits for. Ids are
random words of one length, so distinct ids suffice. -/
def Own (i : Nat) (n : Native M) : Prop :=
  ∀ (c : Call M) (j : Nat) (c' : Call M), n.2.calls[i]? = some c → n.2.calls[j]? = some c' → c'.id = c.event → j = i

theorem Own.before {i : Nat} {n n' : Native M} {a : Act M} (own : Own i n') (moved : step n a = some n') : Own i n := by
  intro c j c' atI atJ same
  obtain ⟨d, atI', id, kind, -⟩ := step_extends moved i c atI
  obtain ⟨d', atJ', id', -, -⟩ := step_extends moved j c' atJ
  have event : d.event = c.event := by simp only [Call.event, id, kind]
  exact own d j d' atI' atJ' (id'.trans (same.trans event.symm))

/-- Call `i` listens for its event as long as it is pending, but not while it sends. -/
def Listening (i : Nat) (n : Native M) : Prop :=
  ∀ c : Call M, n.2.calls[i]? = some c → n.2.promises[i]? = some none → c.sending = none →
    ∃ l ∈ n.1.listeners, l.name = c.event ∧ l.callback = c.callback i

theorem pending_or {before : Option (Option (Settled M))} {settled : Settled M} :
    before.map (·.or (some settled)) ≠ some none := by
  cases before with
  | none => simp
  | some was => cases was <;> simp

/-- A promise that is pending after a callback was pending before. -/
theorem pending_before {payload : Payload M} {callback : Callback} {e : EventEmitter String Callback} {p : Parties M}
    {i : Nat} (pending : (invoke payload callback (e, p)).1.2.promises[i]? = some none) :
    p.promises[i]? = some none ∧ (callback = .settle i → payload.failed = true) ∧ callback ≠ .resolve i := by
  rcases invoke_promise payload callback e p i with ⟨-, -, now⟩ | ⟨-, now⟩ | ⟨same, other⟩
  · exact absurd (now ▸ pending) pending_or
  · exact absurd (now ▸ pending) pending_or
  · exact ⟨same ▸ pending, other⟩

/-- **What an event keeps of a waiting call**: only a failed response takes its
listener and leaves it pending. -/
theorem Listening.emit {i : Nat} {n : Native M} (listening : Listening i n) (sound : Sound n) (own : Own i n)
    {name : String} {payload : Payload M}
    (quiet : ∀ c : Call M, n.2.calls[i]? = some c → name = c.id → payload.failed = false) :
    Listening i (EventEmitter.emit (invoke payload) n name) := by
  intro c at_ pending sent
  rw [(frame_emit payload n name).calls] at at_
  let Listens (t : Native M) : Prop := (∀ m ∈ t.1.listeners, m ∈ n.1.listeners) ∧
    (t.2.promises[i]? = some none → ∃ m ∈ t.1.listeners, m.name = c.event ∧ m.callback = c.callback i)
  have start : Listens n := ⟨fun _ there => there, fun pending => listening c at_ pending sent⟩
  suffices kept : Listens (EventEmitter.emit (invoke payload) n name) from kept.2 pending
  refine emit_keeps start fun l member t listens => ?_
  obtain ⟨there, named⟩ := mem_listenersOf.1 member
  have registered := sound.listeners l there
  obtain ⟨e, called, fewer, others⟩ := call_eq (invoke payload) t l
  obtain ⟨-, -, -, kept⟩ := invoke_frame payload l.callback e t.2
  rw [called]
  refine ⟨fun m here => listens.1 m (fewer m (kept m here)), fun pending => ?_⟩
  obtain ⟨before, failed, unresolved⟩ := pending_before pending
  obtain ⟨m, here, hisName, his⟩ := listens.2 before
  have apart : m.key ≠ l.key := by
    intro same
    obtain rfl := key_inj (listens.1 m here) there same
    have settles (his : m.callback = .settle i) (hisName : m.name = c.id) : False := by
      have right := quiet c at_ (named.symm.trans hisName)
      rw [failed his] at right
      cases right
    cases kind : c.kind with
    | RPC => exact settles (by simpa [Call.callback, kind] using his) (by simpa [Call.event, kind] using hisName)
    | RPCStreamArgs =>
      exact settles (by simpa [Call.callback, kind] using his) (by simpa [Call.event, kind] using hisName)
    | RPCStreamResponse => exact unresolved (by simpa [Call.callback, kind] using his)
  have stays := others m here apart
  refine ⟨m, ?_, hisName, his⟩
  cases callback : l.callback with
  | settle j =>
    simp only [invoke]
    split <;> exact stays
  | resolve j => exact stays
  | next k => exact stays
  | error k => exact stays
  | complete k id =>
    simp only [Registered, callback] at registered
    obtain ⟨j, c', atJ, hisId, streams⟩ := registered
    refine List.mem_filter.2 ⟨stays, ?_⟩
    simp only [bne_iff_ne, ne_eq]
    -- The ended transfer is another call's, so its id is none that this one waits for.
    intro same
    have event : c'.id = c.event := hisId.trans (same.symm.trans hisName)
    obtain rfl := own c j c' at_ atJ event
    rw [at_, Option.some.injEq] at atJ
    subst atJ
    simp only [Call.event, streams] at event
    exact ne_callback c.id event

theorem Listening.open_ {i : Nat} {n : Native M} (listening : Listening i n) (sound : Sound n) {c : Call M}
    {e : EventEmitter String Callback} (more : ∀ l ∈ n.1.listeners, l ∈ e.listeners)
    (new : c.sending = none → ∃ l ∈ e.listeners, l.name = c.event ∧ l.callback = c.callback n.2.calls.length) :
    Listening i (e, n.2.open_ c) := by
  intro c' at_ pending sent
  simp only [Parties.open_] at at_ pending
  rcases Nat.lt_or_ge i n.2.calls.length with old | late
  · rw [List.getElem?_append_left old] at at_
    rw [List.getElem?_append_left (sound.lengths ▸ old)] at pending
    obtain ⟨l, there, what⟩ := listening c' at_ pending sent
    exact ⟨l, more l there, what⟩
  · obtain ⟨inside, here⟩ := List.getElem?_eq_some_iff.1 at_
    have last : i = n.2.calls.length := by simp at inside; omega
    subst last
    simp only [List.getElem_concat_length] at here
    subst here
    exact new sent

/-- **What every step keeps of a waiting call**, but the response itself. -/
theorem Listening.step {i : Nat} {n n' : Native M} (listening : Listening i n) (sound : Sound n) (own : Own i n)
    {a : Act M} (moved : step n a = some n')
    (unanswered : ∀ (c : Call M) r, n.2.calls[i]? = some c → a = .message (.rpcResponse r) → r.id ≠ c.id) :
    Listening i n' := by
  cases a with
  | RPC id func args =>
    cases moved
    refine Listening.open_ (n := (n.1, n.2.post _)) listening (sound.post _) (fun l there => mem_add.2 (.inl there)) ?_
    exact fun _ => ⟨_, mem_add.2 (.inr rfl), rfl, rfl⟩
  | RPCStreamArgs id func args info =>
    cases moved
    exact Listening.open_ (n := (n.1, (n.2.post _).post _)) listening ((sound.post _).post _) (fun l there => there)
      (by simp)
  | RPCStreamResponse id func args =>
    cases moved
    refine Listening.open_ (n := (n.1, n.2.post _)) listening (sound.post _) (fun l there => mem_add.2 (.inl there)) ?_
    exact fun _ => ⟨_, mem_add.2 (.inr rfl), rfl, rfl⟩
  | answers j value =>
    obtain ⟨d, info, atJ, sending, rfl⟩ := step_answers moved
    have kind := sound.sending d (List.mem_of_getElem? atJ) (by simp [sending])
    cases value with
    | some value => exact listening
    | none =>
      intro c at_ pending sent
      by_cases same : j = i
      · subst same
        simp only [answered, Parties.sent, Parties.post, List.getElem?_modify_eq, atJ, Option.map_eq_map,
          Option.map_some, Option.some.injEq] at at_
        subst at_
        exact ⟨_, mem_add.2 (.inr rfl), by simp [Call.event, kind], by simp [Call.callback, kind]⟩
      · simp only [answered, Parties.sent, Parties.post, ne_eq, same, not_false_eq_true,
          List.getElem?_modify_ne] at at_
        obtain ⟨l, there, what⟩ := listening c at_ pending sent
        exact ⟨l, mem_add.2 (.inl there), what⟩
  | throws j =>
    obtain rfl := step_throws moved
    intro c at_ pending sent
    have settled : (n.2.settle j .rejected).promises[i]? = some none := pending
    rw [settle_getElem?] at settled
    split at settled
    · exact absurd settled pending_or
    · next apart =>
      simp only [Parties.sent, Parties.settle, ne_eq, apart, not_false_eq_true, List.getElem?_modify_ne] at at_
      exact listening c at_ settled sent
  | message m =>
    cases moved
    rcases messageHandler_cases n m with ⟨r, rfl, same⟩ | ⟨name, payload, -, done, same⟩ | same
    · rw [same]; exact listening.emit sound own fun c at_ own => absurd own (unanswered c r at_ rfl)
    · rw [same]; exact listening.emit sound own fun _ _ _ => done
    · rw [same]; exact listening
  | subscribe j =>
    obtain ⟨d, source, -, -, -, rfl⟩ := step_subscribe moved
    intro c at_ pending sent
    obtain ⟨l, there, what⟩ := listening c at_ pending sent
    exact ⟨l, mem_add.2 (.inl (mem_add.2 (.inl (mem_add.2 (.inl there))))), what⟩

/-- In every run, call `i` listens until a response with its id comes. -/
theorem run_listening {before after : List (Act M)} {n₀ n : Native M} {i : Nat} {c : Call M}
    (posted : run step init before = some n₀) (new : n₀.2.calls.length ≤ i) (reached : run step n₀ after = some n)
    (at_ : n.2.calls[i]? = some c) (own : Own i n)
    (unanswered : ∀ r, .message (.rpcResponse r) ∈ after → r.id ≠ c.id) : Sound n ∧ Listening i n := by
  have start : Sound n₀ := run_invariant sound_init (fun _ _ _ sound moved => sound.step moved) posted
  refine run_history (I := fun as m => Sound m ∧ ((∀ d : Call M, m.2.calls[i]? = some d → d.id = c.id) → Own i m →
    (∀ r, .message (.rpcResponse r) ∈ as → r.id ≠ c.id) → Listening i m)) ?_ ?_ reached |>.imp_right fun listening =>
      listening (fun d atD => ?_) own unanswered
  · refine ⟨start, fun _ _ _ d atD => ?_⟩
    rw [List.getElem?_eq_none new] at atD
    cases atD
  · rintro as a m t ⟨sound, listening⟩ moved
    refine ⟨sound.step moved, fun same own unanswered => ?_⟩
    have sameBefore (d : Call M) (atD : m.2.calls[i]? = some d) : d.id = c.id := by
      obtain ⟨d', atD', id, -, -⟩ := step_extends moved i d atD
      exact id.symm.trans (same d' atD')
    have ownBefore := own.before moved
    have before := listening sameBefore ownBefore fun r earlier => unanswered r (by simp [earlier])
    refine before.step sound ownBefore moved ?_
    rintro d r atD rfl
    rw [sameBefore d atD]
    exact unanswered r (by simp)
  · rw [at_, Option.some.injEq] at atD
    exact congrArg Call.id atD.symm

/-- An event whose listeners at most fulfil a pending call, and of which one does. -/
theorem emit_fulfils {n : Native M} {i : Nat} {name : String} {payload v : Payload M} {l : Listener String Callback}
    (pending : n.2.promises[i]? = some none) (heard : l ∈ n.1.listenersOf name)
    (effect : ∀ m ∈ n.1.listenersOf name, ∀ t : Native M,
      (EventEmitter.call (invoke payload) t m).1.2.promises[i]? = t.2.promises[i]? ∨
      (EventEmitter.call (invoke payload) t m).1.2.promises[i]? = t.2.promises[i]?.map (·.or (some (.fulfilled v))))
    (hit : ∀ t : Native M,
      (EventEmitter.call (invoke payload) t l).1.2.promises[i]? = t.2.promises[i]?.map (·.or (some (.fulfilled v)))) :
    (EventEmitter.emit (invoke payload) n name).2.promises[i]? = some (some (.fulfilled v)) := by
  let Fulfilled (t : Native M) : Prop := t.2.promises[i]? = some (some (.fulfilled v))
  let Open (t : Native M) : Prop := t.2.promises[i]? = some none ∨ Fulfilled t
  have fulfils {t : Native M} (before : Open t) :
      t.2.promises[i]?.map (·.or (some (.fulfilled v))) = some (some (.fulfilled v)) := by
    rcases before with before | before <;> rw [before] <;> rfl
  refine emit_reaches (P := Open) (Q := Fulfilled) heard (.inl pending) ?_ ?_ ?_ ?_
  · intro m member t
    obtain ⟨e, called, -, -⟩ := call_eq (invoke payload) t m
    rw [called]
    exact (invoke_frame _ _ e t.2).2.2.1
  · intro m member t before
    rcases effect m member t with same | now
    · exact before.imp same.trans same.trans
    · exact .inr (now.trans (fulfils before))
  · intro t before
    exact (hit t).trans (fulfils before)
  · intro m member t before
    rcases effect m member t with same | now
    · exact same.trans before
    · exact now.trans (fulfils (.inr before))

/-! ## A response -/

/-- The promise of a call of this kind, once a response has come, as the three
functions promise it. -/
def SettledBy (kind : Kind) (r : RPCResponse) (promise : Option (Option (Settled M))) : Prop :=
  match r.status with
  | .failed => promise = some (some .rejected)
  | .done => kind ≠ .RPCStreamResponse → promise = some (some (.fulfilled (.response r)))

/-- A call that listens for responses. -/
def Call.Hears (c : Call M) : Prop := c.kind ≠ .RPCStreamResponse ∧ c.sending = none

section Response
variable {n : Native M} {i : Nat} {c : Call M} (sound : Sound n) (at_ : n.2.calls[i]? = some c) {r : RPCResponse}
  (own : r.id = c.id)
include sound at_ own

/-- A listener of a response either leaves the promise of the call or, if the
call listens and the response is done, fulfils it. -/
theorem response_effect {l : Listener String Callback} (member : l ∈ n.1.listenersOf r.id) (t : Native M) :
    (EventEmitter.call (invoke (.response r)) t l).1.2.promises[i]? = t.2.promises[i]? ∨
    (c.Hears ∧ r.status = .done ∧ (EventEmitter.call (invoke (.response r)) t l).1.2.promises[i]? =
      t.2.promises[i]?.map (·.or (some (.fulfilled (.response r))))) := by
  obtain ⟨there, named⟩ := mem_listenersOf.1 member
  have registered := sound.listeners l there
  rcases call_promise (.response r) t l i with ⟨settles, notFailed, now⟩ | ⟨resolves, -⟩ | ⟨same, -⟩
  · obtain ⟨-, hears⟩ := registered.settle settles at_
    have done : r.status = .done := by
      cases status : r.status with
      | done => rfl
      | failed => simp [Payload.failed, status] at notFailed
    exact .inr ⟨hears, done, now⟩
  · obtain ⟨callback, -⟩ := registered.resolve resolves at_
    exact absurd (own.symm.trans (named.symm.trans callback)) (ne_callback c.id)
  · exact .inl same

/-- What comes while the call does not listen is gone, and so is a failure. -/
theorem response_unheard (pending : n.2.promises[i]? = some none) (deaf : ¬ (c.Hears ∧ r.status = .done)) :
    (messageHandler n (.rpcResponse r)).2.promises[i]? = some none := by
  refine emit_keeps (P := fun t : Native M => t.2.promises[i]? = some none) pending fun l member t pending => ?_
  rcases response_effect sound at_ own member t with same | ⟨hears, done, -⟩
  · exact same.trans pending
  · exact absurd ⟨hears, done⟩ deaf

/-- A call that listens is fulfilled with what is done. -/
theorem response_heard (pending : n.2.promises[i]? = some none) (listening : Listening i n) (hears : c.Hears)
    (done : r.status = .done) :
    (messageHandler n (.rpcResponse r)).2.promises[i]? = some (some (.fulfilled (.response r))) := by
  obtain ⟨kind, sent⟩ := hears
  obtain ⟨l, there, named, settles⟩ := listening c at_ pending sent
  have event : c.event = r.id := by rw [own]; unfold Call.event; split <;> [rfl; rfl; contradiction]
  have callback : c.callback i = .settle i := by unfold Call.callback; split <;> [rfl; rfl; contradiction]
  have heard : l ∈ n.1.listenersOf r.id := mem_listenersOf.2 ⟨there, named.trans event⟩
  refine emit_fulfils pending heard ?_ fun t => ?_
  · intro m member t
    exact (response_effect sound at_ own member t).imp_right fun effect => effect.2.2
  · obtain ⟨e, called, -, -⟩ := call_eq (invoke (.response r)) t l
    rw [called, settles, callback]
    simp only [invoke, Payload.failed, done, reduceCtorEq, decide_false, Bool.false_eq_true, if_false]
    rw [settle_getElem?, if_pos rfl]

end Response

/-- START fulfils the call that waits for its source. -/
theorem start_heard {n : Native M} {i : Nat} {c : Call M} (sound : Sound n) (listening : Listening i n)
    (at_ : n.2.calls[i]? = some c) (pending : n.2.promises[i]? = some none) (kind : c.kind = .RPCStreamResponse)
    (sent : c.sending = none) (info : M) :
    (messageHandler n (.streamChunk ⟨c.id, info, "", .START⟩)).2.promises[i]? =
      some (some (.fulfilled (.source ⟨c.id, info⟩))) := by
  obtain ⟨l, there, named, his⟩ := listening c at_ pending sent
  simp only [Call.event, kind] at named
  simp only [Call.callback, kind] at his
  refine emit_fulfils (l := l) pending (mem_listenersOf.2 ⟨there, named⟩) ?_ fun t => ?_
  · intro m member t
    have registered := sound.listeners m (mem_listenersOf.1 member).1
    rcases call_promise (.source ⟨c.id, info⟩) t m i with ⟨settles, -, -⟩ | ⟨-, now⟩ | ⟨same, -⟩
    · obtain ⟨-, other, -⟩ := registered.settle settles at_
      exact absurd kind other
    · exact .inr now
    · exact .inl same
  · obtain ⟨e, called, -, -⟩ := call_eq (invoke (.source ⟨c.id, info⟩)) t l
    rw [called, his]
    simp only [invoke, Payload.destructured]
    rw [settle_getElem?, if_pos rfl]

/-- **When a response settles its caller**: the first response to a pending call
does so exactly when its status is `done` and the call is not sending: a failure
is returned from the callback and not passed to `reject`, and nobody listens
before `streamSend` is done. -/
theorem response_settles {before after : List (Act M)} {n₀ n : Native M} {i : Nat} {c : Call M}
    (posted : run step init before = some n₀) (new : n₀.2.calls.length ≤ i) (reached : run step n₀ after = some n)
    (at_ : n.2.calls[i]? = some c) (distinct : Own i n) (pending : n.2.promises[i]? = some none)
    (unanswered : ∀ r, .message (.rpcResponse r) ∈ after → r.id ≠ c.id) (r : RPCResponse) (own : r.id = c.id) :
    ∃ n', step n (.message (.rpcResponse r)) = some n' ∧
      (SettledBy c.kind r n'.2.promises[i]? ↔ r.status = .done ∧ c.sending = none) := by
  obtain ⟨sound, listening⟩ := run_listening posted new reached at_ distinct unanswered
  refine ⟨messageHandler n (.rpcResponse r), rfl, ?_⟩
  cases status : r.status with
  | failed =>
    have unheard := response_unheard sound at_ own pending (by simp [status])
    simp [SettledBy, status, unheard]
  | done =>
    simp only [SettledBy, status, true_and]
    by_cases hears : c.Hears
    · have heard := response_heard sound at_ own pending listening hears status
      exact ⟨fun _ => hears.2, fun _ _ => heard⟩
    · have unheard := response_unheard sound at_ own pending (by simp [hears])
      rw [unheard]
      by_cases kind : c.kind = .RPCStreamResponse
      · simp [kind, sound.sent_of_stream at_ kind]
      · have sending : c.sending ≠ none := fun sent => hears ⟨kind, sent⟩
        simp [kind, sending]

/-- An `RPC`, and an `RPCStreamArgs` that has sent its arguments, whose responses are done. -/
theorem response_settles_sample :
    (∃ n', step (RPC "a" "start" [] (init : Native Unit)) (.message (.rpcResponse ⟨"a", "Ready", .done⟩)) = some n' ∧
      SettledBy .RPC ⟨"a", "Ready", .done⟩ n'.2.promises[0]?) ∧
    ∃ n n' : Native Unit,
      run step init [.RPCStreamArgs "b" "sendFile" [] (), .answers 0 (some "AQID"), .answers 0 none] = some n ∧
      step n (.message (.rpcResponse ⟨"b", "id", .done⟩)) = some n' ∧
      SettledBy .RPCStreamArgs ⟨"b", "id", .done⟩ n'.2.promises[0]? := by
  have one : ∀ {n : Native Unit}, n.2.calls.length = 1 → Own 0 n := by
    intro n length c j c' at_ atJ same
    have inside := (List.getElem?_eq_some_iff.1 atJ).1
    omega
  have begun : run step init [] = some (init : Native Unit) := rfl
  constructor
  · obtain ⟨n', moved, settles⟩ := response_settles begun (Nat.le_refl 0)
      (show run step init [.RPC "a" "start" []] = some _ from rfl)
      (show _ = some { kind := .RPC, id := "a" } from rfl) (one rfl) rfl (by simp) ⟨"a", "Ready", .done⟩ rfl
    exact ⟨n', moved, settles.2 ⟨rfl, rfl⟩⟩
  · obtain ⟨n', moved, settles⟩ := response_settles begun (Nat.le_refl 0)
      (show run step init [.RPCStreamArgs "b" "sendFile" [] (), .answers 0 (some "AQID"), .answers 0 none] = some _ from rfl)
      (show _ = some { kind := .RPCStreamArgs, id := "b" } from rfl) (one rfl) rfl (by simp) ⟨"b", "id", .done⟩ rfl
    exact ⟨_, n', rfl, moved, settles.2 ⟨rfl, rfl⟩⟩

/-- A failed response leaves its caller waiting, and a response that comes while
the arguments are still sent is lost. -/
theorem failure_unsettled :
    (∃ n n' : Native Unit, run step init [.RPC "a" "start" []] = some n ∧
      step n (.message (.rpcResponse ⟨"a", "no libp2p", .failed⟩)) = some n' ∧ n.2.promises[0]? = some none ∧
      ¬ SettledBy .RPC ⟨"a", "no libp2p", .failed⟩ n'.2.promises[0]?) ∧
    (∃ n n' : Native Unit, run step init [.RPCStreamArgs "a" "sendFile" [] (), .answers 0 (some "AQID")] = some n ∧
      step n (.message (.rpcResponse ⟨"a", "id", .done⟩)) = some n' ∧ n.2.promises[0]? = some none ∧
      ¬ SettledBy .RPCStreamArgs ⟨"a", "id", .done⟩ n'.2.promises[0]?) := by
  refine ⟨⟨_, _, rfl, rfl, rfl, ?_⟩, ⟨_, _, rfl, rfl, rfl, ?_⟩⟩
  · intro settled
    cases settled
  · intro settled
    cases settled (fun same => by cases same)

end Fula.RnFula.Rpc
