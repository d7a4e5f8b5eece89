import Fula.Lib.Run
import Fula.Lib.EventEmitter

/-!
# Streams over the React Native bridge

A transfer crosses the bridge as one START, its CHUNKs and one END message, all
with its id. `_streamListener` turns each message into an event of the shared
emitter, under a name made of the id and a suffix. At START it makes an
`Observable` whose listeners are registered when it is subscribed to, and
hands it to whoever called `eventBaseStreamToPromise` for the id. The two ends
of the bridge have this code twice: the web view decodes the data of a CHUNK
(`base64.parse`), the native side passes it on, so the decoding is a parameter.
-/

namespace Fula.RnFula
set_option autoImplicit false
open Lib EventEmitter

inductive ChunkStatusType where
  | START
  | CHUNK
  | END
  deriving DecidableEq, Repr

/-- A `StreamChunk` message. -/
structure Chunk (M : Type) where
  id : String
  meta_ : M
  data : String
  status : ChunkStatusType

/-- What `eventBaseStreamToPromise` resolves to; the `Observable` is known by
the transfer id it closes over. -/
structure Source (M : Type) where
  id : String
  meta_ : M
  deriving DecidableEq

/-- The argument of an event. -/
inductive Payload (M : Type) where
  | source (source : Source M)
  | data (data : String)

inductive Callback where
  /-- Resolves promise `p`. -/
  | resolve (p : Nat)
  /-- `val => observer.next(base64.parse(val))` for observer `k`. -/
  | next (k : Nat)
  | error (k : Nat)
  /-- `emitter.removeAllListeners(data.id); observer.complete()`. -/
  | complete (k : Nat) (id : String)
  deriving DecidableEq

inductive Outcome where
  | completed
  | failed
  deriving DecidableEq, Repr

/-- What the observer of one subscription was told. -/
structure Observer (V : Type) where
  values : List V := []
  outcome : Option Outcome := none
  deriving DecidableEq, Repr

/-- A finished subscription is told nothing more. -/
def Observer.next {V : Type} (o : Observer V) (v : V) : Observer V :=
  if o.outcome = none then { o with values := o.values ++ [v] } else o

def Observer.finish {V : Type} (o : Observer V) (outcome : Outcome) : Observer V :=
  if o.outcome = none then { o with outcome := some outcome } else o

/-- The parties that the emitter's callbacks tell. -/
structure Consumers (V M : Type) where
  /-- One for each call of `eventBaseStreamToPromise`. -/
  promises : List (Option (Source M)) := []
  /-- One for each subscription. -/
  observers : List (Observer V) := []
  deriving DecidableEq

abbrev Bridge (V M : Type) := EventEmitter String Callback × Consumers V M

variable {V M : Type}

def tellPromise (p : Nat) (source : Source M) (c : Consumers V M) : Consumers V M :=
  { c with promises := c.promises.modify p fun settled => settled.or (some source) }

def tellObserver (k : Nat) (told : Observer V → Observer V) (c : Consumers V M) : Consumers V M :=
  { c with observers := c.observers.modify k told }

/-- A callback runs, or throws: the argument does not decode, or is none that
this kind of event has. -/
def invoke (parse : String → Option V) (payload : Payload M) : Invoke String Callback (Consumers V M)
  | .resolve p, (e, c) => match payload with
    | .source source => ((e, tellPromise p source c), false)
    | .data _ => ((e, c), true)
  | .next k, (e, c) => match payload with
    | .data val => match parse val with
      | some v => ((e, tellObserver k (·.next v) c), false)
      | none => ((e, c), true)
    | .source _ => ((e, c), true)
  | .error k, (e, c) => ((e, tellObserver k (·.finish .failed) c), false)
  | .complete k id, (e, c) => ((e.removeAllListeners id, tellObserver k (·.finish .completed) c), false)

def eventBaseStreamToPromise (transferId : String) (b : Bridge V M) : Bridge V M :=
  (b.1.once (transferId ++ "CALLBACK") (.resolve b.2.promises.length),
    { b.2 with promises := b.2.promises ++ [none] })

def streamListener (parse : String → Option V) (data : Chunk M) (b : Bridge V M) : Bridge V M :=
  match data.status with
  | .START => emit (invoke parse (.source ⟨data.id, data.meta_⟩)) b (data.id ++ "CALLBACK")
  | .CHUNK => emit (invoke parse (.data data.data)) b (data.id ++ "CHUNK")
  | .END => emit (invoke parse (.data data.data)) b (data.id ++ "END")

/-- The `Observable`'s subscribe function, for a new observer. -/
def subscribe (id : String) (b : Bridge V M) : Bridge V M :=
  let k := b.2.observers.length
  (((b.1.on (id ++ "CHUNK") (.next k)).once (id ++ "error") (.error k)).once (id ++ "END") (.complete k id),
    { b.2 with observers := b.2.observers ++ [{}] })

/-- What happens at one end of the bridge. -/
inductive Act (M : Type) where
  /-- A request handler calls `eventBaseStreamToPromise` and awaits it. -/
  | await_ (transferId : String)
  /-- A message is delivered. -/
  | message (data : Chunk M)
  /-- Who awaited promise `p` starts to iterate the source. -/
  | iterate (p : Nat)

def step (parse : String → Option V) (b : Bridge V M) : Act M → Option (Bridge V M)
  | .await_ transferId => some (eventBaseStreamToPromise transferId b)
  | .message data => some (streamListener parse data b)
  | .iterate p => b.2.promises[p]?.join.map fun source => subscribe source.id b

/-- What `streamSend` posts for an iterator of `values`. -/
def streamSend (transferId : String) (values : List String) (info : M) : List (Chunk M) :=
  ⟨transferId, info, "", .START⟩ :: values.map (⟨transferId, info, ·, .CHUNK⟩) ++ [⟨transferId, info, "", .END⟩]

/-- A fresh end of the bridge. -/
def init : Bridge V M := ({}, {})

/-! ## One transfer -/

variable {parse : String → Option V} {b : Bridge V M} {id : String} {info : M}

/-- Nobody listens under a name of this transfer. -/
structure Unused (id : String) (b : Bridge V M) : Prop where
  callback : b.1.listenersOf (id ++ "CALLBACK") = []
  chunk : b.1.listenersOf (id ++ "CHUNK") = []
  end_ : b.1.listenersOf (id ++ "END") = []

/-- The handler of the transfer awaits promise `p`. -/
structure Awaited (id : String) (p : Nat) (b : Bridge V M) : Prop where
  callback : ∃ l, b.1.listenersOf (id ++ "CALLBACK") = [l] ∧ l.once = true ∧ l.callback = .resolve p
  chunk : b.1.listenersOf (id ++ "CHUNK") = []
  end_ : b.1.listenersOf (id ++ "END") = []
  pending : b.2.promises[p]? = some none

/-- The observer of the transfer is `k`, and it was told `values` so far. -/
structure Subscribed (id : String) (k : Nat) (values : List V) (b : Bridge V M) : Prop where
  chunk : ∃ l, b.1.listenersOf (id ++ "CHUNK") = [l] ∧ l.once = false ∧ l.callback = .next k
  end_ : ∃ l, b.1.listenersOf (id ++ "END") = [l] ∧ l.once = true ∧ l.callback = .complete k id
  observer : b.2.observers[k]? = some { values }

theorem awaited (unused : Unused id b) : Awaited id b.2.promises.length (eventBaseStreamToPromise id b) := by
  constructor
  · exact only_once unused.callback _
  · simp [eventBaseStreamToPromise, listenersOf_once, unused.chunk, String.append_right_inj]
  · simp [eventBaseStreamToPromise, listenersOf_once, unused.end_, String.append_right_inj]
  · simp [eventBaseStreamToPromise]

/-- START hands the source over, and the name of the promise is free again. -/
theorem started (parse : String → Option V) {p : Nat} (waiting : Awaited id p b) (data : Chunk M) (own : data.id = id)
    (status : data.status = .START) :
    ∃ b', streamListener parse data b = b' ∧ Unused id b' ∧
      b'.2.promises[p]? = some (some ⟨id, data.meta_⟩) ∧ b'.2.observers = b.2.observers := by
  obtain ⟨l, only, goes, what⟩ := waiting.callback
  have member : l ∈ b.1.listenersOf (id ++ "CALLBACK") := by rw [only]; exact List.mem_singleton.2 rfl
  obtain ⟨registered, named⟩ := mem_listenersOf.1 member
  refine ⟨_, rfl, ?_⟩
  subst own
  simp only [streamListener, status]
  rw [emit_of_once only goes, what]
  refine ⟨⟨?_, ?_, ?_⟩, ?_, rfl⟩
  · exact listenersOf_removeListener_only only
  · simp only [invoke]
    rw [listenersOf_removeListener_ne registered (by simp [named, String.append_right_inj])]
    exact waiting.chunk
  · simp only [invoke]
    rw [listenersOf_removeListener_ne registered (by simp [named, String.append_right_inj])]
    exact waiting.end_
  · simp [invoke, tellPromise, waiting.pending]

/-- What comes while nobody listens is gone. -/
theorem unheard (unused : Unused id b) {data : Chunk M} (own : data.id = id) (later : data.status ≠ .START) :
    streamListener parse data b = b := by
  subst own
  simp only [streamListener]
  split
  · contradiction
  · exact emit_of_none unused.chunk
  · exact emit_of_none unused.end_

theorem subscribed (unused : Unused id b) : Subscribed id b.2.observers.length [] (subscribe id b) := by
  constructor
  · obtain ⟨l, only, what⟩ := only_on unused.chunk (.next b.2.observers.length)
    exact ⟨l, by simpa [subscribe, listenersOf_once, String.append_right_inj] using only, what⟩
  · apply only_once
    simp [listenersOf_once, listenersOf_on, String.append_right_inj, unused.end_]
  · simp [subscribe]

/-- A CHUNK reaches the observer. -/
theorem Subscribed.heard {k : Nat} {values : List V} (h : Subscribed id k values b) (data : Chunk M) (own : data.id = id)
    (status : data.status = .CHUNK) {v : V} (decodes : parse data.data = some v) :
    Subscribed id k (values ++ [v]) (streamListener parse data b) := by
  obtain ⟨l, only, stays, what⟩ := h.chunk
  subst own
  simp only [streamListener, status]
  rw [emit_of_on only stays, what]
  simp only [invoke, decodes]
  refine ⟨h.chunk, h.end_, ?_⟩
  simp [tellObserver, h.observer, Observer.next]

/-- END completes the observer. -/
theorem Subscribed.finished (parse : String → Option V) {k : Nat} {values : List V} (h : Subscribed id k values b)
    (data : Chunk M) (own : data.id = id) (status : data.status = .END) :
    (streamListener parse data b).2.observers[k]? = some { values, outcome := some .completed } := by
  obtain ⟨l, only, goes, what⟩ := h.end_
  subst own
  simp only [streamListener, status]
  rw [emit_of_once only goes, what]
  simp [invoke, tellObserver, h.observer, Observer.finish]

theorem run_unheard (unused : Unused id b) {ms : List (Chunk M)} (own : ∀ m ∈ ms, m.id = id ∧ m.status ≠ .START) :
    run (step parse) b (ms.map .message) = some b := by
  induction ms with
  | nil => rfl
  | cons m ms ih =>
    obtain ⟨mine, later⟩ := own m (by simp)
    refine run_cons.2 ⟨b, ?_, ih fun m' member => own m' (by simp [member])⟩
    rw [step, unheard unused mine later]

theorem Subscribed.run (info : M) {k : Nat} {told : List V} (h : Subscribed id k told b) {values : List String}
    {bytes : List V}
    (decodes : values.mapM parse = some bytes) :
    ∃ b', Lib.run (step parse) b ((values.map (⟨id, info, ·, .CHUNK⟩)).map .message) = some b' ∧
      Subscribed id k (told ++ bytes) b' := by
  induction values generalizing b told bytes with
  | nil =>
    cases decodes
    exact ⟨b, rfl, by simpa using h⟩
  | cons value values ih =>
    simp only [List.mapM_cons, Option.bind_eq_bind, Option.bind_eq_some_iff, Option.pure_def, Option.some.injEq] at decodes
    obtain ⟨v, first, vs, rest, rfl⟩ := decodes
    have next := h.heard ⟨id, info, value, .CHUNK⟩ rfl rfl first
    obtain ⟨b', reached, final⟩ := ih next rest
    refine ⟨b', run_cons.2 ⟨_, rfl, reached⟩, ?_⟩
    simpa using final

/-- The messages that come before the source is iterated, and those after:
from START on, the rest is cut somewhere in the CHUNKs, or all is early. -/
theorem split_streamSend {values : List String} {before after : List (Chunk M)}
    (split : before ++ after = streamSend id values info) (begun : before ≠ []) :
    (∃ early late, values = early ++ late ∧ before = ⟨id, info, "", .START⟩ :: early.map (⟨id, info, ·, .CHUNK⟩) ∧
      after = late.map (⟨id, info, ·, .CHUNK⟩) ++ [⟨id, info, "", .END⟩]) ∨
    (before = streamSend id values info ∧ after = []) := by
  cases before with
  | nil => contradiction
  | cons m before =>
    simp only [streamSend, List.cons_append, List.cons.injEq] at split
    obtain ⟨rfl, rest⟩ := split
    rcases List.append_eq_append_iff.1 rest with ⟨cut, chunks, tail⟩ | ⟨cut, chunks, tail⟩
    · obtain ⟨early, late, rfl, rfl, rfl⟩ := List.map_eq_append_iff.1 chunks
      exact .inl ⟨early, late, rfl, rfl, tail⟩
    · cases cut with
      | nil => exact .inl ⟨values, [], by simp, by simpa using chunks, by simpa using tail.symm⟩
      | cons m' cut =>
        simp only [List.cons_append, List.cons.injEq, List.nil_eq, List.append_eq_nil_iff] at tail
        obtain ⟨rfl, rfl, rfl⟩ := tail
        exact .inr ⟨by simp [streamSend, chunks], rfl⟩

/-- A transfer whose source, promise `p`, is iterated after the messages `before`. -/
def upload (id : String) (p : Nat) (before after : List (Chunk M)) : List (Act M) :=
  .await_ id :: before.map .message ++ .iterate p :: after.map .message

theorem upload_snoc (id : String) (p : Nat) (before late : List (Chunk M)) (last : Chunk M) :
    upload id p before (late ++ [last]) =
      (.await_ id :: before.map .message ++ [.iterate p]) ++ (late.map .message ++ [.message last]) := by
  simp [upload]

/-- After START and any messages nobody hears, the source is iterated. -/
theorem run_iterated (parse : String → Option V) (info : M) (unused : Unused id b) (ms : List (Chunk M))
    (own : ∀ m ∈ ms, m.id = id ∧ m.status ≠ .START) :
    ∃ b', run (step parse) b (.await_ id :: (⟨id, info, "", .START⟩ :: ms).map .message ++ [.iterate b.2.promises.length]) =
      some b' ∧ Subscribed id b.2.observers.length [] b' := by
  obtain ⟨opened, handed, free, source, same⟩ :=
    started parse (awaited unused) ⟨id, info, "", .START⟩ rfl rfl
  have early : run (step parse) b (.await_ id :: (⟨id, info, "", .START⟩ :: ms).map .message) = some opened := by
    refine run_cons.2 ⟨_, rfl, run_cons.2 ⟨opened, ?_, run_unheard free own⟩⟩
    rw [step, handed]
  have observers : opened.2.observers.length = b.2.observers.length := by rw [same]; rfl
  refine ⟨subscribe id opened, run_snoc.2 ⟨opened, early, ?_⟩, ?_⟩
  · simp [step, source]
  · rw [← observers]
    exact subscribed free

/-- Only the CHUNKs after the iteration are delivered. -/
theorem upload_late (info : M) (unused : Unused id b) (early : List String) {late : List String} {bytes : List V}
    (decodes : late.mapM parse = some bytes) :
    ∃ b', run (step parse) b (upload id b.2.promises.length (⟨id, info, "", .START⟩ :: early.map (⟨id, info, ·, .CHUNK⟩))
        (late.map (⟨id, info, ·, .CHUNK⟩) ++ [⟨id, info, "", .END⟩])) = some b' ∧
      b'.2.observers[b.2.observers.length]? = some { values := bytes, outcome := some .completed } := by
  obtain ⟨b₁, first, listening⟩ := run_iterated parse info unused
    (early.map (⟨id, info, ·, .CHUNK⟩)) (by simp +contextual)
  obtain ⟨b₂, second, told⟩ := listening.run info decodes
  have last := told.finished parse ⟨id, info, "", .END⟩ rfl rfl
  refine ⟨streamListener parse ⟨id, info, "", .END⟩ b₂, ?_, last⟩
  rw [upload_snoc]
  exact run_append.2 ⟨b₁, first, run_snoc.2 ⟨b₂, second, rfl⟩⟩

/-- After END nothing is delivered, not even the completion. -/
theorem upload_never (parse : String → Option V) (info : M) (unused : Unused id b) (values : List String) :
    ∃ b', run (step parse) b (upload id b.2.promises.length (streamSend id values info) []) = some b' ∧
      b'.2.observers[b.2.observers.length]? = some {} := by
  obtain ⟨b', reached, listening⟩ := run_iterated parse info unused
    (values.map (⟨id, info, ·, .CHUNK⟩) ++ [⟨id, info, "", .END⟩]) (by
      intro m member
      rcases List.mem_append.1 member with chunk | last
      · obtain ⟨value, -, rfl⟩ := List.mem_map.1 chunk
        exact ⟨rfl, fun same => by cases same⟩
      · simp only [List.mem_singleton] at last
        subst last
        exact ⟨rfl, fun same => by cases same⟩)
  exact ⟨b', reached, listening.observer⟩

theorem mapM_append_eq_some {early late : List String} {vs : List V} (decodes : (early ++ late).mapM parse = some vs) :
    ∃ es ls, late.mapM parse = some ls ∧ vs = es ++ ls ∧ es.length = early.length := by
  induction early generalizing vs with
  | nil => exact ⟨[], vs, decodes, rfl, rfl⟩
  | cons value early ih =>
    simp only [List.cons_append, List.mapM_cons, Option.bind_eq_bind, Option.bind_eq_some_iff, Option.pure_def,
      Option.some.injEq] at decodes
    obtain ⟨v, -, rest, decodes, rfl⟩ := decodes
    obtain ⟨es, ls, tail, rfl, lengths⟩ := ih decodes
    exact ⟨v :: es, ls, tail, rfl, by simp [lengths]⟩

/-- **What an upload delivers**: the run is possible whenever START came before
the iteration, and the observer is told all CHUNKs and then completes exactly
when nothing but START did. -/
theorem upload_delivered (info : M) (values : List String) (unused : Unused id b) {bytes : List V}
    (decodes : values.mapM parse = some bytes) {before after : List (Chunk M)}
    (split : before ++ after = streamSend id values info) (begun : before ≠ []) :
    ∃ b', run (step parse) b (upload id b.2.promises.length before after) = some b' ∧
      (b'.2.observers[b.2.observers.length]? = some { values := bytes, outcome := some .completed } ↔
        ∀ m ∈ before, m.status = .START) := by
  rcases split_streamSend split begun with ⟨early, late, rfl, rfl, rfl⟩ | ⟨rfl, rfl⟩
  · obtain ⟨es, ls, decodesLate, rfl, lengths⟩ := mapM_append_eq_some decodes
    obtain ⟨b', reached, told⟩ := upload_late info unused early decodesLate
    refine ⟨b', reached, ?_⟩
    have complete : (ls = es ++ ls) ↔ early = [] := by
      rw [List.self_eq_append_left, ← List.length_eq_zero_iff, lengths, List.length_eq_zero_iff]
    simp only [told, Option.some.injEq, Observer.mk.injEq, and_true, complete]
    cases early with
    | nil => simp
    | cons value early => simp
  · obtain ⟨b', reached, told⟩ := upload_never parse info unused values
    refine ⟨b', reached, ?_⟩
    rw [told]
    simp [streamSend]

/-- A transfer of one CHUNK whose source is iterated before that CHUNK comes. -/
theorem upload_delivered_sample :
    ∃ b', run (step fun s => if s = "AQID" then some [1, 2, 3] else none) (init : Bridge (List Nat) Unit)
        (upload "transfer" 0 [⟨"transfer", (), "", .START⟩]
          [⟨"transfer", (), "AQID", .CHUNK⟩, ⟨"transfer", (), "", .END⟩]) = some b' ∧
      (b'.2.observers[0]? = some { values := [[1, 2, 3]], outcome := some .completed } ↔
        ∀ m ∈ [(⟨"transfer", (), "", .START⟩ : Chunk Unit)], m.status = .START) :=
  upload_delivered () ["AQID"] ⟨rfl, rfl, rfl⟩ rfl rfl (List.cons_ne_nil _ _)

/-- The same transfer, iterated after its CHUNK: the bytes are lost. -/
theorem upload_loses_chunk :
    ∃ b', run (step fun s => if s = "AQID" then some [1, 2, 3] else none) (init : Bridge (List Nat) Unit)
        (upload "transfer" 0 [⟨"transfer", (), "", .START⟩, ⟨"transfer", (), "AQID", .CHUNK⟩]
          [⟨"transfer", (), "", .END⟩]) = some b' ∧
      b'.2.observers = [{ values := [], outcome := some .completed }] ∧
      b'.2.observers[0]? ≠ some { values := [[1, 2, 3]], outcome := some .completed } := by
  have told : (run (step fun s => if s = "AQID" then some [1, 2, 3] else none) (init : Bridge (List Nat) Unit)
        (upload "transfer" 0 [⟨"transfer", (), "", .START⟩, ⟨"transfer", (), "AQID", .CHUNK⟩]
          [⟨"transfer", (), "", .END⟩])).map (·.2.observers) =
      some [{ values := [], outcome := some .completed }] := by
    decide
  obtain ⟨b', reached, observers⟩ := Option.map_eq_some_iff.1 told
  refine ⟨b', reached, observers, ?_⟩
  rw [observers]
  decide

end Fula.RnFula
