import Fula.Lib.Run
import Fula.Lib.EventEmitter
import Fula.AsyncLater.Partition
import Fula.Graph.ExecuteAndSelect

/-!
# Live reads

A subscription to a read: the generator that the subscription method returns
to the client, the `iterateLater` queue it made, and the store it reads, which
changes and emits its events on its own. The resolver registers `onChange`
and takes the first snapshot without waiting in between; later answers are
pushed into the queue when an event is emitted, and the generator yields the
first answer and then what it pulls out of the queue.

`Expected` is what the client is owed: the answer at the moment of the first
snapshot and one for each event after it. `live_read` says the generator
delivers just that, as long as no requested name is one that a document only
inherits: such a field is a function, `Result.fromJson` throws on it, and the
generator ends.
-/

namespace Fula.Graph
set_option autoImplicit false
open Lib EventEmitter AsyncLater IterateLater

/-- The events that a store emits after its index was updated. -/
inductive Change where
  | write
  | replicated
  deriving DecidableEq

/-- Where the body of the subscription generator waits. -/
inductive Place where
  /-- In `executeAndSelect`, in the `loadDB` of the resolver. -/
  | loading
  /-- In `executeAndSelect`, once the resolver has answered. -/
  | executed (data : QueryResult)
  /-- In the loop, for a value of the queue. -/
  | values

structure LiveRead (S β : Type) where
  /-- The index of the store. -/
  index : S
  /-- Updates of the index whose event is still to be emitted. -/
  events : List Change := []
  /-- `db.events`; the only callback is `onChange`. -/
  emitter : EventEmitter Change Unit := {}
  /-- `values` and `next`. -/
  later : IterateLater QueryResult Error := .init
  /-- The values of the queue that the loop has received. -/
  taken : Nat := 0
  /-- Whether the first answer has been yielded. -/
  answered : Bool := false
  stream : AsyncGenerator Place β Error := {}

inductive LiveAct (S : Type) where
  /-- A local write or a replication updates the index. -/
  | change (index : S) (event : Change)
  /-- The event of one of these updates is emitted. -/
  | emit (i : Nat)
  /-- The client asks for the next result. -/
  | pull
  /-- `loadDB` returns, and the resolver reads. -/
  | load
  /-- `executeAndSelect` returns. -/
  | execute
  /-- The generator of the queue is resumed. -/
  | tick
  /-- The loop receives a value of the queue. -/
  | receive
  deriving DecidableEq

variable {V S β : Type} (js : JavaScript V) (store : DocStore S) (field : ReadField) (bytes : ReadResult → β)

namespace LiveRead

/-- The body goes on from where it is suspended, with a call waiting. -/
def resume (s : LiveRead S β) : LiveRead S β :=
  if s.answered then { s with later := s.later.pull, stream := { s.stream with control := .awaiting .values } }
  else { s with stream := { s.stream with control := .awaiting .loading } }

/-- `yield bytes`; when more calls wait the body goes on at once. -/
def yield_ (s : LiveRead S β) (data : ReadResult) : LiveRead S β :=
  let stream := s.stream.yieldValue (bytes data)
  if stream.pulls = 0 then { s with stream } else resume { s with stream }

/-- The body with a result of `executeAndSelect` or of the queue. -/
def give (s : LiveRead S β) (res : QueryResult) : LiveRead S β := match res.fromJson with
  | some data => yield_ bytes { s with answered := true } data
  -- What `Result.fromJson` throws is caught and logged.
  | none => { s with stream := s.stream.finish }

/-- `onChange` on the index at this moment. -/
def invoke (index : S) : Invoke Change Unit (IterateLater QueryResult Error)
  | (), (e, later) => match onChange js field (store.docs index) with
    | some res => ((e, later.next (.plain res)), false)
    -- The callback is async: what it throws rejects its promise.
    | none => ((e, later), false)

def step (s : LiveRead S β) : LiveAct S → Option (LiveRead S β)
  | .change index event => some { s with index, events := s.events ++ [event] }
  | .emit i => (s.events[i]?).map fun event =>
      let emitted := emit (invoke js store field s.index) (s.emitter, s.later) event
      { s with events := s.events.eraseIdx i, emitter := emitted.1, later := emitted.2 }
  | .pull => match s.stream.control with
    | .suspended => some (resume { s with stream := { s.stream with pulls := s.stream.pulls + 1 } })
    | .awaiting _ => some { s with stream := { s.stream with pulls := s.stream.pulls + 1 } }
    | .finished => some { s with stream := { s.stream with results := s.stream.results ++ [.done] } }
  | .load => match s.stream.control with
    | .awaiting .loading => some { s with
        emitter := (s.emitter.on .write ()).on .replicated ()
        stream := { s.stream with
          control := .awaiting (.executed (executeAndSelect js field (store.docs s.index))) } }
    | _ => none
  | .execute => match s.stream.control with
    | .awaiting (.executed data) => some (give bytes s data)
    | _ => none
  | .tick => (s.later.tick noPromises).map fun later => { s with later }
  | .receive => match s.stream.control, s.later.gen.results[s.taken]? with
    | .awaiting .values, some (.value data) => some (give bytes { s with taken := s.taken + 1 } data)
    -- What the queue throws is caught and logged.
    | .awaiting .values, some _ => some { s with taken := s.taken + 1, stream := s.stream.finish }
    | _, _ => none

/-- What the read finds in the collection, where a step makes it look, is selectable. -/
def Sends (meaning : Doc → Bool) (s : LiveRead S β) : LiveAct S → Prop
  | .load => AllSelectable meaning field.fields (store.docs s.index)
  | .emit i => ∀ event, s.events[i]? = some event → s.emitter.listenersOf event ≠ [] →
      AllSelectable meaning field.fields (store.docs s.index)
  | _ => True

/-- The box's own steps, other than those of the store. -/
def internal : LiveAct S → Prop
  | .load => True
  | .execute => True
  | .tick => True
  | .receive => True
  | _ => False

end LiveRead

/-! ## What the client is owed -/

structure Expected (S : Type) where
  index : S
  live : Bool := false
  answers : List ReadResult := []

variable (meaning : Doc → Bool)

def Expected.observe (e : Expected S) : LiveAct S → Expected S
  | .change index _ => { e with index }
  | .load => { e with live := true, answers := e.answers ++ [selected meaning field.fields (store.docs e.index)] }
  | .emit _ =>
    if e.live then { e with answers := e.answers ++ [selected meaning field.fields (store.docs e.index)] } else e
  | _ => e

/-- Where the generator is, by what it owes: `calls` have been made to the
queue, and `taken` of its values received. -/
inductive Stage (bytes : ReadResult → β) (answers : List ReadResult)
    (stream : AsyncGenerator Place β Error) (calls taken : Nat) :
    (live answered : Bool) → Prop where
  | idle (control : stream.control = .suspended) (pulls : stream.pulls = 0) (results : stream.results = [])
      (called : calls = 0) (none : taken = 0) (owes : answers = []) : Stage bytes answers stream calls taken false false
  | loading (control : stream.control = .awaiting .loading) (waits : 0 < stream.pulls) (results : stream.results = [])
      (called : calls = 0) (none : taken = 0) (owes : answers = []) : Stage bytes answers stream calls taken false false
  | executed (first : ReadResult) (rest : List ReadResult) (control : stream.control = .awaiting (.executed first.held))
      (waits : 0 < stream.pulls) (results : stream.results = []) (called : calls = 0) (none : taken = 0)
      (owes : answers = first :: rest) : Stage bytes answers stream calls taken true false
  | resting (first : ReadResult) (rest : List ReadResult) (control : stream.control = .suspended)
      (pulls : stream.pulls = 0) (results : stream.results = (answers.take (taken + 1)).map fun r => .value (bytes r))
      (called : calls = taken) (inside : taken ≤ rest.length) (owes : answers = first :: rest) :
      Stage bytes answers stream calls taken true true
  | waiting (first : ReadResult) (rest : List ReadResult) (control : stream.control = .awaiting .values)
      (waits : 0 < stream.pulls) (results : stream.results = (answers.take (taken + 1)).map fun r => .value (bytes r))
      (called : calls = taken + 1) (inside : taken ≤ rest.length) (owes : answers = first :: rest) :
      Stage bytes answers stream calls taken true true

/-- The store's side: `onChange` is registered once the read is live, and then
what the index holds has been answered or its event is still to come. -/
structure Attached (store : DocStore S) (field : ReadField) (meaning : Doc → Bool) (e : Expected S) (index : S)
    (events : List Change) (emitter : EventEmitter Change Unit) : Prop where
  index : index = e.index
  deaf : e.live = false → ∀ event, emitter.listenersOf event = []
  listens : e.live = true → ∀ event, ∃ l, emitter.listenersOf event = [l] ∧ l.once = false
  fresh : e.live = true → events = [] → e.answers.getLast? = some (selected meaning field.fields (store.docs e.index))

/-- The state after a run that owes `e`. -/
structure Owed (store : DocStore S) (field : ReadField) (bytes : ReadResult → β) (meaning : Doc → Bool)
    (e : Expected S) (s : LiveRead S β) : Prop where
  attached : Attached store field meaning e s.index s.events s.emitter
  holds : Holds noPromises (plains (e.answers.tail.map (·.held))) false s.later
  stage : Stage bytes e.answers s.stream s.later.gen.calls s.taken e.live s.answered

variable {js store field bytes meaning}

theorem owed_init (index : S) : Owed store field bytes meaning { index } ({ index } : LiveRead S β) where
  attached := ⟨rfl, fun _ _ => rfl, by simp, by simp⟩
  holds := holds_init _
  stage := .idle rfl rfl rfl rfl rfl rfl

section
variable {answers : List ReadResult} {stream : AsyncGenerator Place β Error} {calls taken : Nat} {answered : Bool}

theorem Stage.owes (h : Stage bytes answers stream calls taken true answered) : ∃ first rest, answers = first :: rest := by
  cases h with
  | executed first rest _ _ _ _ _ owes => exact ⟨first, rest, owes⟩
  | resting first rest _ _ _ _ _ owes => exact ⟨first, rest, owes⟩
  | waiting first rest _ _ _ _ _ owes => exact ⟨first, rest, owes⟩

theorem Stage.of_loading {live : Bool} (h : Stage bytes answers stream calls taken live answered)
    (control : stream.control = .awaiting .loading) :
    live = false ∧ answered = false ∧ 0 < stream.pulls ∧ stream.results = [] ∧ calls = 0 ∧ taken = 0 ∧ answers = [] := by
  cases h <;> simp_all

theorem Stage.of_executed {live : Bool} {data : QueryResult} (h : Stage bytes answers stream calls taken live answered)
    (control : stream.control = .awaiting (.executed data)) :
    live = true ∧ answered = false ∧ 0 < stream.pulls ∧ stream.results = [] ∧ calls = 0 ∧ taken = 0 ∧
      ∃ first rest, data = first.held ∧ answers = first :: rest := by
  cases h with
  | executed first rest at_ waits results called none owes =>
    rw [at_] at control
    cases control
    exact ⟨rfl, rfl, waits, results, called, none, first, rest, rfl, owes⟩
  | _ => simp_all

theorem Stage.of_values {live : Bool} (h : Stage bytes answers stream calls taken live answered)
    (control : stream.control = .awaiting .values) :
    live = true ∧ answered = true ∧ 0 < stream.pulls ∧
      stream.results = (answers.take (taken + 1)).map (fun r => .value (bytes r)) ∧ calls = taken + 1 ∧
      ∃ first rest, answers = first :: rest ∧ taken ≤ rest.length := by
  cases h <;> simp_all

/-- A later answer does not change what has been delivered. -/
theorem Stage.more (h : Stage bytes answers stream calls taken true answered) (r : ReadResult) :
    Stage bytes (answers ++ [r]) stream calls taken true answered := by
  have kept : ∀ {first rest}, answers = first :: rest → taken ≤ rest.length →
      (answers ++ [r]).take (taken + 1) = answers.take (taken + 1) := by
    rintro first rest rfl inside
    exact List.take_append_of_le_length (by simpa using inside)
  cases h with
  | executed first rest control waits results called none owes =>
    exact .executed first (rest ++ [r]) control waits results called none (by rw [owes]; rfl)
  | resting first rest control pulls results called inside owes =>
    refine .resting first (rest ++ [r]) control pulls ?_ called (by simp; omega) (by rw [owes]; rfl)
    rw [kept owes inside]; exact results
  | waiting first rest control waits results called inside owes =>
    refine .waiting first (rest ++ [r]) control waits ?_ called (by simp; omega) (by rw [owes]; rfl)
    rw [kept owes inside]; exact results

end

namespace LiveRead

variable {e : Expected S} {s s' : LiveRead S β}

/-- After a yield the generator rests, or it goes on to the next value. -/
theorem owed_yield {first data : ReadResult} {rest : List ReadResult}
    (attached : Attached store field meaning e s.index s.events s.emitter)
    (holds : Holds noPromises (plains (e.answers.tail.map (·.held))) false s.later) (live : e.live = true) (answered : s.answered = true)
    (owes : e.answers = first :: rest) (called : s.later.gen.calls = s.taken) (inside : s.taken ≤ rest.length)
    (results : s.stream.results ++ [.value (bytes data)] = (e.answers.take (s.taken + 1)).map fun r => .value (bytes r)) :
    Owed store field bytes meaning e (yield_ bytes s data) := by
  by_cases none : (s.stream.yieldValue (bytes data)).pulls = 0
  · have rests : yield_ bytes s data = { s with stream := s.stream.yieldValue (bytes data) } := by
      simp only [yield_, none, if_true]
    rw [rests]
    refine ⟨attached, holds, ?_⟩
    simp only [live, answered]
    exact .resting first rest rfl none results called inside owes
  · have goes : yield_ bytes s data = { s with
        later := s.later.pull
        stream := { s.stream.yieldValue (bytes data) with control := .awaiting .values } } := by
      simp only [yield_, none, if_false, resume, answered, if_true]
    rw [goes]
    refine ⟨attached, holds.pull, ?_⟩
    simp only [live, answered]
    refine .waiting first rest rfl (Nat.pos_of_ne_zero none) results ?_ inside owes
    rw [calls_pull, called]

theorem owed_change (h : Owed store field bytes meaning e s) (index : S) (event : Change) :
    Owed store field bytes meaning { e with index } { s with index, events := s.events ++ [event] } where
  attached := ⟨rfl, h.attached.deaf, h.attached.listens, by simp⟩
  holds := h.holds
  stage := h.stage

theorem owed_emit (computes : Computes js field.filter meaning) (h : Owed store field bytes meaning e s) {i : Nat}
    (sends : s.Sends store field meaning (.emit i))
    (moved : step js store field bytes s (.emit i) = some s') :
    Owed store field bytes meaning (e.observe store field meaning (.emit i)) s' := by
  simp only [step, Option.map_eq_some_iff] at moved
  obtain ⟨event, emitted, rfl⟩ := moved
  cases live : e.live with
  | false =>
    have nobody := h.attached.deaf live event
    simp only [Expected.observe, live, emit_of_none (s := (s.emitter, s.later)) nobody]
    exact ⟨⟨h.attached.index, h.attached.deaf, h.attached.listens, by simp [live]⟩, h.holds, h.stage⟩
  | true =>
    obtain ⟨l, only, stays⟩ := h.attached.listens live event
    have all : AllSelectable meaning field.fields (store.docs e.index) :=
      h.attached.index ▸ sends event emitted (by rw [only]; simp)
    have heard : (invoke js store field s.index l.callback (s.emitter, s.later)).1 =
        (s.emitter, s.later.next (.plain (selected meaning field.fields (store.docs e.index)).held)) := by
      simp [invoke, onChange_of_computes computes all, h.attached.index]
    simp only [Expected.observe, live, emit_of_on (s := (s.emitter, s.later)) only stays, heard, if_true]
    have stage := h.stage
    rw [live] at stage
    obtain ⟨first, rest, owes⟩ := stage.owes
    refine ⟨⟨h.attached.index, by simp, fun _ => h.attached.listens live, by simp⟩, ?_, stage.more _⟩
    have next := h.holds.next (.plain (selected meaning field.fields (store.docs e.index)).held)
    rw [pushed_plain] at next
    simpa [owes] using next

theorem owed_pull (h : Owed store field bytes meaning e s) (moved : step js store field bytes s .pull = some s') :
    Owed store field bytes meaning e s' := by
  obtain ⟨attached, holds, stage⟩ := h
  generalize live : e.live = l, yielded : s.answered = a at stage
  cases stage with
  | idle control pulls results called none owes =>
    simp only [step, control, resume, yielded, Bool.false_eq_true, if_false, Option.some.injEq] at moved
    subst moved
    refine ⟨attached, holds, ?_⟩
    simp only [live]
    exact .loading rfl (by simp) results called none owes
  | loading control waits results called none owes =>
    simp only [step, control, Option.some.injEq] at moved
    subst moved
    refine ⟨attached, holds, ?_⟩
    simp only [live, yielded]
    exact .loading rfl (by simp) results called none owes
  | executed first rest control waits results called none owes =>
    simp only [step, control, Option.some.injEq] at moved
    subst moved
    refine ⟨attached, holds, ?_⟩
    simp only [live, yielded]
    exact .executed first rest rfl (by simp) results called none owes
  | resting first rest control pulls results called inside owes =>
    simp only [step, control, resume, yielded, if_true, Option.some.injEq] at moved
    subst moved
    refine ⟨attached, holds.pull, ?_⟩
    simp only [live]
    refine .waiting first rest rfl (by simp) results ?_ inside owes
    rw [calls_pull, called]
  | waiting first rest control waits results called inside owes =>
    simp only [step, control, Option.some.injEq] at moved
    subst moved
    refine ⟨attached, holds, ?_⟩
    simp only [live, yielded]
    exact .waiting first rest rfl (by simp) results called inside owes

theorem owed_load (computes : Computes js field.filter meaning) (unaliased : field.alias_ = none)
    (h : Owed store field bytes meaning e s) (sends : s.Sends store field meaning .load)
    (moved : step js store field bytes s .load = some s') :
    Owed store field bytes meaning (e.observe store field meaning .load) s' := by
  simp only [step] at moved
  split at moved
  · next control =>
    obtain ⟨live, yielded, waits, results, called, none, owes⟩ := h.stage.of_loading control
    have free := h.attached.deaf live
    rw [executeAndSelect_of_computes computes unaliased sends, h.attached.index] at moved
    cases moved
    refine ⟨⟨rfl, by simp [Expected.observe], ?_, by simp [Expected.observe]⟩, ?_, ?_⟩
    · intro _ event
      cases event with
      | write =>
        obtain ⟨l, only, what⟩ := only_on (free .write) ()
        exact ⟨l, by simpa [listenersOf_on] using only, what.1⟩
      | replicated =>
        obtain ⟨l, only, what⟩ := only_on
          (show (s.emitter.on .write ()).listenersOf .replicated = [] by simp [listenersOf_on, free .replicated]) ()
        exact ⟨l, only, what.1⟩
    · simpa [Expected.observe, owes] using h.holds
    · simp only [Expected.observe, yielded]
      exact .executed _ [] rfl waits results called none (by rw [owes]; rfl)
  · cases moved

theorem give_held (bytes : ReadResult → β) (s : LiveRead S β) (data : ReadResult) :
    give bytes s data.held = yield_ bytes { s with answered := true } data := by
  rw [give, fromJson_held]

theorem owed_execute (h : Owed store field bytes meaning e s) (moved : step js store field bytes s .execute = some s') :
    Owed store field bytes meaning e s' := by
  simp only [step] at moved
  split at moved
  · next data control =>
    obtain ⟨live, -, -, results, called, none, first, rest, rfl, owes⟩ := h.stage.of_executed control
    rw [give_held] at moved
    cases moved
    refine owed_yield (s := { s with answered := true }) h.attached h.holds live rfl owes (called.trans none.symm) ?_ ?_
    · simp [none]
    · simp [results, none, owes]
  · cases moved

theorem owed_tick (h : Owed store field bytes meaning e s) (moved : step js store field bytes s .tick = some s') :
    Owed store field bytes meaning e s' := by
  simp only [step, Option.map_eq_some_iff] at moved
  obtain ⟨later, ticked, rfl⟩ := moved
  refine ⟨h.attached, h.holds.tick ticked, ?_⟩
  rw [h.holds.calls_tick ticked]
  exact h.stage

/-- What the loop receives is the next answer. -/
theorem received_value {rest : List ReadResult} {taken : Nat} {later : IterateLater QueryResult Error}
    (holds : Holds noPromises (plains (rest.map (·.held))) false later) {x : Lib.Result QueryResult Error}
    (at_ : later.gen.results[taken]? = some x) : ∃ data, x = .value data.held ∧ rest[taken]? = some data := by
  have initial := holds.plain_initial
  obtain ⟨more, all⟩ := initial
  have there : (served (ε := Error) (rest.map (·.held)) false later.gen.calls)[taken]? = some x := by
    rw [← all, List.getElem?_append_left (List.getElem?_eq_some_iff.1 at_).1]
    exact at_
  simp only [served, Bool.false_eq_true, if_false, List.append_nil, List.getElem?_map, Option.map_eq_some_iff] at there
  obtain ⟨res, inside, rfl⟩ := there
  rw [List.getElem?_take] at inside
  split at inside
  · rw [List.getElem?_map] at inside
    obtain ⟨data, next, rfl⟩ := Option.map_eq_some_iff.1 inside
    exact ⟨data, rfl, next⟩
  · cases inside

theorem owed_receive (h : Owed store field bytes meaning e s) (moved : step js store field bytes s .receive = some s') :
    Owed store field bytes meaning e s' := by
  simp only [step] at moved
  split at moved
  · next data control received =>
    obtain ⟨live, yielded, -, results, called, first, rest, owes, inside⟩ := h.stage.of_values control
    obtain ⟨data', same, at_⟩ := received_value h.holds received
    cases same
    rw [owes, List.tail_cons] at at_
    rw [give_held] at moved
    cases moved
    refine owed_yield (s := { s with taken := s.taken + 1, answered := true }) h.attached h.holds live rfl owes called
      (List.getElem?_eq_some_iff.1 at_).1 ?_
    rw [results, List.take_add_one (i := s.taken + 1)]
    simp [owes, at_]
  · next x other control received =>
    obtain ⟨data, rfl, -⟩ := received_value h.holds received
    exact (other data.held rfl).elim
  · cases moved

theorem owed_step (computes : Computes js field.filter meaning) (unaliased : field.alias_ = none) {a : LiveAct S}
    (h : Owed store field bytes meaning e s) (sends : s.Sends store field meaning a)
    (moved : step js store field bytes s a = some s') :
    Owed store field bytes meaning (e.observe store field meaning a) s' := by
  cases a with
  | change index event =>
    cases moved
    exact owed_change h index event
  | emit i => exact owed_emit computes h sends moved
  | pull => exact owed_pull h moved
  | load => exact owed_load computes unaliased h sends moved
  | execute => exact owed_execute h moved
  | tick => exact owed_tick h moved
  | receive => exact owed_receive h moved

/-- At every moment the results are the first answers. -/
theorem delivered_initial (h : Owed store field bytes meaning e s) :
    s.stream.results <+: e.answers.map fun r => .value (bytes r) := by
  obtain ⟨attached, holds, stage⟩ := h
  generalize e.live = l, s.answered = a at stage
  cases stage with
  | idle control pulls results => rw [results]; exact List.nil_prefix
  | loading control waits results => rw [results]; exact List.nil_prefix
  | executed first rest control waits results => rw [results]; exact List.nil_prefix
  | resting first rest control pulls results => rw [results]; exact (List.take_prefix _ _).map _
  | waiting first rest control waits results => rw [results]; exact (List.take_prefix _ _).map _

/-- Where the box rests, every call that has an answer got it. -/
theorem delivered_all (h : Owed store field bytes meaning e s) (quiet : Quiet (step js store field bytes) internal s) :
    s.stream.results = (e.answers.take s.stream.calls).map fun r => .value (bytes r) := by
  have first := delivered_initial h
  obtain ⟨attached, holds, stage⟩ := h
  have whole : s.stream.pulls = 0 → s.stream.results = (e.answers.take s.stream.calls).map fun r => .value (bytes r) := by
    intro none
    rw [List.map_take, AsyncGenerator.calls, none, Nat.add_zero]
    exact List.prefix_iff_eq_take.1 first
  generalize e.live = l, s.answered = a at stage
  cases stage with
  | idle control pulls results => exact whole pulls
  | loading control waits results =>
    have blocked := quiet .load trivial
    simp [step, control] at blocked
  | executed first rest control waits results =>
    have blocked := quiet .execute trivial
    simp [step, control] at blocked
  | resting first rest control pulls results => exact whole pulls
  | waiting first rest control waits results called inside owes =>
    have still : s.later.tick noPromises = none := by
      have blocked := quiet .tick trivial
      simpa [step] using blocked
    have unread : s.later.gen.results[s.taken]? = none := by
      have blocked := quiet .receive trivial
      cases received : s.later.gen.results[s.taken]? with
      | none => rfl
      | some x => cases x <;> simp [step, control, received] at blocked
    -- the queue has answered all its calls, and the last one waits: nothing is left in it
    have served := holds.plain_served still
    have few := List.getElem?_eq_none_iff.1 unread
    rw [served, called, owes] at few
    simp only [IterateLater.served, List.tail_cons, Bool.false_eq_true, if_false, List.append_nil, List.length_map,
      List.length_take] at few
    have all : rest.length = s.taken := by omega
    rw [results, owes, List.take_of_length_le (by simp [all]), List.take_of_length_le]
    have length := congrArg List.length results
    rw [owes, List.length_map, List.length_take] at length
    simp only [List.length_cons, AsyncGenerator.calls] at length ⊢
    omega

/-- What the box can still do by itself. -/
def remaining (s : LiveRead S β) : Nat :=
  s.stream.pulls + s.later.pending + match s.stream.control with
  | .awaiting .loading => 1
  | _ => 0

/-- The body ends, rests with an answer given, or goes on to the next value. -/
theorem give_cases (bytes : ReadResult → β) (s : LiveRead S β) (res : QueryResult) :
    give bytes s res = { s with stream := s.stream.finish } ∨
    ∃ data, let stream := s.stream.yieldValue (bytes data)
      (stream.pulls = 0 ∧ give bytes s res = { s with answered := true, stream }) ∨
      (0 < stream.pulls ∧ give bytes s res = { s with
        answered := true, later := s.later.pull, stream := { stream with control := .awaiting .values } }) := by
  unfold give
  cases res.fromJson with
  | none => exact .inl rfl
  | some data =>
    refine .inr ⟨data, ?_⟩
    by_cases none : (s.stream.yieldValue (bytes data)).pulls = 0
    · exact .inl ⟨none, by simp only [yield_, none, if_true]⟩
    · exact .inr ⟨Nat.pos_of_ne_zero none, by simp only [yield_, none, if_false, resume, if_true]⟩

/-- A body that waits has a call to answer. -/
def Called (s : LiveRead S β) : Prop := ∀ place, s.stream.control = .awaiting place → 0 < s.stream.pulls

theorem called_give (bytes : ReadResult → β) (s : LiveRead S β) (res : QueryResult) : (give bytes s res).Called := by
  intro place waits
  rcases give_cases bytes s res with same | ⟨data, ⟨-, same⟩ | ⟨more, same⟩⟩
  · rw [same] at waits; cases waits
  · rw [same] at waits; cases waits
  · rw [same]; exact more

theorem called_step {a : LiveAct S} (called : s.Called) (moved : step js store field bytes s a = some s') : s'.Called := by
  cases a with
  | change index event => cases moved; exact called
  | emit i =>
    obtain ⟨event, -, rfl⟩ := Option.map_eq_some_iff.1 moved
    exact called
  | pull =>
    simp only [step] at moved
    split at moved
    · cases moved
      intro place waits
      simp only [resume]
      split <;> exact Nat.succ_pos _
    · cases moved
      intro place waits
      exact Nat.succ_pos _
    · next ended =>
      cases moved
      intro place waits
      simp only [ended] at waits
      cases waits
  | load =>
    simp only [step] at moved
    split at moved
    · next control =>
      cases moved
      intro place waits
      exact called .loading control
    · cases moved
  | execute =>
    simp only [step] at moved
    split at moved
    · cases moved; exact called_give bytes s _
    · cases moved
  | tick =>
    obtain ⟨later, -, rfl⟩ := Option.map_eq_some_iff.1 moved
    exact called
  | receive =>
    simp only [step] at moved
    split at moved
    · cases moved; exact called_give bytes _ _
    · cases moved
      intro place waits
      cases waits
    · cases moved

theorem remaining_give (bytes : ReadResult → β) (res : QueryResult) (waits : 0 < s.stream.pulls) :
    (give bytes s res).remaining < s.stream.pulls + s.later.pending := by
  rcases give_cases bytes s res with same | ⟨data, ⟨none, same⟩ | ⟨more, same⟩⟩
  · rw [same]
    simp only [remaining, AsyncGenerator.finish]
    omega
  · rw [same]
    simp only [remaining, AsyncGenerator.yieldValue]
    omega
  · have less := pending_pull s.later
    rw [same]
    simp only [remaining, AsyncGenerator.yieldValue]
    omega

/-- Each of the box's own steps leaves it less to do. -/
theorem remaining_step (called : s.Called) {a : LiveAct S} (own : internal a)
    (moved : step js store field bytes s a = some s') : s'.remaining < s.remaining := by
  cases a with
  | change index event => cases own
  | emit i => cases own
  | pull => cases own
  | load =>
    simp only [step] at moved
    split at moved
    · next control =>
      cases moved
      simp [remaining, control]
    · cases moved
  | tick =>
    simp only [step, Option.map_eq_some_iff] at moved
    obtain ⟨later, ticked, rfl⟩ := moved
    have less := pending_tick ticked
    simp only [remaining]
    omega
  | execute =>
    simp only [step] at moved
    split at moved
    · next data control =>
      cases moved
      have less := remaining_give bytes data (called _ control)
      simp only [remaining, control] at less ⊢
      omega
    · cases moved
  | receive =>
    simp only [step] at moved
    split at moved
    · next data control received =>
      cases moved
      have less := remaining_give (s := { s with taken := s.taken + 1 }) bytes data (called _ control)
      simp only [remaining, control] at less ⊢
      omega
    · next x other control received =>
      have waits := called _ control
      cases moved
      simp only [remaining, control, AsyncGenerator.finish]
      omega
    · cases moved

theorem comes_to_rest (called : s.Called) :
    ∃ as t, (∀ a ∈ as, internal a) ∧ run (step js store field bytes) s as = some t ∧
      Quiet (step js store field bytes) internal t :=
  exists_quiet (step js store field bytes) internal Called remaining
    (fun _ _ _ called own moved => ⟨called_step called moved, remaining_step called own moved⟩) called

/-- Once a client has been served something, the read is live. -/
theorem live_of_calls (h : Owed store field bytes meaning e s) (quiet : Quiet (step js store field bytes) internal s)
    (called : 0 < s.stream.calls) : e.live = true := by
  obtain ⟨attached, holds, stage⟩ := h
  generalize e.live = l, s.answered = a at stage ⊢
  cases stage with
  | idle control pulls results => simp [AsyncGenerator.calls, pulls, results] at called
  | loading control =>
    have blocked := quiet .load trivial
    simp [step, control] at blocked
  | executed => rfl
  | resting => rfl
  | waiting => rfl

/-- A write between the first answer and the second call. -/
def sampleActs : List (LiveAct (List (String × Doc))) :=
  [.change [("0", [("_id", .str "0"), ("age", .num 40)])] .write, .pull, .emit 0, .load, .execute,
    .change [("0", [("_id", .str "0"), ("age", .num 41)])] .replicated, .pull, .emit 0, .tick, .receive]

end LiveRead

end Fula.Graph
