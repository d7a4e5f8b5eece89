import Fula.Lib.EventEmitter
import Fula.FulaClient.Connection

/-!
# Several connections on one node

Each `connect` call makes a `FulaConnection` of its own, and all of them listen to the one
connection manager of the node, beside whoever else does. What `on` returns is the manager
itself, so the two handles that a `FulaConnection` keeps for `stop` are the manager, and
`removeAllListeners()` on them takes away the listeners of everybody.

`spared_iff` says in which runs everybody goes on being told of the peers that come
and go.
-/

namespace Fula.FulaClient
set_option autoImplicit false
open Lib

variable {P C : Type} [DecidableEq P] [DecidableEq C]

/-- `peer:connect` and `peer:disconnect`. -/
inductive PeerEvent where
  | connect
  | disconnect
  deriving DecidableEq

/-- The listeners of connection `i`, and of the `k`-th that somebody else has registered. -/
inductive Callback where
  | onConnect (i : Nat)
  | onDisconnect (i : Nat)
  | other (k : Nat)
  deriving DecidableEq

/-- Those who listen. -/
structure Parties (P C : Type) where
  connections : List (FulaConnection P C) := []
  /-- The calls of the other listeners. -/
  received : List (Nat × C) := []

namespace Parties

/-- `setTimeout` in a listener of connection `i`. -/
def setTimeout (s : Parties P C) (i : Nat) (check : Check C) : Parties P C :=
  { s with connections := s.connections.modify i fun f => { f with timers := f.timers ++ [check] } }

/-- A listener is called with the connection that opened or closed. -/
def call (connection : C) : Callback → Parties P C → Parties P C
  | .onConnect i, s => s.setTimeout i (.onConnect connection)
  | .onDisconnect i, s => s.setTimeout i .onDisconnect
  | .other k, s => { s with received := s.received ++ [(k, connection)] }

omit [DecidableEq P] [DecidableEq C] in
theorem setTimeout_get (r : Parties P C) (j : Nat) (check : Check C) (i : Nat) :
    (r.setTimeout j check).connections[i]? = (r.connections[i]?).map fun f =>
      { f with timers := f.timers ++ if j = i then [check] else [] } := by
  rw [setTimeout, List.getElem?_modify]
  by_cases same : j = i
  · subst same
    simp
  · cases r.connections[i]? <;> simp [same]

end Parties

/-- The check that a listener schedules for connection `i`. -/
def Callback.checkOf (i : Nat) (conn : C) : Callback → Option (Check C)
  | .onConnect j => if j = i then some (.onConnect conn) else none
  | .onDisconnect j => if j = i then some .onDisconnect else none
  | .other _ => none

/-- The call that a listener of somebody else gets. -/
def Callback.heard (conn : C) : Callback → Option (Nat × C)
  | .other k => some (k, conn)
  | _ => none

namespace Parties

omit [DecidableEq P] [DecidableEq C] in
theorem call_connections (conn : C) (c : Callback) (r : Parties P C) (i : Nat) :
    (r.call conn c).connections[i]? = (r.connections[i]?).map fun f =>
      { f with timers := f.timers ++ (c.checkOf i conn).toList } := by
  cases c with
  | onConnect j =>
    rw [call, setTimeout_get, Callback.checkOf]
    split <;> rfl
  | onDisconnect j =>
    rw [call, setTimeout_get, Callback.checkOf]
    split <;> rfl
  | other k => simp [call, Callback.checkOf]

omit [DecidableEq P] [DecidableEq C] in
theorem calls_connections (conn : C) (cs : List Callback) (r : Parties P C) (i : Nat) :
    (cs.foldl (fun r c => r.call conn c) r).connections[i]? = (r.connections[i]?).map fun f =>
      { f with timers := f.timers ++ cs.filterMap (·.checkOf i conn) } := by
  induction cs generalizing r with
  | nil => simp
  | cons c cs ih =>
    rw [List.foldl_cons, ih, call_connections, Option.map_map]
    congr 1
    funext f
    cases here : c.checkOf i conn <;> simp [here]

omit [DecidableEq P] [DecidableEq C] in
theorem calls_length (conn : C) (cs : List Callback) (r : Parties P C) :
    (cs.foldl (fun r c => r.call conn c) r).connections.length = r.connections.length := by
  induction cs generalizing r with
  | nil => rfl
  | cons c cs ih =>
    rw [List.foldl_cons, ih]
    cases c <;> simp [call, setTimeout]

omit [DecidableEq P] [DecidableEq C] in
theorem calls_received (conn : C) (cs : List Callback) (r : Parties P C) :
    (cs.foldl (fun r c => r.call conn c) r).received = r.received ++ cs.filterMap (·.heard conn) := by
  induction cs generalizing r with
  | nil => simp
  | cons c cs ih =>
    rw [List.foldl_cons, ih]
    cases c <;> simp [call, setTimeout, Callback.heard]

end Parties

/-- A node: its connection manager, with the manager's listeners. -/
structure Node (P C : Type) where
  manager : ConnectionManager P C := {}
  emitter : EventEmitter PeerEvent Callback := {}
  parties : Parties P C := {}
  /-- What the listeners that others have registered are for. -/
  others : List PeerEvent := []

namespace Node

inductive Act (P C : Type) where
  /-- `new FulaConnection(libp2p, peerIds)` -/
  | create (peerIds : List P)
  /-- Somebody else registers a listener. -/
  | listen (event : PeerEvent)
  | opened (peer : P) (conn : C)
  | closed (peer : P) (conn : C)
  /-- Pending check `k` of connection `i` fires. -/
  | fire (i k : Nat)
  | start (i : Nat)
  | stop (i : Nat)

def setConnection (s : Node P C) (i : Nat) (f : FulaConnection P C) : Node P C :=
  { s with parties := { s.parties with connections := s.parties.connections.set i f } }

/-- A listener is called; none throws, and none touches the listeners. -/
def invoke (connection : C) : EventEmitter.Invoke PeerEvent Callback (Parties P C) := fun c t =>
  ((t.1, t.2.call connection c), false)

/-- `emit(event, connection)` -/
def emit (s : Node P C) (event : PeerEvent) (connection : C) : Node P C :=
  let told := EventEmitter.emit (invoke connection) (s.emitter, s.parties) event
  { s with emitter := told.1, parties := told.2 }

def create (s : Node P C) (peerIds : List P) : Node P C :=
  let i := s.parties.connections.length
  { s with
    emitter := (s.emitter.on .disconnect (.onDisconnect i)).on .connect (.onConnect i)
    parties := { s.parties with connections := s.parties.connections ++ [{ boxPeerIds := peerIds }] } }

/-- `stop`: both `connect_listener` and `disconnect_listener` are the manager. -/
def stop (s : Node P C) (i : Nat) (f : FulaConnection P C) : Node P C :=
  { s.setConnection i f.stop with emitter := s.emitter.clear.clear }

def step (s : Node P C) : Act P C → Option (Node P C)
  | .create peerIds => some (s.create peerIds)
  | .listen event =>
    some { s with
      emitter := s.emitter.on event (.other s.others.length)
      others := s.others ++ [event] }
  | .opened peer conn => some ({ s with manager := s.manager.add peer conn }.emit .connect conn)
  | .closed peer conn =>
    if conn ∈ s.manager.held peer then
      let s' := { s with manager := s.manager.remove peer conn }
      some (if s'.manager.held peer = [] then s'.emit .disconnect conn else s')
    else none
  | .fire i k => (s.parties.connections[i]?).bind fun f =>
    (f.fire s.manager.size k).map (s.setConnection i)
  | .start i => (s.parties.connections[i]?).map fun f => s.setConnection i f.start
  | .stop i => (s.parties.connections[i]?).map (s.stop i)

/-- The event that an action makes the manager emit, and the connection that it is about. -/
def announced (s : Node P C) : Act P C → Option (PeerEvent × C)
  | .opened _ conn => some (.connect, conn)
  | .closed peer conn =>
    if conn ∈ s.manager.held peer ∧ (s.manager.remove peer conn).held peer = [] then some (.disconnect, conn)
    else none
  | _ => none

/-! ## Who is told -/

/-- The check that an event is followed by. -/
def check : PeerEvent → C → Check C
  | .connect, conn => .onConnect conn
  | .disconnect, _ => .onDisconnect

/-- The listener that connection `i` has for an event. -/
def listener (i : Nat) : PeerEvent → Callback
  | .connect => .onConnect i
  | .disconnect => .onDisconnect i

@[simp] theorem listener_inj {i j : Nat} {event event' : PeerEvent} :
    listener i event = listener j event' ↔ i = j ∧ event = event' := by
  cases event <;> cases event' <;> simp [listener]

@[simp] theorem listener_ne_other {i k : Nat} {event : PeerEvent} : listener i event ≠ .other k := by
  cases event <;> simp [listener]

/-- Somebody listens to an event. -/
def Registered (s : Node P C) (event : PeerEvent) (c : Callback) : Prop :=
  c ∈ (s.emitter.listenersOf event).map Listener.callback

/-- Nobody has been unregistered by the `stop` of another: all connections that have not been
stopped have their listeners, and all others have theirs. -/
structure Spared (s : Node P C) : Prop where
  connection : ∀ (i : Nat) (f : FulaConnection P C), s.parties.connections[i]? = some f → f.listening = true →
    ∀ event, s.Registered event (listener i event)
  other : ∀ (k : Nat) (event : PeerEvent), s.others[k]? = some event → s.Registered event (.other k)

/-- An event reaches all of them: each connection that has not been stopped schedules one check, and
each other listener for the event is called. -/
structure Reaches (s s' : Node P C) (event : PeerEvent) (conn : C) : Prop where
  connection : ∀ (i : Nat) (f : FulaConnection P C), s.parties.connections[i]? = some f → f.listening = true →
    s'.parties.connections[i]? = some { f with timers := f.timers ++ [check event conn] }
  other : ∀ (k : Nat), s.others[k]? = some event →
    ∃ more, s'.parties.received = s.parties.received ++ more ∧ (k, conn) ∈ more

/-! ## What a step does -/

/-- A step, by what it changes. -/
inductive Moves (s : Node P C) : Act P C → Node P C → Prop where
  | create (peerIds : List P) : Moves s (.create peerIds) (s.create peerIds)
  | listen (event : PeerEvent) : Moves s (.listen event) { s with
      emitter := s.emitter.on event (.other s.others.length)
      others := s.others ++ [event] }
  | told {a : Act P C} (manager : ConnectionManager P C) {event : PeerEvent} {conn : C}
    (tells : s.announced a = some (event, conn)) : Moves s a ({ s with manager }.emit event conn)
  | untold {peer : P} {conn : C} (manager : ConnectionManager P C) (quiet : s.announced (.closed peer conn) = none) :
    Moves s (.closed peer conn) { s with manager }
  | fires {i k : Nat} {f f' : FulaConnection P C} (at_ : s.parties.connections[i]? = some f)
    (fired : f.fire s.manager.size k = some f') : Moves s (.fire i k) (s.setConnection i f')
  | starts {i : Nat} {f : FulaConnection P C} (at_ : s.parties.connections[i]? = some f) :
    Moves s (.start i) (s.setConnection i f.start)
  | stops {i : Nat} {f : FulaConnection P C} (at_ : s.parties.connections[i]? = some f) :
    Moves s (.stop i) (s.stop i f)

variable {s s' t : Node P C}

theorem step_moves {a : Act P C} (moved : step s a = some s') : Moves s a s' := by
  cases a with
  | create peerIds => cases moved; exact .create peerIds
  | listen event => cases moved; exact .listen event
  | opened peer conn => cases moved; exact .told _ rfl
  | closed peer conn =>
    simp only [step] at moved
    split at moved
    · next held =>
      cases moved
      split
      · next last => exact .told _ (if_pos ⟨held, last⟩)
      · next more => exact .untold _ (if_neg fun both => more both.2)
    · cases moved
  | fire i k =>
    simp only [step, Option.bind_eq_some_iff, Option.map_eq_some_iff] at moved
    obtain ⟨f, at_, f', fired, rfl⟩ := moved
    exact .fires at_ fired
  | start i =>
    simp only [step, Option.map_eq_some_iff] at moved
    obtain ⟨f, at_, rfl⟩ := moved
    exact .starts at_
  | stop i =>
    simp only [step, Option.map_eq_some_iff] at moved
    obtain ⟨f, at_, rfl⟩ := moved
    exact .stops at_

/-! ### What is registered -/

/-- The listeners are those that connections and others have registered, each of them once. -/
structure Inv (s : Node P C) : Prop where
  stay : ∀ l ∈ s.emitter.listeners, l.once = false
  distinct : (s.emitter.listeners.map Listener.callback).Nodup
  fits : ∀ l ∈ s.emitter.listeners,
    (∃ i, i < s.parties.connections.length ∧ l.callback = listener i l.name) ∨
      ∃ k, s.others[k]? = some l.name ∧ l.callback = .other k

omit [DecidableEq P] [DecidableEq C] in
theorem inv_init : Inv ({} : Node P C) := ⟨by simp, by simp, by simp⟩

/-- The callbacks that an event calls. -/
def callbacks (s : Node P C) (event : PeerEvent) : List Callback := (s.emitter.listenersOf event).map Listener.callback

omit [DecidableEq P] [DecidableEq C] in
theorem Inv.emit (h : Inv s) (event : PeerEvent) (conn : C) : s.emit event conn = { s with
    parties := (s.callbacks event).foldl (fun r c => r.call conn c) s.parties } := by
  have told : EventEmitter.emit (invoke conn) (s.emitter, s.parties) event =
      (s.emitter, (s.callbacks event).foldl (fun r c => r.call conn c) s.parties) :=
    EventEmitter.emit_passive (fun _ _ => rfl) h.stay
  simp only [Node.emit, told]

omit [DecidableEq P] [DecidableEq C] in
/-- The emitter is the only thing that `Inv` asks about, but for the number of those who listen. -/
theorem Inv.of_emitter (h : Inv s) (emitter : s'.emitter = s.emitter) (others : s'.others = s.others)
    (length : s'.parties.connections.length = s.parties.connections.length) : Inv s' := by
  constructor
  · rw [emitter]; exact h.stay
  · rw [emitter]; exact h.distinct
  · rw [emitter, others, length]; exact h.fits

omit [DecidableEq P] [DecidableEq C] in
theorem Inv.told (h : Inv s) (manager : ConnectionManager P C) (event : PeerEvent) (conn : C) :
    Inv ({ s with manager }.emit event conn) := by
  have h' : Inv { s with manager } := ⟨h.stay, h.distinct, h.fits⟩
  rw [h'.emit]
  exact h'.of_emitter rfl rfl (Parties.calls_length conn _ _)

omit [DecidableEq P] [DecidableEq C] in
/-- A listener that nobody has registered yet. -/
theorem Inv.fresh (h : Inv s) {c : Callback}
    (connection : ∀ i event, c = listener i event → s.parties.connections.length ≤ i)
    (other : ∀ k, c = .other k → s.others.length ≤ k) : c ∉ s.emitter.listeners.map Listener.callback := by
  intro member
  obtain ⟨l, there, same⟩ := List.mem_map.1 member
  rcases h.fits l there with ⟨i, less, is⟩ | ⟨k, at_, is⟩
  · have := connection i l.name (same.symm.trans is)
    omega
  · have := other k (same.symm.trans is)
    have := (List.getElem?_eq_some_iff.1 at_).1
    omega

theorem listeners_on (e : EventEmitter PeerEvent Callback) (event : PeerEvent) (c : Callback) :
    (e.on event c).listeners = e.listeners ++ [{ key := e.nextKey, name := event, once := false, callback := c }] := rfl

omit [DecidableEq P] [DecidableEq C] in
theorem Inv.create (h : Inv s) (peerIds : List P) : Inv (s.create peerIds) where
  stay := by
    intro l there
    simp only [Node.create, listeners_on, List.mem_append, List.mem_singleton] at there
    rcases there with (old | rfl) | rfl
    · exact h.stay l old
    · rfl
    · rfl
  distinct := by
    have free (event : PeerEvent) : listener s.parties.connections.length event ∉ s.emitter.listeners.map Listener.callback := by
      refine h.fresh (fun i event' same => ?_) fun k same => absurd same listener_ne_other
      rw [listener_inj] at same
      omega
    have freeConnect := free .connect
    have freeDisconnect := free .disconnect
    simp only [listener] at freeConnect freeDisconnect
    simp only [Node.create, listeners_on, List.map_append, List.map_cons, List.map_nil, List.nodup_append]
    refine ⟨⟨h.distinct, by simp, ?_⟩, by simp, ?_⟩
    · rintro c old c' new rfl
      rw [List.mem_singleton] at new
      exact freeDisconnect (new ▸ old)
    · rintro c old c' new rfl
      rw [List.mem_singleton] at new
      subst new
      rw [List.mem_append, List.mem_singleton] at old
      exact freeConnect (old.resolve_right (by simp))
  fits := by
    intro l there
    simp only [Node.create, listeners_on, List.mem_append, List.mem_singleton] at there
    simp only [Node.create, List.length_append, List.length_singleton]
    rcases there with (old | rfl) | rfl
    · rcases h.fits l old with ⟨i, less, is⟩ | other
      · exact .inl ⟨i, by omega, is⟩
      · exact .inr other
    · exact .inl ⟨_, Nat.lt_succ_self _, rfl⟩
    · exact .inl ⟨_, Nat.lt_succ_self _, rfl⟩

omit [DecidableEq P] [DecidableEq C] in
theorem Inv.listen (h : Inv s) (event : PeerEvent) : Inv { s with
    emitter := s.emitter.on event (.other s.others.length), others := s.others ++ [event] } where
  stay := by
    intro l there
    simp only [listeners_on, List.mem_append, List.mem_singleton] at there
    rcases there with old | rfl
    · exact h.stay l old
    · rfl
  distinct := by
    have free : Callback.other s.others.length ∉ s.emitter.listeners.map Listener.callback := by
      refine h.fresh (fun i event' same => absurd same.symm listener_ne_other) fun k same => ?_
      cases same
      exact Nat.le_refl _
    simp only [listeners_on, List.map_append, List.map_cons, List.map_nil, List.nodup_append]
    refine ⟨h.distinct, by simp, ?_⟩
    rintro c old c' new rfl
    rw [List.mem_singleton] at new
    exact free (new ▸ old)
  fits := by
    intro l there
    simp only [listeners_on, List.mem_append, List.mem_singleton] at there
    rcases there with old | rfl
    · rcases h.fits l old with connection | ⟨k, at_, is⟩
      · exact .inl connection
      · refine .inr ⟨k, ?_, is⟩
        rw [List.getElem?_append_left (List.getElem?_eq_some_iff.1 at_).1, at_]
    · exact .inr ⟨_, List.getElem?_concat_length, rfl⟩

omit [DecidableEq C] in
theorem stop_listeners (s : Node P C) (i : Nat) (f : FulaConnection P C) : (s.stop i f).emitter.listeners = [] := by
  simp [Node.stop, EventEmitter.clear, EventEmitter.restrict]

theorem Inv.step {a : Act P C} (h : Inv s) (moved : step s a = some s') : Inv s' := by
  cases step_moves moved with
  | create peerIds => exact h.create peerIds
  | listen event => exact h.listen event
  | told manager tells => exact h.told manager _ _
  | untold manager quiet => exact ⟨h.stay, h.distinct, h.fits⟩
  | fires at_ fired => exact h.of_emitter rfl rfl (by simp [setConnection])
  | starts at_ => exact h.of_emitter rfl rfl (by simp [setConnection])
  | @stops i f at_ =>
    have none_ := stop_listeners s i f
    exact ⟨by simp [none_], by simp [none_], by simp [none_]⟩

/-! ### Who is spared -/

/-- Connection `i` has not been stopped. -/
def Live (s : Node P C) (i : Nat) : Prop :=
  ∃ f, s.parties.connections[i]? = some f ∧ f.listening = true

/-- Nobody but the connection that is stopped is left to be unregistered. -/
def Alone (s : Node P C) (a : Act P C) : Prop :=
  ∀ i, a = .stop i → (∀ j, s.Live j → j = i) ∧ s.others = []

omit [DecidableEq P] [DecidableEq C] in
theorem Spared.kept (h : Spared s) (emitter : s'.emitter = s.emitter) (others : s'.others = s.others)
    (live : ∀ i, s'.Live i → s.Live i) : Spared s' := by
  constructor
  · intro i f at_ listens event
    obtain ⟨f', at', listens'⟩ := live i ⟨f, at_, listens⟩
    rw [Registered, emitter]
    exact h.connection i f' at' listens' event
  · intro k event at_
    rw [others] at at_
    rw [Registered, emitter]
    exact h.other k event at_

omit [DecidableEq P] [DecidableEq C] in
theorem registered_on {e : EventEmitter PeerEvent Callback} {event event' : PeerEvent} {c c' : Callback} :
    c' ∈ ((e.on event c).listenersOf event').map Listener.callback ↔
      c' ∈ (e.listenersOf event').map Listener.callback ∨ event = event' ∧ c' = c := by
  rw [EventEmitter.listenersOf_on]
  by_cases same : event = event'
  · simp [same]
  · simp [same]

omit [DecidableEq P] [DecidableEq C] in
theorem Spared.create (h : Spared s) (peerIds : List P) : Spared (s.create peerIds) := by
  constructor
  · intro i f at_ listens event
    simp only [Registered, Node.create, registered_on]
    rcases Nat.lt_or_ge i s.parties.connections.length with old | new
    · simp only [Node.create, List.getElem?_append_left old] at at_
      exact .inl (.inl (h.connection i f at_ listens event))
    · obtain rfl : i = s.parties.connections.length := by
        have := (List.getElem?_eq_some_iff.1 at_).1
        simp only [Node.create, List.length_append, List.length_singleton] at this
        omega
      cases event with
      | connect => exact .inr ⟨rfl, rfl⟩
      | disconnect => exact .inl (.inr ⟨rfl, rfl⟩)
  · intro k event at_
    simp only [Registered, Node.create, registered_on]
    exact .inl (.inl (h.other k event at_))

omit [DecidableEq P] [DecidableEq C] in
theorem Spared.listen (h : Spared s) (event : PeerEvent) : Spared { s with
    emitter := s.emitter.on event (.other s.others.length), others := s.others ++ [event] } := by
  constructor
  · intro i f at_ listens event
    simp only [Registered, registered_on]
    exact .inl (h.connection i f at_ listens event)
  · intro k event at_
    simp only [Registered, registered_on]
    rcases Nat.lt_or_ge k s.others.length with old | new
    · rw [List.getElem?_append_left old] at at_
      exact .inl (h.other k event at_)
    · have less := (List.getElem?_eq_some_iff.1 at_).1
      rw [List.length_append, List.length_singleton] at less
      obtain rfl : k = s.others.length := by omega
      rw [List.getElem?_concat_length, Option.some.injEq] at at_
      exact .inr ⟨at_, rfl⟩

omit [DecidableEq P] [DecidableEq C] in
theorem live_setConnection {i : Nat} {f f' : FulaConnection P C} (at_ : s.parties.connections[i]? = some f)
    (same : f'.listening = f.listening) {j : Nat} (live : (s.setConnection i f').Live j) : s.Live j := by
  obtain ⟨g, there, listens⟩ := live
  by_cases here : j = i
  · subst here
    have inside := (List.getElem?_eq_some_iff.1 at_).1
    simp only [setConnection, List.getElem?_set_self inside, Option.some.injEq] at there
    subst there
    exact ⟨f, at_, same.symm.trans listens⟩
  · simp only [setConnection, List.getElem?_set_ne (Ne.symm here)] at there
    exact ⟨g, there, listens⟩

omit [DecidableEq P] [DecidableEq C] in
theorem listening_of_fire {f f' : FulaConnection P C} {size k : Nat} (fired : f.fire size k = some f') :
    f'.listening = f.listening := by
  obtain ⟨check, -, rfl⟩ := Option.map_eq_some_iff.1 fired
  cases check <;> simp only [FulaConnection.check] <;> split <;> rfl

omit [DecidableEq C] in
/-- After a `stop` all are spared if nobody else was there. -/
theorem spared_stop {i : Nat} {f : FulaConnection P C} (at_ : s.parties.connections[i]? = some f) :
    Spared (s.stop i f) ↔ Alone s (.stop i) := by
  have nobody (event : PeerEvent) (c : Callback) : ¬(s.stop i f).Registered event c := by
    simp [Registered, EventEmitter.listenersOf, stop_listeners]
  constructor
  · rintro spared i' ⟨⟩
    refine ⟨fun j listening => ?_, List.eq_nil_iff_forall_not_mem.2 fun event member => ?_⟩
    · obtain ⟨g, there, listens⟩ := listening
      by_contra other
      refine nobody .connect _ (spared.connection j g ?_ listens .connect)
      simp [Node.stop, setConnection, List.getElem?_set_ne (Ne.symm other), there]
    · obtain ⟨k, there⟩ := List.mem_iff_getElem?.1 member
      exact nobody event _ (spared.other k event there)
  · intro alone
    obtain ⟨only, none_⟩ := alone i rfl
    constructor
    · intro j g there listens
      by_cases here : j = i
      · subst here
        have inside := (List.getElem?_eq_some_iff.1 at_).1
        simp only [Node.stop, setConnection, List.getElem?_set_self inside, Option.some.injEq] at there
        subst there
        cases listens
      · simp only [Node.stop, setConnection, List.getElem?_set_ne (Ne.symm here)] at there
        exact absurd (only j ⟨g, there, listens⟩) here
    · intro k event there
      have there' : s.others[k]? = some event := there
      rw [none_] at there'
      cases there'

/-- A step spares everybody unless it is a `stop` while others are there. -/
theorem Spared.step_iff {a : Act P C} (h : Inv s) (spared : Spared s) (moved : step s a = some s') :
    Spared s' ↔ Alone s a := by
  have other (none_ : ∀ i, a ≠ .stop i) (kept : Spared s') : Spared s' ↔ Alone s a :=
    iff_of_true kept fun i same => absurd same (none_ i)
  cases step_moves moved with
  | create peerIds => exact other (by simp) (spared.create peerIds)
  | listen event => exact other (by simp) (spared.listen event)
  | @told _ manager event conn tells =>
    have h' : Inv { s with manager } := ⟨h.stay, h.distinct, h.fits⟩
    refine other (fun i same => ?_) (spared.kept ?_ ?_ fun j live => ?_)
    · subst same
      cases tells
    · rw [h'.emit]
    · rw [h'.emit]
    · rw [h'.emit] at live
      obtain ⟨g, there, listens⟩ := live
      rw [Parties.calls_connections] at there
      obtain ⟨g', there', rfl⟩ := Option.map_eq_some_iff.1 there
      exact ⟨g', there', listens⟩
  | untold manager quiet => exact other (by simp) ⟨spared.connection, spared.other⟩
  | fires at_ fired =>
    exact other (by simp) (spared.kept rfl rfl fun j => live_setConnection at_ (listening_of_fire fired))
  | @starts i f at_ =>
    have same : f.start.listening = f.listening := rfl
    exact other (by simp) (spared.kept rfl rfl fun j => live_setConnection at_ same)
  | stops at_ => exact spared_stop at_

/-! ### Who hears an event -/

theorem filterMap_only {α β : Type} {g : α → Option β} {a : α} {b : β} {l : List α} (distinct : l.Nodup) (there : a ∈ l)
    (hit : g a = some b) (others : ∀ x ∈ l, x ≠ a → g x = none) : l.filterMap g = [b] := by
  obtain ⟨before, after, rfl⟩ := List.append_of_mem there
  rw [List.nodup_append, List.nodup_cons] at distinct
  have first : before.filterMap g = [] := List.filterMap_eq_nil_iff.2 fun x member =>
    others x (by simp [member]) (distinct.2.2 x member a (by simp))
  have rest : after.filterMap g = [] := List.filterMap_eq_nil_iff.2 fun x member =>
    others x (by simp [member]) fun same => distinct.2.1.1 (same ▸ member)
  simp [first, rest, hit]

omit [DecidableEq P] [DecidableEq C] in
theorem Inv.callbacks_nodup (h : Inv s) (event : PeerEvent) : (s.callbacks event).Nodup :=
  h.distinct.sublist (List.filter_sublist.map _)

omit [DecidableEq P] [DecidableEq C] in
/-- A listener schedules a check for the connection that it belongs to. -/
theorem Inv.checkOf (h : Inv s) {event : PeerEvent} {c : Callback} (called : c ∈ s.callbacks event) (i : Nat) (conn : C) :
    c.checkOf i conn = if c = listener i event then some (check event conn) else none := by
  obtain ⟨l, there, rfl⟩ := List.mem_map.1 called
  obtain ⟨there, named⟩ := EventEmitter.mem_listenersOf.1 there
  rcases h.fits l there with ⟨j, -, is⟩ | ⟨k, -, is⟩
  · rw [is, named]
    cases event <;> simp [listener, Callback.checkOf, check]
  · rw [is]
    simp [Callback.checkOf, Ne.symm listener_ne_other]

theorem Inv.announced (h : Inv s) {a : Act P C} {event : PeerEvent} {conn : C}
    (tells : s.announced a = some (event, conn)) (moved : Node.step s a = some s') : ∃ manager, s' = { s with
      manager, parties := (s.callbacks event).foldl (fun r c => r.call conn c) s.parties } := by
  cases step_moves moved with
  | @told _ manager event' conn' tells' =>
    rw [tells] at tells'
    cases tells'
    have h' : Inv { s with manager } := ⟨h.stay, h.distinct, h.fits⟩
    exact ⟨manager, h'.emit event conn⟩
  | untold manager quiet =>
    rw [tells] at quiet
    cases quiet
  | create peerIds => cases tells
  | listen event => cases tells
  | fires at_ fired => cases tells
  | starts at_ => cases tells
  | stops at_ => cases tells

theorem Spared.reaches {a : Act P C} {event : PeerEvent} {conn : C} (spared : Spared s) (h : Inv s)
    (tells : s.announced a = some (event, conn)) (moved : step s a = some s') : Reaches s s' event conn := by
  obtain ⟨manager, rfl⟩ := h.announced tells moved
  constructor
  · intro i f at_ listens
    have checks : (s.callbacks event).filterMap (·.checkOf i conn) = [check event conn] := by
      refine filterMap_only (h.callbacks_nodup event) (spared.connection i f at_ listens event) ?_ fun c called other => ?_
      · rw [h.checkOf (spared.connection i f at_ listens event), if_pos rfl]
      · rw [h.checkOf called, if_neg other]
    simp only [Parties.calls_connections, at_, checks, Option.map_some]
  · intro k at_
    refine ⟨_, Parties.calls_received conn _ _, List.mem_filterMap.2 ⟨.other k, spared.other k event at_, rfl⟩⟩

/-- From now on everybody but those who stop is told: the listeners are there, and, until somebody
stops, each event reaches them. -/
def Told (s : Node P C) : Prop :=
  Spared s ∧ ∀ acts t, (∀ a ∈ acts, ∀ i, a ≠ .stop i) → run step s acts = some t →
    ∀ a t' event conn, t.announced a = some (event, conn) → step t a = some t' → Reaches t t' event conn

theorem told_iff (h : Inv s) : Told s ↔ Spared s := by
  refine ⟨And.left, fun spared => ⟨spared, fun acts t running reached a t' event conn tells moved => ?_⟩⟩
  have keep (s : Node P C) (a : Act P C) (s' : Node P C) (h : Inv s ∧ Spared s) (running : ∀ i, a ≠ .stop i)
      (moved : Node.step s a = some s') : Inv s' ∧ Spared s' :=
    ⟨h.1.step moved, (h.2.step_iff h.1 moved).2 fun i same => absurd same (running i)⟩
  obtain ⟨inv, spared'⟩ := run_invariant_acts ⟨h, spared⟩ keep running reached
  exact spared'.reaches inv tells moved

/-- **Stopping one connection**: everybody else goes on being told of the peers, at every moment of a
run, just when nobody else is there whenever a connection is stopped. -/
theorem spared_iff {acts : List (Act P C)} (reached : run step ({} : Node P C) acts = some t) :
    (∀ before m, before <+: acts → run step {} before = some m → Told m) ↔ StepsMeet step Alone {} acts := by
  have spared : Spared ({} : Node P C) := ⟨by simp, by simp⟩
  rw [← everywhere_iff (fun _ _ _ (inv : Inv _) moved => inv.step moved)
    (fun _ _ _ inv spared moved => Spared.step_iff inv spared moved) inv_init spared reached]
  refine forall_congr' fun before => forall_congr' fun m => forall_congr' fun _ => forall_congr' fun here => ?_
  exact told_iff (run_invariant inv_init (fun _ _ _ inv moved => inv.step moved) here)

/-! ### A node with one connection -/

/-- The connection of `n` is the only one on the node `s`. -/
structure Single (n : Network P C) (s : Node P C) : Prop where
  inv : Inv s
  manager : s.manager = n.manager
  connections : s.parties.connections = [n.connection]
  listens : n.connection.listening = true → ∀ event, s.Registered event (listener 0 event)
  deaf : n.connection.listening = false → s.emitter.listeners = []

omit [DecidableEq P] [DecidableEq C] in
theorem Single.emit {n : Network P C} (h : Single n s) (manager : ConnectionManager P C) (event : PeerEvent) (conn : C) :
    Single ⟨manager, n.connection.schedule (check event conn)⟩ ({ s with manager }.emit event conn) := by
  have inv := h.inv.told manager event conn
  have h' : Inv { s with manager } := ⟨h.inv.stay, h.inv.distinct, h.inv.fits⟩
  rw [h'.emit] at inv ⊢
  have scheduled : (n.connection.schedule (check event conn)).listening = n.connection.listening := by
    unfold FulaConnection.schedule
    split <;> rfl
  refine ⟨inv, rfl, ?_, by rw [scheduled]; exact h.listens, by rw [scheduled]; exact h.deaf⟩
  have one : s.parties.connections[0]? = some n.connection := by rw [h.connections]; rfl
  apply List.ext_getElem?
  intro i
  rw [Parties.calls_connections]
  change (s.parties.connections[i]?).map _ = _
  rw [h.connections]
  cases i with
  | succ i => rfl
  | zero =>
    have checks : (s.callbacks event).filterMap (·.checkOf 0 conn) =
        if n.connection.listening then [check event conn] else [] := by
      cases listening : n.connection.listening with
      | true =>
        refine filterMap_only (h.inv.callbacks_nodup event) (h.listens listening event) ?_ fun c called other => ?_
        · rw [h.inv.checkOf (h.listens listening event), if_pos rfl]
        · rw [h.inv.checkOf called, if_neg other]
      | false =>
        have none_ : s.callbacks event = [] := by
          simp [callbacks, EventEmitter.listenersOf, h.deaf listening]
        rw [none_]
        rfl
    have told : ({ s with manager } : Node P C).callbacks event = s.callbacks event := rfl
    simp only [List.getElem?_cons_zero, Option.map_some, told, checks, FulaConnection.schedule]
    split <;> simp

/-- What a connection does by itself, it does on the node. -/
theorem Single.step {n n' : Network P C} {a : NetworkAct P C} (h : Single n s) (moved : Network.step n a = some n') :
    ∃ b s', Node.step s b = some s' ∧ Single n' s' := by
  have one : s.parties.connections[0]? = some n.connection := by rw [h.connections]; rfl
  -- fires and starts
  have changed (f : FulaConnection P C) (same : f.listening = n.connection.listening) :
      Single ⟨n.manager, f⟩ (s.setConnection 0 f) :=
    ⟨h.inv.of_emitter rfl rfl (by simp [setConnection]), h.manager, by simp [setConnection, h.connections],
      fun listens => h.listens (same ▸ listens), fun deaf => h.deaf (same ▸ deaf)⟩
  cases a with
  | opened peer conn =>
    cases moved
    refine ⟨.opened peer conn, _, rfl, ?_⟩
    rw [h.manager]
    exact h.emit _ .connect conn
  | closed peer conn =>
    simp only [Network.step] at moved
    split at moved
    · next held =>
      cases moved
      refine ⟨.closed peer conn, _, if_pos (h.manager ▸ held), ?_⟩
      rw [h.manager]
      dsimp only
      split
      · exact h.emit _ .disconnect conn
      · exact ⟨⟨h.inv.stay, h.inv.distinct, h.inv.fits⟩, rfl, h.connections, h.listens, h.deaf⟩
    · cases moved
  | fire k =>
    obtain ⟨f, fired, rfl⟩ := Option.map_eq_some_iff.1 moved
    refine ⟨.fire 0 k, s.setConnection 0 f, ?_, changed f (listening_of_fire fired)⟩
    simp [Node.step, one, h.manager, fired]
  | start =>
    cases moved
    exact ⟨.start 0, s.setConnection 0 n.connection.start, by simp [Node.step, one], changed _ rfl⟩
  | stop =>
    cases moved
    have stopped : Node.step s (.stop 0) = some (s.stop 0 n.connection) := by simp [Node.step, one]
    refine ⟨.stop 0, s.stop 0 n.connection, stopped, h.inv.step stopped, h.manager, ?_, fun listens => ?_, fun _ => ?_⟩
    · simp [Node.stop, setConnection, h.connections]
    · cases listens
    · exact stop_listeners s 0 _

/-- A connection that is alone on its node. -/
theorem single_run {boxPeerIds : List P} {acts : List (NetworkAct P C)} {n : Network P C}
    (reached : run Network.step ⟨{}, { boxPeerIds }⟩ acts = some n) :
    ∃ bs t, run step ({} : Node P C) (.create boxPeerIds :: bs) = some t ∧ Single n t := by
  have made : Single ⟨{}, { boxPeerIds }⟩ (({} : Node P C).create boxPeerIds) := by
    refine ⟨inv_init.create boxPeerIds, rfl, rfl, fun listens event => ?_, fun deaf => by cases deaf⟩
    have spared : Spared ({} : Node P C) := ⟨by simp, by simp⟩
    exact (spared.create boxPeerIds).connection 0 { boxPeerIds } rfl rfl event
  have keep (n : Network P C) (a : NetworkAct P C) (n' : Network P C) (s : Node P C) (single : Single n s) (_ : True)
      (moved : n.step a = some n') : ∃ b s', Node.step s b = some s' ∧ Single n' s' := single.step moved
  obtain ⟨bs, t, reached', single⟩ := run_simulates made keep (fun _ _ => trivial) reached
  exact ⟨bs, t, run_cons.2 ⟨_, rfl, reached'⟩, single⟩

/-- The only connection is stopped while its peer is connected. -/
theorem spared_iff_sample : ∃ t, run step ({} : Node String Nat) [.create ["box"], .opened "box" 0, .stop 0] = some t ∧
    ∀ before m, before <+: [.create ["box"], .opened "box" 0, .stop 0] → run step {} before = some m → Told m := by
  refine ⟨_, rfl, (spared_iff rfl).2 ?_⟩
  have running {s : Node String Nat} {a : Act String Nat} (other : ∀ i, a ≠ .stop i) : Alone s a :=
    fun i same => absurd same (other i)
  refine stepsMeet_cons (running (by simp)) rfl (stepsMeet_cons (running (by simp)) rfl (stepsMeet_cons ?_ rfl trivial))
  rintro i ⟨⟩
  refine ⟨fun j ⟨f, there, _⟩ => ?_, rfl⟩
  have inside := (List.getElem?_eq_some_iff.1 there).1
  exact Nat.lt_one_iff.1 inside

/-- Of two connections the first is stopped: the second one misses the peer that connects next. -/
theorem second_unregistered : ∃ s t f, run step ({} : Node String Nat)
      [.create ["box"], .create ["box"], .stop 0] = some s ∧ step s (.opened "box" 0) = some t ∧
    s.parties.connections[1]? = some f ∧ f.listening = true ∧ t.parties.connections[1]? = some f ∧ ¬Told s := by
  refine ⟨_, _, _, rfl, rfl, rfl, rfl, rfl, fun told => ?_⟩
  have missed := told.1.connection 1 _ rfl rfl .connect
  cases missed

end Node

end Fula.FulaClient
