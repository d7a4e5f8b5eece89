import Fula.Lib.Run

/-!
# The connection to the box

A `FulaConnection` listens to the connection manager. Each `peer:connect` and
`peer:disconnect` only schedules a check 100 ms later, and the check looks at
the size the manager has by then, so checks of both kinds are pending side by
side. A pending check is an entry of `timers`, and any of them may fire next.
`status_tracks_connections` says what `status` is once none is pending.
-/

namespace Fula.FulaClient
set_option autoImplicit false
open Lib

variable {P C : Type} [DecidableEq P] [DecidableEq C]

/-! ## The connection manager -/

/-- One peer's connections changed. -/
def change (peer : P) (f : List C → List C) (entry : P × List C) : P × List C :=
  if entry.1 = peer then (entry.1, f entry.2) else entry

omit [DecidableEq C] in
@[simp] theorem change_fst (peer : P) (f : List C → List C) (entry : P × List C) : (change peer f entry).1 = entry.1 := by
  unfold change
  split <;> rfl

omit [DecidableEq C] in
theorem map_change (peer : P) (f : List C → List C) (entries : List (P × List C)) :
    (entries.map (change peer f)).map Prod.fst = entries.map Prod.fst := by
  rw [List.map_map]
  exact List.map_congr_left fun entry _ => change_fst peer f entry

/-- The manager's map, from each connected peer to its open connections. A new
peer comes last, and a peer is dropped with its last connection. -/
structure ConnectionManager (P C : Type) where
  connections : List (P × List C) := []
  distinct : (connections.map Prod.fst).Nodup := by simp
  nonempty : ∀ entry ∈ connections, entry.2 ≠ [] := by simp

namespace ConnectionManager

/-- The connected peers, in the order of the map. -/
def peers (m : ConnectionManager P C) : List P := m.connections.map Prod.fst

/-- The open connections of a peer. -/
def held (m : ConnectionManager P C) (peer : P) : List C := (m.connections.lookup peer).getD []

/-- How many connections are open. -/
def size (m : ConnectionManager P C) : Nat := (m.connections.map fun entry => entry.2.length).sum

def add (m : ConnectionManager P C) (peer : P) (conn : C) : ConnectionManager P C where
  connections :=
    if peer ∈ m.peers then m.connections.map (change peer (· ++ [conn])) else m.connections ++ [(peer, [conn])]
  distinct := by
    split
    · rw [map_change]
      exact m.distinct
    · next fresh =>
      rw [List.map_append, List.nodup_append]
      refine ⟨m.distinct, by simp, fun old there new same => ?_⟩
      simp only [List.map_cons, List.map_nil, List.mem_singleton] at same
      exact fun equal => fresh (by rw [peers, ← same, ← equal]; exact there)
  nonempty := by
    intro entry member
    split at member
    · obtain ⟨old, there, rfl⟩ := List.mem_map.1 member
      unfold change
      split
      · simp
      · exact m.nonempty old there
    · rcases List.mem_append.1 member with there | new
      · exact m.nonempty entry there
      · simp only [List.mem_singleton] at new
        simp [new]

def remove (m : ConnectionManager P C) (peer : P) (conn : C) : ConnectionManager P C where
  connections := (m.connections.map (change peer (·.erase conn))).filter fun entry => !entry.2.isEmpty
  distinct := by
    refine (List.filter_sublist.map Prod.fst).nodup ?_
    rw [map_change]
    exact m.distinct
  nonempty := by
    intro entry member
    simpa using (List.mem_filter.1 member).2

omit [DecidableEq C] in
theorem held_of_mem {m : ConnectionManager P C} {entry : P × List C} (there : entry ∈ m.connections) :
    m.held entry.1 = entry.2 := by
  obtain ⟨peer, conns⟩ := entry
  obtain ⟨before, after, split⟩ := List.append_of_mem there
  have distinct := m.distinct
  rw [split, List.map_append, List.nodup_append] at distinct
  have absent : before.lookup peer = none := by
    rw [List.lookup_eq_none_iff]
    intro other member
    have apart := distinct.2.2 other.1 (List.mem_map_of_mem member) peer (by simp)
    simpa using Ne.symm apart
  simp [held, split, List.lookup_append, absent]

omit [DecidableEq C] in
theorem held_eq_nil {m : ConnectionManager P C} {peer : P} (absent : peer ∉ m.peers) : m.held peer = [] := by
  have none_ : m.connections.lookup peer = none := by
    rw [List.lookup_eq_none_iff]
    intro entry member
    have apart : entry.1 ≠ peer := fun named => absent (List.mem_map.2 ⟨entry, member, named⟩)
    simpa using Ne.symm apart
  simp [held, none_]

omit [DecidableEq C] in
theorem mem_peers {m : ConnectionManager P C} {peer : P} : peer ∈ m.peers ↔ m.held peer ≠ [] := by
  constructor
  · intro member
    obtain ⟨entry, there, rfl⟩ := List.mem_map.1 member
    rw [held_of_mem there]
    exact m.nonempty entry there
  · intro some_
    by_contra absent
    exact some_ (held_eq_nil absent)

omit [DecidableEq C] in
theorem size_pos {m : ConnectionManager P C} : 0 < m.size ↔ ∃ peer, m.held peer ≠ [] := by
  constructor
  · intro some_
    cases split : m.connections with
    | nil => simp [size, split] at some_
    | cons entry rest => exact ⟨entry.1, mem_peers.1 (List.mem_map_of_mem (by simp [split]))⟩
  · rintro ⟨peer, some_⟩
    obtain ⟨entry, there, -⟩ := List.mem_map.1 (mem_peers.2 some_)
    have open_ := List.length_pos_of_ne_nil (m.nonempty entry there)
    exact Nat.lt_of_lt_of_le open_ (List.le_sum_of_mem (List.mem_map_of_mem there))

omit [DecidableEq C] in
theorem peers_add (m : ConnectionManager P C) (peer : P) (conn : C) :
    (m.add peer conn).peers = if peer ∈ m.peers then m.peers else m.peers ++ [peer] := by
  have split : (m.add peer conn).connections =
      if peer ∈ m.peers then m.connections.map (change peer (· ++ [conn])) else m.connections ++ [(peer, [conn])] := rfl
  rw [peers, split]
  split_ifs
  · exact map_change _ _ _
  · simp [peers]

theorem peers_remove (m : ConnectionManager P C) (peer : P) (conn : C) :
    (m.remove peer conn).peers.Sublist m.peers := by
  unfold peers
  rw [← map_change peer (·.erase conn) m.connections]
  exact List.filter_sublist.map Prod.fst

omit [DecidableEq C] in
theorem held_add (m : ConnectionManager P C) (peer : P) (conn : C) (q : P) :
    (m.add peer conn).held q = if q = peer then m.held q ++ [conn] else m.held q := by
  by_cases old : q ∈ m.peers
  · obtain ⟨entry, there, rfl⟩ := List.mem_map.1 old
    rw [held_of_mem there]
    by_cases same : entry.1 = peer
    · subst same
      have changed : (entry.1, entry.2 ++ [conn]) ∈ (m.add entry.1 conn).connections := by
        simp only [add, old, if_true]
        exact List.mem_map.2 ⟨entry, there, by simp [change]⟩
      simpa using held_of_mem changed
    · have kept : entry ∈ (m.add peer conn).connections := by
        unfold add
        split
        · exact List.mem_map.2 ⟨entry, there, by simp [change, same]⟩
        · exact List.mem_append_left _ there
      simpa [same] using held_of_mem kept
  · by_cases same : q = peer
    · subst same
      have new : (q, [conn]) ∈ (m.add q conn).connections := by simp [add, old]
      simpa [held_eq_nil old] using held_of_mem new
    · have absent : q ∉ (m.add peer conn).peers := by
        rw [peers_add]
        split <;> simp [old, same]
      simp [held_eq_nil old, held_eq_nil absent, same]

theorem held_remove (m : ConnectionManager P C) (peer : P) (conn : C) (q : P) :
    (m.remove peer conn).held q = if q = peer then (m.held q).erase conn else m.held q := by
  by_cases old : q ∈ m.peers
  · obtain ⟨entry, there, rfl⟩ := List.mem_map.1 old
    have after : (change peer (·.erase conn) entry).2 = if entry.1 = peer then entry.2.erase conn else entry.2 := by
      unfold change
      split <;> rfl
    rw [held_of_mem there, ← after, ← change_fst peer (·.erase conn) entry]
    by_cases gone : (change peer (·.erase conn) entry).2 = []
    · rw [gone, change_fst]
      refine held_eq_nil fun still => ?_
      obtain ⟨entry', member, same⟩ := List.mem_map.1 still
      obtain ⟨changed, full⟩ := List.mem_filter.1 member
      obtain ⟨before, there', rfl⟩ := List.mem_map.1 changed
      have one : before = entry := by
        exact List.inj_on_of_nodup_map m.distinct there' there (by rw [← same, change_fst])
      subst one
      simp [gone] at full
    · exact held_of_mem (List.mem_filter.2 ⟨List.mem_map_of_mem there, by simpa using gone⟩)
  · have absent : q ∉ (m.remove peer conn).peers := fun still => old ((peers_remove m peer conn).subset still)
    simp [held_eq_nil old, held_eq_nil absent]

theorem size_remove_lt {m : ConnectionManager P C} {peer : P} {conn : C} (held : conn ∈ m.held peer) :
    (m.remove peer conn).size < m.size := by
  obtain ⟨entry, there, rfl⟩ := List.mem_map.1 (mem_peers.2 (List.ne_nil_of_mem held))
  rw [held_of_mem there] at held
  -- an entry that is dropped has no connections left
  have counted (entries : List (P × List C)) :
      ((entries.filter fun entry => !entry.2.isEmpty).map fun entry => entry.2.length).sum =
        (entries.map fun entry => entry.2.length).sum := by
    induction entries with
    | nil => rfl
    | cons entry entries ih =>
      rw [List.filter_cons]
      cases none_ : entry.2 with
      | nil => simpa [none_] using ih
      | cons c cs => simpa [none_] using ih
  have fewer (other : P × List C) : (change entry.1 (·.erase conn) other).2.length ≤ other.2.length := by
    unfold change
    split
    · exact List.length_erase_le
    · exact Nat.le_refl _
  have less : (change entry.1 (·.erase conn) entry).2.length < entry.2.length := by
    have some_ := List.length_pos_of_mem held
    simp only [change, if_true, List.length_erase_of_mem held]
    omega
  simp only [size, remove, counted, List.map_map]
  exact List.sum_lt_sum _ _ (fun other _ => fewer other) ⟨entry, there, less⟩

end ConnectionManager

/-! ## The listeners and their checks -/

inductive Status where
  | Online
  | Offline
  | Connecting
  deriving DecidableEq, Repr

inductive ConnectionEvent (C : Type) where
  | connected (lpConnection : C)
  | status (status : Status)
  deriving DecidableEq

/-- A pending `setTimeout` of 100 ms. -/
inductive Check (C : Type) where
  | onConnect (connection : C)
  | onDisconnect
  deriving DecidableEq

structure FulaConnection (P C : Type) where
  boxPeerIds : List P
  status : Status := .Offline
  ready : Bool := false
  /-- Its listeners are registered with the manager. -/
  listening : Bool := true
  /-- The peers whose addresses it has put in the peer store. -/
  peerStore : List P := []
  timers : List (Check C) := []
  emitted : List (ConnectionEvent C) := []

namespace FulaConnection

def setStatus (f : FulaConnection P C) (status : Status) : FulaConnection P C :=
  { f with status, emitted := f.emitted ++ [.status status] }

/-- `setTimeout`, by a listener that is registered. -/
def schedule (f : FulaConnection P C) (check : Check C) : FulaConnection P C :=
  if f.listening then { f with timers := f.timers ++ [check] } else f

def start (f : FulaConnection P C) : FulaConnection P C :=
  { setStatus { f with peerStore := f.peerStore ++ f.boxPeerIds } .Connecting with ready := true }

/-- `stop`, up to the manager's own `stop`, whose connections close later. -/
def stop (f : FulaConnection P C) : FulaConnection P C :=
  setStatus { f with listening := false, peerStore := f.peerStore.filter (· ∉ f.boxPeerIds) } .Offline

/-- A check fires while the manager has this size. -/
def check (size : Nat) (f : FulaConnection P C) : Check C → FulaConnection P C
  | .onConnect connection =>
    if 0 < size then setStatus { f with status := .Online, emitted := f.emitted ++ [.connected connection] } .Online else f
  | .onDisconnect => if size = 0 then f.setStatus .Connecting else f

def fire (size : Nat) (f : FulaConnection P C) (i : Nat) : Option (FulaConnection P C) :=
  f.timers[i]?.map fun pending => check size { f with timers := f.timers.eraseIdx i } pending

end FulaConnection

/-- A `FulaConnection` and the manager it was made for. -/
structure Network (P C : Type) where
  manager : ConnectionManager P C
  connection : FulaConnection P C

inductive NetworkAct (P C : Type) where
  /-- A connection to a peer opens: `peer:connect`. -/
  | opened (peer : P) (conn : C)
  /-- One closes: `peer:disconnect` when it was the peer's last. -/
  | closed (peer : P) (conn : C)
  /-- A pending check fires. -/
  | fire (i : Nat)
  | start
  | stop

namespace Network

def step (s : Network P C) : NetworkAct P C → Option (Network P C)
  | .opened peer conn => some ⟨s.manager.add peer conn, s.connection.schedule (.onConnect conn)⟩
  | .closed peer conn =>
    if conn ∈ s.manager.held peer then
      let manager := s.manager.remove peer conn
      some ⟨manager, if manager.held peer = [] then s.connection.schedule .onDisconnect else s.connection⟩
    else none
  | .fire i => (s.connection.fire s.manager.size i).map (⟨s.manager, ·⟩)
  | .start => some { s with connection := s.connection.start }
  | .stop => some { s with connection := s.connection.stop }

/-! ## What the status says -/

/-- The status follows the size, or a check that will set it is pending. -/
structure Tracks (s : Network P C) : Prop where
  listening : s.connection.listening = true
  online : 0 < s.manager.size → s.connection.status = .Online ∨ ∃ conn, Check.onConnect conn ∈ s.connection.timers
  connecting : s.manager.size = 0 → s.connection.status = .Connecting ∨ Check.onDisconnect ∈ s.connection.timers

variable {s s' t : Network P C}

omit [DecidableEq P] [DecidableEq C] in
/-- The other checks stay pending when one fires. -/
theorem still_pending {timers : List (Check C)} {i : Nat} {fired other : Check C} (at_ : timers[i]? = some fired)
    (pending : other ∈ timers) (apart : other ≠ fired) : other ∈ timers.eraseIdx i := by
  obtain ⟨j, there⟩ := List.mem_iff_getElem?.1 pending
  refine List.mem_eraseIdx_iff_getElem?.2 ⟨j, ?_, there⟩
  rintro rfl
  rw [at_, Option.some.injEq] at there
  exact apart there.symm

omit [DecidableEq P] [DecidableEq C] in
theorem started (listening : s.connection.listening = true) (alone : s.manager.size = 0) :
    Tracks { s with connection := s.connection.start } where
  listening := listening
  online := by simp [alone]
  connecting _ := .inl rfl

omit [DecidableEq C] in
theorem Tracks.opened (h : Tracks s) (peer : P) (conn : C) :
    Tracks ⟨s.manager.add peer conn, s.connection.schedule (.onConnect conn)⟩ where
  listening := by simp [FulaConnection.schedule, h.listening]
  online _ := .inr ⟨conn, by simp [FulaConnection.schedule, h.listening]⟩
  connecting empty := by
    have some_ : 0 < (s.manager.add peer conn).size :=
      ConnectionManager.size_pos.2 ⟨peer, by simp [ConnectionManager.held_add]⟩
    exact absurd empty (by dsimp only; omega)

theorem Tracks.closed (h : Tracks s) {peer : P} {conn : C} (held : conn ∈ s.manager.held peer) :
    Tracks ⟨s.manager.remove peer conn,
      if (s.manager.remove peer conn).held peer = [] then s.connection.schedule .onDisconnect else s.connection⟩ := by
  have before := h.online (ConnectionManager.size_pos.2 ⟨peer, List.ne_nil_of_mem held⟩)
  split
  · constructor
    · simp [FulaConnection.schedule, h.listening]
    · intro _
      simp only [FulaConnection.schedule, h.listening, if_true, List.mem_append]
      exact before.imp_right fun ⟨c, pending⟩ => ⟨c, .inl pending⟩
    · intro _
      exact .inr (by simp [FulaConnection.schedule, h.listening])
  · next more =>
    refine ⟨h.listening, fun _ => before, fun empty => ?_⟩
    have some_ := ConnectionManager.size_pos.2 ⟨peer, more⟩
    exact absurd empty (by dsimp only; omega)

omit [DecidableEq P] [DecidableEq C] in
theorem Tracks.fired (h : Tracks s) {i : Nat} {f : FulaConnection P C}
    (moved : s.connection.fire s.manager.size i = some f) : Tracks ⟨s.manager, f⟩ := by
  obtain ⟨fired, at_, rfl⟩ := Option.map_eq_some_iff.1 moved
  cases fired with
  | onConnect conn =>
    by_cases some_ : 0 < s.manager.size
    · simp only [FulaConnection.check, some_, if_true]
      exact ⟨h.listening, fun _ => .inl rfl, fun empty => absurd empty (by dsimp only; omega)⟩
    · simp only [FulaConnection.check, some_, if_false]
      refine ⟨h.listening, fun full => absurd full some_, fun empty => ?_⟩
      exact (h.connecting empty).imp_right fun pending => still_pending at_ pending (fun same => by cases same)
  | onDisconnect =>
    by_cases empty : s.manager.size = 0
    · simp only [FulaConnection.check, empty, if_true]
      exact ⟨h.listening, fun full => absurd full (by dsimp only; omega), fun _ => .inl rfl⟩
    · simp only [FulaConnection.check, empty, if_false]
      refine ⟨h.listening, fun full => ?_, fun none_ => absurd none_ empty⟩
      exact (h.online full).imp_right fun ⟨c, pending⟩ => ⟨c, still_pending at_ pending fun same => by cases same⟩

theorem Tracks.step {a : NetworkAct P C} (h : Tracks s) (meanwhile : a ≠ .start ∧ a ≠ .stop)
    (moved : s.step a = some s') : Tracks s' := by
  cases a with
  | opened peer conn =>
    cases moved
    exact h.opened peer conn
  | closed peer conn =>
    simp only [Network.step] at moved
    split at moved
    · next held => cases moved; exact h.closed held
    · cases moved
  | fire i =>
    obtain ⟨f, fired, rfl⟩ := Option.map_eq_some_iff.1 moved
    exact h.fired fired
  | start => exact absurd rfl meanwhile.1
  | stop => exact absurd rfl meanwhile.2

/-- Only `stop` unregisters the listeners. -/
theorem step_listening {a : NetworkAct P C} (listening : s.connection.listening = true) (running : a ≠ .stop)
    (moved : s.step a = some s') : s'.connection.listening = true := by
  cases a with
  | opened peer conn => cases moved; simp [FulaConnection.schedule, listening]
  | closed peer conn =>
    simp only [Network.step] at moved
    split at moved
    · cases moved
      dsimp only
      split <;> simp [FulaConnection.schedule, listening]
    · cases moved
  | fire i =>
    obtain ⟨f, fired, rfl⟩ := Option.map_eq_some_iff.1 moved
    obtain ⟨check, -, rfl⟩ := Option.map_eq_some_iff.1 fired
    cases check <;> simp only [FulaConnection.check] <;> split <;> exact listening
  | start => cases moved; exact listening
  | stop => exact absurd rfl running

/-- **The status tracks the connections**: a `FulaConnection` made at any time
and started while the manager is empty says, whenever no check is pending,
whether a connection is open. -/
theorem status_tracks_connections {boxPeerIds : List P} {manager : ConnectionManager P C}
    {before acts : List (NetworkAct P C)} {idle : Network P C}
    (made : run step ⟨manager, { boxPeerIds }⟩ before = some idle) (running : ∀ a ∈ before, a ≠ .stop)
    (alone : idle.manager.size = 0) (reached : run step idle (.start :: acts) = some t)
    (meanwhile : ∀ a ∈ acts, a ≠ .start ∧ a ≠ .stop) (settled : t.connection.timers = []) :
    t.connection.status = if 0 < t.manager.size then .Online else .Connecting := by
  have listening : idle.connection.listening = true :=
    run_invariant_acts (I := fun s => s.connection.listening = true) rfl (fun _ _ _ => step_listening) running made
  obtain ⟨first, begun, rest⟩ := run_cons.1 reached
  cases begun
  have tracks : Tracks t :=
    run_invariant_acts (started listening alone) (fun _ _ _ h => h.step) meanwhile rest
  split
  · next some_ => simpa [settled] using tracks.online some_
  · next none_ => simpa [settled] using tracks.connecting (by omega)

/-- A box connects twice and one connection closes, before the checks fire. -/
theorem status_tracks_connections_sample :
    ∃ t, run step (⟨{}, { boxPeerIds := ["box"] }⟩ : Network String Nat)
        [.start, .opened "box" 0, .opened "box" 1, .closed "box" 0, .fire 1, .fire 0] = some t ∧
      t.connection.status = .Online :=
  ⟨_, rfl, @status_tracks_connections String Nat _ _ _ ["box"] {} []
    [.opened "box" 0, .opened "box" 1, .closed "box" 0, .fire 1, .fire 0] _ rfl (by simp) rfl rfl (by simp) rfl⟩

end Network

end Fula.FulaClient
