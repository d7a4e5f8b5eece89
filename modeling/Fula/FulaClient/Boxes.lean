import Fula.Lib.Coercion
import Fula.FulaClient.Connection

/-!
# The box that the client talks to

`connect` keeps the peer ids of the boxes in a `FulaConnection`, but every
request opens its stream on the first connection in the manager's map, whoever
the peer is. That is the peer that has been connected for the longest time
(`stream_iff`), so `streams_to_chosen_iff` asks of each request only whether
that peer was among the ids of the latest `connect`.
-/

namespace Fula.FulaClient
set_option autoImplicit false
open Lib

variable {P C : Type} [DecidableEq P] [DecidableEq C]

/-! ## The client -/

/-- The argument of `connect`. -/
inductive Peers where
  | array (peers : List String)
  | string (peers : String)

def Peers.list : Peers → List String
  | .array peers => peers
  | .string peers => ((Coercion.trim peers.toList).splitOn ',').map String.ofList

/-- The variables of `createClient`: the node's manager and `connection`. The
`FulaConnection`s of earlier `connect` calls are no longer read. -/
structure Client (P C : Type) where
  manager : ConnectionManager P C := {}
  connection : Option (FulaConnection P C) := none

/-- The stream that a request is sent on. -/
structure Stream (P C : Type) where
  peer : P
  conn : C
  protocol : String
  deriving DecidableEq, Repr

namespace Client

def PROTOCOL : String := "fx/file/1"

def connect (createFromB58String : String → Except String P) (peers : Peers) :
    Except String (FulaConnection P C) := do
  let peerIds ← peers.list.mapM createFromB58String
  if peerIds.length > 0 then
    return FulaConnection.start { boxPeerIds := peerIds }
  else throw "Please insert a valid a Box address"

def disconnect (s : Client P C) : Client P C := { s with connection := s.connection.map (·.stop) }

def getConnection (m : ConnectionManager P C) : Option (P × C) :=
  match m.connections with
  | (peer, connection :: _) :: _ => some (peer, connection)
  | _ => none

def getStreamConnection (s : Client P C) (protocol : Option String) : Except String (Stream P C) :=
  match s.connection with
  | none => throw "Peer id of th Box not set"
  | some connection =>
    if connection.boxPeerIds.length = 0 then throw "Peer id of th Box not set"
    else if connection.status = .Offline then throw "Server not Available, connection status: 1"
    else match getConnection s.manager with
      | none => throw "No Available Connection"
      | some (peer, conn) => return ⟨peer, conn, match protocol with
        | none | some "" => PROTOCOL
        | some protocol => protocol⟩

inductive Act (P C : Type) where
  | connect (peers : Peers)
  | disconnect
  | opened (peer : P) (conn : C)
  | closed (peer : P) (conn : C)
  /-- A pending check of the connection fires. -/
  | fire (i : Nat)
  /-- A request opens a stream: no protocol for files, the graph protocol for queries. -/
  | stream (protocol : Option String)

variable (createFromB58String : String → Except String P)

def step (s : Client P C) : Act P C → Option (Client P C)
  | .connect peers => match connect createFromB58String peers with
    | .ok connection => some { s with connection := some connection }
    | .error _ => some s
  | .disconnect => some s.disconnect
  | .opened peer conn =>
    some ⟨s.manager.add peer conn, s.connection.map (·.schedule (.onConnect conn))⟩
  | .closed peer conn =>
    if conn ∈ s.manager.held peer then
      let manager := s.manager.remove peer conn
      some ⟨manager, if manager.held peer = [] then s.connection.map (·.schedule .onDisconnect)
        else s.connection⟩
    else none
  | .fire i => s.connection.bind fun f =>
    (f.fire s.manager.size i).map fun f => { s with connection := some f }
  | .stream _ => some s

/-! ## The history of a client -/

/-- The ids that the latest `connect` call was given. -/
def chosen (acts : List (Act P C)) : List P :=
  acts.foldl (fun ids a => match a with
    | .connect peers => peers.list.filterMap fun peer => (createFromB58String peer).toOption
    | _ => ids) []

def opens (peer : P) : Act P C → Bool
  | .opened p _ => p = peer
  | _ => false

def closes (peer : P) : Act P C → Bool
  | .closed p _ => p = peer
  | _ => false

/-- More connections of the peer were opened than closed. -/
def Connected (acts : List (Act P C)) (peer : P) : Prop :=
  acts.countP (closes peer) < acts.countP (opens peer)

/-- The peer got connected by action `i` and was connected ever since. -/
def ConnectedSince (i : Nat) (acts : List (Act P C)) (peer : P) : Prop :=
  i < acts.length ∧ ¬Connected (acts.take i) peer ∧
    ∀ j, i < j → j ≤ acts.length → Connected (acts.take j) peer

/-- The peer that has been connected for the longest time. -/
def Longest (acts : List (Act P C)) (peer : P) : Prop :=
  ∃ i, ConnectedSince i acts peer ∧ ∀ other j, ConnectedSince j acts other → i ≤ j

/-- `connect` was called, and the connection is not offline. -/
def Available (s : Client P C) : Prop := ∃ f, s.connection = some f ∧ f.status ≠ .Offline

/-- Whenever a request opens a stream, the other end is one of the chosen boxes. -/
def ToChosen (acts : List (Act P C)) : Prop :=
  ∀ before protocol after s stream, acts = before ++ .stream protocol :: after →
    run (step createFromB58String) {} before = some s → s.getStreamConnection protocol = .ok stream →
      stream.peer ∈ chosen createFromB58String before

/-- Whenever a request finds the client available, the peer that has been
connected for the longest time is one of the chosen boxes. -/
def LongestChosen (acts : List (Act P C)) : Prop :=
  ∀ before protocol after s peer, acts = before ++ .stream protocol :: after →
    run (step createFromB58String) {} before = some s → s.Available → Longest before peer →
      peer ∈ chosen createFromB58String before

instance (acts : List (Act P C)) (peer : P) : Decidable (Connected acts peer) :=
  inferInstanceAs (Decidable (_ < _))

variable {createFromB58String} {acts : List (Act P C)} {s : Client P C} {m : ConnectionManager P C}

omit [DecidableEq C] in
theorem connectedSince_snoc {i : Nat} {a : Act P C} {peer : P} : ConnectedSince i (acts ++ [a]) peer ↔
    Connected (acts ++ [a]) peer ∧ (ConnectedSince i acts peer ∨ i = acts.length ∧ ¬Connected acts peer) := by
  constructor
  · rintro ⟨less, before, since⟩
    simp only [List.length_append, List.length_singleton] at less since
    have now := since (acts.length + 1) less le_rfl
    rw [List.take_of_length_le (by simp)] at now
    refine ⟨now, ?_⟩
    rcases Nat.lt_succ_iff_lt_or_eq.1 less with earlier | rfl
    · refine .inl ⟨earlier, ?_, fun j after bound => ?_⟩
      · rwa [List.take_append_of_le_length earlier.le] at before
      · have there := since j after (by omega)
        rwa [List.take_append_of_le_length bound] at there
    · exact .inr ⟨rfl, by rwa [List.take_left] at before⟩
  · rintro ⟨now, ⟨less, before, since⟩ | ⟨rfl, before⟩⟩
    · refine ⟨by simp; omega, ?_, fun j after bound => ?_⟩
      · rwa [List.take_append_of_le_length less.le]
      · rcases Nat.lt_or_ge acts.length j with last | earlier
        · rwa [List.take_of_length_le (by simp; omega)]
        · rw [List.take_append_of_le_length earlier]
          exact since j after earlier
    · refine ⟨by simp, by rwa [List.take_left], fun j after bound => ?_⟩
      rwa [List.take_of_length_le (by simp; omega)]

omit [DecidableEq C] in
theorem ConnectedSince.connected {i : Nat} {peer : P} (h : ConnectedSince i acts peer) :
    Connected acts peer := by
  have now := h.2.2 acts.length h.1 le_rfl
  rwa [List.take_length] at now

omit [DecidableEq C] in
theorem ConnectedSince.le {i j : Nat} {peer : P} (hi : ConnectedSince i acts peer)
    (hj : ConnectedSince j acts peer) :
    i ≤ j := by
  by_contra later
  exact hi.2.1 (hj.2.2 i (by omega) hi.1.le)

/-- The map after the actions: who is in it, and in which order. -/
structure Ordered (acts : List (Act P C)) (m : ConnectionManager P C) : Prop where
  count : ∀ peer, (m.held peer).length + acts.countP (closes peer) = acts.countP (opens peer)
  since : ∀ peer ∈ m.peers, ∃ i, ConnectedSince i acts peer
  order : m.peers.Pairwise fun p q => ∀ i j, ConnectedSince i acts p → ConnectedSince j acts q → i < j

omit [DecidableEq C] in
theorem Ordered.connected (h : Ordered acts m) {peer : P} : Connected acts peer ↔ peer ∈ m.peers := by
  rw [ConnectionManager.mem_peers, ← List.length_pos_iff_ne_nil, Connected, ← h.count peer]
  omega

omit [DecidableEq C] in
/-- Peers leave the map anywhere, and enter it last. -/
theorem Ordered.next {m' : ConnectionManager P C} {a : Act P C} (h : Ordered acts m)
    (count : ∀ peer, (m'.held peer).length + (acts ++ [a]).countP (closes peer) =
      (acts ++ [a]).countP (opens peer))
    (moved : m'.peers.Sublist m.peers ∨ ∃ peer, peer ∉ m.peers ∧ m'.peers = m.peers ++ [peer]) :
    Ordered (acts ++ [a]) m' := by
  have now : ∀ peer ∈ m'.peers, Connected (acts ++ [a]) peer := by
    intro peer there
    rw [ConnectionManager.mem_peers, ← List.length_pos_iff_ne_nil] at there
    rw [Connected, ← count peer]
    omega
  have kept : ∀ peer ∈ m.peers, ∀ i, ConnectedSince i (acts ++ [a]) peer → ConnectedSince i acts peer := by
    intro peer old i since
    rcases (connectedSince_snoc.1 since).2 with same | ⟨-, apart⟩
    · exact same
    · exact absurd (h.connected.2 old) apart
  have order : m.peers.Pairwise fun p q =>
      ∀ i j, ConnectedSince i (acts ++ [a]) p → ConnectedSince j (acts ++ [a]) q → i < j := by
    refine h.order.imp_of_mem ?_
    intro p q hp hq before i j hi hj
    exact before i j (kept p hp i hi) (kept q hq j hj)
  refine ⟨count, fun peer there => ?_, ?_⟩
  · by_cases old : peer ∈ m.peers
    · obtain ⟨i, since⟩ := h.since peer old
      exact ⟨i, connectedSince_snoc.2 ⟨now peer there, .inl since⟩⟩
    · exact ⟨acts.length, connectedSince_snoc.2 ⟨now peer there, .inr ⟨rfl, fun c => old (h.connected.1 c)⟩⟩⟩
  · rcases moved with fewer | ⟨peer, fresh, more⟩
    · exact order.sublist fewer
    · rw [more, List.pairwise_append]
      refine ⟨order, List.pairwise_singleton _ _, fun p old q new i j hi hj => ?_⟩
      rw [List.mem_singleton] at new
      subst new
      have earlier := (kept p old i hi).1
      rcases (connectedSince_snoc.1 hj).2 with since | ⟨rfl, -⟩
      · exact absurd (h.connected.1 since.connected) fresh
      · exact earlier

theorem Ordered.step {a : Act P C} {s' : Client P C} (h : Ordered acts s.manager)
    (moved : step createFromB58String s a = some s') : Ordered (acts ++ [a]) s'.manager := by
  have other : (∀ peer, opens peer a = false ∧ closes peer a = false) → s'.manager = s.manager →
      Ordered (acts ++ [a]) s'.manager := by
    intro silent same
    refine h.next (fun peer => ?_) (.inl (by rw [same]))
    simp only [List.countP_append, List.countP_singleton, silent peer, same]
    exact h.count peer
  cases a with
  | connect peers =>
    refine other (fun _ => ⟨rfl, rfl⟩) ?_
    simp only [Client.step] at moved
    split at moved <;> cases moved <;> rfl
  | disconnect => cases moved; exact other (fun _ => ⟨rfl, rfl⟩) rfl
  | opened peer conn =>
    cases moved
    refine h.next (fun q => ?_) ?_
    · have := h.count q
      by_cases same : q = peer
      · subst same
        simp [ConnectionManager.held_add, opens, closes]
        omega
      · simp [ConnectionManager.held_add, opens, closes, same, Ne.symm same]
        omega
    · rw [ConnectionManager.peers_add]
      split
      · exact .inl (List.Sublist.refl _)
      · next fresh => exact .inr ⟨peer, fresh, rfl⟩
  | closed peer conn =>
    simp only [Client.step] at moved
    split at moved
    · next held =>
      cases moved
      refine h.next (fun q => ?_) (.inl (ConnectionManager.peers_remove _ _ _))
      have := h.count q
      by_cases same : q = peer
      · subst same
        have some_ := List.length_pos_of_mem held
        simp [ConnectionManager.held_remove, opens, closes, List.length_erase_of_mem held]
        omega
      · simp [ConnectionManager.held_remove, opens, closes, same, Ne.symm same]
        omega
    · cases moved
  | fire i =>
    obtain ⟨f, -, fired⟩ := Option.bind_eq_some_iff.1 moved
    obtain ⟨f', -, rfl⟩ := Option.map_eq_some_iff.1 fired
    exact other (fun _ => ⟨rfl, rfl⟩) rfl
  | stream protocol => cases moved; exact other (fun _ => ⟨rfl, rfl⟩) rfl

/-- In every history the map is ordered. -/
theorem ordered (reached : run (step createFromB58String) ({} : Client P C) acts = some s) :
    Ordered acts s.manager := by
  refine run_history (I := fun acts s => Ordered acts s.manager) ?_
    (fun _ _ _ _ h moved => h.step moved) reached
  exact ⟨fun _ => rfl, fun peer there => absurd there List.not_mem_nil, List.Pairwise.nil⟩

omit [DecidableEq C] in
theorem Ordered.longest (h : Ordered acts m) {peer : P} : Longest acts peer ↔ m.peers.head? = some peer := by
  cases split : m.peers with
  | nil =>
    simp only [List.head?_nil, reduceCtorEq, iff_false]
    rintro ⟨i, since, -⟩
    have there := h.connected.1 since.connected
    simp [split] at there
  | cons first rest =>
    obtain ⟨i, since⟩ := h.since first (by simp [split])
    have order := h.order
    rw [split, List.pairwise_cons] at order
    have least : ∀ other j, ConnectedSince j acts other → i ≤ j := by
      intro other j hj
      have there := h.connected.1 hj.connected
      rw [split] at there
      rcases List.mem_cons.1 there with rfl | later
      · exact since.le hj
      · exact (order.1 other later i j since hj).le
    rw [List.head?_cons, Option.some.injEq]
    constructor
    · rintro ⟨j, hj, longest⟩
      have there := h.connected.1 hj.connected
      rw [split] at there
      rcases List.mem_cons.1 there with rfl | later
      · rfl
      · have less := order.1 peer later i j since hj
        have more := longest first i since
        omega
    · rintro rfl
      exact ⟨i, since, least⟩

omit [DecidableEq P] [DecidableEq C] in
theorem getConnection_peer (m : ConnectionManager P C) : (getConnection m).map Prod.fst = m.peers.head? := by
  unfold getConnection
  cases split : m.connections with
  | nil => simp [ConnectionManager.peers, split]
  | cons entry rest =>
    obtain ⟨peer, conns⟩ := entry
    cases conns with
    | nil => exact absurd rfl (m.nonempty (peer, []) (by simp [split]))
    | cons conn conns => simp [ConnectionManager.peers, split]

/-- `connect` never makes a connection without box ids. -/
def Named (s : Client P C) : Prop := ∀ f, s.connection = some f → f.boxPeerIds ≠ []

omit [DecidableEq P] [DecidableEq C] in
theorem named_map (h : Named s) (change : FulaConnection P C → FulaConnection P C)
    (same : ∀ f, (change f).boxPeerIds = f.boxPeerIds) (m : ConnectionManager P C) :
    Named ⟨m, s.connection.map change⟩ := by
  intro f' made
  obtain ⟨f, there, rfl⟩ := Option.map_eq_some_iff.1 made
  rw [same]
  exact h f there

omit [DecidableEq P] [DecidableEq C] in
theorem schedule_boxPeerIds (check : Check C) (f : FulaConnection P C) :
    (f.schedule check).boxPeerIds = f.boxPeerIds := by
  unfold FulaConnection.schedule
  split <;> rfl

omit [DecidableEq P] [DecidableEq C] in
theorem check_boxPeerIds (size : Nat) (f : FulaConnection P C) (check : Check C) :
    (f.check size check).boxPeerIds = f.boxPeerIds := by
  cases check <;> simp only [FulaConnection.check] <;> split <;> rfl

theorem Named.step {a : Act P C} {s' : Client P C} (h : Named s)
    (moved : step createFromB58String s a = some s') :
    Named s' := by
  cases a with
  | connect peers =>
    simp only [Client.step] at moved
    split at moved
    · next connection made =>
      cases moved
      rintro f' ⟨⟩
      simp only [connect, bind, Except.bind] at made
      split at made
      · cases made
      · split at made
        · next ids => cases made; exact List.ne_nil_of_length_pos ids
        · cases made
    · cases moved; exact h
  | disconnect => cases moved; exact named_map h (·.stop) (fun _ => rfl) _
  | opened peer conn => cases moved; exact named_map h _ (schedule_boxPeerIds _) _
  | closed peer conn =>
    simp only [Client.step] at moved
    split at moved
    · cases moved
      split
      · exact named_map h _ (schedule_boxPeerIds _) _
      · exact h
    · cases moved
  | fire i =>
    obtain ⟨f, there, fired⟩ := Option.bind_eq_some_iff.1 moved
    obtain ⟨f', checked, rfl⟩ := Option.map_eq_some_iff.1 fired
    obtain ⟨check, -, rfl⟩ := Option.map_eq_some_iff.1 checked
    rintro f' ⟨⟩
    rw [check_boxPeerIds]
    exact h f there
  | stream protocol => cases moved; exact h

/-- A stream is opened exactly when the client is available and a peer is
connected, and it goes to the one that has been for the longest time. -/
theorem stream_iff (reached : run (step createFromB58String) ({} : Client P C) acts = some s)
    {protocol : Option String}
    {peer : P} : (∃ stream, s.getStreamConnection protocol = .ok stream ∧ stream.peer = peer) ↔
      s.Available ∧ Longest acts peer := by
  have named : Named s := run_invariant (I := Named) (fun f made => by cases made)
    (fun _ _ _ h moved => h.step moved) reached
  rw [(ordered reached).longest, ← getConnection_peer]
  unfold getStreamConnection Available
  cases made : s.connection with
  | none => simp
  | some f =>
    have ids : f.boxPeerIds.length ≠ 0 := by simpa using named f made
    by_cases offline : f.status = .Offline
    · simp [ids, offline]
    · cases getConnection s.manager with
      | none => simp [ids, offline]
      | some found => simp [ids, offline, pure, Except.pure]

/-- **Streams go to a chosen box** exactly in the histories where each request
that finds the client available finds a chosen box connected for the longest time. -/
theorem streams_to_chosen_iff (createFromB58String : String → Except String P) (acts : List (Act P C)) :
    ToChosen createFromB58String acts ↔ LongestChosen createFromB58String acts := by
  constructor
  · intro all before protocol after s peer split reached available longest
    have opens : ∃ stream, s.getStreamConnection protocol = .ok stream ∧ stream.peer = peer :=
      (stream_iff reached).2 ⟨available, longest⟩
    obtain ⟨stream, made, rfl⟩ := opens
    exact all before protocol after s stream split reached made
  · intro all before protocol after s stream split reached made
    obtain ⟨available, longest⟩ := (stream_iff reached).1 ⟨stream, made, rfl⟩
    exact all before protocol after s stream.peer split reached available longest

/-- One box is connected when another is chosen, and the query goes to the first. -/
theorem stream_to_other_peer :
    ¬ToChosen .ok [.connect (.array ["box1"]), .opened "box1" 0, .connect (.array ["box2"]),
    .stream (some "fx/graph/1")] := by
  intro all
  have there := all [.connect (.array ["box1"]), .opened "box1" 0, .connect (.array ["box2"])]
    (some "fx/graph/1") [] _ ⟨"box1", 0, "fx/graph/1"⟩ rfl rfl rfl
  revert there
  decide

end Client

end Fula.FulaClient
