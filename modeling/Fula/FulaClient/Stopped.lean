import Fula.FulaClient.Listeners

/-!
# After `stop`

`stop` takes the listeners away, but not the checks that earlier events have scheduled.
They still fire, each one looks at the size that the manager has by then, and none asks
whether the connection has been stopped. `silent_iff`: a stopped connection stays offline
and silent just when no check was pending.
-/

namespace Fula.FulaClient.Node
set_option autoImplicit false
open Lib

variable {P C : Type} [DecidableEq P] [DecidableEq C] {s s' t : Node P C} {i : Nat} {f : FulaConnection P C}

/-- Connection `i` is offline, and has emitted nothing but `Offline` since `emitted`. -/
def Off (i : Nat) (emitted : List (ConnectionEvent C)) (t : Node P C) : Prop :=
  ∃ g more, t.parties.connections[i]? = some g ∧ g.status = .Offline ∧ g.emitted = emitted ++ more ∧
    ∀ e ∈ more, e = .status .Offline

/-- Connection `i` is offline and silent in every state that is reached before its next `start`. -/
def Silent (i : Nat) (s : Node P C) : Prop :=
  ∀ f acts t, s.parties.connections[i]? = some f → (∀ a ∈ acts, a ≠ .start i) → run step s acts = some t →
    Off i f.emitted t

/-! ## Without a pending check -/

/-- Nothing can make connection `i` say anything: no check is pending, and no listener is there to
schedule one. -/
structure Deaf (i : Nat) (emitted : List (ConnectionEvent C)) (t : Node P C) : Prop where
  inv : Inv t
  off : ∃ g more, t.parties.connections[i]? = some g ∧ g.status = .Offline ∧ g.timers = [] ∧
    g.emitted = emitted ++ more ∧ ∀ e ∈ more, e = .status .Offline
  unheard : ∀ event, ¬t.Registered event (listener i event)

variable {emitted : List (ConnectionEvent C)}

omit [DecidableEq P] [DecidableEq C] in
theorem Deaf.said (h : Deaf i emitted t) : Off i emitted t := by
  obtain ⟨g, more, at_, offline, -, said, only⟩ := h.off
  exact ⟨g, more, at_, offline, said, only⟩

omit [DecidableEq P] [DecidableEq C] in
/-- What leaves connection `i` and its listeners as they are. -/
theorem Deaf.kept (h : Deaf i emitted t) {t' : Node P C} (inv : Inv t')
    (same : t'.parties.connections[i]? = t.parties.connections[i]?)
    (registered : ∀ event, t'.Registered event (listener i event) → t.Registered event (listener i event)) :
    Deaf i emitted t' := by
  refine ⟨inv, ?_, fun event there => h.unheard event (registered event there)⟩
  rw [same]
  exact h.off

theorem Deaf.step {a : Act P C} (h : Deaf i emitted t) (running : a ≠ .start i) {t' : Node P C}
    (moved : Node.step t a = some t') : Deaf i emitted t' := by
  have inv := h.inv.step moved
  obtain ⟨g, more, at_, offline, none_, said, only⟩ := h.off
  have inside := (List.getElem?_eq_some_iff.1 at_).1
  cases step_moves moved with
  | create peerIds =>
    refine h.kept inv (by simp only [Node.create, List.getElem?_append_left inside]) fun event there => ?_
    simp only [Registered, Node.create, registered_on] at there
    have apart (event' : PeerEvent) : listener i event ≠ listener t.parties.connections.length event' := by
      rw [ne_eq, listener_inj]
      omega
    exact (there.resolve_right fun new => apart .connect new.2).resolve_right fun new => apart .disconnect new.2
  | listen event' =>
    refine h.kept inv rfl fun event there => ?_
    simp only [Registered, registered_on] at there
    exact there.resolve_right fun new => listener_ne_other new.2
  | @told _ manager event conn tells =>
    obtain ⟨manager, same⟩ := h.inv.announced tells moved
    rw [same] at inv ⊢
    refine h.kept inv ?_ fun event there => there
    have unheard : (t.callbacks event).filterMap (·.checkOf i conn) = [] := by
      refine List.filterMap_eq_nil_iff.2 fun c called => ?_
      rw [h.inv.checkOf called, if_neg]
      rintro rfl
      exact h.unheard event called
    rw [Parties.calls_connections, unheard, at_]
    simp
  | untold manager quiet => exact h.kept inv rfl fun event there => there
  | @fires j k f f' at' fired =>
    have other : j ≠ i := by
      rintro rfl
      rw [at_, Option.some.injEq] at at'
      subst at'
      simp [FulaConnection.fire, none_] at fired
    exact h.kept inv (by simp [setConnection, List.getElem?_set_ne other]) fun event there => there
  | @starts j f at' =>
    have other : j ≠ i := by
      rintro rfl
      exact running rfl
    exact h.kept inv (by simp [setConnection, List.getElem?_set_ne other]) fun event there => there
  | @stops j f at' =>
    have nobody (event : PeerEvent) (c : Callback) : ¬(t.stop j f).Registered event c := by
      simp [Registered, EventEmitter.listenersOf, stop_listeners]
    by_cases same : j = i
    · subst same
      rw [at_, Option.some.injEq] at at'
      subst at'
      refine ⟨inv, ⟨g.stop, more ++ [.status .Offline], ?_, rfl, none_, ?_, ?_⟩, fun event => nobody event _⟩
      · simp [Node.stop, setConnection, List.getElem?_set_self inside]
      · simp [FulaConnection.stop, FulaConnection.setStatus, said]
      · intro e member
        rcases List.mem_append.1 member with old | new
        · exact only e old
        · exact List.mem_singleton.1 new
    · refine ⟨inv, ⟨g, more, ?_, offline, none_, said, only⟩, fun event => nobody event _⟩
      simp [Node.stop, setConnection, List.getElem?_set_ne same, at_]

/-! ## With a pending check -/

omit [DecidableEq P] [DecidableEq C] in
/-- An event that nobody listens to. -/
theorem emit_nobody (nobody : t.emitter.listeners = []) (event : PeerEvent) (conn : C) : t.emit event conn = t := by
  have none_ : t.emitter.listenersOf event = [] := by simp [EventEmitter.listenersOf, nobody]
  rw [Node.emit, EventEmitter.emit_of_none none_]

/-- The manager's connections close, one after the other. -/
theorem exists_emptied (nobody : t.emitter.listeners = []) : ∃ acts t', (∀ a ∈ acts, a ≠ .start i) ∧
    run step t acts = some t' ∧ t'.manager.size = 0 ∧ t'.parties = t.parties := by
  generalize measured : t.manager.size = n
  induction n using Nat.strongRecOn generalizing t with
  | ind n ih =>
    rcases Nat.eq_zero_or_pos n with rfl | some_
    · exact ⟨[], t, by simp, rfl, measured, rfl⟩
    · obtain ⟨peer, open_⟩ := ConnectionManager.size_pos.1 (measured ▸ some_)
      obtain ⟨conn, held⟩ := List.exists_mem_of_ne_nil _ open_
      have closes : step t (.closed peer conn) = some { t with manager := t.manager.remove peer conn } := by
        simp only [Node.step, if_pos held]
        split
        · exact congrArg some (emit_nobody (t := { t with manager := t.manager.remove peer conn }) nobody _ _)
        · rfl
      have less : (t.manager.remove peer conn).size < n := measured ▸ ConnectionManager.size_remove_lt held
      obtain ⟨acts, t', running, reached, empty, same⟩ :=
        ih _ less (t := { t with manager := t.manager.remove peer conn }) nobody rfl
      refine ⟨.closed peer conn :: acts, t', ?_, run_cons.2 ⟨_, closes, reached⟩, empty, same⟩
      rintro a (_ | ⟨_, later⟩)
      · simp
      · exact running a later

/-- A check is scheduled by an event only, so there is none where there are no peers. -/
theorem timers_of_isEmpty [IsEmpty P] {acts : List (Act P C)} (reached : run step ({} : Node P C) acts = some s) :
    ∀ f ∈ s.parties.connections, f.timers = [] := by
  refine run_invariant (I := fun s : Node P C => ∀ f ∈ s.parties.connections, f.timers = []) (by simp) ?_ reached
  intro m a m' none_ moved f member
  have set_ {j : Nat} {g : FulaConnection P C} (clear : g.timers = []) (there : f ∈ m.parties.connections.set j g) :
      f.timers = [] := by
    rcases List.mem_or_eq_of_mem_set there with old | rfl
    · exact none_ f old
    · exact clear
  cases a with
  | create peerIds =>
    cases moved
    rcases List.mem_append.1 member with old | new
    · exact none_ f old
    · rw [List.mem_singleton] at new
      rw [new]
  | listen event => cases moved; exact none_ f member
  | opened peer conn => exact isEmptyElim peer
  | closed peer conn => exact isEmptyElim peer
  | fire j k =>
    simp only [Node.step, Option.bind_eq_some_iff, Option.map_eq_some_iff] at moved
    obtain ⟨g, at_, g', fired, -⟩ := moved
    simp [FulaConnection.fire, none_ g (List.mem_of_getElem? at_)] at fired
  | start j =>
    simp only [Node.step, Option.map_eq_some_iff] at moved
    obtain ⟨g, at_, rfl⟩ := moved
    exact set_ (g := g.start) (none_ g (List.mem_of_getElem? at_)) member
  | stop j =>
    simp only [Node.step, Option.map_eq_some_iff] at moved
    obtain ⟨g, at_, rfl⟩ := moved
    exact set_ (g := g.stop) (none_ g (List.mem_of_getElem? at_)) member

/-- A check that fires and sees what it waits for. -/
theorem not_off_of_fire {g : FulaConnection P C} {pending : Check C} {rest : List (Check C)}
    (at_ : t.parties.connections[i]? = some g) (first : g.timers = pending :: rest)
    (sees : (∃ conn, pending = .onConnect conn) ∧ 0 < t.manager.size ∨ pending = .onDisconnect ∧ t.manager.size = 0) :
    ∃ t', step t (.fire i 0) = some t' ∧ ¬Off i emitted t' := by
  have inside := (List.getElem?_eq_some_iff.1 at_).1
  refine ⟨t.setConnection i (FulaConnection.check t.manager.size { g with timers := rest } pending), ?_, ?_⟩
  · simp [Node.step, at_, FulaConnection.fire, first]
  · rintro ⟨g', more, there, offline, -⟩
    simp only [setConnection, List.getElem?_set_self inside, Option.some.injEq] at there
    subst there
    rcases sees with ⟨⟨conn, rfl⟩, some_⟩ | ⟨rfl, none_⟩
    · simp [FulaConnection.check, some_, FulaConnection.setStatus] at offline
    · simp [FulaConnection.check, none_, FulaConnection.setStatus] at offline

/-- From a state without listeners a pending check can make connection `i` come back. -/
theorem not_silent_of_pending [Nonempty P] {g : FulaConnection P C} {pending : Check C} {rest : List (Check C)}
    (nobody : t.emitter.listeners = []) (at_ : t.parties.connections[i]? = some g) (first : g.timers = pending :: rest) :
    ¬Silent i t := by
  intro silent
  cases pending with
  | onConnect conn =>
    -- a connection opens, if none is open
    let opened : Node P C := { t with manager := t.manager.add (Classical.arbitrary P) conn }
    have opens : step t (.opened (Classical.arbitrary P) conn) = some opened :=
      congrArg some (emit_nobody (t := opened) nobody _ _)
    have some_ : 0 < opened.manager.size :=
      ConnectionManager.size_pos.2 ⟨Classical.arbitrary P, by simp [opened, ConnectionManager.held_add]⟩
    obtain ⟨t', fired, back⟩ := not_off_of_fire (t := opened) at_ first (.inl ⟨⟨conn, rfl⟩, some_⟩)
    exact back (silent g [.opened (Classical.arbitrary P) conn, .fire i 0] t' at_ (by simp)
      (run_cons.2 ⟨opened, opens, run_cons.2 ⟨t', fired, rfl⟩⟩))
  | onDisconnect =>
    -- the connections close
    obtain ⟨acts, t', running, reached, empty, same⟩ := exists_emptied (i := i) nobody
    rw [← same] at at_
    obtain ⟨t'', fired, back⟩ := not_off_of_fire at_ first (.inr ⟨rfl, empty⟩)
    rw [same] at at_
    refine back (silent g (acts ++ [.fire i 0]) t'' at_ ?_ (run_snoc.2 ⟨t', reached, fired⟩))
    intro a member
    rcases List.mem_append.1 member with old | new
    · exact running a old
    · rw [List.mem_singleton] at new
      simp [new]

/-- **After `stop`**: whatever has happened before, on a node with any number of connections, a stopped
connection stays offline and silent until its next `start` just when it had no check pending. -/
theorem silent_iff {acts : List (Act P C)} (reached : run step ({} : Node P C) acts = some s)
    (at_ : s.parties.connections[i]? = some f) (stopped : step s (.stop i) = some s') :
    Silent i s' ↔ f.timers = [] := by
  have inv : Inv s := run_invariant inv_init (fun _ _ _ inv moved => inv.step moved) reached
  have inside := (List.getElem?_eq_some_iff.1 at_).1
  have after : s' = s.stop i f := by
    simpa [Node.step, at_] using stopped.symm
  have there : s'.parties.connections[i]? = some f.stop := by
    simp [after, Node.stop, setConnection, List.getElem?_set_self inside]
  have nobody : s'.emitter.listeners = [] := by rw [after, stop_listeners]
  constructor
  · intro silent
    cases pending : f.timers with
    | nil => rfl
    | cons check rest =>
      rcases isEmpty_or_nonempty P with none_ | some_
      · have := timers_of_isEmpty reached f (List.mem_of_getElem? at_)
        rw [pending] at this
        cases this
      · exact absurd silent (not_silent_of_pending nobody there pending)
  · intro none_ g acts t at' running further
    rw [there, Option.some.injEq] at at'
    subst at'
    have deaf : Deaf i f.stop.emitted s' := by
      refine ⟨inv.step stopped, ⟨f.stop, [], there, rfl, none_, (List.append_nil _).symm, by simp⟩, fun event => ?_⟩
      simp [Registered, EventEmitter.listenersOf, nobody]
    exact (run_invariant_acts deaf (fun _ _ _ deaf running moved => deaf.step running moved) running further).said

/-- The check has fired before the connection is stopped. -/
theorem silent_iff_sample : ∃ s s', run step ({} : Node String Nat)
      [.create ["box"], .start 0, .opened "box" 0, .fire 0 0] = some s ∧ step s (.stop 0) = some s' ∧ Silent 0 s' := by
  have reached : ∃ s, run step ({} : Node String Nat) [.create ["box"], .start 0, .opened "box" 0, .fire 0 0] = some s ∧
      s.parties.connections[0]? = some {
        boxPeerIds := ["box"], status := .Online, ready := true, peerStore := ["box"],
        emitted := [.status .Connecting, .connected 0, .status .Online] } := ⟨_, rfl, rfl⟩
  obtain ⟨s, reached, at_⟩ := reached
  have stops : ∃ s', step s (.stop 0) = some s' := by simp [Node.step, at_]
  obtain ⟨s', stopped⟩ := stops
  exact ⟨s, s', reached, stopped, (silent_iff reached at_ stopped).2 rfl⟩

/-- The box connects and `stop` comes before the check: the check fires while the connection is
still open, and the stopped connection is online. -/
theorem online_after_stop : ∃ s' t g, run step ({} : Node String Nat)
      [.create ["box"], .start 0, .opened "box" 0, .stop 0] = some s' ∧
    step s' (.fire 0 0) = some t ∧ t.parties.connections[0]? = some g ∧ g.status = .Online ∧
    g.emitted = [.status .Connecting, .status .Offline, .connected 0, .status .Online] ∧ ¬Silent 0 s' := by
  refine ⟨_, _, _, rfl, rfl, rfl, rfl, rfl, fun silent => ?_⟩
  obtain ⟨g, more, there, offline, -⟩ := silent _ [.fire 0 0] _ rfl (by simp) rfl
  cases there
  cases offline

end Fula.FulaClient.Node
