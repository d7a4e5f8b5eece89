import Fula.Lib.Run

/-!
# Starting and stopping the box (`apps/box/src/app.ts`, `graph/index.ts`)

The node, the connection to IPFS and the OrbitDB instance are promises of their modules. `app()` resolves
the first two and awaits them, `registerGraph` resolves the third, and `graceful()` awaits the node and
OrbitDB and stops both. A promise is resolved once for the process, so that a second `app()` goes on with
what the first has created.

* `event_due`: what is started and stopped, and after what.
* `returned_of_first`: an `app()` succeeds only where the first one has its node and its connection.
-/

namespace Fula.Box.Lifecycle
set_option autoImplicit false
open Lib

inductive Settled (α : Type) where
  | fulfilled (value : α)
  | rejected
  deriving DecidableEq

/-- What `createLibp2p` is fulfilled with: `undefined` when the configuration throws. -/
inductive Node where
  | node
  | undefined
  deriving DecidableEq

/-- What a call of `app()` awaits. -/
inductive AppAt where
  | libp2p
  | ipfs
  /-- `libp2pNode.start()` -/
  | start
  /-- `libp2pNode.handle` in `registerFile`. -/
  | handleFile
  /-- `libp2pNode.handle` in `registerGraph`. -/
  | handleGraph
  | createInstance
  | subscribe
  | publish
  | returned
  | rejected
  deriving DecidableEq

/-- A call of `app()`, with what has become of its own `createLibp2p` and `createIPFSClusterProxy`. -/
structure App where
  created : Option (Settled Node) := none
  connected : Option (Settled Unit) := none
  at_ : AppAt := .libp2p
  /-- `libp2pNode`: whose node it is, and whether it is one. -/
  libp2pNode : Option (Nat × Node) := none

/-- What a call of `graceful()` awaits. -/
inductive GracefulAt where
  | libp2p
  | orbitDb
  /-- `otbitDb.stop()` -/
  | stopOrbitDb
  /-- `libp2p.stop()` -/
  | stopLibp2p
  | returned
  | rejected
  deriving DecidableEq

structure Graceful where
  at_ : GracefulAt := .libp2p
  libp2p : Option (Nat × Node) := none
  otbitDb : Option Nat := none

/-- What is done with the node of the `app()` call `k`, and with the OrbitDB instance of call `i`. -/
inductive Event where
  | start (k : Nat)
  | createInstance (i : Nat)
  | stopOrbitDb (i : Nat)
  | stopLibp2p (k : Nat)
  deriving DecidableEq

structure State where
  /-- Whose `createLibp2p` the promise `libp2pPromise` has been resolved with. -/
  libp2pPromise : Option Nat := none
  /-- Whose `createIPFSClusterProxy`. -/
  ipfsPromise : Option Nat := none
  /-- Whose instance. -/
  orbitDBPromise : Option Nat := none
  apps : List App := []
  gracefuls : List Graceful := []
  log : List Event := []

inductive Act where
  /-- A call of `app()`. -/
  | app
  | created (k : Nat) (node : Settled Node)
  | connected (k : Nat) (ipfs : Settled Unit)
  /-- Call `i` of `app()` goes on; `ok` says how what it awaited has ended, where that is none of the promises. -/
  | goOn (i : Nat) (ok : Bool)
  /-- A call of `graceful()`. -/
  | graceful
  | gracefulGoesOn (i : Nat) (ok : Bool)

/-- The `resolve` of `resolveLater`. -/
def resolve (promise : Option Nat) (k : Nat) : Option Nat := promise.or (some k)

namespace State

def getLibp2p (s : State) : Option (Nat × Settled Node) := do
  let k ← s.libp2pPromise
  let app ← s.apps[k]?
  let node ← app.created
  return (k, node)

def getIPFS (s : State) : Option (Settled Unit) := do
  let k ← s.ipfsPromise
  let app ← s.apps[k]?
  app.connected

def setApp (s : State) (i : Nat) (app : App) : State := { s with apps := s.apps.set i app }

def setGraceful (s : State) (i : Nat) (g : Graceful) : State := { s with gracefuls := s.gracefuls.set i g }

end State

/-- Where `app()` goes when what it awaits is fulfilled. -/
def AppAt.next : AppAt → AppAt
  | .start => .handleFile
  | .handleFile => .handleGraph
  | .handleGraph => .createInstance
  | .createInstance => .subscribe
  | .subscribe => .publish
  | .publish => .returned
  | at_ => at_

/-- `app()`, from what it awaits to what it awaits next. -/
def goOn (s : State) (i : Nat) (app : App) (ok : Bool) : Option State :=
  match app.at_ with
  | .libp2p => match s.getLibp2p with
    | some (k, .fulfilled libp2pNode) => some (s.setApp i { app with at_ := .ipfs, libp2pNode := some (k, libp2pNode) })
    | some (_, .rejected) => some (s.setApp i { app with at_ := .rejected })
    | none => none
  | .ipfs => match s.getIPFS with
    | some (.fulfilled _) => match app.libp2pNode with
      | some (k, .node) => some { s.setApp i { app with at_ := .start } with log := s.log ++ [.start k] }
      -- `undefined.start()`
      | _ => some (s.setApp i { app with at_ := .rejected })
    | some .rejected => some (s.setApp i { app with at_ := .rejected })
    | none => none
  | .returned | .rejected => none
  | .createInstance =>
    if ok then some { s.setApp i { app with at_ := .subscribe } with
      orbitDBPromise := resolve s.orbitDBPromise i
      log := s.log ++ [.createInstance i] }
    else some (s.setApp i { app with at_ := .rejected })
  | at_ => some (s.setApp i { app with at_ := if ok then at_.next else .rejected })

/-- `graceful()` -/
def gracefulGoesOn (s : State) (i : Nat) (g : Graceful) (ok : Bool) : Option State :=
  match g.at_ with
  | .libp2p => match s.getLibp2p with
    | some (k, .fulfilled libp2p) => some (s.setGraceful i { g with at_ := .orbitDb, libp2p := some (k, libp2p) })
    | some (_, .rejected) => some (s.setGraceful i { g with at_ := .rejected })
    | none => none
  | .orbitDb => match s.orbitDBPromise with
    | some j => some { s.setGraceful i { g with at_ := .stopOrbitDb, otbitDb := some j } with log := s.log ++ [.stopOrbitDb j] }
    | none => none
  | .stopOrbitDb =>
    if ok then match g.libp2p with
      | some (k, .node) => some { s.setGraceful i { g with at_ := .stopLibp2p } with log := s.log ++ [.stopLibp2p k] }
      | _ => some (s.setGraceful i { g with at_ := .rejected })
    else some (s.setGraceful i { g with at_ := .rejected })
  | .stopLibp2p => some (s.setGraceful i { g with at_ := if ok then .returned else .rejected })
  | .returned | .rejected => none

def step (s : State) : Act → Option State
  | .app => some { s with
      libp2pPromise := resolve s.libp2pPromise s.apps.length
      ipfsPromise := resolve s.ipfsPromise s.apps.length
      apps := s.apps ++ [{}] }
  | .created k node => match s.apps[k]? with
    | some app => if app.created.isNone then some (s.setApp k { app with created := some node }) else none
    | none => none
  | .connected k ipfs => match s.apps[k]? with
    | some app => if app.connected.isNone then some (s.setApp k { app with connected := some ipfs }) else none
    | none => none
  | .goOn i ok => s.apps[i]?.bind fun app => goOn s i app ok
  | .graceful => some { s with gracefuls := s.gracefuls ++ [{}] }
  | .gracefulGoesOn i ok => s.gracefuls[i]?.bind fun g => gracefulGoesOn s i g ok

/-! ## Steps -/

/-- `app()` has called `libp2pNode.start()`. -/
def AppAt.started : AppAt → Bool
  | .libp2p | .ipfs | .rejected => false
  | .start | .handleFile | .handleGraph | .createInstance | .subscribe | .publish | .returned => true

section
variable {s s' : State} {a : Act}

inductive Moves (s : State) : Act → State → Prop where
  | app : Moves s .app { s with
      libp2pPromise := resolve s.libp2pPromise s.apps.length
      ipfsPromise := resolve s.ipfsPromise s.apps.length
      apps := s.apps ++ [{}] }
  | created {k : Nat} {app : App} (there : s.apps[k]? = some app) (pending : app.created = none) (c : Settled Node) :
      Moves s (.created k c) (s.setApp k { app with created := some c })
  | connected {k : Nat} {app : App} (there : s.apps[k]? = some app) (pending : app.connected = none) (c : Settled Unit) :
      Moves s (.connected k c) (s.setApp k { app with connected := some c })
  | node {i k : Nat} {app : App} {n : Node} {ok : Bool} (there : s.apps[i]? = some app)
      (got : s.getLibp2p = some (k, .fulfilled n)) :
      Moves s (.goOn i ok) (s.setApp i { app with at_ := .ipfs, libp2pNode := some (k, n) })
  | starts {i k : Nat} {app : App} {ok : Bool} (there : s.apps[i]? = some app) (got : s.getIPFS = some (.fulfilled ()))
      (own : app.libp2pNode = some (k, .node)) :
      Moves s (.goOn i ok) { s.setApp i { app with at_ := .start } with log := s.log ++ [.start k] }
  | creates {i : Nat} {app : App} {ok : Bool} (there : s.apps[i]? = some app) (waits : app.at_ = .createInstance) :
      Moves s (.goOn i ok) { s.setApp i { app with at_ := .subscribe } with
        orbitDBPromise := resolve s.orbitDBPromise i
        log := s.log ++ [.createInstance i] }
  | goesOn {i : Nat} {app : App} {ok : Bool} (there : s.apps[i]? = some app) (started : app.at_.started = true) :
      Moves s (.goOn i ok) (s.setApp i { app with at_ := app.at_.next })
  | rejects {i : Nat} {app : App} {ok : Bool} (there : s.apps[i]? = some app) :
      Moves s (.goOn i ok) (s.setApp i { app with at_ := .rejected })
  | graceful : Moves s .graceful { s with gracefuls := s.gracefuls ++ [{}] }
  | gracefulNode {i k : Nat} {g : Graceful} {n : Node} {ok : Bool} (there : s.gracefuls[i]? = some g)
      (got : s.getLibp2p = some (k, .fulfilled n)) :
      Moves s (.gracefulGoesOn i ok) (s.setGraceful i { g with at_ := .orbitDb, libp2p := some (k, n) })
  | stopsOrbitDb {i j : Nat} {g : Graceful} {ok : Bool} (there : s.gracefuls[i]? = some g) (got : s.orbitDBPromise = some j) :
      Moves s (.gracefulGoesOn i ok) { s.setGraceful i { g with at_ := .stopOrbitDb, otbitDb := some j } with
        log := s.log ++ [.stopOrbitDb j] }
  | stopsLibp2p {i k : Nat} {g : Graceful} {ok : Bool} (there : s.gracefuls[i]? = some g) (waits : g.at_ = .stopOrbitDb)
      (own : g.libp2p = some (k, .node)) :
      Moves s (.gracefulGoesOn i ok) { s.setGraceful i { g with at_ := .stopLibp2p } with log := s.log ++ [.stopLibp2p k] }
  | gracefulEnds {i : Nat} {g : Graceful} {ok : Bool} (there : s.gracefuls[i]? = some g) (at_ : GracefulAt)
      (ends : at_ = .rejected ∨ g.at_ = .stopLibp2p ∧ at_ = .returned) :
      Moves s (.gracefulGoesOn i ok) (s.setGraceful i { g with at_ := at_ })

theorem goOn_moves {i : Nat} {app : App} {ok : Bool} (there : s.apps[i]? = some app)
    (moved : Lifecycle.goOn s i app ok = some s') : Moves s (.goOn i ok) s' := by
  unfold Lifecycle.goOn at moved
  cases waits : app.at_ with
  | libp2p =>
    simp only [waits] at moved
    split at moved
    · next k n got => cases moved; exact .node there got
    · cases moved; exact .rejects there
    · cases moved
  | ipfs =>
    simp only [waits] at moved
    split at moved
    · next got =>
      split at moved
      · next k own => cases moved; exact .starts there got own
      · cases moved; exact .rejects there
    · cases moved; exact .rejects there
    · cases moved
  | createInstance =>
    simp only [waits] at moved
    split at moved
    · cases moved; exact .creates there waits
    · cases moved; exact .rejects there
  | returned => simp only [waits] at moved; cases moved
  | rejected => simp only [waits] at moved; cases moved
  | start | handleFile | handleGraph | subscribe | publish =>
    simp only [waits] at moved
    cases moved
    cases ok with
    | false => exact .rejects there
    | true =>
      have on : Moves s (.goOn i true) (s.setApp i { app with at_ := app.at_.next }) := .goesOn there (by rw [waits]; rfl)
      rwa [waits] at on

theorem gracefulGoesOn_moves {i : Nat} {g : Graceful} {ok : Bool} (there : s.gracefuls[i]? = some g)
    (moved : Lifecycle.gracefulGoesOn s i g ok = some s') : Moves s (.gracefulGoesOn i ok) s' := by
  unfold Lifecycle.gracefulGoesOn at moved
  cases waits : g.at_ with
  | libp2p =>
    simp only [waits] at moved
    split at moved
    · next k n got => cases moved; exact .gracefulNode there got
    · cases moved; exact .gracefulEnds there _ (.inl rfl)
    · cases moved
  | orbitDb =>
    simp only [waits] at moved
    split at moved
    · next j got => cases moved; exact .stopsOrbitDb there got
    · cases moved
  | stopOrbitDb =>
    simp only [waits] at moved
    split at moved
    · split at moved
      · next k own => cases moved; exact .stopsLibp2p there waits own
      · cases moved; exact .gracefulEnds there _ (.inl rfl)
    · cases moved; exact .gracefulEnds there _ (.inl rfl)
  | stopLibp2p =>
    simp only [waits] at moved
    cases moved
    cases ok with
    | false => exact .gracefulEnds there _ (.inl rfl)
    | true => exact .gracefulEnds there _ (.inr ⟨waits, rfl⟩)
  | returned => simp only [waits] at moved; cases moved
  | rejected => simp only [waits] at moved; cases moved

theorem step_moves (moved : Lifecycle.step s a = some s') : Moves s a s' := by
  cases a with
  | app => cases moved; exact .app
  | created k c =>
    simp only [Lifecycle.step] at moved
    split at moved
    · next app there =>
      split at moved
      · next pending => cases moved; exact .created there (Option.isNone_iff_eq_none.1 pending) c
      · cases moved
    · cases moved
  | connected k c =>
    simp only [Lifecycle.step] at moved
    split at moved
    · next app there =>
      split at moved
      · next pending => cases moved; exact .connected there (Option.isNone_iff_eq_none.1 pending) c
      · cases moved
    · cases moved
  | goOn i ok =>
    obtain ⟨app, there, moved⟩ := Option.bind_eq_some_iff.1 moved
    exact goOn_moves there moved
  | graceful => cases moved; exact .graceful
  | gracefulGoesOn i ok =>
    obtain ⟨g, there, moved⟩ := Option.bind_eq_some_iff.1 moved
    exact gracefulGoesOn_moves there moved

/-! ## What is done, and after what -/

/-- The first call has got its node and its connection. -/
def FirstReady (s : State) : Prop :=
  ∃ first, s.apps[0]? = some first ∧ first.created = some (.fulfilled .node) ∧ first.connected = some (.fulfilled ())

/-- The instance that was created first. -/
def firstInstance (log : List Event) : Option Nat :=
  log.findSome? fun e => match e with
    | .createInstance i => some i
    | .start _ | .stopOrbitDb _ | .stopLibp2p _ => none

/-- What has to be done before. -/
def Event.Due (before : List Event) : Event → Prop
  | .start k => k = 0
  | .createInstance _ => .start 0 ∈ before
  | .stopOrbitDb j => firstInstance before = some j
  | .stopLibp2p k => k = 0 ∧ ∃ j, .stopOrbitDb j ∈ before

def AllDue (log : List Event) : Prop := ∀ before e after, log = before ++ e :: after → e.Due before

theorem AllDue.snoc {log : List Event} {e : Event} (old : AllDue log) (new : e.Due log) : AllDue (log ++ [e]) := by
  intro before d after split
  rcases List.eq_nil_or_concat after with rfl | ⟨rest, last, rfl⟩
  · obtain ⟨rfl, same⟩ := List.append_inj' split rfl
    cases same
    exact new
  · rw [List.concat_eq_append, ← List.cons_append, ← List.append_assoc] at split
    obtain ⟨same, -⟩ := List.append_inj' split rfl
    exact old before d rest same

theorem firstInstance_snoc (log : List Event) (e : Event) :
    firstInstance (log ++ [e]) = (firstInstance log).or (firstInstance [e]) :=
  List.findSome?_append

/-- What has been done stays done, and what the first call's promises have come to stays. -/
structure Later (s s' : State) : Prop where
  log : ∀ e ∈ s.log, e ∈ s'.log
  first : ∀ first, s.apps[0]? = some first → ∃ first', s'.apps[0]? = some first' ∧
    (∀ c, first.created = some c → first'.created = some c) ∧ ∀ c, first.connected = some c → first'.connected = some c

theorem Later.same (log : ∀ e ∈ s.log, e ∈ s'.log) (apps : s'.apps = s.apps) : Later s s' where
  log := log
  first first there := ⟨first, by rw [apps]; exact there, fun _ => id, fun _ => id⟩

theorem Later.trans {s'' : State} (first : Later s s') (second : Later s' s'') : Later s s'' where
  log e there := second.log e (first.log e there)
  first app there := by
    obtain ⟨app', there', created, connected⟩ := first.first app there
    obtain ⟨app'', there'', created', connected'⟩ := second.first app' there'
    exact ⟨app'', there'', fun c done => created' c (created c done), fun c done => connected' c (connected c done)⟩

theorem Later.set {i : Nat} {app app' : App} (there : s.apps[i]? = some app) (log : ∀ e ∈ s.log, e ∈ s'.log)
    (apps : s'.apps = s.apps.set i app') (created : ∀ c, app.created = some c → app'.created = some c)
    (connected : ∀ c, app.connected = some c → app'.connected = some c) : Later s s' where
  log := log
  first first at_ := by
    rw [apps]
    cases i with
    | zero =>
      rw [there, Option.some.injEq] at at_
      subst at_
      exact ⟨app', List.getElem?_set_self (List.getElem?_eq_some_iff.1 there).1, created, connected⟩
    | succ i => exact ⟨first, by rw [List.getElem?_set_ne (Nat.succ_ne_zero i)]; exact at_, fun _ => id, fun _ => id⟩

theorem Moves.later (moves : Moves s a s') : Later s s' := by
  cases moves with
  | app =>
    refine ⟨fun _ => id, fun first there => ⟨first, ?_, fun _ => id, fun _ => id⟩⟩
    exact (List.getElem?_append_left (List.getElem?_eq_some_iff.1 there).1).trans there
  | created there pending c =>
    refine Later.set there (fun _ => id) rfl (fun c' done => ?_) fun _ => id
    rw [pending] at done
    cases done
  | connected there pending c =>
    refine Later.set there (fun _ => id) rfl (fun _ => id) fun c' done => ?_
    rw [pending] at done
    cases done
  | node there got => exact Later.set there (fun _ => id) rfl (fun _ => id) fun _ => id
  | starts there got own => exact Later.set there (fun _ => List.mem_append_left _) rfl (fun _ => id) fun _ => id
  | creates there waits => exact Later.set there (fun _ => List.mem_append_left _) rfl (fun _ => id) fun _ => id
  | goesOn there started => exact Later.set there (fun _ => id) rfl (fun _ => id) fun _ => id
  | rejects there => exact Later.set there (fun _ => id) rfl (fun _ => id) fun _ => id
  | graceful => exact .same (fun _ => id) rfl
  | gracefulNode there got => exact .same (fun _ => id) rfl
  | stopsOrbitDb there got => exact .same (fun _ => List.mem_append_left _) rfl
  | stopsLibp2p there waits own => exact .same (fun _ => List.mem_append_left _) rfl
  | gracefulEnds there at_ ends => exact .same (fun _ => id) rfl

theorem FirstReady.later (ready : FirstReady s) (later : Later s s') : FirstReady s' := by
  obtain ⟨first, there, created, connected⟩ := ready
  obtain ⟨first', there', keeps, keeps'⟩ := later.first first there
  exact ⟨first', there', keeps _ created, keeps' _ connected⟩

structure AppInv (s : State) (app : App) : Prop where
  node : ∀ k n, app.libp2pNode = some (k, n) →
    k = 0 ∧ ∃ first, s.apps[0]? = some first ∧ first.created = some (.fulfilled n)
  started : app.at_.started = true → FirstReady s ∧ .start 0 ∈ s.log

theorem AppInv.later {app : App} (inv : AppInv s app) (later : Later s s') : AppInv s' app where
  node k n own := by
    obtain ⟨zero, first, there, created⟩ := inv.node k n own
    obtain ⟨first', there', keeps, -⟩ := later.first first there
    exact ⟨zero, first', there', keeps _ created⟩
  started began := ⟨(inv.started began).1.later later, later.log _ (inv.started began).2⟩

structure GracefulInv (s : State) (g : Graceful) : Prop where
  node : ∀ k n, g.libp2p = some (k, n) → k = 0
  stopping : g.at_ = .stopOrbitDb ∨ g.at_ = .stopLibp2p ∨ g.at_ = .returned → ∃ j, .stopOrbitDb j ∈ s.log

theorem GracefulInv.later {g : Graceful} (inv : GracefulInv s g) (later : Later s s') : GracefulInv s' g where
  node := inv.node
  stopping stops := by
    obtain ⟨j, stopped⟩ := inv.stopping stops
    exact ⟨j, later.log _ stopped⟩

structure Inv (s : State) : Prop where
  libp2pPromise : s.libp2pPromise = if s.apps.length = 0 then none else some 0
  ipfsPromise : s.ipfsPromise = if s.apps.length = 0 then none else some 0
  orbitDBPromise : s.orbitDBPromise = firstInstance s.log
  apps : ∀ app ∈ s.apps, AppInv s app
  gracefuls : ∀ g ∈ s.gracefuls, GracefulInv s g
  ready : ∀ k, .start k ∈ s.log → FirstReady s
  due : AllDue s.log

/-- What the node's promise gives is the first call's. -/
theorem Inv.getLibp2p (inv : Inv s) {k : Nat} {c : Settled Node} (got : s.getLibp2p = some (k, c)) :
    k = 0 ∧ ∃ first, s.apps[0]? = some first ∧ first.created = some c := by
  simp only [State.getLibp2p, inv.libp2pPromise, bind, Option.bind_eq_some_iff] at got
  obtain ⟨j, promise, app, there, c', created, same⟩ := got
  cases same
  split at promise
  · cases promise
  · cases promise
    exact ⟨rfl, app, there, created⟩

theorem Inv.getIPFS (inv : Inv s) {c : Settled Unit} (got : s.getIPFS = some c) :
    ∃ first, s.apps[0]? = some first ∧ first.connected = some c := by
  simp only [State.getIPFS, inv.ipfsPromise, bind, Option.bind_eq_some_iff] at got
  obtain ⟨j, promise, app, there, connected⟩ := got
  split at promise
  · cases promise
  · cases promise
    exact ⟨app, there, connected⟩

/-- What is left to see of a step between calls that are there. -/
theorem Inv.frame (inv : Inv s) (later : Later s s') (length : s'.apps.length = s.apps.length)
    (libp2p : s'.libp2pPromise = s.libp2pPromise) (ipfs : s'.ipfsPromise = s.ipfsPromise)
    (apps : ∀ app ∈ s'.apps, app ∈ s.apps ∨ AppInv s' app)
    (gracefuls : ∀ g ∈ s'.gracefuls, g ∈ s.gracefuls ∨ GracefulInv s' g) (orbit : s'.orbitDBPromise = firstInstance s'.log)
    (ready : ∀ k, .start k ∈ s'.log → .start k ∈ s.log ∨ FirstReady s') (due : AllDue s'.log) : Inv s' where
  libp2pPromise := by rw [libp2p, length, inv.libp2pPromise]
  ipfsPromise := by rw [ipfs, length, inv.ipfsPromise]
  orbitDBPromise := orbit
  apps app there := (apps app there).elim (fun old => (inv.apps app old).later later) id
  gracefuls g there := (gracefuls g there).elim (fun old => (inv.gracefuls g old).later later) id
  ready k started := (ready k started).elim (fun old => (inv.ready k old).later later) id
  due := due

/-- A call of `app()` goes on, and nothing is done. -/
theorem Inv.setApp (inv : Inv s) {i : Nat} {app : App} (later : Later s (s.setApp i app))
    (mine : AppInv (s.setApp i app) app) : Inv (s.setApp i app) := by
  refine inv.frame later List.length_set rfl rfl (fun other there => ?_) (fun _ => .inl) inv.orbitDBPromise (fun _ => .inl) inv.due
  rcases List.mem_or_eq_of_mem_set there with old | rfl
  · exact .inl old
  · exact .inr mine

theorem Inv.setGraceful (inv : Inv s) {i : Nat} {g : Graceful} (later : Later s (s.setGraceful i g))
    (mine : GracefulInv (s.setGraceful i g) g) : Inv (s.setGraceful i g) := by
  refine inv.frame later rfl rfl rfl (fun _ => .inl) (fun other there => ?_) inv.orbitDBPromise (fun _ => .inl) inv.due
  rcases List.mem_or_eq_of_mem_set there with old | rfl
  · exact .inl old
  · exact .inr mine

/-- A call of `app()` goes on, and something is done. -/
theorem Inv.setAppLog (inv : Inv s) {i : Nat} {app : App} {e : Event} {orbit : Option Nat}
    (later : Later s { s.setApp i app with orbitDBPromise := orbit, log := s.log ++ [e] })
    (mine : AppInv { s.setApp i app with orbitDBPromise := orbit, log := s.log ++ [e] } app)
    (first : orbit = firstInstance (s.log ++ [e])) (ready : ∀ k, e = .start k → FirstReady s) (due : e.Due s.log) :
    Inv { s.setApp i app with orbitDBPromise := orbit, log := s.log ++ [e] } := by
  refine inv.frame later List.length_set rfl rfl (fun other there => ?_) (fun _ => .inl) first (fun k started => ?_)
    (inv.due.snoc due)
  · rcases List.mem_or_eq_of_mem_set there with old | rfl
    · exact .inl old
    · exact .inr mine
  · rcases List.mem_append.1 started with old | new
    · exact .inl old
    · exact .inr ((ready k (List.mem_singleton.1 new).symm).later later)

theorem Inv.setGracefulLog (inv : Inv s) {i : Nat} {g : Graceful} {e : Event}
    (later : Later s { s.setGraceful i g with log := s.log ++ [e] })
    (mine : GracefulInv { s.setGraceful i g with log := s.log ++ [e] } g) (none_ : firstInstance [e] = none)
    (never : ∀ k, e ≠ .start k) (due : e.Due s.log) : Inv { s.setGraceful i g with log := s.log ++ [e] } := by
  refine inv.frame later rfl rfl rfl (fun _ => .inl) (fun other there => ?_) ?_ (fun k started => ?_) (inv.due.snoc due)
  · rcases List.mem_or_eq_of_mem_set there with old | rfl
    · exact .inl old
    · exact .inr mine
  · rw [firstInstance_snoc, none_, Option.or_none]
    exact inv.orbitDBPromise
  · rcases List.mem_append.1 started with old | new
    · exact .inl old
    · exact absurd (List.mem_singleton.1 new).symm (never k)

/-- The first call's promise is the one a promise resolved late follows. -/
theorem resolve_called (called : Nat) :
    resolve (if called = 0 then none else some 0) called = if called + 1 = 0 then none else some 0 := by
  rcases Nat.eq_zero_or_pos called with rfl | before
  · rfl
  · rw [if_neg (Nat.ne_of_gt before), if_neg (Nat.succ_ne_zero called)]
    rfl

theorem Inv.step (inv : Inv s) (moved : Lifecycle.step s a = some s') : Inv s' := by
  have moves := step_moves moved
  have later := moves.later
  cases moves with
  | app =>
    refine ⟨?_, ?_, inv.orbitDBPromise, fun app there => ?_, fun g there => (inv.gracefuls g there).later later,
      fun k started => (inv.ready k started).later later, inv.due⟩
    · rw [inv.libp2pPromise, List.length_append, List.length_singleton]
      exact resolve_called s.apps.length
    · rw [inv.ipfsPromise, List.length_append, List.length_singleton]
      exact resolve_called s.apps.length
    · rcases List.mem_append.1 there with old | new
      · exact (inv.apps app old).later later
      · rw [List.mem_singleton.1 new]
        exact ⟨fun k n own => (by cases own), fun began => by cases began⟩
  | created there pending c =>
    have mine := (inv.apps _ (List.mem_of_getElem? there)).later later
    exact inv.setApp later ⟨mine.node, mine.started⟩
  | connected there pending c =>
    have mine := (inv.apps _ (List.mem_of_getElem? there)).later later
    exact inv.setApp later ⟨mine.node, mine.started⟩
  | node there got =>
    obtain ⟨zero, first, at_, created⟩ := inv.getLibp2p got
    refine inv.setApp later ⟨fun k n own => ?_, fun began => by cases began⟩
    cases own
    obtain ⟨first', at', keeps, -⟩ := later.first first at_
    exact ⟨zero, first', at', keeps _ created⟩
  | @starts i k app ok there got own =>
    have mine := inv.apps _ (List.mem_of_getElem? there)
    obtain ⟨rfl, first, at_, created⟩ := mine.node k .node own
    obtain ⟨first', at', connected⟩ := inv.getIPFS got
    rw [at_, Option.some.injEq] at at'
    subst at'
    have ready : FirstReady s := ⟨first, at_, created, connected⟩
    refine inv.setAppLog later ⟨(mine.later later).node, fun _ => ⟨ready.later later, by simp⟩⟩ ?_ (fun _ _ => ready) rfl
    rw [firstInstance_snoc, ← inv.orbitDBPromise]
    exact (Option.or_none).symm
  | @creates i app ok there waits =>
    have mine := inv.apps _ (List.mem_of_getElem? there)
    have began := mine.started (by rw [waits]; rfl)
    refine inv.setAppLog later ⟨(mine.later later).node, fun _ => ⟨began.1.later later, by simp [began.2]⟩⟩ ?_
      (fun k same => by cases same) began.2
    rw [firstInstance_snoc, ← inv.orbitDBPromise]
    rfl
  | goesOn there started =>
    have mine := (inv.apps _ (List.mem_of_getElem? there)).later later
    exact inv.setApp later ⟨mine.node, fun _ => mine.started started⟩
  | rejects there =>
    have mine := (inv.apps _ (List.mem_of_getElem? there)).later later
    exact inv.setApp later ⟨mine.node, fun began => by cases began⟩
  | graceful =>
    refine inv.frame later rfl rfl rfl (fun _ => .inl) (fun g there => ?_) inv.orbitDBPromise (fun _ => .inl) inv.due
    rcases List.mem_append.1 there with old | new
    · exact .inl old
    · rw [List.mem_singleton.1 new]
      exact .inr ⟨fun k n own => (by cases own), fun stops => by simp at stops⟩
  | gracefulNode there got =>
    refine inv.setGraceful later ⟨fun k n own => ?_, fun stops => by simp at stops⟩
    cases own
    exact (inv.getLibp2p got).1
  | stopsOrbitDb there got =>
    have mine := inv.gracefuls _ (List.mem_of_getElem? there)
    exact inv.setGracefulLog later ⟨mine.node, fun _ => ⟨_, List.mem_append_right _ (List.mem_singleton_self _)⟩⟩ rfl
      (fun k same => by cases same) (inv.orbitDBPromise.symm.trans got)
  | stopsLibp2p there waits own =>
    have mine := inv.gracefuls _ (List.mem_of_getElem? there)
    have stopped := mine.stopping (.inl waits)
    refine inv.setGracefulLog later ⟨mine.node, fun _ => ?_⟩ rfl (fun k same => by cases same) ⟨mine.node _ _ own, stopped⟩
    obtain ⟨j, before⟩ := stopped
    exact ⟨j, List.mem_append_left _ before⟩
  | gracefulEnds there at_ ends =>
    have mine := (inv.gracefuls _ (List.mem_of_getElem? there)).later later
    refine inv.setGraceful later ⟨mine.node, fun stops => ?_⟩
    rcases ends with rfl | ⟨waits, rfl⟩
    · simp at stops
    · exact mine.stopping (.inr (.inl waits))

variable {acts more : List Act} {t : State}

theorem inv_run (reached : run Lifecycle.step {} acts = some s) : Inv s := by
  refine run_invariant (I := Inv) ⟨rfl, rfl, rfl, ?_, ?_, ?_, ?_⟩ (fun _ _ _ inv moved => inv.step moved) reached
  · exact fun _ there => absurd there List.not_mem_nil
  · exact fun _ there => absurd there List.not_mem_nil
  · exact fun _ there => absurd there List.not_mem_nil
  · intro before e after split
    simp at split

/-- In every run of `app()` and `graceful()` calls only the first call's node is started and stopped and only
the first OrbitDB instance is stopped: OrbitDB once it is there, and the node after OrbitDB. -/
theorem event_due (reached : run Lifecycle.step {} acts = some s) : AllDue s.log := (inv_run reached).due

/-- The box is started, stopped and started again: the second start is of the first node, which has been stopped. -/
def restart : List Act := List.flatten [
  [.app, .created 0 (.fulfilled .node), .connected 0 (.fulfilled ())], List.replicate 8 (.goOn 0 true),
  [.graceful], List.replicate 4 (.gracefulGoesOn 0 true), [.app], List.replicate 8 (.goOn 1 true)]

theorem event_due_sample : ∃ s, run Lifecycle.step {} restart = some s ∧
    s.log = [.start 0, .createInstance 0, .stopOrbitDb 0, .stopLibp2p 0, .start 0, .createInstance 1] ∧ AllDue s.log := by
  obtain ⟨s, reached, log⟩ : ∃ s, run Lifecycle.step {} restart = some s ∧
      s.log = [.start 0, .createInstance 0, .stopOrbitDb 0, .stopLibp2p 0, .start 0, .createInstance 1] := ⟨_, rfl, rfl⟩
  exact ⟨s, reached, log, event_due reached⟩

theorem later_run (reached : run Lifecycle.step s acts = some t) : Later s t :=
  run_invariant (I := Later s) (.same (fun _ => id) rfl) (fun _ _ _ old moved => old.trans (step_moves moved).later) reached

/-- Once the first call's node could not be created, or its connection failed, no call ever returns. -/
theorem returned_of_first {first : App} (reached : run Lifecycle.step {} acts = some s) (there : s.apps[0]? = some first)
    (failed : first.created = some .rejected ∨ first.created = some (.fulfilled .undefined) ∨ first.connected = some .rejected)
    (goes : run Lifecycle.step s more = some t) :
    (∀ app ∈ t.apps, app.at_ ≠ .returned) ∧ ∀ k, .start k ∉ t.log := by
  have inv := inv_run (run_append.2 ⟨s, reached, goes⟩)
  have never : ¬FirstReady t := by
    rintro ⟨first', at_, created, connected⟩
    obtain ⟨first'', there', keeps, keeps'⟩ := (later_run goes).first first there
    rw [at_, Option.some.injEq] at there'
    subst there'
    rcases failed with failed | failed | failed
    · cases created.symm.trans (keeps _ failed)
    · cases created.symm.trans (keeps _ failed)
    · cases connected.symm.trans (keeps' _ failed)
  refine ⟨fun app member returned => never ?_, fun k started => never (inv.ready k started)⟩
  exact ((inv.apps app member).started (by rw [returned]; rfl)).1

/-- IPFS is not there for the first call, and is for the second. -/
theorem returned_of_first_sample : ∃ s t, run Lifecycle.step {} [.app, .connected 0 .rejected] = some s ∧
    run Lifecycle.step s [.app, .connected 1 (.fulfilled ()), .created 0 (.fulfilled .node), .goOn 1 true, .goOn 1 true] = some t ∧
    ∀ app ∈ t.apps, app.at_ ≠ .returned := by
  obtain ⟨s, t, first, reached, there, failed, goes⟩ : ∃ s t first, run Lifecycle.step {} [.app, .connected 0 .rejected] = some s ∧
      s.apps[0]? = some first ∧ first.connected = some .rejected ∧
      run Lifecycle.step s [.app, .connected 1 (.fulfilled ()), .created 0 (.fulfilled .node), .goOn 1 true, .goOn 1 true] =
        some t := ⟨_, _, _, rfl, rfl, rfl, rfl⟩
  exact ⟨s, t, reached, goes, (returned_of_first reached there (.inr (.inr failed)) goes).1⟩

end

end Fula.Box.Lifecycle
