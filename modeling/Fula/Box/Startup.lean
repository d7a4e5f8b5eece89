import Fula.Protocols.Handler

/-!
# Starting the box

`app()` registers the file protocol and then the graph protocol. Each is put
into libp2p's table first, so that streams may come in from then on, and its
methods are set later: those of the file protocol when `libp2pNode.handle` comes
back, those of the graph protocol after three more awaits. A request that is
dispatched in between finds the functions that throw.

`dispatched_installed_iff` says when no request does.
-/

namespace Fula.Box
set_option autoImplicit false
open Lib Protocols FileProtocol

/-- `FileProtocol.PROTOCOL` and the `PROTOCOL` of the graph protocol. -/
inductive Protocol where
  | file
  | graph
  deriving DecidableEq

/-- What `app()` awaits, once the node has started. -/
inductive StartAt where
  /-- `libp2pNode.handle` in `registerFile`. -/
  | handleFile
  /-- `libp2pNode.handle` in `registerGraph`. -/
  | handleGraph
  | createInstance
  | subscribe
  /-- `sendDBName({ROI: 'req'})` -/
  | publish
  | registered
  deriving DecidableEq

/-- The protocol whose handler libp2p is being given. -/
def StartAt.handles : StartAt → Option Protocol
  | .handleFile => some .file
  | .handleGraph => some .graph
  | _ => none

/-- What `registerFile` and `registerGraph` install: async functions, and one subscriber. -/
structure Registered where
  incomingFiles : Schema.Meta → Option String
  retrieve : Schema.Chunk → Reply
  getMeta : String → Reply
  resolve : GraphProtocol.Request → Reply
  subscriptionResolve : GraphProtocol.Request → Reply

def Registered.file (own : Registered) : FileMethods where
  incomingFiles := own.incomingFiles
  retrieve chunk := .returns (own.retrieve chunk)
  getMeta id := .returns (own.getMeta id)

def Registered.graph (own : Registered) : GraphMethods where
  resolve request := .returns (own.resolve request)
  subscriptionResolve request := .returns (own.subscriptionResolve request)

/-- A stream, with its first message and what its handler did with it. -/
structure Stream where
  protocol : Protocol
  dispatched : Option (Bytes × HandlerAt) := none

structure State where
  at_ : StartAt := .handleFile
  /-- What `app()` awaited was rejected. -/
  rejected : Bool := false
  /-- The protocols in libp2p's table. -/
  handled : List Protocol := []
  file : FileMethods := .notSupported
  graph : GraphMethods := .notSupported
  streams : List Stream := []

inductive Act where
  /-- libp2p puts the handler into its table. -/
  | handle
  /-- What `app()` awaits is fulfilled. -/
  | resolve
  | reject
  /-- A client opens a stream. -/
  | opened (protocol : Protocol)
  /-- The first message of stream `i`. -/
  | message (i : Nat) (bytes : Bytes)

/-- `Request.fromBinary` of a protocol throws nothing. -/
def Protocol.decodes : Protocol → Bytes → Bool
  | .file, bytes => (Schema.Request.fromBinary bytes).isSome
  | .graph, bytes => (GraphProtocol.Request.fromBinary bytes).isSome

/-- A handler goes on with its first message, with the methods that are set. -/
def dispatch (file : FileMethods) (graph : GraphMethods) (bytes : Bytes) : Protocol → HandlerAt
  | .file => Protocols.handle Schema.Request.fromBinary file.call (.value bytes : Result Bytes Empty)
  | .graph => Protocols.handle GraphProtocol.Request.fromBinary graph.call (.value bytes : Result Bytes Empty)

section
variable (own : Registered)

def step (s : State) : Act → Option State
  | .handle => match s.at_.handles with
    | some protocol =>
      if s.rejected || s.handled.contains protocol then none else some { s with handled := s.handled ++ [protocol] }
    | none => none
  | .resolve => if s.rejected then none else
    match s.at_ with
    | .handleFile =>
      -- the file protocol's methods are set in the same turn, and `registerGraph` begins
      if s.handled.contains .file then some { s with at_ := .handleGraph, file := own.file } else none
    | .handleGraph => if s.handled.contains .graph then some { s with at_ := .createInstance } else none
    | .createInstance => some { s with at_ := .subscribe }
    | .subscribe => some { s with at_ := .publish }
    | .publish => some { s with at_ := .registered, graph := own.graph }
    | .registered => none
  | .reject => if s.rejected || s.at_ = .registered then none else some { s with rejected := true }
  | .opened protocol =>
    if s.handled.contains protocol then some { s with streams := s.streams ++ [{ protocol }] } else none
  | .message i bytes => match s.streams[i]? with
    | some ⟨protocol, none⟩ =>
      some { s with streams :=
        s.streams.set i ⟨protocol, some (bytes, dispatch s.file s.graph bytes protocol)⟩ }
    | _ => none

/-- The action makes a handler of this protocol dispatch a request. -/
def Dispatches (s : State) (a : Act) (protocol : Protocol) : Prop :=
  ∃ i bytes, a = .message i bytes ∧ s.streams[i]? = some ⟨protocol, none⟩ ∧ protocol.decodes bytes = true

/-- The methods of a protocol are the ones that the box registers. -/
def Installed (s : State) : Protocol → Prop
  | .file => s.file = own.file
  | .graph => s.graph = own.graph

/-- `app()` has come past the await after which the methods of a protocol are set. -/
def StartAt.past : StartAt → Protocol → Prop
  | at_, .file => at_ ≠ .handleFile
  | at_, .graph => at_ = .registered

/-- The methods follow from how far `app()` is. -/
structure Inv (s : State) : Prop where
  file : s.file = if s.at_ = .handleFile then .notSupported else own.file
  graph : s.graph = if s.at_ = .registered then own.graph else .notSupported

/-- A step, by what it does. -/
inductive Moves (s : State) : Act → State → Prop where
  | handles {protocol : Protocol} (due : s.at_.handles = some protocol) (running : s.rejected = false)
    (first : protocol ∉ s.handled) : Moves s .handle { s with handled := s.handled ++ [protocol] }
  | handleFile (running : s.rejected = false) (waits : s.at_ = .handleFile) (handled : .file ∈ s.handled) :
    Moves s .resolve { s with at_ := .handleGraph, file := own.file }
  | handleGraph (running : s.rejected = false) (waits : s.at_ = .handleGraph) (handled : .graph ∈ s.handled) :
    Moves s .resolve { s with at_ := .createInstance }
  | createInstance (running : s.rejected = false) (waits : s.at_ = .createInstance) :
    Moves s .resolve { s with at_ := .subscribe }
  | subscribe (running : s.rejected = false) (waits : s.at_ = .subscribe) : Moves s .resolve { s with at_ := .publish }
  | publish (running : s.rejected = false) (waits : s.at_ = .publish) :
    Moves s .resolve { s with at_ := .registered, graph := own.graph }
  | rejects (running : s.rejected = false) (waits : s.at_ ≠ .registered) : Moves s .reject { s with rejected := true }
  | opened {protocol : Protocol} (handled : protocol ∈ s.handled) :
    Moves s (.opened protocol) { s with streams := s.streams ++ [{ protocol }] }
  | message {i : Nat} {bytes : Bytes} {protocol : Protocol} (there : s.streams[i]? = some ⟨protocol, none⟩) :
    Moves s (.message i bytes)
      { s with streams := s.streams.set i ⟨protocol, some (bytes, dispatch s.file s.graph bytes protocol)⟩ }

variable {own} {s s' : State} {a : Act}

theorem step_moves (moved : Box.step own s a = some s') : Moves own s a s' := by
  cases a with
  | handle =>
    simp only [Box.step] at moved
    split at moved
    · next protocol due =>
      split at moved
      · cases moved
      · next free =>
        simp only [Bool.or_eq_true, List.contains_iff_mem, not_or, Bool.not_eq_true] at free
        cases moved
        exact .handles due free.1 free.2
    · cases moved
  | resolve =>
    simp only [Box.step] at moved
    split at moved
    · cases moved
    · next running =>
      rw [Bool.not_eq_true] at running
      cases waits : s.at_ with
      | handleFile =>
        simp only [waits] at moved
        split at moved
        · next handled =>
          cases moved
          exact .handleFile running waits (List.contains_iff_mem.1 handled)
        · cases moved
      | handleGraph =>
        simp only [waits] at moved
        split at moved
        · next handled =>
          cases moved
          exact .handleGraph running waits (List.contains_iff_mem.1 handled)
        · cases moved
      | createInstance =>
        simp only [waits] at moved
        cases moved
        exact .createInstance running waits
      | subscribe =>
        simp only [waits] at moved
        cases moved
        exact .subscribe running waits
      | publish =>
        simp only [waits] at moved
        cases moved
        exact .publish running waits
      | registered =>
        simp only [waits] at moved
        cases moved
  | reject =>
    simp only [Box.step] at moved
    split at moved
    · cases moved
    · next free =>
      simp only [Bool.or_eq_true, decide_eq_true_eq, not_or, Bool.not_eq_true] at free
      cases moved
      exact .rejects free.1 free.2
  | opened protocol =>
    simp only [Box.step] at moved
    split at moved
    · next handled =>
      cases moved
      exact .opened (List.contains_iff_mem.1 handled)
    · cases moved
  | message i bytes =>
    simp only [Box.step] at moved
    split at moved
    · next protocol there =>
      cases moved
      exact .message there
    · cases moved

theorem file_ne : FileMethods.notSupported ≠ own.file := by
  intro same
  have methods := congrFun (congrArg FileMethods.getMeta same) ""
  cases methods

theorem graph_ne : GraphMethods.notSupported ≠ own.graph := by
  intro same
  have methods := congrFun (congrArg GraphMethods.resolve same) GraphProtocol.Request.create
  cases methods

theorem Inv.step (h : Inv own s) (moved : Box.step own s a = some s') : Inv own s' := by
  have file := h.file
  have graph := h.graph
  cases step_moves moved with
  | handles => exact ⟨file, graph⟩
  | handleFile running waits =>
    rw [waits, if_neg StartAt.noConfusion] at graph
    exact ⟨rfl, graph⟩
  | handleGraph running waits =>
    rw [waits, if_neg StartAt.noConfusion] at file graph
    exact ⟨file, graph⟩
  | createInstance running waits =>
    rw [waits, if_neg StartAt.noConfusion] at file graph
    exact ⟨file, graph⟩
  | subscribe running waits =>
    rw [waits, if_neg StartAt.noConfusion] at file graph
    exact ⟨file, graph⟩
  | publish running waits =>
    rw [waits, if_neg StartAt.noConfusion] at file
    exact ⟨file, rfl⟩
  | rejects => exact ⟨file, graph⟩
  | opened => exact ⟨file, graph⟩
  | message => exact ⟨file, graph⟩

theorem inv_init : Inv own {} := ⟨rfl, rfl⟩

/-- The methods of a protocol are installed just when `app()` is past their await. -/
theorem Inv.installed_iff (h : Inv own s) (protocol : Protocol) :
    Installed own s protocol ↔ s.at_.past protocol := by
  cases protocol with
  | file =>
    simp only [Installed, StartAt.past, h.file]
    by_cases before : s.at_ = .handleFile
    · simp [before, file_ne]
    · simp [before]
  | graph =>
    simp only [Installed, StartAt.past, h.graph]
    by_cases after : s.at_ = .registered
    · simp [after]
    · simp [after, graph_ne]

/-- A handler that finds its methods goes on as with the box's own. -/
theorem Inv.dispatch_eq (h : Inv own s) {protocol : Protocol} {bytes : Bytes}
    (past : protocol.decodes bytes = true → s.at_.past protocol) :
    dispatch s.file s.graph bytes protocol = dispatch own.file own.graph bytes protocol := by
  cases protocol with
  | file =>
    simp only [dispatch, Protocols.handle]
    cases decoded : Schema.Request.fromBinary bytes with
    | none => rfl
    | some request =>
      have installed : s.file = own.file :=
        (h.installed_iff .file).2 (past (by simp [Protocol.decodes, decoded]))
      rw [installed]
  | graph =>
    simp only [dispatch, Protocols.handle]
    cases decoded : GraphProtocol.Request.fromBinary bytes with
    | none => rfl
    | some request =>
      have installed : s.graph = own.graph :=
        (h.installed_iff .graph).2 (past (by simp [Protocol.decodes, decoded]))
      rw [installed]

/-- Every handler has gone on as with the methods that the box registers. -/
def Served (own : Registered) (s : State) : Prop :=
  ∀ stream ∈ s.streams, ∀ bytes at_, stream.dispatched = some (bytes, at_) →
    at_ = dispatch own.file own.graph bytes stream.protocol

theorem Served.step (served : Served own s) (h : Inv own s)
    (past : ∀ protocol, Dispatches s a protocol → s.at_.past protocol) (moved : Box.step own s a = some s') :
    Served own s' := by
  cases step_moves moved with
  | handles => exact served
  | handleFile => exact served
  | handleGraph => exact served
  | createInstance => exact served
  | subscribe => exact served
  | publish => exact served
  | rejects => exact served
  | opened =>
    intro stream member
    rcases List.mem_append.1 member with old | new
    · exact served stream old
    · rw [List.mem_singleton] at new
      subst new
      intro bytes at_ never
      cases never
  | @message i bytes protocol there =>
    intro stream member
    rcases List.mem_or_eq_of_mem_set member with old | rfl
    · exact served stream old
    · rintro bytes' at_ ⟨⟩
      exact h.dispatch_eq fun decodes => past protocol ⟨i, bytes, rfl, there, decodes⟩

/-- In such a run no handler meets a function that throws for want of a method. -/
theorem served_run {acts : List Act}
    (meet : StepsMeet (step own) (fun s a => ∀ protocol, Dispatches s a protocol →
      s.at_.past protocol) {} acts)
    (reached : run (step own) {} acts = some s) : Served own s :=
  (run_invariant_of (I := fun s => Inv own s ∧ Served own s) ⟨inv_init, fun stream never => by cases never⟩
    (fun _ _ _ ⟨h, served⟩ past moved => ⟨h.step moved, served.step h past moved⟩) meet reached).2

/-- **Requests and their methods**: whenever a request is dispatched the methods
of its protocol are installed, exactly in the runs in which no file request is
dispatched before `registerFile` has come past `libp2pNode.handle`, and no graph
request before `registerGraph` has come past its publish. -/
theorem dispatched_installed_iff (own : Registered) (acts : List Act) :
    StepsMeet (step own) (fun s a => ∀ protocol, Dispatches s a protocol → Installed own s protocol) {} acts ↔
      StepsMeet (step own) (fun s a => ∀ protocol, Dispatches s a protocol → s.at_.past protocol) {} acts :=
  stepsMeet_congr (I := Inv own) (fun _ _ _ h moved => h.step moved)
    (fun _ _ h => forall_congr' fun protocol => imp_congr_right fun _ => h.installed_iff protocol) inv_init

end

/-- Methods that have nothing to answer. -/
def nothingRegistered : Registered where
  incomingFiles _ := none
  retrieve _ := .undefined
  getMeta _ := .undefined
  resolve _ := .undefined
  subscriptionResolve _ := .undefined

/-- A query comes in while OrbitDB is still being opened: `resolve` throws, and the handler rejects. -/
theorem early_query_rejects :
    ∃ s, run (step nothingRegistered) {} [.handle, .resolve, .handle, .resolve, .opened .graph,
      .message 0 []] = some s ∧
      s.streams.map (·.dispatched) = [some ([], .rejected)] ∧
      ¬StepsMeet (step nothingRegistered) (fun s a => ∀ protocol, Dispatches s a protocol →
        Installed nothingRegistered s protocol) {}
        [.handle, .resolve, .handle, .resolve, .opened .graph, .message 0 []] := by
  refine ⟨_, rfl, rfl, fun meet => ?_⟩
  have last := (((((meet.2 _ rfl).2 _ rfl).2 _ rfl).2 _ rfl).2 _ rfl).1
  exact graph_ne (last .graph ⟨0, [], rfl, rfl, rfl⟩)

end Fula.Box
