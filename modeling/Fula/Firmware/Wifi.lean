import Fula.Lib.Run
import Fula.Lib.EventEmitter

/-!
# The access point of the firmware

`enableAccessPoint` and `disableAccessPoint` are chains of shell commands. Each
command is started with `execWithJournalctlCallback`, which registers the rest of
the chain for the event that the journal's report of that command line emits.
The event says nothing of the run that started the command: it wakes every run
that waits for this command line. `step` interleaves any number of runs with the
commands that are executing and the reports of those that have finished.

`orderly_consistent` says which runs leave the device in one mode.
-/

namespace Fula.Firmware
set_option autoImplicit false
open Lib

/-! ## The device -/

/-- What the configuration files are written for. -/
inductive Mode where
  | client
  | ap
  deriving DecidableEq

structure Device where
  /-- `/etc/dhcpcd.conf`, `/etc/dnsmasq.conf` and `/etc/hostapd/hostapd.conf`. -/
  dhcpcdConf : Mode
  dnsmasqConf : Mode
  hostapdConf : Mode
  dnsmasq : Bool
  hostapd : Bool
  dhcpcd : Bool
  dhcpd : Bool
  hostapdEnabled : Bool
  hostapdMasked : Bool
  /-- The interface of the access point. -/
  interface : Bool
  deriving DecidableEq

def writeAccessPointFiles (type : Mode) (d : Device) : Device :=
  { d with dhcpcdConf := type, dnsmasqConf := type, hostapdConf := type }

inductive Command where
  | stopDnsmasq
  | stopHostapd
  | disableHostapd
  | iwDel
  | restartDhcpd
  | iwAdd
  | startDhcpcd
  | enableHostapd
  | unmaskHostapd
  | startHostapd
  | startDnsmasq
  deriving DecidableEq

namespace Command

/-- The command line, which names the event of its report. -/
def line (iface ifaceClient : String) : Command → String
  | stopDnsmasq => "sudo systemctl stop dnsmasq"
  | stopHostapd => "sudo systemctl stop hostapd"
  | disableHostapd => "sudo systemctl disable hostapd"
  | iwDel => "sudo iw dev " ++ iface ++ " del"
  | restartDhcpd => "sudo systemctl restart dhcpd"
  | iwAdd => "sudo iw dev " ++ ifaceClient ++ " interface add " ++ iface ++ " type __ap"
  | startDhcpcd => "sudo systemctl start dhcpcd"
  | enableHostapd => "sudo systemctl enable hostapd"
  | unmaskHostapd => "sudo systemctl unmask hostapd"
  | startHostapd => "sudo systemctl start hostapd"
  | startDnsmasq => "sudo systemctl start dnsmasq"

def systemctl : List Command :=
  [stopDnsmasq, stopHostapd, disableHostapd, restartDhcpd, startDhcpcd, enableHostapd, unmaskHostapd, startHostapd,
    startDnsmasq]

/-- The command of a line; the two of `iw` are told apart by how the line ends. -/
def ofLine (line : String) : Option Command :=
  if line.toList[5]? = some 'i' then some (if line.toList.getLast? = some 'l' then iwDel else iwAdd)
  else systemctl.find? fun command => command.line "" "" == line

theorem ofLine_systemctl : ∀ command ∈ systemctl, ofLine (command.line "" "") = some command := by decide

theorem line_systemctl (iface ifaceClient : String) {command : Command} (constant : command ∈ systemctl) :
    command.line iface ifaceClient = command.line "" "" := by
  cases command with
  | iwDel => exact absurd constant (by decide)
  | iwAdd => exact absurd constant (by decide)
  | _ => rfl

theorem ofLine_line (iface ifaceClient : String) (command : Command) :
    ofLine (command.line iface ifaceClient) = some command := by
  by_cases constant : command ∈ systemctl
  · rw [line_systemctl iface ifaceClient constant]
    exact ofLine_systemctl command constant
  · cases command with
    | iwDel =>
      change ofLine ("sudo iw dev " ++ iface ++ " del") = _
      simp [ofLine, List.getLast?_cons, List.getLast?_append]
    | iwAdd =>
      change ofLine ("sudo iw dev " ++ ifaceClient ++ " interface add " ++ iface ++ " type __ap") = _
      simp [ofLine, List.getLast?_cons, List.getLast?_append]
    | _ => exact absurd (by decide) constant

/-- The lines tell the commands apart. -/
theorem line_inj (iface ifaceClient : String) {command command' : Command}
    (same : command.line iface ifaceClient = command'.line iface ifaceClient) : command = command' := by
  apply Option.some.inj
  rw [← ofLine_line iface ifaceClient command, same, ofLine_line]

/-- What a command does. -/
def execute : Command → Device → Device
  | stopDnsmasq, d => { d with dnsmasq := false }
  | stopHostapd, d => { d with hostapd := false }
  | disableHostapd, d => { d with hostapdEnabled := false }
  | iwDel, d => { d with interface := false }
  | restartDhcpd, d => { d with dhcpd := true }
  | iwAdd, d => { d with interface := true }
  | startDhcpcd, d => { d with dhcpcd := true }
  | enableHostapd, d => { d with hostapdEnabled := true }
  | unmaskHostapd, d => { d with hostapdMasked := false }
  | startHostapd, d => { d with hostapd := true }
  | startDnsmasq, d => { d with dnsmasq := true }

end Command

/-! ## The runs -/

inductive Kind where
  | enableAccessPoint
  | disableAccessPoint
  deriving DecidableEq

inductive RunAt where
  | waits (command : Command)
  | calledBack
  deriving DecidableEq

structure Run where
  kind : Kind
  at_ : RunAt
  deriving DecidableEq

/-- The function that run `run` registers for `command`. -/
structure Callback where
  run : Nat
  kind : Kind
  command : Command
  deriving DecidableEq

structure Machine where
  device : Device
  /-- The commands that were started and are not yet reported, and whether each has finished. -/
  commands : List (Command × Bool) := []
  runs : List Run := []

/-- The emitter of finished commands, and the rest. -/
abbrev Wifi := EventEmitter Command Callback × Machine

def start (d : Device) : Wifi := ({}, { device := d })

def execWithJournalctlCallback (command : Command) (callback : Callback) (s : Wifi) : Wifi :=
  (s.1.once command callback, { s.2 with commands := s.2.commands ++ [(command, false)] })

/-- Where run `i` is now. -/
def setRun (i : Nat) (run : Run) (s : Wifi) : Wifi := (s.1, { s.2 with runs := s.2.runs.set i run })

/-- The next command of a chain. -/
def exec (callback : Callback) (command : Command) (s : Wifi) : Wifi :=
  setRun callback.run ⟨callback.kind, .waits command⟩
    (execWithJournalctlCallback command { callback with command } s)

/-- The two chains, each command in the callback of the one before. -/
def goOn (callback : Callback) (s : Wifi) : Wifi :=
  match callback.command with
  | .stopDnsmasq => exec callback .stopHostapd s
  | .stopHostapd => exec callback .disableHostapd s
  | .disableHostapd => exec callback .iwDel s
  | .iwDel => exec callback .restartDhcpd s
  | .restartDhcpd => match callback.kind with
    | .disableAccessPoint => setRun callback.run ⟨callback.kind, .calledBack⟩ s
    -- the callback that `enableAccessPoint` gives to `disableAccessPoint`
    | .enableAccessPoint =>
      exec callback .iwAdd (s.1, { s.2 with device := writeAccessPointFiles .ap s.2.device })
  | .iwAdd => exec callback .startDhcpcd s
  | .startDhcpcd => exec callback .enableHostapd s
  | .enableHostapd => exec callback .unmaskHostapd s
  | .unmaskHostapd => exec callback .startHostapd s
  | .startHostapd => exec callback .startDnsmasq s
  | .startDnsmasq => setRun callback.run ⟨callback.kind, .calledBack⟩ s

def invoke : EventEmitter.Invoke Command Callback Machine := fun callback s => (goOn callback s, false)

inductive Act where
  /-- `enableAccessPoint` or `disableAccessPoint` is called; either disables first. -/
  | call (kind : Kind)
  /-- Command `i` has done its work. -/
  | finish (i : Nat)
  /-- The journal reports command `i`. -/
  | report (i : Nat)

/-- The start-up service, when the box is connected to a network and when it is not. -/
def wifiService (isConnected : Bool) : Act :=
  .call (if isConnected then .disableAccessPoint else .enableAccessPoint)

/-- `PUT /ap/disable` -/
def putAccessPointDisable : Act := .call .disableAccessPoint

def step (s : Wifi) : Act → Option Wifi
  | .call kind =>
    let s : Wifi := (s.1, { s.2 with device := writeAccessPointFiles .client s.2.device })
    some (execWithJournalctlCallback .stopDnsmasq ⟨s.2.runs.length, kind, .stopDnsmasq⟩
      (s.1, { s.2 with runs := s.2.runs ++ [⟨kind, .waits .stopDnsmasq⟩] }))
  | .finish i => match s.2.commands[i]? with
    | some (command, false) => some (s.1, { s.2 with
        device := command.execute s.2.device, commands := s.2.commands.set i (command, true) })
    | _ => none
  | .report i => match s.2.commands[i]? with
    | some (command, true) =>
      some (EventEmitter.emit invoke (s.1, { s.2 with commands := s.2.commands.eraseIdx i }) command)
    | _ => none

/-! ## What an event does -/

/-- The command that a run starts when one has been reported. -/
def Command.next (kind : Kind) : Command → Option Command
  | stopDnsmasq => some stopHostapd
  | stopHostapd => some disableHostapd
  | disableHostapd => some iwDel
  | iwDel => some restartDhcpd
  | restartDhcpd => match kind with
    | .disableAccessPoint => none
    | .enableAccessPoint => some iwAdd
  | iwAdd => some startDhcpcd
  | startDhcpcd => some enableHostapd
  | enableHostapd => some unmaskHostapd
  | unmaskHostapd => some startHostapd
  | startHostapd => some startDnsmasq
  | startDnsmasq => none

/-- A run that waits for `command`, after its report. -/
def Run.wake (command : Command) (run : Run) : Run :=
  if run.at_ = .waits command then ⟨run.kind, (command.next run.kind).elim .calledBack .waits⟩ else run

/-- `enableAccessPoint` goes on from `disableAccessPoint`. -/
def Run.Enters (command : Command) (run : Run) : Prop :=
  command = .restartDhcpd ∧ run = ⟨.enableAccessPoint, .waits .restartDhcpd⟩

instance (command : Command) (run : Run) : Decidable (run.Enters command) := by
  unfold Run.Enters
  infer_instance

/-- The device when a run has been woken. -/
def Run.write (command : Command) (run : Run) (d : Device) : Device :=
  if run.Enters command then writeAccessPointFiles .ap d else d

theorem goOn_eq (callback : Callback) (s : Wifi) : goOn callback s =
    match callback.command.next callback.kind with
    | some next => exec callback next (s.1, { s.2 with
        device := (⟨callback.kind, .waits callback.command⟩ : Run).write callback.command s.2.device })
    | none => setRun callback.run ⟨callback.kind, .calledBack⟩ s := by
  obtain ⟨run, kind, command⟩ := callback
  cases command <;> cases kind <;> rfl

theorem Command.next_ne {kind : Kind} {command next : Command} (goes : command.next kind = some next) :
    next ≠ command := by
  rintro rfl
  cases next <;> cases kind <;> cases goes

/-- Each run that waits has one listener, and there are no others. -/
structure Registered (s : Wifi) : Prop where
  listener : ∀ l ∈ s.1.listeners, l.once = true ∧ l.callback.command = l.name ∧
    s.2.runs[l.callback.run]? = some ⟨l.callback.kind, .waits l.name⟩
  waiting : ∀ i kind command, s.2.runs[i]? = some ⟨kind, .waits command⟩ →
    ∃ l ∈ s.1.listeners, l.callback.run = i
  apart : ∀ l ∈ s.1.listeners, ∀ m ∈ s.1.listeners, l.callback.run = m.callback.run → l = m

/-- Some of the runs that waited for `command` have been woken. -/
structure Waking (command : Command) (w w' : Machine) : Prop where
  runs : ∀ i : Nat, w'.runs[i]? = w.runs[i]? ∨ w'.runs[i]? = (w.runs[i]?).map (Run.wake command)
  device : (w'.device = w.device ∧ ∀ (i : Nat) (run : Run),
      w.runs[i]? = some run → run.Enters command → w'.runs[i]? = w.runs[i]?) ∨
    w'.device = writeAccessPointFiles .ap w.device ∧ ∃ run ∈ w.runs, run.Enters command
  commands : ∀ p ∈ w'.commands, p ∈ w.commands ∨ ∃ kind next, (⟨kind, .waits command⟩ : Run) ∈ w.runs ∧
    command.next kind = some next ∧ p = (next, false)

/-- All of them have. -/
structure Woken (command : Command) (w w' : Machine) : Prop where
  runs : w'.runs = w.runs.map (Run.wake command)
  same : (∀ run ∈ w.runs, ¬run.Enters command) → w'.device = w.device
  enters : (∃ run ∈ w.runs, run.Enters command) → w'.device = writeAccessPointFiles .ap w.device
  commands : ∀ p ∈ w'.commands, p ∈ w.commands ∨ ∃ kind next, (⟨kind, .waits command⟩ : Run) ∈ w.runs ∧
    command.next kind = some next ∧ p = (next, false)

section
variable {s : Wifi} {l : Listener Command Callback} {command : Command} {w : Machine}

/-- The listeners after one has been called. -/
theorem mem_called (h : Registered s) (there : l ∈ s.1.listeners) {m : Listener Command Callback} :
    m ∈ (EventEmitter.call invoke s l).1.1.listeners ↔ (m ∈ s.1.listeners ∧ m.key ≠ l.key) ∨
      ∃ next, l.name.next l.callback.kind = some next ∧
        m = ⟨s.1.nextKey, next, true, { l.callback with command := next }⟩ := by
  obtain ⟨once, named, -⟩ := h.listener l there
  simp only [EventEmitter.call, once, if_true, invoke]
  rw [goOn_eq, named]
  cases goes : l.name.next l.callback.kind with
  | none => simp [setRun, EventEmitter.removeListener, EventEmitter.restrict]
  | some next => simp [exec, setRun, execWithJournalctlCallback, EventEmitter.once, EventEmitter.mem_add,
      EventEmitter.removeListener, EventEmitter.restrict]

theorem called_runs (h : Registered s) (there : l ∈ s.1.listeners) :
    (EventEmitter.call invoke s l).1.2.runs =
      s.2.runs.set l.callback.run ((⟨l.callback.kind, .waits l.name⟩ : Run).wake l.name) := by
  obtain ⟨once, named, -⟩ := h.listener l there
  simp only [EventEmitter.call, once, if_true, invoke]
  rw [goOn_eq, named]
  cases goes : l.name.next l.callback.kind with
  | none => simp [setRun, Run.wake, goes]
  | some next => simp [exec, setRun, execWithJournalctlCallback, Run.wake, goes]

theorem called_device (h : Registered s) (there : l ∈ s.1.listeners) :
    (EventEmitter.call invoke s l).1.2.device =
      (⟨l.callback.kind, .waits l.name⟩ : Run).write l.name s.2.device := by
  obtain ⟨once, named, -⟩ := h.listener l there
  simp only [EventEmitter.call, once, if_true, invoke]
  rw [goOn_eq, named]
  cases goes : l.name.next l.callback.kind with
  | none =>
    have stays : ¬(⟨l.callback.kind, .waits l.name⟩ : Run).Enters l.name := by
      rintro ⟨last, same⟩
      rw [last, Run.mk.injEq] at same
      rw [last, same.1] at goes
      cases goes
    simp [setRun, Run.write, stays]
  | some next => simp [exec, setRun, execWithJournalctlCallback]

theorem called_commands (h : Registered s) (there : l ∈ s.1.listeners) {p : Command × Bool}
    (member : p ∈ (EventEmitter.call invoke s l).1.2.commands) :
    p ∈ s.2.commands ∨ ∃ next, l.name.next l.callback.kind = some next ∧ p = (next, false) := by
  obtain ⟨once, named, -⟩ := h.listener l there
  simp only [EventEmitter.call, once, if_true, invoke] at member
  rw [goOn_eq, named] at member
  cases goes : l.name.next l.callback.kind with
  | none =>
    rw [goes] at member
    exact .inl member
  | some next =>
    rw [goes] at member
    rcases List.mem_append.1 member with old | new
    · exact .inl old
    · exact .inr ⟨next, rfl, List.mem_singleton.1 new⟩

/-- The run that was called waits for its next command, or for none. -/
theorem Registered.called (h : Registered s) (there : l ∈ s.1.listeners) :
    Registered (EventEmitter.call invoke s l).1 := by
  obtain ⟨-, -, here⟩ := h.listener l there
  have bound := (List.getElem?_eq_some_iff.1 here).1
  have others : ∀ {m}, m ∈ s.1.listeners → m.key ≠ l.key → m.callback.run ≠ l.callback.run := by
    intro m member other same
    exact other (congrArg Listener.key (h.apart m member l there same))
  refine ⟨fun m member => ?_, fun i kind command waits => ?_, fun m member m' member' same => ?_⟩
  · rw [called_runs h there]
    rcases (mem_called h there).1 member with ⟨old, other⟩ | ⟨next, goes, rfl⟩
    · obtain ⟨once, named, at_⟩ := h.listener m old
      refine ⟨once, named, ?_⟩
      rw [List.getElem?_set_ne (Ne.symm (others old other)), at_]
    · refine ⟨rfl, rfl, ?_⟩
      rw [List.getElem?_set_self bound]
      simp [Run.wake, goes]
  · rw [called_runs h there] at waits
    by_cases same : i = l.callback.run
    · subst same
      rw [List.getElem?_set_self bound, Option.some.injEq] at waits
      cases goes : l.name.next l.callback.kind with
      | none => simp [Run.wake, goes] at waits
      | some next => exact ⟨_, (mem_called h there).2 (.inr ⟨next, goes, rfl⟩), rfl⟩
    · rw [List.getElem?_set_ne (Ne.symm same)] at waits
      obtain ⟨m, old, runs⟩ := h.waiting i kind command waits
      refine ⟨m, (mem_called h there).2 (.inl ⟨old, fun key => same ?_⟩), runs⟩
      rw [← runs, EventEmitter.key_inj old there key]
  · rcases (mem_called h there).1 member with ⟨old, other⟩ | ⟨next, goes, rfl⟩
    · rcases (mem_called h there).1 member' with ⟨old', other'⟩ | ⟨next', goes', rfl⟩
      · exact h.apart m old m' old' same
      · exact absurd same (others old other)
    · rcases (mem_called h there).1 member' with ⟨old', other'⟩ | ⟨next', goes', rfl⟩
      · exact absurd same.symm (others old' other')
      · rw [goes, Option.some.injEq] at goes'
        rw [goes']

/-- One more run has been woken. -/
theorem Waking.called (h : Registered s) (waking : Waking command w s.2) (there : l ∈ s.1.listeners)
    (named : l.name = command) : Waking command w (EventEmitter.call invoke s l).1.2 := by
  subst named
  obtain ⟨-, -, here⟩ := h.listener l there
  have bound := (List.getElem?_eq_some_iff.1 here).1
  -- a run that waits has not been woken yet
  have before : w.runs[l.callback.run]? = some ⟨l.callback.kind, .waits l.name⟩ := by
    rcases waking.runs l.callback.run with same | woken
    · rw [← same, here]
    · rw [here, eq_comm, Option.map_eq_some_iff] at woken
      obtain ⟨run, at_, woken⟩ := woken
      by_cases waits : run.at_ = .waits l.name
      · cases goes : l.name.next run.kind with
        | none => simp [Run.wake, waits, goes] at woken
        | some next =>
          simp only [Run.wake, waits, if_true, goes, Option.elim_some, Run.mk.injEq,
            RunAt.waits.injEq] at woken
          exact absurd woken.2 (Command.next_ne goes)
      · rw [Run.wake, if_neg waits] at woken
        rw [at_, woken]
  refine ⟨fun i => ?_, ?_, fun p member => ?_⟩
  · rw [called_runs h there]
    by_cases same : i = l.callback.run
    · subst same
      rw [List.getElem?_set_self bound, before]
      exact .inr rfl
    · rw [List.getElem?_set_ne (Ne.symm same)]
      exact waking.runs i
  · rw [called_device h there]
    by_cases enters : (⟨l.callback.kind, .waits l.name⟩ : Run).Enters l.name
    · refine .inr ⟨?_, _, List.mem_of_getElem? before, enters⟩
      rw [Run.write, if_pos enters]
      rcases waking.device with ⟨same, -⟩ | ⟨same, -⟩
      · rw [same]
      · rw [same]
        rfl
    · rw [Run.write, if_neg enters]
      refine waking.device.imp_left fun ⟨same, stay⟩ => ⟨same, fun i run at_ enters' => ?_⟩
      have other : i ≠ l.callback.run := by
        rintro rfl
        rw [before, Option.some.injEq] at at_
        exact enters (at_ ▸ enters')
      rw [called_runs h there, List.getElem?_set_ne (Ne.symm other)]
      exact stay i run at_ enters'
  · rcases called_commands h there member with old | new
    · exact waking.commands p old
    · obtain ⟨next, goes, rfl⟩ := new
      exact .inr ⟨_, next, List.mem_of_getElem? before, goes, rfl⟩

/-- The listeners of an event are called one after the other. -/
theorem callAll_waking {ls : List (Listener Command Callback)} (h : Registered s)
    (listeners : s.1.listenersOf command = ls) (waking : Waking command w s.2) :
    Registered (EventEmitter.callAll invoke s ls) ∧ Waking command w (EventEmitter.callAll invoke s ls).2 ∧
      (EventEmitter.callAll invoke s ls).1.listenersOf command = [] := by
  induction ls generalizing s with
  | nil => exact ⟨h, waking, listeners⟩
  | cons l ls ih =>
    have member : l ∈ s.1.listenersOf command := by
      rw [listeners]
      exact List.mem_cons_self
    obtain ⟨there, named⟩ := EventEmitter.mem_listenersOf.1 member
    have quiet : (EventEmitter.call invoke s l).2 = false := rfl
    rw [EventEmitter.callAll_cons, quiet, if_neg (by simp)]
    refine ih (h.called there) ?_ (waking.called h there named)
    -- the rest of the chain waits for another command
    have rest : (s.1.removeListener l.key).listenersOf command = ls :=
      EventEmitter.listenersOf_removeListener_head listeners
    obtain ⟨once, same, -⟩ := h.listener l there
    simp only [EventEmitter.call, once, if_true, invoke]
    rw [goOn_eq, same]
    cases goes : l.name.next l.callback.kind with
    | none => exact rest
    | some next =>
      simp only [exec, setRun, execWithJournalctlCallback]
      rw [EventEmitter.listenersOf_once, rest, if_neg (named ▸ Command.next_ne goes), List.append_nil]

/-- An event wakes every run that waits for its command, and no other. -/
theorem emit_woken (h : Registered s) (command : Command) :
    Registered (EventEmitter.emit invoke s command) ∧
    Woken command s.2 (EventEmitter.emit invoke s command).2 := by
  have start_ : Waking command s.2 s.2 :=
    ⟨fun _ => .inl rfl, .inl ⟨rfl, fun _ _ _ _ => rfl⟩, fun _ member => .inl member⟩
  obtain ⟨after, waking, none_⟩ := callAll_waking h rfl start_
  -- whoever still waited would have a listener
  have woken : ∀ (i : Nat) (run : Run), s.2.runs[i]? = some run → run.at_ = .waits command →
      (EventEmitter.emit invoke s command).2.runs[i]? ≠ s.2.runs[i]? := by
    rintro i ⟨kind, _⟩ at_ rfl same
    rw [at_] at same
    obtain ⟨l, there, runs⟩ := after.waiting i kind command same
    obtain ⟨-, -, here⟩ := after.listener l there
    rw [runs] at here
    have named : l.name = command := by
      have both := here.symm.trans same
      rw [Option.some.injEq, Run.mk.injEq, RunAt.waits.injEq] at both
      exact both.2
    have member := EventEmitter.mem_listenersOf.2 ⟨there, named⟩
    rw [none_] at member
    cases member
  refine ⟨after, ?_, fun stay => ?_, fun ⟨run, member, enters⟩ => ?_, waking.commands⟩
  · apply List.ext_getElem?
    intro i
    rw [List.getElem?_map]
    rcases waking.runs i with same | woke
    · refine Eq.trans same ?_
      cases at_ : s.2.runs[i]? with
      | none => rfl
      | some run =>
        have stays : run.at_ ≠ .waits command := fun waits => woken i run at_ waits same
        rw [Option.map_some, Run.wake, if_neg stays]
    · exact woke
  · rcases waking.device with ⟨same, -⟩ | ⟨-, run, member, enters⟩
    · exact same
    · exact absurd enters (stay run member)
  · rcases waking.device with ⟨-, stay⟩ | ⟨writes, -⟩
    · obtain ⟨i, at_⟩ := List.getElem?_of_mem member
      obtain ⟨rfl, rfl⟩ := enters
      exact absurd (stay i _ at_ ⟨rfl, rfl⟩) (woken i _ at_ rfl)
    · exact writes

end

/-! ## The two modes -/

inductive Service where
  | dnsmasq
  | hostapd
  deriving DecidableEq

/-- The mode that a service is in: started for the access point, stopped for the client. -/
def Device.mode (d : Device) : Service → Mode
  | .dnsmasq => if d.dnsmasq then .ap else .client
  | .hostapd => if d.hostapd then .ap else .client

/-- The configuration files are written for this mode. -/
def Device.Files (d : Device) (m : Mode) : Prop := d.dhcpcdConf = m ∧ d.dnsmasqConf = m ∧ d.hostapdConf = m

/-- The files of the access point with both services started, or those of the client with both stopped. -/
def Device.Consistent (d : Device) : Prop :=
  (d.Files .ap ∧ d.hostapd = true ∧ d.dnsmasq = true) ∨
    (d.Files .client ∧ d.hostapd = false ∧ d.dnsmasq = false)

theorem Device.consistent_of {d : Device} {m : Mode} (files : d.Files m) (services : ∀ x, d.mode x = m) :
    d.Consistent := by
  have dnsmasq := services .dnsmasq
  have hostapd := services .hostapd
  simp only [Device.mode] at dnsmasq hostapd
  cases m with
  | client =>
    refine .inr ⟨files, ?_, ?_⟩
    · split at hostapd
      · cases hostapd
      · simpa using ‹¬d.hostapd = true›
    · split at dnsmasq
      · cases dnsmasq
      · simpa using ‹¬d.dnsmasq = true›
  | ap =>
    refine .inl ⟨files, ?_, ?_⟩
    · split at hostapd
      · assumption
      · cases hostapd
    · split at dnsmasq
      · assumption
      · cases dnsmasq

namespace Command

/-- The half of the chains that a command belongs to. -/
def half : Command → Mode
  | stopDnsmasq | stopHostapd | disableHostapd | iwDel | restartDhcpd => .client
  | _ => .ap

/-- The service that a command starts or stops. -/
def sets : Command → Option Service
  | stopDnsmasq | startDnsmasq => some .dnsmasq
  | stopHostapd | startHostapd => some .hostapd
  | _ => none

/-- A chain that is at this command has set the service. -/
def past : Command → Service → Bool
  | stopHostapd, .dnsmasq => true
  | disableHostapd, _ | iwDel, _ | restartDhcpd, _ => true
  | startDnsmasq, .hostapd => true
  | _, _ => false

theorem execute_mode (command : Command) (d : Device) (x : Service) :
    (command.execute d).mode x = if command.sets = some x then command.half else d.mode x := by
  cases command <;> cases x <;> rfl

theorem execute_files (command : Command) (d : Device) (m : Mode) :
    (command.execute d).Files m ↔ d.Files m := by
  cases command <;> exact Iff.rfl

/-- Within a half a chain goes on with one service more. -/
theorem next_half {kind : Kind} {command next : Command} (goes : command.next kind = some next)
    (stays : ¬(⟨kind, .waits command⟩ : Run).Enters command) :
    next.half = command.half ∧ ∀ x, next.past x = true → command.past x = true ∨ command.sets = some x := by
  cases kind <;> cases command <;> cases goes <;> first
    | exact ⟨rfl, fun x => by cases x <;> decide⟩
    | exact absurd ⟨rfl, rfl⟩ stays

/-- At its end a half has set both services. -/
theorem last_past {kind : Kind} {command : Command} (ends : command.next kind = none) (x : Service) :
    command.past x = true ∨ command.sets = some x := by
  cases command <;> first
    | cases ends; done
    | cases x <;> decide

end Command

/-! ## Periods -/

/-- The half that a run is in. -/
def Run.half (run : Run) : Option Mode :=
  match run.at_ with
  | .waits command => some command.half
  | .calledBack => none

/-- Of the commands that start or stop a service only those of this mode are under way. -/
def OnlySets (m : Mode) (commands : List (Command × Bool)) : Prop :=
  ∀ p ∈ commands, p.1.sets ≠ none → p.1.half = m

/-- The device is being put into mode `m`, or is in it: all that is under way belongs to that half. -/
structure Period (m : Mode) (w : Machine) : Prop where
  files : w.device.Files m
  waits : ∀ kind command, ⟨kind, .waits command⟩ ∈ w.runs → command.half = m
  commands : OnlySets m w.commands
  finished : ∀ command, (command, true) ∈ w.commands → ∀ x, command.sets = some x → w.device.mode x = m
  past : ∀ kind command, ⟨kind, .waits command⟩ ∈ w.runs → ∀ x, command.past x = true → w.device.mode x = m
  rest : (∀ run ∈ w.runs, run.at_ = .calledBack) → ∀ x, w.device.mode x = m

/-- Nothing has happened yet, or the device is in a period. -/
structure Inv (s : Wifi) : Prop where
  registered : Registered s
  period : (s.2.runs = [] ∧ s.2.commands = []) ∨ ∃ m, Period m s.2

/-- A run is called while no other is in the half of the access point and no
command that starts a service is under way; and `enableAccessPoint` goes on to
that half when every other run has called back or is at the same point, and no
command that stops a service is under way. -/
def Orderly (s : Wifi) : Act → Prop
  | .call _ => (∀ run ∈ s.2.runs, run.half ≠ some .ap) ∧ OnlySets .client s.2.commands
  | .report i => s.2.commands[i]? = some (.restartDhcpd, true) →
      (⟨.enableAccessPoint, .waits .restartDhcpd⟩ : Run) ∈ s.2.runs →
      (∀ run ∈ s.2.runs, run.at_ = .calledBack ∨ run.at_ = .waits .restartDhcpd) ∧
        OnlySets .ap (s.2.commands.eraseIdx i)
  | .finish _ => True

instance (s : Wifi) (a : Act) : Decidable (Orderly s a) := by
  cases a <;> unfold Orderly OnlySets <;> infer_instance

section
variable {m : Mode} {s s' : Wifi} {w w' : Machine} {a : Act}

theorem Period.call {kind : Kind} (h : (w.runs = [] ∧ w.commands = []) ∨ ∃ m, Period m w)
    (waits : ∀ run ∈ w.runs, run.half ≠ some .ap) (commands : OnlySets .client w.commands) :
    Period .client { w with
      device := writeAccessPointFiles .client w.device
      commands := w.commands ++ [(.stopDnsmasq, false)]
      runs := w.runs ++ [⟨kind, .waits .stopDnsmasq⟩] } := by
  have same : ∀ x, (writeAccessPointFiles .client w.device).mode x = w.device.mode x :=
    fun x => by cases x <;> rfl
  have waits : ∀ kind command, (⟨kind, .waits command⟩ : Run) ∈ w.runs → command.half = .client := by
    intro kind command member
    have other := waits _ member
    cases half : command.half with
    | client => rfl
    | ap => simp [Run.half, half] at other
  refine ⟨⟨rfl, rfl, rfl⟩, fun kind' command member => ?_, fun p member sets => ?_,
    fun command member x sets => ?_,
    fun kind' command member x past => ?_, fun all => ?_⟩
  · rcases List.mem_append.1 member with old | new
    · exact waits kind' command old
    · cases List.mem_singleton.1 new
      rfl
  · rcases List.mem_append.1 member with old | new
    · exact commands p old sets
    · cases List.mem_singleton.1 new
      rfl
  · rcases List.mem_append.1 member with old | new
    · rcases h with ⟨-, none_⟩ | ⟨m, h⟩
      · rw [none_] at old
        cases old
      · dsimp only
        have some_ : command.sets ≠ none := by simp [sets]
        rw [same, h.finished command old x sets, ← h.commands _ old some_]
        exact commands _ old some_
    · cases List.mem_singleton.1 new
  · rcases List.mem_append.1 member with old | new
    · rcases h with ⟨none_, -⟩ | ⟨m, h⟩
      · rw [none_] at old
        cases old
      · dsimp only
        rw [same, h.past kind' command old x past, ← h.waits kind' command old]
        exact waits kind' command old
    · cases List.mem_singleton.1 new
      cases past
  · have last := all ⟨kind, .waits .stopDnsmasq⟩ (by simp)
    cases last

theorem Period.finish {i : Nat} {command : Command} (h : Period m w)
    (here : w.commands[i]? = some (command, false)) :
    Period m { w with device := command.execute w.device, commands := w.commands.set i (command, true) } := by
  have member := List.mem_of_getElem? here
  -- a service only comes to be in the mode of the period
  have mode : ∀ x, w.device.mode x = m → (command.execute w.device).mode x = m := by
    intro x before
    rw [Command.execute_mode]
    split
    · next sets => exact h.commands (command, false) member (by simp [sets])
    · exact before
  refine ⟨(Command.execute_files command w.device m).2 h.files, h.waits, fun p there sets => ?_,
    fun command' there x sets => ?_,
    fun kind command' there x past => mode x (h.past kind command' there x past),
    fun all x => mode x (h.rest all x)⟩
  · rcases List.mem_or_eq_of_mem_set there with old | rfl
    · exact h.commands p old sets
    · exact h.commands (command, false) member sets
  · rcases List.mem_or_eq_of_mem_set there with old | new
    · exact mode x (h.finished command' old x sets)
    · cases new
      dsimp only
      rw [Command.execute_mode, if_pos sets]
      exact h.commands (command, false) member (by simp [sets])

/-- A run that is woken and waits again waits for the next command. -/
theorem wake_waits {command next : Command} {kind : Kind} {run : Run}
    (woken : run.wake command = ⟨kind, .waits next⟩) :
    (run = ⟨kind, .waits next⟩ ∧ next ≠ command) ∨
      run = ⟨kind, .waits command⟩ ∧ command.next kind = some next := by
  obtain ⟨kind', at_⟩ := run
  by_cases waits : at_ = .waits command
  · subst waits
    simp only [Run.wake, if_true] at woken
    cases goes : command.next kind' with
    | none => simp [goes] at woken
    | some next' =>
      simp only [goes, Option.elim_some, Run.mk.injEq, RunAt.waits.injEq] at woken
      obtain ⟨rfl, rfl⟩ := woken
      exact .inr ⟨rfl, goes⟩
  · rw [Run.wake, if_neg waits] at woken
    refine .inl ⟨woken, ?_⟩
    rintro rfl
    cases woken
    exact waits rfl

theorem Period.erase (h : Period m w) (i : Nat) : Period m { w with commands := w.commands.eraseIdx i } where
  files := h.files
  waits := h.waits
  commands p member := h.commands p (List.mem_of_mem_eraseIdx member)
  finished command member := h.finished command (List.mem_of_mem_eraseIdx member)
  past := h.past
  rest := h.rest

/-- A report that takes no run into the other half. -/
theorem Period.woken {command : Command} (h : Period m w) (woken : Woken command w w')
    (done_ : ∀ x, command.sets = some x → w.device.mode x = m) (stay : ∀ run ∈ w.runs, ¬run.Enters command) :
    Period m w' := by
  have device := woken.same stay
  have from_ : ∀ {kind next}, (⟨kind, .waits next⟩ : Run) ∈ w'.runs → (⟨kind, .waits next⟩ : Run) ∈ w.runs ∨
      (⟨kind, .waits command⟩ : Run) ∈ w.runs ∧ command.next kind = some next := by
    intro kind next member
    rw [woken.runs, List.mem_map] at member
    obtain ⟨run, there, woke⟩ := member
    rcases wake_waits woke with ⟨rfl, -⟩ | ⟨rfl, goes⟩
    · exact .inl there
    · exact .inr ⟨there, goes⟩
  refine ⟨device ▸ h.files, fun kind next member => ?_, fun p member sets => ?_,
    fun command' member x sets => ?_,
    fun kind next member x past => ?_, fun all x => ?_⟩
  · rcases from_ member with old | ⟨there, goes⟩
    · exact h.waits kind next old
    · rw [(Command.next_half goes (stay _ there)).1]
      exact h.waits kind command there
  · rcases woken.commands p member with old | ⟨kind, next, there, goes, rfl⟩
    · exact h.commands p old sets
    · rw [(Command.next_half goes (stay _ there)).1]
      exact h.waits kind command there
  · rw [device]
    rcases woken.commands _ member with old | ⟨kind, next, -, -, new⟩
    · exact h.finished command' old x sets
    · cases new
  · rw [device]
    rcases from_ member with old | ⟨there, goes⟩
    · exact h.past kind next old x past
    · rcases (Command.next_half goes (stay _ there)).2 x past with earlier | sets
      · exact h.past kind command there x earlier
      · exact done_ x sets
  · rw [device]
    by_cases before : ∀ run ∈ w.runs, run.at_ = .calledBack
    · exact h.rest before x
    · simp only [not_forall] at before
      obtain ⟨⟨kind, at_⟩, there, waits⟩ := before
      have back := all _ (woken.runs ▸ List.mem_map_of_mem there)
      cases at_ with
      | calledBack => exact absurd rfl waits
      | waits command' =>
        -- this run was woken at the end of its half
        by_cases same : command' = command
        · subst same
          simp only [Run.wake, if_true] at back
          cases goes : command'.next kind with
          | none =>
            rcases Command.last_past goes x with earlier | sets
            · exact h.past kind command' there x earlier
            · exact done_ x sets
          | some next => simp [goes] at back
        · rw [Run.wake, if_neg (by simpa using same)] at back
          cases back

/-- The report that takes `enableAccessPoint` into its own half. -/
theorem Period.enters (h : Period m w) (woken : Woken .restartDhcpd w w')
    (enters : (⟨.enableAccessPoint, .waits .restartDhcpd⟩ : Run) ∈ w.runs)
    (others : ∀ run ∈ w.runs, run.at_ = .calledBack ∨ run.at_ = .waits .restartDhcpd)
    (commands : OnlySets .ap w.commands) : Period .ap w' := by
  have device := woken.enters ⟨_, enters, rfl, rfl⟩
  have client : Mode.client = m := h.waits _ _ enters
  have first : ∀ {kind next}, Command.restartDhcpd.next kind = some next → next = .iwAdd := by
    intro kind next goes
    cases kind <;> cases goes
    rfl
  have waits : ∀ {kind next}, (⟨kind, .waits next⟩ : Run) ∈ w'.runs → next = .iwAdd := by
    intro kind next member
    rw [woken.runs, List.mem_map] at member
    obtain ⟨run, there, woke⟩ := member
    rcases wake_waits woke with ⟨rfl, other⟩ | ⟨rfl, goes⟩
    · rcases others _ there with back | same
      · cases back
      · cases same
        exact absurd rfl other
    · exact first goes
  refine ⟨device ▸ ⟨rfl, rfl, rfl⟩, fun kind next member => ?_, fun p member sets => ?_,
    fun command member x sets => ?_, fun kind next member x past => ?_, fun all => ?_⟩
  · rw [waits member]
    rfl
  · rcases woken.commands p member with old | ⟨kind, next, -, goes, rfl⟩
    · exact commands p old sets
    · rw [first goes]
      rfl
  · rcases woken.commands _ member with old | ⟨kind, next, -, -, new⟩
    · have some_ : command.sets ≠ none := by simp [sets]
      have both := (h.commands _ old some_).symm.trans (commands _ old some_)
      rw [← client] at both
      cases both
    · cases new
  · rw [waits member] at past
    cases x <;> cases past
  · have entered : (⟨.enableAccessPoint, .waits .iwAdd⟩ : Run) ∈ w'.runs := by
      rw [woken.runs]
      exact List.mem_map.2 ⟨_, enters, rfl⟩
    have back := all _ entered
    cases back

theorem inv_start (d : Device) : Inv (start d) where
  registered := by
    refine ⟨fun l there => ?_, fun i kind command waits => ?_, fun l there => ?_⟩
    · cases there
    · cases waits
    · cases there
  period := .inl ⟨rfl, rfl⟩

theorem Registered.call {kind : Kind} {w' : Machine} (h : Registered s)
    (runs : w'.runs = s.2.runs ++ [⟨kind, .waits .stopDnsmasq⟩]) :
    Registered (s.1.once .stopDnsmasq ⟨s.2.runs.length, kind, .stopDnsmasq⟩, w') := by
  have old : ∀ l ∈ s.1.listeners, l.callback.run < s.2.runs.length := fun l there =>
    (List.getElem?_eq_some_iff.1 (h.listener l there).2.2).1
  refine ⟨fun l there => ?_, fun i kind' command waits => ?_, fun l there l' there' same => ?_⟩
  · dsimp only
    rw [runs]
    rcases EventEmitter.mem_add.1 there with there | rfl
    · rw [List.getElem?_append_left (old l there)]
      exact h.listener l there
    · simp
  · dsimp only at waits
    rw [runs] at waits
    rcases Nat.lt_or_ge i s.2.runs.length with less | more
    · rw [List.getElem?_append_left less] at waits
      obtain ⟨l, there, run⟩ := h.waiting i kind' command waits
      exact ⟨l, EventEmitter.mem_add.2 (.inl there), run⟩
    · have last := (List.getElem?_eq_some_iff.1 waits).1
      rw [List.length_append, List.length_singleton] at last
      exact ⟨_, EventEmitter.mem_add.2 (.inr rfl), by dsimp only; omega⟩
  · rcases EventEmitter.mem_add.1 there with there | rfl
    · rcases EventEmitter.mem_add.1 there' with there' | rfl
      · exact h.apart l there l' there' same
      · exact absurd same (Nat.ne_of_lt (old l there))
    · rcases EventEmitter.mem_add.1 there' with there' | rfl
      · exact absurd same.symm (Nat.ne_of_lt (old l' there'))
      · rfl

theorem Inv.step (h : Inv s) (orderly : Orderly s a) (moved : Firmware.step s a = some s') : Inv s' := by
  cases a with
  | call kind =>
    cases moved
    exact ⟨h.registered.call rfl, .inr ⟨.client, Period.call h.period orderly.1 orderly.2⟩⟩
  | finish i =>
    simp only [Firmware.step] at moved
    split at moved
    · next command here =>
      cases moved
      rcases h.period with ⟨-, none_⟩ | ⟨m, period⟩
      · rw [none_] at here
        cases here
      · exact ⟨⟨h.registered.listener, h.registered.waiting, h.registered.apart⟩,
          .inr ⟨m, period.finish here⟩⟩
    · cases moved
  | report i =>
    simp only [Firmware.step] at moved
    split at moved
    · next command here =>
      cases moved
      rcases h.period with ⟨-, none_⟩ | ⟨m, period⟩
      · rw [none_] at here
        cases here
      · have before : Registered (s.1, { s.2 with commands := s.2.commands.eraseIdx i }) :=
          ⟨h.registered.listener, h.registered.waiting, h.registered.apart⟩
        obtain ⟨after, woken⟩ := emit_woken before command
        refine ⟨after, .inr ?_⟩
        by_cases enters : ∃ run ∈ s.2.runs, run.Enters command
        · obtain ⟨run, there, rfl, rfl⟩ := enters
          obtain ⟨others, commands⟩ := orderly here there
          exact ⟨.ap, (period.erase i).enters woken there others commands⟩
        · refine ⟨m, (period.erase i).woken woken (period.finished command (List.mem_of_getElem? here)) ?_⟩
          exact fun run there enters' => enters ⟨run, there, enters'⟩
    · cases moved

/-- **One mode**: in every run that keeps the two halves apart, when all that were
called have called back the device is in one mode. -/
theorem orderly_consistent {d : Device} {acts : List Act}
    (meet : StepsMeet Firmware.step Orderly (start d) acts)
    (reached : run Firmware.step (start d) acts = some s) (some_ : s.2.runs ≠ [])
    (all : ∀ run ∈ s.2.runs, run.at_ = .calledBack) : s.2.device.Consistent := by
  have h : Inv s := run_invariant_of (inv_start d)
    (fun _ _ _ h orderly moved => h.step orderly moved) meet reached
  rcases h.period with ⟨none_, -⟩ | ⟨m, period⟩
  · exact absurd none_ some_
  · exact Device.consistent_of period.files (period.rest all)

end

/-- A device of which nothing is known to be in either mode. -/
def unset : Device where
  dhcpcdConf := .client
  dnsmasqConf := .client
  hostapdConf := .client
  dnsmasq := true
  hostapd := false
  dhcpcd := false
  dhcpd := false
  hostapdEnabled := false
  hostapdMasked := true
  interface := false

/-- Command `i` does its work and is reported, then the one that took its place. -/
def inTurn (i n : Nat) : List Act := (List.replicate n [.finish i, .report i]).flatten

/-- The access point is disabled while the chain of the start-up, which enables it, is in its first half. -/
def twoChains : List Act := wifiService false :: inTurn 0 2 ++ putAccessPointDisable :: inTurn 1 3 ++ inTurn 0 11

theorem orderly_consistent_sample :
    ∃ s, run step (start unset) twoChains = some s ∧
      s.2.runs = [⟨.enableAccessPoint, .calledBack⟩, ⟨.disableAccessPoint, .calledBack⟩] ∧ s.2.device.Consistent := by
  have meet : StepsMeet step Orderly (start unset) twoChains := by decide
  exact ⟨_, rfl, rfl, orderly_consistent meet rfl (by decide) (by decide)⟩

/-- While the start-up waits for hostapd, the access point is disabled: in the end
the files are those of the client and both services run. -/
theorem access_point_mixed :
    ∃ s, run step (start unset) (wifiService false :: inTurn 0 9 ++
        putAccessPointDisable :: inTurn 1 5 ++ inTurn 0 2) = some s ∧
      s.2.runs = [⟨.enableAccessPoint, .calledBack⟩, ⟨.disableAccessPoint, .calledBack⟩] ∧
      ¬s.2.device.Consistent := by
  refine ⟨_, rfl, rfl, ?_⟩
  rintro (⟨⟨files, -⟩, -⟩ | ⟨-, stopped, -⟩)
  · cases files
  · cases stopped

end Fula.Firmware
