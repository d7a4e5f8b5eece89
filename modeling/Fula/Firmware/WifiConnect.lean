import Fula.Firmware.Server
import Fula.Lib.EventEmitter

/-!
# Connecting to a network (`services/wifi`, `controllers`)

`connect` writes the credentials and restarts the supplicant by a chain of shell commands, each started
in the callback of the journal's report of the one before. A report wakes whoever waits for its command
line, and requests are not kept apart: a later one writes its credentials and kills the supplicant while
the chain of an earlier one goes on. Which configurations `wpa_supplicant` takes is a parameter: it refuses
some that `postWifiConnect` accepts, such as one with a short passphrase.

* `connect_settled`: whatever requests overlap, once all commands are reported no supplicant has other
  credentials than the last request's, and each request has been called back once.
* `connect_orderly`: when no request overlaps with another, one is running if the last credentials are taken,
  and none if they are not.
-/

namespace Fula.Firmware.WifiConnect
set_option autoImplicit false
open Lib

/-- `params` of `POST /wifi/connect`. -/
structure Params where
  ssid : Option Json
  password : Option Json
  countryCode : Option Json

/-! ## The device -/

structure Device where
  /-- `wpa_supplicant.conf`, by the values that its template is filled with. -/
  conf : Option Params
  /-- The supplicants that run, by what they have read. -/
  running : List Params
  /-- What `iw link` says. -/
  link : Bool

inductive Command where
  | killall
  | supplicant
  | reconfigure
  | ifconfigUp
  deriving DecidableEq

namespace Command

/-- The command line, which names the event of its report. -/
def line (ifaceClient : String) : Command → String
  | killall => "sudo killall wpa_supplicant"
  | supplicant => "sudo wpa_supplicant -B -i " ++ ifaceClient ++ " -c /etc/wpa_supplicant/wpa_supplicant.conf"
  | reconfigure => "sudo wpa_cli -i " ++ ifaceClient ++ " RECONFIGURE"
  | ifconfigUp => "sudo ifconfig " ++ ifaceClient ++ " up"

/-- A character that no other line has at its place. -/
def mark : Command → Char
  | killall => 'a'
  | supplicant => 's'
  | reconfigure => 'c'
  | ifconfigUp => 'n'

theorem mark_append {head : String} (long : 9 < head.toList.length) (rest : String) :
    (head ++ rest).toList[9]? = head.toList[9]? := by
  rw [String.toList_append, List.getElem?_append_left long]

theorem line_mark (ifaceClient : String) (command : Command) : (command.line ifaceClient).toList[9]? = some command.mark := by
  cases command with
  | killall =>
    change "sudo killall wpa_supplicant".toList[9]? = some 'a'
    decide
  | supplicant =>
    change ("sudo wpa_supplicant -B -i " ++ ifaceClient ++ " -c /etc/wpa_supplicant/wpa_supplicant.conf").toList[9]? = some 's'
    rw [String.append_assoc, mark_append (by decide)]
    decide
  | reconfigure =>
    change ("sudo wpa_cli -i " ++ ifaceClient ++ " RECONFIGURE").toList[9]? = some 'c'
    rw [String.append_assoc, mark_append (by decide)]
    decide
  | ifconfigUp =>
    change ("sudo ifconfig " ++ ifaceClient ++ " up").toList[9]? = some 'n'
    rw [String.append_assoc, mark_append (by decide)]
    decide

/-- The lines tell the commands apart. -/
theorem line_inj {ifaceClient : String} {command command' : Command}
    (same : command.line ifaceClient = command'.line ifaceClient) : command = command' := by
  have marks : some command.mark = some command'.mark := by rw [← line_mark ifaceClient, same, line_mark]
  revert marks
  cases command <;> cases command' <;> decide

/-- What a command does; `takes` says which configurations `wpa_supplicant` can be run with. -/
def execute (takes : Params → Bool) : Command → Device → Device
  | killall, d => { d with running := [] }
  -- a second one does not get the interface
  | supplicant, d => if d.running.isEmpty then { d with running := (d.conf.filter takes).toList } else d
  -- one that cannot read the file goes on with what it has
  | reconfigure, d => { d with running := d.running.map fun c => (d.conf.filter takes).getD c }
  | ifconfigUp, d => d

end Command

/-! ## The requests -/

/-- The function that request `run` registers for `after`. -/
structure Callback where
  run : Nat
  after : Command
  deriving DecidableEq

structure Machine where
  device : Device
  /-- The commands that were started and are not yet reported, and whether each has finished. -/
  commands : List (Command × Bool) := []
  /-- What the callback of each request has been called with. -/
  called : List (List Bool) := []

/-- The emitter of finished commands, and the rest. -/
abbrev Wifi := EventEmitter Command Callback × Machine

def start (d : Device) : Wifi := ({}, { device := d })

def execWithJournalctlCallback (command : Command) (run : Nat) (s : Wifi) : Wifi :=
  (s.1.once command ⟨run, command⟩, { s.2 with commands := s.2.commands ++ [(command, false)] })

/-- `callback(isConnected)` -/
def callback (run : Nat) (isConnected : Bool) (s : Wifi) : Wifi :=
  (s.1, { s.2 with called := s.2.called.modify run (· ++ [isConnected]) })

/-- The chain of `connect`, each command in the callback of the one before. -/
def goOn (c : Callback) (s : Wifi) : Wifi :=
  match c.after with
  | .killall => execWithJournalctlCallback .supplicant c.run s
  | .supplicant => if !s.2.device.link then execWithJournalctlCallback .reconfigure c.run s else callback c.run true s
  | .reconfigure => execWithJournalctlCallback .ifconfigUp c.run s
  | .ifconfigUp => callback c.run s.2.device.link s

def invoke : EventEmitter.Invoke Command Callback Machine := fun c s => (goOn c s, false)

/-- `if (!params.ssid || !params.countryCode) throw new Error('INVALID_PARAMS')` -/
def Params.valid (p : Params) : Bool := p.ssid.any (·.truthy) && p.countryCode.any (·.truthy)

def connect (p : Params) (s : Wifi) : Wifi :=
  execWithJournalctlCallback .killall s.2.called.length
    (s.1, { s.2 with device := { s.2.device with conf := some p }, called := s.2.called ++ [[]] })

inductive Act where
  /-- `POST /wifi/connect` -/
  | post (params : Params)
  /-- Command `i` has done its work. -/
  | finish (i : Nat)
  /-- The journal reports command `i`. -/
  | report (i : Nat)
  /-- Somebody else's command has done its work. -/
  | elsewhere (command : Command)
  /-- The journal reports one. -/
  | foreign (command : Command)
  /-- The link goes up or down. -/
  | link (up : Bool)

def step (takes : Params → Bool) (s : Wifi) : Act → Option Wifi
  | .post params => some (if params.valid then connect params s else s)
  | .finish i => match s.2.commands[i]? with
    | some (command, false) => some (s.1, { s.2 with
        device := command.execute takes s.2.device, commands := s.2.commands.set i (command, true) })
    | _ => none
  | .report i => match s.2.commands[i]? with
    | some (command, true) =>
      some (EventEmitter.emit invoke (s.1, { s.2 with commands := s.2.commands.eraseIdx i }) command)
    | _ => none
  | .elsewhere command => some (s.1, { s.2 with device := command.execute takes s.2.device })
  | .foreign command => some (EventEmitter.emit invoke s command)
  | .link up => some (s.1, { s.2 with device := { s.2.device with link := up } })

/-- The credentials that a request has written. -/
def accepted : Act → Option Params
  | .post params => if params.valid then some params else none
  | .finish _ | .report _ | .elsewhere _ | .foreign _ | .link _ => none

/-! ## What an event does -/

/-- The command that is started when `command` has been reported. -/
def Command.next (link : Bool) : Command → Option Command
  | killall => some supplicant
  | supplicant => if link then none else some reconfigure
  | reconfigure => some ifconfigUp
  | ifconfigUp => none

theorem Command.next_ne {link : Bool} {command next : Command} (goes : command.next link = some next) : next ≠ command := by
  revert goes
  cases command <;> cases link <;> cases next <;> decide

theorem goOn_eq (c : Callback) (s : Wifi) : goOn c s = match c.after.next s.2.device.link with
    | some next => execWithJournalctlCallback next c.run s
    | none => callback c.run s.2.device.link s := by
  obtain ⟨run, after⟩ := c
  cases after with
  | killall => rfl
  | supplicant => cases up : s.2.device.link <;> simp [goOn, Command.next, up]
  | reconfigure => rfl
  | ifconfigUp => rfl

/-- Whoever waits has not been called back, and everyone else has been once. -/
structure Sound (s : Wifi) : Prop where
  listener : ∀ l ∈ s.1.listeners, l.once = true ∧ l.name = l.callback.after ∧ s.2.called[l.callback.run]? = some []
  apart : ∀ l ∈ s.1.listeners, ∀ m ∈ s.1.listeners, l.callback.run = m.callback.run → l = m
  waiting : ∀ (i : Nat) (bs : List Bool), s.2.called[i]? = some bs →
    (∃ b, bs = [b]) ∨ ∃ l ∈ s.1.listeners, l.callback.run = i
  /-- Once there has been a request, an old supplicant will be killed. -/
  conf : s.2.called ≠ [] → ∀ c ∈ s.2.device.running, s.2.device.conf = some c ∨ (.killall, false) ∈ s.2.commands

/-- Whoever waits for another command than this one waits for one that will be reported. -/
def PendingBut (command : Command) (s : Wifi) : Prop :=
  ∀ l ∈ s.1.listeners, l.name = command ∨ ∃ finished, (l.name, finished) ∈ s.2.commands

def Pending (s : Wifi) : Prop := ∀ l ∈ s.1.listeners, ∃ finished, (l.name, finished) ∈ s.2.commands

section
variable {s : Wifi} {l : Listener Command Callback} {command : Command}

/-- The listeners after one has been called. -/
theorem mem_called (h : Sound s) (there : l ∈ s.1.listeners) {m : Listener Command Callback} :
    m ∈ (EventEmitter.call invoke s l).1.1.listeners ↔ (m ∈ s.1.listeners ∧ m.key ≠ l.key) ∨
      ∃ next, l.name.next s.2.device.link = some next ∧ m = ⟨s.1.nextKey, next, true, ⟨l.callback.run, next⟩⟩ := by
  obtain ⟨once, named, -⟩ := h.listener l there
  simp only [EventEmitter.call, once, if_true, invoke]
  rw [goOn_eq, named]
  cases goes : l.callback.after.next s.2.device.link with
  | none => simp [callback, EventEmitter.removeListener, EventEmitter.restrict]
  | some next => simp [execWithJournalctlCallback, EventEmitter.once, EventEmitter.mem_add, EventEmitter.removeListener,
      EventEmitter.restrict]

/-- The rest after one has been called. -/
theorem called_machine (h : Sound s) (there : l ∈ s.1.listeners) : (EventEmitter.call invoke s l).1.2 =
    match l.name.next s.2.device.link with
    | some next => { s.2 with commands := s.2.commands ++ [(next, false)] }
    | none => { s.2 with called := s.2.called.modify l.callback.run (· ++ [s.2.device.link]) } := by
  obtain ⟨once, named, -⟩ := h.listener l there
  simp only [EventEmitter.call, once, if_true, invoke]
  rw [goOn_eq, named]
  cases goes : l.callback.after.next s.2.device.link <;> rfl

/-- What a call leaves alone. -/
theorem called_frame (h : Sound s) (there : l ∈ s.1.listeners) :
    (EventEmitter.call invoke s l).1.2.device = s.2.device ∧
      (EventEmitter.call invoke s l).1.2.called.length = s.2.called.length ∧
      ∀ p ∈ s.2.commands, p ∈ (EventEmitter.call invoke s l).1.2.commands := by
  rw [called_machine h there]
  split
  · exact ⟨rfl, rfl, fun p member => List.mem_append_left _ member⟩
  · exact ⟨rfl, List.length_modify .., fun p member => member⟩

theorem Sound.others (h : Sound s) (there : l ∈ s.1.listeners) {m : Listener Command Callback} (old : m ∈ s.1.listeners)
    (other : m.key ≠ l.key) : m.callback.run ≠ l.callback.run := fun same =>
  other (congrArg Listener.key (h.apart m old l there same))

theorem Sound.called (h : Sound s) (there : l ∈ s.1.listeners) : Sound (EventEmitter.call invoke s l).1 := by
  obtain ⟨-, -, here⟩ := h.listener l there
  have frame := called_frame h there
  have machine := called_machine h there
  refine ⟨fun m member => ?_, fun m member m' member' same => ?_, fun i bs at_ => ?_, fun asked c runs => ?_⟩
  · rcases (mem_called h there).1 member with ⟨old, other⟩ | ⟨next, goes, rfl⟩
    · obtain ⟨once, named, waits⟩ := h.listener m old
      refine ⟨once, named, ?_⟩
      rw [machine]
      split
      · exact waits
      · rw [List.getElem?_modify_ne _ _ (Ne.symm (h.others there old other))]
        exact waits
    · refine ⟨rfl, rfl, ?_⟩
      rw [machine, goes]
      exact here
  · rcases (mem_called h there).1 member with ⟨old, other⟩ | ⟨next, goes, rfl⟩
    · rcases (mem_called h there).1 member' with ⟨old', other'⟩ | ⟨next', goes', rfl⟩
      · exact h.apart m old m' old' same
      · exact absurd same (h.others there old other)
    · rcases (mem_called h there).1 member' with ⟨old', other'⟩ | ⟨next', goes', rfl⟩
      · exact absurd same.symm (h.others there old' other')
      · rw [goes, Option.some.injEq] at goes'
        rw [goes']
  · rw [machine] at at_
    cases goes : l.name.next s.2.device.link with
    | some next =>
      rw [goes] at at_
      refine (h.waiting i bs at_).imp_right ?_
      rintro ⟨m, old, rfl⟩
      by_cases same : m.key = l.key
      · rw [EventEmitter.key_inj old there same]
        exact ⟨_, (mem_called h there).2 (.inr ⟨next, goes, rfl⟩), rfl⟩
      · exact ⟨m, (mem_called h there).2 (.inl ⟨old, same⟩), rfl⟩
    | none =>
      simp only [goes] at at_
      by_cases own : l.callback.run = i
      · subst own
        rw [List.getElem?_modify_eq, here] at at_
        cases at_
        exact .inl ⟨_, rfl⟩
      · rw [List.getElem?_modify_ne _ _ own] at at_
        refine (h.waiting i bs at_).imp_right ?_
        rintro ⟨m, old, rfl⟩
        refine ⟨m, (mem_called h there).2 (.inl ⟨old, fun same => own ?_⟩), rfl⟩
        rw [EventEmitter.key_inj old there same]
  · rw [frame.1] at runs ⊢
    have asked : s.2.called ≠ [] := fun none_ => asked (List.eq_nil_of_length_eq_zero (frame.2.1.trans (by rw [none_]; rfl)))
    exact (h.conf asked c runs).imp_right (frame.2.2 _)

theorem PendingBut.called (h : Sound s) (pending : PendingBut command s) (there : l ∈ s.1.listeners) :
    PendingBut command (EventEmitter.call invoke s l).1 := by
  intro m member
  rcases (mem_called h there).1 member with ⟨old, -⟩ | ⟨next, goes, rfl⟩
  · refine (pending m old).imp_right ?_
    rintro ⟨finished, started⟩
    exact ⟨finished, (called_frame h there).2.2 _ started⟩
  · refine .inr ⟨false, ?_⟩
    rw [called_machine h there, goes]
    exact List.mem_append_right _ (List.mem_singleton_self _)

/-- What an event leaves alone. -/
structure Frame (s s' : Wifi) : Prop where
  device : s'.2.device = s.2.device
  length : s'.2.called.length = s.2.called.length
  commands : ∀ p ∈ s.2.commands, p ∈ s'.2.commands

/-- The listeners of an event are called one after the other. -/
theorem callAll_sound {ls : List (Listener Command Callback)} (h : Sound s) (pending : PendingBut command s)
    (listeners : s.1.listenersOf command = ls) :
    Sound (EventEmitter.callAll invoke s ls) ∧ PendingBut command (EventEmitter.callAll invoke s ls) ∧
      (EventEmitter.callAll invoke s ls).1.listenersOf command = [] ∧ Frame s (EventEmitter.callAll invoke s ls) := by
  induction ls generalizing s with
  | nil => exact ⟨h, pending, listeners, rfl, rfl, fun _ => id⟩
  | cons l ls ih =>
    have member : l ∈ s.1.listenersOf command := by
      rw [listeners]
      exact List.mem_cons_self
    obtain ⟨there, named⟩ := EventEmitter.mem_listenersOf.1 member
    have quiet : (EventEmitter.call invoke s l).2 = false := rfl
    rw [EventEmitter.callAll_cons, quiet, if_neg Bool.false_ne_true]
    have left : (EventEmitter.call invoke s l).1.1.listenersOf command = ls := by
      -- the rest of the chain waits for another command
      have rest : (s.1.removeListener l.key).listenersOf command = ls :=
        EventEmitter.listenersOf_removeListener_head listeners
      obtain ⟨once, same, -⟩ := h.listener l there
      simp only [EventEmitter.call, once, if_true, invoke]
      rw [goOn_eq, ← same]
      cases goes : l.name.next s.2.device.link with
      | none => exact rest
      | some next =>
        simp only [execWithJournalctlCallback]
        rw [EventEmitter.listenersOf_once, rest, if_neg (named ▸ Command.next_ne goes), List.append_nil]
    obtain ⟨sound, pending', none_, frame⟩ := ih (h.called there) (pending.called h there) left
    obtain ⟨device, length, commands⟩ := called_frame h there
    exact ⟨sound, pending', none_, frame.device.trans device, frame.length.trans length,
      fun p old => frame.commands p (commands p old)⟩

/-- An event leaves nobody waiting for its command. -/
theorem emit_sound (h : Sound s) (pending : PendingBut command s) :
    Sound (EventEmitter.emit invoke s command) ∧ Pending (EventEmitter.emit invoke s command) ∧
      Frame s (EventEmitter.emit invoke s command) := by
  obtain ⟨sound, pending', none_, frame⟩ := callAll_sound h pending rfl
  refine ⟨sound, fun l there => ?_, frame⟩
  refine (pending' l there).resolve_left fun named => ?_
  have member := EventEmitter.mem_listenersOf.2 ⟨there, named⟩
  rw [EventEmitter.emit, none_] at member
  cases member

/-! ## Runs -/

/-- The credentials that were written last. -/
def lastConf (d : Device) (acts : List Act) : Option Params := (acts.filterMap accepted).getLast?.or d.conf

structure Inv (d : Device) (acts : List Act) (s : Wifi) : Prop where
  sound : Sound s
  pending : Pending s
  conf : s.2.device.conf = lastConf d acts
  length : s.2.called.length = (acts.filterMap accepted).length

variable {d : Device} {acts : List Act} {a : Act} {s' : Wifi}

/-- A step in which nothing is written. -/
theorem Inv.quiet (h : Inv d acts s) (none_ : accepted a = none) (sound : Sound s') (pending : Pending s')
    (conf : s'.2.device.conf = s.2.device.conf) (length : s'.2.called.length = s.2.called.length) :
    Inv d (acts ++ [a]) s' := by
  have same : (acts ++ [a]).filterMap accepted = acts.filterMap accepted := by simp [none_]
  refine ⟨sound, pending, ?_, ?_⟩
  · rw [conf, h.conf, lastConf, lastConf, same]
  · rw [length, h.length, same]

/-- Credentials are written, and the chain begins. -/
theorem Inv.connect {params : Params} (h : Inv d acts s) (valid : params.valid = true) :
    Inv d (acts ++ [.post params]) (WifiConnect.connect params s) := by
  have wrote : (acts ++ [Act.post params]).filterMap accepted = acts.filterMap accepted ++ [params] := by
    simp [accepted, valid]
  have inside : ∀ l ∈ s.1.listeners, l.callback.run < s.2.called.length := fun l there =>
    (List.getElem?_eq_some_iff.1 (h.sound.listener l there).2.2).1
  refine ⟨⟨fun l member => ?_, fun l member m member' same => ?_, fun i bs at_ => ?_, fun _ c _ => ?_⟩,
    fun l member => ?_, ?_, ?_⟩
  · rcases EventEmitter.mem_add.1 member with old | rfl
    · obtain ⟨once, named, waits⟩ := h.sound.listener l old
      exact ⟨once, named, (List.getElem?_append_left (inside l old)).trans waits⟩
    · exact ⟨rfl, rfl, List.getElem?_concat_length ..⟩
  · rcases EventEmitter.mem_add.1 member with old | rfl
    · rcases EventEmitter.mem_add.1 member' with old' | rfl
      · exact h.sound.apart l old m old' same
      · exact absurd same (Nat.ne_of_lt (inside l old))
    · rcases EventEmitter.mem_add.1 member' with old' | rfl
      · exact absurd same.symm (Nat.ne_of_lt (inside m old'))
      · rfl
  · simp only [WifiConnect.connect, execWithJournalctlCallback, List.getElem?_append] at at_
    split at at_
    · refine (h.sound.waiting i bs at_).imp_right ?_
      rintro ⟨l, old, runs⟩
      exact ⟨l, EventEmitter.mem_add.2 (.inl old), runs⟩
    · next outside =>
      have last := (List.getElem?_eq_some_iff.1 at_).1
      rw [List.length_singleton] at last
      have here : s.2.called.length = i := by omega
      exact .inr ⟨_, EventEmitter.mem_add.2 (.inr rfl), here⟩
  · exact .inr (List.mem_append_right _ (List.mem_singleton_self _))
  · rcases EventEmitter.mem_add.1 member with old | rfl
    · obtain ⟨finished, started⟩ := h.pending l old
      exact ⟨finished, List.mem_append_left _ started⟩
    · exact ⟨false, List.mem_append_right _ (List.mem_singleton_self _)⟩
  · rw [lastConf, wrote, List.getLast?_concat]
    rfl
  · rw [wrote, List.length_append, ← h.length]
    exact List.length_append

variable {takes : Params → Bool}

/-- What the commands do to the supplicants. -/
theorem running_execute {command : Command} {c : Params} (runs : c ∈ (command.execute takes d).running) :
    (command ≠ .killall ∧ c ∈ d.running) ∨ d.conf = some c := by
  cases command with
  | killall => cases runs
  | supplicant =>
    simp only [Command.execute] at runs
    split at runs
    · exact .inr (Option.filter_eq_some_iff.1 (Option.mem_toList.1 runs)).1
    · exact .inl ⟨Command.noConfusion, runs⟩
  | reconfigure =>
    obtain ⟨old, there, same⟩ := List.mem_map.1 runs
    cases taken : d.conf.filter takes with
    | none =>
      rw [taken, Option.getD_none] at same
      exact .inl ⟨Command.noConfusion, same ▸ there⟩
    | some conf =>
      rw [taken, Option.getD_some] at same
      exact .inr (same ▸ (Option.filter_eq_some_iff.1 taken).1)
  | ifconfigUp => exact .inl ⟨Command.noConfusion, runs⟩

theorem conf_execute (takes : Params → Bool) (command : Command) (d : Device) : (command.execute takes d).conf = d.conf := by
  cases command with
  | supplicant =>
    simp only [Command.execute]
    split <;> rfl
  | killall | reconfigure | ifconfigUp => rfl

theorem Inv.step (h : Inv d acts s) (moved : WifiConnect.step takes s a = some s') : Inv d (acts ++ [a]) s' := by
  cases a with
  | post params =>
    simp only [WifiConnect.step, Option.some.injEq] at moved
    split at moved
    · next valid =>
      subst moved
      exact h.connect valid
    · next invalid =>
      subst moved
      exact h.quiet (if_neg invalid) h.sound h.pending rfl rfl
  | finish i =>
    simp only [WifiConnect.step] at moved
    split at moved
    · next command at_ =>
      cases moved
      have inside := (List.getElem?_eq_some_iff.1 at_).1
      -- the commands are the same, but for one that has finished
      have finished : ∀ {p : Command × Bool}, p ∈ s.2.commands → p ≠ (command, false) →
          p ∈ s.2.commands.set i (command, true) := by
        intro p member other
        obtain ⟨j, there⟩ := List.getElem?_of_mem member
        refine List.mem_of_getElem? (i := j) ?_
        rw [List.getElem?_set_ne, there]
        rintro rfl
        exact other (Option.some.inj (there.symm.trans at_))
      refine h.quiet rfl ⟨h.sound.listener, h.sound.apart, h.sound.waiting, fun asked c runs => ?_⟩ (fun l there => ?_)
        (conf_execute takes command _) rfl
      · rw [conf_execute]
        rcases running_execute runs with ⟨other, old⟩ | same
        · refine (h.sound.conf asked c old).imp_right fun killed => finished killed ?_
          rw [Ne, Prod.mk.injEq, not_and_or]
          exact .inl (Ne.symm other)
        · exact .inl same
      · obtain ⟨b, started⟩ := h.pending l there
        by_cases this : (l.name, b) = (command, false)
        · rw [Prod.mk.injEq] at this
          exact ⟨true, this.1 ▸ List.mem_set inside _⟩
        · exact ⟨b, finished started this⟩
    · cases moved
  | report i =>
    simp only [WifiConnect.step] at moved
    split at moved
    · next command at_ =>
      cases moved
      have others : ∀ {p : Command × Bool}, p ∈ s.2.commands → p ≠ (command, true) → p ∈ s.2.commands.eraseIdx i := by
        intro p member other
        obtain ⟨j, there⟩ := List.getElem?_of_mem member
        refine List.mem_eraseIdx_iff_getElem?.2 ⟨j, ?_, there⟩
        rintro rfl
        exact other (Option.some.inj (there.symm.trans at_))
      have sound : Sound (s.1, { s.2 with commands := s.2.commands.eraseIdx i }) :=
        ⟨h.sound.listener, h.sound.apart, h.sound.waiting, fun asked c runs =>
          (h.sound.conf asked c runs).imp_right fun killed => others killed (by simp)⟩
      have pending : PendingBut command (s.1, { s.2 with commands := s.2.commands.eraseIdx i }) := by
        intro l there
        by_cases named : l.name = command
        · exact .inl named
        · obtain ⟨finished, started⟩ := h.pending l there
          exact .inr ⟨finished, others started (by simp [named])⟩
      obtain ⟨sound', pending', frame⟩ := emit_sound sound pending
      exact h.quiet rfl sound' pending' (congrArg Device.conf frame.device) frame.length
    · cases moved
  | elsewhere command =>
    cases moved
    refine h.quiet rfl ⟨h.sound.listener, h.sound.apart, h.sound.waiting, fun asked c runs => ?_⟩ h.pending
      (conf_execute takes command _) rfl
    rw [conf_execute]
    rcases running_execute runs with ⟨-, old⟩ | same
    · exact h.sound.conf asked c old
    · exact .inl same
  | foreign command =>
    cases moved
    obtain ⟨sound, pending, frame⟩ := emit_sound h.sound (fun l there => .inr (h.pending l there) : PendingBut command s)
    exact h.quiet rfl sound pending (congrArg Device.conf frame.device) frame.length
  | link up =>
    cases moved
    exact h.quiet rfl ⟨h.sound.listener, h.sound.apart, h.sound.waiting, h.sound.conf⟩ h.pending rfl rfl

theorem inv_start (d : Device) : Inv d [] (start d) where
  sound := ⟨fun _ there => absurd there List.not_mem_nil, fun _ there => absurd there List.not_mem_nil,
    fun _ _ at_ => absurd (List.mem_of_getElem? at_) List.not_mem_nil, fun asked => absurd rfl asked⟩
  pending := fun _ there => absurd there List.not_mem_nil
  conf := rfl
  length := rfl

theorem inv_run (reached : run (WifiConnect.step takes) (start d) acts = some s) : Inv d acts s :=
  run_history (I := Inv d) (inv_start d) (fun _ _ _ _ h moved => h.step moved) reached

/-- Until a request is accepted, what runs has read the file as it is, if that was so at the start. -/
theorem early_running (own : ∀ c ∈ d.running, d.conf = some c) (none_ : acts.filterMap accepted = [])
    (reached : run (WifiConnect.step takes) (start d) acts = some s) : ∀ c ∈ s.2.device.running, d.conf = some c := by
  have unasked : ∀ a ∈ acts, accepted a = none := List.filterMap_eq_nil_iff.1 none_
  have device : s.2.commands = [] ∧ s.1.listeners = [] ∧ s.2.device.conf = d.conf ∧
      ∀ c ∈ s.2.device.running, d.conf = some c := by
    refine @run_invariant_acts _ _ _ (fun s : Wifi => s.2.commands = [] ∧ s.1.listeners = [] ∧ s.2.device.conf = d.conf ∧
      ∀ c ∈ s.2.device.running, d.conf = some c) (accepted · = none) _ _ _ ⟨rfl, rfl, rfl, own⟩ ?_ unasked reached
    rintro s a s' ⟨commands, alone, conf, reads⟩ quiet moved
    cases a with
    | post params =>
      simp only [accepted, ite_eq_right_iff, reduceCtorEq, imp_false] at quiet
      simp only [WifiConnect.step, quiet, if_false, Option.some.injEq, Bool.false_eq_true] at moved
      subst moved
      exact ⟨commands, alone, conf, reads⟩
    | finish i => simp [WifiConnect.step, commands] at moved
    | report i => simp [WifiConnect.step, commands] at moved
    | elsewhere command =>
      cases moved
      refine ⟨commands, alone, (conf_execute takes command _).trans conf, fun c runs => ?_⟩
      rcases running_execute runs with ⟨-, old⟩ | same
      · exact reads c old
      · rw [← conf, same]
    | foreign command =>
      have deaf : s.1.listenersOf command = [] := by simp [EventEmitter.listenersOf, alone]
      simp only [WifiConnect.step, EventEmitter.emit_of_none (s := s) deaf, Option.some.injEq] at moved
      subst moved
      exact ⟨commands, alone, conf, reads⟩
    | link up =>
      cases moved
      exact ⟨commands, alone, conf, reads⟩
  exact device.2.2.2

/-- **Whatever requests overlap**: when every command has been reported, each supplicant that runs has the
credentials that were written last, and the callback of each request has been called exactly once. What runs
at the start matters only while no request has been accepted. -/
theorem connect_settled (own : acts.filterMap accepted = [] → ∀ c ∈ d.running, d.conf = some c)
    (reached : run (WifiConnect.step takes) (start d) acts = some s) (rest : s.2.commands = []) :
    (∀ c ∈ s.2.device.running, lastConf d acts = some c) ∧
      s.2.called.length = (acts.filterMap accepted).length ∧ ∀ bs ∈ s.2.called, ∃ b, bs = [b] := by
  have inv := inv_run reached
  refine ⟨fun c runs => ?_, inv.length, fun bs member => ?_⟩
  · by_cases none_ : acts.filterMap accepted = []
    · rw [lastConf, none_, List.getLast?_nil, Option.none_or]
      exact early_running (own none_) none_ reached c runs
    · have asked : s.2.called ≠ [] := by
        rw [← List.length_pos_iff, inv.length]
        exact List.length_pos_iff.2 none_
      rw [← inv.conf]
      refine (inv.sound.conf asked c runs).resolve_right fun killed => ?_
      rw [rest] at killed
      cases killed
  · obtain ⟨i, at_⟩ := List.getElem?_of_mem member
    refine (inv.sound.waiting i bs at_).resolve_right ?_
    rintro ⟨l, there, -⟩
    obtain ⟨finished, started⟩ := inv.pending l there
    rw [rest] at started
    cases started

/-! ## One request after the other -/

/-- No request is accepted while a command of another one is not reported, and nobody else runs the commands. -/
def Orderly (s : Wifi) : Act → Prop
  | .post params => params.valid = true → s.2.commands = []
  | .elsewhere _ | .foreign _ => False
  | .finish _ | .report _ | .link _ => True

instance (s : Wifi) : (a : Act) → Decidable (Orderly s a)
  | .post params => inferInstanceAs (Decidable (params.valid = true → s.2.commands = []))
  | .elsewhere _ | .foreign _ => inferInstanceAs (Decidable False)
  | .finish _ | .report _ | .link _ => inferInstanceAs (Decidable True)

variable (takes) in
/-- The supplicants while a chain with these credentials has started, or finished, one of its commands. -/
def Stage (p : Params) (running : List Params) : Command → Bool → Prop
  | .killall, false => True
  | .killall, true | .supplicant, false => running = []
  | .supplicant, true | .reconfigure, _ | .ifconfigUp, _ => running = if takes p then [p] else []

variable (takes) in
/-- One chain is on its way. -/
def Underway (s : Wifi) : Prop :=
  ∃ p l finished, s.2.device.conf = some p ∧ s.1.listeners = [l] ∧ s.2.commands = [(l.name, finished)] ∧
    Stage takes p s.2.device.running l.name finished

variable (takes) in
/-- None is, and if there has been one a supplicant runs with what it wrote, if it takes that. -/
def Idle (s : Wifi) : Prop :=
  s.2.commands = [] ∧
    (s.2.called = [] ∨ ∃ p, s.2.device.conf = some p ∧ s.2.device.running = if takes p then [p] else [])

theorem Stage.execute {p : Params} (conf : d.conf = some p) (stage : Stage takes p d.running command false) :
    Stage takes p (command.execute takes d).running command true := by
  cases command with
  | killall => rfl
  | supplicant =>
    have none_ : d.running = [] := stage
    cases taken : takes p <;> simp [Stage, Command.execute, none_, conf, taken, Option.filter_some]
  | reconfigure =>
    have one : d.running = if takes p then [p] else [] := stage
    cases taken : takes p <;> simp [Stage, Command.execute, one, conf, taken, Option.filter_some]
  | ifconfigUp => exact stage

/-- A chain goes on, or ends with its supplicant running. -/
theorem Underway.report (h : Sound s) {p : Params} (conf : s.2.device.conf = some p) (only : s.1.listeners = [l])
    (none_ : s.2.commands = []) (stage : Stage takes p s.2.device.running l.name true) :
    Underway takes (EventEmitter.emit invoke s l.name) ∨ Idle takes (EventEmitter.emit invoke s l.name) := by
  have there : l ∈ s.1.listeners := by simp [only]
  obtain ⟨once, named, -⟩ := h.listener l there
  have heard : s.1.listenersOf l.name = [l] := by simp [EventEmitter.listenersOf, only]
  have gone : (s.1.removeListener l.key).listeners = [] := by
    simp [EventEmitter.removeListener, EventEmitter.restrict, only]
  rw [EventEmitter.emit_of_once heard once]
  simp only [invoke]
  rw [goOn_eq, ← named]
  cases goes : l.name.next s.2.device.link with
  | some next =>
    refine .inl ⟨p, ⟨s.1.nextKey, next, true, ⟨l.callback.run, next⟩⟩, false, conf, ?_, ?_, ?_⟩
    · simp only [execWithJournalctlCallback, EventEmitter.once, EventEmitter.add, gone]
      rfl
    · simp [execWithJournalctlCallback, none_]
    · revert stage goes
      simp only [execWithJournalctlCallback]
      generalize l.name = command
      cases command <;> cases next <;> cases s.2.device.link <;> simp [Stage, Command.next]
  | none =>
    refine .inr ⟨none_, .inr ⟨p, conf, ?_⟩⟩
    revert stage goes
    simp only [callback]
    generalize l.name = command
    cases command <;> cases s.2.device.link <;> simp [Stage, Command.next]

theorem orderly_step (h : Inv d acts s) (now : Underway takes s ∨ Idle takes s) (orderly : Orderly s a)
    (moved : WifiConnect.step takes s a = some s') : Underway takes s' ∨ Idle takes s' := by
  cases a with
  | post params =>
    simp only [WifiConnect.step, Option.some.injEq] at moved
    split at moved
    · next valid =>
      subst moved
      have none_ := orderly valid
      have alone : s.1.listeners = [] := by
        refine List.eq_nil_iff_forall_not_mem.2 fun l there => ?_
        obtain ⟨finished, started⟩ := h.pending l there
        rw [none_] at started
        cases started
      refine .inl ⟨params, ⟨s.1.nextKey, .killall, true, ⟨s.2.called.length, .killall⟩⟩, false, rfl, ?_, ?_, trivial⟩
      · simp [WifiConnect.connect, execWithJournalctlCallback, EventEmitter.once, EventEmitter.add, alone]
      · simp [WifiConnect.connect, execWithJournalctlCallback, none_]
    · next invalid =>
      subst moved
      exact now
  | finish i =>
    simp only [WifiConnect.step] at moved
    split at moved
    · next command at_ =>
      cases moved
      rcases now with ⟨p, l, finished, conf, only, commands, stage⟩ | ⟨none_, -⟩
      · rw [commands, List.getElem?_singleton] at at_
        split at at_
        · next first =>
          cases at_
          subst first
          exact .inl ⟨p, l, true, by rw [conf_execute, conf], only, by rw [commands]; rfl, stage.execute conf⟩
        · cases at_
      · rw [none_] at at_
        cases at_
    · cases moved
  | report i =>
    simp only [WifiConnect.step] at moved
    split at moved
    · next command at_ =>
      cases moved
      rcases now with ⟨p, l, finished, conf, only, commands, stage⟩ | ⟨none_, -⟩
      · rw [commands, List.getElem?_singleton] at at_
        split at at_
        · next first =>
          cases at_
          subst first
          have sound : Sound (s.1, { s.2 with commands := s.2.commands.eraseIdx 0 }) := by
            refine ⟨h.sound.listener, h.sound.apart, h.sound.waiting, fun asked c runs => ?_⟩
            refine (h.sound.conf asked c runs).imp_right fun killed => ?_
            rw [commands] at killed
            simp at killed
          exact Underway.report sound conf only (by rw [commands]; rfl) stage
        · cases at_
      · rw [none_] at at_
        cases at_
    · cases moved
  | elsewhere command => exact orderly.elim
  | foreign command => exact orderly.elim
  | link up =>
    cases moved
    exact now

/-- **One request after the other**: in the runs in which no request is accepted before the chain of the one before
has come to its end, and nobody else runs its commands, a supplicant runs at the end with the last credentials if it
takes them, and otherwise none does. -/
theorem connect_orderly (orderly : StepsMeet (WifiConnect.step takes) Orderly (start d) acts)
    (reached : run (WifiConnect.step takes) (start d) acts = some s) (rest : s.2.commands = [])
    (some_ : acts.filterMap accepted ≠ []) :
    ∃ c, (acts.filterMap accepted).getLast? = some c ∧ s.2.device.running = if takes c then [c] else [] := by
  have inv := inv_run reached
  have now : (∃ acts, Inv d acts s) ∧ (Underway takes s ∨ Idle takes s) := by
    refine run_invariant_of (I := fun s => (∃ acts, Inv d acts s) ∧ (Underway takes s ∨ Idle takes s))
      ⟨⟨[], inv_start d⟩, .inr ⟨rfl, .inl rfl⟩⟩ ?_ orderly reached
    rintro s a s' ⟨⟨acts, h⟩, now⟩ ok moved
    exact ⟨⟨_, h.step moved⟩, orderly_step h now ok moved⟩
  rcases now.2 with ⟨p, l, finished, -, -, commands, -⟩ | ⟨-, none_ | ⟨c, conf, runs⟩⟩
  · rw [commands] at rest
    cases rest
  · have length := inv.length
    rw [none_] at length
    exact absurd (List.eq_nil_of_length_eq_zero length.symm) some_
  · have written := List.getLast?_eq_some_getLast some_
    have last : c = (acts.filterMap accepted).getLast some_ := by
      rw [inv.conf, lastConf, written] at conf
      exact (Option.some.inj conf).symm
    exact ⟨c, by rw [written, last], runs⟩

end

def off : Device where
  conf := none
  running := []
  link := false

def credentials (ssid password : String) : Params where
  ssid := some (.str ssid)
  password := some (.str password)
  countryCode := some (.str "GB")

/-- A passphrase has 8 to 63 characters. -/
def passphrase (p : Params) : Bool := match p.password with
  | some (.str psk) => 8 ≤ psk.length && psk.length ≤ 63
  | _ => false

/-- Two requests overlap: the first report starts a supplicant for each, of which one gets the interface. -/
def overlapping : List Act := [.post (credentials "home" "first-secret"), .post (credentials "office" "second-secret"),
  .finish 0, .finish 1, .report 0, .finish 1, .finish 2, .report 0, .report 0, .report 0, .finish 0, .finish 1, .report 0,
  .report 0, .finish 0, .finish 1, .report 0, .report 0]

theorem connect_settled_sample : ∃ s, run (WifiConnect.step passphrase) (start off) overlapping = some s ∧
    s.2.device.running = [credentials "office" "second-secret"] ∧
    (∀ c ∈ s.2.device.running, lastConf off overlapping = some c) ∧
    s.2.called.length = (overlapping.filterMap accepted).length ∧ ∀ bs ∈ s.2.called, ∃ b, bs = [b] := by
  obtain ⟨s, reached, one, rest⟩ : ∃ s, run (WifiConnect.step passphrase) (start off) overlapping = some s ∧
      s.2.device.running = [credentials "office" "second-secret"] ∧ s.2.commands = [] := ⟨_, rfl, rfl, rfl⟩
  exact ⟨s, reached, one, connect_settled (fun _ c runs => absurd runs List.not_mem_nil) reached rest⟩

/-- A request, and another one when all is done. -/
def inTurn : List Act := [.post (credentials "home" "short"), .finish 0, .report 0, .finish 0, .link true, .report 0,
  .post (credentials "office" "second-secret"), .finish 0, .report 0, .finish 0, .report 0]

theorem connect_orderly_sample : ∃ s, run (WifiConnect.step passphrase) (start off) inTurn = some s ∧
    ∃ c, (inTurn.filterMap accepted).getLast? = some c ∧ s.2.device.running = if passphrase c then [c] else [] := by
  obtain ⟨s, reached, rest⟩ : ∃ s, run (WifiConnect.step passphrase) (start off) inTurn = some s ∧ s.2.commands = [] :=
    ⟨_, rfl, rfl⟩
  have orderly : StepsMeet (WifiConnect.step passphrase) Orderly (start off) inTurn := by decide
  have some_ : inTurn.filterMap accepted ≠ [] :=
    List.cons_ne_nil (credentials "home" "short") [credentials "office" "second-secret"]
  exact ⟨s, reached, connect_orderly orderly reached rest some_⟩

end Fula.Firmware.WifiConnect
