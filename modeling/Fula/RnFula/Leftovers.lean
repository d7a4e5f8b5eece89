import Fula.RnFula.Bridge
import Fula.RnFula.Rpc

/-!
# What a transfer leaves behind

A transfer listens under four names, its id with a suffix: who awaits its source under `CALLBACK`,
and each subscription under `CHUNK`, `error` and `END`. START and END take the listener away that
they call. `emitter.removeAllListeners(data.id)`, at END, is for a name that no transfer listens
under, and the listeners of `CHUNK` and `error` stay.

`listens` says what each step does to the set of names with a listener, and `quiet_iff` which
histories leave none for the transfers that have ended. The emitter of either end goes with that
set (`Tracks`): in the web view the id of a transfer is any string, on the native side the calls of
`bridge` listen beside the transfers, under their bare ids.
-/

namespace Fula.RnFula
set_option autoImplicit false
open Lib EventEmitter

/-- What follows the id in the names that a transfer listens under. -/
def suffixes : List String := ["CALLBACK", "CHUNK", "error", "END"]

/-- What happens to the listeners of a transfer. -/
inductive Event where
  /-- `eventBaseStreamToPromise` is called for it. -/
  | awaits (id : String)
  | starts (id : String)
  /-- Its `Observable` is subscribed to. -/
  | subscribes (id : String)
  | ends (id : String)
  deriving DecidableEq, Repr

def Event.id : Event → String
  | .awaits id | .starts id | .subscribes id | .ends id => id

/-- A CHUNK registers nobody and removes nobody. -/
def Chunk.happens {M : Type} (data : Chunk M) : Option Event :=
  match data.status with
  | .START => some (.starts data.id)
  | .CHUNK => none
  | .END => some (.ends data.id)

/-- The names under which somebody listens, after an event. -/
def listens (names : Set String) : Event → Set String
  | .awaits id => insert (id ++ "CALLBACK") names
  | .starts id => {name ∈ names | name ≠ id ++ "CALLBACK"}
  | .subscribes id => insert (id ++ "END") (insert (id ++ "error") (insert (id ++ "CHUNK") names))
  | .ends id => {name ∈ names | name ≠ id ++ "END" ∧ (id ++ "END" ∈ names → name ≠ id)}

def listening (history : List Event) : Set String := history.foldl listens ∅

/-- Somebody awaits the source of a transfer and has had no START since. -/
def Unanswered (id : String) (history : List Event) : Prop :=
  ∃ before after, history = before ++ .awaits id :: after ∧ .starts id ∉ after

/-- Nobody has ever subscribed to a transfer whose END is processed, or is left waiting for its START. -/
def Unheard (history : List Event) : Prop :=
  ∀ id, .ends id ∈ history → .subscribes id ∉ history ∧ ¬Unanswered id history

/-- What a callback is for. -/
inductive Role where
  /-- Settles a call of `bridge`, under the id itself. -/
  | settle
  | resolve
  | next
  | error
  /-- `emitter.removeAllListeners(data.id); observer.complete()`. -/
  | complete (id : String)
  deriving DecidableEq, Repr

namespace Role

def suffix : Role → String
  | .settle => ""
  | .resolve => "CALLBACK"
  | .next => "CHUNK"
  | .error => "error"
  | .complete _ => "END"

/-- Only who listens for CHUNKs stays when called. -/
def once : Role → Bool
  | .next => false
  | _ => true

/-- The emitter after such a callback. -/
def clears {C : Type} (e : EventEmitter String C) : Role → EventEmitter String C
  | .complete id => e.removeAllListeners id
  | _ => e

end Role

/-- A listener under a name of its transfer, registered as the code does it. -/
structure Proper {C : Type} (role : C → Role) (ids : String → Prop) (l : Listener String C) : Prop where
  named : ∃ id, ids id ∧ l.name = id ++ (role l.callback).suffix ∧ ∀ own, role l.callback = .complete own → own = id
  once : l.once = (role l.callback).once

/-- The emitter after a history, as far as the names of transfers go. -/
structure Tracks {C : Type} (role : C → Role) (ids : String → Prop) (history : List Event)
    (e : EventEmitter String C) : Prop where
  proper : ∀ l ∈ e.listeners, Proper role ids l
  known : ∀ ev ∈ history, ids ev.id
  agrees : ∀ id, ids id → ∀ suffix ∈ suffixes, (id ++ suffix ∈ e.names ↔ id ++ suffix ∈ listening history)

/-- No id is a name of a transfer. -/
def Apart (ids : String → Prop) : Prop := ∀ id id', ids id → ids id' → ∀ suffix ∈ suffixes, id ≠ id' ++ suffix

/-- Nobody listens under a name of a transfer whose END is processed. -/
def Tidy {C : Type} (history : List Event) (e : EventEmitter String C) : Prop :=
  ∀ id, .ends id ∈ history → ∀ suffix ∈ suffixes, e.listenersOf (id ++ suffix) = []

variable {history : List Event} {id id' suffix suffix' : String}

/-! ## Names -/

/-- No suffix ends another, so the names of all transfers are apart, whatever their ids. -/
theorem derived_eq_iff (member : suffix ∈ suffixes) (member' : suffix' ∈ suffixes) :
    id ++ suffix = id' ++ suffix' ↔ id = id' ∧ suffix = suffix' := by
  have apart : ∀ s ∈ suffixes, ∀ t ∈ suffixes, s.toList <:+ t.toList → s = t := by decide
  refine ⟨fun same => ?_, fun ⟨ids, same⟩ => by rw [ids, same]⟩
  have chars : id.toList ++ suffix.toList = id'.toList ++ suffix'.toList := by
    rw [← String.toList_append, ← String.toList_append, same]
  have equal : suffix = suffix' := by
    rcases List.suffix_or_suffix_of_suffix (List.suffix_append id.toList suffix.toList)
      (chars ▸ List.suffix_append id'.toList suffix'.toList) with shorter | longer
    · exact apart _ member _ member' shorter
    · exact (apart _ member' _ member longer).symm
  subst equal
  exact ⟨(String.append_left_inj suffix).1 same, rfl⟩

@[simp] theorem callback_mem : "CALLBACK" ∈ suffixes := by decide
@[simp] theorem chunk_mem : "CHUNK" ∈ suffixes := by decide
@[simp] theorem error_mem : "error" ∈ suffixes := by decide
@[simp] theorem end_mem : "END" ∈ suffixes := by decide

theorem Role.suffix_mem {r : Role} (transfer : r ≠ .settle) : r.suffix ∈ suffixes := by
  cases r with
  | settle => contradiction
  | resolve => exact callback_mem
  | next => exact chunk_mem
  | error => exact error_mem
  | complete id => exact end_mem

/-! ## Who listens -/

@[simp] theorem listening_snoc (history : List Event) (e : Event) :
    listening (history ++ [e]) = listens (listening history) e := by
  simp [listening]

theorem unanswered_snoc {e : Event} :
    Unanswered id (history ++ [e]) ↔ e = .awaits id ∨ (Unanswered id history ∧ e ≠ .starts id) := by
  constructor
  · rintro ⟨before, after, split, none⟩
    rcases List.eq_nil_or_concat after with rfl | ⟨after, last, rfl⟩
    · obtain ⟨-, same⟩ := List.append_inj' split rfl
      exact .inl (List.singleton_inj.1 same)
    · rw [List.concat_eq_append, ← List.cons_append, ← List.append_assoc] at split
      obtain ⟨rest, same⟩ := List.append_inj' split rfl
      cases same
      simp only [List.concat_eq_append, List.mem_append, List.mem_singleton, not_or] at none
      exact .inr ⟨⟨before, after, rest, none.1⟩, Ne.symm none.2⟩
  · rintro (rfl | ⟨⟨before, after, rfl, none⟩, other⟩)
    · exact ⟨history, [], rfl, List.not_mem_nil⟩
    · exact ⟨before, after ++ [e], by simp, by simp [none, Ne.symm other]⟩

variable {names : Set String} {own : String}

theorem mem_awaits (member : suffix ∈ suffixes) :
    id ++ suffix ∈ listens names (.awaits own) ↔ (id = own ∧ suffix = "CALLBACK") ∨ id ++ suffix ∈ names := by
  rw [listens, Set.mem_insert_iff, derived_eq_iff member callback_mem]

theorem mem_starts (member : suffix ∈ suffixes) :
    id ++ suffix ∈ listens names (.starts own) ↔ id ++ suffix ∈ names ∧ ¬(id = own ∧ suffix = "CALLBACK") := by
  rw [listens, Set.mem_sep_iff, ne_eq, derived_eq_iff member callback_mem]

theorem mem_subscribes (member : suffix ∈ suffixes) :
    id ++ suffix ∈ listens names (.subscribes own) ↔ (id = own ∧ suffix ≠ "CALLBACK") ∨ id ++ suffix ∈ names := by
  have other : suffix ≠ "CALLBACK" ↔ suffix = "END" ∨ suffix = "error" ∨ suffix = "CHUNK" := by
    revert suffix
    decide
  simp only [listens, Set.mem_insert_iff, derived_eq_iff member end_mem, derived_eq_iff member error_mem,
    derived_eq_iff member chunk_mem, other]
  tauto

/-- What END removes by the bare id is of another transfer, if it is anyone's. -/
theorem mem_ends (member : suffix ∈ suffixes) :
    id ++ suffix ∈ listens names (.ends own) ↔
      id ++ suffix ∈ names ∧ ¬(id = own ∧ suffix = "END") ∧ (own ++ "END" ∈ names → id ++ suffix ≠ own) := by
  rw [listens, Set.mem_sep_iff, ne_eq, derived_eq_iff member end_mem]

/-- Who listens for a START was not answered by one. -/
theorem unanswered_of_listening (there : id ++ "CALLBACK" ∈ listening history) : Unanswered id history := by
  induction history using List.reverseRecOn with
  | nil => exact absurd there (Set.notMem_empty _)
  | append_singleton history e ih =>
    rw [listening_snoc] at there
    rw [unanswered_snoc]
    cases e with
    | awaits own =>
      rcases (mem_awaits callback_mem).1 there with ⟨rfl, -⟩ | old
      · exact .inl rfl
      · exact .inr ⟨ih old, by simp⟩
    | starts own =>
      obtain ⟨old, other⟩ := (mem_starts callback_mem).1 there
      refine .inr ⟨ih old, ?_⟩
      rintro ⟨⟩
      exact other ⟨rfl, rfl⟩
    | subscribes own =>
      rcases (mem_subscribes callback_mem).1 there with ⟨-, other⟩ | old
      · contradiction
      · exact .inr ⟨ih old, by simp⟩
    | ends own => exact .inr ⟨ih there.1, by simp⟩

/-- Who listens for anything else has subscribed. -/
theorem subscribes_of_listening (member : suffix ∈ suffixes) (other : suffix ≠ "CALLBACK")
    (there : id ++ suffix ∈ listening history) : .subscribes id ∈ history := by
  induction history using List.reverseRecOn with
  | nil => exact absurd there (Set.notMem_empty _)
  | append_singleton history e ih =>
    rw [listening_snoc] at there
    rw [List.mem_append]
    cases e with
    | awaits own =>
      rcases (mem_awaits member).1 there with ⟨-, same⟩ | old
      · contradiction
      · exact .inl (ih old)
    | starts own => exact .inl (ih there.1)
    | subscribes own =>
      rcases (mem_subscribes member).1 there with ⟨rfl, -⟩ | old
      · exact .inr List.mem_cons_self
      · exact .inl (ih old)
    | ends own => exact .inl (ih there.1)

/-! ## Who is left -/

/-- The transfer was subscribed to, and its END is processed. -/
def Consumed (id : String) (history : List Event) : Prop := .ends id ∈ history ∧ .subscribes id ∈ history

theorem Consumed.snoc (consumed : Consumed id history) (e : Event) : Consumed id (history ++ [e]) :=
  ⟨List.mem_append_left _ consumed.1, List.mem_append_left _ consumed.2⟩

/-- A listener stays until its own START or END, unless its name is the id of a transfer that is consumed. -/
theorem stays_or_consumed (member : suffix ∈ suffixes) (there : id ++ suffix ∈ listening history) (e : Event) :
    id ++ suffix ∈ listening (history ++ [e]) ∨ (e = .starts id ∧ suffix = "CALLBACK") ∨
      (e = .ends id ∧ suffix = "END") ∨ Consumed (id ++ suffix) (history ++ [e]) := by
  rw [listening_snoc]
  cases e with
  | awaits own => exact .inl ((mem_awaits member).2 (.inr there))
  | starts own =>
    by_cases mine : id = own ∧ suffix = "CALLBACK"
    · exact .inr (.inl ⟨by rw [mine.1], mine.2⟩)
    · exact .inl ((mem_starts member).2 ⟨there, mine⟩)
  | subscribes own => exact .inl ((mem_subscribes member).2 (.inr there))
  | ends own =>
    by_cases mine : id = own ∧ suffix = "END"
    · exact .inr (.inr (.inl ⟨by rw [mine.1], mine.2⟩))
    · by_cases bare : own ++ "END" ∈ listening history ∧ id ++ suffix = own
      · obtain ⟨heard, rfl⟩ := bare
        have subscribed := subscribes_of_listening end_mem (by decide) heard
        exact .inr (.inr (.inr ⟨by simp, List.mem_append_left _ subscribed⟩))
      · exact .inl ((mem_ends member).2 ⟨there, mine, fun heard same => bare ⟨heard, same⟩⟩)

theorem chunk_left (subscribed : .subscribes id ∈ history) :
    id ++ "CHUNK" ∈ listening history ∨ Consumed (id ++ "CHUNK") history := by
  induction history using List.reverseRecOn with
  | nil => cases subscribed
  | append_singleton history e ih =>
    rcases List.mem_append.1 subscribed with before | now
    · rcases ih before with there | consumed
      · rcases stays_or_consumed chunk_mem there e with still | ⟨-, same⟩ | ⟨-, same⟩ | consumed
        · exact .inl still
        · simp at same
        · simp at same
        · exact .inr consumed
      · exact .inr (consumed.snoc e)
    · rw [List.mem_singleton] at now
      subst now
      rw [listening_snoc]
      exact .inl ((mem_subscribes chunk_mem).2 (.inl ⟨rfl, by decide⟩))

theorem callback_left (unanswered : Unanswered id history) :
    id ++ "CALLBACK" ∈ listening history ∨ Consumed (id ++ "CALLBACK") history := by
  induction history using List.reverseRecOn with
  | nil =>
    obtain ⟨before, after, split, -⟩ := unanswered
    simp at split
  | append_singleton history e ih =>
    rcases unanswered_snoc.1 unanswered with rfl | ⟨before, other⟩
    · rw [listening_snoc]
      exact .inl ((mem_awaits callback_mem).2 (.inl ⟨rfl, rfl⟩))
    · rcases ih before with there | consumed
      · rcases stays_or_consumed callback_mem there e with still | ⟨same, -⟩ | ⟨-, same⟩ | consumed
        · exact .inl still
        · exact absurd same other
        · simp at same
        · exact .inr consumed
      · exact .inr (consumed.snoc e)

/-- Where nobody listens for a transfer that has ended, none was consumed: to remove the CHUNK
listener of one takes a consumed transfer with a longer id. -/
theorem not_consumed (quiet : ∀ id, .ends id ∈ history → ∀ suffix ∈ suffixes, id ++ suffix ∉ listening history)
    (id : String) : ¬Consumed id history := by
  intro consumed
  have longer : ∀ n, ∃ own, Consumed own history ∧ n ≤ own.length := by
    intro n
    induction n with
    | zero => exact ⟨id, consumed, Nat.zero_le _⟩
    | succ n ih =>
      obtain ⟨own, consumed, length⟩ := ih
      have left := (chunk_left consumed.2).resolve_left (quiet own consumed.1 "CHUNK" chunk_mem)
      refine ⟨own ++ "CHUNK", left, ?_⟩
      have suffixLength : "CHUNK".length = 5 := by decide
      rw [String.length_append]
      omega
  -- A history is finite.
  obtain ⟨bound, all⟩ : ∃ bound, ∀ e ∈ history, e.id.length ≤ bound :=
    ⟨(history.map (·.id.length)).sum, fun e member => List.le_sum_of_mem (List.mem_map_of_mem member)⟩
  obtain ⟨own, consumed, length⟩ := longer (bound + 1)
  have bounded : own.length ≤ bound := all _ consumed.1
  omega

/-- **When nobody is left**: nobody listens for a transfer that has ended just when none of
them had a listener but those that START removes. -/
theorem quiet_iff : (∀ id, .ends id ∈ history → ∀ suffix ∈ suffixes, id ++ suffix ∉ listening history) ↔
    Unheard history := by
  constructor
  · intro quiet id ended
    refine ⟨fun subscribed => not_consumed quiet id ⟨ended, subscribed⟩, fun unanswered => ?_⟩
    rcases callback_left unanswered with there | consumed
    · exact quiet id ended "CALLBACK" callback_mem there
    · exact not_consumed quiet _ consumed
  · intro unheard id ended suffix member there
    obtain ⟨never, served⟩ := unheard id ended
    by_cases callback : suffix = "CALLBACK"
    · subst callback
      exact served (unanswered_of_listening there)
    · exact never (subscribes_of_listening member callback there)

/-! ## The emitter of one end -/

section
variable {C ρ : Type} {role : C → Role} {ids : String → Prop} {e e' : EventEmitter String C}

theorem agrees_listens {names' : Set String}
    (agrees : ∀ id, ids id → ∀ suffix ∈ suffixes, (id ++ suffix ∈ names ↔ id ++ suffix ∈ names')) {ev : Event}
    (mine : ids ev.id) (known : ids id) (member : suffix ∈ suffixes) :
    id ++ suffix ∈ listens names ev ↔ id ++ suffix ∈ listens names' ev := by
  have same := agrees id known suffix member
  cases ev with
  | awaits own => rw [mem_awaits member, mem_awaits member, same]
  | starts own => rw [mem_starts member, mem_starts member, same]
  | subscribes own => rw [mem_subscribes member, mem_subscribes member, same]
  | ends own => rw [mem_ends member, mem_ends member, same, agrees own mine "END" end_mem]

theorem tracks_init : Tracks role ids [] ({} : EventEmitter String C) where
  proper := by simp
  known := by simp
  agrees := by simp [EventEmitter.names, listening]

/-- What happens to a transfer. -/
theorem Tracks.snoc (tracks : Tracks role ids history e) {ev : Event} (mine : ids ev.id)
    (proper : ∀ l ∈ e'.listeners, Proper role ids l) (after : e'.names = listens e.names ev) :
    Tracks role ids (history ++ [ev]) e' where
  proper := proper
  known := by
    intro ev' member
    rcases List.mem_append.1 member with before | now
    · exact tracks.known ev' before
    · rw [List.mem_singleton.1 now]
      exact mine
  agrees := by
    intro id known suffix member
    rw [after, listening_snoc]
    exact agrees_listens tracks.agrees mine known member

/-- What happens to none. -/
theorem Tracks.silent (tracks : Tracks role ids history e) (proper : ∀ l ∈ e'.listeners, Proper role ids l)
    (same : ∀ id, ids id → ∀ suffix ∈ suffixes, (id ++ suffix ∈ e'.names ↔ id ++ suffix ∈ e.names)) :
    Tracks role ids history e' where
  proper := proper
  known := tracks.known
  agrees := fun id known suffix member => (same id known suffix member).trans (tracks.agrees id known suffix member)

theorem Tracks.tidy_iff (tracks : Tracks role ids history e) : Tidy history e ↔ Unheard history := by
  rw [← quiet_iff]
  refine forall_congr' fun id => forall_congr' fun ended => forall_congr' fun suffix => forall_congr' fun member => ?_
  rw [listenersOf_eq_nil, tracks.agrees id (tracks.known _ ended) suffix member]

variable {invoke : Invoke String C ρ} {s : EventEmitter String C × ρ} {l : Listener String C} {c : C}

/-- Who hears a message listens for its kind, of its transfer. -/
theorem Tracks.heard (tracks : Tracks role ids history e) (apart : ∀ c, role c = .settle → Apart ids) (mine : ids id)
    (member : suffix ∈ suffixes) (there : l ∈ e.listenersOf (id ++ suffix)) :
    (role l.callback).suffix = suffix ∧ ∀ own, role l.callback = .complete own → own = id := by
  obtain ⟨registered, same⟩ := mem_listenersOf.1 there
  obtain ⟨id', known, named, own⟩ := (tracks.proper l registered).named
  rw [named] at same
  have transfer : role l.callback ≠ .settle := by
    intro settles
    rw [settles, Role.suffix, String.append_empty] at same
    exact apart l.callback settles id' id known mine suffix member same
  obtain ⟨rfl, kind⟩ := (derived_eq_iff (Role.suffix_mem transfer) member).1 same
  exact ⟨kind, own⟩

/-! ### Registrations -/

theorem proper_add (proper : ∀ l ∈ e.listeners, Proper role ids l) {r : Role} (is : role c = r) (mine : ids id)
    (own : ∀ own, r = .complete own → own = id) :
    ∀ l ∈ (e.add r.once (id ++ r.suffix) c).listeners, Proper role ids l := by
  intro l there
  subst is
  rcases mem_add.1 there with old | rfl
  · exact proper l old
  · exact ⟨⟨id, mine, rfl, own⟩, rfl⟩

theorem Tracks.await_ (tracks : Tracks role ids history e) (mine : ids id) (resolves : role c = .resolve) :
    Tracks role ids (history ++ [.awaits id]) (e.once (id ++ "CALLBACK") c) := by
  refine tracks.snoc mine ?_ (names_add e true _ c)
  exact proper_add tracks.proper resolves mine fun own same => by cases same

theorem Tracks.subscribe (tracks : Tracks role ids history e) (mine : ids id) {next error complete : C}
    (nexts : role next = .next) (errors : role error = .error) (completes : role complete = .complete id) :
    Tracks role ids (history ++ [.subscribes id])
      (((e.on (id ++ "CHUNK") next).once (id ++ "error") error).once (id ++ "END") complete) := by
  refine tracks.snoc mine ?_ ?_
  · have first := proper_add tracks.proper nexts mine fun own same => by cases same
    have second := proper_add first errors mine fun own same => by cases same
    exact proper_add second completes mine fun own same => by cases same; rfl
  · simp only [EventEmitter.on, EventEmitter.once, names_add, listens]

/-- A call of `bridge` begins to wait for its response. -/
theorem Tracks.settle (tracks : Tracks role ids history e) (apart : Apart ids) (mine : ids id)
    (settles : role c = .settle) : Tracks role ids history (e.once id c) := by
  refine tracks.silent ?_ fun id' known suffix member => ?_
  · have more := proper_add tracks.proper settles mine fun own same => by cases same
    rwa [Role.suffix, String.append_empty] at more
  · have other : id' ++ suffix ≠ id := (apart id id' mine known suffix member).symm
    rw [EventEmitter.once, names_add, Set.mem_insert_iff, or_iff_right other]

/-! ### Events -/

/-- An event of a transfer whose listeners are called once. -/
theorem Tracks.emit_once (tracks : Tracks role ids history s.1) {ev : Event} {name : String} (keep : String → Prop)
    (mine : ids ev.id) (goes : ∀ l ∈ s.1.listenersOf name, (role l.callback).once = true)
    (quiet : ∀ l ∈ s.1.listenersOf name, ∀ t, (invoke l.callback t).2 = false)
    (leaves : ∀ l ∈ s.1.listenersOf name, ∀ t m,
      m ∈ (invoke l.callback t).1.1.listeners ↔ m ∈ t.1.listeners ∧ keep m.name)
    (after : listens s.1.names ev = {n ∈ s.1.names | n ≠ name ∧ (name ∈ s.1.names → keep n)}) :
    Tracks role ids (history ++ [ev]) (emit invoke s name).1 := by
  have once : ∀ l ∈ s.1.listenersOf name, l.once = true := fun l there =>
    (tracks.proper l (mem_listenersOf.1 there).1).once.trans (goes l there)
  refine tracks.snoc mine (fun l there => ?_) ?_
  · exact tracks.proper l ((mem_emit_once (fun m => keep m.name) once quiet leaves l).1 there).1
  · rw [after]
    exact names_emit_once keep once quiet leaves

variable (effect : ∀ c t, (invoke c t).1.1 = (role c).clears t.1)
include effect

theorem Tracks.start (tracks : Tracks role ids history s.1) (apart : ∀ c, role c = .settle → Apart ids) (mine : ids id)
    (quiet : ∀ c t, role c = .resolve → (invoke c t).2 = false) :
    Tracks role ids (history ++ [.starts id]) (emit invoke s (id ++ "CALLBACK")).1 := by
  have resolve : ∀ l ∈ s.1.listenersOf (id ++ "CALLBACK"), role l.callback = .resolve := by
    intro l there
    have kind := (tracks.heard apart mine callback_mem there).1
    cases is : role l.callback <;> simp [is, Role.suffix] at kind
    rfl
  refine tracks.emit_once (fun _ => True) mine (fun l there => ?_) (fun l there t => ?_)
    (fun l there t m => ?_) (by simp [listens])
  · rw [resolve l there]
    rfl
  · exact quiet l.callback t (resolve l there)
  · rw [effect, resolve l there, and_true]
    rfl

theorem Tracks.chunk (tracks : Tracks role ids history s.1) (apart : ∀ c, role c = .settle → Apart ids) (mine : ids id) :
    Tracks role ids history (emit invoke s (id ++ "CHUNK")).1 := by
  have next : ∀ l ∈ s.1.listenersOf (id ++ "CHUNK"), role l.callback = .next := by
    intro l there
    have kind := (tracks.heard apart mine chunk_mem there).1
    cases is : role l.callback <;> simp [is, Role.suffix] at kind
    rfl
  rw [emit_of_stay (fun l there => ?_) fun l there t => ?_]
  · exact tracks
  · rw [(tracks.proper l (mem_listenersOf.1 there).1).once, next l there]
    rfl
  · rw [effect, next l there]
    rfl

theorem Tracks.end_ (tracks : Tracks role ids history s.1) (apart : ∀ c, role c = .settle → Apart ids) (mine : ids id)
    (quiet : ∀ c t own, role c = .complete own → (invoke c t).2 = false) :
    Tracks role ids (history ++ [.ends id]) (emit invoke s (id ++ "END")).1 := by
  have complete : ∀ l ∈ s.1.listenersOf (id ++ "END"), role l.callback = .complete id := by
    intro l there
    obtain ⟨kind, own⟩ := tracks.heard apart mine end_mem there
    cases is : role l.callback <;> simp [is, Role.suffix] at kind
    rw [own _ is]
  refine tracks.emit_once (· ≠ id) mine (fun l there => ?_) (fun l there t => ?_)
    (fun l there t m => ?_) rfl
  · rw [complete l there]
    rfl
  · exact quiet l.callback t id (complete l there)
  · rw [effect, complete l there, Role.clears]
    simp [removeAllListeners, restrict]

omit effect in
/-- A message of a transfer, with the callbacks that START hands the source to, and those of the rest. -/
theorem Tracks.message {M : Type} (tracks : Tracks role ids history s.1) (apart : ∀ c, role c = .settle → Apart ids)
    (data : Chunk M) (mine : ids data.id) {handed told : Invoke String C ρ}
    (first : ∀ c t, (handed c t).1.1 = (role c).clears t.1) (later : ∀ c t, (told c t).1.1 = (role c).clears t.1)
    (resolved : ∀ c t, role c = .resolve → (handed c t).2 = false)
    (completed : ∀ c t own, role c = .complete own → (told c t).2 = false) :
    Tracks role ids (history ++ data.happens.toList) (match data.status with
      | .START => emit handed s (data.id ++ "CALLBACK")
      | .CHUNK => emit told s (data.id ++ "CHUNK")
      | .END => emit told s (data.id ++ "END")).1 := by
  unfold Chunk.happens
  cases data.status with
  | START => exact tracks.start first apart mine resolved
  | CHUNK =>
    rw [Option.toList_none, List.append_nil]
    exact tracks.chunk later apart mine
  | END => exact tracks.end_ later apart mine completed

/-- A response, under the id of a call. -/
theorem Tracks.response (tracks : Tracks role ids history s.1) (apart : Apart ids) (mine : ids id)
    (quiet : ∀ c t, role c = .settle → (invoke c t).2 = false) :
    Tracks role ids history (emit invoke s id).1 := by
  have settle : ∀ l ∈ s.1.listenersOf id, role l.callback = .settle := by
    intro l there
    obtain ⟨registered, same⟩ := mem_listenersOf.1 there
    obtain ⟨id', known, named, -⟩ := (tracks.proper l registered).named
    by_contra transfer
    exact apart id id' mine known _ (Role.suffix_mem transfer) (same.symm.trans named)
  have once : ∀ l ∈ s.1.listenersOf id, l.once = true := fun l there =>
    (tracks.proper l (mem_listenersOf.1 there).1).once.trans (by rw [settle l there]; rfl)
  have silent : ∀ l ∈ s.1.listenersOf id, ∀ t, (invoke l.callback t).2 = false := fun l there t =>
    quiet l.callback t (settle l there)
  have leaves : ∀ l ∈ s.1.listenersOf id, ∀ (t : EventEmitter String C × ρ) (m : Listener String C),
      m ∈ (invoke l.callback t).1.1.listeners ↔ m ∈ t.1.listeners ∧ True := by
    intro l there t m
    rw [effect, settle l there, and_true]
    rfl
  refine tracks.silent (fun l there => ?_) fun id' known suffix member => ?_
  · exact tracks.proper l ((mem_emit_once (fun _ => True) once silent leaves l).1 there).1
  · have other : id' ++ suffix ≠ id := (apart id id' mine known suffix member).symm
    rw [names_emit_once (fun _ => True) once silent leaves]
    simp [other]

end

/-! ## Either end, with its transfers -/

def Callback.role : Callback → Role
  | .resolve _ => .resolve
  | .next _ => .next
  | .error _ => .error
  | .complete _ id => .complete id

section
variable {V M : Type} {parse : String → Option V} {b b' : Bridge V M}

/-- What a step is to the listeners of a transfer. -/
def happens (b : Bridge V M) : Act M → Option Event
  | .await_ transferId => some (.awaits transferId)
  | .message data => data.happens
  | .iterate p => b.2.promises[p]?.join.map fun source => .subscribes source.id

theorem invoke_emitter (parse : String → Option V) (payload : Payload M) (c : Callback) (t : Bridge V M) :
    (invoke parse payload c t).1.1 = c.role.clears t.1 := by
  obtain ⟨e, ρ⟩ := t
  cases c with
  | resolve p => cases payload <;> rfl
  | next k =>
    cases payload with
    | source source => rfl
    | data val => simp only [invoke]; split <;> rfl
  | error k => rfl
  | complete k id => rfl

/-- Any string is an id here: no call of `bridge` listens under one. -/
theorem Tracks.streamListener (tracks : Tracks Callback.role (fun _ => True) history b.1) (parse : String → Option V)
    (data : Chunk M) :
    Tracks Callback.role (fun _ => True) (history ++ data.happens.toList) (streamListener parse data b).1 := by
  have apart : ∀ c : Callback, c.role = .settle → Apart fun _ => True := by
    intro c settles
    cases c <;> cases settles
  refine tracks.message apart data trivial (invoke_emitter parse (.source _)) (invoke_emitter parse (.data _))
    (fun c t resolves => ?_) fun c t own completes => ?_
  · cases c <;> cases resolves
    rfl
  · cases c <;> cases completes
    rfl

theorem tracks_step {a : Act M} (tracks : Tracks Callback.role (fun _ => True) history b.1)
    (moved : step parse b a = some b') :
    Tracks Callback.role (fun _ => True) (history ++ (happens b a).toList) b'.1 := by
  cases a with
  | await_ transferId => cases moved; exact tracks.await_ trivial rfl
  | message data => cases moved; exact tracks.streamListener parse data
  | iterate p =>
    obtain ⟨source, opened, rfl⟩ := Option.map_eq_some_iff.1 moved
    rw [happens, opened]
    exact tracks.subscribe trivial rfl rfl rfl

theorem tracks_of_run {acts : List (Act M)} (reached : run (step parse) init acts = some b) :
    Tracks Callback.role (fun _ => True) (trace (step parse) happens init acts) b.1 := by
  refine run_trace (I := fun history b => Tracks Callback.role (fun _ => True) history b.1) tracks_init ?_
    (fun _ _ => trivial) reached
  intro history b a b' tracks _ moved
  exact tracks_step tracks moved

end

namespace Rpc

def Callback.role : Callback → Role
  | .settle _ => .settle
  | .resolve _ => .resolve
  | .next _ => .next
  | .error _ => .error
  | .complete _ id => .complete id

/-- The id that an action brings in. -/
def Act.id? {M : Type} : Act M → Option String
  | .RPC id _ _ | .RPCStreamArgs id _ _ _ | .RPCStreamResponse id _ _ => some id
  | .message (.rpcResponse response) => some response.id
  | .message (.streamChunk data) => some data.id
  | .message (.log _) | .message .other | .answers _ _ | .throws _ | .subscribe _ => none

section
variable {M : Type} {n n' : Native M} {length : Nat}

/-- What a step is to the listeners of a transfer. Calls and their responses have the bare id. -/
def happens (n : Native M) : Act M → Option Event
  | .RPCStreamResponse id _ _ => some (.awaits id)
  | .message (.streamChunk data) => data.happens
  | .subscribe i => match n.2.promises[i]? with
    | some (some (.fulfilled (.source source))) => some (.subscribes source.id)
    | _ => none
  | .RPC _ _ _ | .RPCStreamArgs _ _ _ _ | .answers _ _ | .throws _ => none
  | .message (.log _) | .message (.rpcResponse _) | .message .other => none

theorem invoke_emitter (payload : Payload M) (c : Callback) (t : Native M) :
    (invoke payload c t).1.1 = c.role.clears t.1 := by
  obtain ⟨e, p⟩ := t
  cases c with
  | settle i => simp only [invoke]; split <;> rfl
  | resolve i => rfl
  | next k => rfl
  | error k => rfl
  | complete k id => rfl

theorem apart_length (length : Nat) : Apart fun id => id.length = length := by
  have positive : ∀ suffix ∈ suffixes, 0 < suffix.length := by decide
  intro id id' same same' suffix member equal
  have longer := positive suffix member
  rw [equal, String.length_append, same'] at same
  omega

/-- The native side: its calls have ids of one length. -/
structure Regular (length : Nat) (history : List Event) (n : Native M) : Prop where
  sound : Sound n
  lengths : ∀ c ∈ n.2.calls, c.id.length = length
  tracks : Tracks Callback.role (·.length = length) history n.1

theorem mem_sent {p : Parties M} {i : Nat} {c : Call M} (member : c ∈ (p.sent i).calls) :
    ∃ before ∈ p.calls, before.id = c.id := by
  obtain ⟨j, at_⟩ := List.mem_iff_getElem?.1 member
  simp only [Parties.sent, List.getElem?_modify, Option.map_eq_map, Option.map_eq_some_iff] at at_
  obtain ⟨before, there, rfl⟩ := at_
  refine ⟨before, List.mem_of_getElem? there, ?_⟩
  split <;> rfl

/-- A call has the id that it was made with. -/
theorem calls_of_step {a : Act M} (moved : step n a = some n') {c : Call M} (member : c ∈ n'.2.calls) :
    (∃ before ∈ n.2.calls, before.id = c.id) ∨ a.id? = some c.id := by
  have opened {p : Parties M} {new : Call M} (member : c ∈ (p.open_ new).calls) : c ∈ p.calls ∨ c = new := by
    simpa [Parties.open_] using member
  cases a with
  | RPC id func args =>
    cases moved
    rcases opened member with old | rfl
    · exact .inl ⟨c, old, rfl⟩
    · exact .inr rfl
  | RPCStreamArgs id func args info =>
    cases moved
    rcases opened member with old | rfl
    · exact .inl ⟨c, old, rfl⟩
    · exact .inr rfl
  | RPCStreamResponse id func args =>
    cases moved
    rcases opened member with old | rfl
    · exact .inl ⟨c, old, rfl⟩
    · exact .inr rfl
  | answers i value =>
    obtain ⟨call, info, -, -, rfl⟩ := step_answers moved
    cases value with
    | some value => exact .inl ⟨c, member, rfl⟩
    | none => exact .inl (mem_sent member)
  | throws i =>
    rw [step_throws moved] at member
    exact .inl (mem_sent member)
  | message m =>
    cases moved
    have same : (messageHandler n m).2.calls = n.2.calls := by
      rcases messageHandler_cases n m with ⟨r, -, handled⟩ | ⟨name, payload, -, -, handled⟩ | handled
      · rw [handled]; exact (frame_emit _ n _).calls
      · rw [handled]; exact (frame_emit _ n _).calls
      · rw [handled]
    rw [same] at member
    exact .inl ⟨c, member, rfl⟩
  | subscribe i =>
    obtain ⟨call, source, -, -, -, rfl⟩ := step_subscribe moved
    exact .inl ⟨c, member, rfl⟩

theorem Regular.streamListener (regular : Regular length history n) (data : Chunk M) (mine : data.id.length = length) :
    Tracks Callback.role (·.length = length) (history ++ data.happens.toList) (streamListener data n).1 := by
  refine regular.tracks.message (fun _ _ => apart_length length) data mine (invoke_emitter (.source _))
    (invoke_emitter (.data _)) (fun c t resolves => ?_) fun c t own completes => ?_
  · cases c <;> cases resolves
    rfl
  · cases c <;> cases completes
    rfl

theorem Regular.tracks_step (regular : Regular length history n) {a : Act M}
    (lengths : ∀ id, a.id? = some id → id.length = length) (moved : step n a = some n') :
    Tracks Callback.role (·.length = length) (history ++ (happens n a).toList) n'.1 := by
  -- Steps that are nothing to a transfer.
  have silent {e : EventEmitter String Callback} (now : Tracks Callback.role (·.length = length) history e) :
      Tracks Callback.role (·.length = length) (history ++ (none : Option Event).toList) e := by
    rwa [Option.toList_none, List.append_nil]
  cases a with
  | RPC id func args =>
    cases moved
    exact silent (regular.tracks.settle (apart_length length) (lengths id rfl) rfl)
  | RPCStreamArgs id func args info => cases moved; exact silent regular.tracks
  | RPCStreamResponse id func args => cases moved; exact regular.tracks.await_ (lengths id rfl) rfl
  | answers i value =>
    obtain ⟨c, info, at_, -, rfl⟩ := step_answers moved
    cases value with
    | some value => exact silent regular.tracks
    | none =>
      have mine := regular.lengths c (List.mem_of_getElem? at_)
      exact silent (regular.tracks.settle (apart_length length) mine rfl)
  | throws i =>
    rw [step_throws moved]
    exact silent regular.tracks
  | message m =>
    cases moved
    cases m with
    | log text => exact silent regular.tracks
    | other => exact silent regular.tracks
    | streamChunk data => exact regular.streamListener data (lengths data.id rfl)
    | rpcResponse response =>
      refine silent (regular.tracks.response (invoke_emitter _) (apart_length length) (lengths _ rfl) fun c t settles => ?_)
      cases c <;> cases settles
      simp only [invoke]
      split <;> rfl
  | subscribe i =>
    obtain ⟨c, source, at_, kind, fulfilled, rfl⟩ := step_subscribe moved
    have mine : source.id.length = length := by
      rw [regular.sound.source i c source at_ kind fulfilled]
      exact regular.lengths c (List.mem_of_getElem? at_)
    simp only [happens, fulfilled]
    exact regular.tracks.subscribe mine rfl rfl rfl

theorem Regular.step (regular : Regular length history n) {a : Act M} (lengths : ∀ id, a.id? = some id → id.length = length)
    (moved : step n a = some n') : Regular length (history ++ (happens n a).toList) n' where
  sound := regular.sound.step moved
  lengths := by
    intro c member
    rcases calls_of_step moved member with ⟨before, there, same⟩ | new
    · rw [← same]
      exact regular.lengths before there
    · exact lengths c.id new
  tracks := regular.tracks_step lengths moved

theorem regular_of_run {acts : List (Act M)} (lengths : ∀ a ∈ acts, ∀ id, a.id? = some id → id.length = length)
    (reached : run step init acts = some n) : Regular length (trace step happens init acts) n :=
  run_trace ⟨sound_init, by simp [init], tracks_init⟩ (fun _ _ _ _ regular mine moved => regular.step mine moved)
    lengths reached

end

end Rpc

/-! ## Both ends -/

/-- **When finished transfers leave no listeners**: in every reachable state of either end, with
any transfers side by side, nobody listens for a transfer that has ended just when nobody ever
subscribed to one, and nobody who awaits its source is without a START. On the native side the calls of
`bridge` share the emitter, with ids of one length. -/
theorem tidy_iff_unheard {V M : Type} (parse : String → Option V) :
    (∀ (acts : List (Act M)) (b : Bridge V M), run (step parse) init acts = some b →
      (Tidy (trace (step parse) happens init acts) b.1 ↔ Unheard (trace (step parse) happens init acts))) ∧
    ∀ (length : Nat) (acts : List (Rpc.Act M)) (n : Rpc.Native M),
      (∀ a ∈ acts, ∀ id, a.id? = some id → id.length = length) → run Rpc.step Rpc.init acts = some n →
      (Tidy (trace Rpc.step Rpc.happens Rpc.init acts) n.1 ↔ Unheard (trace Rpc.step Rpc.happens Rpc.init acts)) := by
  constructor
  · intro acts b reached
    exact (tracks_of_run reached).tidy_iff
  · intro length acts n lengths reached
    exact (Rpc.regular_of_run lengths reached).tracks.tidy_iff

/-- A transfer that is awaited and comes to its end, and that nobody subscribes to. -/
theorem tidy_iff_unheard_sample :
    ∃ (acts : List (Act Unit)) (b : Bridge String Unit) (acts' : List (Rpc.Act Unit)) (n : Rpc.Native Unit),
      run (step some) init acts = some b ∧
      (Tidy (trace (step (some : String → Option String)) happens init acts) b.1 ↔
        Unheard (trace (step (some : String → Option String)) happens init acts)) ∧
      run Rpc.step Rpc.init acts' = some n ∧
      (Tidy (trace Rpc.step Rpc.happens Rpc.init acts') n.1 ↔ Unheard (trace Rpc.step Rpc.happens Rpc.init acts')) :=
  ⟨[.await_ "0123456789", .message ⟨"0123456789", (), "", .START⟩, .message ⟨"0123456789", (), "", .END⟩], _,
    [.RPCStreamResponse "0123456789" "receiveFile" [], .message (.streamChunk ⟨"0123456789", (), "", .START⟩),
      .message (.streamChunk ⟨"0123456789", (), "", .END⟩)], _,
    rfl, (tidy_iff_unheard some).1 _ _ rfl, rfl,
    (tidy_iff_unheard (V := String) (M := Unit) some).2 10 _ _ (by simp [Rpc.Act.id?]; decide) rfl⟩

/-- A file that is received on either side leaves the listeners of CHUNK and error. -/
theorem received_untidy :
    (∃ (acts : List (Act Unit)) (b : Bridge String Unit),
      acts = upload "0123456789" 0 [⟨"0123456789", (), "", .START⟩]
        [⟨"0123456789", (), "AQID", .CHUNK⟩, ⟨"0123456789", (), "", .END⟩] ∧
      run (step some) init acts = some b ∧
      b.1.listeners.map (·.name) = ["0123456789CHUNK", "0123456789error"] ∧
      ¬Tidy (trace (step (some : String → Option String)) happens init acts) b.1) ∧
    ∃ (acts : List (Rpc.Act Unit)) (n : Rpc.Native Unit),
      acts = [.RPCStreamResponse "0123456789" "receiveFile" [], .message (.streamChunk ⟨"0123456789", (), "", .START⟩),
        .subscribe 0, .message (.streamChunk ⟨"0123456789", (), "AQID", .CHUNK⟩),
        .message (.streamChunk ⟨"0123456789", (), "", .END⟩)] ∧
      run Rpc.step Rpc.init acts = some n ∧
      n.1.listeners.map (·.name) = ["0123456789CHUNK", "0123456789error"] ∧
      ¬Tidy (trace Rpc.step Rpc.happens Rpc.init acts) n.1 := by
  refine ⟨⟨_, _, rfl, rfl, by decide, fun tidy => ?_⟩, ⟨_, _, rfl, rfl, by decide, fun tidy => ?_⟩⟩
  · exact absurd (tidy "0123456789" (by decide) "CHUNK" chunk_mem) (by decide)
  · exact absurd (tidy "0123456789" (by decide) "CHUNK" chunk_mem) (by decide)

end Fula.RnFula
