import Mathlib.Data.List.Nodup
import Mathlib.Data.Set.Insert
import Mathlib.Tactic.Tauto

/-!
# Event emitters

A Node `EventEmitter` whose callbacks work on a state `ρ` beside it. A
registration has a key of its own, since a `once` listener removes itself and
no other. `emit` calls the listeners that were registered when it began, in
registration order; a `once` listener is removed before it is called, and an
exception of a callback ends the calls.
-/

namespace Lib
set_option autoImplicit false

structure Listener (N C : Type) where
  key : Nat
  name : N
  once : Bool
  callback : C
  deriving DecidableEq

structure EventEmitter (N C : Type) where
  listeners : List (Listener N C) := []
  nextKey : Nat := 0
  fresh : ∀ l ∈ listeners, l.key < nextKey := by simp
  ordered : listeners.Pairwise (·.key < ·.key) := by simp

namespace EventEmitter

variable {N C ρ : Type} [DecidableEq N]

def add (e : EventEmitter N C) (once : Bool) (name : N) (callback : C) : EventEmitter N C where
  listeners := e.listeners ++ [{ key := e.nextKey, name, once, callback }]
  nextKey := e.nextKey + 1
  fresh := by
    intro l member
    rcases List.mem_append.1 member with old | new
    · exact Nat.lt_succ_of_lt (e.fresh l old)
    · simp only [List.mem_singleton] at new
      subst new
      exact Nat.lt_succ_self _
  ordered := by
    refine List.pairwise_append.2 ⟨e.ordered, by simp, ?_⟩
    intro l old m new
    simp only [List.mem_singleton] at new
    subst new
    exact e.fresh l old

/-- `on(name, callback)`. -/
def on (e : EventEmitter N C) (name : N) (callback : C) : EventEmitter N C := e.add false name callback

/-- `once(name, callback)`. -/
def once (e : EventEmitter N C) (name : N) (callback : C) : EventEmitter N C := e.add true name callback

/-- The emitter with the listeners that `keep` keeps. -/
def restrict (e : EventEmitter N C) (keep : Listener N C → Bool) : EventEmitter N C where
  listeners := e.listeners.filter keep
  nextKey := e.nextKey
  fresh := fun l member => e.fresh l (List.mem_filter.1 member).1
  ordered := e.ordered.filter _

def removeListener (e : EventEmitter N C) (key : Nat) : EventEmitter N C := e.restrict fun l => l.key != key

def removeAllListeners (e : EventEmitter N C) (name : N) : EventEmitter N C := e.restrict fun l => l.name != name

/-- `removeAllListeners()`, without a name. -/
def clear (e : EventEmitter N C) : EventEmitter N C := e.restrict fun _ => false

/-- `listeners(name)`. -/
def listenersOf (e : EventEmitter N C) (name : N) : List (Listener N C) :=
  e.listeners.filter fun l => l.name = name

/-- The state after a callback, and whether the callback threw. -/
abbrev Invoke (N C ρ : Type) := C → EventEmitter N C × ρ → (EventEmitter N C × ρ) × Bool

def callAll (invoke : Invoke N C ρ) : EventEmitter N C × ρ → List (Listener N C) → EventEmitter N C × ρ
  | s, [] => s
  | s, l :: ls =>
    let called := invoke l.callback (if l.once then (s.1.removeListener l.key, s.2) else s)
    if called.2 then called.1 else callAll invoke called.1 ls

def emit (invoke : Invoke N C ρ) (s : EventEmitter N C × ρ) (name : N) : EventEmitter N C × ρ :=
  callAll invoke s (s.1.listenersOf name)

/-- One listener is called. -/
def call (invoke : Invoke N C ρ) (s : EventEmitter N C × ρ) (l : Listener N C) : (EventEmitter N C × ρ) × Bool :=
  invoke l.callback (if l.once then (s.1.removeListener l.key, s.2) else s)

/-! ## The listeners of one name -/

theorem mem_listenersOf {e : EventEmitter N C} {l : Listener N C} {n : N} :
    l ∈ e.listenersOf n ↔ l ∈ e.listeners ∧ l.name = n := by
  simp [listenersOf]

theorem listenersOf_add (e : EventEmitter N C) (once : Bool) (name : N) (callback : C) (n : N) :
    (e.add once name callback).listenersOf n =
      e.listenersOf n ++ if name = n then [{ key := e.nextKey, name, once, callback }] else [] := by
  by_cases same : name = n
  · simp [listenersOf, add, same]
  · simp [listenersOf, add, same]

theorem listenersOf_on (e : EventEmitter N C) (name : N) (callback : C) (n : N) :
    (e.on name callback).listenersOf n =
      e.listenersOf n ++ if name = n then [{ key := e.nextKey, name, once := false, callback }] else [] :=
  listenersOf_add e false name callback n

theorem listenersOf_once (e : EventEmitter N C) (name : N) (callback : C) (n : N) :
    (e.once name callback).listenersOf n =
      e.listenersOf n ++ if name = n then [{ key := e.nextKey, name, once := true, callback }] else [] :=
  listenersOf_add e true name callback n

/-- The first listener of a name. -/
theorem only_on {e : EventEmitter N C} {name : N} (free : e.listenersOf name = []) (callback : C) :
    ∃ l, (e.on name callback).listenersOf name = [l] ∧ l.once = false ∧ l.callback = callback :=
  ⟨{ key := e.nextKey, name, once := false, callback }, by simp [listenersOf_on, free], rfl, rfl⟩

theorem only_once {e : EventEmitter N C} {name : N} (free : e.listenersOf name = []) (callback : C) :
    ∃ l, (e.once name callback).listenersOf name = [l] ∧ l.once = true ∧ l.callback = callback :=
  ⟨{ key := e.nextKey, name, once := true, callback }, by simp [listenersOf_once, free], rfl, rfl⟩

omit [DecidableEq N] in
theorem nodup_keys (e : EventEmitter N C) : (e.listeners.map Listener.key).Nodup :=
  List.pairwise_map.2 (e.ordered.imp fun less => Nat.ne_of_lt less)

omit [DecidableEq N] in
/-- Keys tell registrations apart. -/
theorem key_inj {e : EventEmitter N C} {l m : Listener N C} (hl : l ∈ e.listeners) (hm : m ∈ e.listeners)
    (same : l.key = m.key) : l = m :=
  List.inj_on_of_nodup_map e.nodup_keys hl hm same

theorem listenersOf_removeListener (e : EventEmitter N C) (key : Nat) (n : N) :
    (e.removeListener key).listenersOf n = (e.listenersOf n).filter fun m => m.key != key := by
  simp only [listenersOf, removeListener, restrict, List.filter_filter]
  apply List.filter_congr
  intro m _
  exact Bool.and_comm _ _

/-- Removing a registration leaves the other names alone. -/
theorem listenersOf_removeListener_ne {e : EventEmitter N C} {l : Listener N C} (registered : l ∈ e.listeners) {n : N}
    (other : l.name ≠ n) : (e.removeListener l.key).listenersOf n = e.listenersOf n := by
  rw [listenersOf_removeListener]
  apply List.filter_eq_self.2
  intro m member
  obtain ⟨there, named⟩ := mem_listenersOf.1 member
  simp only [bne_iff_ne, ne_eq]
  intro same
  apply other
  rw [← key_inj there registered same, named]

theorem nodup_listenersOf (e : EventEmitter N C) (name : N) : (e.listenersOf name).Nodup :=
  (List.Nodup.of_map _ e.nodup_keys).filter _

/-- The first listener of a name, removed. -/
theorem listenersOf_removeListener_head {e : EventEmitter N C} {l : Listener N C} {ls : List (Listener N C)} {n : N}
    (listeners : e.listenersOf n = l :: ls) : (e.removeListener l.key).listenersOf n = ls := by
  have registered : ∀ m ∈ l :: ls, m ∈ e.listeners := fun m member => (mem_listenersOf.1 (listeners ▸ member)).1
  have apart := nodup_listenersOf e n
  rw [listeners, List.nodup_cons] at apart
  rw [listenersOf_removeListener, listeners, List.filter_cons_of_neg (by simp)]
  apply List.filter_eq_self.2
  intro m member
  simp only [bne_iff_ne, ne_eq]
  intro same
  apply apart.1
  rw [← key_inj (registered m (List.mem_cons_of_mem _ member)) (registered l List.mem_cons_self) same]
  exact member

/-- The only listener of a name, removed. -/
theorem listenersOf_removeListener_only {e : EventEmitter N C} {l : Listener N C} {n : N}
    (only : e.listenersOf n = [l]) : (e.removeListener l.key).listenersOf n = [] :=
  listenersOf_removeListener_head only

/-! ## Emitting -/

variable {invoke : Invoke N C ρ} {s : EventEmitter N C × ρ} {name : N}

/-- Nobody listens. -/
theorem emit_of_none (nobody : s.1.listenersOf name = []) : emit invoke s name = s := by
  simp [emit, nobody, callAll]

/-- One listener that stays. -/
theorem emit_of_on {l : Listener N C} (only : s.1.listenersOf name = [l]) (stays : l.once = false) :
    emit invoke s name = (invoke l.callback s).1 := by
  simp [emit, only, callAll, stays]

/-- One listener that goes. -/
theorem emit_of_once {l : Listener N C} (only : s.1.listenersOf name = [l]) (goes : l.once = true) :
    emit invoke s name = (invoke l.callback (s.1.removeListener l.key, s.2)).1 := by
  simp [emit, only, callAll, goes]

omit [DecidableEq N] in
/-- Callbacks that work on the state beside the emitter only, and do not throw. -/
theorem callAll_passive {f : C → ρ → ρ} (passive : ∀ c t, invoke c t = ((t.1, f c t.2), false)) (t : EventEmitter N C × ρ)
    {ls : List (Listener N C)} (stay : ∀ l ∈ ls, l.once = false) :
    callAll invoke t ls = (t.1, (ls.map Listener.callback).foldl (fun r c => f c r) t.2) := by
  induction ls generalizing t with
  | nil => rfl
  | cons l ls ih =>
    have here : l.once = false := stay l (by simp)
    simp only [callAll, here, passive, Bool.false_eq_true, if_false, List.map_cons, List.foldl_cons]
    exact ih _ fun m member => stay m (by simp [member])

theorem emit_passive {f : C → ρ → ρ} (passive : ∀ c t, invoke c t = ((t.1, f c t.2), false))
    (stay : ∀ l ∈ s.1.listeners, l.once = false) :
    emit invoke s name = (s.1, ((s.1.listenersOf name).map Listener.callback).foldl (fun r c => f c r) s.2) :=
  callAll_passive passive s fun l member => stay l (mem_listenersOf.1 member).1

omit [DecidableEq N] in
theorem callAll_cons (s : EventEmitter N C × ρ) (l : Listener N C) (ls : List (Listener N C)) :
    callAll invoke s (l :: ls) =
      if (call invoke s l).2 then (call invoke s l).1 else callAll invoke (call invoke s l).1 ls := rfl

omit [DecidableEq N] in
theorem callAll_keeps {P : EventEmitter N C × ρ → Prop} {ls : List (Listener N C)}
    (keep : ∀ l ∈ ls, ∀ t, P t → P (call invoke t l).1) {t : EventEmitter N C × ρ} (start : P t) :
    P (callAll invoke t ls) := by
  induction ls generalizing t with
  | nil => exact start
  | cons l ls ih =>
    have called := keep l (by simp) t start
    rw [callAll_cons]
    split
    · exact called
    · exact ih (fun m member => keep m (by simp [member])) called

/-- The rule of an event: what each of the listeners keeps, the event keeps. -/
theorem emit_keeps {P : EventEmitter N C × ρ → Prop} (start : P s)
    (keep : ∀ l ∈ s.1.listenersOf name, ∀ t, P t → P (call invoke t l).1) : P (emit invoke s name) :=
  callAll_keeps keep start

/-- What one of the listeners brings about, where none throws. -/
theorem emit_reaches {P Q : EventEmitter N C × ρ → Prop} {l : Listener N C} (heard : l ∈ s.1.listenersOf name)
    (start : P s) (quiet : ∀ m ∈ s.1.listenersOf name, ∀ t, (call invoke t m).2 = false)
    (before : ∀ m ∈ s.1.listenersOf name, ∀ t, P t → P (call invoke t m).1)
    (hit : ∀ t, P t → Q (call invoke t l).1)
    (after : ∀ m ∈ s.1.listenersOf name, ∀ t, Q t → Q (call invoke t m).1) : Q (emit invoke s name) := by
  unfold emit
  generalize s.1.listenersOf name = ls at heard quiet before after
  induction ls generalizing s with
  | nil => cases heard
  | cons m ls ih =>
    rw [callAll_cons, quiet m (by simp) s]
    rcases List.mem_cons.1 heard with rfl | later
    · exact callAll_keeps (fun m member => after m (by simp [member])) (hit s start)
    · exact ih (before m (by simp) s start) later (fun m member => quiet m (by simp [member]))
        (fun m member => before m (by simp [member])) (fun m member => after m (by simp [member]))

/-- What one listener changes, and every other leaves alone. -/
theorem emit_hits {P Q : EventEmitter N C × ρ → Prop} {l : Listener N C} (heard : l ∈ s.1.listenersOf name)
    (start : P s) (quiet : ∀ m ∈ s.1.listenersOf name, ∀ t, (call invoke t m).2 = false)
    (before : ∀ m ∈ s.1.listenersOf name, m ≠ l → ∀ t, P t → P (call invoke t m).1)
    (hit : ∀ t, P t → Q (call invoke t l).1)
    (after : ∀ m ∈ s.1.listenersOf name, m ≠ l → ∀ t, Q t → Q (call invoke t m).1) : Q (emit invoke s name) := by
  have apart := nodup_listenersOf s.1 name
  unfold emit
  generalize s.1.listenersOf name = ls at heard quiet before after apart
  induction ls generalizing s with
  | nil => cases heard
  | cons m ls ih =>
    rw [callAll_cons, quiet m (by simp) s]
    obtain ⟨fresh, apart⟩ := List.nodup_cons.1 apart
    rcases List.mem_cons.1 heard with rfl | later
    · refine callAll_keeps (fun m member => after m (by simp [member]) ?_) (hit s start)
      rintro rfl
      exact fresh member
    · have other : m ≠ l := by
        rintro rfl
        exact fresh later
      exact ih (before m (by simp) other s start) later (fun m member => quiet m (by simp [member]))
        (fun m member => before m (by simp [member])) (fun m member => after m (by simp [member])) apart

omit [DecidableEq N] in
/-- While a listener is called, no other is missing. -/
theorem call_eq (invoke : Invoke N C ρ) (t : EventEmitter N C × ρ) (l : Listener N C) :
    ∃ e, call invoke t l = invoke l.callback (e, t.2) ∧ (∀ m ∈ e.listeners, m ∈ t.1.listeners) ∧
      ∀ m ∈ t.1.listeners, m.key ≠ l.key → m ∈ e.listeners := by
  unfold call
  split
  · refine ⟨_, rfl, fun m there => (List.mem_filter.1 there).1, fun m there apart => ?_⟩
    exact List.mem_filter.2 ⟨there, by simpa using apart⟩
  · exact ⟨t.1, rfl, fun _ there => there, fun _ there _ => there⟩

omit [DecidableEq N] in
theorem mem_add {e : EventEmitter N C} {once : Bool} {n : N} {callback : C} {l : Listener N C} :
    l ∈ (e.add once n callback).listeners ↔
      l ∈ e.listeners ∨ l = { key := e.nextKey, name := n, once, callback } := by
  simp [add]

/-! ## Which names have a listener -/

/-- The names under which somebody listens. -/
def names (e : EventEmitter N C) : Set N := {n | ∃ l ∈ e.listeners, l.name = n}

theorem listenersOf_eq_nil {e : EventEmitter N C} {n : N} : e.listenersOf n = [] ↔ n ∉ e.names := by
  simp [listenersOf, names, List.filter_eq_nil_iff]

omit [DecidableEq N] in
theorem names_add (e : EventEmitter N C) (once : Bool) (n : N) (callback : C) :
    (e.add once n callback).names = insert n e.names := by
  ext m
  simp only [names, mem_add, Set.mem_ofPred_eq, Set.mem_insert_iff]
  constructor
  · rintro ⟨l, old | rfl, named⟩
    · exact .inr ⟨l, old, named⟩
    · exact .inl named.symm
  · rintro (rfl | ⟨l, old, named⟩)
    · exact ⟨_, .inr rfl, rfl⟩
    · exact ⟨l, .inl old, named⟩

omit [DecidableEq N] in
/-- The calls of `once` listeners that do not throw, and each of which leaves the listeners that `keep` says. -/
theorem mem_callAll_once (keep : Listener N C → Prop) {ls : List (Listener N C)} (goes : ∀ l ∈ ls, l.once = true)
    (quiet : ∀ l ∈ ls, ∀ t, (invoke l.callback t).2 = false)
    (leaves : ∀ l ∈ ls, ∀ t m, m ∈ (invoke l.callback t).1.1.listeners ↔ m ∈ t.1.listeners ∧ keep m)
    (t : EventEmitter N C × ρ) (m : Listener N C) :
    m ∈ (callAll invoke t ls).1.listeners ↔
      m ∈ t.1.listeners ∧ ∀ l ∈ ls, m.key ≠ l.key ∧ keep m := by
  induction ls generalizing t with
  | nil => simp [callAll]
  | cons l ls ih =>
    have here : call invoke t l = invoke l.callback (t.1.removeListener l.key, t.2) := by
      simp [call, goes l (by simp)]
    have removed : m ∈ (t.1.removeListener l.key).listeners ↔ m ∈ t.1.listeners ∧ m.key ≠ l.key := by
      simp [removeListener, restrict]
    rw [callAll_cons, here, quiet l (by simp), if_neg Bool.false_ne_true,
      ih (fun l' there => goes l' (by simp [there])) (fun l' there => quiet l' (by simp [there]))
        (fun l' there => leaves l' (by simp [there])), leaves l (by simp), removed]
    simp only [List.forall_mem_cons]
    tauto

/-- After an event of such listeners. -/
theorem mem_emit_once (keep : Listener N C → Prop) (goes : ∀ l ∈ s.1.listenersOf name, l.once = true)
    (quiet : ∀ l ∈ s.1.listenersOf name, ∀ t, (invoke l.callback t).2 = false)
    (leaves : ∀ l ∈ s.1.listenersOf name, ∀ t m,
      m ∈ (invoke l.callback t).1.1.listeners ↔ m ∈ t.1.listeners ∧ keep m) (m : Listener N C) :
    m ∈ (emit invoke s name).1.listeners ↔
      m ∈ s.1.listeners ∧ m.name ≠ name ∧ (name ∈ s.1.names → keep m) := by
  rw [emit, mem_callAll_once keep goes quiet leaves]
  constructor
  · rintro ⟨there, apart⟩
    refine ⟨there, fun named => ?_, fun ⟨l, registered, named⟩ => ?_⟩
    · exact (apart m (mem_listenersOf.2 ⟨there, named⟩)).1 rfl
    · exact (apart l (mem_listenersOf.2 ⟨registered, named⟩)).2
  · rintro ⟨there, other, kept⟩
    refine ⟨there, fun l heard => ?_⟩
    obtain ⟨registered, named⟩ := mem_listenersOf.1 heard
    refine ⟨fun same => other ?_, kept ⟨l, registered, named⟩⟩
    rw [key_inj there registered same, named]

theorem names_emit_once (keep : N → Prop) (goes : ∀ l ∈ s.1.listenersOf name, l.once = true)
    (quiet : ∀ l ∈ s.1.listenersOf name, ∀ t, (invoke l.callback t).2 = false)
    (leaves : ∀ l ∈ s.1.listenersOf name, ∀ t m,
      m ∈ (invoke l.callback t).1.1.listeners ↔ m ∈ t.1.listeners ∧ keep m.name) :
    (emit invoke s name).1.names = {n ∈ s.1.names | n ≠ name ∧ (name ∈ s.1.names → keep n)} := by
  have members := mem_emit_once (fun m => keep m.name) goes quiet leaves
  ext n
  constructor
  · rintro ⟨l, there, rfl⟩
    obtain ⟨before, other, kept⟩ := (members l).1 there
    exact ⟨⟨l, before, rfl⟩, other, kept⟩
  · rintro ⟨⟨l, before, rfl⟩, other, kept⟩
    exact ⟨l, (members l).2 ⟨before, other, kept⟩, rfl⟩

/-- An event of listeners that stay, and leave the emitter alone. -/
theorem emit_of_stay (stays : ∀ l ∈ s.1.listenersOf name, l.once = false)
    (alone : ∀ l ∈ s.1.listenersOf name, ∀ t, (invoke l.callback t).1.1 = t.1) : (emit invoke s name).1 = s.1 := by
  refine emit_keeps (P := fun t => t.1 = s.1) rfl fun l heard t same => ?_
  rw [call, stays l heard, if_neg Bool.false_ne_true, alone l heard, same]

end EventEmitter

end Lib
