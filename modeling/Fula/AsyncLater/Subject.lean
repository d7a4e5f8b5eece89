import Fula.AsyncLater.Partition

/-!
# Subjects read through `toAsyncIterable`

An rxjs `Subject`: what it emits goes to the observers subscribed at that
moment and to nobody else. `toAsyncIterable(subject)` subscribes at once, with
the `next` and `complete` of a new `iterateLater` queue
(`async-later/src/to-async-iterable.ts`), so a subject is modelled with the
queues made from it.
-/

namespace Fula.AsyncLater
set_option autoImplicit false
open Lib IterateLater

structure Subject (α ε : Type) where
  /-- The queue of each `toAsyncIterable(subject)`, in the order of the calls. -/
  observers : List (IterateLater α ε) := []
  stopped : Bool := false
  deriving DecidableEq, Repr

namespace Subject

variable {α ε : Type}

def next (s : Subject α ε) (v : α) : Subject α ε :=
  if s.stopped then s else { s with observers := s.observers.map (·.next (.plain v)) }

def complete (s : Subject α ε) : Subject α ε :=
  if s.stopped then s else { observers := s.observers.map (·.complete), stopped := true }

/-- `toAsyncIterable(subject)`; a stopped subject completes a new observer at once. -/
def toAsyncIterable (s : Subject α ε) : Subject α ε :=
  { s with observers := s.observers ++ [if s.stopped then IterateLater.init.complete else .init] }

/-- The consumer of queue `o` makes it `later`. -/
def set (s : Subject α ε) (o : Nat) (later : IterateLater α ε) : Subject α ε :=
  { s with observers := s.observers.set o later }

/-- The subject has one observer, subscribed before the emissions `vs`. -/
def Observed (s : Subject α ε) (vs : List α) (later : IterateLater α ε) : Prop :=
  s.observers = [later] ∧ Holds noPromises (plains vs) s.stopped later

theorem observed_init : (toAsyncIterable {} : Subject α ε).Observed [] .init :=
  ⟨rfl, holds_init _⟩

variable {s : Subject α ε} {vs : List α} {later : IterateLater α ε}

theorem Observed.next (h : s.Observed vs later) (open_ : s.stopped = false) (v : α) :
    (s.next v).Observed (vs ++ [v]) (later.next (.plain v)) := by
  obtain ⟨one, holds⟩ := h
  rw [open_] at holds
  constructor
  · simp [Subject.next, open_, one]
  · have moved := holds.next (.plain v)
    rw [pushed_plain] at moved
    simpa [Subject.next, open_] using moved

theorem Observed.complete (h : s.Observed vs later) (open_ : s.stopped = false) :
    s.complete.Observed vs later.complete := by
  obtain ⟨one, holds⟩ := h
  constructor
  · simp [Subject.complete, open_, one]
  · simpa [Subject.complete, open_] using holds.complete

/-- A change of the queue that its consumer makes. -/
theorem Observed.read (h : s.Observed vs later) {later' : IterateLater α ε}
    (keep : ∀ rs closed, Holds noPromises rs closed later → Holds noPromises rs closed later') :
    (s.set 0 later').Observed vs later' := by
  obtain ⟨one, holds⟩ := h
  exact ⟨by rw [Subject.set, one]; rfl, keep _ _ holds⟩

@[simp] theorem next_stopped (s : Subject α ε) (v : α) : (s.next v).stopped = s.stopped := by
  unfold Subject.next; split <;> rfl

@[simp] theorem complete_stopped (s : Subject α ε) : s.complete.stopped = true := by
  unfold Subject.complete
  split
  · assumption
  · rfl

end Subject

end Fula.AsyncLater
