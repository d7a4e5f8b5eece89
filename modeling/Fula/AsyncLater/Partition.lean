import Fula.AsyncLater.Delivery

/-!
# `partition` (`async-later/src/partition.ts`)

One call of `partition(index, iterable)`: the counter `current`, the two
`iterateLater` queues, and the pump `iterate()`, an async loop over the source
that nobody awaits. `receive` is one turn of the pump's `for await`, for any
answer the source may give. `Fed st inp` says what the two queues hold when
the pump has been given the elements `inp`.
-/

namespace Fula.AsyncLater
set_option autoImplicit false
open Lib IterateLater

/-- Where the pump's `for await` loop is. -/
inductive Loop (ε : Type) where
  | awaiting
  | finished
  | failed (e : ε)
  deriving DecidableEq, Repr

def Loop.isFinished {ε : Type} : Loop ε → Bool
  | .finished => true
  | _ => false

/-- The promise of `iterate()` is rejected. -/
def Loop.isFailed {ε : Type} : Loop ε → Bool
  | .failed _ => true
  | _ => false

structure Partition (α ε : Type) where
  index : Nat
  current : Nat := 0
  /-- `partitionFirst`, with `nextFirst` and `completeFirst`. -/
  first : IterateLater α ε := .init
  /-- `partitionSecond`, with `nextSecond` and `completeSecond`. -/
  second : IterateLater α ε := .init
  loop : Loop ε := .awaiting
  deriving DecidableEq, Repr

/-- No promise is ever pushed into the queues of a partition. -/
def noPromises {α ε : Type} : Settled α ε := fun _ => none

namespace Partition

variable {α ε : Type}

/-- One turn of the pump, on the source's answer. -/
def receive (s : Partition α ε) : Result α ε → Partition α ε
  | .value v =>
    let first := if s.current = s.index then s.first.complete else s.first
    if s.current < s.index then
      { s with first := first.next (.plain v), current := s.current + 1 }
    else
      { s with first, second := s.second.next (.plain v), current := s.current + 1 }
  | .done => { s with first := s.first.complete, second := s.second.complete, loop := .finished }
  -- the loop throws: the async function `iterate` rejects and completes neither queue
  | .error e => { s with loop := .failed e }

/-- The pump has been given the elements `inp`. -/
structure Fed (s : Partition α ε) (inp : List α) : Prop where
  current : s.current = inp.length
  first : Holds noPromises (plains (inp.take s.index))
    (decide (s.index < inp.length) || s.loop.isFinished) s.first
  second : Holds noPromises (plains (inp.drop s.index)) s.loop.isFinished s.second

theorem fed_init (index : Nat) : Fed ({ index } : Partition α ε) [] where
  current := rfl
  first := by rw [List.take_nil, plains_nil]; exact holds_init _
  second := by rw [List.drop_nil, plains_nil]; exact holds_init _

variable {s : Partition α ε} {inp : List α}

theorem Fed.value (h : Fed s inp) (running : s.loop = .awaiting) (v : α) :
    Fed (s.receive (.value v)) (inp ++ [v]) := by
  have open_ : s.loop.isFinished = false := by rw [running]; rfl
  have first := h.first
  have second := h.second
  rw [open_, Bool.or_false] at first
  rw [open_] at second
  simp only [receive, h.current]
  rcases Nat.lt_trichotomy inp.length s.index with before | here | after
  · -- the element belongs to the first part
    have notYet : ¬ s.index < inp.length := by omega
    have still : ¬ s.index < inp.length + 1 := by omega
    rw [if_neg (Nat.ne_of_lt before), if_pos before]
    rw [decide_eq_false notYet, List.take_of_length_le (Nat.le_of_lt before)] at first
    refine ⟨by simp, ?_, ?_⟩
    · simp only [List.length_append, List.length_singleton, decide_eq_false still, open_, Bool.or_false]
      rw [List.take_of_length_le (by simp; omega), ← pushed_plain]
      exact first.next (.plain v)
    · rw [List.drop_eq_nil_of_le (Nat.le_of_lt before)] at second
      rw [List.drop_eq_nil_of_le (by simp; omega)]
      simpa [open_] using second
  · -- the first element of the second part: the first queue is completed now
    rw [if_pos here, if_neg (by omega)]
    rw [decide_eq_false (by omega), List.take_of_length_le (by omega)] at first
    rw [List.drop_eq_nil_of_le (by omega)] at second
    refine ⟨by simp, ?_, ?_⟩
    · simp only [List.length_append, List.length_singleton, decide_eq_true (show s.index < inp.length + 1 by omega),
        Bool.true_or]
      rw [← here, List.take_left']
      · exact first.complete
      · rfl
    · have moved := second.next (.plain v)
      rw [pushed_plain] at moved
      rw [← here, List.drop_left' rfl]
      simpa [open_] using moved
  · rw [if_neg (by omega), if_neg (by omega)]
    rw [decide_eq_true after] at first
    refine ⟨by simp, ?_, ?_⟩
    · simp only [List.length_append, List.length_singleton, decide_eq_true (show s.index < inp.length + 1 by omega),
        Bool.true_or]
      rw [List.take_append_of_le_length (Nat.le_of_lt after)]
      exact first
    · have moved := second.next (.plain v)
      rw [pushed_plain] at moved
      rw [List.drop_append_of_le_length (Nat.le_of_lt after)]
      simpa [open_] using moved

theorem Fed.done (h : Fed s inp) : Fed (s.receive .done) inp where
  current := h.current
  first := by simpa [receive, Loop.isFinished] using h.first.complete
  second := h.second.complete

theorem Fed.error (h : Fed s inp) (running : s.loop = .awaiting) (e : ε) :
    Fed (s.receive (.error e)) inp where
  current := h.current
  first := by have first := h.first; rw [running] at first; exact first
  second := by have second := h.second; rw [running] at second; exact second

@[simp] theorem receive_index (r : Result α ε) : (s.receive r).index = s.index := by
  cases r with
  | value v => simp only [receive]; split <;> rfl
  | error e => rfl
  | done => rfl

theorem receive_value_loop (v : α) : (s.receive (.value v)).loop = s.loop := by
  simp only [receive]; split <;> rfl

theorem receive_value_current (v : α) : (s.receive (.value v)).current = s.current + 1 := by
  simp only [receive]; split <;> rfl

theorem receive_gen (r : Result α ε) : (s.receive r).second.gen = s.second.gen := by
  cases r with
  | value v => simp only [receive]; split <;> rfl
  | error e => rfl
  | done => rfl

theorem receive_first_gen (r : Result α ε) : (s.receive r).first.gen = s.first.gen := by
  cases r with
  | value v => simp only [receive]; split <;> split <;> rfl
  | error e => rfl
  | done => rfl

/-! ### The consumers of the two parts -/

/-- A change of the first queue that its own operations make. -/
theorem Fed.of_first (h : Fed s inp) {q : IterateLater α ε}
    (keep : ∀ rs closed, Holds noPromises rs closed s.first → Holds noPromises rs closed q) :
    Fed { s with first := q } inp where
  current := h.current
  first := keep _ _ h.first
  second := h.second

theorem Fed.of_second (h : Fed s inp) {q : IterateLater α ε}
    (keep : ∀ rs closed, Holds noPromises rs closed s.second → Holds noPromises rs closed q) :
    Fed { s with second := q } inp where
  current := h.current
  first := h.first
  second := keep _ _ h.second

/-- The pump adds at most one resumption to the two queues. -/
theorem receive_pending (r : Result α ε) :
    (s.receive r).first.pending + (s.receive r).second.pending ≤ s.first.pending + s.second.pending + 1 := by
  cases r with
  | value v =>
    simp only [receive]
    split
    · split <;> simp only [pending_next, pending_complete] <;> omega
    · split <;> simp only [pending_next, pending_complete] <;> omega
  | error e => simp [receive]
  | done => simp [receive, pending_complete]

end Partition

end Fula.AsyncLater
