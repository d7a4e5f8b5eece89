import Fula.Lib.AsyncGenerator
import Mathlib.Data.List.Induction

/-!
# `iterateLater` (`async-later/src/iterate-later.ts`)

The closure state of one call of `iterateLater()`: the deferreds made by
`resolveLater()`, the variables `nextInLine` and `queue`, and the generator
`iterate()` that was started on them. A deferred is named by the order in
which it was made. The operations are the three functions the call returns
(`next`, `complete`, and a `next()` on the iterable), plus the resumption of
the generator once the deferred it awaits has settled.

`Holds` relates this state to what a client should see: the list of cells
pushed, a flag for "closed", and how far the generator has read.
-/

namespace Fula.AsyncLater
set_option autoImplicit false
open Lib

/-- The argument of `next`: a value, or a promise (named by a number) that settles later. -/
inductive Item (α : Type) where
  | plain (v : α)
  | promise (p : Nat)
  deriving DecidableEq, Repr

/-- What a deferred was resolved with. `completed` is the marker object of `iterateLater`. -/
inductive Resolution (α : Type) where
  | item (i : Item α)
  | completed
  deriving DecidableEq, Repr

structure IterateLater (α ε : Type) where
  /-- The deferreds in the order they were made; `none` is not resolved yet. -/
  deferreds : List (Option (Resolution α))
  nextInLine : Nat
  /-- `queue`, with `unshift` at the head and `pop` at the end. -/
  queue : List Nat
  /-- The generator object `iterate()`. -/
  gen : AsyncGenerator Nat α ε
  deriving DecidableEq, Repr

/-- The promises pushed through `next`, as far as they have settled. -/
abbrev Settled (α ε : Type) := Nat → Option (Except ε α)

/-- What `await` on a deferred gives; `done` stands for the marker `completed`. -/
def awaited {α ε : Type} (settled : Settled α ε) : Option (Resolution α) → Option (Result α ε)
  | none => none
  | some .completed => some .done
  | some (.item (.plain v)) => some (.value v)
  | some (.item (.promise p)) => (settled p).map fun
    | .ok v => .value v
    | .error e => .error e

namespace IterateLater

variable {α ε : Type}

/-- `iterateLater()`: one deferred, in the queue, and the generator not started. -/
def init : IterateLater α ε :=
  { deferreds := [none], nextInLine := 0, queue := [0], gen := {} }

/-- The `resolve` function of deferred `d`. A second call has no effect. -/
def resolve (deferreds : List (Option (Resolution α))) (d : Nat) (r : Resolution α) :
    List (Option (Resolution α)) :=
  deferreds.modify d (·.or (some r))

/-- `next(value)` -/
def next (s : IterateLater α ε) (i : Item α) : IterateLater α ε :=
  { s with
    deferreds := resolve s.deferreds s.nextInLine (.item i) ++ [none]
    nextInLine := s.deferreds.length
    queue := s.deferreds.length :: s.queue }

/-- `complete()` -/
def complete (s : IterateLater α ε) : IterateLater α ε :=
  { s with deferreds := resolve s.deferreds s.nextInLine .completed }

/-- The head of the `while` loop in `iterate`, with a call waiting. -/
def enter (s : IterateLater α ε) : IterateLater α ε :=
  match s.queue.getLast? with
  | some d => { s with queue := s.queue.dropLast, gen := { s.gen with control := .awaiting d } }
  | none => { s with gen := s.gen.finish }

/-- The consumer calls `next()` on the iterable. -/
def pull (s : IterateLater α ε) : IterateLater α ε :=
  match s.gen.control with
  | .suspended => enter { s with gen := { s.gen with pulls := s.gen.pulls + 1 } }
  | .awaiting _ => { s with gen := { s.gen with pulls := s.gen.pulls + 1 } }
  | .finished => { s with gen := { s.gen with results := s.gen.results ++ [.done] } }

/-- `yield nextValue`; when more calls wait the generator goes on at once. -/
def afterYield (s : IterateLater α ε) (v : α) : IterateLater α ε :=
  let g := s.gen.yieldValue v
  if g.pulls = 0 then { s with gen := g } else enter { s with gen := g }

/-- The generator is resumed in `await nextValue`. -/
def tick (settled : Settled α ε) (s : IterateLater α ε) : Option (IterateLater α ε) :=
  match s.gen.control with
  | .awaiting d =>
    match awaited settled (s.deferreds[d]?).join with
    | none => none
    | some .done => some s.enter
    | some (.value v) => some (s.afterYield v)
    | some (.error e) => some { s with gen := s.gen.throw e }
  | _ => none

/-! ## The queue as a client sees it -/

/-- The resolved deferreds, given the ones before `nextInLine` and whether that one is completed. -/
def cells (rs : List (Resolution α)) (closed : Bool) : List (Resolution α) :=
  rs ++ if closed then [.completed] else []

/-- What `next` appends: on a completed `nextInLine` the item is dropped. -/
def pushed (rs : List (Resolution α)) (closed : Bool) (i : Item α) : List (Resolution α) :=
  rs ++ [if closed then .completed else .item i]

/-- The values yielded when every cell of a list has been read and none was an error. -/
def values (settled : Settled α ε) : List (Resolution α) → Option (List α)
  | [] => some []
  | r :: rs =>
    match awaited settled (some r) with
    | some (.value v) => (values settled rs).map (v :: ·)
    | some .done => values settled rs
    | _ => none

/-- Where the generator stands after taking `taken` deferreds from the queue. -/
def GenAt (settled : Settled α ε) (cs : List (Resolution α)) (taken : Nat)
    (g : AsyncGenerator Nat α ε) : Prop :=
  match g.control with
  | .suspended => g.pulls = 0 ∧ taken ≤ cs.length ∧
      ∃ vs, values settled (cs.take taken) = some vs ∧ g.results = vs.map .value
  | .awaiting d => 0 < g.pulls ∧ taken = d + 1 ∧ d ≤ cs.length ∧
      ∃ vs, values settled (cs.take d) = some vs ∧ g.results = vs.map .value
  | .finished => g.pulls = 0 ∧ ∃ d r last k vs, taken = d + 1 ∧ cs[d]? = some r ∧
      awaited settled (some r) = some last ∧ last.value? = none ∧
      values settled (cs.take d) = some vs ∧ g.results = vs.map .value ++ last :: List.replicate k .done

/-- The state `s` after the pushes `rs`, with `nextInLine` completed when `closed`. -/
structure Holds (settled : Settled α ε) (rs : List (Resolution α)) (closed : Bool)
    (s : IterateLater α ε) : Prop where
  deferreds : s.deferreds = rs.map some ++ [if closed then some .completed else none]
  nextInLine : s.nextInLine = rs.length
  reading : ∃ taken, taken ≤ rs.length + 1 ∧
    s.queue = (List.range' taken (rs.length + 1 - taken)).reverse ∧
    (s.gen.control = .suspended → taken ≤ rs.length) ∧
    GenAt settled (cells rs closed) taken s.gen

theorem holds_init (settled : Settled α ε) : Holds settled [] false (init (α := α) (ε := ε)) where
  deferreds := rfl
  nextInLine := rfl
  reading := ⟨0, by simp, rfl, by simp, rfl, by simp, [], rfl, rfl⟩

theorem deferred_eq {settled : Settled α ε} {rs : List (Resolution α)} {closed : Bool}
    {s : IterateLater α ε} (h : Holds settled rs closed s) (d : Nat) :
    (s.deferreds[d]?).join = (cells rs closed)[d]? := by
  rw [h.deferreds, cells]
  rcases Nat.lt_or_ge d rs.length with less | more
  · simp [List.getElem?_append_left, less]
  · rw [List.getElem?_append_right (by simpa using more), List.getElem?_append_right more, List.length_map]
    cases d - rs.length with
    | zero => cases closed <;> rfl
    | succ k => cases closed <;> rfl

/-! ### Reading a prefix -/

theorem values_append (settled : Settled α ε) (as bs : List (Resolution α)) :
    values settled (as ++ bs) =
      (values settled as).bind fun xs => (values settled bs).map (xs ++ ·) := by
  induction as with
  | nil => simp [values]
  | cons a as ih =>
    simp only [List.cons_append, values, ih]
    cases awaited settled (some a) with
    | none => rfl
    | some r => cases r <;> cases values settled as <;> cases values settled bs <;> rfl

theorem values_snoc {settled : Settled α ε} {rs : List (Resolution α)} {r : Resolution α} {vs : List α}
    (before : values settled rs = some vs) {v : α} (here : awaited settled (some r) = some (.value v)) :
    values settled (rs ++ [r]) = some (vs ++ [v]) := by
  simp [values_append, before, values, here]

theorem values_snoc_done {settled : Settled α ε} {rs : List (Resolution α)} {r : Resolution α}
    {vs : List α} (before : values settled rs = some vs) (here : awaited settled (some r) = some .done) :
    values settled (rs ++ [r]) = some vs := by
  simp [values_append, before, values, here]

theorem take_succ_of {rs : List (Resolution α)} {d : Nat} {r : Resolution α} (at_ : rs[d]? = some r) :
    rs.take (d + 1) = rs.take d ++ [r] := by
  rw [List.take_add_one, at_]; rfl

/-- Later settlements do not change what has been awaited. -/
def Settled.le (a b : Settled α ε) : Prop := ∀ p r, a p = some r → b p = some r

theorem awaited_mono {a b : Settled α ε} (le : Settled.le a b) {c : Option (Resolution α)}
    {r : Result α ε} (h : awaited a c = some r) : awaited b c = some r := by
  match c with
  | none => cases h
  | some .completed => exact h
  | some (.item (.plain _)) => exact h
  | some (.item (.promise p)) =>
    simp only [awaited, Option.map_eq_some_iff] at h ⊢
    obtain ⟨x, settledP, eq⟩ := h
    exact ⟨x, le p x settledP, eq⟩

theorem values_mono {a b : Settled α ε} (le : Settled.le a b) {rs : List (Resolution α)} {vs : List α}
    (h : values a rs = some vs) : values b rs = some vs := by
  induction rs generalizing vs with
  | nil => exact h
  | cons r rs ih =>
    simp only [values] at h ⊢
    cases ha : awaited a (some r) with
    | none => simp [ha] at h
    | some x =>
      rw [awaited_mono le ha]
      rw [ha] at h
      cases x with
      | value v =>
        simp only [Option.map_eq_some_iff] at h ⊢
        obtain ⟨ws, hws, eq⟩ := h
        exact ⟨ws, ih hws, eq⟩
      | error e => cases h
      | done => exact ih h

/-- The generator's place survives more cells and more settlements. -/
theorem GenAt.mono {a b : Settled α ε} (le : Settled.le a b) {cs cs' : List (Resolution α)}
    (more : cs <+: cs') {taken : Nat} {g : AsyncGenerator Nat α ε} (h : GenAt a cs taken g) :
    GenAt b cs' taken g := by
  obtain ⟨rest, rfl⟩ := more
  have kept : ∀ {n}, n ≤ cs.length → (cs ++ rest).take n = cs.take n := fun hn => by
    rw [List.take_append_of_le_length hn]
  cases hc : g.control with
  | suspended =>
    simp only [GenAt, hc] at h ⊢
    obtain ⟨none, bound, vs, read, results⟩ := h
    refine ⟨none, by simp; omega, vs, ?_, results⟩
    rw [kept bound]; exact values_mono le read
  | awaiting d =>
    simp only [GenAt, hc] at h ⊢
    obtain ⟨some, eq, bound, vs, read, results⟩ := h
    refine ⟨some, eq, by simp; omega, vs, ?_, results⟩
    rw [kept bound]; exact values_mono le read
  | finished =>
    simp only [GenAt, hc] at h ⊢
    obtain ⟨none, d, r, last, k, vs, eq, at_, here, stop, read, results⟩ := h
    have bound : d < cs.length := (List.getElem?_eq_some_iff.1 at_).1
    refine ⟨none, d, r, last, k, vs, eq, ?_, awaited_mono le here, stop, ?_, results⟩
    · rw [List.getElem?_append_left bound]; exact at_
    · rw [kept (Nat.le_of_lt bound)]; exact values_mono le read

/-! ### What each operation does -/

variable {settled : Settled α ε} {rs : List (Resolution α)} {closed : Bool} {s : IterateLater α ε}

theorem Holds.settle {more : Settled α ε} (le : Settled.le settled more) (h : Holds settled rs closed s) :
    Holds more rs closed s := by
  obtain ⟨taken, bound, queue, room, at_⟩ := h.reading
  exact ⟨h.deferreds, h.nextInLine, taken, bound, queue, room, at_.mono le (List.prefix_refl _)⟩

theorem resolve_last (rs : List (Resolution α)) (c : Option (Resolution α)) (r : Resolution α) :
    resolve (rs.map some ++ [c]) rs.length r = rs.map some ++ [c.or (some r)] := by
  simp [resolve, List.modify_eq_set_getElem?]

theorem Holds.next (h : Holds settled rs closed s) (i : Item α) :
    Holds settled (pushed rs closed i) false (s.next i) := by
  obtain ⟨taken, bound, queue, room, at_⟩ := h.reading
  have length : s.deferreds.length = rs.length + 1 := by simp [h.deferreds]
  refine ⟨?_, ?_, taken, ?_, ?_, ?_, ?_⟩
  · simp only [IterateLater.next, h.deferreds, h.nextInLine, resolve_last, pushed]
    cases closed <;> simp
  · simp [IterateLater.next, length, pushed]
  · simp [pushed]; omega
  · have split : rs.length + 1 + 1 - taken = (rs.length + 1 - taken) + 1 := by omega
    simp only [IterateLater.next, length, queue, pushed, List.length_append, List.length_singleton, split,
      List.range'_concat, List.reverse_append, List.reverse_singleton, List.singleton_append, Nat.one_mul]
    congr 1; omega
  · intro sus; have := room sus; simp [pushed]; omega
  · refine at_.mono (fun _ _ h => h) ?_
    cases closed <;> simp [cells, pushed]

theorem Holds.complete (h : Holds settled rs closed s) : Holds settled rs true s.complete := by
  obtain ⟨taken, bound, queue, room, at_⟩ := h.reading
  refine ⟨?_, h.nextInLine, taken, bound, queue, room, ?_⟩
  · simp only [IterateLater.complete, h.deferreds, h.nextInLine, resolve_last]
    cases closed <;> simp
  · refine at_.mono (fun _ _ h => h) ?_
    cases closed <;> simp [cells]

/-- The generator is at the head of its loop and a call is waiting. -/
structure AtHead (settled : Settled α ε) (rs : List (Resolution α)) (closed : Bool)
    (s : IterateLater α ε) : Prop where
  deferreds : s.deferreds = rs.map some ++ [if closed then some .completed else none]
  nextInLine : s.nextInLine = rs.length
  waiting : 0 < s.gen.pulls
  reading : ∃ taken vs, taken ≤ rs.length + 1 ∧
    s.queue = (List.range' taken (rs.length + 1 - taken)).reverse ∧ taken ≤ (cells rs closed).length ∧
    values settled ((cells rs closed).take taken) = some vs ∧ s.gen.results = vs.map .value

theorem AtHead.enter (h : AtHead settled rs closed s) : Holds settled rs closed s.enter := by
  obtain ⟨taken, vs, bound, queue, inside, read, results⟩ := h.reading
  rcases Nat.lt_or_eq_of_le bound with less | rfl
  · -- another deferred is queued: it is popped and awaited
    have split : rs.length + 1 - taken = (rs.length - taken) + 1 := by omega
    have pop : s.queue = (List.range' (taken + 1) (rs.length - taken)).reverse ++ [taken] := by
      rw [queue, split, List.range'_succ, List.reverse_cons]
    have entered : s.enter = { s with
        queue := (List.range' (taken + 1) (rs.length - taken)).reverse
        gen := { s.gen with control := .awaiting taken } } := by
      simp [IterateLater.enter, pop]
    rw [entered]
    refine ⟨h.deferreds, h.nextInLine, taken + 1, less, ?_, by simp, h.waiting, rfl, inside, vs, read, results⟩
    simp only [show rs.length + 1 - (taken + 1) = rs.length - taken by omega]
  · -- the marker was read last and nothing is queued
    have isClosed : closed = true := by
      cases closed
      · simp only [cells, Bool.false_eq_true, if_false, List.append_nil] at inside; omega
      · rfl
    subst isClosed
    have empty : s.queue = [] := by rw [queue]; simp
    have entered : s.enter = { s with gen := s.gen.finish } := by simp [IterateLater.enter, empty]
    have marker : (cells rs true)[rs.length]? = some .completed := by simp [cells]
    have before : values settled ((cells rs true).take rs.length) = some vs := by
      rw [take_succ_of marker, values_append] at read
      cases hv : values settled ((cells rs true).take rs.length) with
      | none => simp [hv] at read
      | some ws => simpa [hv, values, awaited] using read
    rw [entered]
    refine ⟨h.deferreds, h.nextInLine, rs.length + 1, by simp, queue, by simp [AsyncGenerator.finish], ?_⟩
    refine ⟨rfl, rs.length, .completed, .done, s.gen.pulls - 1, vs, rfl, marker, rfl, rfl, before, ?_⟩
    have split : s.gen.pulls = (s.gen.pulls - 1) + 1 := by have := h.waiting; omega
    rw [← List.replicate_succ, ← split, ← results]; rfl

theorem Holds.pull (h : Holds settled rs closed s) : Holds settled rs closed s.pull := by
  obtain ⟨taken, bound, queue, room, at_⟩ := h.reading
  cases hc : s.gen.control with
  | suspended =>
    simp only [IterateLater.pull, hc]
    simp only [GenAt, hc] at at_
    obtain ⟨-, inside, vs, read, results⟩ := at_
    exact AtHead.enter ⟨h.deferreds, h.nextInLine, by simp, taken, vs, bound, queue, inside, read, results⟩
  | awaiting d =>
    simp only [IterateLater.pull, hc]
    simp only [GenAt, hc] at at_
    refine ⟨h.deferreds, h.nextInLine, taken, bound, queue, by simp, ?_⟩
    simp only [GenAt]
    exact ⟨by omega, at_.2⟩
  | finished =>
    simp only [IterateLater.pull, hc]
    simp only [GenAt, hc] at at_
    obtain ⟨none, d, r, last, k, vs, eq, cell, here, stop, read, results⟩ := at_
    refine ⟨h.deferreds, h.nextInLine, taken, bound, queue, by simp, ?_⟩
    simp only [GenAt]
    refine ⟨none, d, r, last, k + 1, vs, eq, cell, here, stop, read, ?_⟩
    simp [results, List.replicate_succ']

/-- A cell that yields a value is an item, so it lies before `nextInLine`. -/
theorem item_before {d : Nat} {r : Resolution α} {v : α} (cell : (cells rs closed)[d]? = some r)
    (here : awaited settled (some r) = some (.value v)) : d < rs.length := by
  rcases Nat.lt_or_ge d rs.length with less | more
  · exact less
  · rw [cells, List.getElem?_append_right more] at cell
    cases closed with
    | false => simp at cell
    | true =>
      have marker : r = .completed := by
        rcases Nat.eq_zero_or_pos (d - rs.length) with zero | pos
        · simpa [zero] using cell.symm
        · rw [List.getElem?_eq_none (by simp; omega)] at cell; cases cell
      subst marker
      simp [awaited] at here

theorem Holds.tick {s' : IterateLater α ε} (h : Holds settled rs closed s)
    (step : s.tick settled = some s') : Holds settled rs closed s' := by
  obtain ⟨taken, bound, queue, room, at_⟩ := h.reading
  cases hc : s.gen.control with
  | suspended => simp [IterateLater.tick, hc] at step
  | finished => simp [IterateLater.tick, hc] at step
  | awaiting d =>
    simp only [IterateLater.tick, hc, deferred_eq h] at step
    simp only [GenAt, hc] at at_
    obtain ⟨waiting, rfl, inside, vs, read, results⟩ := at_
    cases hcell : (cells rs closed)[d]? with
    | none => simp [hcell, awaited] at step
    | some r =>
      have here : d < (cells rs closed).length := (List.getElem?_eq_some_iff.1 hcell).1
      rw [hcell] at step
      cases hr : awaited settled (some r) with
      | none => simp [hr] at step
      | some x =>
        rw [hr] at step
        cases x with
        | done =>
          cases step
          refine AtHead.enter ⟨h.deferreds, h.nextInLine, waiting, d + 1, vs, bound, queue, here, ?_, results⟩
          rw [take_succ_of hcell]; exact values_snoc_done read hr
        | value v =>
          have more : values settled ((cells rs closed).take (d + 1)) = some (vs ++ [v]) := by
            rw [take_succ_of hcell]; exact values_snoc read hr
          have answered : (s.gen.yieldValue v).results = (vs ++ [v]).map .value := by
            simp [AsyncGenerator.yieldValue, results]
          simp only [afterYield, Option.some.injEq] at step
          split at step
          · rename_i none
            subst step
            exact ⟨h.deferreds, h.nextInLine, d + 1, bound, queue, fun _ => item_before hcell hr, none, here,
              vs ++ [v], more, answered⟩
          · rename_i some
            subst step
            exact AtHead.enter ⟨h.deferreds, h.nextInLine, by simpa using Nat.pos_of_ne_zero some, d + 1, vs ++ [v],
              bound, queue, here, more, answered⟩
        | error e =>
          cases step
          refine ⟨h.deferreds, h.nextInLine, d + 1, bound, queue, by simp [AsyncGenerator.throw], rfl, d, r,
            .error e, s.gen.pulls - 1, vs, rfl, hcell, hr, rfl, read, ?_⟩
          simp [AsyncGenerator.throw, results]

/-! ### Answers only grow, and every call is counted -/

theorem results_enter (s : IterateLater α ε) : s.gen.results <+: s.enter.gen.results := by
  unfold enter; split
  · exact List.prefix_refl _
  · exact AsyncGenerator.results_finish _

theorem results_pull (s : IterateLater α ε) : s.gen.results <+: s.pull.gen.results := by
  unfold pull; split
  · exact results_enter { s with gen := { s.gen with pulls := s.gen.pulls + 1 } }
  · exact List.prefix_refl _
  · exact List.prefix_append _ _

theorem results_tick {s' : IterateLater α ε} (step : s.tick settled = some s') :
    s.gen.results <+: s'.gen.results := by
  unfold tick at step
  split at step
  · split at step
    · cases step
    · cases step; exact results_enter _
    · cases step
      unfold afterYield
      simp only
      split
      · exact AsyncGenerator.results_yieldValue _ _
      · exact (AsyncGenerator.results_yieldValue _ _).trans (results_enter { s with gen := s.gen.yieldValue _ })
    · cases step; exact AsyncGenerator.results_throw _ _
  · cases step

theorem calls_enter (s : IterateLater α ε) : s.enter.gen.calls = s.gen.calls := by
  unfold enter; split
  · rfl
  · exact AsyncGenerator.calls_finish _

theorem calls_pull (s : IterateLater α ε) : s.pull.gen.calls = s.gen.calls + 1 := by
  unfold pull; split
  · rw [calls_enter]; simp [AsyncGenerator.calls]; omega
  · simp [AsyncGenerator.calls]; omega
  · simp [AsyncGenerator.calls]; omega

theorem Holds.calls_tick {s' : IterateLater α ε} (h : Holds settled rs closed s)
    (step : s.tick settled = some s') : s'.gen.calls = s.gen.calls := by
  obtain ⟨taken, -, -, -, at_⟩ := h.reading
  unfold IterateLater.tick at step
  split at step
  · rename_i d hc
    simp only [GenAt, hc] at at_
    have waiting := at_.1
    split at step
    · cases step
    · cases step; exact calls_enter _
    · cases step
      unfold afterYield
      simp only
      split
      · exact AsyncGenerator.calls_yieldValue waiting _
      · rw [calls_enter]; exact AsyncGenerator.calls_yieldValue waiting _
    · cases step; exact AsyncGenerator.calls_throw waiting _
  · cases step

/-! ### Progress -/

/-- The resumptions the generator can still make without a new call of `next()`. -/
def pending (s : IterateLater α ε) : Nat :=
  s.queue.length + match s.gen.control with
  | .awaiting _ => 1
  | _ => 0

theorem pending_complete (s : IterateLater α ε) : s.complete.pending = s.pending := rfl

theorem pending_next (s : IterateLater α ε) (i : Item α) : (s.next i).pending = s.pending + 1 := by
  simp only [pending, next, List.length_cons]; omega

theorem pending_enter (s : IterateLater α ε) : s.enter.pending ≤ s.queue.length := by
  unfold enter pending
  split
  · rename_i d last
    have : s.queue ≠ [] := by rintro none; simp [none] at last
    have := List.length_pos_iff.2 this
    simp only [List.length_dropLast]; omega
  · simp [AsyncGenerator.finish]

theorem pending_pull (s : IterateLater α ε) : s.pull.pending ≤ s.pending := by
  unfold pull
  split
  · have less := pending_enter { s with gen := { s.gen with pulls := s.gen.pulls + 1 } }
    exact Nat.le_trans less (Nat.le_add_right _ _)
  · simp [pending]
  · simp [pending]

theorem pending_tick {s' : IterateLater α ε} (step : s.tick settled = some s') : s'.pending < s.pending := by
  unfold tick at step
  split at step
  · rename_i d hc
    have here : s.pending = s.queue.length + 1 := by simp [pending, hc]
    split at step
    · cases step
    · cases step; have := pending_enter s; omega
    · rename_i v _
      cases step
      unfold afterYield
      simp only
      split
      · simp [pending, hc, AsyncGenerator.yieldValue]
      · have less := pending_enter { s with gen := s.gen.yieldValue v }
        exact here ▸ Nat.lt_succ_of_le less
    · cases step; simp [pending, hc, AsyncGenerator.throw]
  · cases step

/-- When the generator cannot be resumed, no call waits or the deferred it awaits is open. -/
theorem Holds.stuck (h : Holds settled rs closed s) (quiet : s.tick settled = none) :
    s.gen.pulls = 0 ∨ ∃ d, s.gen.control = .awaiting d ∧ awaited settled (cells rs closed)[d]? = none := by
  obtain ⟨taken, -, -, -, at_⟩ := h.reading
  cases hc : s.gen.control with
  | suspended => simp only [GenAt, hc] at at_; exact .inl at_.1
  | finished => simp only [GenAt, hc] at at_; exact .inl at_.1
  | awaiting d =>
    refine .inr ⟨d, rfl, ?_⟩
    simp only [IterateLater.tick, hc, deferred_eq h] at quiet
    cases hr : awaited settled (cells rs closed)[d]? with
    | none => rfl
    | some x => rw [hr] at quiet; cases x <;> cases quiet

end IterateLater

end Fula.AsyncLater
