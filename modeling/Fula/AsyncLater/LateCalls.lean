import Fula.AsyncLater.Fifo

/-!
# Calls after `complete()`

`complete()` resolves the last deferred with the marker and leaves it the last, so a `next` that
comes later is without effect on it, but still puts a new deferred into the queue. The generator
does not return at the marker: it goes on as long as the queue is not empty, and awaits the new
deferred. Once it has returned, nothing that is pushed can reach the consumer.

`due` is what a consumer is to get: the items pushed before `complete()`, and then ends.
`late_calls_iff` says in which runs it does.
-/

namespace Fula.AsyncLater
set_option autoImplicit false
open Lib IterateLater

namespace IterateLater

variable {α ε : Type} {settled : Settled α ε} {items : List (Item α)} {rs : List (Resolution α)} {closed : Bool}
  {s : IterateLater α ε}

/-- The answers to so many calls, of a queue that was completed behind these items. A rejected one
ends the iteration, and one that has not settled is waited for. -/
def due (settled : Settled α ε) : List (Item α) → Nat → List (Result α ε)
  | _, 0 => []
  | [], n + 1 => List.replicate (n + 1) .done
  | i :: items, n + 1 => match awaited settled (some (.item i)) with
    | none => []
    | some (.value v) => .value v :: due settled items n
    | some last => last :: List.replicate n .done

/-- The consumer has been answered what is due, and nothing is held back. -/
def Served (settled : Settled α ε) (items : List (Item α)) (s : IterateLater α ε) : Prop :=
  s.gen.results <+: due settled items s.gen.calls ∧
    (s.tick settled = none → s.gen.results = due settled items s.gen.calls)

theorem awaited_item_ne_done (settled : Settled α ε) (i : Item α) : awaited settled (some (.item i)) ≠ some .done := by
  cases i with
  | plain v => simp [awaited]
  | promise p =>
    cases here : settled p with
    | none => simp [awaited, here]
    | some r => cases r <;> simp [awaited, here]

@[simp] theorem due_zero (items : List (Item α)) : due settled items 0 = [] := by
  cases items <;> rfl

theorem due_length_le (items : List (Item α)) (n : Nat) : (due settled items n).length ≤ n := by
  induction items generalizing n with
  | nil => cases n <;> simp [due]
  | cons i items ih =>
    cases n with
    | zero => simp [due]
    | succ n =>
      rw [due]
      split
      · simp
      · simpa using ih n
      · simp

/-- The items that have been read come first. -/
theorem due_read {d n : Nat} {vs : List α} (read : values settled ((items.take d).map .item) = some vs)
    (inside : d ≤ items.length) (called : d ≤ n) :
    due settled items n = vs.map .value ++ due settled (items.drop d) (n - d) := by
  induction items generalizing d n vs with
  | nil =>
    obtain rfl : d = 0 := Nat.le_zero.1 inside
    cases read
    rfl
  | cons i items ih =>
    cases d with
    | zero => cases read; rfl
    | succ d =>
      obtain ⟨n, rfl⟩ : ∃ m, n = m + 1 := ⟨n - 1, by omega⟩
      simp only [List.take_succ_cons, List.map_cons, values] at read
      cases here : awaited settled (some (.item i)) with
      | none => simp [here] at read
      | some r =>
        rw [here] at read
        cases r with
        | value v =>
          obtain ⟨ws, rest, rfl⟩ := Option.map_eq_some_iff.1 read
          rw [due, here]
          simp only [List.map_cons, List.cons_append, List.drop_succ_cons, Nat.add_sub_add_right]
          rw [ih rest (Nat.le_of_succ_le_succ inside) (Nat.le_of_succ_le_succ called)]
        | error e => cases read
        | done => exact absurd here (awaited_item_ne_done settled i)

theorem due_mono {more : Settled α ε} (le : Settled.le settled more) (items : List (Item α)) (n : Nat) :
    due settled items n <+: due more items n := by
  induction items generalizing n with
  | nil => cases n <;> exact List.prefix_refl _
  | cons i items ih =>
    cases n with
    | zero => exact List.prefix_refl _
    | succ n =>
      rw [due]
      cases here : awaited settled (some (.item i)) with
      | none => exact List.nil_prefix
      | some r =>
        rw [due, awaited_mono le here]
        cases r with
        | value v => exact List.cons_prefix_cons.2 ⟨rfl, ih n⟩
        | error e => exact List.prefix_refl _
        | done => exact List.prefix_refl _

/-- After an end there are only ends. -/
theorem due_succ {n : Nat} (full : (due settled items n).length = n) (ended : ∃ r ∈ due settled items n, r.value? = none) :
    due settled items (n + 1) = due settled items n ++ [.done] := by
  induction items generalizing n with
  | nil =>
    cases n with
    | zero => simp [due] at ended
    | succ n => simp only [due, List.replicate_succ']
  | cons i items ih =>
    cases n with
    | zero => simp [due] at ended
    | succ n =>
      rw [due] at full ended ⊢
      cases here : awaited settled (some (.item i)) with
      | none => simp [here] at full
      | some r =>
        rw [due, here]
        rw [here] at full ended
        cases r with
        | value v =>
          simp only [List.length_cons, Nat.add_right_cancel_iff, List.mem_cons, exists_eq_or_imp] at full ended
          have rest := ih full (ended.resolve_left fun never => by cases never)
          simp only [rest, List.cons_append]
        | error e => simp only [List.replicate_succ', List.cons_append]
        | done => simp only [List.replicate_succ', List.cons_append]

/-! ### Where the generator has not gone past the items -/

/-- One of the items has been rejected, so the generator stops there. -/
def Broken (settled : Settled α ε) (items : List (Item α)) : Prop := ∃ i ∈ items, ∃ e, rejected settled i = some e

theorem Broken.mono {more : Settled α ε} (le : Settled.le settled more) (h : Broken settled items) : Broken more items := by
  obtain ⟨i, member, e, error⟩ := h
  refine ⟨i, member, e, ?_⟩
  cases i with
  | plain v => cases error
  | promise p =>
    cases here : settled p with
    | none => simp [rejected, here] at error
    | some r => simpa only [rejected, here, le p r here] using error

section
variable {cs : List (Resolution α)} {d : Nat} {vs : List α}

theorem take_front (front : items.map .item <+: cs) (inside : d ≤ items.length) : cs.take d = (items.take d).map .item := by
  obtain ⟨tail, rfl⟩ := front
  rw [List.take_append_of_le_length (by simpa using inside), List.map_take]

/-- What has been read was not rejected. -/
theorem read_lt (front : items.map .item <+: cs) (read : values settled (cs.take d) = some vs) (broken : Broken settled items) :
    d < items.length := by
  by_contra beyond
  obtain ⟨i, member, e, error⟩ := broken
  obtain ⟨tail, rfl⟩ := front
  have all : (items.map Resolution.item ++ tail).take d = items.map .item ++ tail.take (d - items.length) := by
    rw [List.take_append, List.length_map, List.take_of_length_le (by simpa using Nat.le_of_not_lt beyond)]
  rw [all, values_append] at read
  obtain ⟨ws, first, -⟩ := Option.bind_eq_some_iff.1 read
  rw [values_items] at first
  have fulfilled_ : fulfilled settled i ∈ ws.map some := first ▸ List.mem_map_of_mem member
  rw [fulfilled_excludes error] at fulfilled_
  simp at fulfilled_

/-- The cell after those that have been read is that of an item, or the marker. -/
theorem place_of_read (front : items.map .item <+: cs) (read : values settled (cs.take d) = some vs)
    (place : d ≤ items.length ∧ cs[items.length]? = some .completed ∨ Broken settled items) :
    d ≤ items.length ∧ (d = items.length → cs[d]? = some .completed) := by
  rcases place with ⟨inside, marker⟩ | broken
  · exact ⟨inside, fun last => last ▸ marker⟩
  · have less := read_lt front read broken
    exact ⟨Nat.le_of_lt less, fun last => absurd last (Nat.ne_of_lt less)⟩

/-- The values that have been read are the first that are due. -/
theorem due_of_read (front : items.map .item <+: cs) (read : values settled (cs.take d) = some vs) (inside : d ≤ items.length) :
    vs.length = d ∧ ∀ n, d ≤ n → due settled items n = vs.map .value ++ due settled (items.drop d) (n - d) := by
  rw [take_front front inside] at read
  refine ⟨?_, fun n => due_read read inside⟩
  rw [values_items] at read
  exact fulfilled_length inside read

/-- What is due next is what the next cell gives. -/
theorem due_next (front : items.map .item <+: cs) (inside : d ≤ items.length) (marker : d = items.length → cs[d]? = some .completed)
    (n : Nat) : due settled (items.drop d) (n + 1) = match awaited settled cs[d]? with
      | none => []
      | some (.value v) => .value v :: due settled (items.drop (d + 1)) n
      | some last => last :: List.replicate n .done := by
  rcases Nat.lt_or_eq_of_le inside with less | last
  · obtain ⟨tail, rfl⟩ := front
    rw [List.getElem?_append_left (by simpa using less), List.getElem?_map, List.getElem?_eq_getElem less,
      List.drop_eq_getElem_cons less]
    rfl
  · rw [marker last, last, List.drop_length]
    rfl

end

/-- The generator's place, as far as the items go. -/
theorem served_of_genAt {cs : List (Resolution α)} {taken : Nat} (at_ : GenAt settled cs taken s.gen)
    (same : ∀ d : Nat, (s.deferreds[d]?).join = cs[d]?) (front : items.map .item <+: cs)
    (inside : taken ≤ items.length + 1 ∧ (s.gen.control = .suspended → taken ≤ items.length) ∧
      cs[items.length]? = some .completed ∨ Broken settled items) : Served settled items s := by
  cases hc : s.gen.control with
  | suspended =>
    simp only [GenAt, hc] at at_
    obtain ⟨none_, -, vs, read, results⟩ := at_
    obtain ⟨le, -⟩ := place_of_read front read (inside.imp_left fun h => ⟨h.2.1 hc, h.2.2⟩)
    obtain ⟨count, whole⟩ := due_of_read front read le
    have calls : s.gen.calls = taken := by simp [AsyncGenerator.calls, results, none_, count]
    have all := whole taken (Nat.le_refl taken)
    rw [Nat.sub_self, due_zero, List.append_nil] at all
    rw [Served, calls, all, results]
    exact ⟨List.prefix_refl _, fun _ => rfl⟩
  | awaiting d =>
    simp only [GenAt, hc] at at_
    obtain ⟨waiting, rfl, -, vs, read, results⟩ := at_
    obtain ⟨le, marker⟩ := place_of_read front read (inside.imp_left fun h => ⟨Nat.le_of_succ_le_succ h.1, h.2.2⟩)
    obtain ⟨count, whole⟩ := due_of_read front read le
    have calls : s.gen.calls = d + s.gen.pulls := by simp [AsyncGenerator.calls, results, count]
    rw [Served, whole _ (by omega), results]
    refine ⟨List.prefix_append _ _, fun rests => ?_⟩
    have blocked : awaited settled cs[d]? = none := by
      simp only [tick, hc, same] at rests
      cases here : awaited settled cs[d]? with
      | none => rfl
      | some r => cases r <;> simp [here] at rests
    obtain ⟨n, more⟩ : ∃ n, s.gen.calls - d = n + 1 := ⟨s.gen.pulls - 1, by omega⟩
    rw [more, due_next front le marker, blocked, List.append_nil]
  | finished =>
    simp only [GenAt, hc] at at_
    obtain ⟨none_, d, r, last, k, vs, rfl, cell, here, stop, read, results⟩ := at_
    obtain ⟨le, marker⟩ := place_of_read front read (inside.imp_left fun h => ⟨Nat.le_of_succ_le_succ h.1, h.2.2⟩)
    obtain ⟨count, whole⟩ := due_of_read front read le
    have calls : s.gen.calls = d + (k + 1) := by
      simp only [AsyncGenerator.calls, results, none_, List.length_append, List.length_map, count, List.length_cons,
        List.length_replicate]
      omega
    have same_ : s.gen.results = due settled items s.gen.calls := by
      rw [whole _ (by omega), results, calls, Nat.add_sub_cancel_left, due_next front le marker, cell, here]
      cases last with
      | value v => cases stop
      | error e => rfl
      | done => rfl
    rw [Served, ← same_]
    exact ⟨List.prefix_refl _, fun _ => rfl⟩

/-! ### Where the last deferred is open -/

theorem enter_goes (some_ : s.queue ≠ []) : s.enter.gen.control ≠ .finished := by
  obtain ⟨d, last⟩ : ∃ d, s.queue.getLast? = some d := ⟨_, List.getLast?_eq_some_getLast some_⟩
  simp [enter, last]

/-- Behind what has been taken a deferred is queued. -/
theorem queue_ne_nil {taken : Nat} (queue : s.queue = (List.range' taken (rs.length + 1 - taken)).reverse)
    (room : taken ≤ rs.length) : s.queue ≠ [] := by
  intro empty
  have length := congrArg List.length queue
  simp only [empty, List.length_nil, List.length_reverse, List.length_range'] at length
  omega

theorem Holds.pull_goes (h : Holds settled rs closed s) (goes : s.gen.control ≠ .finished) :
    s.pull.gen.control ≠ .finished := by
  obtain ⟨taken, -, queue, room, -⟩ := h.reading
  cases hc : s.gen.control with
  | suspended =>
    simp only [IterateLater.pull, hc]
    exact enter_goes (s := { s with gen := _ }) (queue_ne_nil queue (room hc))
  | awaiting d => simp [IterateLater.pull, hc]
  | finished => exact absurd hc goes

/-- The generator returns at an error, or at the end of a completed queue. -/
theorem Holds.tick_goes {s' : IterateLater α ε} (h : Holds settled rs false s)
    (sound : ∀ r ∈ rs, ∀ e, awaited settled (some r) ≠ some (.error e)) (moved : s.tick settled = some s') :
    s'.gen.control ≠ .finished := by
  obtain ⟨taken, -, queue, -, at_⟩ := h.reading
  cases hc : s.gen.control with
  | suspended => simp [IterateLater.tick, hc] at moved
  | finished => simp [IterateLater.tick, hc] at moved
  | awaiting d =>
    simp only [GenAt, hc] at at_
    obtain ⟨-, rfl, -, -⟩ := at_
    have cells_ : cells rs false = rs := by simp [cells]
    simp only [IterateLater.tick, hc, deferred_eq h, cells_] at moved
    cases here : rs[d]? with
    | none => simp [here, awaited] at moved
    | some r =>
      have less := (List.getElem?_eq_some_iff.1 here).1
      have more := queue_ne_nil queue less
      rw [here] at moved
      cases read : awaited settled (some r) with
      | none => simp [read] at moved
      | some x =>
        rw [read] at moved
        cases x with
        | done => cases moved; exact enter_goes more
        | error e => exact absurd read (sound r (List.mem_of_getElem? here) e)
        | value v =>
          cases moved
          unfold afterYield
          simp only
          split
          · simp [AsyncGenerator.yieldValue]
          · exact enter_goes (s := { s with gen := _ }) more

/-- While it goes on, it has answered values only. -/
theorem Holds.goes_values (h : Holds settled rs closed s) (goes : s.gen.control ≠ .finished) : Result.done ∉ s.gen.results := by
  obtain ⟨taken, -, -, -, at_⟩ := h.reading
  cases hc : s.gen.control with
  | suspended =>
    simp only [GenAt, hc] at at_
    obtain ⟨-, -, vs, -, results⟩ := at_
    simp [results]
  | awaiting d =>
    simp only [GenAt, hc] at at_
    obtain ⟨-, -, -, vs, -, results⟩ := at_
    simp [results]
  | finished => exact absurd hc goes

theorem fulfilled_mono {more : Settled α ε} (le : Settled.le settled more) {i : Item α} {v : α}
    (h : fulfilled settled i = some v) : fulfilled more i = some v := by
  cases i with
  | plain w => exact h
  | promise p =>
    cases here : settled p with
    | none => simp [fulfilled, here] at h
    | some r => simpa only [fulfilled, here, le p r here] using h

/-- Where all items have been fulfilled, a call behind them is due an end. -/
theorem done_mem_due {n : Nat} (all : ∀ i ∈ items, ∃ v, fulfilled settled i = some v) (more : items.length < n) :
    Result.done ∈ due settled items n := by
  have read : ∃ vs, values settled (items.map .item) = some vs := by
    simp only [values_items]
    clear more
    induction items with
    | nil => exact ⟨[], rfl⟩
    | cons i items ih =>
      obtain ⟨v, first⟩ := all i (by simp)
      obtain ⟨vs, rest⟩ := ih fun j member => all j (by simp [member])
      exact ⟨v :: vs, by simp [first, rest]⟩
  obtain ⟨vs, read⟩ := read
  rw [← List.take_length (l := items)] at read
  obtain ⟨k, rest⟩ : ∃ k, n - items.length = k + 1 := ⟨n - items.length - 1, by omega⟩
  rw [due_read read (Nat.le_refl _) (Nat.le_of_lt more), rest, List.drop_length, due]
  simp

end IterateLater

namespace Session

variable {α ε : Type} {items : List (Item α)} {s s' t : Session α ε}

/-- Whatever the consumer does from here on, and however the promises settle, it gets what is due. -/
def Delivers (items : List (Item α)) (s : Session α ε) : Prop :=
  ∀ acts t, (∀ a ∈ acts, producer a = none) → run step s acts = some t → Served t.settled items t.later

/-- A late `next` is called only when the generator has returned, or is going to throw. -/
def Harmless (items : List (Item α)) (s : Session α ε) (a : Act α ε) : Prop :=
  ∀ i, a = .next i → s.later.gen.control = .finished ∨ Broken s.settled items

/-- The generator has returned, and has said so. -/
structure Returned (items : List (Item α)) (s : Session α ε) : Prop where
  ends : s.later.gen.control = .finished
  answered : s.later.gen.pulls = 0
  results : s.later.gen.results = due s.settled items s.later.gen.calls
  ended : ∃ r ∈ s.later.gen.results, r.value? = none

/-- How a completed queue may stand. -/
inductive Completed (items : List (Item α)) (s : Session α ε) : Prop where
  /-- Nothing has been pushed since. -/
  | clean (holds : Holds s.settled (items.map .item) true s.later)
  /-- The generator does not come as far as what has been pushed since. -/
  | stops (rs : List (Resolution α)) (closed : Bool) (holds : Holds s.settled rs closed s.later)
    (front : items.map .item <+: rs) (broken : Broken s.settled items)
  | returned (h : Returned items s)

/-! ### The queue stays completed -/

theorem Completed.served (h : Completed items s) : Served s.settled items s.later := by
  cases h with
  | clean holds =>
    obtain ⟨taken, bound, -, room, at_⟩ := holds.reading
    rw [List.length_map] at bound room
    refine served_of_genAt at_ (deferred_eq holds) (List.prefix_append _ _) (.inl ⟨bound, room, ?_⟩)
    simp [cells]
  | stops rs closed holds front broken =>
    obtain ⟨taken, -, -, -, at_⟩ := holds.reading
    exact served_of_genAt at_ (deferred_eq holds) (front.trans (List.prefix_append _ _)) (.inr broken)
  | returned h =>
    rw [Served, ← h.results]
    exact ⟨List.prefix_refl _, fun _ => rfl⟩

theorem Returned.of_finished {rs : List (Resolution α)} {closed : Bool} (holds : Holds s.settled rs closed s.later)
    (served : Served s.settled items s.later) (ends : s.later.gen.control = .finished) : Returned items s := by
  have rests : s.later.tick s.settled = none := by simp [IterateLater.tick, ends]
  obtain ⟨taken, -, -, -, at_⟩ := holds.reading
  simp only [GenAt, ends] at at_
  obtain ⟨none_, d, r, last, k, vs, -, -, -, stop, -, results⟩ := at_
  exact ⟨ends, none_, served.2 rests, last, by simp [results], stop⟩

/-- What leaves the generator and the promises alone. -/
theorem Returned.of_gen (h : Returned items s) (gen : s'.later.gen = s.later.gen) (settled : s'.settled = s.settled) :
    Returned items s' := by
  obtain ⟨ends, answered, results, ended⟩ := h
  rw [← gen] at ends answered results ended
  rw [← settled] at results
  exact ⟨ends, answered, results, ended⟩

theorem Returned.step {a : Act α ε} (h : Returned items s) (moved : Session.step s a = some s') : Returned items s' := by
  cases a with
  | next i => cases moved; exact h.of_gen rfl rfl
  | complete => cases moved; exact h.of_gen rfl rfl
  | settle p r =>
    simp only [Session.step] at moved
    split at moved
    · next open_ =>
      cases moved
      have grown := due_mono (settle_le r open_) items s.later.gen.calls
      have counted : s.later.gen.results.length = s.later.gen.calls := by simp [AsyncGenerator.calls, h.answered]
      refine ⟨h.ends, h.answered, ?_, h.ended⟩
      rw [← h.results] at grown
      exact grown.eq_of_length_le (counted ▸ due_length_le items _)
    · cases moved
  | pull =>
    cases moved
    have counted : (due s.settled items s.later.gen.calls).length = s.later.gen.calls := by
      rw [← h.results]
      simp [AsyncGenerator.calls, h.answered]
    have more := due_succ counted (h.results ▸ h.ended)
    have gen : s.later.pull.gen = { s.later.gen with results := s.later.gen.results ++ [.done] } := by
      simp [IterateLater.pull, h.ends]
    refine ⟨by rw [gen]; exact h.ends, by rw [gen]; exact h.answered, ?_, ?_⟩
    · rw [calls_pull, more, ← h.results, gen]
    · obtain ⟨r, member, stop⟩ := h.ended
      exact ⟨r, by simp [gen, member], stop⟩
  | tick => simp [Session.step, IterateLater.tick, h.ends] at moved

/-- What each step does to the cells of the queue. -/
theorem holds_step {rs : List (Resolution α)} {closed : Bool} {a : Act α ε} (holds : Holds s.settled rs closed s.later)
    (moved : Session.step s a = some s') : Settled.le s.settled s'.settled ∧ match a with
      | .next i => Holds s'.settled (pushed rs closed i) false s'.later
      | .complete => Holds s'.settled rs true s'.later
      | _ => Holds s'.settled rs closed s'.later := by
  cases a with
  | next i => cases moved; exact ⟨fun _ _ same => same, holds.next i⟩
  | complete => cases moved; exact ⟨fun _ _ same => same, holds.complete⟩
  | settle p r =>
    simp only [Session.step] at moved
    split at moved
    · next open_ =>
      cases moved
      exact ⟨settle_le r open_, holds.settle (settle_le r open_)⟩
    · cases moved
  | pull => cases moved; exact ⟨fun _ _ same => same, holds.pull⟩
  | tick =>
    obtain ⟨later, ticked, rfl⟩ := Option.map_eq_some_iff.1 moved
    exact ⟨fun _ _ same => same, holds.tick ticked⟩

theorem Completed.stops_step {rs : List (Resolution α)} {closed : Bool} {a : Act α ε}
    (holds : Holds s.settled rs closed s.later) (front : items.map .item <+: rs) (broken : Broken s.settled items)
    (moved : Session.step s a = some s') : Completed items s' := by
  obtain ⟨le, after⟩ := holds_step holds moved
  cases a with
  | next i => exact .stops _ _ after (front.trans (List.prefix_append _ _)) (broken.mono le)
  | complete => exact .stops _ _ after front (broken.mono le)
  | settle p r => exact .stops _ _ after front (broken.mono le)
  | pull => exact .stops _ _ after front (broken.mono le)
  | tick => exact .stops _ _ after front (broken.mono le)

theorem Completed.step {a : Act α ε} (h : Completed items s) (harmless : Harmless items s a)
    (moved : Session.step s a = some s') : Completed items s' := by
  have served := h.served
  cases h with
  | stops rs closed holds front broken => exact stops_step holds front broken moved
  | returned h => exact .returned (h.step moved)
  | clean holds =>
    have after := (holds_step holds moved).2
    cases a with
    | next i =>
      rcases harmless i rfl with ends | broken
      · exact .returned ((Returned.of_finished holds served ends).step moved)
      · exact stops_step holds (List.prefix_refl _) broken moved
    | complete => exact .clean after
    | settle p r => exact .clean after
    | pull => exact .clean after
    | tick => exact .clean after

/-- The consumer's part does no harm. -/
theorem harmless_of_producer {a : Act α ε} (consumes : producer a = none) : Harmless items s a := by
  rintro i rfl
  cases consumes

theorem Completed.delivers (h : Completed items s) : Delivers items s := by
  intro acts t consumes reached
  exact (run_invariant_acts h (fun _ _ _ h consumes moved => h.step (harmless_of_producer consumes) moved) consumes
    reached).served

/-! ### A late `next` that does harm -/

/-- Behind the marker there is another deferred, and the generator will come to it. -/
structure Reopened (items : List (Item α)) (s : Session α ε) : Prop where
  holds : Holds s.settled (items.map .item ++ [.completed]) false s.later
  goes : s.later.gen.control ≠ .finished
  whole : ¬Broken s.settled items

theorem Reopened.pull (h : Reopened items s) : Reopened items { s with later := s.later.pull } :=
  ⟨h.holds.pull, h.holds.pull_goes h.goes, h.whole⟩

theorem Reopened.tick (h : Reopened items s) (moved : Session.step s .tick = some s') : Reopened items s' := by
  obtain ⟨later, ticked, rfl⟩ := Option.map_eq_some_iff.1 moved
  refine ⟨h.holds.tick ticked, h.holds.tick_goes (fun r member e error => ?_) ticked, h.whole⟩
  rcases List.mem_append.1 member with item | marker
  · obtain ⟨i, inside, rfl⟩ := List.mem_map.1 item
    cases i with
    | plain v => simp [awaited] at error
    | promise p =>
      cases here : s.settled p with
      | none => simp [awaited, here] at error
      | some r =>
        cases r with
        | ok v => simp [awaited, here] at error
        | error e => exact h.whole ⟨_, inside, e, by simp [rejected, here]⟩
  · rw [List.mem_singleton] at marker
    subst marker
    simp [awaited] at error

/-- The promises among the items can all be fulfilled. -/
theorem Reopened.exists_fulfilled [Inhabited α] (h : Reopened items s) (todo : List (Item α)) (among : ∀ i ∈ todo, i ∈ items) :
    ∃ acts t, (∀ a ∈ acts, producer a = none) ∧ run step s acts = some t ∧ Reopened items t ∧
      ∀ i ∈ todo, ∃ v, fulfilled t.settled i = some v := by
  induction todo with
  | nil => exact ⟨[], s, by simp, rfl, h, by simp⟩
  | cons i todo ih =>
    obtain ⟨acts, t, consumes, reached, h', rest⟩ := ih fun j member => among j (by simp [member])
    have done_ (first : ∃ v, fulfilled t.settled i = some v) : ∃ acts t, (∀ a ∈ acts, producer a = none) ∧
        run step s acts = some t ∧ Reopened items t ∧ ∀ i' ∈ i :: todo, ∃ v, fulfilled t.settled i' = some v := by
      refine ⟨acts, t, consumes, reached, h', fun j member => ?_⟩
      rcases List.mem_cons.1 member with rfl | later
      · exact first
      · exact rest j later
    cases i with
    | plain v => exact done_ ⟨v, rfl⟩
    | promise p =>
      cases here : t.settled p with
      | some r =>
        cases r with
        | ok v => exact done_ ⟨v, by simp [fulfilled, here]⟩
        | error e => exact absurd ⟨.promise p, among _ (by simp), e, by simp [rejected, here]⟩ h'.whole
      | none =>
        have le : Settled.le t.settled fun q => if q = p then some (.ok default) else t.settled q :=
          settle_le (.ok default) (by simp [here])
        have moved : Session.step t (.settle p (.ok default)) =
            some { t with settled := fun q => if q = p then some (.ok default) else t.settled q } := by
          simp [Session.step, here]
        refine ⟨acts ++ [.settle p (.ok default)], _, ?_, run_snoc.2 ⟨t, reached, moved⟩, ?_, fun j member => ?_⟩
        · intro a member
          rcases List.mem_append.1 member with old | new
          · exact consumes a old
          · rw [List.mem_singleton] at new
            rw [new]
            rfl
        · refine ⟨h'.holds.settle le, h'.goes, ?_⟩
          rintro ⟨j, member, e, error⟩
          refine h'.whole ⟨j, member, e, ?_⟩
          cases j with
          | plain v => cases error
          | promise q =>
            by_cases same : q = p
            · simp [rejected, same] at error
            · simpa [rejected, same] using error
        · rcases List.mem_cons.1 member with rfl | later
          · exact ⟨default, by simp [fulfilled]⟩
          · obtain ⟨v, first⟩ := rest j later
            exact ⟨v, fulfilled_mono le first⟩

theorem Reopened.pulls (h : Reopened items s) (n : Nat) : ∃ t, run step s (List.replicate n .pull) = some t ∧
    Reopened items t ∧ t.settled = s.settled ∧ n ≤ t.later.gen.calls := by
  induction n with
  | zero => exact ⟨s, rfl, h, rfl, Nat.zero_le _⟩
  | succ n ih =>
    obtain ⟨t, reached, h', same, called⟩ := ih
    rw [List.replicate_succ']
    refine ⟨_, run_snoc.2 ⟨t, reached, rfl⟩, h'.pull, same, ?_⟩
    rw [calls_pull]
    omega

/-- A consumer that reads on is never told of the end. -/
theorem Reopened.not_delivers [Inhabited α] (h : Reopened items s) : ¬Delivers items s := by
  intro delivers
  obtain ⟨settles, m, consumes, first, h₁, all⟩ := h.exists_fulfilled items fun _ member => member
  obtain ⟨m', second, h₂, same, called⟩ := h₁.pulls (items.length + 1)
  obtain ⟨ticks, t, only, third, quiet⟩ := exists_quiet step (· = .tick) (fun _ => True)
    (fun s : Session α ε => s.later.pending) (by
      rintro s a t - rfl moved
      obtain ⟨later, ticked, rfl⟩ := Option.map_eq_some_iff.1 moved
      exact ⟨trivial, pending_tick ticked⟩) (s := m') trivial
  obtain ⟨h₃, settled, calls⟩ := run_invariant_acts
    (I := fun t => Reopened items t ∧ t.settled = m'.settled ∧ t.later.gen.calls = m'.later.gen.calls) ⟨h₂, rfl, rfl⟩
    (by
      rintro s a t ⟨h, settled, calls⟩ rfl moved
      have next := h.tick moved
      obtain ⟨later, ticked, rfl⟩ := Option.map_eq_some_iff.1 moved
      exact ⟨next, settled, (h.holds.calls_tick ticked).trans calls⟩) only third
  have served : Served t.settled items t.later := by
    refine delivers (settles ++ (List.replicate (items.length + 1) .pull ++ ticks)) t ?_
      (run_append.2 ⟨m, first, run_append.2 ⟨m', second, third⟩⟩)
    intro a member
    rcases List.mem_append.1 member with settle | later
    · exact consumes a settle
    · rcases List.mem_append.1 later with pull | tick
      · rw [(List.mem_replicate.1 pull).2]
        rfl
      · rw [only a tick]
        rfl
  have rests : t.later.tick t.settled = none := by
    have blocked := quiet .tick rfl
    simpa [step] using blocked
  refine h₃.holds.goes_values h₃.goes ?_
  rw [served.2 rests]
  refine done_mem_due (fun i member => ?_) (by omega)
  rw [settled, same]
  exact all i member

/-- **Calls after `complete()`**: of a queue that was completed behind `items`, the consumer gets the
items and then ends, at every moment of every run, just when each `next` that comes after finds
the generator returned (or bound to throw at a rejected item). -/
theorem late_calls_iff [Inhabited α] {before after : List (Act α ε)} (pushed : before.filterMap producer = items.map .next)
    (completed : run step init (before ++ [.complete]) = some s) (reached : run step s after = some t) :
    (∀ acts m, acts <+: after → run step s acts = some m → Delivers items m) ↔ StepsMeet step (Harmless items) s after := by
  have clean : Completed items s := by
    have holds := (session_holds completed).holds
    have calls := queued_items items 1
    rw [List.replicate_one] at calls
    rw [List.filterMap_append, pushed, show [Act.complete].filterMap producer = [Call.complete] from rfl, calls] at holds
    exact .clean holds
  refine everywhere_iff_of (fun _ => Completed.delivers) (fun _ _ _ => Completed.step) ?_ clean reached
  rintro m a m' standing moved delivers i rfl
  cases standing with
  | returned h => exact .inl h.ends
  | stops rs closed holds front broken => exact .inr broken
  | clean holds =>
    by_contra harms
    rw [not_or] at harms
    cases moved
    have reopened : Reopened items { m with later := m.later.next i } := by
      refine ⟨?_, harms.1, harms.2⟩
      simpa [IterateLater.pushed] using holds.next i
    exact reopened.not_delivers delivers

/-- A `next` after the consumer has seen the end. -/
theorem late_calls_iff_sample :
    ∃ s, run step init ([.next (.plain 1)] ++ [.complete]) = some s ∧
      ∀ acts m, acts <+: [.pull, .tick, .pull, .tick, .next (.plain 2), .complete] → run step s acts = some m →
        Delivers ([.plain 1] : List (Item Nat)) (m : Session Nat String) := by
  have completed : run step init ([.next (.plain 1)] ++ [.complete]) = some (_ : Session Nat String) := rfl
  refine ⟨_, completed, (late_calls_iff rfl completed rfl).2 ?_⟩
  refine stepsMeet_cons (fun _ never => by cases never) rfl ?_
  refine stepsMeet_cons (fun _ never => by cases never) rfl ?_
  refine stepsMeet_cons (fun _ never => by cases never) rfl ?_
  refine stepsMeet_cons (fun _ never => by cases never) rfl ?_
  refine stepsMeet_cons (fun _ _ => .inl rfl) rfl ?_
  exact stepsMeet_cons (fun _ never => by cases never) rfl trivial

/-- A `next` before the consumer comes to the end: it reads the one value, and then waits for ever. -/
theorem late_next_waits :
    ∃ s : Session Nat String, run step init [.next (.plain 1), .complete, .next (.plain 2)] = some s ∧
      ¬Delivers [.plain 1] s := by
  refine ⟨_, rfl, fun delivers => ?_⟩
  have served := (delivers [.pull, .tick, .pull, .tick] _ (by simp [producer]) rfl).2 rfl
  cases served

end Session

end Fula.AsyncLater
