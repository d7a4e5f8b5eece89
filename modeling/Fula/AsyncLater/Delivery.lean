import Fula.AsyncLater.IterateLater
import Mathlib.Data.Option.Basic

/-!
# What a consumer of `iterateLater` receives

Without a `next` after `complete()` the cells of the queue are the items
pushed, and the answers a consumer has are a prefix of them, in push order, at
every moment (`Holds.received`). Where the generator rests, every call that
can be answered has been (`delivers`, `completes`, `fails`). For plain values
both facts are one equation about `served`.
-/

namespace Fula.AsyncLater
set_option autoImplicit false
open Lib

namespace IterateLater

variable {α ε : Type} {settled : Settled α ε} {rs : List (Resolution α)} {closed : Bool} {s : IterateLater α ε}

/-- The value an item has settled to. -/
def fulfilled (settled : Settled α ε) : Item α → Option α
  | .plain v => some v
  | .promise p => match settled p with
    | some (.ok v) => some v
    | _ => none

/-- The error an item was rejected with. -/
def rejected (settled : Settled α ε) : Item α → Option ε
  | .plain _ => none
  | .promise p => match settled p with
    | some (.error e) => some e
    | _ => none

/-- What a consumer may have received of `items`. -/
inductive Received (settled : Settled α ε) (items : List (Item α)) (closed : Bool) :
    List (Result α ε) → Prop where
  | values (j : Nat) (vs : List α) (inside : j ≤ items.length)
      (first : (items.take j).map (fulfilled settled) = vs.map some) :
      Received settled items closed (vs.map .value)
  | failed (j : Nat) (i : Item α) (e : ε) (k : Nat) (vs : List α) (at_ : items[j]? = some i)
      (error : rejected settled i = some e)
      (first : (items.take j).map (fulfilled settled) = vs.map some) :
      Received settled items closed (vs.map .value ++ .error e :: List.replicate k .done)
  | ended (k : Nat) (vs : List α) (completed : closed = true)
      (all : items.map (fulfilled settled) = vs.map some) :
      Received settled items closed (vs.map .value ++ List.replicate (k + 1) .done)

theorem awaited_item (settled : Settled α ε) (i : Item α) :
    awaited settled (some (.item i)) = match fulfilled settled i, rejected settled i with
      | some v, _ => some (.value v)
      | none, some e => some (.error e)
      | none, none => none := by
  cases i with
  | plain v => rfl
  | promise p =>
    cases h : settled p with
    | none => simp [awaited, fulfilled, rejected, h]
    | some r => cases r <;> simp [awaited, fulfilled, rejected, h]

theorem fulfilled_excludes {settled : Settled α ε} {i : Item α} {e : ε}
    (h : rejected settled i = some e) : fulfilled settled i = none := by
  cases i with
  | plain v => cases h
  | promise p =>
    cases hp : settled p with
    | none => simp [fulfilled, hp]
    | some r =>
      cases r with
      | ok v => simp [rejected, hp] at h
      | error e => simp [fulfilled, hp]

/-- Reading items without an error is reading their fulfilled values. -/
theorem values_items (settled : Settled α ε) (items : List (Item α)) (vs : List α) :
    values settled (items.map .item) = some vs ↔ items.map (fulfilled settled) = vs.map some := by
  induction items generalizing vs with
  | nil => cases vs <;> simp [values]
  | cons i items ih =>
    rw [List.map_cons, List.map_cons, values, awaited_item]
    cases hf : fulfilled settled i with
    | some v =>
      cases vs with
      | nil => simp
      | cons w vs => simp [ih, and_comm]
    | none =>
      have never : ¬ (none :: items.map (fulfilled settled) = vs.map some) := by
        cases vs <;> simp
      cases rejected settled i <;> simp [never]

theorem cells_take {items : List (Item α)} {closed : Bool} {j : Nat} (inside : j ≤ items.length) :
    (cells (items.map .item) closed).take j = (items.take j).map .item := by
  rw [cells, List.take_append_of_le_length (by simpa using inside), List.map_take]

/-- **FIFO at every moment.** -/
theorem Holds.received {items : List (Item α)} (h : Holds settled (items.map .item) closed s) :
    Received settled items closed s.gen.results := by
  obtain ⟨taken, bound, -, room, at_⟩ := h.reading
  rw [List.length_map] at bound room
  cases hc : s.gen.control with
  | suspended =>
    simp only [GenAt, hc] at at_
    obtain ⟨-, -, vs, read, results⟩ := at_
    rw [cells_take (room hc), values_items] at read
    rw [results]; exact .values taken vs (room hc) read
  | awaiting d =>
    simp only [GenAt, hc] at at_
    obtain ⟨-, eq, -, vs, read, results⟩ := at_
    have inside : d ≤ items.length := by omega
    rw [cells_take inside, values_items] at read
    rw [results]; exact .values d vs inside read
  | finished =>
    simp only [GenAt, hc] at at_
    obtain ⟨-, d, r, last, k, vs, eq, cell, here, stop, read, results⟩ := at_
    have inside : d ≤ items.length := by omega
    rw [cells_take inside, values_items] at read
    rw [results]
    rcases Nat.lt_or_eq_of_le inside with less | rfl
    · -- an item stopped the generator: it was rejected
      rw [cells, List.getElem?_append_left (by simpa using less), List.getElem?_map] at cell
      obtain ⟨i, at_, rfl⟩ := Option.map_eq_some_iff.1 cell
      rw [awaited_item] at here
      cases hf : fulfilled settled i with
      | some v => simp only [hf, Option.some.injEq] at here; subst here; cases stop
      | none =>
        cases hr : rejected settled i with
        | none => simp [hf, hr] at here
        | some e =>
          simp only [hf, hr, Option.some.injEq] at here
          subst here; exact .failed d i e k vs at_ hr read
    · -- the marker stopped it
      rw [cells, List.getElem?_append_right (by simp)] at cell
      cases closed with
      | false => simp at cell
      | true =>
        simp only [List.length_map, Nat.sub_self, if_true, List.getElem?_cons_zero, Option.some.injEq] at cell
        subst cell
        simp only [awaited, Option.some.injEq] at here
        subst here
        rw [List.take_length] at read
        exact .ended k vs rfl read

/-- A waiting call that the generator cannot answer waits for an item that has
not settled, or for the next push. -/
theorem Holds.waits_for {items : List (Item α)} (h : Holds settled (items.map .item) closed s)
    (quiet : s.tick settled = none) :
    s.gen.pulls = 0 ∨ ∃ (d : Nat) (vs : List α), (items.take d).map (fulfilled settled) = vs.map some ∧
      s.gen.results = vs.map .value ∧
      ((d = items.length ∧ closed = false) ∨
        ∃ i, items[d]? = some i ∧ fulfilled settled i = none ∧ rejected settled i = none) := by
  rcases h.stuck quiet with none | ⟨d, hc, blocked⟩
  · exact .inl none
  · obtain ⟨taken, bound, -, -, at_⟩ := h.reading
    rw [List.length_map] at bound
    simp only [GenAt, hc] at at_
    obtain ⟨-, eq, -, vs, read, results⟩ := at_
    have inside : d ≤ items.length := by omega
    rw [cells_take inside, values_items] at read
    refine .inr ⟨d, vs, read, results, ?_⟩
    rcases Nat.lt_or_eq_of_le inside with less | rfl
    · obtain ⟨i, at_⟩ : ∃ i, items[d]? = some i := ⟨_, List.getElem?_eq_getElem less⟩
      rw [cells, List.getElem?_append_left (by simpa using less), List.getElem?_map, at_, Option.map_some,
        awaited_item] at blocked
      refine .inr ⟨i, at_, ?_⟩
      cases hf : fulfilled settled i with
      | some v => simp [hf] at blocked
      | none => cases hr : rejected settled i with
        | none => exact ⟨rfl, rfl⟩
        | some e => simp [hf, hr] at blocked
    · refine .inl ⟨rfl, ?_⟩
      rw [cells, List.getElem?_append_right (by simp)] at blocked
      cases closed with
      | false => rfl
      | true => simp [awaited] at blocked

/-! ## Where the generator rests -/

section
variable {items : List (Item α)}

/-- Two fulfilled prefixes of the items are prefixes of one another. -/
theorem fulfilled_initial {j j' : Nat} {vs vs' : List α} (le : j ≤ j')
    (first : (items.take j).map (fulfilled settled) = vs.map some)
    (second : (items.take j').map (fulfilled settled) = vs'.map some) : vs <+: vs' := by
  have cut : vs.map some = (vs'.take j).map some := by
    rw [List.map_take, ← second, ← first, ← List.map_take, List.take_take, Nat.min_eq_left le]
  rw [List.map_injective_iff.2 (Option.some_injective α) cut]
  exact List.take_prefix _ _

theorem fulfilled_at {j d : Nat} {i : Item α} {vs : List α}
    (first : (items.take j).map (fulfilled settled) = vs.map some) (at_ : items[d]? = some i)
    (less : d < j) : ∃ v, fulfilled settled i = some v := by
  have read : ((items.take j).map (fulfilled settled))[d]? = some (fulfilled settled i) := by
    rw [List.getElem?_map, List.getElem?_take_of_lt less, at_]; rfl
  rw [first, List.getElem?_map, Option.map_eq_some_iff] at read
  obtain ⟨v, -, eq⟩ := read
  exact ⟨v, eq.symm⟩

/-- A fulfilled prefix ends before an item that is not fulfilled. -/
theorem fulfilled_bound {j d : Nat} {i : Item α} {vs : List α}
    (first : (items.take j).map (fulfilled settled) = vs.map some) (at_ : items[d]? = some i)
    (open_ : fulfilled settled i = none) : j ≤ d := by
  by_contra more
  obtain ⟨v, eq⟩ := fulfilled_at first at_ (by omega)
  rw [open_] at eq; cases eq

theorem fulfilled_length {j : Nat} {vs : List α} (inside : j ≤ items.length)
    (first : (items.take j).map (fulfilled settled) = vs.map some) : vs.length = j := by
  have := congrArg List.length first
  simp only [List.length_map, List.length_take] at this
  omega

variable {later : IterateLater α ε}

/-- No value is lost: once the generator rests, the calls made have been
answered with every fulfilled item at the front of the queue. -/
theorem delivers (holds : Holds settled (items.map .item) closed later) (quiet : later.tick settled = none)
    {j : Nat} {vs : List α} (inside : j ≤ items.length) (called : j ≤ later.gen.calls)
    (first : (items.take j).map (fulfilled settled) = vs.map some) :
    vs.map .value <+: later.gen.results := by
  rcases holds.waits_for quiet with none | ⟨d, ws, read, results, why⟩
  · have answered : later.gen.results.length = later.gen.calls := by simp [AsyncGenerator.calls, none]
    obtain ⟨R, results⟩ : ∃ R, R = later.gen.results := ⟨_, rfl⟩
    have received := holds.received
    rw [← results] at received
    cases received with
    | values j' ws inside' first' =>
      rw [← results] at answered ⊢
      rw [List.length_map, fulfilled_length inside' first'] at answered
      exact (fulfilled_initial (by omega) first first').map _
    | failed j' i e k ws at_ error first' =>
      have le := fulfilled_bound first at_ (fulfilled_excludes error)
      rw [← results]
      exact ((fulfilled_initial le first first').map _).trans (List.prefix_append _ _)
    | ended k ws completed all =>
      rw [← results]
      rw [← List.take_length (l := items)] at all
      exact ((fulfilled_initial inside first all).map _).trans (List.prefix_append _ _)
  · have le : j ≤ d := by
      rcases why with ⟨rfl, -⟩ | ⟨i, at_, open_, -⟩
      · exact inside
      · exact fulfilled_bound first at_ open_
    rw [results]
    exact (fulfilled_initial le first read).map _

/-- After `complete()`, calls beyond the last item are answered `done`. -/
theorem completes (holds : Holds settled (items.map .item) true later) (quiet : later.tick settled = none)
    {vs : List α} (all : items.map (fulfilled settled) = vs.map some) (called : items.length < later.gen.calls) :
    later.gen.results = vs.map .value ++ List.replicate (later.gen.calls - items.length) .done := by
  have whole : (items.take items.length).map (fulfilled settled) = vs.map some := by rwa [List.take_length]
  have length := fulfilled_length (Nat.le_refl _) whole
  have none : later.gen.pulls = 0 := by
    rcases holds.waits_for quiet with none | ⟨d, ws, -, -, ⟨-, notClosed⟩ | ⟨i, at_, open_, -⟩⟩
    · exact none
    · cases notClosed
    · have bound := fulfilled_bound whole at_ open_
      have := (List.getElem?_eq_some_iff.1 at_).1
      omega
  have answered : later.gen.results.length = later.gen.calls := by simp [AsyncGenerator.calls, none]
  obtain ⟨R, results⟩ : ∃ R, R = later.gen.results := ⟨_, rfl⟩
  have received := holds.received
  rw [← results] at received
  cases received with
  | values j ws inside first =>
    rw [← results, List.length_map, fulfilled_length inside first] at answered
    omega
  | failed j i e m ws at_ error first =>
    have := fulfilled_bound whole at_ (fulfilled_excludes error)
    have := (List.getElem?_eq_some_iff.1 at_).1
    omega
  | ended m ws completed all' =>
    have same : ws = vs := List.map_injective_iff.2 (Option.some_injective α) (all'.symm.trans all)
    subst same
    rw [← results] at answered ⊢
    simp only [List.length_append, List.length_map, List.length_replicate, length] at answered
    rw [← answered, show items.length + (m + 1) - items.length = m + 1 by omega]

/-- A rejected item ends the iteration with its error. -/
theorem fails (holds : Holds settled (items.map .item) closed later) (quiet : later.tick settled = none)
    {j : Nat} {i : Item α} {e : ε} {vs : List α} (at_ : items[j]? = some i)
    (error : rejected settled i = some e)
    (first : (items.take j).map (fulfilled settled) = vs.map some) (called : j < later.gen.calls) :
    later.gen.results = vs.map .value ++ .error e :: List.replicate (later.gen.calls - j - 1) .done := by
  have bound := (List.getElem?_eq_some_iff.1 at_).1
  have notFulfilled := fulfilled_excludes error
  have length := fulfilled_length (Nat.le_of_lt bound) first
  have none : later.gen.pulls = 0 := by
    rcases holds.waits_for quiet with none | ⟨d, ws, read, -, why⟩
    · exact none
    · have le := fulfilled_bound read at_ notFulfilled
      rcases why with ⟨rfl, -⟩ | ⟨i', at', open_, notRejected⟩
      · omega
      · have ge := fulfilled_bound first at' open_
        have same : d = j := by omega
        subst same
        rw [at_, Option.some.injEq] at at'
        subst at'
        rw [error] at notRejected; cases notRejected
  have answered : later.gen.results.length = later.gen.calls := by simp [AsyncGenerator.calls, none]
  obtain ⟨R, results⟩ : ∃ R, R = later.gen.results := ⟨_, rfl⟩
  have received := holds.received
  rw [← results] at received
  cases received with
  | values d ws inside read =>
    have le := fulfilled_bound read at_ notFulfilled
    rw [← results, List.length_map, fulfilled_length inside read] at answered
    omega
  | failed d i' e' m ws at' error' read =>
    have le := fulfilled_bound read at_ notFulfilled
    have ge := fulfilled_bound first at' (fulfilled_excludes error')
    have same : d = j := by omega
    subst same
    rw [at_, Option.some.injEq] at at'
    subst at'
    rw [error, Option.some.injEq] at error'
    subst error'
    have eq : ws = vs := List.map_injective_iff.2 (Option.some_injective α) (read.symm.trans first)
    subst eq
    rw [← results] at answered ⊢
    simp only [List.length_append, List.length_map, List.length_cons, List.length_replicate, length] at answered
    rw [← answered, show d + (m + 1) - d - 1 = m by omega]
  | ended m ws completed all =>
    rw [← List.take_length (l := items)] at all
    have := fulfilled_bound all at_ notFulfilled
    omega

end

/-! ## Plain values -/

/-- The cells of a queue into which only plain values were pushed. -/
def plains (xs : List α) : List (Resolution α) := (xs.map .plain).map .item

/-- The answers to `calls` calls when all of `xs` can be delivered. -/
def served (xs : List α) (closed : Bool) (calls : Nat) : List (Result α ε) :=
  (xs.take calls).map .value ++ if closed then List.replicate (calls - xs.length) .done else []

@[simp] theorem plains_nil : plains ([] : List α) = [] := rfl

theorem pushed_plain (xs : List α) (v : α) : pushed (plains xs) false (.plain v) = plains (xs ++ [v]) := by
  simp [pushed, plains]

theorem fulfilled_plain (xs : List α) : (xs.map .plain).map (fulfilled settled) = xs.map some := by
  simp [Function.comp_def, fulfilled]

theorem served_initial {xs : List α} {closed : Bool} {m n : Nat} (le : m ≤ n) :
    served (ε := ε) xs closed m <+: served xs closed n := by
  rcases Nat.lt_or_ge m xs.length with less | more
  · have none : m - xs.length = 0 := by omega
    have first : xs.take m <+: xs.take n := List.take_prefix_take_left le
    simp only [served, none, List.replicate_zero, ite_self, List.append_nil]
    exact (first.map _).trans (List.prefix_append _ _)
  · have all : xs.take m = xs := List.take_of_length_le more
    have all' : xs.take n = xs := List.take_of_length_le (by omega)
    have split : n - xs.length = (m - xs.length) + (n - m) := by omega
    cases closed with
    | false => simp [served, all, all']
    | true =>
      simp only [served, all, all', split, if_true, ← List.replicate_append_replicate]
      rw [← List.append_assoc]; exact List.prefix_append _ _

/-- At every moment the answers are the first of those the calls ask for. -/
theorem Holds.plain_initial {xs : List α} (h : Holds settled (plains xs) closed s) :
    s.gen.results <+: served xs closed s.gen.calls := by
  obtain ⟨R, results⟩ : ∃ R, R = s.gen.results := ⟨_, rfl⟩
  have bound : R.length ≤ s.gen.calls := by rw [results]; simp [AsyncGenerator.calls]
  have received := h.received
  rw [← results] at received ⊢
  cases received with
  | values j vs inside first =>
    rw [List.length_map] at inside
    rw [← List.map_take, fulfilled_plain, List.map_inj_right (fun _ _ => Option.some.inj)] at first
    subst first
    have length : (xs.take j).length = j := by simp; omega
    rw [List.length_map, length] at bound
    have first : xs.take j <+: xs.take s.gen.calls := List.take_prefix_take_left bound
    exact (first.map _).trans (List.prefix_append _ _)
  | failed j i e k vs at_ error first =>
    rw [List.getElem?_map, Option.map_eq_some_iff] at at_
    obtain ⟨v, -, rfl⟩ := at_
    cases error
  | ended k vs completed all =>
    rw [fulfilled_plain, List.map_inj_right (fun _ _ => Option.some.inj)] at all
    subst all completed
    simp only [List.length_append, List.length_map, List.length_replicate] at bound
    have here : xs.map .value ++ List.replicate (k + 1) .done = served (ε := ε) xs true (xs.length + (k + 1)) := by
      simp [served, List.take_of_length_le]
    rw [here]; exact served_initial bound

/-- Where the generator rests, the answers are all those the calls ask for. -/
theorem Holds.plain_served {xs : List α} (h : Holds settled (plains xs) closed s)
    (quiet : s.tick settled = none) : s.gen.results = served xs closed s.gen.calls := by
  have prefixed := h.plain_initial
  have holds : Holds settled ((xs.map .plain).map .item) closed s := h
  rcases Nat.lt_or_ge xs.length s.gen.calls with more | less
  · cases closed with
    | true =>
      have all := completes holds quiet (fulfilled_plain xs) (by simpa using more)
      rw [List.length_map] at all
      rw [served, List.take_of_length_le (Nat.le_of_lt more)]; exact all
    | false =>
      have first : xs.map .value <+: s.gen.results := delivers holds quiet (Nat.le_of_eq (by simp))
        (Nat.le_of_lt more) (by rw [← List.map_take, List.take_length]; exact fulfilled_plain xs)
      refine prefixed.eq_of_length_le ?_
      simpa [served, Nat.min_eq_right (Nat.le_of_lt more)] using first.length_le
  · have first : (xs.take s.gen.calls).map .value <+: s.gen.results := delivers holds quiet
      (by simpa using less) (Nat.le_refl _) (by rw [← List.map_take]; exact fulfilled_plain _)
    refine prefixed.eq_of_length_le ?_
    have none : s.gen.calls - xs.length = 0 := by omega
    simpa [served, none] using first.length_le

end IterateLater

end Fula.AsyncLater
