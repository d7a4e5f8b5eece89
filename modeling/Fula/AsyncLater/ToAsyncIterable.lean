import Fula.AsyncLater.LateCalls

/-!
# `toAsyncIterable` (`async-later/src/to-async-iterable.ts`)

What is not an async iterable already becomes one in one of two ways. An observable is subscribed to
at once, with an `iterateLater` queue, and its error becomes a rejected promise in the queue. An iterable
or a single value is read by a generator, which awaits one element after the other. `null` has no
properties to ask for, and without a value there is a function that waits for one.

`answers` is what a consumer is to get of some items. `toAsyncIterable_answers` says that both ways
give it that, whenever it asks and whenever the items come and settle.
-/

namespace Fula.AsyncLater
set_option autoImplicit false
open Lib IterateLater

variable {α ε : Type}

/-! ## What a consumer is to get -/

/-- The answers to `calls` calls of `next()`, as far as they can be given: the items in turn, up to one that has not
settled, up to an error, or up to the end if there is one. -/
def answers (settled : Settled α ε) : List (Item α) → Bool → Nat → List (Result α ε)
  | _, _, 0 => []
  | [], closed, calls + 1 => if closed then List.replicate (calls + 1) .done else []
  | i :: items, closed, calls + 1 => match awaited settled (some (.item i)) with
    | some (.value v) => .value v :: answers settled items closed calls
    | some (.error e) => .error e :: List.replicate calls .done
    | some .done | none => []

section
variable {settled : Settled α ε} {items rest : List (Item α)} {closed : Bool} {rs : List (Result α ε)}

theorem answers_zero (items : List (Item α)) : answers settled items closed 0 = [] := by cases items <;> rfl

theorem answers_nil (calls : Nat) :
    answers settled [] closed calls = if closed then List.replicate calls .done else [] := by
  cases calls with
  | zero => cases closed <;> rfl
  | succ calls => rfl

theorem awaited_of_fulfilled {i : Item α} {v : α} (read : fulfilled settled i = some v) :
    awaited settled (some (.item i)) = some (.value v) := by
  rw [awaited_item, read]

theorem awaited_of_rejected {i : Item α} {e : ε} (error : rejected settled i = some e) :
    awaited settled (some (.item i)) = some (.error e) := by
  rw [awaited_item, fulfilled_excludes error, error]

/-- Items that have been fulfilled are answered first. -/
theorem answers_append {first : List (Item α)} {vs : List α} (read : first.map (fulfilled settled) = vs.map some)
    (calls : Nat) : answers settled (first ++ rest) closed calls =
      (vs.take calls).map .value ++ answers settled rest closed (calls - first.length) := by
  induction first generalizing vs calls with
  | nil =>
    cases vs with
    | nil => simp
    | cons v vs => cases read
  | cons i first ih =>
    cases vs with
    | nil => cases read
    | cons v vs =>
      simp only [List.map_cons, List.cons.injEq] at read
      cases calls with
      | zero => simp [answers_zero]
      | succ calls => simp [answers, awaited_of_fulfilled read.1, ih read.2]

theorem answers_error {i : Item α} {e : ε} (error : rejected settled i = some e) (calls : Nat) :
    answers settled (i :: rest) closed (calls + 1) = .error e :: List.replicate calls .done := by
  simp [answers, awaited_of_rejected error]

theorem answers_initial {m n : Nat} (le : m ≤ n) : answers settled items closed m <+: answers settled items closed n := by
  induction items generalizing m n with
  | nil =>
    rw [answers_nil, answers_nil]
    split
    · exact ⟨List.replicate (n - m) .done, by simp [le]⟩
    · exact List.prefix_refl _
  | cons i items ih =>
    cases m with
    | zero => rw [answers_zero]; exact List.nil_prefix
    | succ m =>
      obtain ⟨n, rfl⟩ := Nat.exists_eq_add_of_le' (Nat.le_trans (Nat.le_add_left 1 m) le)
      simp only [answers]
      split
      · rw [List.cons_prefix_cons]
        exact ⟨rfl, ih (by omega)⟩
      · rw [List.cons_prefix_cons]
        exact ⟨rfl, List.replicate (n - m) .done, by simp; omega⟩
      · exact List.prefix_refl _
      · exact List.prefix_refl _

/-- What has been received is what that many calls are to get. -/
theorem answers_of_received (received : Received settled items closed rs) : rs = answers settled items closed rs.length := by
  cases received with
  | values j vs inside first =>
    have length := fulfilled_length inside first
    rw [← List.take_append_drop j items, answers_append first, List.length_map, List.take_of_length_le (Nat.le_refl _),
      List.length_take, Nat.min_eq_left inside, length, Nat.sub_self, answers_zero, List.append_nil]
  | failed j i e k vs at_ error first =>
    have inside := (List.getElem?_eq_some_iff.1 at_).1
    have length := fulfilled_length (Nat.le_of_lt inside) first
    have split : items.drop j = i :: items.drop (j + 1) := by
      rw [List.drop_eq_getElem_cons inside, (List.getElem?_eq_some_iff.1 at_).2]
    have calls : (vs.map Result.value ++ Result.error e :: List.replicate k (.done : Result α ε)).length = j + (k + 1) := by
      simp [length]
    rw [calls]
    conv => rhs; rw [← List.take_append_drop j items, answers_append first, split]
    rw [List.take_of_length_le (by omega), List.length_take, Nat.min_eq_left (Nat.le_of_lt inside), Nat.add_sub_cancel_left,
      answers_error error]
  | ended k vs completed all =>
    have length : vs.length = items.length := by simpa using (congrArg List.length all).symm
    have calls : (vs.map Result.value ++ List.replicate (k + 1) (.done : Result α ε)).length = items.length + (k + 1) := by
      simp [length]
    have whole : answers settled (items ++ []) closed (items.length + (k + 1)) = _ := answers_append all _
    rw [List.append_nil, List.take_of_length_le (by omega), Nat.add_sub_cancel_left, answers_nil, completed, if_pos rfl] at whole
    rw [calls, completed, whole]

/-- What is held back, when the first item that has not been answered has not settled. -/
theorem answers_blocked {d : Nat} {vs : List α} (read : (items.take d).map (fulfilled settled) = vs.map some)
    (blocked : (d = items.length ∧ closed = false) ∨
      ∃ i, items[d]? = some i ∧ fulfilled settled i = none ∧ rejected settled i = none)
    {calls : Nat} (more : vs.length ≤ calls) : answers settled items closed calls = vs.map .value := by
  have split : answers settled (items.take d ++ items.drop d) closed calls = _ := answers_append read calls
  have nothing : answers settled (items.drop d) closed (calls - (items.take d).length) = [] := by
    rcases blocked with ⟨rfl, open_⟩ | ⟨i, at_, unread, open_⟩
    · rw [List.drop_length, answers_nil, open_]
      rfl
    · have inside := (List.getElem?_eq_some_iff.1 at_).1
      rw [List.drop_eq_getElem_cons inside, (List.getElem?_eq_some_iff.1 at_).2]
      cases calls - (items.take d).length with
      | zero => rfl
      | succ n => simp [answers, awaited_item, unread, open_]
  rw [List.take_append_drop, List.take_of_length_le more, nothing, List.append_nil] at split
  exact split

end

/-- The consumer of an `iterateLater` has a part of what it is to get, and all of it where the generator rests. -/
theorem IterateLater.Holds.answers {settled : Settled α ε} {items : List (Item α)} {closed : Bool} {s : IterateLater α ε}
    (h : Holds settled (items.map .item) closed s) :
    s.gen.results <+: answers settled items closed s.gen.calls ∧
      (s.tick settled = none → s.gen.results = AsyncLater.answers settled items closed s.gen.calls) := by
  have part := answers_of_received h.received
  have fewer : s.gen.results.length ≤ s.gen.calls := Nat.le_add_right _ _
  refine ⟨part ▸ answers_initial fewer, fun quiet => ?_⟩
  rcases h.waits_for quiet with none_ | ⟨d, vs, read, results, blocked⟩
  · rwa [show s.gen.calls = s.gen.results.length by simp [AsyncGenerator.calls, none_]]
  · rw [results, List.length_map] at fewer
    rw [results, answers_blocked read blocked fewer]

/-! ## A generator that awaits one element after the other -/

/-- `for (const element of value) yield await element`, over the elements that are left. -/
structure Reading (α ε : Type) where
  elements : List (Item α)
  gen : AsyncGenerator (Item α) α ε := {}

namespace Reading

/-- The loop goes on to its next element, with a call waiting. -/
def enter (l : Reading α ε) : Reading α ε :=
  match l.elements with
  | element :: elements => ⟨elements, { l.gen with control := .awaiting element }⟩
  | [] => { l with gen := l.gen.finish }

def pull (l : Reading α ε) : Reading α ε :=
  match l.gen.control with
  | .suspended => enter { l with gen := { l.gen with pulls := l.gen.pulls + 1 } }
  | .awaiting _ => { l with gen := { l.gen with pulls := l.gen.pulls + 1 } }
  | .finished => { l with gen := { l.gen with results := l.gen.results ++ [.done] } }

def afterYield (l : Reading α ε) (v : α) : Reading α ε :=
  let g := l.gen.yieldValue v
  if g.pulls = 0 then { l with gen := g } else enter { l with gen := g }

/-- The generator is resumed in `await element`. -/
def tick (settled : Settled α ε) (l : Reading α ε) : Option (Reading α ε) :=
  match l.gen.control with
  | .awaiting element => match awaited settled (some (.item element)) with
    | some (.value v) => some (l.afterYield v)
    | some (.error e) => some { l with gen := l.gen.throw e }
    | some .done | none => none
  | _ => none

/-- The items before `rest` have been read, and their values answered. -/
def Read (settled : Settled α ε) (items rest : List (Item α)) (results : List (Result α ε)) : Prop :=
  ∃ (first : List (Item α)) (vs : List α), items = first ++ rest ∧ first.map (fulfilled settled) = vs.map some ∧ results = vs.map .value

/-- Where the generator stands. -/
def At (settled : Settled α ε) (items : List (Item α)) (l : Reading α ε) : Prop :=
  match l.gen.control with
  | .suspended => l.gen.pulls = 0 ∧ Read settled items l.elements l.gen.results
  | .awaiting element => 0 < l.gen.pulls ∧ Read settled items (element :: l.elements) l.gen.results
  | .finished => l.gen.pulls = 0 ∧ ∀ k, Received settled items true (l.gen.results ++ List.replicate k .done)

section
variable {settled more : Settled α ε} {items rest : List (Item α)} {closed : Bool} {rs : List (Result α ε)} {l l' : Reading α ε}

theorem rejected_mono (le : Settled.le settled more) {i : Item α} {e : ε} (error : rejected settled i = some e) :
    rejected more i = some e := by
  cases i with
  | plain w => cases error
  | promise p =>
    simp only [rejected] at error
    split at error
    · next r here =>
      cases error
      simp [rejected, le p _ here]
    · cases error

theorem map_fulfilled_mono (le : Settled.le settled more) {first : List (Item α)} {vs : List α}
    (read : first.map (fulfilled settled) = vs.map some) : first.map (fulfilled more) = vs.map some := by
  induction first generalizing vs with
  | nil => exact read
  | cons i first ih =>
    cases vs with
    | nil => cases read
    | cons v vs =>
      simp only [List.map_cons, List.cons.injEq] at read ⊢
      exact ⟨fulfilled_mono le read.1, ih read.2⟩

theorem received_mono (le : Settled.le settled more) (received : Received settled items closed rs) :
    Received more items closed rs := by
  cases received with
  | values j vs inside first => exact .values j vs inside (map_fulfilled_mono le first)
  | failed j i e k vs at_ error first => exact .failed j i e k vs at_ (rejected_mono le error) (map_fulfilled_mono le first)
  | ended k vs completed all => exact .ended k vs completed (map_fulfilled_mono le all)

theorem Read.mono (le : Settled.le settled more) (read : Read settled items rest rs) : Read more items rest rs := by
  obtain ⟨first, vs, split, fulfilled, results⟩ := read
  exact ⟨first, vs, split, map_fulfilled_mono le fulfilled, results⟩

theorem At.settle (le : Settled.le settled more) (at_ : At settled items l) : At more items l := by
  unfold At at at_ ⊢
  split at at_
  · exact ⟨at_.1, at_.2.mono le⟩
  · exact ⟨at_.1, at_.2.mono le⟩
  · exact ⟨at_.1, fun k => received_mono le (at_.2 k)⟩

theorem Read.received (read : Read settled items rest rs) : Received settled items true rs := by
  obtain ⟨first, vs, rfl, fulfilled, rfl⟩ := read
  exact .values first.length vs (by simp) (by rwa [List.take_left])

theorem At.received (at_ : At settled items l) : Received settled items true l.gen.results := by
  unfold At at at_
  split at at_
  · exact at_.2.received
  · exact at_.2.received
  · have none_ := at_.2 0
    rwa [List.replicate_zero, List.append_nil] at none_

/-- The loop's head, with a call waiting. -/
theorem at_enter (waiting : 0 < l.gen.pulls) (read : Read settled items l.elements l.gen.results) : At settled items l.enter := by
  unfold enter
  split
  · next element elements here =>
    rw [here] at read
    exact ⟨waiting, read⟩
  · next here =>
    rw [here] at read
    obtain ⟨first, vs, split, fulfilled, results⟩ := read
    rw [List.append_nil] at split
    subst split
    refine ⟨rfl, fun k => ?_⟩
    have ends : l.gen.finish.results ++ List.replicate k .done = vs.map .value ++ List.replicate (l.gen.pulls + k - 1 + 1) .done := by
      rw [AsyncGenerator.finish, results, List.append_assoc, List.replicate_append_replicate]
      congr 2
      omega
    rw [ends]
    exact .ended _ vs rfl fulfilled

theorem At.pull (at_ : At settled items l) : At settled items l.pull := by
  unfold Reading.pull
  split
  · next control =>
    simp only [At, control] at at_
    exact at_enter (Nat.succ_pos _) at_.2
  · next element control =>
    simp only [At, control] at at_ ⊢
    exact ⟨Nat.succ_pos _, at_.2⟩
  · next control =>
    simp only [At, control] at at_ ⊢
    refine ⟨at_.1, fun k => ?_⟩
    have one_more := at_.2 (k + 1)
    rwa [List.append_assoc, List.singleton_append, ← List.replicate_succ]

theorem At.tick (at_ : At settled items l) (ticked : l.tick settled = some l') : At settled items l' := by
  unfold Reading.tick at ticked
  split at ticked
  · next element control =>
    simp only [At, control] at at_
    obtain ⟨waiting, first, vs, split_, fulfilled, results⟩ := at_
    split at ticked
    · next v value =>
      cases ticked
      have own : AsyncLater.IterateLater.fulfilled settled element = some v := by
        rw [awaited_item] at value
        split at value <;> simp_all
      have read : Read settled items l.elements (l.gen.yieldValue v).results := by
        refine ⟨first ++ [element], vs ++ [v], by simp [split_], by simp [fulfilled, own], ?_⟩
        simp [AsyncGenerator.yieldValue, results]
      simp only [afterYield]
      split
      · next none_ => exact ⟨none_, read⟩
      · next some_ => exact at_enter (Nat.pos_of_ne_zero some_) read
    · next e error =>
      cases ticked
      have own : rejected settled element = some e := by
        rw [awaited_item] at error
        split at error <;> simp_all
      refine ⟨rfl, fun k => ?_⟩
      have here : items[first.length]? = some element := by rw [split_]; simp
      have taken : (items.take first.length).map (AsyncLater.IterateLater.fulfilled settled) = vs.map some := by
        rw [split_, List.take_left, fulfilled]
      have failed := @Received.failed α ε settled items true first.length element e (l.gen.pulls - 1 + k) vs here own taken
      rw [← List.replicate_append_replicate] at failed
      simpa [AsyncGenerator.throw, results] using failed
    · cases ticked
    · cases ticked
  · cases ticked

theorem At.answers (at_ : At settled items l) :
    l.gen.results <+: answers settled items true l.gen.calls ∧
      (l.tick settled = none → l.gen.results = AsyncLater.answers settled items true l.gen.calls) := by
  have part := answers_of_received at_.received
  have fewer : l.gen.results.length ≤ l.gen.calls := Nat.le_add_right _ _
  refine ⟨part ▸ answers_initial fewer, fun quiet => ?_⟩
  have idle (none_ : l.gen.pulls = 0) : l.gen.results = AsyncLater.answers settled items true l.gen.calls := by
    rwa [show l.gen.calls = l.gen.results.length by simp [AsyncGenerator.calls, none_]]
  unfold At at at_
  split at at_
  · exact idle at_.1
  · next element control =>
    obtain ⟨-, first, vs, split_, fulfilled, results⟩ := at_
    have unread : AsyncLater.IterateLater.fulfilled settled element = none ∧ rejected settled element = none := by
      simp only [Reading.tick, control, awaited_item] at quiet
      cases value : AsyncLater.IterateLater.fulfilled settled element with
      | some v => simp [value] at quiet
      | none =>
        cases error : rejected settled element with
        | some e => simp [value, error] at quiet
        | none => exact ⟨rfl, rfl⟩
    rw [results, List.length_map] at fewer
    refine results.trans (answers_blocked (d := first.length) ?_ (.inr ⟨element, ?_, unread⟩) fewer).symm
    · rw [split_, List.take_left, fulfilled]
    · rw [split_]
      simp
  · exact idle at_.1

theorem calls_enter (l : Reading α ε) : l.enter.gen.calls = l.gen.calls := by
  unfold enter
  split
  · rfl
  · exact l.gen.calls_finish

theorem calls_pull (l : Reading α ε) : l.pull.gen.calls = l.gen.calls + 1 := by
  unfold Reading.pull
  split
  · exact (calls_enter _).trans (Nat.add_assoc ..).symm
  · exact (Nat.add_assoc ..).symm
  · simp [AsyncGenerator.calls]
    omega

theorem At.calls_tick (at_ : At settled items l) (ticked : l.tick settled = some l') : l'.gen.calls = l.gen.calls := by
  unfold Reading.tick at ticked
  split at ticked
  · next element control =>
    simp only [At, control] at at_
    split at ticked
    · next v value =>
      cases ticked
      simp only [afterYield]
      split
      · exact AsyncGenerator.calls_yieldValue at_.1 v
      · exact (calls_enter _).trans (AsyncGenerator.calls_yieldValue at_.1 v)
    · cases ticked
      exact AsyncGenerator.calls_throw at_.1 _
    · cases ticked
    · cases ticked
  · cases ticked

/-- How often the generator can be resumed. -/
def pending (l : Reading α ε) : Nat :=
  match l.gen.control with
  | .awaiting _ => l.elements.length + 1
  | _ => 0

theorem pending_enter (l : Reading α ε) : l.enter.pending ≤ l.elements.length := by
  unfold enter
  split
  · next element elements here => simp [pending, here]
  · exact Nat.zero_le _

theorem pending_tick (ticked : l.tick settled = some l') : l'.pending < l.pending := by
  unfold Reading.tick at ticked
  split at ticked
  · next element control =>
    have now : l.pending = l.elements.length + 1 := by simp [pending, control]
    split at ticked
    · cases ticked
      simp only [afterYield]
      split
      · exact now ▸ Nat.succ_pos _
      · exact now ▸ Nat.lt_succ_of_le (pending_enter _)
    · cases ticked
      exact now ▸ Nat.succ_pos _
    · cases ticked
    · cases ticked
  · cases ticked

end

end Reading

/-! ## `_toAsyncIterable` -/

/-- The argument, by what `toAsyncIterable` asks of it. -/
inductive Input (α : Type) where
  | undefined
  | null
  /-- It has a `Symbol.asyncIterator`. -/
  | asyncIterable
  /-- It has a method `subscribe`. -/
  | observable
  /-- It has a `Symbol.iterator`. -/
  | iterable (elements : List (Item α))
  /-- A promise, or any other value. -/
  | single (element : Item α)

/-- What reads it. -/
inductive Reader (α ε : Type) where
  | queue (later : IterateLater α ε)
  | loop (l : Reading α ε)

def Reader.gen : Reader α ε → List (Result α ε) × Nat
  | .queue later => (later.gen.results, later.gen.calls)
  | .loop l => (l.gen.results, l.gen.calls)

structure Conversion (α ε : Type) where
  reader : Reader α ε
  settled : Settled α ε := fun _ => none
  /-- The items that there are so far. -/
  items : List (Item α)
  /-- There are no others to come. -/
  closed : Bool
  /-- The observable has completed or failed. -/
  stopped : Bool

/-- What comes back. -/
inductive Output (α ε : Type) where
  /-- The argument itself. -/
  | argument
  | converted (c : Conversion α ε)
  /-- `_toAsyncIterable`, as a function of the value. -/
  | function

/-- `none` where it throws a `TypeError`. -/
def _toAsyncIterable : Input α → Option (Output α ε)
  -- these have no properties
  | .undefined | .null => none
  | .asyncIterable => some .argument
  | .observable => some (.converted ⟨.queue .init, fun _ => none, [], false, false⟩)
  | .iterable elements => some (.converted ⟨.loop { elements := elements }, fun _ => none, elements, true, true⟩)
  | .single element => some (.converted ⟨.loop { elements := [element] }, fun _ => none, [element], true, true⟩)

def toAsyncIterable : Input α → Option (Output α ε)
  | .undefined => some .function
  | input => _toAsyncIterable input

namespace Conversion

inductive Act (α ε : Type) where
  /-- The observable calls `next`. -/
  | next (i : Item α)
  /-- It calls `error`, for which `p` is a new promise: `next(Promise.reject(error))`. -/
  | error (p : Nat) (e : ε)
  | complete
  | settle (p : Nat) (r : Except ε α)
  /-- The consumer calls `next()`. -/
  | pull
  | tick

/-- An observable notifies nobody once it has completed or failed, and a promise settles once. -/
def step (s : Conversion α ε) : Act α ε → Option (Conversion α ε)
  | .next i => match s.reader with
    | .queue later => if s.stopped then none else some { s with reader := .queue (later.next i), items := s.items ++ [i] }
    | .loop _ => none
  | .error p e => match s.reader with
    | .queue later =>
      if s.stopped || (s.settled p).isSome || (s.items.any fun | .promise q => p = q | .plain _ => false) then none
      else some { s with
        reader := .queue (later.next (.promise p))
        settled := fun q => if q = p then some (.error e) else s.settled q
        items := s.items ++ [.promise p]
        stopped := true }
    | .loop _ => none
  | .complete => match s.reader with
    | .queue later => if s.stopped then none else some { s with reader := .queue later.complete, closed := true, stopped := true }
    | .loop _ => none
  | .settle p r =>
    if (s.settled p).isNone then some { s with settled := fun q => if q = p then some r else s.settled q } else none
  | .pull => match s.reader with
    | .queue later => some { s with reader := .queue later.pull }
    | .loop l => some { s with reader := .loop l.pull }
  | .tick => match s.reader with
    | .queue later => (later.tick s.settled).map fun later => { s with reader := .queue later }
    | .loop l => (l.tick s.settled).map fun l => { s with reader := .loop l }

/-- What an action adds to the items. -/
def emitted : Act α ε → Option (Item α)
  | .next i => some i
  | .error p _ => some (.promise p)
  | _ => none

def isPull : Act α ε → Bool
  | .pull => true
  | _ => false

/-- The reader holds the items. -/
def Holds (s : Conversion α ε) : Prop :=
  match s.reader with
  | .queue later => IterateLater.Holds s.settled (s.items.map .item) s.closed later ∧ (s.stopped = false → s.closed = false)
  | .loop l => Reading.At s.settled s.items l ∧ s.closed = true

structure Inv (items : List (Item α)) (acts : List (Act α ε)) (s : Conversion α ε) : Prop where
  holds : Holds s
  calls : s.reader.gen.2 = acts.countP isPull
  items : s.items = items ++ acts.filterMap emitted

section
variable {input : Input α} {items : List (Item α)} {acts : List (Act α ε)} {c s s' : Conversion α ε}

/-- What is converted, and into what. -/
theorem converted_of (some_ : input ≠ .undefined) (object : input ≠ .null) (other : input ≠ .asyncIterable) :
    ∃ c : Conversion α ε, toAsyncIterable input = some (.converted c) ∧ Inv c.items [] c := by
  cases input with
  | undefined => exact absurd rfl some_
  | null => exact absurd rfl object
  | asyncIterable => exact absurd rfl other
  | observable => exact ⟨_, rfl, ⟨holds_init _, fun _ => rfl⟩, rfl, rfl⟩
  | iterable elements => exact ⟨_, rfl, ⟨⟨rfl, [], [], rfl, rfl, rfl⟩, rfl⟩, rfl, (List.append_nil _).symm⟩
  | single element => exact ⟨_, rfl, ⟨⟨rfl, [], [], rfl, rfl, rfl⟩, rfl⟩, rfl, rfl⟩

theorem Holds.settle (holds : Holds s) {p : Nat} (r : Except ε α) (open_ : (s.settled p).isNone) :
    Holds { s with settled := fun q => if q = p then some r else s.settled q } := by
  cases reads : s.reader with
  | queue later =>
    simp only [Holds, reads] at holds ⊢
    exact ⟨holds.1.settle (Session.settle_le r open_), holds.2⟩
  | loop l =>
    simp only [Holds, reads] at holds ⊢
    exact ⟨holds.1.settle (Session.settle_le r open_), holds.2⟩

theorem Holds.step {a : Act α ε} (holds : Holds s) (moved : Conversion.step s a = some s') :
    Holds s' ∧ s'.items = s.items ++ (emitted a).toList ∧ s'.reader.gen.2 = s.reader.gen.2 + if isPull a then 1 else 0 := by
  cases a with
  | next i =>
    simp only [Conversion.step] at moved
    split at moved
    · next later reads =>
      split at moved
      · cases moved
      · next goes =>
        cases moved
        simp only [Holds, reads] at holds
        have open_ := holds.2 (by simpa using goes)
        refine ⟨⟨?_, holds.2⟩, rfl, by rw [reads]; rfl⟩
        have pushed_ := holds.1.next i
        rw [open_] at pushed_ ⊢
        simpa [pushed] using pushed_
    · cases moved
  | error p e =>
    simp only [Conversion.step] at moved
    split at moved
    · next later reads =>
      split at moved
      · cases moved
      · next goes =>
        simp only [Bool.or_eq_true, not_or, Bool.not_eq_true, Option.isSome_eq_false_iff] at goes
        cases moved
        have rejected_ := holds.settle (.error e) goes.1.2
        simp only [Holds, reads] at rejected_
        have open_ := rejected_.2 goes.1.1
        refine ⟨⟨?_, fun never => by cases never⟩, rfl, by rw [reads]; rfl⟩
        have pushed_ := rejected_.1.next (.promise p)
        rw [open_] at pushed_ ⊢
        simpa [pushed] using pushed_
    · cases moved
  | complete =>
    simp only [Conversion.step] at moved
    split at moved
    · next later reads =>
      split at moved
      · cases moved
      · cases moved
        simp only [Holds, reads] at holds
        exact ⟨⟨holds.1.complete, fun never => by cases never⟩, (List.append_nil _).symm, by rw [reads]; rfl⟩
    · cases moved
  | settle p r =>
    simp only [Conversion.step] at moved
    split at moved
    · next open_ =>
      cases moved
      exact ⟨holds.settle r open_, (List.append_nil _).symm, rfl⟩
    · cases moved
  | pull =>
    simp only [Conversion.step] at moved
    split at moved
    · next later reads =>
      cases moved
      simp only [Holds, reads] at holds
      exact ⟨⟨holds.1.pull, holds.2⟩, (List.append_nil _).symm, by rw [reads]; exact calls_pull later⟩
    · next l reads =>
      cases moved
      simp only [Holds, reads] at holds
      exact ⟨⟨holds.1.pull, holds.2⟩, (List.append_nil _).symm, by rw [reads]; exact Reading.calls_pull l⟩
  | tick =>
    simp only [Conversion.step] at moved
    split at moved
    · next later reads =>
      obtain ⟨later', ticked, rfl⟩ := Option.map_eq_some_iff.1 moved
      simp only [Holds, reads] at holds
      exact ⟨⟨holds.1.tick ticked, holds.2⟩, (List.append_nil _).symm, by rw [reads]; exact holds.1.calls_tick ticked⟩
    · next l reads =>
      obtain ⟨l', ticked, rfl⟩ := Option.map_eq_some_iff.1 moved
      simp only [Holds, reads] at holds
      exact ⟨⟨holds.1.tick ticked, holds.2⟩, (List.append_nil _).symm, by rw [reads]; exact holds.1.calls_tick ticked⟩

theorem Inv.step {a : Act α ε} (inv : Inv items acts s) (moved : Conversion.step s a = some s') : Inv items (acts ++ [a]) s' := by
  obtain ⟨holds, more, calls⟩ := inv.holds.step moved
  refine ⟨holds, ?_, ?_⟩
  · rw [calls, inv.calls, List.countP_append, List.countP_singleton]
  · rw [more, inv.items, List.filterMap_append, List.append_assoc]
    cases a <;> rfl

/-- A reader can be resumed so often. -/
def pending (s : Conversion α ε) : Nat :=
  match s.reader with
  | .queue later => later.pending
  | .loop l => l.pending

theorem pending_tick (moved : Conversion.step s .tick = some s') : s'.pending < s.pending := by
  simp only [Conversion.step] at moved
  split at moved
  · next later reads =>
    obtain ⟨later', ticked, rfl⟩ := Option.map_eq_some_iff.1 moved
    simpa [pending, reads] using IterateLater.pending_tick ticked
  · next l reads =>
    obtain ⟨l', ticked, rfl⟩ := Option.map_eq_some_iff.1 moved
    simpa [pending, reads] using Reading.pending_tick ticked

theorem Holds.answers (holds : Holds s) :
    s.reader.gen.1 <+: answers s.settled s.items s.closed s.reader.gen.2 ∧
      (Conversion.step s .tick = none → s.reader.gen.1 = AsyncLater.answers s.settled s.items s.closed s.reader.gen.2) := by
  unfold Holds at holds
  split at holds
  · next later reads =>
    obtain ⟨part, all⟩ := holds.1.answers
    rw [reads]
    refine ⟨part, fun quiet => all ?_⟩
    simpa [Conversion.step, reads] using quiet
  · next l reads =>
    obtain ⟨part, all⟩ := holds.1.answers
    rw [reads, holds.2]
    refine ⟨part, fun quiet => all ?_⟩
    simpa [Conversion.step, reads] using quiet

/-- **What becomes of a value's elements**: a value other than `undefined` and `null` that is no async iterable is converted,
and however its items, their settlement and the calls of the consumer come, the consumer has a part of the answers that it is
to get; the reader comes to rest by itself, and where it rests the consumer has all of them. The items are the elements, or
what the observable has emitted, with its error last. -/
theorem toAsyncIterable_answers (some_ : input ≠ .undefined) (object : input ≠ .null) (other : input ≠ .asyncIterable) :
    ∃ c : Conversion α ε, toAsyncIterable input = some (.converted c) ∧
      ∀ acts s, run Conversion.step c acts = some s →
        s.items = c.items ++ acts.filterMap emitted ∧
        s.reader.gen.1 <+: answers s.settled s.items s.closed (acts.countP isPull) ∧
        (Conversion.step s .tick = none → s.reader.gen.1 = answers s.settled s.items s.closed (acts.countP isPull)) ∧
        ∃ n t, run Conversion.step s (List.replicate n .tick) = some t ∧ Conversion.step t .tick = none := by
  obtain ⟨c, made, start⟩ := converted_of (ε := ε) some_ object other
  refine ⟨c, made, fun acts s reached => ?_⟩
  have inv : Inv c.items acts s := run_history (I := Inv c.items) start (fun _ _ _ _ => Inv.step) reached
  rw [← inv.calls]
  refine ⟨inv.items, inv.holds.answers.1, inv.holds.answers.2, ?_⟩
  obtain ⟨as, t, only, rest, quiet⟩ := exists_quiet Conversion.step (· = .tick) (fun _ => True)
    (fun s : Conversion α ε => s.pending) (by
      rintro s a t - rfl moved
      exact ⟨trivial, pending_tick moved⟩) trivial
  rw [List.eq_replicate_of_mem only] at rest
  exact ⟨as.length, t, rest, quiet .tick rfl⟩

end

/-- A subject emits a value and a promise, and fails before the promise has been fulfilled. -/
def sampleActs : List (Act Nat String) :=
  [.pull, .next (.plain 1), .tick, .next (.promise 0), .pull, .error 1 "gone", .settle 0 (.ok 2), .pull, .pull, .tick, .tick]

theorem toAsyncIterable_answers_sample :
    ∃ c s, toAsyncIterable .observable = some (.converted c) ∧ run Conversion.step c sampleActs = some s ∧
      s.reader.gen.1 = [.value 1, .value 2, .error "gone", .done] := by
  obtain ⟨c, made, all⟩ := @toAsyncIterable_answers Nat String .observable nofun nofun nofun
  cases made
  exact ⟨_, _, rfl, rfl, (all sampleActs _ rfl).2.2.1 rfl⟩

end Conversion

end Fula.AsyncLater
