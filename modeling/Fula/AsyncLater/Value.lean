import Fula.Lib.Json
import Fula.Lib.Throws

/-!
# `valueAt` and `lastValue` (`async-later/src/value.ts`)

Both read an iterable with `for await`: one counts the values, the other keeps the last one and
whether there was any. Each can be called with the iterable, or without it for a function that
takes it; which call was meant is decided by whether the argument converts to `true`. So does
`lastValue` decide whether there is a last value.

`lastValue_agrees_iff` says of which iterables the two agree.
-/

namespace Fula.AsyncLater
set_option autoImplicit false
open Lib

/-- What `for await` gets of an iterable: values, and then an end or an exception. -/
structure Iterable (α ε : Type) where
  elems : List α
  failure : Option ε := none
  /-- A string is iterable too, and the empty one converts to `false`. -/
  string : Bool := false

/-- Why a promise is rejected. -/
inductive Rejection (ε : Type) where
  | referenceError (message : String)
  | thrown (e : ε)
  deriving DecidableEq, Repr

/-- What a call returns: a promise, by how it settles, or the function that takes the iterable. -/
inductive Returned (α ε : Type) where
  | promise (outcome : Except (Rejection ε) α)
  | function (apply : Iterable α ε → Except (Rejection ε) α)

variable {α ε : Type}

def Iterable.toBoolean (it : Iterable α ε) : Bool := !(it.string && it.elems.isEmpty)

/-- Behind the last value: what the iterable throws, or else the statements after the loop. -/
def Iterable.afterLoop (it : Iterable α ε) (then_ : Except (Rejection ε) α) : Except (Rejection ε) α :=
  match it.failure with
  | some e => .error (.thrown e)
  | none => then_

/-- `iterable ? f(iterable) : curriedIterable => f(curriedIterable)` -/
def orCurried (f : Iterable α ε → Except (Rejection ε) α) (iterable : Option (Iterable α ε)) : Returned α ε :=
  match iterable.filter (·.toBoolean) with
  | some iterable => .promise (f iterable)
  | none => .function f

/-! ## `valueAt` -/

/-- The loop of `_valueAt`, whose counter stands at `current`. -/
def valueLoop (index : Nat) : Nat → List α → Option α
  | _, [] => none
  | current, value :: rest => if current = index then some value else valueLoop index (current + 1) rest

def _valueAt (index : Nat) (iterable : Iterable α ε) : Except (Rejection ε) α :=
  match valueLoop index 0 iterable.elems with
  | some value => .ok value
  | none => iterable.afterLoop (.error (.referenceError ("Index " ++ toString index ++ " not found in iterable")))

def valueAt (index : Nat) : Option (Iterable α ε) → Returned α ε := orCurried (_valueAt index)

theorem valueLoop_eq (xs : List α) {index current : Nat} (le : current ≤ index) :
    valueLoop index current xs = xs[index - current]? := by
  fun_induction valueLoop index current xs with
  | case1 => simp
  | case2 value rest => simp
  | case3 current value rest other ih =>
    obtain ⟨k, more⟩ : ∃ k, index - current = k + 1 := ⟨index - current - 1, by omega⟩
    rw [ih (by omega), more, List.getElem?_cons_succ, show index - (current + 1) = k by omega]

theorem valueAt_ok {it : Iterable α ε} {index : Nat} {v : α} (at_ : it.elems[index]? = some v) :
    _valueAt index it = .ok v := by
  simp [_valueAt, valueLoop_eq it.elems (Nat.zero_le index), at_]

/-- Behind the last value it rejects, whether or not the iterable throws. -/
theorem valueAt_throws {it : Iterable α ε} {index : Nat} (none_ : it.elems[index]? = none) : Throws (_valueAt index it) := by
  rw [_valueAt, valueLoop_eq it.elems (Nat.zero_le index), Nat.sub_zero, none_]
  unfold Iterable.afterLoop
  cases it.failure with
  | none => exact throws_error _
  | some e => exact throws_error _

/-! ## `lastValue` -/

/-- The loop of `_lastValue`, over `value` and `wasEmpty`. -/
def lastLoop : Option α × Bool → List α → Option α × Bool
  | s, [] => s
  | _, value :: rest => lastLoop (some value, false) rest

theorem lastLoop_eq (s : Option α × Bool) (xs : List α) :
    lastLoop s xs = if xs.isEmpty then s else (xs.getLast?, false) := by
  fun_induction lastLoop s xs with
  | case1 => rfl
  | case2 s value rest ih =>
    rw [ih, List.getLast?_cons]
    cases rest with
    | nil => rfl
    | cons next rest => simp [List.getLast?_cons]

theorem isEmpty_of_getLast? {xs : List α} {v : α} (last : xs.getLast? = some v) : xs.isEmpty = false := by
  cases xs with
  | nil => cases last
  | cons x xs => rfl

section
variable (toBoolean : α → Bool)

def _lastValue (iterable : Iterable α ε) : Except (Rejection ε) α :=
  let (value, wasEmpty) := lastLoop (none, true) iterable.elems
  iterable.afterLoop (match value with
    | some value =>
      if !wasEmpty && toBoolean value then .ok value
      else .error (.referenceError "Cannot get last value of empty iterable")
    -- `value` is still `undefined`
    | none => .error (.referenceError "Cannot get last value of empty iterable"))

def lastValue : Option (Iterable α ε) → Returned α ε := orCurried (_lastValue toBoolean)

variable {toBoolean}

theorem lastValue_ok {it : Iterable α ε} {v : α} (ends : it.failure = none) (last : it.elems.getLast? = some v)
    (truthy : toBoolean v = true) : _lastValue toBoolean it = .ok v := by
  simp [_lastValue, lastLoop_eq, isEmpty_of_getLast? last, last, Iterable.afterLoop, ends, truthy]

/-- A last value that converts to `false` is taken for none. -/
theorem lastValue_throws {it : Iterable α ε} (falsy : ∀ v, it.elems.getLast? = some v → toBoolean v = false) :
    Throws (_lastValue toBoolean it) := by
  unfold _lastValue Iterable.afterLoop
  rw [lastLoop_eq]
  cases it.failure with
  | some e => exact throws_error _
  | none =>
    cases last : it.elems.getLast? with
    | none =>
      rw [List.getLast?_eq_none_iff.1 last]
      exact throws_error _
    | some v =>
      simp [isEmpty_of_getLast? last, falsy v last]

end

/-! ## The two ways to call them -/

inductive Form where
  /-- `f(iterable)` -/
  | direct
  /-- `f()(iterable)` -/
  | curried
  deriving DecidableEq, Repr

def Form.call (f : Option (Iterable α ε) → Returned α ε) (it : Iterable α ε) : Form → Returned α ε
  | .direct => f (some it)
  | .curried => match f none with
    | .function apply => .promise (apply it)
    | promise => promise

theorem call_orCurried (f : Iterable α ε → Except (Rejection ε) α) (it : Iterable α ε) (form : Form) :
    form.call (orCurried f) it = if form = .direct ∧ it.toBoolean = false then .function f else .promise (f it) := by
  cases form with
  | curried => rfl
  | direct => cases truthy : it.toBoolean <;> simp [Form.call, orCurried, Option.filter, truthy]

/-! ## What is expected of them -/

def Returned.Rejects (r : Returned α ε) : Prop := ∃ outcome, r = .promise outcome ∧ Throws outcome

/-- Both find the last value, and `valueAt` every other one. -/
structure Agree (toBoolean : α → Bool) (form : Form) (it : Iterable α ε) : Prop where
  empty : (form.call (lastValue toBoolean) it).Rejects ↔ it.elems = []
  last : it.elems ≠ [] → ∃ v, form.call (lastValue toBoolean) it = .promise (.ok v) ∧
    form.call (valueAt (it.elems.length - 1)) it = .promise (.ok v)
  inside : ∀ (index : Nat) v, it.elems[index]? = some v → form.call (valueAt index) it = .promise (.ok v)
  outside : ∀ index, it.elems.length ≤ index → (form.call (valueAt index) it).Rejects

theorem rejects_promise (outcome : Except (Rejection ε) α) : (Returned.promise outcome).Rejects ↔ Throws outcome := by
  constructor
  · rintro ⟨_, same, throws⟩
    cases same
    exact throws
  · intro throws
    exact ⟨outcome, rfl, throws⟩

theorem not_rejects_function (f : Iterable α ε → Except (Rejection ε) α) : ¬(Returned.function f).Rejects := by
  rintro ⟨_, never, -⟩
  cases never

variable {toBoolean : α → Bool} {form : Form} {it : Iterable α ε}

/-- Where they agree a call with the iterable is not taken for one without it. -/
theorem Agree.taken (agree : Agree toBoolean form it) : ¬(form = .direct ∧ it.toBoolean = false) := by
  intro mistaken
  have rejects := agree.outside it.elems.length (Nat.le_refl _)
  rw [valueAt, call_orCurried, if_pos mistaken] at rejects
  exact not_rejects_function _ rejects

theorem Agree.truthy {v : α} (agree : Agree toBoolean form it) (last : it.elems.getLast? = some v) : toBoolean v = true := by
  have some_ : it.elems ≠ [] := fun empty => by simp [empty] at last
  obtain ⟨w, resolves, -⟩ := agree.last some_
  rw [lastValue, call_orCurried, if_neg agree.taken] at resolves
  by_contra falsy
  have throws : Throws (_lastValue toBoolean it) := by
    apply lastValue_throws
    intro u also
    rw [last, Option.some.injEq] at also
    rw [← also]
    simpa using falsy
  rw [Returned.promise.inj resolves] at throws
  exact not_throws_ok w throws

theorem agree_of_truthy (ends : it.failure = none) (truthy : ∀ v, it.elems.getLast? = some v → toBoolean v = true)
    (taken : ¬(form = .direct ∧ it.toBoolean = false)) : Agree toBoolean form it where
  empty := by
    rw [lastValue, call_orCurried, if_neg taken, rejects_promise]
    constructor
    · intro throws
      by_contra some_
      have last := List.getLast?_eq_some_getLast some_
      rw [lastValue_ok ends last (truthy _ last)] at throws
      exact not_throws_ok _ throws
    · intro empty
      apply lastValue_throws
      intro v last
      simp [empty] at last
  last some_ := by
    have last := List.getLast?_eq_some_getLast some_
    refine ⟨it.elems.getLast some_, ?_, ?_⟩
    · rw [lastValue, call_orCurried, if_neg taken, lastValue_ok ends last (truthy _ last)]
    · rw [valueAt, call_orCurried, if_neg taken, valueAt_ok (by rw [← List.getLast?_eq_getElem?, last])]
  inside index v at_ := by
    rw [valueAt, call_orCurried, if_neg taken, valueAt_ok at_]
  outside index beyond := by
    rw [valueAt, call_orCurried, if_neg taken, rejects_promise]
    exact valueAt_throws (List.getElem?_eq_none beyond)

/-- **`lastValue` agrees with `valueAt`** on an iterable that ends, just when its last value, if there is
one, converts to `true`, and so does the iterable where it is the argument. -/
theorem lastValue_agrees_iff (toBoolean : α → Bool) (form : Form) {it : Iterable α ε} (ends : it.failure = none) :
    Agree toBoolean form it ↔ (∀ v, it.elems.getLast? = some v → toBoolean v = true) ∧
      (form = .direct → it.toBoolean = true) := by
  have taken_iff : ¬(form = .direct ∧ it.toBoolean = false) ↔ (form = .direct → it.toBoolean = true) := by simp
  constructor
  · intro agree
    exact ⟨fun v => agree.truthy, taken_iff.1 agree.taken⟩
  · rintro ⟨truthy, taken⟩
    exact agree_of_truthy ends truthy (taken_iff.2 taken)

theorem lastValue_agrees_iff_sample :
    Agree Json.truthy .direct (⟨[.num 0, .num 7], none, false⟩ : Iterable Json String) :=
  (lastValue_agrees_iff _ _ rfl).2 ⟨by rintro v ⟨⟩; rfl, fun _ => rfl⟩

/-- The last value is 0, which is taken for none. -/
theorem lastValue_of_zero : ¬Agree Json.truthy .direct (⟨[.num 7, .num 0], none, false⟩ : Iterable Json String) := by
  intro agree
  obtain ⟨v, resolves, -⟩ := agree.last (by simp)
  cases resolves

end Fula.AsyncLater
