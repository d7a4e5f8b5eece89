import Mathlib.Data.List.Basic

/-!
# Async generators

The request queue of a JavaScript async generator object. A consumer may call
`next()` several times before the first call is answered; the generator
answers the calls in the order they were made. Its body is suspended (before
its first statement or at a `yield`), waiting in an `await`, or finished.

The body itself is not modelled here: a client says where it waits (`W`) and
what it does when it is resumed. `finish`, `yieldValue` and `throw` are what
reaching the end of the body, a `yield` and an uncaught exception do to the
calls that are waiting.
-/

namespace Lib
set_option autoImplicit false

/-- The answer to one call of `next()`. -/
inductive Result (α ε : Type*) where
  | value (v : α)
  | error (e : ε)
  | done
  deriving DecidableEq, Repr

/-- The element an answer carries. -/
def Result.value? {α ε : Type*} : Result α ε → Option α
  | .value v => some v
  | _ => none

def Result.isDone {α ε : Type*} : Result α ε → Bool
  | .done => true
  | _ => false

/-- Where the body of a generator is. -/
inductive Control (W : Type*) where
  | suspended
  | awaiting (w : W)
  | finished
  deriving DecidableEq, Repr

structure AsyncGenerator (W α ε : Type*) where
  control : Control W := .suspended
  /-- Calls of `next()` that have no answer yet. -/
  pulls : Nat := 0
  /-- The answers given so far, in the order of the calls. -/
  results : List (Result α ε) := []
  deriving DecidableEq, Repr

namespace AsyncGenerator

variable {W α ε : Type*}

/-- The body returns: every waiting call is answered `done`. -/
def finish (g : AsyncGenerator W α ε) : AsyncGenerator W α ε :=
  { control := .finished, pulls := 0, results := g.results ++ List.replicate g.pulls .done }

/-- The body yields `v` to the first waiting call. -/
def yieldValue (g : AsyncGenerator W α ε) (v : α) : AsyncGenerator W α ε :=
  { control := .suspended, pulls := g.pulls - 1, results := g.results ++ [.value v] }

/-- The body throws `e`: the first waiting call rejects, the others are answered `done`. -/
def throw (g : AsyncGenerator W α ε) (e : ε) : AsyncGenerator W α ε :=
  { control := .finished, pulls := 0,
    results := g.results ++ .error e :: List.replicate (g.pulls - 1) .done }

/-- The calls of `next()` made so far. -/
def calls (g : AsyncGenerator W α ε) : Nat := g.results.length + g.pulls

theorem calls_finish (g : AsyncGenerator W α ε) : g.finish.calls = g.calls := by
  simp [calls, finish]

theorem calls_yieldValue {g : AsyncGenerator W α ε} (waiting : 0 < g.pulls) (v : α) :
    (g.yieldValue v).calls = g.calls := by
  simp only [calls, yieldValue, List.length_append, List.length_singleton]
  omega

theorem calls_throw {g : AsyncGenerator W α ε} (waiting : 0 < g.pulls) (e : ε) :
    (g.throw e).calls = g.calls := by
  simp only [calls, throw, List.length_append, List.length_cons, List.length_replicate]
  omega

theorem results_finish (g : AsyncGenerator W α ε) : g.results <+: g.finish.results :=
  List.prefix_append _ _

theorem results_yieldValue (g : AsyncGenerator W α ε) (v : α) : g.results <+: (g.yieldValue v).results :=
  List.prefix_append _ _

theorem results_throw (g : AsyncGenerator W α ε) (e : ε) : g.results <+: (g.throw e).results :=
  List.prefix_append _ _

end AsyncGenerator

end Lib
