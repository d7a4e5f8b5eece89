import Mathlib.Data.List.Nodup

/-!
# A chain of middleware

Each of `n` middlewares may call `next()`, which runs the one behind it, and await it. Behind the
last one `next()` returns at once. A request goes inward as far as `next()` is called, and then
outward: each middleware resumes when the one behind it has returned or thrown, and returns or
throws itself.

`inside k` says that the `next()` of middleware `k` has been called and has not been taken up, which
only the moves of middleware `k` change.
-/

namespace Lib.Onion
set_option autoImplicit false

/-- Where a request is in the chain. -/
inductive Place where
  /-- Middleware `k` is called. -/
  | inward (k : Nat)
  /-- Middleware `k` has returned or thrown. -/
  | settled (k : Nat) (thrown : Bool)
  deriving DecidableEq, Repr

/-- How a middleware goes on. -/
inductive Move where
  | next
  | returns
  | throws
  deriving DecidableEq, Repr

namespace Place

/-- The middleware whose turn it is. -/
def turn : Place → Option Nat
  | inward k => some k
  | settled (k + 1) _ => some k
  | settled 0 _ => none

/-- The place after a move, in a chain of `n`. -/
def go (n : Nat) : Place → Move → Option Place
  | inward k, .next => if k < n then some (inward (k + 1)) else none
  | inward k, .returns => some (settled k false)
  | inward k, .throws => if k < n then some (settled k true) else none
  | settled (k + 1) _, .returns => some (settled k false)
  | settled (k + 1) _, .throws => some (settled k true)
  | settled _ _, _ => none

/-- The move of a middleware that awaits `next()` and neither throws nor catches. -/
def forward : Place → Move
  | inward _ => .next
  | settled _ thrown => if thrown then .throws else .returns

/-- In the `next()` of middleware `k`. -/
def inside (k : Nat) : Place → Bool
  | inward j => k < j
  | settled j _ => k < j

variable {n k : Nat} {p p' : Place} {m : Move}

/-- Only middleware `k` goes into its `next()` and out of it. -/
theorem inside_go (moved : p.go n m = some p') (other : p.turn ≠ some k) : p'.inside k = p.inside k := by
  cases p with
  | inward j =>
    have apart : j ≠ k := fun same => other (by rw [turn, same])
    cases m with
    | next =>
      simp only [go, Option.ite_none_right_eq_some, Option.some.injEq] at moved
      obtain ⟨-, rfl⟩ := moved
      simp only [inside, decide_eq_decide]
      omega
    | returns => cases moved; rfl
    | throws =>
      simp only [go, Option.ite_none_right_eq_some, Option.some.injEq] at moved
      obtain ⟨-, rfl⟩ := moved
      rfl
  | settled j thrown =>
    cases j with
    | zero => cases moved
    | succ j =>
      have apart : j ≠ k := fun same => other (by rw [turn, same])
      have shrunk : decide (k < j) = decide (k < j + 1) := by
        simp only [decide_eq_decide]
        omega
      cases m with
      | next => cases moved
      | returns => cases moved; exact shrunk
      | throws => cases moved; exact shrunk

/-- A middleware that forwards goes in, or it comes out as its `next()` does. -/
theorem go_forward (mine : p.turn = some k) (inChain : k < n) : (p = inward k ∧ p.go n p.forward = some (inward (k + 1))) ∨
    ∃ thrown, p = settled (k + 1) thrown ∧ p.go n p.forward = some (settled k thrown) := by
  cases p with
  | inward j =>
    cases mine
    exact .inl ⟨rfl, if_pos inChain⟩
  | settled j thrown =>
    cases j with
    | zero => cases mine
    | succ j =>
      cases mine
      refine .inr ⟨thrown, rfl, ?_⟩
      cases thrown <;> rfl

end Place

end Lib.Onion
