import Fula.Lib.Run
import Fula.Lib.AsyncGenerator

/-!
# `observableToAsyncGenerator` (`webview-fula/utils.ts`)

The generator awaits whatever promise the variable `deferred` holds when it
comes to the `await`, and each emission settles that promise and puts a new one
in its place. A settled promise that was replaced before the generator came to
await it is never read. `lossless_iff` says which steps lose something: an
emission while the generator is elsewhere, and a completion between the
resolution of a value and its resumption, when `finished` ends the loop first.
-/

namespace Fula.RnFula.ObservableToAsyncGenerator
set_option autoImplicit false
open Lib

/-- How a deferred was settled; `complete` resolves it with `undefined`. -/
inductive Settled (α ε : Type) where
  | value (v : α)
  | rejected (e : ε)
  | undefined
  deriving DecidableEq, Repr

/-- How the Observable ended. -/
inductive Ending (ε : Type) where
  | completed
  | failed (e : ε)
  deriving DecidableEq, Repr

/-- What the consumer is to be told of it. -/
def Ending.result {α ε : Type} : Ending ε → Result α ε
  | .completed => .done
  | .failed e => .error e

/-- Where the body of the generator waits. -/
inductive Wait (α : Type) where
  /-- `await deferred`, for the promise that the variable held. -/
  | deferred (d : Nat)
  /-- The `await` that `yield value` makes of its value. -/
  | yielding (v : α)
  deriving DecidableEq, Repr

/-- The generator from when it has subscribed: its first call has come to `await deferred`. -/
structure State (α ε : Type) where
  /-- The promises made by `defer()`, in order. -/
  deferreds : List (Option (Settled α ε)) := [none]
  deferred : Nat := 0
  finished : Bool := false
  gen : AsyncGenerator (Wait α) α ε := { control := .awaiting (.deferred 0), pulls := 1 }
  /-- What the Observable has emitted, and how it ended. -/
  emitted : List α := []
  outcome : Option (Ending ε) := none
  deriving DecidableEq, Repr

inductive Act (α ε : Type) where
  | next (value : α)
  | error (error : ε)
  | complete
  /-- The consumer calls `next()`. -/
  | pull
  /-- The generator is resumed. -/
  | tick

variable {α ε : Type}

namespace State

/-- `result.resolve(value)` or `result.reject(error)`; a second call has no effect. -/
def settle (s : State α ε) (r : Settled α ε) : List (Option (Settled α ε)) :=
  s.deferreds.modify s.deferred (·.or (some r))

/-- `next` and `error` of the subscription: `deferred = defer()`, then the old one is settled. -/
def replace (s : State α ε) (r : Settled α ε) : State α ε :=
  { s with deferreds := s.settle r ++ [none], deferred := s.deferreds.length }

/-- The `while` loop, with a call waiting. -/
def loop (s : State α ε) (g : AsyncGenerator (Wait α) α ε) : State α ε :=
  { s with gen := { g with control := .awaiting (.deferred s.deferred) } }

def pull (s : State α ε) : State α ε :=
  match s.gen.control with
  | .suspended => s.loop { s.gen with pulls := s.gen.pulls + 1 }
  | .awaiting _ => { s with gen := { s.gen with pulls := s.gen.pulls + 1 } }
  | .finished => { s with gen := { s.gen with results := s.gen.results ++ [.done] } }

def tick (s : State α ε) : Option (State α ε) :=
  match s.gen.control with
  | .awaiting (.deferred d) => match (s.deferreds[d]?).join with
    | none => none
    | some (.rejected e) => some { s with gen := s.gen.throw e }
    | some (.value v) =>
      if s.finished then some { s with gen := s.gen.finish }
      else some { s with gen := { s.gen with control := .awaiting (.yielding v) } }
    -- Only `complete` resolves with `undefined`, after it has set `finished`.
    | some .undefined => if s.finished then some { s with gen := s.gen.finish } else none
  | .awaiting (.yielding v) =>
    let g := s.gen.yieldValue v
    some (if g.pulls = 0 then { s with gen := g } else s.loop g)
  | _ => none

/-- `asError` makes an `Error` of what is not one. -/
def step (asError : ε → ε) (s : State α ε) : Act α ε → Option (State α ε)
  | .next value =>
    if s.outcome.isNone then some { s.replace (.value value) with emitted := s.emitted ++ [value] }
    else none
  | .error error =>
    if s.outcome.isNone then
      some { s.replace (.rejected (asError error)) with outcome := some (.failed (asError error)) }
    else none
  | .complete =>
    if s.outcome.isNone then
      some { s with finished := true, deferreds := s.settle .undefined, outcome := some .completed }
    else none
  | .pull => some s.pull
  | .tick => s.tick

/-- The consumer was given all emitted values in order, then the end or the
error, and `done` ever after. -/
def Exact (s : State α ε) : Prop :=
  ∃ last more, s.outcome = some last ∧
    s.gen.results = s.emitted.map .value ++ last.result :: List.replicate more .done

/-- The generator awaits the promise that the next emission settles. -/
def Waits (s : State α ε) : Prop := s.gen.control = .awaiting (.deferred s.deferred)

/-- Emissions come while the generator waits for them, and completion does not
come between the resolution of a value and its resumption. -/
def Taken (s : State α ε) : Act α ε → Prop
  | .next _ | .error _ => s.Waits
  | .complete => ∀ d, s.gen.control = .awaiting (.deferred d) → d = s.deferred
  | .pull | .tick => True

/-! ## What every run keeps -/

/-- The values given to the consumer. -/
def given (s : State α ε) : List α := s.gen.results.filterMap Result.value?

/-- The value that was taken from its promise or will be. -/
def atHand (s : State α ε) : List α :=
  match s.gen.control with
  | .awaiting (.yielding v) => [v]
  | .awaiting (.deferred d) => match s.finished, (s.deferreds[d]?).join with
    | false, some (.value v) => [v]
    | _, _ => []
  | _ => []

structure Sound (s : State α ε) : Prop where
  length : s.deferreds.length = s.deferred + 1
  current : s.deferreds[s.deferred]? = some (if s.finished then some .undefined else none)
  finished : s.finished = true ↔ s.outcome = some .completed
  waiting : ∀ w, s.gen.control = .awaiting w → 0 < s.gen.pulls
  idle : s.gen.control = .suspended → s.gen.pulls = 0
  settled : ∀ d, s.gen.control = .awaiting (.deferred d) → d ≠ s.deferred →
    ∃ r, s.deferreds[d]? = some (some r) ∧
    ((∃ v, r = .value v) ∨ ∃ e, r = .rejected e ∧ s.outcome = some (.failed e))
  open_ : s.outcome = none → s.gen.control ≠ .finished ∧ ∀ r ∈ s.gen.results, ∃ v, r = .value v

variable {asError : ε → ε} {s s' t : State α ε}

/-- The generator goes on, by what it awaits. -/
inductive Ticks (s : State α ε) : State α ε → Prop where
  | throws (d : Nat) (e : ε) (at_ : s.gen.control = .awaiting (.deferred d))
    (there : s.deferreds[d]? = some (some (.rejected e))) : Ticks s { s with gen := s.gen.throw e }
  | resumes (d : Nat) (v : α) (at_ : s.gen.control = .awaiting (.deferred d))
    (there : s.deferreds[d]? = some (some (.value v))) (running : s.finished = false) :
    Ticks s { s with gen := { s.gen with control := .awaiting (.yielding v) } }
  | ends (d : Nat) (r : Settled α ε) (at_ : s.gen.control = .awaiting (.deferred d))
    (there : s.deferreds[d]? = some (some r)) (kind : ∀ e, r ≠ .rejected e) (ended : s.finished = true) :
    Ticks s { s with gen := s.gen.finish }
  | yields (v : α) (at_ : s.gen.control = .awaiting (.yielding v)) :
    Ticks s (if (s.gen.yieldValue v).pulls = 0 then { s with gen := s.gen.yieldValue v }
      else s.loop (s.gen.yieldValue v))

theorem tick_ticks (moved : s.tick = some s') : Ticks s s' := by
  unfold tick at moved
  split at moved
  · next d at_ =>
    split at moved
    · cases moved
    · next e found => cases moved; exact .throws d e at_ (Option.join_eq_some_iff.1 found)
    · next v found =>
      have here := Option.join_eq_some_iff.1 found
      split at moved
      · next ended => cases moved; exact .ends d _ at_ here (fun e same => (by cases same)) ended
      · next more => cases moved; exact .resumes d v at_ here (by simpa using more)
    · next found =>
      have here := Option.join_eq_some_iff.1 found
      split at moved
      · next ended => cases moved; exact .ends d _ at_ here (fun e same => (by cases same)) ended
      · cases moved
  · next v at_ => cases moved; exact .yields v at_
  · cases moved

theorem Sound.running (h : Sound s) (open_ : s.outcome = none) : s.finished = false := by
  cases ended : s.finished with
  | false => rfl
  | true =>
    have done := h.finished.1 ended
    rw [open_] at done
    cases done

/-- The promises after an emission. -/
theorem Sound.replaced (h : Sound s) (open_ : s.outcome = none) (r : Settled α ε) {d : Nat}
    (old : d < s.deferreds.length) :
    (s.replace r).deferreds[d]? = if d = s.deferred then some (some r) else s.deferreds[d]? := by
  have unsettled := h.current
  simp only [h.running open_, Bool.false_eq_true, if_false] at unsettled
  have bound : d < (s.settle r).length := by simpa [settle] using old
  simp only [replace]
  rw [List.getElem?_append_left bound, settle, List.getElem?_modify]
  by_cases same : s.deferred = d
  · subst same
    simp [unsettled]
  · simp [same, Ne.symm same]

theorem Sound.settled_lt (h : Sound s) {d : Nat} (at_ : s.gen.control = .awaiting (.deferred d)) :
    d < s.deferreds.length := by
  by_cases same : d = s.deferred
  · have := h.length
    omega
  · obtain ⟨r, there, -⟩ := h.settled d at_ same
    exact (List.getElem?_eq_some_iff.1 there).1

theorem atHand_awaiting {d : Nat} (at_ : s.gen.control = .awaiting (.deferred d)) :
    s.atHand = match s.finished, (s.deferreds[d]?).join with
      | false, some (.value v) => [v]
      | _, _ => [] := by
  unfold atHand
  rw [at_]

theorem atHand_current (h : Sound s) (waits : s.Waits) : s.atHand = [] := by
  rw [atHand_awaiting waits, h.current]
  cases s.finished <;> rfl

theorem atHand_replace (h : Sound s) (open_ : s.outcome = none) (r : Settled α ε) :
    (s.Waits → (s.replace r).atHand = match r with | .value v => [v] | _ => []) ∧
      (¬s.Waits → (s.replace r).atHand = s.atHand) := by
  have running : (s.replace r).finished = false := h.running open_
  constructor
  · intro waits
    have at_ : (s.replace r).gen.control = .awaiting (.deferred s.deferred) := waits
    rw [atHand_awaiting at_, running, h.replaced open_ r (h.settled_lt waits)]
    cases r <;> simp
  · intro away
    unfold atHand
    change (match s.gen.control with
      | .awaiting (.yielding v) => [v]
      | .awaiting (.deferred d) => match s.finished, ((s.replace r).deferreds[d]?).join with
        | false, some (.value v) => [v]
        | _, _ => []
      | _ => []) = _
    split
    · rfl
    · next d at_ =>
      have other : d ≠ s.deferred := by
        rintro rfl
        exact away at_
      rw [h.replaced open_ r (h.settled_lt at_), if_neg other]
    · rfl

/-- Completion leaves at hand only what is being yielded. -/
theorem atHand_complete (s : State α ε) :
    ({ s with finished := true, deferreds := s.settle .undefined, outcome := some .completed } :
      State α ε).atHand =
      match s.gen.control with | .awaiting (.yielding v) => [v] | _ => [] := by
  unfold atHand
  dsimp only
  split <;> simp_all

theorem atHand_loop (h : Sound s) (g : AsyncGenerator (Wait α) α ε) : (s.loop g).atHand = [] := by
  unfold atHand State.loop
  dsimp only
  rw [h.current]
  cases s.finished <;> rfl

/-- An emission, whether the generator waits for it or not. -/
theorem Sound.emission (h : Sound s) (open_ : s.outcome = none) {r : Settled α ε} {emitted : List α}
    {outcome : Option (Ending ε)} (going : outcome ≠ some .completed)
    (kind : (∃ v, r = .value v) ∨ ∃ e, r = .rejected e ∧ outcome = some (.failed e)) :
    Sound { s.replace r with emitted, outcome } where
  length := by simp [replace, settle]
  current := by
    have running : (s.replace r).finished = false := h.running open_
    have last : (s.replace r).deferreds[(s.replace r).deferred]? = some none := by
      simp [replace, settle]
    simpa [running] using last
  finished := by
    have running : (s.replace r).finished = false := h.running open_
    simp [running, going]
  waiting := h.waiting
  idle := h.idle
  settled := by
    intro d at_ _
    have there := h.replaced open_ r (h.settled_lt at_)
    by_cases same : d = s.deferred
    · rw [if_pos same] at there
      exact ⟨r, there, kind⟩
    · obtain ⟨r', before, old⟩ := h.settled d at_ same
      rw [if_neg same, before] at there
      refine ⟨r', there, old.imp_right ?_⟩
      rintro ⟨e, -, failed⟩
      rw [open_] at failed
      cases failed
  open_ _ := h.open_ open_

theorem Sound.complete (h : Sound s) (open_ : s.outcome = none) :
    Sound { s with finished := true, deferreds := s.settle .undefined, outcome := some .completed } where
  length := by simp [settle, h.length]
  current := by
    have unsettled := h.current
    simp only [h.running open_, Bool.false_eq_true, if_false] at unsettled
    simp [settle, unsettled]
  finished := by simp
  waiting := h.waiting
  idle := h.idle
  settled := by
    intro d at_ other
    obtain ⟨r, there, old⟩ := h.settled d at_ other
    refine ⟨r, ?_, old.imp_right ?_⟩
    · simp only [settle]
      rw [List.getElem?_modify_ne _ _ (Ne.symm other)]
      exact there
    · rintro ⟨e, -, failed⟩
      rw [open_] at failed
      cases failed
  open_ ended := by cases ended

/-- Back at `await deferred`. -/
theorem Sound.loop (h : Sound s) {g : AsyncGenerator (Wait α) α ε} (waiting : 0 < g.pulls)
    (open_ : s.outcome = none → ∀ r ∈ g.results, ∃ v, r = .value v) : Sound (s.loop g) := by
  refine ⟨h.length, h.current, h.finished, fun _ _ => waiting, fun idle => (by cases idle),
    fun d at_ other => ?_,
    fun still => ⟨fun ended => (by cases ended), open_ still⟩⟩
  cases at_
  exact absurd rfl other

/-- The end of the generator, once the Observable has ended. -/
theorem Sound.ended (h : Sound s) (closed : s.outcome ≠ none) {g : AsyncGenerator (Wait α) α ε}
    (control : g.control = .finished) :
    Sound { s with gen := g } := by
  refine ⟨h.length, h.current, h.finished, fun w at_ => ?_, fun idle => ?_, fun d at_ => ?_,
    fun open_ => absurd open_ closed⟩
  · rw [control] at at_; cases at_
  · rw [control] at idle; cases idle
  · rw [control] at at_; cases at_

/-- What is rejected is the error of the Observable. -/
theorem Sound.rejected (h : Sound s) {d : Nat} {e : ε} (at_ : s.gen.control = .awaiting (.deferred d))
    (there : s.deferreds[d]? = some (some (.rejected e))) : s.outcome = some (.failed e) := by
  by_cases same : d = s.deferred
  · subst same
    rw [h.current] at there
    split at there <;> cases there
  · obtain ⟨r, there', kind⟩ := h.settled d at_ same
    rw [there] at there'
    cases there'
    rcases kind with ⟨v, same⟩ | ⟨e', same, failed⟩
    · cases same
    · cases same; exact failed

theorem Sound.pull (h : Sound s) : Sound s.pull := by
  unfold State.pull
  cases at_ : s.gen.control with
  | suspended => exact h.loop (Nat.succ_pos _) (fun open_ => (h.open_ open_).2)
  | awaiting w =>
    refine ⟨h.length, h.current, h.finished, fun _ _ => Nat.succ_pos _, fun idle => ?_, h.settled, h.open_⟩
    rw [at_] at idle; cases idle
  | finished => exact h.ended (fun open_ => (h.open_ open_).1 at_) at_

theorem Sound.tick (h : Sound s) (moved : s.tick = some s') : Sound s' := by
  cases tick_ticks moved with
  | throws d e at_ there =>
    exact h.ended (by rw [h.rejected at_ there]; exact fun same => by cases same) rfl
  | resumes d v at_ there running =>
    exact ⟨h.length, h.current, h.finished, fun _ _ => h.waiting _ at_, fun idle => (by cases idle),
      fun d at_ => (by cases at_),
      fun open_ => ⟨fun ended => (by cases ended), (h.open_ open_).2⟩⟩
  | ends d r at_ there kind ended =>
    exact h.ended (by rw [h.finished.1 ended]; exact fun same => by cases same) rfl
  | yields v at_ =>
    have values : s.outcome = none → ∀ r ∈ (s.gen.yieldValue v).results, ∃ v, r = .value v := by
      intro open_ r member
      rcases List.mem_append.1 member with old | new
      · exact (h.open_ open_).2 r old
      · exact ⟨v, List.mem_singleton.1 new⟩
    split
    · next idle =>
      exact ⟨h.length, h.current, h.finished, fun w waiting => (by cases waiting), fun _ => idle,
        fun d waiting => (by cases waiting),
        fun open_ => ⟨fun ended => (by cases ended), values open_⟩⟩
    · next more => exact h.loop (Nat.pos_of_ne_zero more) values

inductive Moves (asError : ε → ε) (s : State α ε) : Act α ε → State α ε → Prop where
  | next (v : α) (open_ : s.outcome = none) :
    Moves asError s (.next v) { s.replace (.value v) with emitted := s.emitted ++ [v] }
  | error (e : ε) (open_ : s.outcome = none) : Moves asError s (.error e)
      { s.replace (.rejected (asError e)) with outcome := some (.failed (asError e)) }
  | complete (open_ : s.outcome = none) : Moves asError s .complete
      { s with finished := true, deferreds := s.settle .undefined, outcome := some .completed }
  | pull : Moves asError s .pull s.pull
  | tick {s' : State α ε} (ticked : s.tick = some s') : Moves asError s .tick s'

theorem step_moves {a : Act α ε} (moved : step asError s a = some s') : Moves asError s a s' := by
  cases a with
  | next v =>
    simp only [step, Option.isNone_iff_eq_none] at moved
    split at moved
    · next open_ => cases moved; exact .next v open_
    · cases moved
  | error e =>
    simp only [step, Option.isNone_iff_eq_none] at moved
    split at moved
    · next open_ => cases moved; exact .error e open_
    · cases moved
  | complete =>
    simp only [step, Option.isNone_iff_eq_none] at moved
    split at moved
    · next open_ => cases moved; exact .complete open_
    · cases moved
  | pull => cases moved; exact .pull
  | tick => exact .tick moved

theorem Sound.step {a : Act α ε} (h : Sound s) (moved : step asError s a = some s') : Sound s' := by
  cases step_moves moved with
  | next v open_ => exact h.emission open_ (by simp [replace, open_]) (.inl ⟨v, rfl⟩)
  | error e open_ => exact h.emission open_ (by simp) (.inr ⟨_, rfl, rfl⟩)
  | complete open_ => exact h.complete open_
  | pull => exact h.pull
  | tick moved => exact h.tick moved

/-! ## Losing a value -/

/-- The values that were given to the consumer or will be. -/
def kept (s : State α ε) : Nat := s.given.length + s.atHand.length

theorem given_value {g : AsyncGenerator (Wait α) α ε} (v : α) :
    (g.yieldValue v).results.filterMap Result.value? = g.results.filterMap Result.value? ++ [v] := by
  simp [AsyncGenerator.yieldValue, Result.value?]

theorem given_done (results : List (Result α ε)) (n : Nat) :
    (results ++ List.replicate n (.done : Result α ε)).filterMap Result.value? = results.filterMap Result.value? := by
  rw [List.filterMap_append, List.append_right_eq_self, List.filterMap_eq_nil_iff]
  intro r member
  rw [List.eq_of_mem_replicate member]
  rfl

theorem given_error {g : AsyncGenerator (Wait α) α ε} (e : ε) :
    (g.throw e).results.filterMap Result.value? = g.results.filterMap Result.value? := by
  have split : (g.throw e).results =
      (g.results ++ [.error e]) ++ List.replicate (g.pulls - 1) (.done : Result α ε) := by
    simp [AsyncGenerator.throw]
  rw [split, given_done]
  simp [Result.value?]

theorem kept_pull (h : Sound s) : s.pull.kept ≤ s.kept := by
  unfold State.pull
  cases at_ : s.gen.control with
  | suspended =>
    dsimp only
    rw [kept, atHand_loop h]
    exact Nat.le_add_right _ _
  | awaiting w => exact Nat.le_refl _
  | finished =>
    have same : ({ s with gen := { s.gen with results := s.gen.results ++ [.done] } } : State α ε).given = s.given :=
      given_done s.gen.results 1
    unfold kept
    rw [same]
    exact Nat.le_refl _

theorem kept_tick (h : Sound s) (moved : s.tick = some s') : s'.kept ≤ s.kept ∧ s'.emitted = s.emitted := by
  cases tick_ticks moved with
  | throws d e at_ there =>
    have same : ({ s with gen := s.gen.throw e } : State α ε).given = s.given := given_error e
    refine ⟨?_, rfl⟩
    rw [kept, same]
    exact Nat.le_add_right _ _
  | resumes d v at_ there running =>
    have hand : s.atHand = [v] := by
      rw [atHand_awaiting at_, running, there]
      rfl
    refine ⟨?_, rfl⟩
    unfold kept
    rw [hand]
    exact Nat.le_refl _
  | ends d r at_ there kind ended =>
    have same : ({ s with gen := s.gen.finish } : State α ε).given = s.given := given_done _ _
    refine ⟨?_, rfl⟩
    rw [kept, same]
    exact Nat.le_add_right _ _
  | yields v at_ =>
    have hand : s.atHand = [v] := by
      unfold atHand
      rw [at_]
    have more : ((s.gen.yieldValue v).results.filterMap Result.value?).length = s.kept := by
      rw [given_value, List.length_append, kept, hand]
      rfl
    split
    · refine ⟨?_, rfl⟩
      rw [← more]
      exact Nat.le_refl _
    · refine ⟨?_, rfl⟩
      rw [kept, atHand_loop h, ← more]
      exact Nat.le_refl _

/-- A step keeps at most one value more for each that is emitted. -/
theorem kept_step {a : Act α ε} (h : Sound s) (moved : step asError s a = some s') :
    s'.kept + s.emitted.length ≤ s.kept + s'.emitted.length := by
  cases step_moves moved with
  | next v open_ =>
    have same : ({ s.replace (.value v) with emitted := s.emitted ++ [v] } : State α ε).kept =
        s.given.length + (s.replace (.value v)).atHand.length := rfl
    rw [same, List.length_append, List.length_singleton, kept]
    by_cases waits : s.Waits
    · rw [(atHand_replace h open_ _).1 waits, List.length_singleton]
      omega
    · rw [(atHand_replace h open_ _).2 waits]
      omega
  | error e open_ =>
    have same : ({ s.replace (.rejected (asError e)) with
        outcome := some (.failed (asError e)) } : State α ε).kept =
        s.given.length + (s.replace (.rejected (asError e))).atHand.length := rfl
    refine Nat.add_le_add_right ?_ _
    rw [same, kept]
    by_cases waits : s.Waits
    · rw [(atHand_replace h open_ _).1 waits]
      exact Nat.add_le_add_left (Nat.zero_le _) _
    · rw [(atHand_replace h open_ _).2 waits]
  | complete open_ =>
    refine Nat.add_le_add_right (Nat.add_le_add_left ?_ _) _
    rw [atHand_complete]
    unfold atHand
    split
    · simp_all
    · simp
  | pull =>
    have emitted : s.pull.emitted = s.emitted := by
      unfold State.pull
      split <;> rfl
    rw [emitted]
    exact Nat.add_le_add_right (kept_pull h) _
  | tick moved =>
    obtain ⟨less, same⟩ := kept_tick h moved
    rw [same]
    exact Nat.add_le_add_right less _

/-! ## Runs that lose nothing -/

structure Good (s : State α ε) : Prop where
  order : s.gen.control ≠ .finished → s.gen.results = s.given.map .value ∧ s.given ++ s.atHand = s.emitted
  exact_ : s.gen.control = .finished → s.Exact
  failed : ∀ e, s.outcome = some (.failed e) → s.gen.control ≠ .finished →
    ∃ d, s.gen.control = .awaiting (.deferred d) ∧ s.deferreds[d]? = some (some (.rejected e))
  completed : s.finished = true → ∀ d, s.gen.control = .awaiting (.deferred d) → d = s.deferred

theorem Good.next (good : Good s) (h : Sound s) (open_ : s.outcome = none) (waits : s.Waits) (v : α) :
    Good { s.replace (.value v) with emitted := s.emitted ++ [v] } := by
  have control : s.gen.control ≠ .finished := (h.open_ open_).1
  obtain ⟨results, emitted⟩ := good.order control
  rw [atHand_current h waits, List.append_nil] at emitted
  refine ⟨fun _ => ⟨results, ?_⟩, fun ended => absurd ended control, fun e failed => ?_, fun ended => ?_⟩
  · have hand := (atHand_replace h open_ (.value v)).1 waits
    change s.given ++ (s.replace (.value v)).atHand = s.emitted ++ [v]
    rw [hand, emitted]
  · have failed : s.outcome = some (.failed e) := failed
    rw [open_] at failed
    cases failed
  · have ended : s.finished = true := ended
    rw [h.running open_] at ended
    cases ended

theorem Good.error (good : Good s) (h : Sound s) (open_ : s.outcome = none) (waits : s.Waits) (e : ε) :
    Good { s.replace (.rejected e) with outcome := some (.failed e) } := by
  have control : s.gen.control ≠ .finished := (h.open_ open_).1
  obtain ⟨results, emitted⟩ := good.order control
  rw [atHand_current h waits] at emitted
  refine ⟨fun _ => ⟨results, ?_⟩, fun ended => absurd ended control, fun e' failed _ => ?_, fun ended => ?_⟩
  · have hand := (atHand_replace h open_ (.rejected e)).1 waits
    change s.given ++ (s.replace (.rejected e)).atHand = s.emitted
    rw [hand, emitted]
  · cases failed
    refine ⟨s.deferred, waits, ?_⟩
    have there := h.replaced open_ (.rejected e) (h.settled_lt waits)
    rwa [if_pos rfl] at there
  · have ended : s.finished = true := ended
    rw [h.running open_] at ended
    cases ended

theorem Good.complete (good : Good s) (h : Sound s) (open_ : s.outcome = none)
    (taken : ∀ d, s.gen.control = .awaiting (.deferred d) → d = s.deferred) :
    Good { s with finished := true, deferreds := s.settle .undefined, outcome := some .completed } := by
  have control : s.gen.control ≠ .finished := (h.open_ open_).1
  obtain ⟨results, emitted⟩ := good.order control
  refine ⟨fun _ => ⟨results, ?_⟩, fun ended => absurd ended control,
    fun e failed => (by cases failed), fun _ => taken⟩
  rw [atHand_complete]
  change s.given ++ _ = s.emitted
  rw [← emitted, List.append_cancel_left_eq]
  cases at_ : s.gen.control with
  | suspended => unfold atHand; rw [at_]
  | finished => exact absurd at_ control
  | awaiting w =>
    cases w with
    | yielding v => unfold atHand; rw [at_]
    | deferred d =>
      have waits : s.Waits := by rw [Waits, at_, taken d at_]
      rw [atHand_current h waits]

theorem Good.pull (good : Good s) (h : Sound s) : Good s.pull := by
  unfold State.pull
  cases at_ : s.gen.control with
  | suspended =>
    have control : s.gen.control ≠ .finished := by rw [at_]; exact fun same => by cases same
    obtain ⟨results, emitted⟩ := good.order control
    refine ⟨fun _ => ⟨results, ?_⟩, fun ended => (by cases ended), fun e failed _ => ?_,
      fun _ d same => by cases same; rfl⟩
    · have hand : s.atHand = [] := by unfold atHand; rw [at_]
      rw [atHand_loop h]
      rw [hand] at emitted
      exact emitted
    · obtain ⟨d, waiting, -⟩ := good.failed e failed control
      rw [at_] at waiting
      cases waiting
  | awaiting w => exact ⟨good.order, good.exact_, good.failed, good.completed⟩
  | finished =>
    obtain ⟨last, more, ended, results⟩ := good.exact_ at_
    refine ⟨fun open_ => absurd at_ open_, fun _ => ⟨last, more + 1, ended, ?_⟩,
      fun e _ open_ => absurd at_ open_, fun _ d waiting => ?_⟩
    · dsimp only
      rw [results, List.append_assoc, List.cons_append, List.replicate_succ']
    · have waiting : s.gen.control = .awaiting (.deferred d) := waiting
      rw [at_] at waiting
      cases waiting

theorem Good.tick (good : Good s) (h : Sound s) (moved : s.tick = some s') : Good s' := by
  cases tick_ticks moved with
  | throws d e at_ there =>
    obtain ⟨results, emitted⟩ := good.order (by rw [at_]; exact fun same => by cases same)
    have hand : s.atHand = [] := by
      rw [atHand_awaiting at_, there]
      cases s.finished <;> rfl
    rw [hand, List.append_nil] at emitted
    have failed := h.rejected at_ there
    refine ⟨fun open_ => absurd rfl open_, fun _ => ⟨.failed e, s.gen.pulls - 1, failed, ?_⟩,
      fun _ _ open_ => absurd rfl open_,
      fun _ d waiting => by cases waiting⟩
    simp only [AsyncGenerator.throw, Ending.result]
    rw [results, emitted]
  | resumes d v at_ there running =>
    have control : s.gen.control ≠ .finished := by rw [at_]; exact fun same => by cases same
    obtain ⟨results, emitted⟩ := good.order control
    have hand : s.atHand = [v] := by
      rw [atHand_awaiting at_, running, there]
      rfl
    refine ⟨fun _ => ⟨results, ?_⟩, fun ended => (by cases ended), fun e failed _ => ?_,
      fun _ d waiting => by cases waiting⟩
    · rw [← emitted, hand]
      rfl
    · obtain ⟨d', at_', there'⟩ := good.failed e failed control
      rw [at_] at at_'
      cases at_'
      rw [there] at there'
      cases there'
  | ends d r at_ there kind ended =>
    obtain ⟨results, emitted⟩ := good.order (by rw [at_]; exact fun same => by cases same)
    have hand : s.atHand = [] := by
      rw [atHand_awaiting at_, ended]
    rw [hand, List.append_nil] at emitted
    have waiting := h.waiting _ at_
    refine ⟨fun open_ => absurd rfl open_,
      fun _ => ⟨.completed, s.gen.pulls - 1, h.finished.1 ended, ?_⟩,
      fun _ _ open_ => absurd rfl open_,
      fun _ d waiting => by cases waiting⟩
    simp only [AsyncGenerator.finish, Ending.result]
    rw [results, emitted, ← List.replicate_succ, Nat.sub_add_cancel waiting]
  | yields v at_ =>
    have control : s.gen.control ≠ .finished := by rw [at_]; exact fun same => by cases same
    obtain ⟨results, emitted⟩ := good.order control
    have hand : s.atHand = [v] := by
      unfold atHand
      rw [at_]
    rw [hand] at emitted
    have noError : ∀ e, s.outcome ≠ some (.failed e) := by
      intro e failed
      obtain ⟨d, waiting, -⟩ := good.failed e failed control
      rw [at_] at waiting
      cases waiting
    have more : (s.gen.yieldValue v).results =
      ((s.gen.yieldValue v).results.filterMap Result.value?).map .value ∧
        (s.gen.yieldValue v).results.filterMap Result.value? = s.emitted := by
      rw [given_value]
      refine ⟨?_, emitted⟩
      simp only [AsyncGenerator.yieldValue, List.map_append, List.map_cons, List.map_nil]
      exact congrArg (· ++ [.value v]) results
    split
    · refine ⟨fun _ => ⟨more.1, ?_⟩, fun ended => (by cases ended),
        fun e failed => absurd failed (noError e), fun _ d waiting => by cases waiting⟩
      exact (List.append_nil _).trans more.2
    · refine ⟨fun _ => ⟨more.1, ?_⟩, fun ended => (by cases ended),
        fun e failed => absurd failed (noError e), fun _ d waiting => by cases waiting; rfl⟩
      rw [atHand_loop h]
      exact (List.append_nil _).trans more.2

theorem Good.step {a : Act α ε} (good : Good s) (h : Sound s) (taken : s.Taken a)
    (moved : step asError s a = some s') :
    Good s' := by
  cases step_moves moved with
  | next v open_ => exact good.next h open_ taken v
  | error e open_ => exact good.error h open_ taken (asError e)
  | complete open_ => exact good.complete h open_ taken
  | pull => exact good.pull h
  | tick moved => exact good.tick h moved

/-- At rest, a good generator that is not left at a `yield` has given all. -/
theorem Good.exact (good : Good s) (h : Sound s) (ended : s.outcome ≠ none) (rest : s.tick = none)
    (asked : s.gen.control ≠ .suspended) : s.Exact := by
  cases at_ : s.gen.control with
  | suspended => exact absurd at_ asked
  | finished => exact good.exact_ at_
  | awaiting w =>
    exfalso
    have control : s.gen.control ≠ .finished := by rw [at_]; exact fun same => by cases same
    cases w with
    | yielding v => simp [State.tick, at_] at rest
    | deferred d =>
      obtain ⟨last, closed⟩ := Option.ne_none_iff_exists'.1 ended
      cases finished : s.finished with
      | true =>
        have there := h.current
        rw [← good.completed finished d at_, finished] at there
        simp [State.tick, at_, there, finished] at rest
      | false =>
        have notDone : s.outcome ≠ some .completed := by
          intro done
          rw [h.finished.2 done] at finished
          cases finished
        have there : ∃ e, s.deferreds[d]? = some (some (.rejected e)) := by
          cases last with
          | completed => exact absurd closed notDone
          | failed e =>
            obtain ⟨d', waiting, there⟩ := good.failed e closed control
            rw [at_] at waiting
            cases waiting
            exact ⟨e, there⟩
        obtain ⟨e, there⟩ := there
        simp [State.tick, at_, there] at rest

/-! ## Runs that lose something -/

/-- The error of the Observable will not be thrown. -/
structure Missed (s : State α ε) : Prop where
  failed : ∃ e, s.outcome = some (.failed e)
  never : ∀ e, .error e ∉ s.gen.results
  away : ∀ d e, s.gen.control = .awaiting (.deferred d) → s.deferreds[d]? ≠ some (some (.rejected e))

/-- A value was dropped, or the error will be. -/
def Lost (s : State α ε) : Prop := s.kept < s.emitted.length ∨ Missed s

theorem Missed.step {a : Act α ε} (missed : Missed s) (h : Sound s)
    (moved : step asError s a = some s') : Missed s' := by
  obtain ⟨e, failed⟩ := missed.failed
  have closed : s.outcome ≠ none := by rw [failed]; exact fun same => by cases same
  have current : ∀ e, s.deferreds[s.deferred]? ≠ some (some (.rejected e)) := by
    intro e same
    rw [h.current] at same
    split at same <;> cases same
  cases step_moves moved with
  | next v open_ => exact absurd open_ closed
  | error e open_ => exact absurd open_ closed
  | complete open_ => exact absurd open_ closed
  | pull =>
    unfold State.pull
    split
    · exact ⟨missed.failed, missed.never, fun d e at_ => by cases at_; exact current e⟩
    · exact ⟨missed.failed, missed.never, missed.away⟩
    · refine ⟨missed.failed, fun e member => ?_, missed.away⟩
      rcases List.mem_append.1 member with old | new
      · exact missed.never e old
      · simp at new
  | tick moved =>
    cases tick_ticks moved with
    | throws d e at_ there => exact absurd there (missed.away d e at_)
    | resumes d v at_ there running => exact ⟨missed.failed, missed.never, fun d e at_ => by cases at_⟩
    | ends d r at_ there kind ended =>
      refine ⟨missed.failed, fun e member => ?_, fun d e at_ => by cases at_⟩
      rcases List.mem_append.1 member with old | new
      · exact missed.never e old
      · have same := List.eq_of_mem_replicate new
        cases same
    | yields v at_ =>
      have never : ∀ e, Result.error e ∉ (s.gen.yieldValue v).results := by
        intro e member
        rcases List.mem_append.1 member with old | new
        · exact missed.never e old
        · simp at new
      split
      · exact ⟨missed.failed, never, fun d e waiting => by cases waiting⟩
      · exact ⟨missed.failed, never, fun d e waiting => by cases waiting; exact current e⟩

theorem Lost.step {a : Act α ε} (lost : Lost s) (h : Sound s) (moved : step asError s a = some s') :
    Lost s' := by
  rcases lost with short | missed
  · have bound := kept_step h moved
    exact .inl (by omega)
  · exact .inr (missed.step h moved)

/-- An emission that is not waited for is lost, and a completion that comes
before a resumption loses the value. -/
theorem lost_of_not_taken {a : Act α ε} (h : Sound s) (count : s.kept ≤ s.emitted.length)
    (moved : step asError s a = some s') (missed : ¬s.Taken a) : Lost s' := by
  cases step_moves moved with
  | next v open_ =>
    refine .inl ?_
    have same : ({ s.replace (.value v) with emitted := s.emitted ++ [v] } : State α ε).kept =
        s.given.length + (s.replace (.value v)).atHand.length := rfl
    rw [same, (atHand_replace h open_ _).2 missed, List.length_append, List.length_singleton]
    exact Nat.lt_succ_of_le count
  | error e open_ =>
    refine .inr ⟨⟨_, rfl⟩, fun e member => ?_, fun d e' at_ there => ?_⟩
    · obtain ⟨v, same⟩ := (h.open_ open_).2 _ member
      cases same
    · have at_ : s.gen.control = .awaiting (.deferred d) := at_
      have other : d ≠ s.deferred := by
        rintro rfl
        exact missed at_
      have before := h.replaced open_ (.rejected (asError e)) (h.settled_lt at_)
      rw [if_neg other] at before
      have failed := h.rejected at_ (before.symm.trans there)
      rw [open_] at failed
      cases failed
  | complete open_ =>
    simp only [Taken, not_forall] at missed
    obtain ⟨d, at_, other⟩ := missed
    obtain ⟨r, there, kind⟩ := h.settled d at_ other
    rcases kind with ⟨v, rfl⟩ | ⟨e, -, failed⟩
    · refine .inl ?_
      have hand : s.atHand = [v] := by
        rw [atHand_awaiting at_, h.running open_, there]
        rfl
      rw [kept, hand] at count
      rw [kept, atHand_complete, at_]
      exact count
    · rw [open_] at failed
      cases failed
  | pull => exact absurd trivial missed
  | tick moved => exact absurd trivial missed

theorem Lost.not_exact (lost : Lost s) : ¬s.Exact := by
  rintro ⟨last, more, ended, results⟩
  rcases lost with short | missed
  · have given : s.emitted.length ≤ s.given.length := by
      rw [given, results, List.filterMap_append, List.length_append]
      have all : (s.emitted.map (Result.value : α → Result α ε)).filterMap Result.value? = s.emitted := by
        rw [List.filterMap_map]
        exact List.filterMap_some
      rw [all]
      exact Nat.le_add_right _ _
    unfold kept at short
    omega
  · obtain ⟨e, failed⟩ := missed.failed
    rw [ended] at failed
    cases failed
    exact missed.never e (by rw [results]; simp [Ending.result])

/-- Every run that does not lose something takes each step as it should. -/
theorem taken_or_lost {acts : List (Act α ε)} (h : Sound s) (count : s.kept ≤ s.emitted.length)
    (reached : run (step asError) s acts = some t) : StepsMeet (step asError) Taken s acts ∨ Lost t := by
  induction acts generalizing s with
  | nil => exact .inl trivial
  | cons a acts ih =>
    obtain ⟨s', moved, rest⟩ := run_cons.1 reached
    have next := h.step moved
    by_cases taken : s.Taken a
    · have bound := kept_step h moved
      exact (ih next (by omega) rest).imp_left (stepsMeet_cons taken moved)
    · refine .inr ?_
      exact (run_invariant (I := fun s => Sound s ∧ Lost s) ⟨next, lost_of_not_taken h count moved taken⟩
        (fun _ _ _ ih moved => ⟨ih.1.step moved, ih.2.step ih.1 moved⟩) rest).2

theorem sound_init : Sound ({} : State α ε) where
  length := rfl
  current := rfl
  finished := by simp
  waiting _ _ := Nat.one_pos
  idle same := by cases same
  settled d at_ other := by cases at_; exact absurd rfl other
  open_ _ := ⟨fun same => (by cases same), fun r member => absurd member List.not_mem_nil⟩

theorem good_init : Good ({} : State α ε) where
  order _ := ⟨rfl, rfl⟩
  exact_ same := by cases same
  failed e same := by cases same
  completed same := by cases same

/-- **What the generator loses**: when the Observable has ended and the
generator is at rest, with its consumer waiting or told the end, the consumer
was given exactly what was emitted and then the end if and only if every
emission came while the generator awaited it and the completion not between
the resolution of a value and its resumption. -/
theorem lossless_iff {acts : List (Act α ε)} (reached : run (step asError) {} acts = some t)
    (ended : t.outcome ≠ none)
    (rest : t.tick = none) (asked : t.gen.control ≠ .suspended) :
    t.Exact ↔ StepsMeet (step asError) Taken {} acts := by
  constructor
  · intro all
    exact (taken_or_lost sound_init (Nat.le_refl _) reached).resolve_right fun lost => lost.not_exact all
  · intro meet
    obtain ⟨h, good⟩ := run_invariant_of (I := fun s => Sound s ∧ Good s) ⟨sound_init, good_init⟩
      (fun _ _ _ ih taken moved => ⟨ih.1.step moved, ih.2.step ih.1 taken moved⟩) meet reached
    exact good.exact h ended rest asked

/-- One value, taken before the Observable completes. -/
theorem lossless_iff_sample :
    ∃ t, run (step id) ({} : State Nat String) [.next 1, .tick, .tick, .pull, .complete, .tick] = some t ∧
      (t.Exact ↔ StepsMeet (step id) Taken ({} : State Nat String)
        [.next 1, .tick, .tick, .pull, .complete, .tick]) :=
  ⟨_, rfl, lossless_iff rfl (by decide) rfl (by decide)⟩

/-- The second value is emitted while the consumer is busy with the first. -/
theorem loses_second_value :
    ∃ t, run (step id) ({} : State Nat String)
        [.next 1, .tick, .tick, .next 2, .pull, .complete, .tick] = some t ∧
      t.outcome ≠ none ∧ t.tick = none ∧ t.gen.control ≠ .suspended ∧
      t.gen.results = [.value 1, .done] ∧ ¬t.Exact := by
  refine ⟨_, rfl, by decide, rfl, by decide, rfl, ?_⟩
  rintro ⟨last, more, -, results⟩
  have second : some (Result.done : Result Nat String) = some (.value 2) := congrArg (·[1]?) results
  cases second

end State

end Fula.RnFula.ObservableToAsyncGenerator
