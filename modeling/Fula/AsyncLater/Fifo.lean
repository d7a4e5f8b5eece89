import Fula.Lib.Run
import Fula.AsyncLater.Delivery

/-!
# `iterateLater` is a lossless FIFO

One call of `iterateLater` under any interleaving of its producer (`next`,
`complete`), of the settlement of the promises pushed, of the consumer's calls
of `next()` and of the resumptions of the generator. The producer calls of a
run determine the cells of the queue (`queued`); `session_holds` carries
`Holds` through every run, and the FIFO statement is read off from it.
-/

namespace Fula.AsyncLater
set_option autoImplicit false
open Lib IterateLater

/-- One queue with its producer and consumer, and the promises pushed. -/
structure Session (α ε : Type) where
  later : IterateLater α ε
  settled : Settled α ε

inductive Act (α ε : Type) where
  | next (i : Item α)
  | complete
  | settle (p : Nat) (r : Except ε α)
  | pull
  | tick

/-- What the producer can call. -/
inductive Call (α : Type) where
  | next (i : Item α)
  | complete
  deriving DecidableEq, Repr

namespace Session

variable {α ε : Type}

def init : Session α ε := ⟨IterateLater.init, fun _ => none⟩

/-- A promise settles once; the generator is resumed only when its deferred has settled. -/
def step (s : Session α ε) : Act α ε → Option (Session α ε)
  | .next i => some { s with later := s.later.next i }
  | .complete => some { s with later := s.later.complete }
  | .settle p r =>
    if (s.settled p).isNone then
      some { s with settled := fun q => if q = p then some r else s.settled q }
    else none
  | .pull => some { s with later := s.later.pull }
  | .tick => (s.later.tick s.settled).map fun later => { s with later }

/-- The producer's part of an action. -/
def producer : Act α ε → Option (Call α)
  | .next i => some (.next i)
  | .complete => some .complete
  | _ => none

def isPull : Act α ε → Bool
  | .pull => true
  | _ => false

/-- The cells and the closed flag that a sequence of producer calls leaves. -/
def queued (calls : List (Call α)) : List (Resolution α) × Bool :=
  calls.foldl (fun q c => match c with
    | .next i => (pushed q.1 q.2 i, false)
    | .complete => (q.1, true)) ([], false)

theorem queued_snoc (calls : List (Call α)) (c : Call α) :
    queued (calls ++ [c]) = match c with
      | .next i => (pushed (queued calls).1 (queued calls).2 i, false)
      | .complete => ((queued calls).1, true) := by
  simp [queued, List.foldl_append]

/-- With no `next` after `complete`, the cells are the items. -/
theorem queued_items (items : List (Item α)) (k : Nat) :
    queued (items.map .next ++ List.replicate k .complete) = (items.map .item, decide (0 < k)) := by
  induction k with
  | zero =>
    induction items using List.reverseRecOn with
    | nil => rfl
    | append_singleton items i ih =>
      simp only [List.replicate_zero, List.append_nil] at ih
      simp [queued_snoc, ih, pushed]
  | succ k ih =>
    rw [List.replicate_succ', ← List.append_assoc, queued_snoc, ih]
    simp

/-- A settlement changes no promise that had settled before. -/
theorem settle_le {settled : Settled α ε} {p : Nat} (r : Except ε α) (open_ : (settled p).isNone) :
    Settled.le settled fun q => if q = p then some r else settled q := by
  intro q x h
  by_cases same : q = p
  · subst same; simp [h] at open_
  · simpa [same] using h

/-- What a run's actions leave: the cells pushed and the calls counted. -/
structure Inv (acts : List (Act α ε)) (s : Session α ε) : Prop where
  holds : Holds s.settled (queued (acts.filterMap producer)).1 (queued (acts.filterMap producer)).2 s.later
  calls : s.later.gen.calls = acts.countP isPull

theorem inv_step {acts : List (Act α ε)} {a : Act α ε} {s t : Session α ε} (h : Inv acts s)
    (moved : step s a = some t) : Inv (acts ++ [a]) t := by
  have count : (acts ++ [a]).countP isPull = acts.countP isPull + if isPull a then 1 else 0 := by
    simp [List.countP_append, List.countP_singleton]
  have made : (acts ++ [a]).filterMap producer = acts.filterMap producer ++ (producer a).toList := by
    cases a <;> simp [List.filterMap_append, producer]
  cases a with
  | next i =>
    cases moved
    refine ⟨?_, by rw [count]; exact h.calls⟩
    rw [made]; simp only [producer, Option.toList, queued_snoc]
    exact h.holds.next i
  | complete =>
    cases moved
    refine ⟨?_, by rw [count]; exact h.calls⟩
    rw [made]; simp only [producer, Option.toList, queued_snoc]
    exact h.holds.complete
  | settle p r =>
    simp only [step] at moved
    split at moved
    · rename_i open_
      cases moved
      refine ⟨?_, by rw [count]; exact h.calls⟩
      rw [made]; simp only [producer, Option.toList, List.append_nil]
      exact h.holds.settle (settle_le r open_)
    · cases moved
  | pull =>
    cases moved
    refine ⟨?_, by rw [count]; simp only [isPull, if_true]; rw [calls_pull, h.calls]⟩
    rw [made]; simp only [producer, Option.toList, List.append_nil]
    exact h.holds.pull
  | tick =>
    simp only [step, Option.map_eq_some_iff] at moved
    obtain ⟨later, ticked, rfl⟩ := moved
    refine ⟨?_, by rw [count]; simpa [isPull, h.calls] using h.holds.calls_tick ticked⟩
    rw [made]; simp only [producer, Option.toList, List.append_nil]
    exact h.holds.tick ticked

theorem session_holds {acts : List (Act α ε)} {s : Session α ε} (reached : run step init acts = some s) :
    Inv acts s :=
  run_history (I := Inv) ⟨holds_init _, rfl⟩ (fun _ _ _ _ => inv_step) reached

/-- **`iterateLater` is a lossless FIFO.** -/
theorem iterateLater_fifo (items : List (Item α)) (k : Nat) (acts : List (Act α ε)) {s : Session α ε}
    (reached : run step init acts = some s)
    (producers : acts.filterMap producer = items.map .next ++ List.replicate k .complete) :
    -- at every moment the consumer has a prefix of the items, in push order
    Received s.settled items (decide (0 < k)) s.later.gen.results ∧
    -- the generator comes to rest by itself
    (∃ n t, run step s (List.replicate n .tick) = some t ∧ step t .tick = none) ∧
    -- where it rests, nothing that could be delivered is held back
    (step s .tick = none →
      (∀ (j : Nat) (vs : List α), j ≤ items.length → j ≤ acts.countP isPull →
        (items.take j).map (fulfilled s.settled) = vs.map some → vs.map .value <+: s.later.gen.results) ∧
      (∀ vs : List α, 0 < k → items.map (fulfilled s.settled) = vs.map some → items.length < acts.countP isPull →
        s.later.gen.results = vs.map .value ++ List.replicate (acts.countP isPull - items.length) .done) ∧
      (∀ (j : Nat) (i : Item α) (e : ε) (vs : List α), items[j]? = some i → rejected s.settled i = some e →
        (items.take j).map (fulfilled s.settled) = vs.map some → j < acts.countP isPull →
        s.later.gen.results =
          vs.map .value ++ .error e :: List.replicate (acts.countP isPull - j - 1) .done)) := by
  have inv := session_holds reached
  have holds := inv.holds
  rw [producers, queued_items] at holds
  refine ⟨holds.received, ?_, ?_⟩
  · obtain ⟨as, t, only, rest, quiet⟩ := exists_quiet step (· = .tick) (fun _ => True)
      (fun s : Session α ε => s.later.pending) (by
        rintro s a t - rfl moved
        simp only [step, Option.map_eq_some_iff] at moved
        obtain ⟨later, ticked, rfl⟩ := moved
        exact ⟨trivial, pending_tick ticked⟩) trivial
    rw [List.eq_replicate_of_mem only] at rest
    exact ⟨as.length, t, rest, quiet .tick rfl⟩
  · intro rests
    have quiet : s.later.tick s.settled = none := by simpa [step] using rests
    rw [← inv.calls]
    refine ⟨fun j vs inside called first => delivers holds quiet inside called first, ?_, ?_⟩
    · intro vs completed all called
      rw [decide_eq_true completed] at holds
      exact completes holds quiet all called
    · intro j i e vs at_ error first called
      exact fails holds quiet at_ error first called

/-- A consumer that calls before, between and after the pushes, one of them a
promise that settles late. -/
def sampleActs : List (Act Nat String) :=
  [.pull, .next (.plain 1), .pull, .tick, .pull, .next (.promise 0), .complete, .settle 0 (.ok 2), .tick, .tick]

theorem iterateLater_fifo_sample :
    ∃ s, run step init sampleActs = some s ∧ s.later.gen.results = [.value 1, .value 2, .done] :=
  ⟨_, rfl, ((iterateLater_fifo [.plain 1, .promise 0] 1 sampleActs rfl rfl).2.2 rfl).2.1
    [1, 2] (by decide) rfl (by decide)⟩

end Session

end Fula.AsyncLater
