import Fula.AsyncLater.ChainParts

/-!
# When the first part of a partition ends

The pump of `partition` completes the first queue when it takes element number `index`, before it
counts it, or else when the source ends. So the consumer of the first part, who has the `index`
elements that there are for it, is told so only when the source says something more.

`firstEnds_iff` says in which states it is told.
-/

namespace Fula.AsyncLater.Chain
set_option autoImplicit false
open Lib IterateLater

variable {α ε : Type} {c c' t : Chain α ε} {i : Nat} {st : Partition α ε} {q : IterateLater α ε}

/-- `partitionFirst` of stage `i`. -/
def firstAt (c : Chain α ε) (i : Nat) : Option (IterateLater α ε) :=
  (c.stages[i]?).map (·.first)

/-- Without a further element from the iterable before the stage, the consumer of its first part
gets an answer to every call. -/
def FirstEnds (i : Nat) (c : Chain α ε) : Prop :=
  ∀ acts t q, (∀ a ∈ acts, a ≠ .pump i) → run step c acts = some t → firstAt t i = some q →
    q.tick noPromises = none → q.gen.pulls = 0

/-! ### What moves the first queue of a stage -/

theorem setStage_firstAt {j : Nat} {st' : Partition α ε} (at_ : c.stages[j]? = some st) :
    firstAt (c.setStage j st') i = if i = j then some st'.first else firstAt c i := by
  unfold firstAt
  rw [setStage_get at_]
  split <;> rfl

theorem pullUpstream_firstAt (j : Nat) : firstAt (c.pullUpstream j) i = firstAt c i := by
  cases j with
  | zero => rfl
  | succ j =>
    cases at_ : c.stages[j]? with
    | none => simp [pullUpstream, at_]
    | some st =>
      simp only [pullUpstream, at_, setStage_firstAt at_]
      split
      · next same => rw [same, firstAt, at_, Option.map_some]
      · rfl

theorem addStage_firstAt (n : Nat) (at_ : firstAt c i = some q) : firstAt (c.addStage n) i = some q := by
  obtain ⟨st, there, rfl⟩ := Option.map_eq_some_iff.1 at_
  have inside := (List.getElem?_eq_some_iff.1 there).1
  rw [firstAt, addStage, List.getElem?_append_left inside, there, Option.map_some]

/-- Only its consumer, its generator and its pump do. -/
theorem firstAt_step {a : Act} (at_ : firstAt c i = some q) (other : a ≠ .pump i) (moved : step c a = some c') :
    firstAt c' i = some q ∨ a = .pullFirst i ∧ firstAt c' i = some q.pull ∨
      ∃ q', a = .tickFirst i ∧ q.tick noPromises = some q' ∧ firstAt c' i = some q' := by
  cases step_moves moved with
  | yield => exact .inl at_
  | @pumpValue j st v there =>
    have apart : i ≠ j := fun same => other (by rw [same])
    exact .inl (by rw [pullUpstream_firstAt, setStage_firstAt there, if_neg apart, at_])
  | @pumpEnd j st r there =>
    have apart : i ≠ j := fun same => other (by rw [same])
    exact .inl (by rw [setStage_firstAt there, if_neg apart, at_])
  | @pullFirst j st there =>
    rw [setStage_firstAt there]
    by_cases same : i = j
    · subst same
      rw [firstAt, there] at at_
      cases at_
      exact .inr (.inl ⟨rfl, if_pos rfl⟩)
    · exact .inl (by rw [if_neg same, at_])
  | @tickFirst j st first there ticked =>
    rw [setStage_firstAt there]
    by_cases same : i = j
    · subst same
      rw [firstAt, there] at at_
      cases at_
      exact .inr (.inr ⟨first, rfl, ticked, if_pos rfl⟩)
    · exact .inl (by rw [if_neg same, at_])
  | pullLast => exact .inl (by rw [pullUpstream_firstAt, at_])
  | @tickSecond j st second there =>
    rw [setStage_firstAt there]
    left
    split
    · next same =>
      rw [same, firstAt, there] at at_
      exact at_
    · exact at_
  | @partition n => exact .inl (by rw [pullUpstream_firstAt, addStage_firstAt n at_])

/-! ### What it has been given does not change -/

/-- The first queue of stage `i` has been given these elements. -/
def Given (i : Nat) (ys : List α) (closed : Bool) (c : Chain α ε) : Prop :=
  ∃ q, firstAt c i = some q ∧ Holds noPromises (plains ys) closed q

variable {ys : List α} {closed : Bool}

theorem Given.step {a : Act} (h : Given i ys closed c) (other : a ≠ .pump i) (moved : Chain.step c a = some c') :
    Given i ys closed c' := by
  obtain ⟨q, at_, holds⟩ := h
  rcases firstAt_step at_ other moved with same | ⟨-, pulled⟩ | ⟨q', -, ticked, there⟩
  · exact ⟨q, same, holds⟩
  · exact ⟨q.pull, pulled, holds.pull⟩
  · exact ⟨q', there, holds.tick ticked⟩

theorem Given.run {acts : List Act} (h : Given i ys closed c) (others : ∀ a ∈ acts, a ≠ .pump i)
    (reached : Lib.run Chain.step c acts = some t) : Given i ys closed t :=
  run_invariant_acts h (fun _ _ _ h other moved => h.step other moved) others reached

theorem Given.firstEnds (h : Given i ys true c) : FirstEnds i c := by
  intro acts t q others reached at_ rests
  obtain ⟨q', there, holds⟩ := h.run others reached
  rw [at_, Option.some.injEq] at there
  subst there
  have answered : q.gen.results.length = q.gen.calls := by
    rw [holds.plain_served rests, served_length]
  have counted : q.gen.calls = q.gen.results.length + q.gen.pulls := rfl
  omega

theorem Given.pulls (h : Given i ys closed c) (n : Nat) :
    ∃ t q, Lib.run Chain.step c (List.replicate n (.pullFirst i)) = some t ∧ firstAt t i = some q ∧ n ≤ q.gen.calls := by
  induction n with
  | zero =>
    obtain ⟨q, at_, -⟩ := h
    exact ⟨c, q, rfl, at_, Nat.zero_le _⟩
  | succ n ih =>
    obtain ⟨t, q, reached, at_, called⟩ := ih
    obtain ⟨st, there, rfl⟩ := Option.map_eq_some_iff.1 at_
    rw [List.replicate_succ']
    refine ⟨t.setStage i { st with first := st.first.pull }, st.first.pull, run_snoc.2 ⟨t, reached, ?_⟩, ?_, ?_⟩
    · simp only [Chain.step, there, Option.map_some]
    · rw [setStage_firstAt there, if_pos rfl]
    · rw [calls_pull]
      omega

/-- The generator of the first part comes to rest. -/
theorem Given.quiet (h : Given i ys closed c) (at_ : firstAt c i = some q) :
    ∃ acts t q', (∀ a ∈ acts, a = .tickFirst i) ∧ Lib.run Chain.step c acts = some t ∧ firstAt t i = some q' ∧
      q'.tick noPromises = none ∧ q'.gen.calls = q.gen.calls := by
  have keep {m m' : Chain α ε} {a : Act} (only : a = .tickFirst i)
      (here : Given i ys closed m ∧ (firstAt m i).map (·.gen.calls) = some q.gen.calls) (moved : Chain.step m a = some m') :
      (Given i ys closed m' ∧ (firstAt m' i).map (·.gen.calls) = some q.gen.calls) ∧
        (firstAt m' i).elim 0 (·.pending) < (firstAt m i).elim 0 (·.pending) := by
    subst only
    obtain ⟨given, calls⟩ := here
    have given' := given.step (by simp) moved
    obtain ⟨r, there, holds⟩ := given
    simp only [Chain.step, Option.bind_eq_some_iff, Option.map_eq_some_iff] at moved
    obtain ⟨st, inside, first, ticked, rfl⟩ := moved
    obtain rfl : st.first = r := by simpa [firstAt, inside] using there
    rw [there, Option.map_some, Option.some.injEq] at calls
    refine ⟨⟨given', ?_⟩, ?_⟩
    · rw [setStage_firstAt inside, if_pos rfl, Option.map_some, holds.calls_tick ticked, calls]
    · rw [setStage_firstAt inside, if_pos rfl, there]
      exact pending_tick ticked
  obtain ⟨acts, t, only, reached, quiet⟩ := exists_quiet Chain.step (· = .tickFirst i) _ _
    (fun _ _ _ here only moved => keep only here moved) (s := c) ⟨h, by rw [at_, Option.map_some]⟩
  have last := run_invariant_acts (I := fun m => Given i ys closed m ∧ (firstAt m i).map (·.gen.calls) = some q.gen.calls)
    ⟨h, by rw [at_, Option.map_some]⟩ (fun _ _ _ here only moved => (keep only here moved).1) only reached
  obtain ⟨⟨q', there, -⟩, calls⟩ := last
  rw [there, Option.map_some, Option.some.injEq] at calls
  refine ⟨acts, t, q', only, reached, there, ?_, calls⟩
  obtain ⟨st, inside, rfl⟩ := Option.map_eq_some_iff.1 there
  simpa [Chain.step, inside] using quiet (.tickFirst i) rfl

/-- Of an open queue a call too many is not answered. -/
theorem Given.not_firstEnds (h : Given i ys false c) : ¬FirstEnds i c := by
  intro ends
  obtain ⟨m, q, pulls, at_, called⟩ := h.pulls (ys.length + 1)
  have given := h.run (fun a member => by rw [List.eq_of_mem_replicate member]; simp) pulls
  obtain ⟨ticks, t, q', only, further, there, rests, calls⟩ := given.quiet at_
  have others : ∀ a ∈ List.replicate (ys.length + 1) (.pullFirst i) ++ ticks, a ≠ .pump i := by
    intro a member
    rcases List.mem_append.1 member with pull | tick
    · rw [List.eq_of_mem_replicate pull]
      simp
    · rw [only a tick]
      simp
  have reached := run_append.2 ⟨m, pulls, further⟩
  have answered := ends _ t q' others reached there rests
  obtain ⟨q'', same, holds⟩ := h.run others reached
  rw [there, Option.some.injEq] at same
  subst same
  have results := congrArg List.length (holds.plain_served rests)
  simp only [served, Bool.false_eq_true, if_false, List.append_nil, List.length_map, List.length_take] at results
  have counted : q'.gen.calls = q'.gen.results.length + q'.gen.pulls := rfl
  omega

/-- Nor is it told of an end. -/
theorem Given.no_end (h : Given i ys false c) (at_ : firstAt c i = some q) : .done ∉ q.gen.results := by
  obtain ⟨q', there, holds⟩ := h
  rw [at_, Option.some.injEq] at there
  subst there
  intro member
  have inside := holds.plain_initial.subset member
  simp only [served, Bool.false_eq_true, if_false, List.append_nil] at inside
  obtain ⟨v, -, never⟩ := List.mem_map.1 inside
  cases never

variable {n : Nat} {xs : List α} {failure : Option ε} {acts : List Act}

/-- What the first queue of a stage has been given, in any run. -/
theorem given_of_run (reached : run step (init n xs failure) acts = some c) (at_ : c.stages[i]? = some st) :
    ∃ ys, Given i ys (decide (st.index < st.current) || st.loop.isFinished) c := by
  obtain ⟨inp, fed, -⟩ := (chain_run reached).inv.fed i st at_
  refine ⟨inp.take st.index, st.first, by rw [firstAt, at_, Option.map_some], ?_⟩
  rw [fed.current]
  exact fed.first

/-- The first part ends by itself when the pump has taken an element of the second part, or the end. -/
theorem firstEnds_iff (reached : run step (init n xs failure) acts = some c) (at_ : c.stages[i]? = some st) :
    FirstEnds i c ↔ st.index < st.current ∨ st.loop = .finished := by
  have isFinished_iff : st.loop.isFinished = true ↔ st.loop = .finished := by
    cases st.loop <;> simp [Loop.isFinished]
  obtain ⟨ys, given⟩ := given_of_run reached at_
  constructor
  · intro ends
    cases closed : decide (st.index < st.current) || st.loop.isFinished with
    | true => simpa [isFinished_iff] using closed
    | false =>
      rw [closed] at given
      exact absurd ends given.not_firstEnds
  · intro closed
    have flag : (decide (st.index < st.current) || st.loop.isFinished) = true := by simpa [isFinished_iff] using closed
    rw [flag] at given
    exact given.firstEnds

/-- **The first part waits for the tail**: where the pump has processed the `index` elements of the
first part and awaits the next one, its consumer is in no continuation told of the end until that
element arrives, and a call behind the elements is never answered. -/
theorem first_waits (reached : run step (init n xs failure) acts = some c) (at_ : c.stages[i]? = some st)
    (processed : st.current = st.index) (waiting : st.loop = .awaiting) :
    ¬FirstEnds i c ∧ ∀ more t q, (∀ a ∈ more, a ≠ .pump i) → run step c more = some t → firstAt t i = some q →
      .done ∉ q.gen.results := by
  refine ⟨fun ends => ?_, fun more t q others further there => ?_⟩
  · rcases (firstEnds_iff reached at_).1 ends with beyond | finished
    · omega
    · rw [waiting] at finished
      cases finished
  · obtain ⟨ys, given⟩ := given_of_run reached at_
    have open_ : (decide (st.index < st.current) || st.loop.isFinished) = false := by
      rw [waiting, processed]
      simp [Loop.isFinished]
    rw [open_] at given
    exact (given.run others further).no_end there

/-- Nothing at all belongs to the first part, and the source has not answered yet. -/
theorem first_waits_sample : ¬FirstEnds 0 (init 0 [7] (none : Option String)) ∧
    ∀ more t q, (∀ a ∈ more, a ≠ .pump 0) → run step (init 0 [7] (none : Option String)) more = some t →
      firstAt t 0 = some q → .done ∉ q.gen.results := by
  have reached : run step (init 0 [7] (none : Option String)) [] = some _ := rfl
  exact first_waits reached rfl rfl rfl

/-- The one element of the first part has been read, and the second call on it waits for element 8. -/
theorem second_call_waits : ∃ c, run step (init 1 [7, 8] (none : Option String)) [.yield, .pump 0] = some c ∧
    ¬FirstEnds 0 c := by
  refine ⟨_, rfl, fun ends => ?_⟩
  have answered := ends [.pullFirst 0, .tickFirst 0, .pullFirst 0] _ _ (by decide) rfl rfl rfl
  cases answered

end Fula.AsyncLater.Chain
