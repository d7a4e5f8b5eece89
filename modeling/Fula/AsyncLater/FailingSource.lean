import Fula.AsyncLater.ChainParts

/-!
# A source that fails

The pump of `partition` completes the two queues after its loop. When the source
throws, the loop is left by the exception, which rejects a promise that nobody
awaits: the second queue is never completed, and the first one only if an
element of the second part has come before.

`failing_source_iff` says which calls are answered all the same.
-/

namespace Fula.AsyncLater.Chain
set_option autoImplicit false
open Lib IterateLater

variable {α ε : Type}

/-- Every call on the part has its answer: the elements of its piece in order, and
after them ends or errors. -/
structure Complete (piece : List α) (q : IterateLater α ε) : Prop where
  answered : q.gen.pulls = 0
  elements : ∃ ends, q.gen.results = (piece.take q.gen.calls).map .value ++ ends ∧ ∀ r ∈ ends, r.value? = none

theorem complete_iff {piece : List α} {closed : Bool} {q : IterateLater α ε}
    (served_ : q.gen.results = served piece closed q.gen.calls) :
    Complete piece q ↔ closed = true ∨ q.gen.calls ≤ piece.length := by
  have counted : q.gen.results.length + q.gen.pulls = q.gen.calls := rfl
  rw [served_] at counted
  cases closed with
  | true =>
    rw [served_length] at counted
    refine iff_of_true ⟨by omega, _, served_, ?_⟩ (.inl rfl)
    intro r member
    rw [(List.mem_replicate.1 member).2]
    rfl
  | false =>
    simp only [served, Bool.false_eq_true, if_false, List.append_nil, List.length_map, List.length_take] at counted
    simp only [Bool.false_eq_true, false_or]
    constructor
    · intro complete
      have := complete.answered
      omega
    · intro few
      refine ⟨by omega, [], ?_, by simp⟩
      rw [served_]
      simp [served]

/-! ### The calls of a run -/

variable {n : Nat} {xs : List α} {failure : Option ε} {acts : List Act} {c c' : Chain α ε}

/-- The calls on the two parts are those that the consumers have made. -/
structure Called (acts : List Act) (c : Chain α ε) (st : Partition α ε) : Prop where
  only : c.stages = [st]
  first : st.first.gen.calls = acts.count (.pullFirst 0)
  second : st.second.gen.calls = acts.count .pullLast

theorem Called.step {st : Partition α ε} {a : Act} (h : Called acts c st) (inv : RunInv n xs failure acts c)
    (uncut : cutAt a = none) (moved : Chain.step c a = some c') : ∃ st', Called (acts ++ [a]) c' st' := by
  have program (inside : internal a) (other : a ≠ .pullFirst 0) (other' : a ≠ .pullLast) :
      ∃ st', Called (acts ++ [a]) c' st' := by
    obtain ⟨st', only, first, second⟩ := inv.internal h.only inside moved
    refine ⟨st', only, ?_, ?_⟩
    · rw [first, h.first, List.count_append, List.count_singleton, beq_eq_false_iff_ne.2 other]
      rfl
    · rw [second, h.second, List.count_append, List.count_singleton, beq_eq_false_iff_ne.2 other']
      rfl
  cases a with
  | yield => exact program trivial (by simp) (by simp)
  | pump i => exact program trivial (by simp) (by simp)
  | tickFirst i => exact program trivial (by simp) (by simp)
  | tickSecond i => exact program trivial (by simp) (by simp)
  | partition m => cases uncut
  | pullFirst i =>
    simp only [Chain.step, h.only, Option.map_eq_some_iff] at moved
    obtain ⟨st', at_, rfl⟩ := moved
    cases i with
    | succ i => cases at_
    | zero =>
      cases at_
      refine ⟨{ st with first := st.first.pull }, by simp [setStage, h.only], ?_, ?_⟩
      · rw [List.count_append, ← h.first]
        exact calls_pull st.first
      · rw [List.count_append, ← h.second]
        rfl
  | pullLast =>
    cases moved
    refine ⟨{ st with second := st.second.pull }, by simp [pullUpstream, setStage, h.only], ?_, ?_⟩
    · rw [List.count_append, ← h.first]
      rfl
    · rw [List.count_append, ← h.second]
      exact calls_pull st.second

theorem called_of_run (uncut : acts.filterMap cutAt = []) (reached : run step (init n xs failure) acts = some c) :
    ∃ st, Called acts c st := by
  induction acts using List.reverseRecOn generalizing c with
  | nil =>
    cases reached
    exact ⟨{ index := n }, rfl, rfl, rfl⟩
  | append_singleton acts a ih =>
    rw [List.filterMap_append, List.append_eq_nil_iff] at uncut
    obtain ⟨m, before, moved⟩ := run_snoc.1 reached
    obtain ⟨st, called⟩ := ih uncut.1 before
    refine called.step (chain_run before) ?_ moved
    simpa using uncut.2

/-- The program's own steps are no calls and no cuts. -/
theorem quiet_acts {as : List Act} (inside : ∀ a ∈ as, internal a) :
    as.filterMap cutAt = [] ∧ as.count (.pullFirst 0) = 0 ∧ as.count .pullLast = 0 := by
  refine ⟨List.filterMap_eq_nil_iff.2 fun a member => cutAt_internal (inside a member), ?_, ?_⟩
  · exact List.count_eq_zero.2 fun member => inside _ member
  · exact List.count_eq_zero.2 fun member => inside _ member

/-! ### What comes to rest -/

/-- Where the two parts come to rest, all their calls have been answered. -/
def Settles (n : Nat) (xs : List α) (c : Chain α ε) : Prop :=
  ∀ as t st, (∀ a ∈ as, internal a) → run step c as = some t → Quiet step internal t → t.stages = [st] →
    Complete (xs.take n) st.first ∧ Complete (xs.drop n) st.second

theorem complete_of_quiet {e : ε} {st : Partition α ε} (inv : RunInv n xs (some e) [] c) (called : Called acts c st)
    (quiet : Quiet step internal c) : Complete (xs.take n) st.first ∧ Complete (xs.drop n) st.second ↔
      (n < xs.length ∨ acts.count (.pullFirst 0) ≤ xs.length) ∧ acts.count .pullLast ≤ xs.length - n := by
  obtain ⟨first, second⟩ := inv.rests called.only quiet
  rw [complete_iff first, complete_iff second, called.first, called.second]
  simp only [Option.isNone_some, Bool.or_false, decide_eq_true_eq, Bool.false_eq_true, false_or, List.length_take,
    List.length_drop]
  omega

/-- **A failing source**: of a source that yields `xs` and throws, cut at `n`, both
consumers get all they call for, just when the consumer of the second part calls for no
more than its elements, and that of the first part neither, unless the second one has
elements. -/
theorem failing_source_iff {e : ε} (uncut : acts.filterMap cutAt = [])
    (reached : run step (init n xs (some e)) acts = some c) : Settles n xs c ↔
      (n < xs.length ∨ acts.count (.pullFirst 0) ≤ xs.length) ∧ acts.count .pullLast ≤ xs.length - n := by
  have rests (as : List Act) (t : Chain α ε) (inside : ∀ a ∈ as, internal a) (further : run step c as = some t) :
      RunInv n xs (some e) [] t ∧ ∃ st, Called acts t st := by
    have whole := run_append.2 ⟨c, reached, further⟩
    obtain ⟨uncut', first, second⟩ := quiet_acts inside
    have all : (acts ++ as).filterMap cutAt = [] := by rw [List.filterMap_append, uncut, uncut']; rfl
    have inv := chain_run whole
    obtain ⟨st, called⟩ := called_of_run all whole
    refine ⟨⟨inv.inv, by rw [inv.indices, all]; rfl, inv.elems, inv.failure⟩, st, called.only, ?_, ?_⟩
    · rw [called.first, List.count_append, first, Nat.add_zero]
    · rw [called.second, List.count_append, second, Nat.add_zero]
  constructor
  · intro settles
    obtain ⟨as, t, inside, further, quiet⟩ := exists_quiet step internal (Inv · none) measure
      (fun _ _ _ inv inside moved => ⟨inv_step inv moved, measure_step inv inside moved⟩) (chain_run reached).inv
    obtain ⟨inv, st, called⟩ := rests as t inside further
    exact (complete_of_quiet inv called quiet).1 (settles as t st inside further quiet called.only)
  · intro few as t st inside further quiet only
    obtain ⟨inv, st', called⟩ := rests as t inside further
    have same : st' = st := by simpa [only] using called.only.symm
    subst same
    exact (complete_of_quiet inv called quiet).2 few

/-- The one element of the first part is all that is called for. -/
theorem failing_source_iff_sample :
    ∃ c, run step (init 1 [7] (some "broken")) [.pullFirst 0] = some c ∧ Settles 1 [7] c := by
  have reached : run step (init 1 [7] (some "broken")) [.pullFirst 0] = some _ := rfl
  exact ⟨_, reached, (failing_source_iff rfl reached).2 (by decide)⟩

/-- One call on the second part: the source throws, and the call waits for ever. -/
theorem failing_source_waits :
    ∃ c, run step (init 1 [7] (some "broken")) [.pullLast] = some c ∧ ¬Settles 1 [7] c := by
  refine ⟨_, rfl, fun settles => ?_⟩
  have complete := (settles [.yield, .pump 0, .yield, .pump 0] _ _ (by decide) rfl ?_ rfl).2.answered
  · cases complete
  · intro a inside
    cases a with
    | yield => rfl
    | pump i => cases i <;> rfl
    | tickFirst i => cases i <;> rfl
    | tickSecond i => cases i <;> rfl
    | pullFirst i => exact inside.elim
    | pullLast => exact inside.elim
    | partition n => exact inside.elim

end Fula.AsyncLater.Chain
