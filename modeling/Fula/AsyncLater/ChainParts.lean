import Fula.AsyncLater.Chain

/-!
# The parts of a chain of partitions

Part `k` of a chain with the indices `ns` answers its consumer with piece `k`
of the source: at every moment with the first elements of the piece, and an
end only after all of them (`partition_chain`). The proof goes along the
chain: what stage `i + 1` is given is what the second queue of stage `i`
answers, so it is a prefix of the source after the indices so far.
-/

namespace Fula.AsyncLater
set_option autoImplicit false
open Lib IterateLater

namespace IterateLater

variable {α ε : Type}

/-- The answer to call number `k` when `ys` has been pushed. -/
def answerAt (ys : List α) (closed : Bool) (k : Nat) : Option (Result α ε) :=
  match ys[k]? with
  | some v => some (.value v)
  | none => if closed then some .done else none

theorem served_get (ys : List α) (closed : Bool) (n k : Nat) :
    (served (ε := ε) ys closed n)[k]? = if k < n then answerAt ys closed k else none := by
  unfold answerAt
  rcases Nat.lt_or_ge k ys.length with inside | outside
  · rcases Nat.lt_or_ge k n with less | more
    · rw [served, List.getElem?_append_left (by simp; omega), List.getElem?_map, List.getElem?_take_of_lt less,
        if_pos less, List.getElem?_eq_getElem inside]
      rfl
    · rw [if_neg (by omega), List.getElem?_eq_none]
      have none : n - ys.length = 0 := by omega
      simp [served, none]; omega
  · rw [List.getElem?_eq_none outside]
    rcases Nat.lt_or_ge k n with less | more
    · rw [if_pos less, served, List.getElem?_append_right (by simp; omega)]
      cases closed with
      | false => rfl
      | true =>
        simp only [if_true, List.getElem?_replicate]
        rw [if_pos (by simp; omega)]
    · rw [if_neg (by omega), List.getElem?_eq_none]
      cases closed <;> simp [served] <;> omega

/-- Of the first answers each is the one of its number. -/
theorem answer_of_initial {results : List (Result α ε)} {ys : List α} {closed : Bool} {n k : Nat} {r : Result α ε}
    (initial : results <+: served ys closed n) (answered : results[k]? = some r) : answerAt ys closed k = some r := by
  obtain ⟨rest, more⟩ := initial
  have there : (served (ε := ε) ys closed n)[k]? = some r := by
    rw [← more, List.getElem?_append_left (List.getElem?_eq_some_iff.1 answered).1, answered]
  rw [served_get] at there
  split at there
  · exact there
  · cases there

theorem served_mono {ys zs : List α} {closed : Bool} {n : Nat} (more : ys <+: zs)
    (whole : closed = true → ys = zs) : served (ε := ε) ys closed n <+: served zs true n := by
  cases closed with
  | true => rw [whole rfl]
  | false =>
    obtain ⟨rest, rfl⟩ := more
    have first : ys.take n <+: (ys ++ rest).take n := by
      rw [List.take_append]; exact List.prefix_append _ _
    simp only [served, Bool.false_eq_true, if_false, List.append_nil]
    exact (first.map _).trans (List.prefix_append _ _)

theorem served_length (ys : List α) (n : Nat) : (served (ε := ε) ys true n).length = n := by
  simp [served]; omega

/-- What is an initial part of the answers is what fewer calls ask for. -/
theorem served_of_initial {ys : List α} {n : Nat} {rs : List (Result α ε)} (initial : rs <+: served ys true n) :
    rs = served ys true rs.length := by
  have fewer : rs.length ≤ n := by simpa [served_length] using initial.length_le
  have both := List.prefix_of_prefix_length_le initial (served_initial fewer) (by rw [served_length])
  exact both.eq_of_length (by rw [served_length])

theorem served_values (ys : List α) (closed : Bool) (n : Nat) :
    (served (ε := ε) ys closed n).filterMap Result.value? = ys.take n := by
  rw [served, List.filterMap_append, List.filterMap_map]
  cases closed <;> simp [Function.comp_def, Result.value?]

/-- The end is answered exactly to the calls after the last element. -/
theorem served_done (ys : List α) (n : Nat) : (served (ε := ε) ys true n).any (·.isDone) = true ↔ ys.length < n := by
  have elements : ((ys.take n).map (.value : α → Result α ε)).any (·.isDone) = false := by
    rw [List.any_map, List.any_eq_false]
    intro v _
    exact Bool.false_ne_true
  rw [served, List.any_append, elements]
  simp [Result.isDone]
  omega

end IterateLater

namespace Chain

variable {α ε : Type}

/-- The pieces of `xs` cut at the given indices, each counted in what is left. -/
def pieces : List Nat → List α → List (List α)
  | [], xs => [xs]
  | n :: ns, xs => xs.take n :: pieces ns (xs.drop n)

theorem pieces_flatten (ns : List Nat) (xs : List α) : (pieces ns xs).flatten = xs := by
  induction ns generalizing xs with
  | nil => simp [pieces]
  | cons n ns ih => rw [pieces, List.flatten_cons, ih, List.take_append_drop]

theorem pieces_length (ns : List Nat) (xs : List α) : (pieces ns xs).length = ns.length + 1 := by
  induction ns generalizing xs with
  | nil => rfl
  | cons n ns ih => simp [pieces, ih]

theorem pieces_inner {ns : List Nat} {xs : List α} {k n : Nat} (at_ : ns[k]? = some n) :
    (pieces ns xs)[k]? = some ((xs.drop (ns.take k).sum).take n) := by
  induction ns generalizing xs k with
  | nil => cases at_
  | cons m ns ih =>
    cases k with
    | zero => cases at_; simp [pieces]
    | succ k =>
      rw [List.getElem?_cons_succ] at at_
      rw [pieces, List.getElem?_cons_succ, ih at_, List.drop_drop, List.take_succ_cons, List.sum_cons]

theorem pieces_last (ns : List Nat) (xs : List α) : (pieces ns xs)[ns.length]? = some (xs.drop ns.sum) := by
  induction ns generalizing xs with
  | nil => simp [pieces]
  | cons n ns ih => rw [pieces, List.length_cons, List.getElem?_cons_succ, ih, List.drop_drop, List.sum_cons]

/-- The queues the consumers read: every first part, and the last second part. -/
def parts (c : Chain α ε) : List (IterateLater α ε) :=
  c.stages.map (·.first) ++ (c.stages.getLast?.map (·.second)).toList

/-- Where the elements of stage `i` start in the source. -/
def offset (c : Chain α ε) (i : Nat) : Nat := ((c.stages.map (·.index)).take i).sum

variable {c : Chain α ε} {i : Nat} {st : Partition α ε}

theorem offset_succ (at_ : c.stages[i]? = some st) : c.offset (i + 1) = c.offset i + st.index := by
  simp [offset, List.take_add_one, at_]

/-! ### What a stage has been given -/

theorem Taken.get {rs : List (Result α ε)} {loop : Loop ε} {inp : List α} (h : Taken rs loop inp)
    {k : Nat} {v : α} (at_ : inp[k]? = some v) : rs[k]? = some (.value v) := by
  have bound := (List.getElem?_eq_some_iff.1 at_).1
  rw [← List.getElem?_take_of_lt bound, h.values, List.getElem?_map, at_]; rfl

/-- What a pump takes from answers that are served from `ys`. -/
theorem Taken.of_served {rs : List (Result α ε)} {loop : Loop ε} {inp ys : List α} {closed : Bool} {n : Nat}
    (h : Taken rs loop inp) (from_ : rs <+: served ys closed n) :
    inp <+: ys ∧ (loop = .finished → inp = ys ∧ closed = true) ∧ ∀ e, loop ≠ .failed e := by
  have first : inp <+: ys := by
    refine List.prefix_iff_getElem?.2 fun k bound => ?_
    have here := answer_of_initial from_ (h.get (List.getElem?_eq_getElem bound))
    unfold answerAt at here
    cases hy : ys[k]? with
    | some v => rw [hy] at here; simpa using here
    | none => rw [hy] at here; cases closed <;> simp at here
  have ends : ∀ r, rs[inp.length]? = some r → r.value? = none → closed = true ∧ r = .done ∧ inp = ys := by
    intro r at_ stop
    have here := answer_of_initial from_ at_
    unfold answerAt at here
    cases hy : ys[inp.length]? with
    | some v => rw [hy] at here; cases here; cases stop
    | none =>
      rw [hy] at here
      cases closed with
      | false => simp at here
      | true =>
        cases here
        exact ⟨rfl, rfl, first.eq_of_length_le (List.getElem?_eq_none_iff.1 hy)⟩
  refine ⟨first, fun e => ?_, fun e he => ?_⟩
  · obtain ⟨isClosed, -, all⟩ := ends _ (h.finished e) rfl
    exact ⟨all, isClosed⟩
  · have := (ends _ (h.failed e he) rfl).2.1
    cases this

/-- What the first pump takes from the source. -/
theorem Taken.of_source {s : Source α ε} {loop : Loop ε} {inp : List α}
    (answers : ∀ k r, s.results[k]? = some r → r = s.answer k) (h : Taken s.results loop inp) :
    inp <+: s.elems ∧ (loop = .finished → inp = s.elems ∧ s.failure = none) ∧
      ∀ e, loop = .failed e → inp = s.elems ∧ s.failure = some e := by
  have first : inp <+: s.elems := by
    refine List.prefix_iff_getElem?.2 fun k bound => ?_
    have here := answers k _ (h.get (List.getElem?_eq_getElem bound))
    unfold Source.answer at here
    cases hy : s.elems[k]? with
    | some v => rw [hy] at here; simpa using here.symm
    | none =>
      rw [hy] at here
      by_cases last : k = s.elems.length
      · cases hf : s.failure <;> simp [last, hf] at here
      · simp [last] at here
  have ends : ∀ r, s.results[inp.length]? = some r → r.value? = none →
      inp = s.elems ∧ r = match s.failure with | some e => .error e | none => .done := by
    intro r at_ stop
    have here := answers _ _ at_
    unfold Source.answer at here
    cases hy : s.elems[inp.length]? with
    | some v => rw [hy] at here; subst here; cases stop
    | none =>
      have all := first.eq_of_length_le (List.getElem?_eq_none_iff.1 hy)
      rw [hy] at here
      simp only [all, if_true] at here
      exact ⟨all, here⟩
  refine ⟨first, fun e => ?_, fun e he => ?_⟩
  · obtain ⟨all, eq⟩ := ends _ (h.finished e) rfl
    cases hf : s.failure with
    | none => exact ⟨all, rfl⟩
    | some e => rw [hf] at eq; cases eq
  · obtain ⟨all, eq⟩ := ends _ (h.failed e he) rfl
    cases hf : s.failure with
    | none => rw [hf] at eq; cases eq
    | some e' => rw [hf] at eq; cases eq; exact ⟨all, rfl⟩

/-- Along the chain: every stage is given a prefix of the source from its
offset on, and all of it when its pump has finished. -/
theorem Inv.given (h : Inv c none) (at_ : c.stages[i]? = some st) {inp : List α} (fed : st.Fed inp)
    (taken : Taken (c.upstream i) st.loop inp) :
    inp <+: c.source.elems.drop (c.offset i) ∧ (st.loop = .finished → inp = c.source.elems.drop (c.offset i)) := by
  induction i generalizing st inp with
  | zero =>
    obtain ⟨first, finished, -⟩ := taken.of_source h.source
    rw [show c.offset 0 = 0 from rfl, List.drop_zero]
    exact ⟨first, fun e => (finished e).1⟩
  | succ i ih =>
    obtain ⟨before, atBefore⟩ : ∃ before, c.stages[i]? = some before :=
      ⟨_, List.getElem?_eq_getElem (by have := (List.getElem?_eq_some_iff.1 at_).1; omega)⟩
    obtain ⟨inp', fed', taken'⟩ := h.fed i before atBefore
    obtain ⟨given, whole⟩ := ih atBefore fed' taken'
    rw [upstream_succ atBefore] at taken
    obtain ⟨first, finished, -⟩ := taken.of_served fed'.second.plain_initial
    rw [offset_succ atBefore, ← List.drop_drop]
    refine ⟨first.trans (given.drop _), fun e => ?_⟩
    obtain ⟨all, isFinished⟩ := finished e
    have loop : before.loop = .finished := by
      cases hl : before.loop with
      | finished => rfl
      | awaiting => rw [hl] at isFinished; cases isFinished
      | failed e => rw [hl] at isFinished; cases isFinished
    rw [all, whole loop]

/-! ### The parts -/

theorem parts_length (some_ : c.stages ≠ []) : (parts c).length = c.stages.length + 1 := by
  cases hl : c.stages.getLast? with
  | none => exact absurd (List.getLast?_eq_none_iff.1 hl) some_
  | some st => simp [parts, hl]

theorem parts_get {k : Nat} {q : IterateLater α ε} (at_ : (parts c)[k]? = some q) :
    (∃ st, c.stages[k]? = some st ∧ q = st.first) ∨
    (∃ i st, k = c.stages.length ∧ i + 1 = c.stages.length ∧ c.stages[i]? = some st ∧ q = st.second) := by
  rcases Nat.lt_or_ge k c.stages.length with inner | outer
  · rw [parts, List.getElem?_append_left (by simpa using inner), List.getElem?_map, Option.map_eq_some_iff] at at_
    obtain ⟨st, at_, rfl⟩ := at_
    exact .inl ⟨st, at_, rfl⟩
  · rw [parts, List.getElem?_append_right (by simpa using outer), List.length_map] at at_
    cases hl : c.stages.getLast? with
    | none => simp [hl] at at_
    | some st =>
      simp only [hl, Option.map_some, Option.toList_some] at at_
      have last : k - c.stages.length = 0 := by
        have := (List.getElem?_eq_some_iff.1 at_).1
        simp only [List.length_singleton] at this; omega
      rw [last] at at_
      have nonempty : c.stages.length ≠ 0 := by
        intro zero; simp [List.length_eq_zero_iff.1 zero] at hl
      rw [List.getLast?_eq_getElem?] at hl
      exact .inr ⟨c.stages.length - 1, st, by omega, by omega, hl, by simpa using at_.symm⟩

/-- Every part is a queue that holds a prefix of its piece, and is completed
only when it holds the whole piece. -/
theorem Inv.part (h : Inv c none) {k : Nat} {q : IterateLater α ε} {piece : List α}
    (part : (parts c)[k]? = some q)
    (cut : (pieces (c.stages.map (·.index)) c.source.elems)[k]? = some piece) :
    ∃ ys closed, Holds noPromises (plains ys) closed q ∧ ys <+: piece ∧ (closed = true → ys = piece) ∧
      ((∀ (i : Nat) (st : Partition α ε), c.stages[i]? = some st → st.loop = .finished) → closed = true) := by
  rcases parts_get part with ⟨st, at_, rfl⟩ | ⟨i, st, rfl, isLast, at_, rfl⟩
  · obtain ⟨inp, fed, taken⟩ := h.fed k st at_
    obtain ⟨given, whole⟩ := h.given at_ fed taken
    rw [pieces_inner (by rw [List.getElem?_map, at_]; rfl), Option.some.injEq] at cut
    change (c.source.elems.drop (c.offset k)).take st.index = piece at cut
    subst cut
    refine ⟨_, _, fed.first, given.take _, fun isClosed => ?_, fun all => ?_⟩
    · rcases Bool.or_eq_true_iff.1 isClosed with beyond | finished
      · obtain ⟨rest, eq⟩ := given
        rw [← eq, List.take_append_of_le_length (Nat.le_of_lt (of_decide_eq_true beyond))]
      · cases loop : st.loop with
        | finished => rw [whole loop]
        | awaiting => rw [loop] at finished; cases finished
        | failed e => rw [loop] at finished; cases finished
    · rw [all k st at_]; simp [Loop.isFinished]
  · obtain ⟨inp, fed, taken⟩ := h.fed i st at_
    obtain ⟨given, whole⟩ := h.given at_ fed taken
    have all := pieces_last (c.stages.map (·.index)) c.source.elems
    rw [List.length_map] at all
    rw [all, Option.some.injEq] at cut
    have total : (c.stages.map (·.index)).sum = c.offset i + st.index := by
      rw [← offset_succ at_, offset, isLast, List.take_of_length_le (by simp)]
    rw [total, ← List.drop_drop] at cut
    subst cut
    refine ⟨_, _, fed.second, given.drop _, fun isClosed => ?_, fun all => ?_⟩
    · cases loop : st.loop with
      | finished => rw [whole loop]
      | awaiting => rw [loop] at isClosed; cases isClosed
      | failed e => rw [loop] at isClosed; cases isClosed
    · rw [all i st at_]; rfl

/-- Where nothing can move, the source has answered every call. -/
theorem idle_of_quiet (quiet : Quiet step internal c) : c.source.pulls = 0 := by
  have blocked := quiet .yield trivial
  simp only [step, Option.map_eq_none_iff, Source.yield] at blocked
  split at blocked
  · assumption
  · cases blocked

/-- Where nothing can move, no pump waits on an iterable that has answered every
call: it would take the answer to its last one. -/
theorem Inv.stopped (h : Inv c none) (quiet : Quiet step internal c) (at_ : c.stages[i]? = some st)
    (answered : (c.upstream i).length = c.upstreamCalls i) : st.loop ≠ .awaiting := by
  intro running
  have counted := h.calls i st at_
  obtain ⟨r, answer⟩ : ∃ r, (c.upstream i)[st.current]? = some r :=
    ⟨_, List.getElem?_eq_getElem (by simp at counted; omega)⟩
  have blocked := quiet (.pump i) trivial
  simp [step, at_, running, answer] at blocked

/-- Where nothing can move, every pump has come to the end of its iterable. -/
theorem Inv.finished (h : Inv c none) (ends : c.source.failure = none) (quiet : Quiet step internal c)
    (at_ : c.stages[i]? = some st) : st.loop = .finished := by
  induction i generalizing st with
  | zero =>
    obtain ⟨inp, fed, taken⟩ := h.fed 0 st at_
    cases loop : st.loop with
    | finished => rfl
    | awaiting => exact absurd loop (h.stopped quiet at_ (by simp [upstream, upstreamCalls, idle_of_quiet quiet]))
    | failed e =>
      have := ((taken.of_source h.source).2.2 e loop).2
      rw [ends] at this; cases this
  | succ i ih =>
    obtain ⟨before, atBefore⟩ : ∃ before, c.stages[i]? = some before :=
      ⟨_, List.getElem?_eq_getElem (by have := (List.getElem?_eq_some_iff.1 at_).1; omega)⟩
    obtain ⟨inp', fed', -⟩ := h.fed i before atBefore
    have rests : before.second.tick noPromises = none := by
      simpa [step, atBefore] using quiet (.tickSecond i) trivial
    have second := fed'.second
    rw [ih atBefore] at second
    have served := second.plain_served rests
    obtain ⟨inp, fed, taken⟩ := h.fed (i + 1) st at_
    rw [upstream_succ atBefore] at taken
    cases loop : st.loop with
    | finished => rfl
    | awaiting =>
      refine absurd loop (h.stopped quiet at_ ?_)
      rw [upstream_succ atBefore, calls_succ atBefore, served]
      exact served_length _ _
    | failed e => exact absurd loop ((taken.of_served second.plain_initial).2.2 e)

/-- The index a run hands to `partition`. -/
def cutAt : Act → Option Nat
  | .partition n => some n
  | _ => none

theorem cutAt_internal {a : Act} (inside : internal a) : cutAt a = none := by
  cases a with
  | partition n => exact inside.elim
  | _ => rfl

theorem setStage_indices (at_ : c.stages[i]? = some st) (st' : Partition α ε) (same : st'.index = st.index) :
    (c.setStage i st').stages.map (·.index) = c.stages.map (·.index) := by
  apply List.ext_getElem?
  intro j
  rw [List.getElem?_map, setStage_get at_, List.getElem?_map]
  split
  · rename_i e; subst e; simp [at_, same]
  · rfl

theorem pullUpstream_frame (c : Chain α ε) (i : Nat) :
    (c.pullUpstream i).stages.map (·.index) = c.stages.map (·.index) ∧
    (c.pullUpstream i).source.elems = c.source.elems ∧ (c.pullUpstream i).source.failure = c.source.failure := by
  cases i with
  | zero => exact ⟨rfl, rfl, rfl⟩
  | succ i =>
    cases at_ : c.stages[i]? with
    | none => simp [pullUpstream, at_]
    | some st =>
      simp only [pullUpstream, at_]
      exact ⟨setStage_indices at_ _ rfl, rfl, rfl⟩

/-- No step changes the source's data, and only `partition` adds an index. -/
theorem step_frame {a : Act} {c' : Chain α ε} (moved : step c a = some c') :
    c'.stages.map (·.index) = c.stages.map (·.index) ++ (cutAt a).toList ∧
    c'.source.elems = c.source.elems ∧ c'.source.failure = c.source.failure := by
  cases step_moves moved with
  | yield answered =>
    unfold Source.yield at answered
    split at answered
    · cases answered
    · cases answered; exact ⟨by simp [cutAt], rfl, rfl⟩
  | @pumpValue i st v at_ =>
    obtain ⟨indices, elems, failure⟩ := pullUpstream_frame (c.setStage i (st.receive (.value v))) i
    refine ⟨?_, elems, failure⟩
    rw [indices, setStage_indices at_ _ (Partition.receive_index _)]
    simp [cutAt]
  | @pumpEnd i st r at_ =>
    exact ⟨(setStage_indices at_ _ (Partition.receive_index r)).trans (by simp [cutAt]), rfl, rfl⟩
  | @pullFirst i st at_ =>
    exact ⟨(setStage_indices at_ { st with first := st.first.pull } rfl).trans (by simp [cutAt]), rfl, rfl⟩
  | @tickFirst i st first at_ =>
    exact ⟨(setStage_indices at_ { st with first } rfl).trans (by simp [cutAt]), rfl, rfl⟩
  | pullLast =>
    obtain ⟨indices, elems, failure⟩ := pullUpstream_frame c c.stages.length
    exact ⟨by rw [indices]; simp [cutAt], elems, failure⟩
  | @tickSecond i st second at_ =>
    exact ⟨(setStage_indices at_ { st with second } rfl).trans (by simp [cutAt]), rfl, rfl⟩
  | @partition n =>
    obtain ⟨indices, elems, failure⟩ := pullUpstream_frame (c.addStage n) c.stages.length
    exact ⟨by rw [indices]; simp [addStage, cutAt], elems, failure⟩

/-- What a run of a chain leaves. -/
structure RunInv (n : Nat) (xs : List α) (failure : Option ε) (acts : List Act) (c : Chain α ε) : Prop where
  inv : Inv c none
  indices : c.stages.map (·.index) = n :: acts.filterMap cutAt
  elems : c.source.elems = xs
  failure : c.source.failure = failure

theorem chain_run {n : Nat} {xs : List α} {failure : Option ε} {acts : List Act}
    (reached : run step (init n xs failure) acts = some c) : RunInv n xs failure acts c := by
  refine run_history (I := RunInv n xs failure) ⟨inv_init n xs failure, rfl, rfl, rfl⟩ ?_ reached
  intro acts a m t h moved
  obtain ⟨indices, elems, failed⟩ := step_frame moved
  refine ⟨inv_step h.inv moved, ?_, elems.trans h.elems, failed.trans h.failure⟩
  rw [indices, h.indices]
  cases hc : cutAt a <;> simp [List.filterMap_append, hc]

/-- A run goes on without another cut. -/
theorem RunInv.uncut {n : Nat} {xs : List α} {failure : Option ε} {acts : List Act} {a : Act} {c' : Chain α ε}
    (h : RunInv n xs failure acts c) (moved : step c a = some c') (same : cutAt a = none) :
    RunInv n xs failure acts c' := by
  obtain ⟨indices, elems, failed⟩ := step_frame moved
  refine ⟨inv_step h.inv moved, ?_, elems.trans h.elems, failed.trans h.failure⟩
  rw [indices, h.indices, same]
  exact List.append_nil _

section
variable {n : Nat} {xs piece : List α} {acts : List Act} {k : Nat} {q : IterateLater α ε}

/-- At every moment a part has answered with the first elements of its piece,
and with an end only after all of them. -/
theorem RunInv.part_initial {failure : Option ε} (h : RunInv n xs failure acts c) (part : (parts c)[k]? = some q)
    (cut : (pieces (n :: acts.filterMap cutAt) xs)[k]? = some piece) :
    q.gen.results <+: served piece true q.gen.calls := by
  rw [← h.indices, ← h.elems] at cut
  obtain ⟨ys, closed, holds, initial, whole, -⟩ := h.inv.part part cut
  exact holds.plain_initial.trans (served_mono initial whole)

/-- Answer number `j` of a part is element `j` of its piece, or the end after the last one. -/
theorem RunInv.answer {failure : Option ε} (h : RunInv n xs failure acts c) (part : (parts c)[k]? = some q)
    (cut : (pieces (n :: acts.filterMap cutAt) xs)[k]? = some piece) {j : Nat} {r : Result α ε}
    (answered : q.gen.results[j]? = some r) : answerAt piece true j = some r :=
  answer_of_initial (h.part_initial part cut) answered

/-- Where nothing can move, a part has answered every call. -/
theorem RunInv.part_rests (h : RunInv n xs none acts c) (quiet : Quiet step internal c) (part : (parts c)[k]? = some q)
    (cut : (pieces (n :: acts.filterMap cutAt) xs)[k]? = some piece) :
    q.gen.results = served piece true q.gen.calls := by
  rw [← h.indices, ← h.elems] at cut
  obtain ⟨ys, closed, holds, -, whole, ended⟩ := h.inv.part part cut
  have isClosed := ended fun i st at_ => h.inv.finished h.failure quiet at_
  have rests : q.tick noPromises = none := by
    rcases parts_get part with ⟨st, at_, rfl⟩ | ⟨i, st, -, -, at_, rfl⟩
    · simpa [step, at_] using quiet (.tickFirst k) trivial
    · simpa [step, at_] using quiet (.tickSecond i) trivial
  have all := holds.plain_served rests
  rwa [isClosed, whole isClosed] at all

end

/-! ### A chain cut once -/

theorem parts_only (only : c.stages = [st]) : parts c = [st.first, st.second] := by
  simp [parts, only]

/-- The program's own steps make no call on the two parts of a chain cut once. -/
theorem RunInv.internal {n : Nat} {xs : List α} {failure : Option ε} {acts : List Act} {c' : Chain α ε}
    (h : RunInv n xs failure acts c) (only : c.stages = [st]) {a : Act} (inside : internal a) (moved : step c a = some c') :
    ∃ st', c'.stages = [st'] ∧ st'.first.gen.calls = st.first.gen.calls ∧
      st'.second.gen.calls = st.second.gen.calls := by
  have first : ∀ {i st'}, c.stages[i]? = some st' → i = 0 ∧ st' = st := by
    intro i st' at_
    rw [only] at at_
    cases i with
    | zero => exact ⟨rfl, by simpa using at_.symm⟩
    | succ i => simp at at_
  cases step_moves moved with
  | yield => exact ⟨st, only, rfl, rfl⟩
  | @pumpValue i st' v at_ =>
    obtain ⟨rfl, rfl⟩ := first at_
    refine ⟨st'.receive (.value v), by simp [pullUpstream, setStage, only], ?_, ?_⟩
    · rw [Partition.receive_first_gen]
    · rw [Partition.receive_gen]
  | @pumpEnd i st' r at_ =>
    obtain ⟨rfl, rfl⟩ := first at_
    refine ⟨st'.receive r, by simp [setStage, only], ?_, ?_⟩
    · rw [Partition.receive_first_gen]
    · rw [Partition.receive_gen]
  | @tickFirst i st' later at_ ticked =>
    obtain ⟨inp, fed, -⟩ := h.inv.fed i st' at_
    obtain ⟨rfl, rfl⟩ := first at_
    exact ⟨{ st' with first := later }, by simp [setStage, only], fed.first.calls_tick ticked, rfl⟩
  | @tickSecond i st' later at_ ticked =>
    obtain ⟨inp, fed, -⟩ := h.inv.fed i st' at_
    obtain ⟨rfl, rfl⟩ := first at_
    exact ⟨{ st' with second := later }, by simp [setStage, only], rfl, fed.second.calls_tick ticked⟩
  | pullFirst => exact inside.elim
  | pullLast => exact inside.elim
  | partition => exact inside.elim

/-- What the pump has been given, and what the two parts hold of it. -/
theorem RunInv.halves {n : Nat} {xs : List α} {failure : Option ε} (h : RunInv n xs failure [] c)
    (only : c.stages = [st]) : ∃ inp, inp <+: xs ∧ (st.loop = .finished → inp = xs ∧ failure = none) ∧
      (∀ e, st.loop = .failed e → inp = xs ∧ failure = some e) ∧
      Holds noPromises (plains (inp.take n)) (decide (n < inp.length) || st.loop.isFinished) st.first ∧
      Holds noPromises (plains (inp.drop n)) st.loop.isFinished st.second := by
  have at_ : c.stages[0]? = some st := by rw [only]; rfl
  have index : st.index = n := by
    have indices := h.indices
    rw [only] at indices
    exact (List.cons.inj indices).1
  obtain ⟨inp, fed, taken⟩ := h.inv.fed 0 st at_
  obtain ⟨first, finished, failed⟩ := taken.of_source h.inv.source
  rw [h.elems] at first finished failed
  rw [h.failure] at finished failed
  have firsts := fed.first
  have seconds := fed.second
  rw [index] at firsts seconds
  exact ⟨inp, first, finished, failed, firsts, seconds⟩

/-- The second part answers an end only when the source has ended. -/
theorem RunInv.second_answer {n : Nat} {xs : List α} {failure : Option ε} (h : RunInv n xs failure [] c)
    (only : c.stages = [st]) {k : Nat} {r : Result α ε} (answered : st.second.gen.results[k]? = some r) :
    (∃ v, (xs.drop n)[k]? = some v ∧ r = .value v) ∨ r = .done ∧ failure = none := by
  obtain ⟨inp, ⟨rest, rfl⟩, finished, -, -, second⟩ := h.halves only
  have there := answer_of_initial second.plain_initial answered
  unfold answerAt at there
  cases at_ : (inp.drop n)[k]? with
  | some v =>
    rw [at_] at there
    cases there
    have inside := (List.getElem?_eq_some_iff.1 at_).1
    refine .inl ⟨v, ?_, rfl⟩
    rw [List.length_drop] at inside
    rw [List.drop_append_of_le_length (by omega), List.getElem?_append_left (by rw [List.length_drop]; omega), at_]
  | none =>
    rw [at_] at there
    cases loop : st.loop with
    | finished =>
      rw [loop] at there
      cases there
      exact .inr ⟨rfl, (finished loop).2⟩
    | awaiting =>
      rw [loop] at there
      cases there
    | failed e =>
      rw [loop] at there
      cases there

/-- Where nothing can move, the pump has come to the end of the source or to its failure. -/
theorem RunInv.pump_rests {n : Nat} {xs : List α} {failure : Option ε} (h : RunInv n xs failure [] c)
    (only : c.stages = [st]) (quiet : Quiet step Chain.internal c) :
    st.loop = failure.elim .finished .failed := by
  have at_ : c.stages[0]? = some st := by rw [only]; rfl
  obtain ⟨inp, -, finished, failed, -, -⟩ := h.halves only
  cases loop : st.loop with
  | awaiting => exact absurd loop (h.inv.stopped quiet at_ (by simp [upstream, upstreamCalls, idle_of_quiet quiet]))
  | finished => rw [(finished loop).2, Option.elim_none]
  | failed e => rw [(failed e loop).2, Option.elim_some]

/-- Where nothing can move, the first part has given what there is of it; so has
the second, with the end if the source ended. -/
theorem RunInv.rests {n : Nat} {xs : List α} {failure : Option ε} (h : RunInv n xs failure [] c)
    (only : c.stages = [st]) (quiet : Quiet step Chain.internal c) :
    (st.first.gen.results = served (xs.take n) (decide (n < xs.length) || failure.isNone) st.first.gen.calls) ∧
      st.second.gen.results = served (xs.drop n) failure.isNone st.second.gen.calls := by
  have at_ : c.stages[0]? = some st := by rw [only]; rfl
  obtain ⟨inp, -, finished, failed, first, second⟩ := h.halves only
  have rests : st.first.tick noPromises = none ∧ st.second.tick noPromises = none :=
    ⟨by simpa [step, at_] using quiet (.tickFirst 0) trivial, by simpa [step, at_] using quiet (.tickSecond 0) trivial⟩
  have given := first.plain_served rests.1
  have given' := second.plain_served rests.2
  have ended : inp = xs ∧ st.loop.isFinished = failure.isNone := by
    have rests := h.pump_rests only quiet
    cases failure with
    | none => exact ⟨(finished rests).1, by rw [rests]; rfl⟩
    | some e => exact ⟨(failed e rests).1, by rw [rests]; rfl⟩
  rw [ended.1, ended.2] at given given'
  exact ⟨given, given'⟩

/-! ### Every run comes to rest -/

/-- The answers the pump of a stage can still take from a source of `m` elements. -/
def pumpsLeft (m : Nat) (st : Partition α ε) : Nat :=
  m + 1 - (st.current + match st.loop with | .awaiting => 0 | _ => 1)

/-- What one stage can still do: its pump's turns, each with a call upstream
and a push, and the resumptions of its two generators. -/
def work (m : Nat) (st : Partition α ε) : Nat :=
  3 * pumpsLeft m st + st.first.pending + st.second.pending

def measure (c : Chain α ε) : Nat :=
  (c.stages.map (work c.source.elems.length)).sum + c.source.pulls

theorem measure_setStage (at_ : c.stages[i]? = some st) (st' : Partition α ε) :
    measure (c.setStage i st') + work c.source.elems.length st =
      measure c + work c.source.elems.length st' := by
  have := sum_map_set (f := work c.source.elems.length) at_ st'
  simp only [measure, setStage]; omega

theorem measure_pullUpstream (c : Chain α ε) (i : Nat) : measure (c.pullUpstream i) ≤ measure c + 1 := by
  cases i with
  | zero => simp [measure, pullUpstream]; omega
  | succ i =>
    cases at_ : c.stages[i]? with
    | none => simp [pullUpstream, at_]
    | some st =>
      have same : c.pullUpstream (i + 1) = c.setStage i { st with second := st.second.pull } := by
        simp [pullUpstream, at_]
      have changed := measure_setStage at_ { st with second := st.second.pull }
      have less := pending_pull st.second
      rw [same]
      simp only [work, pumpsLeft] at changed
      omega

/-- A pump takes no more elements than the source has. -/
theorem Inv.current_le (h : Inv c none) (at_ : c.stages[i]? = some st) : st.current ≤ c.source.elems.length := by
  obtain ⟨inp, fed, taken⟩ := h.fed i st at_
  have := (h.given at_ fed taken).1.length_le
  simp only [List.length_drop] at this
  rw [fed.current]; omega

/-- A call on the iterable before a stage leaves the stage as it is. -/
theorem pullUpstream_self (c : Chain α ε) (i : Nat) : (c.pullUpstream i).stages[i]? = c.stages[i]? := by
  cases i with
  | zero => rfl
  | succ i =>
    cases before : c.stages[i]? with
    | none => simp only [pullUpstream, before]
    | some st =>
      simp only [pullUpstream, before]
      rw [setStage_get before, if_neg (by omega)]

theorem pumpsLeft_receive {m : Nat} {r : Result α ε} (running : st.loop = .awaiting) (bound : (st.receive r).current ≤ m) :
    pumpsLeft m (st.receive r) + 1 = pumpsLeft m st := by
  cases r with
  | value v =>
    rw [Partition.receive_value_current] at bound
    simp only [pumpsLeft, Partition.receive_value_current, Partition.receive_value_loop, running]
    omega
  | error e =>
    have le : st.current ≤ m := bound
    simp only [pumpsLeft, Partition.receive, running]
    omega
  | done =>
    have le : st.current ≤ m := bound
    simp only [pumpsLeft, Partition.receive, running]
    omega

/-- One turn of the pump makes up for the call that may follow it. -/
theorem measure_receive {r : Result α ε} (at_ : c.stages[i]? = some st) (running : st.loop = .awaiting)
    (bound : (st.receive r).current ≤ c.source.elems.length) : measure (c.setStage i (st.receive r)) + 1 < measure c := by
  have changed := measure_setStage at_ (st.receive r)
  have pushed := Partition.receive_pending (s := st) r
  have left := pumpsLeft_receive running bound
  simp only [work] at changed
  omega

theorem measure_step {a : Act} {c' : Chain α ε} (h : Inv c none) (inside : internal a)
    (moved : step c a = some c') : measure c' < measure c := by
  have after := inv_step h moved
  cases step_moves moved with
  | yield answered =>
    unfold Source.yield at answered
    split at answered
    · cases answered
    · cases answered
      simp only [measure]
      omega
  | @pumpValue i st v at_ running =>
    have stays : ((c.setStage i (st.receive (.value v))).pullUpstream i).stages[i]? = some (st.receive (.value v)) := by
      rw [pullUpstream_self, setStage_get at_, if_pos rfl]
    have room := after.current_le stays
    have elems : ((c.setStage i (st.receive (.value v))).pullUpstream i).source.elems = c.source.elems :=
      (pullUpstream_frame _ _).2.1
    rw [elems] at room
    have called := measure_pullUpstream (c.setStage i (st.receive (.value v))) i
    exact Nat.lt_of_le_of_lt called (measure_receive at_ running room)
  | @pumpEnd i st r at_ running =>
    have stays : (c.setStage i (st.receive r)).stages[i]? = some (st.receive r) := by
      rw [setStage_get at_, if_pos rfl]
    exact Nat.lt_of_succ_lt (measure_receive at_ running (after.current_le stays))
  | pullFirst => exact inside.elim
  | @tickFirst i st first at_ ticked =>
    have changed := measure_setStage at_ { st with first }
    have less := pending_tick ticked
    simp only [work, pumpsLeft] at changed
    omega
  | pullLast => exact inside.elim
  | @tickSecond i st second at_ ticked =>
    have changed := measure_setStage at_ { st with second }
    have less := pending_tick ticked
    simp only [work, pumpsLeft] at changed
    omega
  | partition => exact inside.elim

/-! ### The main results -/

/-- **Partitions split without loss or deadlock.** A source that yields `xs`
and ends, cut at `n` and then at the indices of the run's `partition` calls. -/
theorem partition_chain (n : Nat) (xs : List α) (acts : List Act)
    (reached : run step (init (ε := ε) n xs none) acts = some c) :
    (pieces (n :: acts.filterMap cutAt) xs).flatten = xs ∧
    (parts c).length = (pieces (n :: acts.filterMap cutAt) xs).length ∧
    -- at every moment part `k` has answered with the first elements of piece `k`,
    -- and with an end only after all of them
    (∀ (k : Nat) (q : IterateLater α ε) (piece : List α), (parts c)[k]? = some q →
      (pieces (n :: acts.filterMap cutAt) xs)[k]? = some piece →
      q.gen.results <+: served piece true q.gen.calls ∧
      -- where nothing can move, every call has its answer
      (Quiet step internal c → q.gen.results = served piece true q.gen.calls ∧ q.gen.pulls = 0)) ∧
    -- and the program does come to rest
    (∃ as t, (∀ a ∈ as, internal a) ∧ run step c as = some t ∧ Quiet step internal t) := by
  have h := chain_run reached
  refine ⟨pieces_flatten _ _, ?_, fun k q piece part cut => ?_, ?_⟩
  · rw [parts_length h.inv.some_, pieces_length, ← h.indices, List.length_map]
  · refine ⟨h.part_initial part cut, fun quiet => ?_⟩
    have all := h.part_rests quiet part cut
    refine ⟨all, ?_⟩
    have length := congrArg List.length all
    rw [served_length, AsyncGenerator.calls] at length
    omega
  · exact exists_quiet step internal (Inv · none) measure
      (fun _ _ _ inv inside moved => ⟨inv_step inv moved, measure_step inv inside moved⟩) h.inv

/-- Cut after one element, then after one of the rest; the first part is read
while the source still has elements to yield. -/
def sampleActs : List Act :=
  [.partition 1, .yield, .pump 0, .pullFirst 0, .tickFirst 0, .yield, .pump 0, .pullFirst 0, .tickFirst 0]

theorem partition_chain_sample :
    ∃ c, run step (init (ε := String) 1 [7, 8, 9] none) sampleActs = some c ∧
      (parts c).length = 3 ∧
      ∀ q, (parts c)[0]? = some q → q.gen.results <+: served [7] true q.gen.calls :=
  ⟨_, rfl, (partition_chain 1 [7, 8, 9] sampleActs rfl).2.1,
    fun q part => ((partition_chain 1 [7, 8, 9] sampleActs rfl).2.2.1 0 q [7] part rfl).1⟩

end Chain

end Fula.AsyncLater
