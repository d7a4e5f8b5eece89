import Fula.Lib.Run
import Fula.AsyncLater.Partition
import Mathlib

/-!
# Chains of partitions

`partition` applied to a source, then to the second part, and so on, under
every interleaving of the source's answers, the pumps, the generators of the
queues and the consumers of the parts. The pump of stage `i + 1` is the only
consumer of the second queue of stage `i`; a stage may be added at any time
while nobody has read the last part.

`Inv` says what every stage has been given, and `inv_step` that every step
keeps it.
-/

namespace Fula.AsyncLater
set_option autoImplicit false
open Lib IterateLater

/-- An async iterable that yields `elems` and then ends, or throws `failure`.
It answers one call at a time, whenever it likes. -/
structure Source (α ε : Type) where
  elems : List α
  failure : Option ε := none
  pulls : Nat := 0
  results : List (Result α ε) := []
  deriving DecidableEq, Repr

namespace Source

variable {α ε : Type}

/-- Its answer to call number `k`, from 0. -/
def answer (s : Source α ε) (k : Nat) : Result α ε :=
  match s.elems[k]? with
  | some v => .value v
  | none => if k = s.elems.length then
      match s.failure with
      | some e => .error e
      | none => .done
    else .done

def yield (s : Source α ε) : Option (Source α ε) :=
  if s.pulls = 0 then none
  else some { s with pulls := s.pulls - 1, results := s.results ++ [s.answer s.results.length] }

end Source

structure Chain (α ε : Type) where
  source : Source α ε
  stages : List (Partition α ε)
  deriving DecidableEq, Repr

namespace Chain

variable {α ε : Type}

inductive Act where
  /-- The source answers a call. -/
  | yield
  /-- The pump of a stage takes an answer. -/
  | pump (i : Nat)
  | pullFirst (i : Nat)
  | tickFirst (i : Nat)
  /-- The consumer of the last part calls `next()`. -/
  | pullLast
  | tickSecond (i : Nat)
  /-- `partition(n, last part)` -/
  | partition (n : Nat)
  deriving DecidableEq, Repr

/-- The answers the pump of stage `i` reads. -/
def upstream (c : Chain α ε) : Nat → List (Result α ε)
  | 0 => c.source.results
  | i + 1 => (c.stages[i]?).elim [] (·.second.gen.results)

/-- The calls that have been made to the iterable before stage `i`. -/
def upstreamCalls (c : Chain α ε) : Nat → Nat
  | 0 => c.source.results.length + c.source.pulls
  | i + 1 => (c.stages[i]?).elim 0 (·.second.gen.calls)

def setStage (c : Chain α ε) (i : Nat) (st : Partition α ε) : Chain α ε :=
  { c with stages := c.stages.set i st }

/-- A call of `next()` on the iterable before stage `i`. -/
def pullUpstream (c : Chain α ε) : Nat → Chain α ε
  | 0 => { c with source := { c.source with pulls := c.source.pulls + 1 } }
  | i + 1 => match c.stages[i]? with
    | some st => c.setStage i { st with second := st.second.pull }
    | none => c

/-- A stage on the last part; its pump has not called `next()` yet. -/
def addStage (c : Chain α ε) (n : Nat) : Chain α ε :=
  { c with stages := c.stages ++ [{ index := n }] }

/-- `partition(n, iterable)` on the source: the pump calls `next()` at once. -/
def init (n : Nat) (xs : List α) (failure : Option ε) : Chain α ε :=
  { source := { elems := xs, failure, pulls := 1 }, stages := [{ index := n }] }

def step (c : Chain α ε) : Act → Option (Chain α ε)
  | .yield => c.source.yield.map fun source => { c with source }
  | .pump i => (c.stages[i]?).bind fun st =>
    match st.loop with
    | .awaiting => ((c.upstream i)[st.current]?).map fun r =>
      match r with
      -- the next turn of `for await` calls `next()` again
      | .value _ => (c.setStage i (st.receive r)).pullUpstream i
      | _ => c.setStage i (st.receive r)
    | _ => none
  | .pullFirst i => (c.stages[i]?).map fun st => c.setStage i { st with first := st.first.pull }
  | .tickFirst i => (c.stages[i]?).bind fun st =>
    (st.first.tick noPromises).map fun first => c.setStage i { st with first }
  | .pullLast => some (c.pullUpstream c.stages.length)
  | .tickSecond i => (c.stages[i]?).bind fun st =>
    (st.second.tick noPromises).map fun second => c.setStage i { st with second }
  | .partition n =>
    -- the last part is handed over unread
    if c.upstreamCalls c.stages.length = 0 then
      some ((c.addStage n).pullUpstream c.stages.length)
    else none

/-- What the program does by itself once its consumers have called. -/
def internal : Act → Prop
  | .yield | .pump _ | .tickFirst _ | .tickSecond _ => True
  | _ => False

instance (a : Act) : Decidable (internal a) := by
  cases a <;> unfold internal <;> infer_instance

/-! ### What a step does -/

/-- A step, by what it does to the chain. -/
inductive Moves (c : Chain α ε) : Act → Chain α ε → Prop where
  | yield {source : Source α ε} (answered : c.source.yield = some source) : Moves c .yield { c with source }
  | pumpValue {i : Nat} {st : Partition α ε} {v : α} (at_ : c.stages[i]? = some st) (running : st.loop = .awaiting)
    (answer : (c.upstream i)[st.current]? = some (.value v)) :
    Moves c (.pump i) ((c.setStage i (st.receive (.value v))).pullUpstream i)
  | pumpEnd {i : Nat} {st : Partition α ε} {r : Result α ε} (at_ : c.stages[i]? = some st) (running : st.loop = .awaiting)
    (answer : (c.upstream i)[st.current]? = some r) (last : ∀ v, r ≠ .value v) :
    Moves c (.pump i) (c.setStage i (st.receive r))
  | pullFirst {i : Nat} {st : Partition α ε} (at_ : c.stages[i]? = some st) :
    Moves c (.pullFirst i) (c.setStage i { st with first := st.first.pull })
  | tickFirst {i : Nat} {st : Partition α ε} {first : IterateLater α ε} (at_ : c.stages[i]? = some st)
    (ticked : st.first.tick noPromises = some first) : Moves c (.tickFirst i) (c.setStage i { st with first })
  | pullLast : Moves c .pullLast (c.pullUpstream c.stages.length)
  | tickSecond {i : Nat} {st : Partition α ε} {second : IterateLater α ε} (at_ : c.stages[i]? = some st)
    (ticked : st.second.tick noPromises = some second) : Moves c (.tickSecond i) (c.setStage i { st with second })
  | partition {n : Nat} (unread : c.upstreamCalls c.stages.length = 0) :
    Moves c (.partition n) ((c.addStage n).pullUpstream c.stages.length)

theorem step_moves {c c' : Chain α ε} {a : Act} (moved : step c a = some c') : Moves c a c' := by
  cases a with
  | yield =>
    simp only [step, Option.map_eq_some_iff] at moved
    obtain ⟨source, answered, rfl⟩ := moved
    exact .yield answered
  | pump i =>
    simp only [step, Option.bind_eq_some_iff] at moved
    obtain ⟨st, at_, moved⟩ := moved
    split at moved
    · next running =>
      obtain ⟨r, answer, rfl⟩ := Option.map_eq_some_iff.1 moved
      cases r with
      | value v => exact .pumpValue at_ running answer
      | error e => exact .pumpEnd at_ running answer fun _ same => by cases same
      | done => exact .pumpEnd at_ running answer fun _ same => by cases same
    · cases moved
  | pullFirst i =>
    simp only [step, Option.map_eq_some_iff] at moved
    obtain ⟨st, at_, rfl⟩ := moved
    exact .pullFirst at_
  | tickFirst i =>
    simp only [step, Option.bind_eq_some_iff, Option.map_eq_some_iff] at moved
    obtain ⟨st, at_, first, ticked, rfl⟩ := moved
    exact .tickFirst at_ ticked
  | pullLast =>
    cases moved
    exact .pullLast
  | tickSecond i =>
    simp only [step, Option.bind_eq_some_iff, Option.map_eq_some_iff] at moved
    obtain ⟨st, at_, second, ticked, rfl⟩ := moved
    exact .tickSecond at_ ticked
  | partition n =>
    simp only [step] at moved
    split at moved
    · next unread =>
      cases moved
      exact .partition unread
    · cases moved

/-! ### Reading the updated chain -/

section
variable {c : Chain α ε} {i j : Nat} {st st' : Partition α ε}

theorem setStage_get (at_ : c.stages[i]? = some st) :
    (c.setStage i st').stages[j]? = if j = i then some st' else c.stages[j]? := by
  have bound := (List.getElem?_eq_some_iff.1 at_).1
  by_cases same : j = i
  · subst same; simp [setStage, bound]
  · simp [setStage, same, Ne.symm same]

theorem setStage_upstream (at_ : c.stages[i]? = some st) :
    (c.setStage i st').upstream j = if j = i + 1 then st'.second.gen.results else c.upstream j := by
  cases j with
  | zero => simp [upstream, setStage]
  | succ j =>
    simp only [upstream, setStage_get at_]
    by_cases same : j = i
    · simp [same]
    · simp [same]

theorem setStage_calls (at_ : c.stages[i]? = some st) :
    (c.setStage i st').upstreamCalls j = if j = i + 1 then st'.second.gen.calls else c.upstreamCalls j := by
  cases j with
  | zero => simp [upstreamCalls, setStage]
  | succ j =>
    simp only [upstreamCalls, setStage_get at_]
    by_cases same : j = i
    · simp [same]
    · simp [same]

theorem upstream_succ (at_ : c.stages[i]? = some st) : c.upstream (i + 1) = st.second.gen.results := by
  simp [upstream, at_]

theorem calls_succ (at_ : c.stages[i]? = some st) : c.upstreamCalls (i + 1) = st.second.gen.calls := by
  simp [upstreamCalls, at_]

end

/-! ### The invariant -/

/-- The pump in loop state `loop` has taken the elements `inp` from the answers `rs`. -/
structure Taken (rs : List (Result α ε)) (loop : Loop ε) (inp : List α) : Prop where
  values : rs.take inp.length = inp.map .value
  finished : loop = .finished → rs[inp.length]? = some .done
  failed : ∀ e, loop = .failed e → rs[inp.length]? = some (.error e)

theorem Taken.extend {rs rs' : List (Result α ε)} {loop : Loop ε} {inp : List α}
    (h : Taken rs loop inp) (more : rs <+: rs') : Taken rs' loop inp := by
  obtain ⟨tail, rfl⟩ := more
  have kept : ∀ r, rs[inp.length]? = some r → (rs ++ tail)[inp.length]? = some r := fun r at_ => by
    rw [List.getElem?_append_left (List.getElem?_eq_some_iff.1 at_).1]; exact at_
  have bound : inp.length ≤ rs.length := by
    have := congrArg List.length h.values
    simp only [List.length_take, List.length_map] at this; omega
  exact ⟨by rw [List.take_append_of_le_length bound]; exact h.values,
    fun e => kept _ (h.finished e), fun e he => kept _ (h.failed e he)⟩

/-- Every stage has been fed from the iterable before it, and its pump has
made one call more than it has taken elements; `owes` is a stage whose pump
is about to make that call. -/
structure Inv (c : Chain α ε) (owes : Option Nat) : Prop where
  source : ∀ k r, c.source.results[k]? = some r → r = c.source.answer k
  fed : ∀ i st, c.stages[i]? = some st → ∃ inp, st.Fed inp ∧ Taken (c.upstream i) st.loop inp
  calls : ∀ i st, c.stages[i]? = some st →
    c.upstreamCalls i + (if owes = some i then 1 else 0) = st.current + 1
  some_ : c.stages ≠ []

variable {c : Chain α ε} {owes : Option Nat} {i : Nat} {st st' : Partition α ε}

/-- One stage changes, and the answers of its second queue only grow. -/
theorem Inv.setStage (owes' : Option Nat) (h : Inv c owes) (at_ : c.stages[i]? = some st)
    (grows : st.second.gen.results <+: st'.second.gen.results)
    (sameCalls : st'.second.gen.calls = st.second.gen.calls)
    (others : ∀ j, j ≠ i → (owes' = some j ↔ owes = some j))
    (fed : ∃ inp, st'.Fed inp ∧ Taken (c.upstream i) st'.loop inp)
    (calls : c.upstreamCalls i + (if owes' = some i then 1 else 0) = st'.current + 1) :
    Inv (c.setStage i st') owes' where
  source := h.source
  some_ := by have := h.some_; simpa [Chain.setStage] using this
  fed j sj atj := by
    rw [setStage_get at_] at atj
    have grown : c.upstream j <+: (c.setStage i st').upstream j := by
      rw [setStage_upstream at_]
      split
      · rename_i e; subst e; rw [upstream_succ at_]; exact grows
      · exact List.prefix_refl _
    split at atj
    · rename_i e
      cases atj; subst e
      obtain ⟨inp, fed, taken⟩ := fed
      exact ⟨inp, fed, taken.extend grown⟩
    · obtain ⟨inp, fed, taken⟩ := h.fed j sj atj
      exact ⟨inp, fed, taken.extend grown⟩
  calls j sj atj := by
    rw [setStage_get at_] at atj
    have same : (c.setStage i st').upstreamCalls j = c.upstreamCalls j := by
      rw [setStage_calls at_]
      split
      · rename_i e; subst e; rw [calls_succ at_, sameCalls]
      · rfl
    rw [same]
    split at atj
    · rename_i e
      cases atj; subst e; exact calls
    · rename_i other
      rw [← h.calls j sj atj]
      simp only [others j other]

/-- The call a pump owes is made; so is a call by the consumer of the last part. -/
theorem Inv.pullUpstream (h : Inv c (some i)) (inside : i ≤ c.stages.length) : Inv (c.pullUpstream i) none := by
  cases i with
  | zero =>
    refine ⟨h.source, fun j sj atj => ?_, fun j sj atj => ?_, h.some_⟩
    · cases j with
      | zero => exact h.fed 0 sj atj
      | succ j => exact h.fed (j + 1) sj atj
    · have before := h.calls j sj atj
      cases j with
      | zero =>
        simp only [upstreamCalls, if_true] at before
        simp only [Chain.pullUpstream, upstreamCalls, reduceCtorEq, if_false]
        omega
      | succ j => simpa [upstreamCalls, Chain.pullUpstream] using before
  | succ i =>
    obtain ⟨st, at_⟩ : ∃ st, c.stages[i]? = some st := ⟨_, List.getElem?_eq_getElem (by omega)⟩
    have here : c.pullUpstream (i + 1) = c.setStage i { st with second := st.second.pull } := by
      simp [Chain.pullUpstream, at_]
    rw [here]
    refine ⟨h.source, fun j sj atj => ?_, fun j sj atj => ?_, by have := h.some_; simpa [Chain.setStage] using this⟩
    · rw [setStage_get at_] at atj
      have grown : c.upstream j <+: (c.setStage i { st with second := st.second.pull }).upstream j := by
        rw [setStage_upstream at_]
        split
        · rename_i e; subst e; rw [upstream_succ at_]; exact results_pull _
        · exact List.prefix_refl _
      split at atj
      · rename_i e
        cases atj; subst e
        obtain ⟨inp, fed, taken⟩ := h.fed j st at_
        exact ⟨inp, fed.of_second (fun _ _ => Holds.pull), taken.extend grown⟩
      · obtain ⟨inp, fed, taken⟩ := h.fed j sj atj
        exact ⟨inp, fed, taken.extend grown⟩
    · rw [setStage_get at_] at atj
      rw [setStage_calls at_]
      have before : ∃ s, c.stages[j]? = some s ∧ s.current = sj.current := by
        split at atj
        · rename_i e; subst e; cases atj; exact ⟨st, at_, rfl⟩
        · exact ⟨sj, atj, rfl⟩
      obtain ⟨s, ats, current⟩ := before
      have counted := h.calls j s ats
      by_cases same : j = i + 1
      · subst same
        simp only [if_true, calls_succ at_] at counted
        simp only [if_true, calls_pull, reduceCtorEq, if_false]
        omega
      · have other : ¬ (some (i + 1) = some j) := by simpa using Ne.symm same
        simpa [same, other, current] using counted

theorem Inv.yield {source : Source α ε} (h : Inv c none) (answered : c.source.yield = some source) :
    Inv { c with source } none := by
  unfold Source.yield at answered
  split at answered
  · cases answered
  · rename_i waiting
    cases answered
    refine ⟨fun k r at_ => ?_, fun j sj atj => ?_, fun j sj atj => ?_, h.some_⟩
    · rcases Nat.lt_or_ge k c.source.results.length with old | new
      · rw [List.getElem?_append_left old] at at_
        exact h.source k r at_
      · rw [List.getElem?_append_right new] at at_
        have last : k = c.source.results.length := by
          have := (List.getElem?_eq_some_iff.1 at_).1
          simp only [List.length_singleton] at this; omega
        subst last
        simp only [Nat.sub_self, List.getElem?_cons_zero, Option.some.injEq] at at_
        exact at_.symm
    · obtain ⟨inp, fed, taken⟩ := h.fed j sj atj
      refine ⟨inp, fed, ?_⟩
      cases j with
      | zero => exact taken.extend (List.prefix_append _ _)
      | succ j => exact taken
    · have before := h.calls j sj atj
      cases j with
      | zero =>
        simp only [upstreamCalls, reduceCtorEq, if_false] at before
        simp only [upstreamCalls, reduceCtorEq, if_false, List.length_append, List.length_singleton]
        omega
      | succ j => exact before

theorem Inv.addStage {n : Nat} (h : Inv c none) (unread : c.upstreamCalls c.stages.length = 0) :
    Inv (c.addStage n) (some c.stages.length) := by
  have old : ∀ {j sj}, (c.addStage n).stages[j]? = some sj →
      (j < c.stages.length ∧ c.stages[j]? = some sj) ∨ (j = c.stages.length ∧ sj = { index := n }) := by
    intro j sj atj
    simp only [Chain.addStage] at atj
    rcases Nat.lt_or_ge j c.stages.length with less | more
    · rw [List.getElem?_append_left less] at atj; exact .inl ⟨less, atj⟩
    · rw [List.getElem?_append_right more] at atj
      have last : j - c.stages.length = 0 := by
        have := (List.getElem?_eq_some_iff.1 atj).1
        simp only [List.length_singleton] at this; omega
      rw [last] at atj
      exact .inr ⟨by omega, by simpa using atj.symm⟩
  have sameUp : ∀ j, j ≤ c.stages.length → (c.addStage n).upstream j = c.upstream j ∧
      (c.addStage n).upstreamCalls j = c.upstreamCalls j := by
    intro j le
    cases j with
    | zero => exact ⟨rfl, rfl⟩
    | succ j =>
      simp only [upstream, upstreamCalls, Chain.addStage, List.getElem?_append_left (show j < c.stages.length by omega),
        and_self]
  refine ⟨h.source, fun j sj atj => ?_, fun j sj atj => ?_, by simp [Chain.addStage]⟩
  · rcases old atj with ⟨less, was⟩ | ⟨rfl, rfl⟩
    · rw [(sameUp j (Nat.le_of_lt less)).1]; exact h.fed j sj was
    · exact ⟨[], Partition.fed_init n, ⟨rfl, nofun, nofun⟩⟩
  · rcases old atj with ⟨less, was⟩ | ⟨rfl, rfl⟩
    · rw [(sameUp j (Nat.le_of_lt less)).2, ← h.calls j sj was]
      simp [Nat.ne_of_gt less]
    · rw [(sameUp _ (Nat.le_refl _)).2, unread]; simp

/-- What the pump takes it takes in turn. -/
theorem Taken.next {rs : List (Result α ε)} {inp : List α} {v : α} (h : Taken rs .awaiting inp)
    (at_ : rs[inp.length]? = some (.value v)) : Taken rs .awaiting (inp ++ [v]) := by
  refine ⟨?_, nofun, nofun⟩
  rw [List.length_append, List.length_singleton, List.take_add_one, h.values, at_, List.map_append]
  rfl

theorem Inv.pumpValue {v : α} (h : Inv c none) (at_ : c.stages[i]? = some st) (running : st.loop = .awaiting)
    (answer : (c.upstream i)[st.current]? = some (.value v)) :
    Inv ((c.setStage i (st.receive (.value v))).pullUpstream i) none := by
  obtain ⟨inp, fed, taken⟩ := h.fed i st at_
  have counted := h.calls i st at_
  rw [fed.current] at answer
  rw [running] at taken
  apply Inv.pullUpstream
  · apply h.setStage (some i) at_
    · rw [Partition.receive_gen]
    · rw [Partition.receive_gen]
    · intro j other; simp [Ne.symm other]
    · exact ⟨inp ++ [v], fed.value running v, by rw [Partition.receive_value_loop, running]; exact taken.next answer⟩
    · rw [Partition.receive_value_current]
      simpa using counted
  · have inside : i ≤ c.stages.length := Nat.le_of_lt (List.getElem?_eq_some_iff.1 at_).1
    simpa [Chain.setStage] using inside

theorem Inv.pumpEnd {r : Result α ε} (h : Inv c none) (at_ : c.stages[i]? = some st) (running : st.loop = .awaiting)
    (answer : (c.upstream i)[st.current]? = some r) (last : ∀ v, r ≠ .value v) :
    Inv (c.setStage i (st.receive r)) none := by
  obtain ⟨inp, fed, taken⟩ := h.fed i st at_
  rw [fed.current] at answer
  rw [running] at taken
  have keeps (after : ∃ inp, (st.receive r).Fed inp ∧ Taken (c.upstream i) (st.receive r).loop inp)
      (current : (st.receive r).current = st.current) : Inv (c.setStage i (st.receive r)) none := by
    refine h.setStage none at_ ?_ ?_ (fun _ _ => Iff.rfl) after (current ▸ h.calls i st at_)
    · rw [Partition.receive_gen]
    · rw [Partition.receive_gen]
  cases r with
  | value v => exact absurd rfl (last v)
  | error e => exact keeps ⟨inp, fed.error running e, taken.values, nofun, fun e' he => by cases he; exact answer⟩ rfl
  | done => exact keeps ⟨inp, fed.done, taken.values, fun _ => answer, nofun⟩ rfl

theorem inv_step {a : Act} {c' : Chain α ε} (h : Inv c none) (moved : step c a = some c') : Inv c' none := by
  cases step_moves moved with
  | yield answered => exact h.yield answered
  | pumpValue at_ running answer => exact h.pumpValue at_ running answer
  | pumpEnd at_ running answer last => exact h.pumpEnd at_ running answer last
  | @pullFirst i st at_ =>
    obtain ⟨inp, fed, taken⟩ := h.fed i st at_
    exact h.setStage none at_ (List.prefix_refl _) rfl (fun _ _ => Iff.rfl)
      ⟨inp, fed.of_first (fun _ _ => Holds.pull), taken⟩ (h.calls i st at_)
  | @tickFirst i st first at_ ticked =>
    obtain ⟨inp, fed, taken⟩ := h.fed i st at_
    exact h.setStage none at_ (List.prefix_refl _) rfl (fun _ _ => Iff.rfl)
      ⟨inp, fed.of_first (fun _ _ holds => holds.tick ticked), taken⟩ (h.calls i st at_)
  | pullLast =>
    refine Inv.pullUpstream ⟨h.source, h.fed, fun j sj atj => ?_, h.some_⟩ (Nat.le_refl _)
    have other : ¬ (some c.stages.length = some j) := by
      have := (List.getElem?_eq_some_iff.1 atj).1
      simp only [Option.some.injEq]; omega
    simpa [other] using h.calls j sj atj
  | @tickSecond i st second at_ ticked =>
    obtain ⟨inp, fed, taken⟩ := h.fed i st at_
    exact h.setStage none at_ (results_tick ticked) (fed.second.calls_tick ticked) (fun _ _ => Iff.rfl)
      ⟨inp, fed.of_second (fun _ _ holds => holds.tick ticked), taken⟩ (h.calls i st at_)
  | partition unread => exact Inv.pullUpstream (h.addStage unread) (by simp [Chain.addStage])

theorem inv_init (n : Nat) (xs : List α) (failure : Option ε) : Inv (init n xs failure) none where
  source k r at_ := by simp [init] at at_
  fed j sj atj := by
    cases j with
    | zero => cases atj; exact ⟨[], Partition.fed_init n, ⟨rfl, nofun, nofun⟩⟩
    | succ j => simp [init] at atj
  calls j sj atj := by
    cases j with
    | zero => cases atj; rfl
    | succ j => simp [init] at atj
  some_ := by simp [init]

end Chain

end Fula.AsyncLater
