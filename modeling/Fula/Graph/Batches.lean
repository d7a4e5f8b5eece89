import Fula.Lib.Run
import Fula.Graph.UpdateQuery

/-!
# Batches with refused elements

`create`, `update` and `delete` call `put` or `del` for all elements of their
batch before they wait for any of them, and the store may refuse some. What it
accepted lands all the same, before or after the request has failed; nothing
takes it back.

`failed_batch` says what a failed request leaves behind, and that it leaves
everything as it was just when what was accepted is there already.
-/

namespace Fula.Graph
set_option autoImplicit false
open Lib DelayedWrites

/-- How the store refuses a write. -/
inductive Refusal where
  /-- `put` or `del` throws: the elements after it are not even called. -/
  | throws
  /-- The promise it returns rejects. -/
  | rejects

/-- A document store that refuses a document without an `_id` and an unknown id. -/
structure RefusingStore (S : Type) extends LawfulStore S where
  refusal : Refusal
  get_del : ∀ id s k, get (del id s) k = if k = id then none else get s k

/-- A mutation that gets its elements from the request. -/
inductive Batch where
  | create (values : List Json)
  | update (values : List Json)
  | delete (ids : List String)

/-- What is spread of an element of `values`; of `null` the `id` cannot be read. -/
def element : Json → Except Error Doc
  | .null => .error .typeError
  | value => .ok (ownProperties value)

/-- The calls on the store, in the order of the batch, and the answer. -/
def Batch.calls : Batch → Except Error (List Write × Answer)
  | .create values => (values.mapM element).map Graph.create
  | .update values => (values.mapM element).map Graph.update
  | .delete ids => .ok (Graph.delete ids)

/-- Where the request is. -/
inductive BatchStatus where
  /-- In `loadDB`. -/
  | loading
  /-- In `Promise.all`; `refused` when one of the promises rejects. -/
  | writing (answer : Answer) (refused : Bool)
  | answered (answer : Answer)
  | failed

structure Batched (S : Type) where
  store : DelayedWrites S Write
  progress : BatchStatus := .loading

inductive BatchAct where
  /-- The request goes on from `loadDB`. -/
  | issue
  /-- The oldest accepted write takes effect. -/
  | land
  /-- `Promise.all` resolves or rejects. -/
  | settle

namespace RefusingStore

variable {S : Type} (store : RefusingStore S)

def accepts (s : S) : Write → Bool
  | .put doc => (store.idOf doc).isSome
  | .del id => (store.get s id).isSome

/-- What is accepted of the calls. The index does not change in between. -/
def accepted (s : S) (calls : List Write) : List Write :=
  match store.refusal with
  | .throws => calls.takeWhile (store.accepts s)
  | .rejects => calls.filter (store.accepts s)

variable (b : Batch)

def step (s : Batched S) : BatchAct → Option (Batched S)
  | .issue => match s.progress, b.calls with
    | .loading, .error _ => some { s with progress := .failed }
    | .loading, .ok (calls, answer) => some {
        store := s.store.issue (store.accepted s.store.current calls)
        progress :=
          if calls.all (store.accepts s.store.current) then .writing answer false
          else match store.refusal with
            | .throws => .failed
            | .rejects => .writing answer true }
    | _, _ => none
  | .land => (s.store.land store.apply).map fun landed => { s with store := landed }
  | .settle => match s.progress with
    | .writing _ true => some { s with progress := .failed }
    | .writing answer false => if s.store.pending.isEmpty then some { s with progress := .answered answer } else none
    | _ => none

/-- The request on a collection at rest. -/
def start (s₀ : S) : Batched S := { store := { current := s₀ } }

/-- The writes that a batch with a refused element leaves behind. -/
def leftovers (s₀ : S) : List Write :=
  match b.calls with
  | .ok (calls, _) => if calls.all (store.accepts s₀) then [] else store.accepted s₀ calls
  | .error _ => []

/-- The write changes nothing. -/
def IsThere (s : S) : Write → Prop
  | .put doc => ∃ k, store.idOf doc = some k ∧ store.get s k = some doc
  | .del _ => False

/-- Whenever the request has failed, the collection is what it was. -/
def FailsIntact (s₀ : S) : Prop :=
  ∀ acts t, run (store.step b) (start s₀) acts = some t → t.progress = .failed →
    ∀ k, store.get t.store.current k = store.get s₀ k

/-! ## What has landed -/

variable {store b} {s₀ s : S} {calls : List Write}

theorem accepts_of_mem {w : Write} (member : w ∈ store.accepted s calls) : store.accepts s w = true := by
  unfold accepted at member
  split at member
  · exact (List.mem_takeWhile_imp member)
  · exact (List.mem_filter.1 member).2

theorem accepts_of_mem_leftovers {w : Write} (member : w ∈ store.leftovers b s₀) :
    store.accepts s₀ w = true := by
  unfold leftovers at member
  split at member
  · split at member
    · cases member
    · exact accepts_of_mem member
  · cases member

/-- A request that has failed is behind all its calls. -/
structure Failing (store : RefusingStore S) (b : Batch) (s₀ : S) (t : Batched S) : Prop where
  landed : ∃ landed, store.leftovers b s₀ = landed ++ t.store.pending ∧
    t.store.current = applyAll store.apply landed s₀

/-- Where a request can be. -/
inductive At (store : RefusingStore S) (b : Batch) (s₀ : S) (t : Batched S) : Prop where
  | loading (progress : t.progress = .loading) (store_ : t.store = { current := s₀ })
  | failing (answer : Answer) (progress : t.progress = .writing answer true) (writes : Failing store b s₀ t)
  | failed (progress : t.progress = .failed) (writes : Failing store b s₀ t)
  | accepted (answer : Answer) (progress : t.progress = .writing answer false)
  | answered (answer : Answer) (progress : t.progress = .answered answer)

theorem at_issue {t t' : Batched S} (progress : t.progress = .loading) (rest : t.store = { current := s₀ })
    (moved : store.step b t .issue = some t') : At store b s₀ t' := by
  obtain ⟨store_, progress_⟩ := t
  subst rest progress
  simp only [step] at moved
  split at moved
  · next broken =>
    cases moved
    exact .failed rfl ⟨[], by simp [leftovers, broken], rfl⟩
  · next calls answer _ ok =>
    cases moved
    by_cases all : calls.all (store.accepts s₀) = true
    · exact .accepted answer (if_pos all)
    · have writes : store.leftovers b s₀ = store.accepted s₀ calls := by simp only [leftovers, ok, if_neg all]
      simp only [if_neg all]
      cases how : store.refusal with
      | throws => exact .failed rfl ⟨[], by simp [writes, DelayedWrites.issue], rfl⟩
      | rejects => exact .failing answer rfl ⟨[], by simp [writes, DelayedWrites.issue], rfl⟩
  · cases moved

theorem Failing.land {t : Batched S} (writes : Failing store b s₀ t) {landed : DelayedWrites S Write}
    (moved : t.store.land store.apply = some landed) : Failing store b s₀ { t with store := landed } := by
  obtain ⟨before, all, current⟩ := writes.landed
  unfold DelayedWrites.land at moved
  split at moved
  · cases moved
  · next w pending next =>
    cases moved
    refine ⟨before ++ [w], by simp [all, next], ?_⟩
    rw [applyAll_append, current]
    rfl

theorem At.step {t t' : Batched S} {a : BatchAct} (here : At store b s₀ t)
    (moved : store.step b t a = some t') :
    At store b s₀ t' := by
  cases a with
  | issue =>
    cases here with
    | loading progress rest => exact at_issue progress rest moved
    | failing answer progress writes => simp [RefusingStore.step, progress] at moved
    | failed progress writes => simp [RefusingStore.step, progress] at moved
    | accepted answer progress => simp [RefusingStore.step, progress] at moved
    | answered answer progress => simp [RefusingStore.step, progress] at moved
  | land =>
    simp only [RefusingStore.step, Option.map_eq_some_iff] at moved
    obtain ⟨landed, moved, rfl⟩ := moved
    cases here with
    | loading progress rest => simp [rest, DelayedWrites.land] at moved
    | failing answer progress writes => exact .failing answer progress (writes.land moved)
    | failed progress writes => exact .failed progress (writes.land moved)
    | accepted answer progress => exact .accepted answer progress
    | answered answer progress => exact .answered answer progress
  | settle =>
    cases here with
    | loading progress rest => simp [RefusingStore.step, progress] at moved
    | failing answer progress writes =>
      simp only [RefusingStore.step, progress, Option.some.injEq] at moved
      subst moved
      exact .failed rfl ⟨writes.landed⟩
    | failed progress writes => simp [RefusingStore.step, progress] at moved
    | accepted answer progress =>
      simp only [RefusingStore.step, progress] at moved
      split at moved
      · cases moved
        exact .answered answer rfl
      · cases moved
    | answered answer progress => simp [RefusingStore.step, progress] at moved

/-- A request that has failed has changed the collection by the first of its leftovers. -/
theorem failing_of_run {acts : List BatchAct} {t : Batched S}
    (reached : run (store.step b) (start s₀) acts = some t)
    (failed : t.progress = .failed) : Failing store b s₀ t := by
  have here : At store b s₀ t := run_invariant (I := At store b s₀) (.loading rfl rfl)
    (fun _ _ _ => At.step) reached
  cases here with
  | loading progress rest => rw [progress] at failed; cases failed
  | failing answer progress writes => exact writes
  | failed progress writes => exact writes
  | accepted answer progress => rw [progress] at failed; cases failed
  | answered answer progress => rw [progress] at failed; cases failed

/-! ## What it comes to -/

theorem run_lands (landed rest : List Write) (s : S) (progress : BatchStatus) :
    run (store.step b) { store := { current := s, pending := landed ++ rest }, progress }
      (List.replicate landed.length .land) =
        some { store := { current := applyAll store.apply landed s, pending := rest }, progress } := by
  induction landed generalizing s with
  | nil => rfl
  | cons w landed ih =>
    rw [List.length_cons, List.replicate_succ, run_cons]
    exact ⟨_, rfl, ih (store.apply w s)⟩

/-- Where something is refused, the request can fail before anything has landed. -/
theorem exists_failed (some_ : store.leftovers b s₀ ≠ []) :
    ∃ acts, run (store.step b) (start s₀) acts =
      some { store := { current := s₀, pending := store.leftovers b s₀ }, progress := .failed } := by
  unfold leftovers at some_ ⊢
  cases made : b.calls with
  | error e => simp [made] at some_
  | ok result =>
    obtain ⟨calls, answer⟩ := result
    by_cases all : calls.all (store.accepts s₀) = true
    · simp [made, all] at some_
    · simp only [if_neg all]
      cases how : store.refusal with
      | throws =>
        refine ⟨[.issue], ?_⟩
        simp [run, step, start, made, all, how, DelayedWrites.issue]
      | rejects =>
        refine ⟨[.issue, .settle], ?_⟩
        simp [run, step, start, made, all, how, DelayedWrites.issue]

theorem get_of_isThere {w : Write} (there : store.IsThere s w)
    (same : ∀ k, store.get s₀ k = store.get s k) (k : String) :
    store.get (store.apply w s₀) k = store.get s k := by
  cases w with
  | del id => cases there
  | put doc =>
    obtain ⟨id, own, found⟩ := there
    change store.get (store.put doc s₀) k = _
    rw [store.get_put]
    split
    · next named =>
      have key : some id = some k := own.symm.trans named
      rw [Option.some.injEq] at key
      rw [← key, found]
    · exact same k

theorem get_applyAll_of_isThere {writes : List Write} (there : ∀ w ∈ writes, store.IsThere s w)
    (same : ∀ k, store.get s₀ k = store.get s k) (k : String) :
    store.get (applyAll store.apply writes s₀) k = store.get s k := by
  induction writes generalizing s₀ with
  | nil => exact same k
  | cons w writes ih =>
    exact ih (fun v member => there v (by simp [member])) (get_of_isThere (there w (by simp)) same)

/-- An accepted write that changes nothing puts what is there. -/
theorem isThere_of_get {w : Write} (ok : store.accepts s w = true) {s' : S}
    (same : ∀ k, store.get (store.apply w s') k = store.get s k) : store.IsThere s w := by
  cases w with
  | del id =>
    have gone := same id
    change store.get (store.del id s') id = _ at gone
    rw [store.get_del, if_pos rfl] at gone
    change (store.get s id).isSome = true at ok
    rw [← gone] at ok
    cases ok
  | put doc =>
    obtain ⟨id, own⟩ := Option.isSome_iff_exists.1 (show (store.idOf doc).isSome = true from ok)
    have found := same id
    change store.get (store.put doc s') id = _ at found
    have under : (doc.lookup "_id").bind store.key = some id := own
    rw [store.get_put, if_pos under] at found
    exact ⟨id, own, found.symm⟩

theorem isThere_of_failsIntact (intact : store.FailsIntact b s₀) : ∀ w ∈ store.leftovers b s₀,
    store.IsThere s₀ w := by
  intro w member
  obtain ⟨before, after, split⟩ := List.append_of_mem member
  obtain ⟨acts, failed⟩ := exists_failed (List.ne_nil_of_mem member)
  -- The request has failed; now the leftovers land, as far as this one.
  have parts : store.leftovers b s₀ = before ++ [w] ++ after := by simp [split]
  rw [parts] at failed
  have landed := intact _ _ (run_append.2 ⟨_, failed, run_lands (before ++ [w]) after s₀ .failed⟩) rfl
  simp only [applyAll_append] at landed
  exact isThere_of_get (accepts_of_mem_leftovers member) landed

variable (store b)

/-- **What a failed batch leaves behind**: what was accepted of it takes effect in its
order and nothing else does; the collection is what it was, from the failure on and in
every run, just when all that was accepted is there already. -/
theorem failed_batch (s₀ : S) :
    (∀ acts t, run (store.step b) (start s₀) acts = some t → t.progress = .failed →
      ∃ landed, store.leftovers b s₀ = landed ++ t.store.pending ∧
        t.store.current = applyAll store.apply landed s₀) ∧
      (store.FailsIntact b s₀ ↔ ∀ w ∈ store.leftovers b s₀, store.IsThere s₀ w) := by
  refine ⟨fun acts t reached failed => (failing_of_run reached failed).landed, isThere_of_failsIntact, ?_⟩
  intro there acts t reached failed k
  obtain ⟨landed, all, current⟩ := (failing_of_run reached failed).landed
  rw [current]
  exact get_applyAll_of_isThere (fun w member => there w (by simp [all, member])) (fun _ => rfl) k

end RefusingStore

/-- The documents by `_id`, with either way to refuse. -/
def refusingCollection (refusal : Refusal) : RefusingStore Collection where
  toLawfulStore := collectionStore
  refusal := refusal
  get_del id s k := Properties.lookup_without s.entries id k

def emptyCollection : Collection := ⟨[], by simp, by simp⟩

/-- The second element has no id; the first one stays in the collection. -/
def oneRefused : Batch := .create [.obj [("id", .str "a")], .obj [("name", .str "x")]]

theorem failed_batch_leaves :
    ¬(refusingCollection .throws).FailsIntact oneRefused emptyCollection ∧
      ¬(refusingCollection .rejects).FailsIntact oneRefused emptyCollection := by
  refine ⟨fun intact => ?_, fun intact => ?_⟩
  · exact Option.some_ne_none _ (intact [.issue, .land] _ rfl rfl "a")
  · exact Option.some_ne_none _ (intact [.issue, .settle, .land] _ rfl rfl "a")

end Fula.Graph
