import Fula.Lib.Run
import Fula.Graph.OrbitResolvers

/-!
# Concurrent mutations

Mutations run concurrently on one store, without any lock: each, once its
`loadDB` has returned, reads what has landed so far and issues its writes, and
is answered when its own writes have landed. An `updateQuery` that reads while
writes are pending puts back old documents; when none does, the mutations take
effect one after another, in the order in which they issued their writes.
-/

namespace Fula.Graph
set_option autoImplicit false
open Lib DelayedWrites

inductive Status where
  /-- In `loadDB`. -/
  | loading
  /-- In `Promise.all`. -/
  | writing (answer : Answer)
  | answered (answer : Answer)

structure Mutations (S : Type) where
  /-- A write carries the number of its request. -/
  store : DelayedWrites S (Nat × Write)
  requests : List (Mutation × Status)

inductive Act where
  /-- Request `i` goes on from `loadDB` to `Promise.all`. -/
  | issue (i : Nat)
  /-- The oldest pending write takes effect. -/
  | land
  /-- `Promise.all` of request `i` resolves. -/
  | answer (i : Nat)

variable {V S : Type} (js : JavaScript V) (store : DocStore S)

def applyNumbered (w : Nat × Write) : S → S := store.apply w.2

/-- A step that throws is none: the runs are those in which no request fails. -/
def step (s : Mutations S) : Act → Option (Mutations S)
  | .issue i => match s.requests[i]? with
    | some (m, .loading) => match m.run js (store.docs s.store.current) with
      | .ok (writes, answer) => some
        { store := s.store.issue (writes.map fun w => (i, w)), requests := s.requests.set i (m, .writing answer) }
      | .error _ => none
    | _ => none
  | .land => (s.store.land (applyNumbered store)).map fun landed => { s with store := landed }
  | .answer i => match s.requests[i]? with
    | some (m, .writing answer) =>
      if s.store.pending.any (·.1 = i) then none
      else some { s with requests := s.requests.set i (m, .answered answer) }
    | _ => none

/-- All requests on a collection at rest. -/
def start (ms : List Mutation) (s₀ : S) : Mutations S :=
  { store := { current := s₀ }, requests := ms.map fun m => (m, .loading) }

def Status.isLoading : Status → Bool
  | .loading => true
  | _ => false

def Status.isAnswered : Status → Bool
  | .answered _ => true
  | _ => false

/-- What request `i` of `ms` writes in the state `s`. -/
def writesOf (ms : List Mutation) (i : Nat) (s : S) : Option (List (Nat × Write)) := do
  let m ← ms[i]?
  let writes ← m.writes js store s
  return writes.map fun w => (i, w)

/-- The requests of `ms` one after another, in the order of the given numbers. -/
def serialRun (ms : List Mutation) (order : List Nat) (s₀ : S) : Option S :=
  serial (applyNumbered store) (writesOf js store ms) order s₀

/-- When `updateQuery` reads, it is answered as if the pending writes had landed. -/
def ReadsSettled (s : Mutations S) : Act → Prop
  | .issue i => ∀ filter value status, s.requests[i]? = some (.updateQuery filter value, status) →
      query js filter (store.docs s.store.current) = query js filter (store.docs (s.store.settled (applyNumbered store)))
  | .land => True
  | .answer _ => True

/-! ## Serializability -/

variable {js store}

/-- Only `updateQuery` reads. -/
theorem Mutation.run_congr {m : Mutation} {docs docs' : List Doc}
    (same : ∀ filter value, m = .updateQuery filter value → query js filter docs = query js filter docs') :
    m.run js docs = m.run js docs' := by
  cases m with
  | create values => rfl
  | update values => rfl
  | delete ids => rfl
  | updateQuery filter value => simp only [Mutation.run, Graph.updateQuery, same filter value rfl]

/-- `order` lists the requests that have issued their writes, and the settled
state is what they lead to one after another. -/
structure Serialized (js : JavaScript V) (store : DocStore S) (ms : List Mutation) (s₀ : S) (s : Mutations S)
    (order : List Nat) : Prop where
  kept : s.requests.map (·.1) = ms
  once : order.Nodup
  issued : ∀ i, i ∈ order ↔ ∃ m status, s.requests[i]? = some (m, status) ∧ status.isLoading = false
  serial : serialRun js store ms order s₀ = some (s.store.settled (applyNumbered store))
  owned : ∀ w ∈ s.store.pending, ∃ m answer, s.requests[w.1]? = some (m, .writing answer)

theorem serialized_start (ms : List Mutation) (s₀ : S) : Serialized js store ms s₀ (start ms s₀) [] := by
  constructor
  · simp [start, List.map_map, Function.comp_def]
  · exact List.nodup_nil
  · intro i
    simp only [List.not_mem_nil, false_iff, start, List.getElem?_map, Option.map_eq_some_iff]
    rintro ⟨m, status, ⟨m', -, same⟩, later⟩
    cases same
    cases later
  · rfl
  · intro w member
    cases member

variable {ms : List Mutation} {s₀ : S} {s s' : Mutations S} {order : List Nat} {i : Nat} {m : Mutation}

/-- A request changes its status and nothing else of itself. -/
theorem kept_set {status status' : Status} (at_ : s.requests[i]? = some (m, status)) :
    (s.requests.set i (m, status')).map (·.1) = s.requests.map (·.1) := by
  apply List.ext_getElem?
  intro j
  by_cases same : i = j
  · subst same
    rw [List.getElem?_map, List.getElem?_set_self (List.getElem?_eq_some_iff.1 at_).1, List.getElem?_map, at_]
    rfl
  · rw [List.getElem?_map, List.getElem?_set_ne same, List.getElem?_map]

theorem Serialized.issue (h : Serialized js store ms s₀ s order) (at_ : s.requests[i]? = some (m, .loading))
    {writes : List Write} {answer : Answer} (reads : m.run js (store.docs (s.store.settled (applyNumbered store))) =
      .ok (writes, answer)) :
    Serialized js store ms s₀
      { store := s.store.issue (writes.map fun w => (i, w)), requests := s.requests.set i (m, .writing answer) }
      (order ++ [i]) := by
  have inside := (List.getElem?_eq_some_iff.1 at_).1
  constructor
  · rw [kept_set at_]; exact h.kept
  · have fresh : i ∉ order := by
      intro member
      obtain ⟨m', status, there, later⟩ := (h.issued i).1 member
      rw [at_] at there
      cases there
      cases later
    exact List.nodup_append.2 ⟨h.once, List.nodup_singleton i, by
      intro j member k last same
      rw [List.mem_singleton.1 last] at same
      exact fresh (same ▸ member)⟩
  · intro j
    rw [List.mem_append, List.mem_singleton, h.issued j]
    by_cases same : i = j
    · subst same
      simp [List.getElem?_set_self inside, Status.isLoading]
    · simp [List.getElem?_set_ne same, Ne.symm same]
  · apply serial_issue h.serial
    have own : ms[i]? = some m := by rw [← h.kept, List.getElem?_map, at_]; rfl
    simp [writesOf, own, Mutation.writes, reads, Except.toOption]
  · intro w member
    rcases List.mem_append.1 member with old | new
    · obtain ⟨m', answer', there⟩ := h.owned w old
      have other : i ≠ w.1 := by
        intro same
        rw [← same, at_] at there
        cases there
      exact ⟨m', answer', by rw [List.getElem?_set_ne other]; exact there⟩
    · obtain ⟨v, -, rfl⟩ := List.mem_map.1 new
      exact ⟨m, answer, List.getElem?_set_self inside⟩

theorem Serialized.land (h : Serialized js store ms s₀ s order) {landed : DelayedWrites S (Nat × Write)}
    (moved : s.store.land (applyNumbered store) = some landed) :
    Serialized js store ms s₀ { s with store := landed } order := by
  constructor
  · exact h.kept
  · exact h.once
  · exact h.issued
  · rw [settled_land _ moved]; exact h.serial
  · intro w member
    exact h.owned w (pending_land _ moved member)

theorem Serialized.answer (h : Serialized js store ms s₀ s order) {answer : Answer}
    (at_ : s.requests[i]? = some (m, .writing answer)) (landed : ¬ s.store.pending.any (·.1 = i) = true) :
    Serialized js store ms s₀ { s with requests := s.requests.set i (m, .answered answer) } order := by
  have inside := (List.getElem?_eq_some_iff.1 at_).1
  constructor
  · rw [kept_set at_]; exact h.kept
  · exact h.once
  · intro j
    rw [h.issued j]
    by_cases same : i = j
    · subst same
      simp [List.getElem?_set_self inside, at_, Status.isLoading]
    · simp [List.getElem?_set_ne same]
  · exact h.serial
  · intro w member
    obtain ⟨m', answer', there⟩ := h.owned w member
    have other : i ≠ w.1 := by
      intro same
      exact landed (List.any_eq_true.2 ⟨w, member, by simp [same]⟩)
    exact ⟨m', answer', by rw [List.getElem?_set_ne other]; exact there⟩

theorem Serialized.step {a : Act} (h : Serialized js store ms s₀ s order) (settled : ReadsSettled js store s a)
    (moved : step js store s a = some s') : ∃ order', Serialized js store ms s₀ s' order' := by
  cases a with
  | issue i =>
    simp only [Graph.step] at moved
    split at moved
    · next m at_ =>
      split at moved
      · next writes answer ran =>
        cases moved
        refine ⟨order ++ [i], h.issue at_ ?_⟩
        rw [← ran]
        apply Mutation.run_congr
        rintro filter value rfl
        exact (settled filter value _ at_).symm
      · cases moved
    · cases moved
  | land =>
    simp only [Graph.step, Option.map_eq_some_iff] at moved
    obtain ⟨landed, moved, rfl⟩ := moved
    exact ⟨order, h.land moved⟩
  | answer i =>
    simp only [Graph.step] at moved
    split at moved
    · next m answer at_ =>
      split at moved
      · cases moved
      · next landed =>
        cases moved
        exact ⟨order, h.answer at_ landed⟩
    · cases moved

/-- Once every request is answered no write is pending. -/
theorem Serialized.quiet (h : Serialized js store ms s₀ s order) (done : ∀ r ∈ s.requests, r.2.isAnswered = true) :
    s.store.pending = [] := by
  rw [List.eq_nil_iff_forall_not_mem]
  intro w member
  obtain ⟨m, answer, there⟩ := h.owned w member
  have := done _ (List.mem_of_getElem? there)
  cases this

theorem Serialized.perm (h : Serialized js store ms s₀ s order) (done : ∀ r ∈ s.requests, r.2.isAnswered = true) :
    order.Perm (List.range ms.length) := by
  apply (List.perm_ext_iff_of_nodup h.once List.nodup_range).2
  intro i
  rw [h.issued, List.mem_range, ← h.kept, List.length_map]
  constructor
  · rintro ⟨m, status, there, -⟩
    exact (List.getElem?_eq_some_iff.1 there).1
  · intro inside
    refine ⟨s.requests[i].1, s.requests[i].2, List.getElem?_eq_getElem inside, ?_⟩
    have answered := done _ (List.getElem_mem inside)
    generalize s.requests[i].2 = status at answered
    cases status with
    | loading => cases answered
    | writing answer => rfl
    | answered answer => rfl

/-- **Mutations are serializable** in every run in which each `updateQuery`
reads as if the writes issued before had landed. -/
theorem mutations_serializable {acts : List Act} {t : Mutations S}
    (settled : StepsMeet (step js store) (ReadsSettled js store) (start ms s₀) acts)
    (reached : run (step js store) (start ms s₀) acts = some t) (done : ∀ r ∈ t.requests, r.2.isAnswered = true) :
    ∃ order : List Nat, order.Perm (List.range ms.length) ∧ serialRun js store ms order s₀ = some t.store.current := by
  have invariant : ∃ order, Serialized js store ms s₀ t order := by
    refine run_invariant_of (I := fun s => ∃ order, Serialized js store ms s₀ s order)
      ⟨[], serialized_start ms s₀⟩ ?_
      settled reached
    rintro s a s' ⟨order, h⟩ meets moved
    exact h.step meets moved
  obtain ⟨order, h⟩ := invariant
  refine ⟨order, h.perm done, ?_⟩
  rw [h.serial, settled_of_pending_nil _ (h.quiet done)]

/-- Of the comparisons `==` on strings alone. -/
def stringsEqual : JavaScript (Option Json) where
  get doc name := doc.lookup name
  ne _ _ := false
  gt _ _ := false
  lt _ _ := false
  gte _ _ := false
  lte _ _ := false
  eq
    | some (.str s), .str t => s == t
    | _, _ => false
  strictEq _ _ := false

def inKaraj : Json := .obj [("city", .obj [("eq", .str "karaj")])]

/-- A document is created, and those in one city are named. -/
def createAndUpdate : List Mutation :=
  [.create [[("id", .str "1"), ("city", .str "tehran")]], .updateQuery inKaraj (.obj [("name", .str "mahdi")])]

def oneInKaraj : List (String × Doc) := [("0", [("_id", .str "0"), ("city", .str "karaj")])]

def bothDone : List (String × Doc) :=
  [("0", [("_id", .str "0"), ("city", .str "karaj"), ("name", .str "mahdi")]),
    ("1", [("_id", .str "1"), ("id", .str "1"), ("city", .str "tehran")])]

/-- The update reads while the put of a document that it does not select is pending. -/
theorem mutations_serializable_sample :
    ∃ order : List Nat, order.Perm (List.range 2) ∧
      serialRun stringsEqual listStore createAndUpdate order oneInKaraj = some bothDone := by
  obtain ⟨t, reached, done, landed⟩ : ∃ t, run (step stringsEqual listStore) (start createAndUpdate oneInKaraj)
      [.issue 0, .issue 1, .land, .land, .answer 0, .answer 1] = some t ∧
      (∀ r ∈ t.requests, r.2.isAnswered = true) ∧ t.store.current = bothDone :=
    ⟨_, rfl, List.forall_mem_cons.2 ⟨rfl, List.forall_mem_singleton.2 rfl⟩, rfl⟩
  rw [← landed]
  refine mutations_serializable ?_ reached done
  refine stepsMeet_cons (fun _ _ _ here => by cases here) rfl ?_
  refine stepsMeet_cons (fun _ _ _ here => by cases here; rfl) rfl ?_
  refine stepsMeet_cons trivial rfl ?_
  refine stepsMeet_cons trivial rfl ?_
  refine stepsMeet_cons trivial rfl ?_
  exact stepsMeet_cons trivial rfl trivial

/-! ## Two updates of one document -/

/-- Each sets its own field in all documents. -/
def twoUpdates : List Mutation :=
  [.updateQuery (.obj []) (.obj [("name", .str "mahdi")]), .updateQuery (.obj []) (.obj [("city", .str "karaj")])]

def oneDocument : List (String × Doc) := [("0", [("_id", .str "0")])]

/-- Both read before either has written: the first one's field is lost, as in
neither order. -/
theorem mutations_lose_update :
    ∃ t, run (step noComparisons listStore) (start twoUpdates oneDocument)
        [.issue 0, .issue 1, .land, .land, .answer 0, .answer 1] = some t ∧
      (∀ r ∈ t.requests, r.2.isAnswered = true) ∧
      ∀ order : List Nat, order.Perm (List.range 2) →
        serialRun noComparisons listStore twoUpdates order oneDocument ≠ some t.store.current := by
  have reached : run (step noComparisons listStore) (start twoUpdates oneDocument)
      [.issue 0, .issue 1, .land, .land, .answer 0, .answer 1] = some
        { store := { current := [("0", [("_id", .str "0"), ("city", .str "karaj")])] }
          requests := [(.updateQuery (.obj []) (.obj [("name", .str "mahdi")]),
              .answered (.values [[("_id", .str "0"), ("name", .str "mahdi")]])),
            (.updateQuery (.obj []) (.obj [("city", .str "karaj")]),
              .answered (.values [[("_id", .str "0"), ("city", .str "karaj")]]))] } :=
    rfl
  refine ⟨_, reached, by simp [Status.isAnswered], ?_⟩
  intro order perm
  obtain ⟨a, b, rfl⟩ := List.length_eq_two.1 perm.length_eq
  have apart : a ≠ b := by simpa using perm.nodup_iff.2 List.nodup_range
  have below : a < 2 := List.mem_range.1 (perm.subset (by simp))
  have below' : b < 2 := List.mem_range.1 (perm.subset (by simp))
  have listed : a = 0 ∧ b = 1 ∨ a = 1 ∧ b = 0 := by omega
  have first : serialRun noComparisons listStore twoUpdates [0, 1] oneDocument =
    some [("0", [("_id", .str "0"), ("name", .str "mahdi"), ("city", .str "karaj")])] := rfl
  have second : serialRun noComparisons listStore twoUpdates [1, 0] oneDocument =
    some [("0", [("_id", .str "0"), ("city", .str "karaj"), ("name", .str "mahdi")])] := rfl
  rcases listed with ⟨rfl, rfl⟩ | ⟨rfl, rfl⟩
  · rw [first]; simp
  · rw [second]; simp

end Fula.Graph
