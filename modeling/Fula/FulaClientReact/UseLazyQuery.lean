import Fula.Lib.Json
import Fula.Lib.Run

/-!
# `useLazyQuery` (`fula-client-react/src/hooks/UseLazyQuery.ts`)

One hook in a mounted component: its three pieces of state, and the requests made through it, each
a promise chain `graphql(..).then(..).catch(..).finally(..)`. The chains run side by side and all
of them set the same state. `graphql` is an async function, so the `catch` around the call is
never taken.

`shows_latest_iff` says in which runs the hook shows the latest request.
-/

namespace Fula.FulaClientReact
set_option autoImplicit false
open Lib

/-- How the promise of a request settles. -/
abbrev Outcome (ε : Type) := Except ε Json

/-- Where the chain of a request is. -/
inductive Request (ε : Type) where
  | sent
  /-- The callback of `then` or `catch` has run, that of `finally` has not. -/
  | handled (outcome : Outcome ε)
  | finished (outcome : Outcome ε)

structure UseLazyQuery (ε : Type) where
  data : Option (List (String × Json)) := none
  error : Option ε := none
  loading : Bool := false
  requests : List (Request ε) := []

inductive Act (ε : Type) where
  /-- `request(options)`, with or without a client in the context, and with the body of the query. -/
  | request (fula : Bool) (body : Option String)
  /-- The promise of a request has settled: the callback of `then` or `catch` runs. -/
  | settle (i : Nat) (outcome : Outcome ε)
  /-- The callback of `finally` runs. -/
  | finish (i : Nat)

/-- `{...(query?.data || {})}` -/
def spread (query : Json) : List (String × Json) :=
  match query with
  | .obj fields => match fields.lookup "data" with
    | some data => if data.truthy then data.entries.getD [] else []
    | none => []
  | _ => []

variable {ε : Type}

namespace UseLazyQuery

def step (s : UseLazyQuery ε) : Act ε → Option (UseLazyQuery ε)
  | .request fula body =>
    if fula && body.any (· ≠ "") then some { s with loading := true, requests := s.requests ++ [.sent] } else some s
  | .settle i outcome => match s.requests[i]? with
    | some .sent =>
      let s := { s with requests := s.requests.set i (.handled outcome) }
      match outcome with
      | .ok query => some { s with data := some (spread query) }
      | .error error => some { s with error := some error }
    | _ => none
  | .finish i => match s.requests[i]? with
    | some (.handled outcome) => some { s with loading := false, requests := s.requests.set i (.finished outcome) }
    | _ => none

end UseLazyQuery

/-! ## What is to be shown -/

namespace Request

def Unanswered : Request ε → Prop
  | finished _ => False
  | _ => True

/-- What the request has answered. -/
def data? : Request ε → Option (List (String × Json))
  | handled (.ok query) | finished (.ok query) => some (spread query)
  | _ => none

/-- How the request has failed. -/
def error? : Request ε → Option ε
  | handled (.error error) | finished (.error error) => some error
  | _ => none

end Request

open UseLazyQuery

variable {s s' t : UseLazyQuery ε} {i : Nat}

/-- The hook shows the latest request. -/
structure Shows (s : UseLazyQuery ε) : Prop where
  loading : s.loading = true ↔ ∃ r ∈ s.requests, r.Unanswered
  data : (∀ r ∈ s.requests, ¬r.Unanswered) → s.data = s.requests.getLast?.bind (·.data?)
  error : (∀ r ∈ s.requests, ¬r.Unanswered) → s.error = s.requests.getLast?.bind (·.error?)

/-- A request that is finished is the only one that was unanswered, and all the others have ended as it has. -/
def Alone (s : UseLazyQuery ε) : Act ε → Prop
  | .finish i => ∀ r, s.requests[i]? = some r → ∀ (j : Nat) r', j ≠ i → s.requests[j]? = some r' →
      ¬r'.Unanswered ∧ (r.error? = none → r'.error? = none) ∧ (r.data? = none → r'.data? = none)
  | _ => True

/-! ## Requests one by one -/

/-- The last thing there is among the requests. -/
def lastOf {β : Type} (f : Request ε → Option β) (requests : List (Request ε)) : Option β := (requests.filterMap f).getLast?

theorem lastOf_snoc {β : Type} (f : Request ε → Option β) (requests : List (Request ε)) (r : Request ε) :
    lastOf f (requests ++ [r]) = (f r).or (lastOf f requests) := by
  unfold lastOf
  rw [List.filterMap_append]
  cases here : f r with
  | none => simp [here]
  | some b => simp [here]

theorem lastOf_eq_none {β : Type} {f : Request ε → Option β} {requests : List (Request ε)} :
    lastOf f requests = none ↔ ∀ r ∈ requests, f r = none := by
  rw [lastOf, List.getLast?_eq_none_iff, List.filterMap_eq_nil_iff]

/-- All requests but the last have been answered, and the hook has kept the last of what they answered. -/
structure Orderly (olds : List (Request ε)) (last : Option (Request ε)) (s : UseLazyQuery ε) : Prop where
  requests : s.requests = olds ++ last.toList
  answered : ∀ r ∈ olds, ¬r.Unanswered
  open_ : ∀ r ∈ last, r.Unanswered
  data : s.data = lastOf Request.data? s.requests
  error : s.error = lastOf Request.error? s.requests

/-- Two requests are unanswered. -/
def Overlaps (s : UseLazyQuery ε) : Prop :=
  ∃ (i j : Nat) (r r' : Request ε), i ≠ j ∧ s.requests[i]? = some r ∧ s.requests[j]? = some r' ∧ r.Unanswered ∧ r'.Unanswered

/-- What carries the runs: from an overlap no request can be finished alone. -/
structure Standing (s : UseLazyQuery ε) : Prop where
  shows_ : Shows s
  order : Overlaps s ∨ ∃ olds last, Orderly olds last s

theorem standing_init : Standing ({} : UseLazyQuery ε) where
  shows_ := ⟨by simp, fun _ => rfl, fun _ => rfl⟩
  order := .inr ⟨[], none, rfl, by simp, by simp, rfl, rfl⟩

theorem Standing.request (h : Standing s) :
    Standing { s with loading := true, requests := s.requests ++ [.sent] } where
  shows_ := by
    have open_ : ∃ r ∈ s.requests ++ [.sent], r.Unanswered := ⟨.sent, by simp, trivial⟩
    refine ⟨iff_of_true rfl open_, fun all => ?_, fun all => ?_⟩
    · exact absurd trivial (all .sent (by simp))
    · exact absurd trivial (all .sent (by simp))
  order := by
    have kept {k : Nat} {r : Request ε} (at_ : s.requests[k]? = some r) : (s.requests ++ [.sent])[k]? = some r := by
      rw [List.getElem?_append_left (List.getElem?_eq_some_iff.1 at_).1, at_]
    have last : (s.requests ++ [.sent])[s.requests.length]? = some .sent := by simp
    rcases h.order with ⟨i, j, r, r', apart, atI, atJ, openI, openJ⟩ | ⟨olds, now, orderly⟩
    · exact .inl ⟨i, j, r, r', apart, kept atI, kept atJ, openI, openJ⟩
    · cases now with
      | none =>
        have only : s.requests = olds := by simpa using orderly.requests
        refine .inr ⟨s.requests, some .sent, rfl, only ▸ orderly.answered, by simp [Request.Unanswered], ?_, ?_⟩
        · rw [lastOf_snoc, ← orderly.data]
          rfl
        · rw [lastOf_snoc, ← orderly.error]
          rfl
      | some r =>
        have at_ : s.requests[olds.length]? = some r := by simp [orderly.requests]
        refine .inl ⟨olds.length, s.requests.length, r, .sent, ?_, kept at_, last, orderly.open_ r rfl, trivial⟩
        simp [orderly.requests]

/-- The request of an orderly state that has not been finished is the last. -/
theorem Orderly.at_last {olds : List (Request ε)} {last : Option (Request ε)} {r : Request ε} (h : Orderly olds last s)
    (at_ : s.requests[i]? = some r) (open_ : r.Unanswered) : i = olds.length ∧ last = some r := by
  rw [h.requests] at at_
  rcases Nat.lt_or_ge i olds.length with old | new
  · rw [List.getElem?_append_left old] at at_
    exact absurd open_ (h.answered r (List.mem_of_getElem? at_))
  · rw [List.getElem?_append_right new] at at_
    cases last with
    | none => simp at at_
    | some r' =>
      have inside := (List.getElem?_eq_some_iff.1 at_).1
      simp only [Option.toList_some, List.length_singleton] at inside
      obtain rfl : i = olds.length := by omega
      simp only [Option.toList_some, Nat.sub_self, List.getElem?_cons_zero] at at_
      exact ⟨rfl, at_⟩

theorem Orderly.set_last {olds : List (Request ε)} {r r' : Request ε} (h : Orderly olds (some r) s) :
    s.requests.set olds.length r' = olds ++ [r'] := by
  rw [h.requests, List.set_append_right _ _ (Nat.le_refl _), Nat.sub_self]
  rfl

/-- Which requests are unanswered, where one that was and still is has changed. -/
theorem exists_set_unanswered {requests : List (Request ε)} {r r' : Request ε} (at_ : requests[i]? = some r)
    (before : r.Unanswered) (after : r'.Unanswered) :
    (∃ x ∈ requests.set i r', x.Unanswered) ↔ ∃ x ∈ requests, x.Unanswered := by
  have inside := (List.getElem?_eq_some_iff.1 at_).1
  exact iff_of_true ⟨r', List.mem_set inside r', after⟩ ⟨r, List.mem_of_getElem? at_, before⟩

theorem Standing.settle {outcome : Outcome ε} (h : Standing s) (moved : step s (.settle i outcome) = some s') : Standing s' := by
  simp only [step] at moved
  split at moved
  case h_2 => cases moved
  next at_ =>
    have inside := (List.getElem?_eq_some_iff.1 at_).1
    have same : s'.loading = s.loading ∧ s'.requests = s.requests.set i (.handled outcome) := by
      cases outcome <;> cases moved <;> exact ⟨rfl, rfl⟩
    have open_ : ∃ r ∈ s'.requests, r.Unanswered := by
      rw [same.2]
      exact ⟨_, List.mem_set inside _, trivial⟩
    have never : ¬∀ r ∈ s'.requests, ¬r.Unanswered := by simpa using open_
    refine ⟨⟨?_, fun all => absurd all never, fun all => absurd all never⟩, ?_⟩
    · rw [same.1, same.2, h.shows_.loading]
      have still : (∃ x ∈ s.requests.set i (.handled outcome), x.Unanswered) ↔ ∃ x ∈ s.requests, x.Unanswered :=
        exists_set_unanswered at_ trivial trivial
      exact still.symm
    · rcases h.order with ⟨a, b, r, r', apart, atA, atB, openA, openB⟩ | ⟨olds, last, orderly⟩
      · have still {k : Nat} {x : Request ε} (there : s.requests[k]? = some x) (unanswered : x.Unanswered) :
            ∃ y, s'.requests[k]? = some y ∧ y.Unanswered := by
          rw [same.2]
          by_cases here : i = k
          · subst here
            exact ⟨.handled outcome, List.getElem?_set_self inside, trivial⟩
          · exact ⟨x, by rw [List.getElem?_set_ne here, there], unanswered⟩
        obtain ⟨x, atX, openX⟩ := still atA openA
        obtain ⟨y, atY, openY⟩ := still atB openB
        exact .inl ⟨a, b, x, y, apart, atX, atY, openX, openY⟩
      · obtain ⟨rfl, rfl⟩ := orderly.at_last at_ trivial
        rw [orderly.set_last] at same
        have before (β : Type) (f : Request ε → Option β) (none_ : f .sent = none) :
            lastOf f s.requests = lastOf f olds := by
          rw [orderly.requests, Option.toList_some, lastOf_snoc, none_, Option.none_or]
        refine .inr ⟨olds, some (.handled outcome), same.2, orderly.answered, by simp [Request.Unanswered], ?_, ?_⟩
        · rw [same.2, lastOf_snoc, ← before _ _ rfl, ← orderly.data]
          cases outcome <;> cases moved <;> rfl
        · rw [same.2, lastOf_snoc, ← before _ _ rfl, ← orderly.error]
          cases outcome <;> cases moved <;> rfl

/-! ## The end of a request -/

theorem finish_eq (moved : step s (.finish i) = some s') : ∃ outcome, s.requests[i]? = some (.handled outcome) ∧
    s' = { s with loading := false, requests := s.requests.set i (.finished outcome) } := by
  simp only [step] at moved
  split at moved
  · next outcome at_ =>
    cases moved
    exact ⟨outcome, at_, rfl⟩
  · cases moved

/-- The last request of an orderly state is finished: the hook shows it just when the ones before it ended
in the same way. -/
theorem Orderly.shows_iff {olds : List (Request ε)} {outcome : Outcome ε} (h : Orderly olds (some (.handled outcome)) s) :
    Shows { s with loading := false, requests := olds ++ [.finished outcome] } ↔
      ∀ r ∈ olds, ((Request.finished outcome).error? = none → r.error? = none) ∧
        ((Request.finished outcome).data? = none → r.data? = none) := by
  have all : ∀ r ∈ olds ++ [.finished outcome], ¬r.Unanswered := by
    intro r member
    rcases List.mem_append.1 member with old | new
    · exact h.answered r old
    · rw [List.mem_singleton.1 new]
      exact id
  have none_ : ¬∃ r ∈ olds ++ [.finished outcome], r.Unanswered := fun ⟨r, member, open_⟩ => all r member open_
  have last {β : Type} (f : Request ε → Option β) :
      (olds ++ [Request.finished outcome]).getLast?.bind f = f (.finished outcome) := by simp
  have data : s.data = (Request.finished outcome).data?.or (lastOf Request.data? olds) := by
    rw [h.data, h.requests, Option.toList_some, lastOf_snoc]
    cases outcome <;> rfl
  have error : s.error = (Request.finished outcome).error?.or (lastOf Request.error? olds) := by
    rw [h.error, h.requests, Option.toList_some, lastOf_snoc]
    cases outcome <;> rfl
  have or_iff {β : Type} {o x : Option β} : o.or x = o ↔ (o = none → x = none) := by
    cases o <;> simp
  constructor
  · intro shows_ r old
    have data' := shows_.data all
    have error' := shows_.error all
    rw [last] at data' error'
    rw [data] at data'
    rw [error] at error'
    exact ⟨fun none_ => lastOf_eq_none.1 (or_iff.1 error' none_) r old,
      fun none_ => lastOf_eq_none.1 (or_iff.1 data' none_) r old⟩
  · intro same
    refine ⟨iff_of_false (by simp) none_, fun _ => ?_, fun _ => ?_⟩
    · rw [last]
      refine data.trans ?_
      exact or_iff.2 fun none_ => lastOf_eq_none.2 fun r old => (same r old).2 none_
    · rw [last]
      refine error.trans ?_
      exact or_iff.2 fun none_ => lastOf_eq_none.2 fun r old => (same r old).1 none_

theorem Orderly.finish {olds : List (Request ε)} {outcome : Outcome ε} (h : Orderly olds (some (.handled outcome)) s) :
    Orderly (olds ++ [.finished outcome]) none { s with loading := false, requests := olds ++ [.finished outcome] } where
  requests := by simp
  answered r member := by
    rcases List.mem_append.1 member with old | new
    · exact h.answered r old
    · rw [List.mem_singleton.1 new]
      exact id
  open_ := by simp
  data := by
    show s.data = _
    rw [h.data, h.requests, Option.toList_some, lastOf_snoc, lastOf_snoc]
    cases outcome <;> rfl
  error := by
    show s.error = _
    rw [h.error, h.requests, Option.toList_some, lastOf_snoc, lastOf_snoc]
    cases outcome <;> rfl

/-- A request that is finished alone was the last. -/
theorem Standing.orderly {outcome : Outcome ε} (h : Standing s) (at_ : s.requests[i]? = some (.handled outcome))
    (alone : ∀ (j : Nat) r, j ≠ i → s.requests[j]? = some r → ¬r.Unanswered) :
    ∃ olds, Orderly olds (some (.handled outcome)) s ∧ i = olds.length := by
  rcases h.order with ⟨a, b, r, r', apart, atA, atB, openA, openB⟩ | ⟨olds, last, orderly⟩
  · by_cases first : a = i
    · exact absurd openB (alone b r' (fun same => apart (first.trans same.symm)) atB)
    · exact absurd openA (alone a r first atA)
  · obtain ⟨here, rfl⟩ := orderly.at_last at_ trivial
    exact ⟨olds, orderly, here⟩

/-- The requests before the last, by their places. -/
theorem Orderly.forall_olds {olds : List (Request ε)} {r : Request ε} (h : Orderly olds (some r) s) (p : Request ε → Prop) :
    (∀ x ∈ olds, p x) ↔ ∀ (j : Nat) x, j ≠ olds.length → s.requests[j]? = some x → p x := by
  rw [h.requests]
  constructor
  · intro all j x other at_
    rcases Nat.lt_or_ge j olds.length with old | new
    · rw [List.getElem?_append_left old] at at_
      exact all x (List.mem_of_getElem? at_)
    · have inside := (List.getElem?_eq_some_iff.1 at_).1
      simp only [Option.toList_some, List.length_append, List.length_singleton] at inside
      omega
  · intro all x member
    obtain ⟨j, inside, rfl⟩ := List.mem_iff_getElem.1 member
    exact all j _ (Nat.ne_of_lt inside) (by rw [List.getElem?_append_left inside, List.getElem?_eq_getElem inside])

theorem handled_alone_iff {outcome : Outcome ε} (at_ : s.requests[i]? = some (.handled outcome)) :
    Alone s (.finish i) ↔ ∀ (j : Nat) r, j ≠ i → s.requests[j]? = some r → ¬r.Unanswered ∧
      ((Request.finished outcome).error? = none → r.error? = none) ∧
      ((Request.finished outcome).data? = none → r.data? = none) := by
  have same : (Request.handled outcome).error? = (Request.finished outcome).error? ∧
      (Request.handled outcome).data? = (Request.finished outcome).data? := by
    cases outcome <;> exact ⟨rfl, rfl⟩
  rw [← same.1, ← same.2]
  constructor
  · intro alone
    exact alone _ at_
  · intro alone r here
    rw [at_, Option.some.injEq] at here
    subst here
    exact alone

theorem Standing.step {a : Act ε} (h : Standing s) (alone : Alone s a) (moved : UseLazyQuery.step s a = some s') :
    Standing s' := by
  cases a with
  | request fula body =>
    simp only [UseLazyQuery.step] at moved
    split at moved <;> cases moved
    · exact h.request
    · exact h
  | settle i outcome => exact h.settle moved
  | finish i =>
    obtain ⟨outcome, at_, rfl⟩ := finish_eq moved
    have alone' := (handled_alone_iff at_).1 alone
    obtain ⟨olds, orderly, rfl⟩ := h.orderly at_ fun j r other there => (alone' j r other there).1
    rw [orderly.set_last]
    refine ⟨orderly.shows_iff.2 ?_, .inr ⟨_, none, orderly.finish⟩⟩
    exact (orderly.forall_olds _).2 fun j r other there => (alone' j r other there).2

/-- An end that leaves the hook showing the latest request came alone. -/
theorem Standing.alone {a : Act ε} (h : Standing s) (moved : UseLazyQuery.step s a = some s') (shows_ : Shows s') :
    Alone s a := by
  cases a with
  | request fula body => trivial
  | settle i outcome => trivial
  | finish i =>
    obtain ⟨outcome, at_, rfl⟩ := finish_eq moved
    have answered : ∀ (j : Nat) r, j ≠ i → s.requests[j]? = some r → ¬r.Unanswered := by
      intro j r other there open_
      have loads := shows_.loading.2 ⟨r, ?_, open_⟩
      · cases loads
      · exact List.mem_of_getElem? (by rw [List.getElem?_set_ne (Ne.symm other), there])
    obtain ⟨olds, orderly, rfl⟩ := h.orderly at_ answered
    rw [orderly.set_last] at shows_
    have same := (orderly.forall_olds _).1 (orderly.shows_iff.1 shows_)
    exact (handled_alone_iff at_).2 fun j r other there => ⟨answered j r other there, same j r other there⟩

/-- **The hook shows the latest request** at every moment of a run, just when no request is finished while
another is unanswered, and none that succeeds comes after one that failed, or the other way round. -/
theorem shows_latest_iff {acts : List (Act ε)} (reached : run step {} acts = some s) :
    (∀ as m, as <+: acts → run step {} as = some m → Shows m) ↔ StepsMeet step Alone {} acts :=
  everywhere_iff_of (fun _ => Standing.shows_) (fun _ _ _ h alone moved => h.step alone moved)
    (fun _ _ _ h moved shows_ => h.alone moved shows_) standing_init reached

/-- A request after the answer to another, and its answer. -/
def sampleActs : List (Act String) := [.request true (some "q"), .settle 0 (.ok (.obj [])), .finish 0,
  .request true (some "q"), .settle 1 (.ok (.obj [])), .finish 1]

theorem shows_latest_iff_sample : ∃ s, run step ({} : UseLazyQuery String) sampleActs = some s ∧
    ∀ as m, as <+: sampleActs → run step ({} : UseLazyQuery String) as = some m → Shows m := by
  refine ⟨_, rfl, (shows_latest_iff rfl).2 ?_⟩
  refine stepsMeet_cons trivial rfl (stepsMeet_cons trivial rfl (stepsMeet_cons ?_ rfl ?_))
  · rintro r ⟨⟩ (_ | j) r' other ⟨⟩
    exact absurd rfl other
  refine stepsMeet_cons trivial rfl (stepsMeet_cons trivial rfl (stepsMeet_cons ?_ rfl trivial))
  rintro r ⟨⟩ (_ | _ | j) r' other ⟨⟩
  · exact ⟨id, fun _ => rfl, fun never => by cases never⟩
  · exact absurd rfl other

/-- Two requests, and the answer to one of them. -/
theorem not_loading : ∃ s, run step ({} : UseLazyQuery String) [.request true (some "q"), .request true (some "q"),
    .settle 0 (.ok (.obj [])), .finish 0] = some s ∧ ¬Shows s := by
  refine ⟨_, rfl, fun shows_ => ?_⟩
  have loads := shows_.loading.2 ⟨.sent, .tail _ (.head _), trivial⟩
  cases loads

end Fula.FulaClientReact
