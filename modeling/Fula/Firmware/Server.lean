import Fula.Lib.Json
import Fula.Lib.Onion
import Fula.Lib.Run

/-!
# The firmware's HTTP server (`apps/firmware/server.js`)

Every request goes through one chain of middleware. The second of them counts the requests: up
before its `next()`, down after it, which an exception from within skips. `SIGINT` ends the process
at once when the count is zero, and else when it becomes zero.

What the packages' middlewares do is left to the actions of a run: whether they call `next()`, answer
by themselves or throw, and what they put into the response.

`counts_iff` says in which runs the count is that of the requests inside.
-/

namespace Fula.Firmware.Server
set_option autoImplicit false
open Lib Onion

/-! ## The middlewares -/

inductive Middleware where
  | headers
  | counting
  | session
  | cors
  | bodyParser
  | routes
  | allowedMethods
  | log
  | notFound
  deriving DecidableEq, Repr

/-- In the order of `app.use`. -/
def chain : List Middleware :=
  [.headers, .counting, .session, .cors, .bodyParser, .routes, .allowedMethods, .log, .notFound]

/-- What the middlewares leave in `ctx`. -/
structure Response where
  status : Nat := 404
  body : Option Json := none
  /-- `__connected__010` -/
  connected : Bool := false

/-- `ctx.body = body`, which makes a response without content of nothing. -/
def Response.setBody (r : Response) (body : Option Json) : Response :=
  { r with
    body
    status := match body with
      | none | some .null => 204
      | some _ => r.status }

/-- What a controller throws. -/
structure Thrown where
  message : String
  status : Option Nat := none

/-- `helpers/messages.js` -/
def messages (key : String) : Option String :=
  if key = "COULD_NOT_CONNECT" then some "It was not possible to connect with the WIFI credentials." else none

/-- `connect(controller)`, up to its `next()`, by what the controller returns or throws. -/
def connect (status : Nat) (controller : Except Thrown (Option Json)) (r : Response) : Response :=
  match controller with
  | .ok result => { r with status, connected := true }.setBody result
  | .error err =>
    { r with status := (err.status.filter (· ≠ 0)).getD 500 }.setBody (some (.obj [
      ("error", .bool true),
      ("message", .str ((messages err.message).getD err.message)),
      ("errorCode", if (messages err.message).isSome then .str err.message else .null)]))

/-- The last middleware, up to its `next()`. -/
def notFound (r : Response) : Response :=
  if !r.body.any (·.truthy) && !r.connected then
    { r.setBody (some (.obj [("error", .bool true), ("message", .str "Endpoint not found"), ("errorCode", .str "NOT_FOUND")]))
      with status := 404 }
  else r

/-- Whatever the controller does, the endpoint counts as found. -/
theorem notFound_connect (status : Nat) (controller : Except Thrown (Option Json)) (r : Response) :
    notFound (connect status controller r) = connect status controller r := by
  cases controller with
  | ok result => simp [notFound, connect, Response.setBody]
  | error err => rfl

/-! ## The requests -/

structure Request where
  place : Place := .inward 0
  response : Response := {}

/-- What makes a middleware go on. -/
inductive Turn where
  /-- Nothing but its own code. -/
  | own
  /-- The router has found a route, and its controller has returned or thrown. -/
  | route (controller : Except Thrown (Option Json))
  /-- A package decides. -/
  | package (move : Move) (response : Response)

def Request.middleware (r : Request) : Option Middleware := r.place.turn.bind (chain[·]?)

/-- How the middleware whose turn it is goes on, and the response it leaves. -/
def Request.play (r : Request) (turn : Turn) : Option (Move × Response) :=
  match r.middleware, turn with
  | some .headers, .own | some .counting, .own | some .log, .own => some (r.place.forward, r.response)
  | some .notFound, .own => match r.place with
    | .inward _ => some (.next, notFound r.response)
    | .settled _ _ => some (r.place.forward, r.response)
  | some .routes, .route controller => match r.place with
    | .inward _ => some (.next, connect 200 controller r.response)
    | .settled _ _ => none
  | some .session, .package move response | some .cors, .package move response | some .bodyParser, .package move response
  | some .routes, .package move response | some .allowedMethods, .package move response => some (move, response)
  -- behind the last middleware
  | none, .own => if r.place = .inward chain.length then some (.returns, r.response) else none
  | _, _ => none

def Request.step (r : Request) (turn : Turn) : Option Request :=
  (r.play turn).bind fun (move, response) => (r.place.go chain.length move).map fun place => { place, response }

/-! ## The server -/

structure State where
  requestsCount : Int := 0
  requests : List Request := []
  /-- The listeners for `zeroed_requests`. -/
  listeners : Nat := 0
  /-- `process.exit(0)` -/
  exited : Bool := false

inductive Act where
  | request
  /-- The middleware that request `i` is at goes on. -/
  | turn (i : Nat) (turn : Turn)
  | sigint

/-- `requestsEvents.emit('zeroed_requests')`: each listener would end the process. -/
def State.emit (s : State) : State := { s with exited := s.exited || decide (0 < s.listeners) }

/-- What the counting middleware does when it goes on from there. -/
def State.count (s : State) : Place → State
  | .inward _ => { s with requestsCount := s.requestsCount + 1 }
  | .settled _ false =>
    let s := { s with requestsCount := s.requestsCount - 1 }
    if s.requestsCount = 0 then s.emit else s
  -- `await next()` throws
  | .settled _ true => s

def step (s : State) (a : Act) : Option State :=
  if s.exited then none
  else match a with
    | .request => some { s with requests := s.requests ++ [{}] }
    | .turn i turn => (s.requests[i]?).bind fun r => (r.step turn).map fun r' =>
      let s' := if r.middleware = some .counting then s.count r.place else s
      { s' with requests := s.requests.set i r' }
    | .sigint =>
      if s.requestsCount ≤ 0 then some { s with exited := true } else some { s with listeners := s.listeners + 1 }

/-! ## The requests inside -/

/-- In the `next()` of the counting middleware. -/
def Request.inside (r : Request) : Bool := r.place.inside 1

def State.inside (s : State) : Nat := s.requests.countP (·.inside)

/-- The count is that of the requests inside, and after a `SIGINT` the process ends with the last of them. -/
structure Counts (s : State) : Prop where
  count : s.requestsCount = s.inside
  ends : 0 < s.listeners → s.inside = 0 → s.exited = true

/-- No exception comes out to the counting middleware. -/
def Caught (s : State) : Act → Prop
  | .turn i _ => ∀ r, s.requests[i]? = some r → r.place ≠ .settled 2 true
  | _ => True

variable {s s' : State} {r r' : Request} {i : Nat}

theorem counting_iff : r.middleware = some .counting ↔ r.place.turn = some 1 := by
  constructor
  · intro counting
    obtain ⟨k, turn, here⟩ := Option.bind_eq_some_iff.1 counting
    have unique : ∀ j < chain.length, chain[j]? = some .counting → j = 1 := by decide
    rw [turn, unique k (List.getElem?_eq_some_iff.1 here).1 here]
  · intro turn
    rw [Request.middleware, turn]
    rfl

/-- The counting middleware lets the request in, or out. -/
theorem Request.step_counting {turn : Turn} (counting : r.middleware = some .counting) (moved : r.step turn = some r') :
    (r.place = .inward 1 ∧ r'.place = .inward 2) ∨
      ∃ thrown, r.place = .settled 2 thrown ∧ r'.place = .settled 1 thrown := by
  obtain ⟨⟨move, response⟩, played, moved⟩ := Option.bind_eq_some_iff.1 moved
  obtain ⟨place, went, rfl⟩ := Option.map_eq_some_iff.1 moved
  have forward : move = r.place.forward := by
    unfold Request.play at played
    rw [counting] at played
    cases turn <;> cases played
    rfl
  subst forward
  rcases Place.go_forward (counting_iff.1 counting) (show 1 < chain.length by decide) with ⟨here, there⟩ | ⟨thrown, here, there⟩
  · rw [went, Option.some.injEq] at there
    exact .inl ⟨here, there⟩
  · rw [went, Option.some.injEq] at there
    exact .inr ⟨thrown, here, there⟩

theorem Request.step_other {turn : Turn} (other : r.middleware ≠ some .counting) (moved : r.step turn = some r') :
    r'.inside = r.inside := by
  obtain ⟨⟨move, response⟩, -, moved⟩ := Option.bind_eq_some_iff.1 moved
  obtain ⟨place, went, rfl⟩ := Option.map_eq_some_iff.1 moved
  exact Place.inside_go went fun mine => other (counting_iff.2 mine)

/-- The number of the requests inside, when one request moves. -/
theorem inside_set (at_ : s.requests[i]? = some r) (r' : Request) :
    (s.requests.set i r').countP (·.inside) + (if r.inside then 1 else 0) =
      s.inside + (if r'.inside then 1 else 0) := by
  obtain ⟨inBounds, rfl⟩ := List.getElem?_eq_some_iff.1 at_
  have set : (s.requests.set i r').countP (·.inside) = _ := List.countP_set inBounds
  have positive : s.requests[i].inside = true → 0 < s.inside := fun member =>
    List.countP_pos_iff.2 ⟨_, List.getElem_mem inBounds, member⟩
  unfold State.inside at *
  split
  · next member =>
    have := positive member
    rw [set, if_pos member]
    omega
  · next member =>
    rw [set, if_neg member]
    omega

/-- A request moves without passing the counting middleware. -/
theorem Counts.of_same (h : Counts s) (count : s'.requestsCount = s.requestsCount) (inside : s'.inside = s.inside)
    (listeners : s'.listeners = s.listeners) (exited : s'.exited = s.exited) : Counts s' := by
  obtain ⟨same, ends⟩ := h
  refine ⟨by rw [count, inside, same], ?_⟩
  rw [listeners, inside, exited]
  exact ends

theorem counts_request : Counts { s with requests := s.requests ++ [{}] } ↔ Counts s := by
  have inside : State.inside { s with requests := s.requests ++ [{}] } = s.inside := by
    simp [State.inside, Request.inside, Place.inside]
  constructor
  · intro h
    exact h.of_same rfl inside.symm rfl rfl
  · intro h
    exact h.of_same rfl inside rfl rfl

theorem counts_sigint (h : Counts s) :
    Counts (if s.requestsCount ≤ 0 then { s with exited := true } else { s with listeners := s.listeners + 1 }) := by
  obtain ⟨count, ends⟩ := h
  split
  · exact ⟨count, fun _ _ => rfl⟩
  · next more =>
    refine ⟨count, fun _ (none_ : s.inside = 0) => ?_⟩
    rw [count, none_] at more
    simp at more

theorem counts_enter (h : Counts s) (at_ : s.requests[i]? = some r) (here : r.place = .inward 1)
    (there : r'.place = .inward 2) : Counts { s.count r.place with requests := s.requests.set i r' } := by
  have before : r.inside = false := by rw [Request.inside, here]; rfl
  have after : r'.inside = true := by rw [Request.inside, there]; rfl
  have more := inside_set at_ r'
  rw [before, after] at more
  simp only [Bool.false_eq_true, if_false, Nat.add_zero, if_true] at more
  rw [here]
  refine ⟨?_, fun _ none_ => ?_⟩
  · simp only [State.count, State.inside, more, h.count, Nat.cast_add, Nat.cast_one]
  · simp only [State.inside, more] at none_
    omega

theorem counts_leave (h : Counts s) (at_ : s.requests[i]? = some r) {thrown : Bool}
    (here : r.place = .settled 2 thrown) (there : r'.place = .settled 1 thrown) :
    Counts { s.count r.place with requests := s.requests.set i r' } ↔ thrown = false := by
  have before : r.inside = true := by rw [Request.inside, here]; rfl
  have after : r'.inside = false := by rw [Request.inside, there]; rfl
  have less := inside_set at_ r'
  rw [before, after] at less
  simp only [Bool.false_eq_true, if_false, Nat.add_zero, if_true] at less
  have count := h.count
  rw [here]
  cases thrown with
  | true =>
    refine iff_of_false (fun wrong => ?_) (by simp)
    have still := wrong.count
    simp only [State.count, State.inside] at still
    omega
  | false =>
    refine iff_of_true ?_ rfl
    by_cases last : s.requestsCount - 1 = 0
    · simp only [State.count, if_pos last]
      refine ⟨?_, fun (listening : 0 < s.listeners) _ => ?_⟩
      · simp only [State.emit, State.inside]
        omega
      · simp [State.emit, listening]
    · simp only [State.count, if_neg last]
      refine ⟨?_, fun _ none_ => ?_⟩
      · simp only [State.inside]
        omega
      · simp only [State.inside] at none_
        omega

theorem counts_step {a : Act} (h : Counts s) (moved : step s a = some s') : Counts s' ↔ Caught s a := by
  unfold step at moved
  split at moved
  case isTrue => cases moved
  case isFalse =>
    cases a with
    | request =>
      cases moved
      exact iff_of_true (counts_request.2 h) trivial
    | sigint =>
      refine iff_of_true ?_ trivial
      have signalled := counts_sigint h
      simp only at moved
      split at moved <;> cases moved
      · next le => rwa [if_pos le] at signalled
      · next more => rwa [if_neg more] at signalled
    | turn i turn =>
      simp only [Option.bind_eq_some_iff, Option.map_eq_some_iff] at moved
      obtain ⟨r, at_, r', stepped, rfl⟩ := moved
      have only : Caught s (.turn i turn) ↔ r.place ≠ .settled 2 true := by
        simp [Caught, at_]
      rw [only]
      by_cases counting : r.middleware = some .counting
      · rw [if_pos counting]
        rcases r.step_counting counting stepped with ⟨here, there⟩ | ⟨thrown, here, there⟩
        · exact iff_of_true (counts_enter h at_ here there) (by simp [here])
        · rw [counts_leave h at_ here there, here]
          simp
      · rw [if_neg counting]
        refine iff_of_true (h.of_same rfl ?_ rfl rfl) fun caught => counting (counting_iff.2 (by rw [caught]; rfl))
        have same := inside_set at_ r'
        rw [r.step_other counting stepped] at same
        exact Nat.add_right_cancel same

/-- **The count is that of the requests inside**, at every moment of a run, and after a `SIGINT` the
process ends with the last of them, just when no exception comes out to the counting middleware. -/
theorem counts_iff {acts : List Act} (reached : run step {} acts = some s) :
    (∀ as m, as <+: acts → run step {} as = some m → Counts m) ↔ StepsMeet step Caught {} acts :=
  everywhere_iff (I := fun _ => True) (fun _ _ _ _ _ => trivial) (fun _ _ _ _ h moved => counts_step h moved) trivial
    ⟨rfl, by simp⟩ reached

/-- A `SIGINT` while a request is inside, in which an exception is thrown and caught. -/
def sampleActs : List Act := [.request, .turn 0 .own, .turn 0 .own, .sigint, .turn 0 (.package .next {}),
  .turn 0 (.package .throws {}), .turn 0 (.package .returns {}), .turn 0 .own]

theorem counts_iff_sample : ∃ s, run step {} sampleActs = some s ∧
    ∀ as m, as <+: sampleActs → run step {} as = some m → Counts m := by
  refine ⟨_, rfl, (counts_iff rfl).2 ?_⟩
  refine stepsMeet_cons trivial rfl (stepsMeet_cons ?_ rfl (stepsMeet_cons ?_ rfl (stepsMeet_cons trivial rfl
    (stepsMeet_cons ?_ rfl (stepsMeet_cons ?_ rfl (stepsMeet_cons ?_ rfl (stepsMeet_cons ?_ rfl trivial)))))))
  all_goals
    rintro r ⟨⟩ there
    cases there

/-- The body parser throws at malformed JSON: the request has left, and the process does not end. -/
theorem never_zeroed : ∃ s, run step {} [.request, .turn 0 .own, .turn 0 .own, .sigint, .turn 0 (.package .next {}),
    .turn 0 (.package .next {}), .turn 0 (.package .throws {}), .turn 0 (.package .throws {}),
    .turn 0 (.package .throws {}), .turn 0 .own] = some s ∧ ¬Counts s := by
  refine ⟨_, rfl, fun counts => ?_⟩
  have count := counts.count
  cases count

end Fula.Firmware.Server
