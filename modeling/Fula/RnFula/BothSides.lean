import Fula.RnFula.Dispatch
import Fula.RnFula.Leftovers
import Fula.RnFula.Transfers

/-!
# Both sides of the bridge

The React Native side and the page in the web view, with the messages that are under way between
them. The native side makes calls and reads the streams it is answered with; the page registers
functions at any time and hears one message after the other.

`unanswered`: as long as nothing is registered under the name `undefined`, the page invokes nothing,
and no call is ever fulfilled. What settles one is its own iterator, when that throws.
-/

namespace Fula.RnFula.Rpc
set_option autoImplicit false
open Lib EventEmitter

/-- `str` of `generateUUID`; it has no `W` and no `Y`. -/
def uuidLetters : List Char := "0123456789abcdefghijklmnopqrstuvwxyzABCDEFGHIJKLMNOPQRSTUVXZ".toList

/-- `random i` is `Math.floor(Math.random() * str.length)` of round `i`. -/
def generateUUID (digits : Nat) (random : Nat → Fin uuidLetters.length) : String :=
  String.ofList ((List.range digits).map fun i => uuidLetters.get (random i))

@[simp] theorem length_generateUUID (digits : Nat) (random : Nat → Fin uuidLetters.length) :
    (generateUUID digits random).length = digits := by
  simp [generateUUID]

/-- The page in the web view. -/
structure Page (F V M : Type) where
  adaptor : Properties F := []
  invoked : List (F × Json) := []
  bridge : Bridge V M := RnFula.init

structure System (F V M : Type) where
  native : Native M := init
  page : Page F V M := {}
  /-- How many of the messages that the native side has posted the page has heard. -/
  heard : Nat := 0
  /-- What the page has posted and the native side has not heard. -/
  toNative : List (Message M) := []

namespace System

inductive Act (F M : Type) where
  /-- A call, its iterator, or a subscription; messages come from the page alone. -/
  | native (a : Rpc.Act M)
  | register (obj : Properties F)
  /-- The page hears the next message. -/
  | toPage
  /-- The native side hears the next message. -/
  | toNative
  /-- The function of request `k` calls `eventBaseStreamToPromise(data.id)`. -/
  | await_ (k : Nat)
  /-- The function that awaited promise `p` of the page begins to read its source. -/
  | iterate (p : Nat)

section
variable {F V M : Type} (functions : Functions F M) (parse : String → Option V)

/-- `postLog('seg' + JSON.stringify(obj))`, of an object that has only functions. -/
def registerLog : Message M := .log "seg{}"

/-- The listener of the page. -/
def hear (page : Page F V M) : Posted M → Page F V M × List (Message M)
  | .request request =>
    let handled := listener functions page.adaptor request.json
    ({ page with invoked := page.invoked ++ handled.invoked }, handled.posted)
  | .chunk data => ({ page with bridge := RnFula.streamListener parse data page.bridge }, [adaptorLog])

def step (s : System F V M) : Act F M → Option (System F V M)
  | .native (.message _) => none
  | .native a => (Rpc.step s.native a).map fun native => { s with native := native }
  | .register obj => some { s with
      page := { s.page with adaptor := register s.page.adaptor obj }
      toNative := s.toNative ++ [registerLog] }
  | .toPage => s.native.2.posted[s.heard]?.map fun message =>
    let (page, posted) := hear functions parse s.page message
    { s with page := page, heard := s.heard + 1, toNative := s.toNative ++ posted }
  | .toNative => match s.toNative with
    | message :: rest => some { s with native := messageHandler s.native message, toNative := rest }
    | [] => none
  | .await_ k => s.page.invoked[k]?.map fun (_, data) =>
    { s with page := { s.page with bridge := eventBaseStreamToPromise (text data "id") s.page.bridge } }
  | .iterate p => (RnFula.step parse s.page.bridge (.iterate p)).map fun bridge =>
    { s with page := { s.page with bridge := bridge } }

end

/-! ## What the native side hears and posts -/

section
variable {M : Type} {n n' : Native M} {length : Nat}

/-- What the page says to a request when it finds no function: a message that tells nobody anything. -/
def Fruitless (length : Nat) : Message M → Prop
  | .log _ => True
  | .rpcResponse response => response.status = .failed ∧ response.id.length = length
  | .streamChunk _ => False
  | .other => False

/-- A failed response is heard, and nothing comes of it. -/
theorem messageHandler_fruitless (sound : Sound n) (lengths : ∀ c ∈ n.2.calls, c.id.length = length) {message : Message M}
    (fruitless : Fruitless length message) :
    (messageHandler n message).2.promises = n.2.promises ∧ (messageHandler n message).2.posted = n.2.posted := by
  cases message with
  | log text => exact ⟨rfl, rfl⟩
  | streamChunk data => cases fruitless
  | other => cases fruitless
  | rpcResponse response =>
    obtain ⟨failed, mine⟩ := fruitless
    refine emit_keeps (P := fun t : Native M => t.2.promises = n.2.promises ∧ t.2.posted = n.2.posted) ⟨rfl, rfl⟩ ?_
    rintro l heard t ⟨promises, posted⟩
    obtain ⟨there, named⟩ := mem_listenersOf.1 heard
    obtain ⟨e, called, -, -⟩ := call_eq (invoke (.response response)) t l
    rw [called]
    have registered := sound.listeners l there
    cases callback : l.callback with
    | settle i =>
      have told : (Payload.response (M := M) response).failed = true := by simp [Payload.failed, failed]
      simp only [invoke, told, if_true]
      exact ⟨promises, posted⟩
    | resolve i =>
      -- no response has the name of a `CALLBACK`
      simp only [Registered, callback] at registered
      obtain ⟨c, at_, name, -⟩ := registered
      have longer : response.id.length = c.id.length + "CALLBACK".length := by
        rw [← named, name, String.length_append]
      have shorter := lengths c (List.mem_of_getElem? at_)
      have positive : 0 < "CALLBACK".length := by decide
      omega
    | next k => exact ⟨promises, posted⟩
    | error k => exact ⟨promises, posted⟩
    | complete k id => exact ⟨promises, posted⟩

/-- What a step of the native side is to its promises: a new one, a rejected one, or nothing. -/
theorem step_promises {a : Rpc.Act M} (apart : ∀ message, a ≠ .message message) (moved : Rpc.step n a = some n') :
    (n'.2.promises = n.2.promises ++ [none] ∧ n'.2.calls.length = n.2.calls.length + 1 ∧ ∀ i, a ≠ .throws i) ∨
    (∃ i, a = .throws i ∧ i < n.2.calls.length ∧ n'.2.calls.length = n.2.calls.length ∧
      n'.2.promises = n.2.promises.modify i fun before => before.or (some .rejected)) ∨
    (n'.2.promises = n.2.promises ∧ n'.2.calls.length = n.2.calls.length ∧ ∀ i, a ≠ .throws i) := by
  cases a with
  | RPC id func args => cases moved; exact .inl ⟨rfl, List.length_append, fun _ same => by cases same⟩
  | RPCStreamArgs id func args info => cases moved; exact .inl ⟨rfl, List.length_append, fun _ same => by cases same⟩
  | RPCStreamResponse id func args => cases moved; exact .inl ⟨rfl, List.length_append, fun _ same => by cases same⟩
  | answers i value =>
    obtain ⟨c, info, -, -, rfl⟩ := step_answers moved
    cases value with
    | some value => exact .inr (.inr ⟨rfl, rfl, fun _ same => by cases same⟩)
    | none => exact .inr (.inr ⟨rfl, List.length_modify .., fun _ same => by cases same⟩)
  | throws i =>
    have inside : i < n.2.calls.length := by
      simp only [Rpc.step] at moved
      split at moved
      · next c at_ => exact (List.getElem?_eq_some_iff.1 at_).1
      · cases moved
    rw [step_throws moved]
    exact .inr (.inl ⟨i, rfl, inside, List.length_modify .., rfl⟩)
  | message message => exact absurd rfl (apart message)
  | subscribe i =>
    obtain ⟨c, source, -, -, -, rfl⟩ := step_subscribe moved
    exact .inr (.inr ⟨rfl, rfl, fun _ same => by cases same⟩)

/-- A request is posted under the id of the call that is made. -/
theorem step_posted {a : Rpc.Act M} (apart : ∀ message, a ≠ .message message) (moved : Rpc.step n a = some n')
    {request : RPCRequest} (posted : .request request ∈ n'.2.posted) :
    .request request ∈ n.2.posted ∨ a.id? = some request.id := by
  cases a with
  | RPC id func args =>
    cases moved
    rcases List.mem_append.1 posted with old | new
    · exact .inl old
    · cases List.mem_singleton.1 new
      exact .inr rfl
  | RPCStreamArgs id func args info =>
    cases moved
    rcases List.mem_append.1 posted with old | new
    · rcases List.mem_append.1 old with old | new
      · exact .inl old
      · cases List.mem_singleton.1 new
        exact .inr rfl
    · cases List.mem_singleton.1 new
  | RPCStreamResponse id func args =>
    cases moved
    rcases List.mem_append.1 posted with old | new
    · exact .inl old
    · cases List.mem_singleton.1 new
      exact .inr rfl
  | answers i value =>
    obtain ⟨c, info, -, -, rfl⟩ := step_answers moved
    cases value with
    | some value =>
      rcases List.mem_append.1 posted with old | new
      · exact .inl old
      · cases List.mem_singleton.1 new
    | none =>
      rcases List.mem_append.1 posted with old | new
      · exact .inl old
      · cases List.mem_singleton.1 new
  | throws i =>
    rw [step_throws moved] at posted
    exact .inl posted
  | message message => exact absurd rfl (apart message)
  | subscribe i =>
    obtain ⟨c, source, -, -, -, rfl⟩ := step_subscribe moved
    exact .inl posted

end

/-! ## What the page says -/

section
variable {F V M : Type} {functions : Functions F M} {parse : String → Option V}

/-- Requests that the page has no function for are answered at once, and with a failure. -/
theorem hear_fruitless {page : Page F V M} (unnamed : page.adaptor.lookup "undefined" = none) (deaf : page.bridge = RnFula.init)
    {length : Nat} (message : Posted M) (mine : ∀ request, message = .request request → request.id.length = length) :
    (hear functions parse page message).1 = page ∧ ∀ m ∈ (hear functions parse page message).2, Fruitless length m := by
  cases message with
  | chunk data =>
    have same : RnFula.streamListener parse data page.bridge = page.bridge := by
      rw [deaf, RnFula.streamListener_eq]
      exact emit_of_none rfl
    refine ⟨by simp only [hear, same], fun m member => ?_⟩
    rw [hear, List.mem_singleton] at member
    rw [member]
    trivial
  | request request =>
    have none_ : dispatch page.adaptor request.json = none := unnamed
    have posted : listener functions page.adaptor request.json = ⟨[], [adaptorLog]⟩ ∨
        listener functions page.adaptor request.json =
          ⟨[], adaptorLog :: postOnError "adaptor[data.func] is not a function" request.json⟩ := by
      simp only [listener, none_]
      split
      · exact .inr rfl
      · split
        · exact .inr rfl
        · exact .inl rfl
    rcases posted with quiet | failed
    · refine ⟨by simp [hear, quiet], fun m member => ?_⟩
      rw [hear, quiet, List.mem_singleton] at member
      rw [member]
      trivial
    · refine ⟨by simp [hear, failed], fun m member => ?_⟩
      simp only [hear, failed, postOnError, List.mem_cons, List.not_mem_nil, or_false] at member
      rcases member with rfl | rfl | rfl
      · trivial
      · trivial
      · exact ⟨rfl, mine request rfl⟩

end

/-! ## Every run -/

section
variable {F V M : Type} {functions : Functions F M} {parse : String → Option V} {length : Nat}

/-- The ids that the calls of a run are made with, all by `generateUUID(10)`, have one length. -/
def OneLength (length : Nat) (acts : List (Act F M)) : Prop :=
  ∀ a, .native a ∈ acts → ∀ id, a.id? = some id → id.length = length

theorem oneLength_generateUUID {digits : Nat} {acts : List (Act F M)}
    (generated : ∀ a, .native a ∈ acts → ∀ id, a.id? = some id → ∃ random, id = generateUUID digits random) :
    OneLength digits acts := by
  intro a there id named
  obtain ⟨random, rfl⟩ := generated a there id named
  exact length_generateUUID digits random

/-- No function is registered under the name `undefined`. -/
def Unnamed (acts : List (Act F M)) : Prop := ∀ obj, .register obj ∈ acts → ("undefined" ∉ obj.map (·.1))

/-- The page does nothing, and all that it says is fruitless. -/
structure Inv (length : Nat) (acts : List (Act F M)) (s : System F V M) : Prop where
  sound : Sound s.native
  lengths : ∀ c ∈ s.native.2.calls, c.id.length = length
  posted : ∀ request, .request request ∈ s.native.2.posted → request.id.length = length
  toNative : ∀ message ∈ s.toNative, Fruitless length message
  unnamed : s.page.adaptor.lookup "undefined" = none
  invoked : s.page.invoked = []
  bridge : s.page.bridge = RnFula.init
  called : ∀ i, .native (.throws i) ∈ acts → i < s.native.2.calls.length
  promises : ∀ i promise, s.native.2.promises[i]? = some promise →
    promise = none ∧ .native (.throws i) ∉ acts ∨ promise = some .rejected ∧ .native (.throws i) ∈ acts

theorem inv_init : Inv length [] ({} : System F V M) where
  sound := sound_init
  lengths := by simp [init]
  posted := by simp [init]
  toNative := by simp
  unnamed := rfl
  invoked := rfl
  bridge := rfl
  called := by simp
  promises := by simp [init]

theorem register_unnamed {adaptor obj : Properties F} (unnamed : adaptor.lookup "undefined" = none)
    (other : "undefined" ∉ obj.map (·.1)) : (register adaptor obj).lookup "undefined" = none := by
  induction obj generalizing adaptor with
  | nil => exact unnamed
  | cons property obj ih =>
    obtain ⟨key, f⟩ := property
    simp only [List.map_cons, List.mem_cons, not_or] at other
    refine ih ?_ other.2
    rw [Properties.lookup_assign, if_neg other.1]
    exact unnamed

variable {acts : List (Act F M)} {s s' : System F V M}

/-- A step that is none of the native side's own. -/
theorem mem_throws_snoc {a : Act F M} (other : ∀ i, a ≠ .native (.throws i)) (i : Nat) :
    .native (.throws i) ∈ acts ++ [a] ↔ .native (.throws i) ∈ acts := by
  rw [List.mem_append, List.mem_singleton, or_iff_left]
  exact fun same => other i same.symm

/-- The promises rejected are those of the calls whose iterator threw. -/
theorem Inv.rejections {a : Rpc.Act M} (inv : Inv length acts s) (apart : ∀ message, a ≠ .message message) {native : Native M}
    (moved : Rpc.step s.native a = some native) :
    (∀ i, .native (.throws i) ∈ acts ++ [Act.native (F := F) a] → i < native.2.calls.length) ∧
      ∀ i promise, native.2.promises[i]? = some promise →
        promise = none ∧ .native (.throws i) ∉ acts ++ [Act.native (F := F) a] ∨
        promise = some .rejected ∧ .native (.throws i) ∈ acts ++ [Act.native (F := F) a] := by
  rcases step_promises apart moved with ⟨new, calls, other⟩ | ⟨j, rfl, inside, calls, rejected⟩ | ⟨same, calls, other⟩
  · have same := @mem_throws_snoc F M acts (.native a) fun i same => other i (by cases same; rfl)
    refine ⟨fun i thrown => ?_, fun i promise at_ => ?_⟩
    · have before := inv.called i ((same i).1 thrown)
      omega
    · rw [same i]
      rw [new] at at_
      rcases Nat.lt_or_ge i s.native.2.promises.length with old | fresh
      · rw [List.getElem?_append_left old] at at_
        exact inv.promises i promise at_
      · rw [List.getElem?_append_right fresh, List.getElem?_singleton, Option.ite_none_right_eq_some] at at_
        obtain ⟨-, pending⟩ := at_
        cases pending
        refine .inl ⟨rfl, fun thrown => absurd (inv.called i thrown) ?_⟩
        rw [← inv.sound.lengths]
        omega
  · refine ⟨fun i thrown => ?_, fun i promise at_ => ?_⟩
    · rw [calls]
      rw [List.mem_append, List.mem_singleton] at thrown
      rcases thrown with before | now
      · exact inv.called i before
      · cases now
        exact inside
    · rw [rejected, List.getElem?_modify, Option.map_eq_map, Option.map_eq_some_iff] at at_
      obtain ⟨before, there, rfl⟩ := at_
      by_cases here : j = i
      · subst here
        refine .inr ⟨?_, by simp⟩
        rw [if_pos rfl]
        rcases inv.promises j before there with ⟨rfl, -⟩ | ⟨rfl, -⟩ <;> rfl
      · have same : .native (.throws i) ∈ acts ++ [Act.native (F := F) (Rpc.Act.throws (M := M) j)] ↔
            .native (.throws i) ∈ acts := by
          rw [List.mem_append, List.mem_singleton, or_iff_left]
          intro now
          cases now
          exact here rfl
        rw [if_neg here, same]
        exact inv.promises i before there
  · have quiet := @mem_throws_snoc F M acts (.native a) fun i now => other i (by cases now; rfl)
    refine ⟨fun i thrown => ?_, fun i promise at_ => ?_⟩
    · rw [calls]
      exact inv.called i ((quiet i).1 thrown)
    · rw [quiet i]
      rw [same] at at_
      exact inv.promises i promise at_

theorem Inv.native {a : Rpc.Act M} (inv : Inv length acts s) (mine : ∀ id, a.id? = some id → id.length = length)
    (apart : ∀ message, a ≠ .message message) {native : Native M} (moved : Rpc.step s.native a = some native) :
    Inv length (acts ++ [.native a]) { s with native := native } := by
  have posted : ∀ request, .request request ∈ native.2.posted → request.id.length = length := fun request there =>
    (step_posted apart moved there).elim (inv.posted request) (mine _)
  have lengths : ∀ c ∈ native.2.calls, c.id.length = length := by
    intro c there
    rcases calls_of_step moved there with ⟨before, old, same⟩ | own
    · rw [← same]
      exact inv.lengths before old
    · exact mine _ own
  exact {
    sound := inv.sound.step moved
    lengths := lengths
    posted := posted
    toNative := inv.toNative
    unnamed := inv.unnamed
    invoked := inv.invoked
    bridge := inv.bridge
    called := (inv.rejections apart moved).1
    promises := (inv.rejections apart moved).2 }

/-- A step that leaves the calls alone. -/
theorem Inv.silent {a : Act F M} (inv : Inv length acts s) (other : ∀ i, a ≠ .native (.throws i)) : Inv length (acts ++ [a]) s :=
  { inv with
    called := fun i thrown => inv.called i ((mem_throws_snoc other i).1 thrown)
    promises := fun i promise at_ => by
      rw [mem_throws_snoc other i]
      exact inv.promises i promise at_ }

/-- The native side's own step; messages come to it from the page. -/
theorem step_native {a : Rpc.Act M} : System.step functions parse s (.native a) = some s' ↔
    (∀ message, a ≠ .message message) ∧ ∃ native, Rpc.step s.native a = some native ∧ { s with native := native } = s' := by
  cases a with
  | message message =>
    constructor
    · intro moved
      cases moved
    · rintro ⟨apart, -⟩
      exact absurd rfl (apart message)
  | _ =>
    simp only [System.step, Option.map_eq_some_iff, iff_and_self]
    exact fun _ _ same => by cases same

theorem Inv.step {a : Act F M} (inv : Inv length acts s) (oneLength : OneLength length (acts ++ [a]))
    (unnamed : Unnamed (acts ++ [a])) (moved : System.step functions parse s a = some s') : Inv length (acts ++ [a]) s' := by
  cases a with
  | native a =>
    obtain ⟨apart, native, first, rfl⟩ := step_native.1 moved
    exact inv.native (oneLength a (by simp)) apart first
  | register obj =>
    cases moved
    have here := inv.silent (a := .register obj) fun _ same => by cases same
    refine { here with
      toNative := fun message there => ?_
      unnamed := register_unnamed inv.unnamed (unnamed obj (by simp)) }
    rcases List.mem_append.1 there with old | new
    · exact inv.toNative message old
    · rw [List.mem_singleton.1 new]
      trivial
  | toPage =>
    obtain ⟨message, posted, rfl⟩ := Option.map_eq_some_iff.1 moved
    have fruitless := @hear_fruitless F V M functions parse s.page inv.unnamed inv.bridge length message
      fun request same => inv.posted request (same ▸ List.mem_of_getElem? posted)
    have here := inv.silent (a := .toPage) fun _ same => by cases same
    refine { here with
      toNative := fun m there => ?_
      unnamed := (congrArg (·.adaptor.lookup "undefined") fruitless.1).trans inv.unnamed
      invoked := (congrArg (·.invoked) fruitless.1).trans inv.invoked
      bridge := (congrArg (·.bridge) fruitless.1).trans inv.bridge }
    rcases List.mem_append.1 there with old | new
    · exact inv.toNative m old
    · exact fruitless.2 m new
  | toNative =>
    simp only [System.step] at moved
    split at moved
    · next message rest waiting =>
      cases moved
      have here := inv.silent (a := .toNative) fun _ same => by cases same
      have fruitless := messageHandler_fruitless inv.sound inv.lengths (inv.toNative message (by simp [waiting]))
      have calls : (messageHandler s.native message).2.calls = s.native.2.calls := by
        rcases messageHandler_cases s.native message with ⟨r, -, handled⟩ | ⟨name, payload, -, -, handled⟩ | handled
        · rw [handled]; exact (frame_emit _ _ _).calls
        · rw [handled]; exact (frame_emit _ _ _).calls
        · rw [handled]
      exact { here with
        sound := inv.sound.message message
        lengths := calls ▸ inv.lengths
        posted := fruitless.2 ▸ inv.posted
        toNative := fun m there => inv.toNative m (by simp [waiting, there])
        called := by rw [calls]; exact here.called
        promises := by rw [fruitless.1]; exact here.promises }
    · cases moved
  | await_ k => simp [System.step, inv.invoked] at moved
  | iterate p => simp [System.step, RnFula.step, inv.bridge, RnFula.init] at moved

/-- **No call gets through.** Whatever the page registers, unless it be under the name `undefined`, and in whatever order
calls are made and messages heard: the page invokes none of its functions, reads no stream and has never posted a chunk of
one, and every call of the native side stays pending for ever, but for those whose own iterator throws, which are rejected. -/
theorem unanswered (oneLength : OneLength length acts) (unnamed : Unnamed acts)
    (reached : run (System.step functions parse) ({} : System F V M) acts = some s) :
    s.page.invoked = [] ∧ s.page.bridge = RnFula.init ∧ (∀ data, .streamChunk data ∉ s.toNative) ∧
      s.native.2.promises.length = s.native.2.calls.length ∧
      ∀ i promise, s.native.2.promises[i]? = some promise →
        promise = none ∧ .native (.throws i) ∉ acts ∨ promise = some .rejected ∧ .native (.throws i) ∈ acts := by
  have inv : OneLength length acts → Unnamed acts → Inv length acts s := by
    refine run_history (I := fun acts s => OneLength length acts → Unnamed acts → Inv length acts s)
      (fun _ _ => inv_init) ?_ reached
    intro acts a s s' inv moved oneLength unnamed
    refine Inv.step (inv ?_ ?_) oneLength unnamed moved
    · exact fun a there => oneLength a (by simp [there])
    · exact fun obj there => unnamed obj (by simp [there])
  have inv := inv oneLength unnamed
  exact ⟨inv.invoked, inv.bridge, fun data posted => inv.toNative _ posted, inv.sound.lengths, inv.promises⟩

end

/-- The page registers `start`, which the app then calls; the iterator of a `sendFile` throws. -/
def sampleActs : List (Act Unit Unit) := [.register [("start", ())], .native (.RPC "Xk3b0Zq1aT" "start" []), .toPage, .toNative,
  .toNative, .toNative, .toNative, .native (.RPCStreamArgs "p8VxG2hd9L" "sendFile" [] ()), .native (.throws 1)]

theorem unanswered_sample : ∃ s : System Unit Unit Unit, run (System.step ready fun _ => none) {} sampleActs = some s ∧
    s.native.2.promises = [none, some .rejected] ∧ s.toNative = [] ∧
    s.page.invoked = [] ∧ s.page.bridge = RnFula.init ∧ (∀ data, .streamChunk data ∉ s.toNative) ∧
      s.native.2.promises.length = s.native.2.calls.length ∧
      ∀ i promise, s.native.2.promises[i]? = some promise →
        promise = none ∧ .native (.throws i) ∉ sampleActs ∨ promise = some .rejected ∧ .native (.throws i) ∈ sampleActs := by
  have oneLength : OneLength 10 sampleActs := by
    intro a there id named
    simp only [sampleActs, List.mem_cons, List.not_mem_nil, or_false] at there
    rcases there with same | same | same | same | same | same | same | same | same <;> cases same <;> cases named <;> rfl
  have unnamed : Unnamed sampleActs := by
    intro obj there
    simp only [sampleActs, List.mem_cons, List.not_mem_nil, or_false] at there
    rcases there with same | same | same | same | same | same | same | same | same <;> cases same
    decide
  exact ⟨_, rfl, rfl, rfl, @unanswered Unit Unit Unit ready (fun _ => none) 10 sampleActs _ oneLength unnamed rfl⟩

end System

end Fula.RnFula.Rpc
