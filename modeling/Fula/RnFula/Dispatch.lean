import Fula.Lib.Json
import Fula.Lib.Properties
import Fula.RnFula.Rpc

/-!
# Requests at the web view

The web view's listener takes a request, calls the function that `register`
put into `adaptor` under the request's name, and posts the answer back. A
request crosses the bridge as a JSON object: the sender names the function in
the property `function`, the listener reads `func`.
-/

namespace Fula.RnFula.Rpc
set_option autoImplicit false
open Lib EventEmitter

def MessageType.number : MessageType → ℚ
  | .RPCRequestStream => 0
  | .RPCRequest => 1
  | .RPCResponse => 2
  | .StreamChunk => 3
  | .Log => 4

/-- `JSON.parse(JSON.stringify(request))`. -/
def RPCRequest.json (q : RPCRequest) : Json :=
  .obj [("id", .str q.id), ("function", .str q.function), ("args", .arr (q.args.map .str)),
    ("type", .num q.type.number)]

/-- `String(data[key])`, of a property that is a string or missing. -/
def text (data : Json) (key : String) : String :=
  match data with
  | .obj fields => match fields.lookup key with
    | some (.str s) => s
    | _ => "undefined"
  | _ => "undefined"

/-- `data.type === type`. -/
def hasType (data : Json) (type : MessageType) : Bool :=
  match data with
  | .obj fields => match fields.lookup "type" with
    | some (.num n) => n = type.number
    | _ => false
  | _ => false

/-- `adaptor = {...adaptor, ...obj}`. -/
def register {F : Type} (adaptor obj : Properties F) : Properties F :=
  obj.foldl (fun adaptor (name, f) => adaptor.assign name f) adaptor

/-- What the registered functions answer: for a request, and for one that is
answered by a stream, with the data of its CHUNKs. An error is what they throw. -/
structure Functions (F M : Type) where
  response : F → Json → Except String RPCResponse
  stream : F → Json → Except String (List String × M)

/-- What became of one message at the web view. -/
structure Handled (F M : Type) where
  invoked : List (F × Json)
  posted : List (Message M)

section
variable {F M : Type}

def postOnError (message : String) (data : Json) : List (Message M) :=
  [.log (text data "function" ++ " failed"),
    .rpcResponse {
      id := text data "id"
      status := .failed
      payload := "[" ++ text data "id" ++ "][" ++ text data "function" ++ "] failed with " ++ message }]

def postOnSuccess (response : RPCResponse) : List (Message M) :=
  [.log (response.id ++ " success"), .rpcResponse response]

/-- `adaptor[data.func]`. -/
def dispatch (adaptor : Properties F) (data : Json) : Option F := adaptor.lookup (text data "func")

/-- `JSON.stringify(adaptor)`, of an object that has only functions. -/
def adaptorLog : Message M := .log "{}"

/-- What the listener does with a request; a `StreamChunk` goes on to `_streamListener`. -/
def listener (functions : Functions F M) (adaptor : Properties F) (data : Json) : Handled F M :=
  if hasType data .RPCRequest then
    match dispatch adaptor data with
    | none => ⟨[], adaptorLog :: postOnError "adaptor[data.func] is not a function" data⟩
    | some f => match functions.response f data with
      | .ok response => ⟨[(f, data)], adaptorLog :: postOnSuccess response⟩
      | .error message => ⟨[(f, data)], adaptorLog :: postOnError message data⟩
  else if hasType data .RPCRequestStream then
    match dispatch adaptor data with
    | none => ⟨[], adaptorLog :: postOnError "adaptor[data.func] is not a function" data⟩
    | some f => match functions.stream f data with
      | .ok (values, info) => ⟨[(f, data)], adaptorLog :: (streamSend (text data "id") values info).map .streamChunk⟩
      | .error message => ⟨[(f, data)], adaptorLog :: postOnError message data⟩
  else ⟨[], [adaptorLog]⟩

/-- A function is found under the name it was registered by, in the object registered last. -/
theorem lookup_register (adaptor : Properties F) {obj : Properties F} (names : (obj.map (·.1)).Nodup) (name : String) :
    (register adaptor obj).lookup name = (obj.lookup name).or (adaptor.lookup name) := by
  induction obj generalizing adaptor with
  | nil => simp [register]
  | cons property obj ih =>
    obtain ⟨key, f⟩ := property
    simp only [List.map_cons, List.nodup_cons] at names
    have rest := ih (adaptor.assign key f) names.2
    rw [Properties.lookup_assign] at rest
    simp only [register, List.foldl_cons] at rest ⊢
    rw [rest, List.lookup_cons]
    by_cases same : name = key
    · subst same
      have absent : obj.lookup name = none := by
        rw [List.lookup_eq_none_iff]
        intro other member
        simp only [bne_iff_ne, ne_eq]
        rintro rfl
        exact names.1 (List.mem_map_of_mem member)
      simp [absent]
    · simp [same, beq_eq_false_iff_ne.2 same]

/-! ## One call -/

/-- A call of each kind. -/
def call (kind : Kind) (id func : String) (args : List String) (info : M) : Act M :=
  match kind with
  | .RPC => .RPC id func args
  | .RPCStreamArgs => .RPCStreamArgs id func args info
  | .RPCStreamResponse => .RPCStreamResponse id func args

def request (kind : Kind) (id func : String) (args : List String) : RPCRequest :=
  { id, function := func, args, type := if kind = .RPCStreamResponse then .RPCRequestStream else .RPCRequest }

/-- A call posts its request. -/
theorem call_posts (kind : Kind) (id func : String) (args : List String) (info : M) (n : Native M) :
    ∃ n' c, step n (call kind id func args info) = some n' ∧ n'.2.calls = n.2.calls ++ [c] ∧ c.kind = kind ∧ c.id = id ∧
      .request (request kind id func args) ∈ n'.2.posted := by
  cases kind with
  | RPC => exact ⟨_, _, rfl, rfl, rfl, rfl, by simp [Rpc.RPC, Parties.open_, Parties.post, request]⟩
  | RPCStreamArgs => exact ⟨_, _, rfl, rfl, rfl, rfl, by simp [Rpc.RPCStreamArgs, Parties.open_, Parties.post, request]⟩
  | RPCStreamResponse =>
    exact ⟨_, _, rfl, rfl, rfl, rfl, by simp [Rpc.RPCStreamResponse, Parties.open_, Parties.post, request]⟩

/-- A message that answers a call: a response, or the START of a stream. -/
def Message.answers : Message M → Bool
  | .rpcResponse _ => true
  | .streamChunk data => data.status = .START
  | .log _ => false
  | .other => false

/-- What function `f` answers to a request, as the caller is to get it. -/
def ownAnswer (functions : Functions F M) (f : F) (kind : Kind) (q : RPCRequest) : Except String (Payload M) :=
  match kind with
  | .RPCStreamResponse => (functions.stream f q.json).map fun (_, info) => .source ⟨q.id, info⟩
  | .RPC => (functions.response f q.json).map .response
  | .RPCStreamArgs => (functions.response f q.json).map .response

/-- The promise of a call, settled with what the function answered. -/
def SettledWith (answer : Except String (Payload M)) (promise : Option (Option (Settled M))) : Prop :=
  match answer with
  | .ok payload => promise = some (some (if payload.failed then .rejected else .fulfilled payload))
  | .error _ => promise = some (some .rejected)

/-- The function answers, and not with a failure. -/
def Succeeds (answer : Except String (Payload M)) : Prop := ∃ payload, answer = .ok payload ∧ payload.failed = false

/-- The message that brings an answer to request `q`. -/
def messageOf (q : RPCRequest) : Except String (Payload M) → Message M
  | .ok (.response r) => .rpcResponse r
  | .ok (.source s) => .streamChunk ⟨s.id, s.meta_, "", .START⟩
  | .ok _ => .other
  | .error message => .rpcResponse {
      id := q.id
      status := .failed
      payload := "[" ++ q.id ++ "][" ++ q.function ++ "] failed with " ++ message }

theorem text_func (q : RPCRequest) : text q.json "func" = "undefined" := rfl

theorem text_id (q : RPCRequest) : text q.json "id" = q.id := rfl

theorem text_function (q : RPCRequest) : text q.json "function" = q.function := rfl

theorem hasType_json (q : RPCRequest) (type : MessageType) :
    hasType q.json type = decide (q.type.number = type.number) := rfl

/-- **What the listener does with a request**: it looks for a function under the
name `undefined`. -/
theorem listener_request (functions : Functions F M) (adaptor : Properties F) (kind : Kind) (id func : String)
    (args : List String) :
    let q := request kind id func args
    let handled := listener functions adaptor q.json
    match adaptor.lookup "undefined" with
    | some f => handled.invoked = [(f, q.json)] ∧
      handled.posted.find? (·.answers) = some (messageOf q (ownAnswer functions f kind q))
    | none => handled.invoked = [] ∧
      handled.posted.find? (·.answers) = some (messageOf q (.error "adaptor[data.func] is not a function")) := by
  intro q handled
  have called : hasType q.json .RPCRequest = decide (kind ≠ .RPCStreamResponse) := by
    cases kind <;> simp [q, hasType_json, request, MessageType.number]
  have streamed : hasType q.json .RPCRequestStream = decide (kind = .RPCStreamResponse) := by
    cases kind <;> simp [q, hasType_json, request, MessageType.number]
  simp only [handled, listener, called, streamed, dispatch, text_func]
  cases adaptor.lookup "undefined" with
  | none => cases kind <;> simp [adaptorLog, postOnError, Message.answers, messageOf, text_id, text_function]
  | some f =>
    cases kind with
    | RPC =>
      simp only [ownAnswer]
      cases functions.response f q.json <;>
        simp [adaptorLog, postOnError, postOnSuccess, Message.answers, messageOf, Except.map, text_id, text_function]
    | RPCStreamArgs =>
      simp only [ownAnswer]
      cases functions.response f q.json <;>
        simp [adaptorLog, postOnError, postOnSuccess, Message.answers, messageOf, Except.map, text_id, text_function]
    | RPCStreamResponse =>
      simp only [ownAnswer]
      cases functions.stream f q.json <;>
        simp [adaptorLog, postOnError, streamSend, Message.answers, messageOf, Except.map, text_id, text_function]

/-- A function's answer is a response, or the source of a transfer of the request's id. -/
theorem ownAnswer_ok {functions : Functions F M} {f : F} {kind : Kind} {q : RPCRequest} {payload : Payload M}
    (answer : ownAnswer functions f kind q = .ok payload) :
    (kind ≠ .RPCStreamResponse ∧ ∃ r, payload = .response r ∧ functions.response f q.json = .ok r) ∨
    (kind = .RPCStreamResponse ∧ ∃ info, payload = .source ⟨q.id, info⟩) := by
  cases kind with
  | RPC =>
    simp only [ownAnswer] at answer
    cases own : functions.response f q.json with
    | error e => rw [own] at answer; cases answer
    | ok r => rw [own] at answer; cases answer; exact .inl ⟨by simp, r, rfl, rfl⟩
  | RPCStreamArgs =>
    simp only [ownAnswer] at answer
    cases own : functions.response f q.json with
    | error e => rw [own] at answer; cases answer
    | ok r => rw [own] at answer; cases answer; exact .inl ⟨by simp, r, rfl, rfl⟩
  | RPCStreamResponse =>
    simp only [ownAnswer] at answer
    cases own : functions.stream f q.json with
    | error e => rw [own] at answer; cases answer
    | ok given => rw [own] at answer; cases answer; exact .inr ⟨rfl, given.2, rfl⟩

/-- The call after the step that makes it, and in every later state. -/
theorem run_call {kind : Kind} {id func : String} {args : List String} {info : M} {after : List (Act M)}
    {n₀ n : Native M} (reached : run step n₀ (call kind id func args info :: after) = some n) {c : Call M}
    (at_ : n.2.calls[n₀.2.calls.length]? = some c) : c.kind = kind ∧ c.id = id := by
  obtain ⟨n₁, c₀, moved, calls, kind₀, id₀, -⟩ := call_posts kind id func args info n₀
  obtain ⟨n₁', moved', later⟩ := run_cons.1 reached
  rw [moved, Option.some.injEq] at moved'
  subst moved'
  obtain ⟨c', at', id', kind', -⟩ := run_extends later n₀.2.calls.length c₀ (by simp [calls])
  rw [at_, Option.some.injEq] at at'
  subst at'
  exact ⟨kind'.trans kind₀, id'.trans id₀⟩

theorem not_settled {answer : Except String (Payload M)} : ¬ SettledWith answer (some none) := by
  cases answer <;> simp [SettledWith]

/-- A pending call is settled with the function's answer if that is no failure and the call listens. -/
theorem answer_settles {n : Native M} {i : Nat} {c : Call M} (sound : Sound n) (listening : Listening i n)
    (at_ : n.2.calls[i]? = some c) (pending : n.2.promises[i]? = some none) {q : RPCRequest} (own : q.id = c.id)
    {functions : Functions F M} {f : F} (matched : ∀ r, functions.response f q.json = .ok r → r.id = c.id) :
    SettledWith (ownAnswer functions f c.kind q)
        (messageHandler n (messageOf q (ownAnswer functions f c.kind q))).2.promises[i]? ↔
      Succeeds (ownAnswer functions f c.kind q) ∧ c.sending = none := by
  cases answer : ownAnswer functions f c.kind q with
  | error e =>
    rw [messageOf, response_unheard sound at_ own pending (by simp)]
    simp [not_settled, Succeeds]
  | ok payload =>
    rcases ownAnswer_ok answer with ⟨kind, r, rfl, response⟩ | ⟨kind, info, rfl⟩
    · have mine := matched r response
      have succeeds : Succeeds (.ok (.response r) : Except String (Payload M)) ↔ r.status = .done := by
        cases status : r.status <;> simp [Succeeds, Payload.failed, status]
      rw [succeeds, messageOf]
      by_cases heard : c.Hears ∧ r.status = .done
      · rw [response_heard sound at_ mine pending listening heard.1 heard.2]
        simp [SettledWith, Payload.failed, heard.2, heard.1.2]
      · rw [response_unheard sound at_ mine pending heard]
        simp only [not_settled, false_iff]
        exact fun both => heard ⟨⟨kind, both.2⟩, both.1⟩
    · have sent := sound.sent_of_stream at_ kind
      rw [messageOf, own, start_heard sound listening at_ pending kind sent]
      simp [SettledWith, Succeeds, Payload.failed, sent]

/-- **When the two ends agree**: a call invokes the function of its name and is
settled with that function's answer exactly when the same function stands in the
adaptor under the name `undefined`, and the answer is one that the call hears. -/
theorem call_agrees (functions : Functions F M) (adaptor : Properties F) {kind : Kind} {id func : String}
    {args : List String} {info : M} {before after : List (Act M)} {n₀ n : Native M} {c : Call M} {f : F}
    (registered : adaptor.lookup func = some f) (posted : run step init before = some n₀)
    (reached : run step n₀ (call kind id func args info :: after) = some n)
    (at_ : n.2.calls[n₀.2.calls.length]? = some c) (distinct : Own n₀.2.calls.length n)
    (pending : n.2.promises[n₀.2.calls.length]? = some none)
    (unanswered : ∀ r, .message (.rpcResponse r) ∈ after → r.id ≠ id)
    (matched : ∀ r, functions.response f (request kind id func args).json = .ok r → r.id = id) :
    ∃ m n', (listener functions adaptor (request kind id func args).json).posted.find? (·.answers) = some m ∧
      step n (.message m) = some n' ∧
      ((listener functions adaptor (request kind id func args).json).invoked = [(f, (request kind id func args).json)] ∧
          SettledWith (ownAnswer functions f kind (request kind id func args)) n'.2.promises[n₀.2.calls.length]? ↔
        adaptor.lookup "undefined" = adaptor.lookup func ∧
          Succeeds (ownAnswer functions f kind (request kind id func args)) ∧ c.sending = none) := by
  obtain ⟨hisKind, hisId⟩ := run_call reached at_
  obtain ⟨sound, listening⟩ := run_listening posted (Nat.le_refl _) reached at_ distinct (by
    intro r member
    rw [hisId]
    rcases List.mem_cons.1 member with same | later
    · cases kind <;> cases same
    · exact unanswered r later)
  subst hisKind
  have settles := answer_settles sound listening at_ pending (q := request c.kind id func args) hisId.symm
    (fun r response => (matched r response).trans hisId.symm)
  have handled := listener_request functions adaptor c.kind id func args
  cases found : adaptor.lookup "undefined" with
  | none =>
    simp only [found] at handled
    refine ⟨_, _, handled.2, rfl, ?_⟩
    simp [handled.1, registered]
  | some g =>
    simp only [found] at handled
    refine ⟨_, _, handled.2, rfl, ?_⟩
    simp only [handled.1, registered, List.cons.injEq, Prod.mk.injEq, and_true, Option.some.injEq]
    constructor
    · rintro ⟨rfl, settled⟩
      exact ⟨rfl, settles.1 settled⟩
    · rintro ⟨rfl, heard⟩
      exact ⟨rfl, settles.2 heard⟩

end

/-- A function that answers each request as done. -/
def ready : Functions Unit Unit where
  response := fun _ data => .ok ⟨text data "id", "Ready", .done⟩
  stream := fun _ _ => .ok ([], ())

/-- A function that is registered under the name `undefined`. -/
theorem call_agrees_sample :
    ∃ m n', (listener ready (register [] [("undefined", ())]) (request .RPC "a" "undefined" []).json).posted.find?
        (·.answers) = some m ∧
      step (RPC "a" "undefined" [] init) (.message m) = some n' ∧
      ((listener ready (register [] [("undefined", ())]) (request .RPC "a" "undefined" []).json).invoked =
            [((), (request .RPC "a" "undefined" []).json)] ∧
          SettledWith (ownAnswer ready () .RPC (request .RPC "a" "undefined" [])) n'.2.promises[0]? ↔
        (register [] [("undefined", ())]).lookup "undefined" = (register [] [("undefined", ())]).lookup "undefined" ∧
          Succeeds (ownAnswer ready () .RPC (request .RPC "a" "undefined" [])) ∧ (none : Option Unit) = none) :=
  call_agrees ready (register [] [("undefined", ())]) rfl (show run step init [] = some init from rfl)
    (show run step init [call .RPC "a" "undefined" [] ()] = some _ from rfl)
    (show _ = some { kind := .RPC, id := "a" } from rfl) (by
      intro c j c' at_ atJ same
      cases j with
      | zero => rfl
      | succ j => cases atJ) rfl (by simp) (fun r response => by cases response; rfl)

/-- `RPC('start', [])` of a registered function invokes nothing, and its promise stays pending. -/
theorem start_not_invoked :
    let adaptor := register [] [("start", ())]
    let q := request .RPC "a" "start" []
    adaptor.lookup "start" = some () ∧ (listener ready adaptor q.json).invoked = [] ∧
      ∃ m n', (listener ready adaptor q.json).posted.find? (·.answers) = some m ∧
        step (RPC "a" "start" [] init) (.message m) = some n' ∧ n'.2.promises[0]? = some none ∧
        ¬ ((listener ready adaptor q.json).invoked = [((), q.json)] ∧
          SettledWith (ownAnswer ready () .RPC q) n'.2.promises[0]?) := by
  refine ⟨rfl, rfl, _, _, rfl, rfl, rfl, ?_⟩
  rintro ⟨invoked, -⟩
  cases invoked

end Fula.RnFula.Rpc
