import Fula.RnFula.Download
import Fula.RnFula.Transfers

/-!
# Transfers that fail

Both `streamSend`s read an iterator that may throw, and none of the messages
that make up a transfer says so: on the native side the promise of `streamSend`
rejects, which tells the caller on the same side, and in the web view the loop
runs in the executor of a promise, where an exception settles nothing.

`failure_untold`: whatever the receiving end does, the consumer of such a
transfer goes on waiting.
-/

namespace Fula.RnFula
set_option autoImplicit false
open Lib EventEmitter Download

/-- How an iterator ends. -/
inductive End where
  | done
  | throws (message : String)

/-- The promise that a `streamSend` returns. -/
inductive Sending where
  | pending
  | fulfilled
  | rejected (message : String)

/-- What a `streamSend` posts, and what becomes of its promise. -/
structure Sent (M : Type) where
  posted : List (Chunk M)
  promise : Sending

namespace Sent

variable {M : Type}

def post (data : Chunk M) (rest : Sent M) : Sent M := { rest with posted := data :: rest.posted }

end Sent

variable {M : Type} (transferId : String) (info : M)

/-! ## The native side -/

/-- The `while (true)` of `streamSend`, on what the iterator still has. -/
def sendValues (ends : End) : List String → Sent M
  | [] => match ends with
    | .done => { posted := [⟨transferId, info, "", .END⟩], promise := .fulfilled }
    | .throws message => { posted := [], promise := .rejected message }
  | value :: values => (sendValues ends values).post ⟨transferId, info, value, .CHUNK⟩

def nativeStreamSend (ends : End) (values : List String) : Sent M :=
  (sendValues transferId info ends values).post ⟨transferId, info, "", .START⟩

/-! ## The web view -/

variable (stringify : Bytes → String)

/-- The loop of `streamSend` from a round with this `buffer` on. -/
def sendBuffers (ends : End) : List Bytes → List Bytes → Sent M
  | buffer, [] => match ends with
    | .done => {
        posted := (if buffer.length > 0 then [⟨transferId, info, stringify (concatArrayBuffers buffer), .CHUNK⟩] else []) ++
          [⟨transferId, info, "", .END⟩]
        promise := .fulfilled }
    -- The executor is async: its own promise rejects, and the one it was to settle is left.
    | .throws _ => { posted := [], promise := .pending }
  | buffer, chunk :: chunks =>
    if buffer.length < 3 then sendBuffers ends (buffer ++ [chunk]) chunks
    else (sendBuffers ends [chunk] chunks).post ⟨transferId, info, stringify (concatArrayBuffers buffer), .CHUNK⟩

def webStreamSend (ends : End) (chunks : List Bytes) : Sent M :=
  (sendBuffers transferId info stringify ends [] chunks).post ⟨transferId, info, "", .START⟩

/-- A transfer, by what its iterator gives. -/
inductive Transfer where
  /-- `sendFile`: to the web view. -/
  | upload (values : List String)
  /-- `receiveFile`: to the native side. -/
  | download (chunks : List Bytes)

def Transfer.sent (ends : End) : Transfer → Sent M
  | .upload values => nativeStreamSend transferId info ends values
  | .download chunks => webStreamSend transferId info stringify ends chunks

/-- The consumer of the transfer sees an error; in `receiveFile` that rejects the promise. -/
def Told {V : Type} (k : Nat) (b : Bridge V M) : Prop :=
  ∃ o, b.2.observers[k]? = some o ∧ o.outcome = some .failed

/-- It has seen neither the end nor an error. -/
def Waits {V : Type} (k : Nat) (b : Bridge V M) : Prop := ∃ o, b.2.observers[k]? = some o ∧ o.outcome = none

/-! ## What is posted -/

variable {transferId info stringify}

/-- A transfer that comes to its end is posted as before. -/
theorem sendValues_done (values : List String) : (sendValues transferId info .done values).posted =
    values.map (⟨transferId, info, ·, .CHUNK⟩) ++ [⟨transferId, info, "", .END⟩] := by
  induction values with
  | nil => rfl
  | cons value values ih => simp [sendValues, Sent.post, ih]

theorem sendBuffers_done (buffer chunks : List Bytes) :
    (sendBuffers transferId info stringify .done buffer chunks).posted =
      (post stringify buffer chunks).map (⟨transferId, info, ·, .CHUNK⟩) ++ [⟨transferId, info, "", .END⟩] := by
  induction chunks generalizing buffer with
  | nil =>
    simp only [sendBuffers, post]
    split <;> rfl
  | cons chunk chunks ih =>
    simp only [sendBuffers, post]
    split
    · exact ih _
    · simp [Sent.post, ih]

theorem sent_done (transfer : Transfer) : (transfer.sent transferId info stringify .done).posted =
    match transfer with
    | .upload values => RnFula.streamSend transferId values info
    | .download chunks => Download.streamSend stringify transferId chunks info := by
  cases transfer with
  | upload values => simp [Transfer.sent, nativeStreamSend, Sent.post, sendValues_done, RnFula.streamSend]
  | download chunks =>
    simp [Transfer.sent, webStreamSend, Sent.post, sendBuffers_done, RnFula.streamSend, Download.streamSend]

/-- One that fails has no END, nor anything in its place. -/
theorem status_of_throws {transfer : Transfer} {message : String} {data : Chunk M}
    (member : data ∈ (transfer.sent transferId info stringify (.throws message)).posted) : data.status ≠ .END := by
  have values (vs : List String) : ∀ data ∈ (sendValues transferId info (.throws message) vs).posted,
      data.status = .CHUNK := by
    induction vs with
    | nil => simp [sendValues]
    | cons v vs ih => simpa [sendValues, Sent.post] using ih
  have buffers (buffer chunks : List Bytes) :
      ∀ data ∈ (sendBuffers transferId info stringify (.throws message) buffer chunks).posted, data.status = .CHUNK := by
    induction chunks generalizing buffer with
    | nil => simp [sendBuffers]
    | cons chunk chunks ih =>
      simp only [sendBuffers]
      split
      · exact ih _
      · simpa [Sent.post] using ih [chunk]
  cases transfer with
  | upload vs =>
    rcases List.mem_cons.1 member with rfl | later
    · simp
    · simp [values vs data later]
  | download chunks =>
    rcases List.mem_cons.1 member with rfl | later
    · simp
    · simp [buffers [] chunks data later]

/-- The sender is told on the native side only: in the web view the `catch` around
`streamSend`, which would post a failed response, is not reached. -/
theorem promise_of_throws (transfer : Transfer) (message : String) :
    (transfer.sent transferId info stringify (.throws message)).promise = match transfer with
      | .upload _ => .rejected message
      | .download _ => .pending := by
  have buffers (buffer chunks : List Bytes) :
      (sendBuffers transferId info stringify (.throws message) buffer chunks).promise = .pending := by
    induction chunks generalizing buffer with
    | nil => rfl
    | cons chunk chunks ih =>
      simp only [sendBuffers]
      split
      · exact ih _
      · exact ih [chunk]
  cases transfer with
  | upload values =>
    change (sendValues transferId info (.throws message) values).promise = _
    induction values with
    | nil => rfl
    | cons value values ih => exact ih
  | download chunks => exact buffers [] chunks

/-! ## What the consumer is told -/

variable {V : Type} {parse : String → Option V} {n : Nat}

/-- Without an END nothing ends the subscription. -/
theorem foldl_tell_outcome {messages : List (Chunk M)} (o : Observer V) (open_ : ∀ m ∈ messages, m.status ≠ .END) :
    (messages.foldl (tell parse) o).outcome = o.outcome := by
  induction messages generalizing o with
  | nil => rfl
  | cons m messages ih =>
    have same : (tell parse o m).outcome = o.outcome := by
      unfold tell
      cases status : m.status with
      | START => rfl
      | CHUNK =>
        cases parse m.data with
        | none => rfl
        | some v => simp only [Observer.next]; split <;> rfl
      | END => exact absurd status (open_ m (by simp))
    rw [List.foldl_cons, ih _ fun m' member => open_ m' (by simp [member]), same]

/-- **A failure is told to nobody**: in every run of the receiving end, with any other
transfers, in which a transfer with a failing iterator brings what it posts, whoever
subscribes to its source, and whenever, goes on waiting. -/
theorem failure_untold (transfer : Transfer) (message : String) {before after : List (Act M)} {b t : Bridge V M} {p : Nat}
    {source : Source M} (lengths : ∀ a ∈ before ++ after, ∀ id, a.id? = some id → id.length = n)
    (first : run (step parse) init before = some b) (opened : b.2.promises[p]? = some (some source))
    (posted : messagesOf source.id (before ++ after) <+:
      (transfer.sent source.id info stringify (.throws message)).posted)
    (reached : run (step parse) b (.iterate p :: after) = some t) :
    ¬Told b.2.observers.length t ∧ Waits b.2.observers.length t := by
  have wired : Wired n b := wired_of_run (fun a there => lengths a (by simp [there])) first
  have length : source.id.length = n := wired.sources p source opened
  obtain ⟨subscribed, moved, rest⟩ := run_cons.1 reached
  have same : subscribed = subscribe source.id b := by simpa [step, opened] using moved.symm
  subst same
  have told := ((follows_subscribe wired source.id).run (wired.subscribe length) length
    (fun a there => lengths a (by simp [there])) rest).1
  have waits : ((messagesOf source.id after).foldl (tell parse) {}).outcome = none := by
    refine foldl_tell_outcome {} fun m member => status_of_throws (posted.subset ?_)
    rw [messagesOf_append]
    exact List.mem_append_right _ member
  refine ⟨?_, _, told, waits⟩
  rintro ⟨o, there, failed⟩
  rw [told, Option.some.injEq] at there
  rw [← there, waits] at failed
  cases failed

/-- A download whose source throws after four chunks; the fourth one is still in the buffer. -/
theorem failure_untold_sample :
    ∃ b t : Bridge String Unit,
      run (step some) init [.await_ "a", .message ⟨"a", (), "", .START⟩] = some b ∧
      run (step some) b [.iterate 0, .message ⟨"a", (), "AQID", .CHUNK⟩] = some t ∧ ¬Told 0 t ∧ Waits 0 t :=
  ⟨_, _, rfl, rfl, @failure_untold Unit () Download.stringify String some 1 (.download [[1], [2], [3], [4]]) "gone"
    [.await_ "a", .message ⟨"a", (), "", .START⟩] [.message ⟨"a", (), "AQID", .CHUNK⟩] _ _ 0 ⟨"a", ()⟩
    (by simp [Act.id?]; decide) rfl rfl (List.prefix_refl _) rfl⟩

/-- An upload whose file fails after one chunk: the web view waits for more. -/
theorem failure_not_told :
    (Transfer.upload ["AQID"]).sent "a" () Download.stringify (.throws "gone") =
        { posted := [⟨"a", (), "", .START⟩, ⟨"a", (), "AQID", .CHUNK⟩], promise := .rejected "gone" } ∧
      ∃ b t : Bridge String Unit,
        run (step some) init [.await_ "a", .message ⟨"a", (), "", .START⟩] = some b ∧
        run (step some) b [.iterate 0, .message ⟨"a", (), "AQID", .CHUNK⟩] = some t ∧ ¬Told 0 t := by
  refine ⟨rfl, _, _, rfl, rfl, ?_⟩
  rintro ⟨o, there, failed⟩
  cases there
  cases failed

end Fula.RnFula
