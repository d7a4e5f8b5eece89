import Fula.FileProtocol.Uploads

/-!
# Which uploads are answered

`save` waits for the call of `declareId` that the subscriber of
`incomingFiles` makes when both of its `ipfsNode.add` calls have resolved. What
is thrown before that is caught and logged by the subscriber, and nobody is
told. `Attempt` is an upload whose storing side may fail: `Storing` says how
it fares, `reject` is the exception.
-/

namespace Fula.FileProtocol
set_option autoImplicit false
open Lib AsyncLater IterateLater Schema

/-- The outcome of the storing side of an upload. -/
inductive Storing where
  /-- Nobody subscribed to `incomingFiles`. -/
  | unsubscribed
  | succeeds
  /-- The `ipfsNode.add` of the content rejects. -/
  | addFails
  /-- The `ipfsNode.add` of the record rejects. -/
  | recordFails
  deriving DecidableEq

structure Attempt (ε : Type) where
  upload : Upload ε
  /-- The subscriber has caught an exception. -/
  caught : Bool := false

namespace Attempt

variable {ε : Type} {aes : AesJs}

inductive Act where
  | upload (a : Upload.Act)
  /-- What the subscriber awaits is rejected, or the record cannot be written. -/
  | reject
  deriving DecidableEq

def start (x : Transmission aes) : Attempt ε := { upload := Upload.start x }

/-- The steps of the storing side that its outcome allows. -/
def allows (storing : Storing) (caught : Bool) : Upload.Act → Bool
  | .pullContent => !caught
  | .added => !caught && storing ≠ .addFails
  | .recorded => !caught && storing ≠ .recordFails
  | _ => true

/-- `handler` goes on; with no subscriber the announcement calls nobody. -/
def handle (storing : Storing) (u : Upload ε) (r : Result Bytes ε) : Upload ε :=
  if storing = .unsubscribed then { u.handle r with content := u.content, store := u.store } else u.handle r

def rejects (storing : Storing) : Store → Bool
  | .adding _ => storing = .addFails
  | .recording info file =>
    storing = .recordFails || (File.toBinary { meta_ := some info, contentPath := file.text }).isNone
  | _ => false

def step (add : Bytes → Cid) (storing : Storing) (s : Attempt ε) : Act → Option (Attempt ε)
  | .upload .head =>
    match s.upload.handling with
    | .firstValue => (s.upload.head[0]?).map fun r => { s with upload := handle storing s.upload r }
    | _ => none
  | .upload a =>
    if allows storing s.caught a then (Upload.step add s.upload a).map fun upload => { s with upload } else none
  | .reject => if !s.caught && rejects storing s.upload.store then some { s with caught := true } else none

/-- `handler` is done: it has written a response and closed the stream, or failed. -/
def Answered (s : Attempt ε) : Prop := s.upload.handling = .responded ∨ s.upload.handling = .failed

/-- A subscriber stores the file, and its record can be written. -/
def Stores (add : Bytes → Cid) (storing : Storing) (client : Client) : Prop :=
  storing = .succeeds ∧ (fileId add client.info.received client.content).isSome = true

variable {add : Bytes → Cid} {storing : Storing} {x : Transmission aes} {s s' : Attempt ε}

/-! ### With a subscriber -/

/-- Where the subscriber can be with its outcome. -/
def StoringAt (storing : Storing) (caught : Bool) : Store → Prop
  | .idle => caught = false
  | .adding _ => caught = true → storing = .addFails
  | .recording info file => storing ≠ .addFails ∧
      (caught = true → storing = .recordFails ∨ File.toBinary { meta_ := some info, contentPath := file.text } = none)
  | .declared _ => caught = false ∧ storing ≠ .addFails ∧ storing ≠ .recordFails

structure Inv (add : Bytes → Cid) (storing : Storing) (x : Transmission aes) (s : Attempt ε) : Prop where
  upload : Upload.Inv add x s.upload
  storing : StoringAt storing s.caught s.upload.store

theorem inv_start (x : Transmission aes) : Inv add storing x (start x : Attempt ε) :=
  ⟨Upload.inv_start x, rfl⟩

/-- Whoever subscribed, the steps after the announcement are those of `Upload` that are allowed. -/
theorem step_later (s : Attempt ε) {a : Upload.Act} (later : a ≠ .head) :
    step add storing s (.upload a) =
      if allows storing s.caught a then (Upload.step add s.upload a).map fun upload => { s with upload } else none := by
  cases a with
  | head => exact absurd rfl later
  | _ => rfl

/-- The steps of the upload are those of `Upload` that are allowed. -/
theorem step_upload_eq (subscribed : storing ≠ .unsubscribed) (s : Attempt ε) (a : Upload.Act) :
    step add storing s (.upload a) =
      if allows storing s.caught a then (Upload.step add s.upload a).map fun upload => { s with upload } else none := by
  cases a with
  | head =>
    cases waits : s.upload.handling with
    | firstValue =>
      simp only [step, Upload.step, waits, handle, if_neg subscribed, allows, if_true, Option.map_map]
      rfl
    | _ => simp [step, Upload.step, waits]
  | _ => exact step_later s (by simp)

theorem step_upload (subscribed : storing ≠ .unsubscribed) {a : Upload.Act}
    (moved : step add storing s (.upload a) = some s') :
    allows storing s.caught a = true ∧ ∃ upload, Upload.step add s.upload a = some upload ∧ s' = { s with upload } := by
  rw [step_upload_eq subscribed] at moved
  split at moved
  · next allowed =>
    obtain ⟨upload, first, rfl⟩ := Option.map_eq_some_iff.1 moved
    exact ⟨allowed, upload, first, rfl⟩
  · cases moved

/-- The storing side does what its outcome allows. -/
theorem storing_step {u u' : Upload ε} {caught : Bool} {a : Upload.Act} (h : Upload.Inv add x u)
    (at_ : StoringAt storing caught u.store) (allowed : allows storing caught a = true)
    (moved : Upload.step add u a = some u') : StoringAt storing caught u'.store := by
  cases Upload.step_moves moved with
  | head waits answer =>
    obtain ⟨st, -, -, handling⟩ := h.handling
    rw [waits] at handling
    have idle : u.store = .idle := by
      cases store : u.store with
      | idle => rfl
      | _ => rw [store] at handling; cases handling.2.2.1
    rw [idle] at at_
    rw [h.handle_eq waits answer]
    intro again
    rw [show caught = false from at_] at again
    cases again
  | @takeTail taken r waits answer => cases r <;> exact at_
  | added waits first read =>
    simp only [allows, Bool.and_eq_true, Bool.not_eq_true', decide_eq_true_eq] at allowed
    exact ⟨allowed.2, by simp [allowed.1]⟩
  | recorded waits wrote =>
    simp only [allows, Bool.and_eq_true, Bool.not_eq_true', decide_eq_true_eq] at allowed
    rw [waits] at at_
    exact ⟨allowed.1, at_.1, allowed.2⟩
  -- the others leave the store as it is
  | _ => exact at_

theorem inv_step (subscribed : storing ≠ .unsubscribed) {a : Act} (h : Inv add storing x s)
    (moved : step add storing s a = some s') : Inv add storing x s' := by
  cases a with
  | upload a =>
    obtain ⟨allowed, upload, first, rfl⟩ := step_upload subscribed moved
    exact ⟨Upload.inv_step h.upload first, storing_step h.upload h.storing allowed first⟩
  | reject =>
    simp only [step] at moved
    split at moved
    · next thrown =>
      cases moved
      simp only [Bool.and_eq_true, Bool.not_eq_true'] at thrown
      obtain ⟨-, why⟩ := thrown
      refine ⟨h.upload, ?_⟩
      have works := h.storing
      cases at_ : s.upload.store with
      | idle => rw [at_] at why; cases why
      | adding info =>
        rw [at_] at why
        exact fun _ => of_decide_eq_true why
      | recording info file =>
        rw [at_] at why works
        refine ⟨works.1, fun _ => ?_⟩
        simpa [rejects, Option.isNone_iff_eq_none] using why
      | declared id => rw [at_] at why; cases why
    · cases moved

theorem inv_run (subscribed : storing ≠ .unsubscribed) {acts : List Act}
    (reached : run (step add storing) (start x) acts = some s) : Inv add storing x s :=
  run_invariant (inv_start x) (fun _ _ _ => inv_step subscribed) reached

/-- Nothing can move but `ipfsNode.add`, which may go on reading. -/
def Still (add : Bytes → Cid) (storing : Storing) (s : Attempt ε) : Prop :=
  ∀ a, a ≠ .upload .pullContent → step add storing s a = none

theorem Still.blocked (subscribed : storing ≠ .unsubscribed) (still : Still add storing s) {a : Upload.Act}
    (other : a ≠ .pullContent) (allowed : allows storing s.caught a = true) : Upload.step add s.upload a = none := by
  have blocked := still (.upload a) (by simpa using other)
  rw [step_upload_eq subscribed, if_pos allowed] at blocked
  exact Option.map_eq_none_iff.1 blocked

/-- The stream was read and copied, and `ipfsNode.add` has all that it asked for. -/
theorem Inv.copied (subscribed : storing ≠ .unsubscribed) (h : Inv add storing x s) (still : Still add storing s) :
    (s.upload.handling = .saved ∨ s.upload.handling = .responded) ∧ s.upload.store.isIdle = false ∧
      ∃ later, s.upload.content.observers[0]? = some later ∧
        later.gen.results = served x.body true later.gen.calls := by
  have ended : s.upload.handling = .saved ∨ s.upload.handling = .responded := by
    apply h.upload.handled.rests
    · intro a inside
      have blocked := still.blocked subscribed (a := .stream a) (by simp) rfl
      simpa only [Upload.step, if_pos inside, Option.map_eq_none_iff] using blocked
    · intro at_
      have blocked := still.blocked subscribed (a := .head) (by simp) rfl
      simpa only [Upload.step, at_, Option.map_eq_none_iff] using blocked
    · intro taken at_
      have blocked := still.blocked subscribed (a := .pullTail) (by simp) rfl
      simpa only [Upload.step, at_, Option.map_eq_none_iff] using blocked
    · intro taken at_
      have blocked := still.blocked subscribed (a := .takeTail) (by simp) rfl
      simpa only [Upload.step, at_, Option.map_eq_none_iff] using blocked
  obtain ⟨st, -, -, handling⟩ := h.upload.handling
  obtain ⟨⟨stopped, later, only, holds⟩, busy⟩ :
      Upload.Copied x.body true s.upload.content ∧ s.upload.store.isIdle = false := by
    rcases ended with at_ | at_
    · rw [at_] at handling; exact ⟨handling.1, handling.2.1⟩
    · rw [at_] at handling; exact ⟨handling.1, handling.2.1⟩
  rw [stopped] at holds
  have first : s.upload.content.observers[0]? = some later := by rw [only]; rfl
  refine ⟨ended, busy, later, first, holds.plain_served ?_⟩
  have blocked := still.blocked subscribed (a := .tickContent) (by simp) rfl
  simpa only [Upload.step, first, Option.bind_some, Option.map_eq_none_iff] using blocked

/-- Where nothing can move, the upload is answered just when it is stored. -/
theorem Inv.rests (subscribed : storing ≠ .unsubscribed) (h : Inv add storing x s)
    (quiet : Quiet (step add storing) (fun _ => True) s) :
    s.upload.handling = .responded ∧ Stores add storing x.client ∨
      s.upload.handling = .saved ∧ ¬ Stores add storing x.client := by
  have still : Still add storing s := fun a _ => quiet a trivial
  obtain ⟨ended, busy, later, first, -⟩ := h.copied subscribed still
  have works := h.storing
  have holds := h.upload.store
  rcases ended with saved | responded
  · refine .inr ⟨saved, ?_⟩
    rintro ⟨rfl, filed⟩
    cases at_ : s.upload.store with
    | idle => rw [at_] at busy; cases busy
    | adding info =>
      rw [at_] at works
      have running : s.caught = false := by
        cases caught : s.caught with
        | false => rfl
        | true => cases works caught
      have blocked := quiet (.upload .pullContent) trivial
      simp [step, allows, running, Upload.step, at_, first] at blocked
    | recording info file =>
      rw [at_] at works holds
      obtain ⟨rfl, rfl⟩ := holds
      obtain ⟨id, filed⟩ := Option.isSome_iff_exists.1 filed
      rw [fileId, ← x.body_content, Option.map_eq_some_iff] at filed
      obtain ⟨record, written, -⟩ := filed
      have running : s.caught = false := by
        cases caught : s.caught with
        | false => rfl
        | true =>
          rcases works.2 caught with fails | unwritten
          · cases fails
          · rw [written] at unwritten; cases unwritten
      have blocked := still.blocked subscribed (a := .recorded) (by simp) (by rw [running]; rfl)
      simp [Upload.step, at_, written] at blocked
    | declared id =>
      have blocked := still.blocked subscribed (a := .respond) (by simp) rfl
      simp [Upload.step, saved, at_] at blocked
  · refine .inl ⟨responded, ?_⟩
    obtain ⟨st, -, -, handling⟩ := h.upload.handling
    rw [responded] at handling
    obtain ⟨message, written⟩ := Option.isSome_iff_exists.1 handling.2.2
    obtain ⟨id, declared, -⟩ := h.upload.response message written
    rw [declared] at works holds
    rw [x.body_content] at holds
    refine ⟨?_, by rw [show fileId add x.client.info.received x.client.content = some id from holds]; rfl⟩
    cases storing with
    | unsubscribed => exact (subscribed rfl).elim
    | succeeds => rfl
    | addFails => exact (works.2.1 rfl).elim
    | recordFails => exact (works.2.2 rfl).elim

/-! ### Without one -/

/-- The stream is copied into a subject that nobody observes. -/
structure Unheard (x : Transmission aes) (s : Attempt ε) : Prop where
  handled : Upload.Handled x s.upload
  store : s.upload.store = .idle
  observers : s.upload.content.observers = []
  silent : s.upload.handling ≠ .responded

theorem unheard_start (x : Transmission aes) : Unheard x (start x : Attempt ε) :=
  ⟨Upload.handled_start x, rfl, rfl, fun same => by cases same⟩

/-- The steps that are left are those of the stream and its readers. -/
theorem Unheard.step_cases (h : Unheard x s) {a : Act} (moved : step add .unsubscribed s a = some s') :
    (∃ a chain, Chain.internal a ∧ Chain.step s.upload.chain a = some chain ∧
      s' = { s with upload := { s.upload with chain } }) ∨
    (s.upload.handling = .firstValue ∧ s' = { s with upload := { s.upload with handling := .pulling 0 } }) ∨
    (∃ taken, s.upload.handling = .pulling taken ∧ s' = { s with upload := { s.upload with
      chain := s.upload.chain.pullUpstream s.upload.chain.stages.length, handling := .awaiting taken } }) ∨
    (∃ taken r, s.upload.handling = .awaiting taken ∧ s.upload.tail[taken]? = some r ∧
      s' = { s with upload := s.upload.forward taken r }) ∨
    s.upload.received = none ∧ ∃ text, s' = { s with upload := { s.upload with received := some text } } := by
  cases a with
  | upload a =>
    by_cases head : a = .head
    · subst head
      simp only [step] at moved
      split at moved
      · next waits =>
        obtain ⟨r, answer, rfl⟩ := Option.map_eq_some_iff.1 moved
        cases h.handled.head_answer answer
        refine .inr (.inl ⟨waits, ?_⟩)
        simp only [handle, if_true, Upload.handle, x.header_read]
      · cases moved
    · rw [step_later s head] at moved
      split at moved
      · obtain ⟨upload, goes, rfl⟩ := Option.map_eq_some_iff.1 moved
        cases Upload.step_moves goes with
        | stream inside first => exact .inl ⟨_, _, inside, first, rfl⟩
        | head => exact absurd rfl head
        | pullTail waits pulled =>
          cases pulled
          exact .inr (.inr (.inl ⟨_, waits, rfl⟩))
        | takeTail waits answer => exact .inr (.inr (.inr (.inl ⟨_, _, waits, answer, rfl⟩)))
        | pullContent waits => rw [h.store] at waits; cases waits
        | tickContent at_ => rw [h.observers] at at_; cases at_
        | added waits => rw [h.store] at waits; cases waits
        | recorded waits => rw [h.store] at waits; cases waits
        | respond _ declared => rw [h.store] at declared; cases declared
        | receive _ unanswered => exact .inr (.inr (.inr (.inr ⟨unanswered, _, rfl⟩)))
      · cases moved
  | reject => simp [step, rejects, h.store] at moved

theorem unheard_step {a : Act} (h : Unheard x s) (moved : step add .unsubscribed s a = some s') : Unheard x s' := by
  rcases h.step_cases moved with ⟨a, chain, inside, first, rfl⟩ | ⟨waits, rfl⟩ | ⟨taken, waits, rfl⟩ |
    ⟨taken, r, waits, answer, rfl⟩ | ⟨-, text, rfl⟩
  · exact ⟨h.handled.streamStep inside first, h.store, h.observers, h.silent⟩
  · exact ⟨h.handled.head waits, h.store, h.observers, fun same => by cases same⟩
  · exact ⟨h.handled.pullTail waits, h.store, h.observers, fun same => by cases same⟩
  · have handled := h.handled.takeTail waits answer
    rcases h.handled.tail_answer answer with ⟨v, -, rfl⟩ | ⟨-, rfl⟩
    · refine ⟨handled, h.store, ?_, fun same => by cases same⟩
      simp only [Upload.forward, Subject.next, h.observers, List.map_nil]
      split
      · exact h.observers
      · rfl
    · refine ⟨handled, h.store, ?_, fun same => by cases same⟩
      simp only [Upload.forward, Subject.complete, h.observers, List.map_nil]
      split
      · exact h.observers
      · rfl
  · exact ⟨⟨h.handled.stream, h.handled.handling⟩, h.store, h.observers, h.silent⟩

theorem unheard_run {acts : List Act} (reached : run (step add .unsubscribed) (start x) acts = some s) : Unheard x s :=
  run_invariant (unheard_start x) (fun _ _ _ => unheard_step) reached

theorem Unheard.rests (h : Unheard x s) (quiet : Quiet (step add .unsubscribed) (fun _ => True) s) :
    s.upload.handling = .saved := by
  refine (h.handled.rests ?_ ?_ ?_ ?_).resolve_right h.silent
  · intro a inside
    have blocked := quiet (.upload (.stream a)) trivial
    simpa only [step, allows, if_true, Upload.step, if_pos inside, Option.map_eq_none_iff] using blocked
  · intro at_
    have blocked := quiet (.upload .head) trivial
    simpa only [step, at_, Option.map_eq_none_iff] using blocked
  · intro taken at_
    have blocked := quiet (.upload .pullTail) trivial
    simpa only [step, allows, if_true, Upload.step, at_, Option.map_eq_none_iff] using blocked
  · intro taken at_
    have blocked := quiet (.upload .takeTail) trivial
    simpa only [step, allows, if_true, Upload.step, at_, Option.map_eq_none_iff] using blocked

/-! ### Every outcome comes to rest -/

/-- The calls that `ipfsNode.add` has made on the content. -/
def reads (u : Upload ε) : Nat := (u.content.observers[0]?).elim 0 (·.gen.calls)

/-- The runs in which `ipfsNode.add` makes no call after the end. -/
def stepReading (add : Bytes → Cid) (storing : Storing) (m : Nat) (s : Attempt ε) (a : Act) : Option (Attempt ε) :=
  if a = .upload .pullContent ∧ m < reads s.upload then none else step add storing s a

/-- Only `ipfsNode.add` calls `next()` on the content. -/
theorem reads_step {u u' : Upload ε} {a : Upload.Act} (h : Upload.Inv add x u) (other : a ≠ .pullContent)
    (moved : Upload.step add u a = some u') : reads u ≤ reads u' := by
  cases Upload.step_moves moved with
  | head waits answer =>
    obtain ⟨st, -, -, handling⟩ := h.handling
    rw [waits] at handling
    have none : reads u = 0 := by rw [reads, handling.2.1]; rfl
    rw [none]
    exact Nat.zero_le _
  | @takeTail taken r waits answer =>
    obtain ⟨st, -, -, handling⟩ := h.handling
    rw [waits] at handling
    obtain ⟨-, -, ⟨open_, later, only, -⟩, -⟩ := handling
    cases r with
    | value v => simp [reads, Upload.forward, Subject.next, open_, only, IterateLater.next]
    | error e => exact Nat.le_refl _
    | done => simp [reads, Upload.forward, Subject.complete, open_, only, IterateLater.complete]
  | pullContent => exact (other rfl).elim
  | tickContent at_ ticked =>
    obtain ⟨vs, observed, -⟩ := h.observer at_
    have same := observed.2.calls_tick ticked
    simp [reads, observed.1, Subject.set, same]
  -- the others leave the content as it is
  | _ => exact Nat.le_refl _

/-- What is left to do for a body of `m` messages. -/
def remaining (m : Nat) (s : Attempt ε) : Nat :=
  Upload.measure m s.upload + (m + 1 - reads s.upload) + if s.caught then 0 else 1

theorem remaining_step (subscribed : storing ≠ .unsubscribed) {a : Act} (h : Inv add storing x s)
    (moved : stepReading add storing x.body.length s a = some s') :
    remaining x.body.length s' < remaining x.body.length s := by
  unfold stepReading at moved
  split at moved
  · cases moved
  · next few =>
    cases a with
    | upload a =>
      obtain ⟨-, upload, first, rfl⟩ := step_upload subscribed moved
      by_cases pulls : a = .pullContent
      · subst pulls
        simp only [true_and, Nat.not_lt] at few
        cases Upload.step_moves first with
        | @pullContent info later waits at_ =>
          obtain ⟨vs, observed, -⟩ := h.upload.observer at_
          have less := pending_pull later
          have changed := Upload.pending_set at_ later.pull
          have more : reads { s.upload with content := s.upload.content.set 0 later.pull } = reads s.upload + 1 := by
            simp [reads, observed.1, Subject.set, calls_pull]
          simp only [remaining, Upload.measure, more]
          omega
      · have inside : Upload.internal a := by
          cases a with
          | pullContent => exact (pulls rfl).elim
          | _ => trivial
        have less := Upload.measure_step h.upload inside first
        have more := reads_step h.upload pulls first
        simp only [remaining]
        omega
    | reject =>
      simp only [step] at moved
      split at moved
      · next thrown =>
        cases moved
        simp only [Bool.and_eq_true, Bool.not_eq_true'] at thrown
        simp [remaining, thrown.1]
      · cases moved

/-- When everything else rests, `ipfsNode.add` has read to the end and settles. -/
theorem Inv.quiet (subscribed : storing ≠ .unsubscribed) (h : Inv add storing x s)
    (quiet : Quiet (stepReading add storing x.body.length) (fun _ => True) s) :
    Quiet (step add storing) (fun _ => True) s := by
  have still : Still add storing s := by
    intro a other
    have blocked := quiet a trivial
    rwa [stepReading, if_neg fun both => other both.1] at blocked
  rintro a -
  by_cases pulls : a = .upload .pullContent
  · subst pulls
    rw [step_upload_eq subscribed]
    split
    · next running =>
      simp only [allows, Bool.not_eq_true'] at running
      obtain ⟨-, -, later, first, all⟩ := h.copied subscribed still
      cases at_ : s.upload.store with
      | adding info =>
        have blocked := quiet (.upload .pullContent) trivial
        have past : x.body.length < later.gen.calls := by
          by_contra few
          have reading : reads s.upload = later.gen.calls := by rw [reads, first]; rfl
          rw [stepReading, if_neg (by rw [reading]; exact fun both => few both.2), step_upload_eq subscribed,
            if_pos (by simp [allows, running])] at blocked
          simp [Upload.step, at_, first] at blocked
        by_cases fails : storing = .addFails
        · have settled := still .reject (by simp)
          simp [step, rejects, running, at_, fails] at settled
        · have settled := still.blocked subscribed (a := .added) (by simp) (by simp [allows, running, fails])
          simp [Upload.step, at_, first, all, Upload.readToEnd_past past] at settled
      | _ => simp [Upload.step, at_]
    · rfl
  · exact still a pulls

theorem unheard_remaining {a : Act} (h : Unheard x s) (moved : step add .unsubscribed s a = some s') :
    Upload.measure x.body.length s'.upload < Upload.measure x.body.length s.upload := by
  obtain ⟨st, only, called, read⟩ := h.handled.handling
  rcases h.step_cases moved with ⟨a, chain, inside, first, rfl⟩ | ⟨waits, rfl⟩ | ⟨taken, waits, rfl⟩ |
    ⟨taken, r, waits, answer, rfl⟩ | ⟨unanswered, text, rfl⟩
  · have less := Chain.measure_step h.handled.stream.inv inside first
    simp only [Upload.measure]; omega
  · simp only [Upload.measure, waits, Upload.handlingLeft]; omega
  · have more := Chain.measure_pullUpstream s.upload.chain s.upload.chain.stages.length
    simp only [Upload.measure, waits, Upload.handlingLeft]; omega
  · rw [waits] at read
    rcases h.handled.tail_answer answer with ⟨v, at_, rfl⟩ | ⟨-, rfl⟩
    · have less := (List.getElem?_eq_some_iff.1 at_).1
      have same : ((s.upload.content.next v).observers.map (·.pending)) = [] := by
        unfold Subject.next
        split <;> simp [h.observers]
      cases got : s.upload.received with
      | none => simp [Upload.measure, Upload.forward, same, h.observers, waits, got, Upload.handlingLeft]; omega
      | some text => simp [Upload.measure, Upload.forward, same, h.observers, waits, got, Upload.handlingLeft]; omega
    · have same : (s.upload.content.complete.observers.map (·.pending)) = [] := by
        unfold Subject.complete
        split <;> simp [h.observers]
      cases got : s.upload.received with
      | none => simp [Upload.measure, Upload.forward, same, h.observers, waits, got, Upload.handlingLeft]
      | some text => simp [Upload.measure, Upload.forward, same, h.observers, waits, got, Upload.handlingLeft]
  · simp [Upload.measure, unanswered]

/-- Every upload can be run until nothing can move. -/
theorem rests (add : Bytes → Cid) (storing : Storing) (x : Transmission aes) :
    ∃ acts s, run (step add storing) (start x : Attempt ε) acts = some s ∧
      Quiet (step add storing) (fun _ => True) s := by
  by_cases subscribed : storing = .unsubscribed
  · subst subscribed
    obtain ⟨acts, s, -, reached, quiet⟩ := exists_quiet (step add .unsubscribed) (fun _ => True) (Unheard x)
      (fun s => Upload.measure x.body.length s.upload)
      (fun s a s' h _ moved => ⟨unheard_step h moved, unheard_remaining h moved⟩) (unheard_start x)
    exact ⟨acts, s, reached, quiet⟩
  · have keep : ∀ (s : Attempt ε) a s', stepReading add storing x.body.length s a = some s' →
        step add storing s a = some s' := by
      intro s a s' moved
      unfold stepReading at moved
      split at moved
      · cases moved
      · exact moved
    obtain ⟨acts, s, -, reached, quiet⟩ := exists_quiet (stepReading add storing x.body.length) (fun _ => True)
      (Inv add storing x) (remaining x.body.length)
      (fun s a s' h _ moved => ⟨inv_step subscribed h (keep s a s' moved), remaining_step subscribed h moved⟩)
      (inv_start x)
    have whole := run_of_le keep reached
    exact ⟨acts, s, whole, (inv_run subscribed whole).quiet subscribed quiet⟩

/-- Where nothing can move `handler` has responded to an upload that is stored,
and waits in every other one. -/
theorem rests_cases {acts : List Act} (reached : run (step add storing) (start x) acts = some s)
    (quiet : Quiet (step add storing) (fun _ => True) s) :
    s.upload.handling = .responded ∧ Stores add storing x.client ∨
      s.upload.handling = .saved ∧ ¬ Stores add storing x.client := by
  by_cases subscribed : storing = .unsubscribed
  · subst subscribed
    exact .inr ⟨(unheard_run reached).rests quiet, fun stores => by cases stores.1⟩
  · exact (inv_run subscribed reached).rests subscribed quiet

theorem not_answered (saved : s.upload.handling = .saved) : ¬ Answered s := by
  rintro (responded | failed)
  · rw [saved] at responded; cases responded
  · rw [saved] at failed; cases failed

/-- **Which uploads are answered**: those whose storing side succeeds, whatever
is uploaded and however the steps interleave; in every other case `handler`
waits for ever. -/
theorem upload_answered (add : Bytes → Cid) (x : Transmission aes) (storing : Storing) :
    (∀ acts (s : Attempt ε), run (step add storing) (start x) acts = some s →
      Quiet (step add storing) (fun _ => True) s → Answered s) ↔ Stores add storing x.client := by
  constructor
  · intro answered
    obtain ⟨acts, s, reached, quiet⟩ := rests add storing x
    rcases rests_cases reached quiet with ⟨-, stores⟩ | ⟨saved, -⟩
    · exact stores
    · exact (not_answered saved (answered acts s reached quiet)).elim
  · intro stores acts s reached quiet
    rcases rests_cases reached quiet with ⟨responded, -⟩ | ⟨-, lost⟩
    · exact .inl responded
    · exact (lost stores).elim

/-- The first `ipfsNode.add` rejects, and the upload of three bytes is never answered. -/
theorem failed_add_unanswered :
    ∃ acts, ∃ s : Attempt String, run (step sampleAdd .addFails) (start sampleUpload) acts = some s ∧
      Quiet (step sampleAdd .addFails) (fun _ => True) s ∧ s.upload.handling = .saved ∧ ¬ Answered s := by
  obtain ⟨acts, s, reached, quiet⟩ := rests (ε := String) sampleAdd .addFails sampleUpload
  rcases rests_cases reached quiet with ⟨-, succeeds, -⟩ | ⟨saved, -⟩
  · cases succeeds
  · exact ⟨acts, s, reached, quiet, saved, not_answered saved⟩

end Attempt

end Fula.FileProtocol
