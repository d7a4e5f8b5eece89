import Fula.FileProtocol.Save

/-!
# Uploads are stored exactly

`Inv x u` says where each part of an upload is: the partition has been given
the header and the body, `save` has copied the first messages of the body into
its subject, whose one observer was subscribed before the first of them, and
the storing subscriber works on the header's metadata and the whole content.
-/

namespace Fula.FileProtocol
set_option autoImplicit false
open Lib AsyncLater IterateLater Schema

namespace Upload

variable {ε : Type} {aes : AesJs}

/-! ### What a step does -/

/-- The steps, by what the handler and the subscriber awaited. -/
inductive Moves (add : Bytes → Cid) (u : Upload ε) : Act → Upload ε → Prop where
  | stream {a : Chain.Act} {chain : Chain Bytes ε} (inside : Chain.internal a)
    (first : Chain.step u.chain a = some chain) : Moves add u (.stream a) { u with chain }
  | head {r : Result Bytes ε} (waits : u.handling = .firstValue) (answer : u.head[0]? = some r) :
    Moves add u .head (u.handle r)
  | pullTail {taken : Nat} {chain : Chain Bytes ε} (waits : u.handling = .pulling taken)
    (pulled : Chain.step u.chain .pullLast = some chain) :
    Moves add u .pullTail { u with chain, handling := .awaiting taken }
  | takeTail {taken : Nat} {r : Result Bytes ε} (waits : u.handling = .awaiting taken)
    (answer : u.tail[taken]? = some r) : Moves add u .takeTail (u.forward taken r)
  | pullContent {info : Meta} {later : IterateLater Bytes ε} (waits : u.store = .adding info)
    (at_ : u.content.observers[0]? = some later) :
    Moves add u .pullContent { u with content := u.content.set 0 later.pull }
  | tickContent {later later' : IterateLater Bytes ε} (at_ : u.content.observers[0]? = some later)
    (ticked : later.tick noPromises = some later') :
    Moves add u .tickContent { u with content := u.content.set 0 later' }
  | added {info : Meta} {later : IterateLater Bytes ε} {content : Bytes} (waits : u.store = .adding info)
    (at_ : u.content.observers[0]? = some later) (read : readToEnd later.gen.results = some content) :
    Moves add u .added { u with store := .recording info (add content) }
  | recorded {info : Meta} {file id : Cid} (waits : u.store = .recording info file)
    (wrote : (File.toBinary { meta_ := some info, contentPath := file.text }).map add = some id) :
    Moves add u .recorded { u with store := .declared id }
  | respond {id : Cid} (waits : u.handling = .saved) (declared : u.store = .declared id) :
    Moves add u .respond { u with response := some (encodeText id.text), handling := .responded }
  | receive {message : Bytes} {text : String} (written : u.response = some message)
    (unanswered : u.received = none) (read : decodeText message = some text) :
    Moves add u .receive { u with received := some text }

theorem step_moves {add : Bytes → Cid} {u u' : Upload ε} {a : Act} (moved : step add u a = some u') :
    Moves add u a u' := by
  cases a with
  | stream a =>
    simp only [step] at moved
    split at moved
    · next inside =>
      obtain ⟨chain, first, rfl⟩ := Option.map_eq_some_iff.1 moved
      exact .stream inside first
    · cases moved
  | head =>
    simp only [step] at moved
    split at moved
    · next waits =>
      obtain ⟨r, answer, rfl⟩ := Option.map_eq_some_iff.1 moved
      exact .head waits answer
    · cases moved
  | pullTail =>
    simp only [step] at moved
    split at moved
    · next taken waits =>
      obtain ⟨chain, pulled, rfl⟩ := Option.map_eq_some_iff.1 moved
      exact .pullTail waits pulled
    · cases moved
  | takeTail =>
    simp only [step] at moved
    split at moved
    · next taken waits =>
      obtain ⟨r, answer, rfl⟩ := Option.map_eq_some_iff.1 moved
      exact .takeTail waits answer
    · cases moved
  | pullContent =>
    simp only [step] at moved
    split at moved
    · next info waits =>
      obtain ⟨later, at_, rfl⟩ := Option.map_eq_some_iff.1 moved
      exact .pullContent waits at_
    · cases moved
  | tickContent =>
    simp only [step, Option.bind_eq_some_iff, Option.map_eq_some_iff] at moved
    obtain ⟨later, at_, later', ticked, rfl⟩ := moved
    exact .tickContent at_ ticked
  | added =>
    simp only [step] at moved
    split at moved
    · next info later waits at_ =>
      obtain ⟨content, read, rfl⟩ := Option.map_eq_some_iff.1 moved
      exact .added waits at_ read
    · cases moved
  | recorded =>
    simp only [step] at moved
    split at moved
    · next info file waits =>
      obtain ⟨id, wrote, rfl⟩ := Option.map_eq_some_iff.1 moved
      exact .recorded waits wrote
    · cases moved
  | respond =>
    simp only [step] at moved
    split at moved
    · next id waits declared =>
      cases moved
      exact .respond waits declared
    · cases moved
  | receive =>
    simp only [step] at moved
    split at moved
    · next message written unanswered =>
      obtain ⟨text, read, rfl⟩ := Option.map_eq_some_iff.1 moved
      exact .receive written unanswered read
    · cases moved

/-! ### What has been read of the stream -/

/-- The stream of an upload. -/
abbrev Stream (header : Bytes) (body : List Bytes) (c : Chain Bytes ε) : Prop :=
  Chain.RunInv 1 (header :: body) none [] c

/-- How far `handler` and `save` are, after so many calls on `streamTail`. -/
def ReadAt (body : List Bytes) (calls : Nat) : Handling → Prop
  | .firstValue => calls = 0
  | .pulling taken => calls = taken ∧ taken ≤ body.length
  | .awaiting taken => calls = taken + 1 ∧ taken ≤ body.length
  | .saved | .responded => True
  | .other | .failed => False

/-- What holds of the stream and its readers, whoever listens to the subject. -/
structure Handled (x : Transmission aes) (u : Upload ε) : Prop where
  stream : Stream x.header x.body u.chain
  handling : ∃ st, u.chain.stages = [st] ∧ st.first.gen.calls = 1 ∧ ReadAt x.body st.second.gen.calls u.handling

section
variable {x : Transmission aes} {u : Upload ε}

theorem handled_start (x : Transmission aes) : Handled x (start x : Upload ε) where
  stream :=
    have uncut : Stream x.header x.body (Chain.init 1 (x.header :: x.body) (none : Option ε)) :=
      ⟨Chain.inv_init _ _ _, rfl, rfl, rfl⟩
    uncut.uncut (a := .pullFirst 0) rfl rfl
  handling := ⟨_, rfl, rfl, rfl⟩

/-- The first value is the header. -/
theorem Handled.head_answer (h : Handled x u) {r : Result Bytes ε} (answer : u.head[0]? = some r) :
    r = .value x.header := by
  obtain ⟨st, only, -⟩ := h.handling
  have heads : u.head = st.first.gen.results := by simp [Upload.head, only]
  rw [heads] at answer
  have first : (Chain.parts u.chain)[0]? = some st.first := by rw [Chain.parts_only only]; rfl
  have header := h.stream.answer first rfl answer
  cases header
  rfl

/-- `save` takes the next message of the body, or its end. -/
theorem Handled.tail_answer (h : Handled x u) {taken : Nat} {r : Result Bytes ε} (answer : u.tail[taken]? = some r) :
    (∃ v, x.body[taken]? = some v ∧ r = .value v) ∨ (x.body.length ≤ taken ∧ r = .done) := by
  obtain ⟨st, only, -⟩ := h.handling
  have tails : u.tail = st.second.gen.results := by simp [Upload.tail, only]
  rw [tails] at answer
  have second : (Chain.parts u.chain)[1]? = some st.second := by rw [Chain.parts_only only]; rfl
  have message := h.stream.answer second rfl answer
  change answerAt x.body true taken = some r at message
  unfold answerAt at message
  cases at_ : x.body[taken]? with
  | some v =>
    rw [at_] at message
    cases message
    exact .inl ⟨v, rfl, rfl⟩
  | none =>
    rw [at_] at message
    cases message
    exact .inr ⟨List.getElem?_eq_none_iff.1 at_, rfl⟩

/-! Each step of the stream and its readers keeps it. -/

theorem Handled.streamStep (h : Handled x u) {a : Chain.Act} {chain : Chain Bytes ε} (inside : Chain.internal a)
    (moved : Chain.step u.chain a = some chain) : Handled x { u with chain } := by
  obtain ⟨st, only, called, read⟩ := h.handling
  obtain ⟨st', only', same, same'⟩ := h.stream.internal only inside moved
  refine ⟨h.stream.uncut moved (Chain.cutAt_internal inside), st', only', same.trans called, ?_⟩
  rw [same']
  exact read

theorem Handled.head (h : Handled x u) (waits : u.handling = .firstValue) :
    Handled x { u with handling := .pulling 0 } := by
  obtain ⟨st, only, called, read⟩ := h.handling
  rw [waits] at read
  exact ⟨h.stream, st, only, called, read, Nat.zero_le _⟩

theorem Handled.pullTail (h : Handled x u) {taken : Nat} (waits : u.handling = .pulling taken) :
    Handled x { u with
      chain := u.chain.pullUpstream u.chain.stages.length, handling := .awaiting taken } := by
  obtain ⟨st, only, called, read⟩ := h.handling
  rw [waits] at read
  refine ⟨h.stream.uncut (a := .pullLast) rfl rfl, { st with second := st.second.pull }, ?_, called, ?_, read.2⟩
  · simp [Chain.pullUpstream, Chain.setStage, only]
  · rw [calls_pull, read.1]

theorem Handled.takeTail (h : Handled x u) {taken : Nat} (waits : u.handling = .awaiting taken) {r : Result Bytes ε}
    (answer : u.tail[taken]? = some r) : Handled x (u.forward taken r) := by
  obtain ⟨st, only, called, read⟩ := h.handling
  rw [waits] at read
  rcases h.tail_answer answer with ⟨v, at_, rfl⟩ | ⟨-, rfl⟩
  · exact ⟨h.stream, st, only, called, read.1, (List.getElem?_eq_some_iff.1 at_).1⟩
  · exact ⟨h.stream, st, only, called, trivial⟩

/-- Where neither the stream nor its readers can move, all of it was read. -/
theorem Handled.rests (h : Handled x u) (chainQuiet : Quiet Chain.step Chain.internal u.chain)
    (noHead : u.handling = .firstValue → u.head[0]? = none)
    (noPull : ∀ taken, u.handling = .pulling taken → Chain.step u.chain .pullLast = none)
    (noTake : ∀ taken, u.handling = .awaiting taken → u.tail[taken]? = none) :
    u.handling = .saved ∨ u.handling = .responded := by
  obtain ⟨st, only, called, handling⟩ := h.handling
  have heads : u.head = served [x.header] true 1 := by
    have part : (Chain.parts u.chain)[0]? = some st.first := by rw [Chain.parts_only only]; rfl
    have rests := h.stream.part_rests chainQuiet part rfl
    rw [called] at rests
    simpa [Upload.head, only] using rests
  have tails : u.tail = served x.body true st.second.gen.calls := by
    have part : (Chain.parts u.chain)[1]? = some st.second := by rw [Chain.parts_only only]; rfl
    have rests := h.stream.part_rests chainQuiet part rfl
    simpa [Upload.tail, only] using rests
  cases at_ : u.handling with
  | firstValue =>
    have blocked := noHead at_
    rw [heads] at blocked
    cases blocked
  | pulling taken =>
    have blocked := noPull taken at_
    cases blocked
  | awaiting taken =>
    rw [at_] at handling
    have blocked := noTake taken at_
    rw [List.getElem?_eq_none_iff, tails, served_length, handling.1] at blocked
    omega
  | saved => exact .inl rfl
  | responded => exact .inr rfl
  | other => rw [at_] at handling; exact handling.elim
  | failed => rw [at_] at handling; exact handling.elim

end

/-! ### The invariant -/

/-- `save` has copied the messages `vs`, and has completed its subject when
`stopped`. -/
def Copied (vs : List Bytes) (stopped : Bool) (content : Subject Bytes ε) : Prop :=
  content.stopped = stopped ∧ ∃ later, content.Observed vs later

/-- What has been copied of the body, after so many calls on `streamTail`. -/
def HandlingAt (body : List Bytes) (calls : Nat) (content : Subject Bytes ε) (idle answered : Bool) : Handling → Prop
  | .firstValue => calls = 0 ∧ content = {} ∧ idle = true ∧ answered = false
  | .pulling taken => calls = taken ∧ taken ≤ body.length ∧ Copied (body.take taken) false content ∧
      idle = false ∧ answered = false
  | .awaiting taken => calls = taken + 1 ∧ taken ≤ body.length ∧ Copied (body.take taken) false content ∧
      idle = false ∧ answered = false
  | .saved => Copied body true content ∧ idle = false ∧ answered = false
  | .responded => Copied body true content ∧ idle = false ∧ answered = true
  | .other | .failed => False

/-- The subscriber works on the metadata `info` and the content `content`. -/
def StoreAt (add : Bytes → Cid) (info : Meta) (content : Bytes) : Store → Prop
  | .idle => True
  | .adding info' => info' = info
  | .recording info' file => info' = info ∧ file = add content
  | .declared id => fileId add info content = some id

structure Inv (add : Bytes → Cid) (x : Transmission aes) (u : Upload ε) : Prop where
  stream : Stream x.header x.body u.chain
  handling : ∃ st, u.chain.stages = [st] ∧ st.first.gen.calls = 1 ∧
    HandlingAt x.body st.second.gen.calls u.content u.store.isIdle u.response.isSome u.handling
  store : StoreAt add x.client.info.received x.body.flatten u.store
  response : ∀ message, u.response = some message → ∃ id, u.store = .declared id ∧ message = encodeText id.text
  received : ∀ text, u.received = some text → ∃ id, u.store = .declared id ∧ text = id.text

variable {add : Bytes → Cid} {x : Transmission aes} {u u' : Upload ε}

theorem inv_start (x : Transmission aes) : Inv add x (start x : Upload ε) where
  stream := (handled_start x).stream
  handling := ⟨_, rfl, rfl, rfl, rfl, rfl, rfl⟩
  store := trivial
  response := nofun
  received := nofun

theorem Inv.handled (h : Inv add x u) : Handled x u := by
  obtain ⟨st, only, called, handling⟩ := h.handling
  refine ⟨h.stream, st, only, called, ?_⟩
  cases at_ : u.handling with
  | firstValue => rw [at_] at handling; exact handling.1
  | pulling taken => rw [at_] at handling; exact ⟨handling.1, handling.2.1⟩
  | awaiting taken => rw [at_] at handling; exact ⟨handling.1, handling.2.1⟩
  | saved => trivial
  | responded => trivial
  | other => rw [at_] at handling; exact handling.elim
  | failed => rw [at_] at handling; exact handling.elim

/-! ### The observer of the subject -/

section
variable {body : List Bytes} {calls : Nat} {content : Subject Bytes ε} {idle answered : Bool} {handling : Handling}

theorem HandlingAt.waits (h : HandlingAt body calls content true answered handling) :
    handling = .firstValue ∧ content = {} := by
  cases handling with
  | firstValue => exact ⟨rfl, h.2.1⟩
  | pulling taken => cases h.2.2.2.1
  | awaiting taken => cases h.2.2.2.1
  | saved => cases h.2.1
  | responded => cases h.2.1
  | other => exact h.elim
  | failed => exact h.elim

theorem HandlingAt.copied (h : HandlingAt body calls content false answered handling) :
    ∃ vs, (∃ later, content.Observed vs later) ∧ vs <+: body ∧ (content.stopped = true → vs = body) := by
  cases handling with
  | firstValue => cases h.2.2.1
  | pulling taken =>
    obtain ⟨-, -, ⟨open_, observed⟩, -⟩ := h
    exact ⟨_, observed, List.take_prefix _ _, by rw [open_]; nofun⟩
  | awaiting taken =>
    obtain ⟨-, -, ⟨open_, observed⟩, -⟩ := h
    exact ⟨_, observed, List.take_prefix _ _, by rw [open_]; nofun⟩
  | saved => exact ⟨_, h.1.2, List.prefix_refl _, fun _ => rfl⟩
  | responded => exact ⟨_, h.1.2, List.prefix_refl _, fun _ => rfl⟩
  | other => exact h.elim
  | failed => exact h.elim

/-- A change of the observer by its consumer. -/
theorem HandlingAt.read (h : HandlingAt body calls content idle answered handling) {later later' : IterateLater Bytes ε}
    (at_ : content.observers[0]? = some later)
    (keep : ∀ rs closed, Holds noPromises rs closed later → Holds noPromises rs closed later') :
    HandlingAt body calls (content.set 0 later') idle answered handling := by
  have copied : ∀ {vs stopped}, Copied vs stopped content → Copied vs stopped (content.set 0 later') := by
    rintro vs stopped ⟨same, now, observed⟩
    have eq := observed.1 ▸ at_
    cases eq
    exact ⟨same, later', observed.read keep⟩
  cases handling with
  | firstValue => rw [h.2.1] at at_; cases at_
  | pulling taken => exact ⟨h.1, h.2.1, copied h.2.2.1, h.2.2.2⟩
  | awaiting taken => exact ⟨h.1, h.2.1, copied h.2.2.1, h.2.2.2⟩
  | saved => exact ⟨copied h.1, h.2⟩
  | responded => exact ⟨copied h.1, h.2⟩
  | other => exact h.elim
  | failed => exact h.elim

end

/-- The queue that `ipfsNode.add` reads. -/
theorem Inv.observer (h : Inv add x u) {later : IterateLater Bytes ε} (at_ : u.content.observers[0]? = some later) :
    ∃ vs, u.content.Observed vs later ∧ vs <+: x.body ∧ (u.content.stopped = true → vs = x.body) := by
  obtain ⟨st, -, -, handling⟩ := h.handling
  cases busy : u.store.isIdle with
  | true =>
    rw [busy] at handling
    rw [handling.waits.2] at at_
    cases at_
  | false =>
    rw [busy] at handling
    obtain ⟨vs, ⟨later', observed⟩, initial, whole⟩ := handling.copied
    have same := observed.1 ▸ at_
    cases same
    exact ⟨vs, observed, initial, whole⟩

/-- What `ipfsNode.add` reads is at every moment the first messages of the
body, and ends only after the last one. -/
theorem Inv.content_initial (h : Inv add x u) {later : IterateLater Bytes ε}
    (at_ : u.content.observers[0]? = some later) : later.gen.results <+: served x.body true later.gen.calls := by
  obtain ⟨vs, observed, initial, whole⟩ := h.observer at_
  exact observed.2.plain_initial.trans (served_mono initial whole)

theorem readToEnd_past {body : List Bytes} {calls : Nat} (past : body.length < calls) :
    readToEnd (served (ε := ε) body true calls) = some body.flatten := by
  rw [readToEnd, if_pos ((served_done body calls).2 past), served_values, List.take_of_length_le (Nat.le_of_lt past)]

/-- When `ipfsNode.add` has read to the end, it has read the whole body. -/
theorem readToEnd_served {body : List Bytes} {calls : Nat} {rs : List (Result Bytes ε)} {content : Bytes}
    (initial : rs <+: served body true calls) (read : readToEnd rs = some content) : content = body.flatten := by
  rw [served_of_initial initial] at read
  rcases Nat.lt_or_ge body.length rs.length with past | inside
  · rw [readToEnd_past past] at read
    exact (Option.some.inj read).symm
  · rw [readToEnd, if_neg (mt (served_done body rs.length).1 (Nat.not_lt.2 inside))] at read
    cases read

/-! ### The steps -/

theorem Inv.read (h : Inv add x u) {later later' : IterateLater Bytes ε} (at_ : u.content.observers[0]? = some later)
    (keep : ∀ rs closed, Holds noPromises rs closed later → Holds noPromises rs closed later') :
    Inv add x { u with content := u.content.set 0 later' } := by
  obtain ⟨st, only, called, handling⟩ := h.handling
  exact ⟨h.stream, ⟨st, only, called, handling.read at_ keep⟩, h.store, h.response, h.received⟩

theorem Inv.streamStep (h : Inv add x u) {a : Chain.Act} {chain : Chain Bytes ε} (inside : Chain.internal a)
    (moved : Chain.step u.chain a = some chain) : Inv add x { u with chain } := by
  obtain ⟨st, only, called, handling⟩ := h.handling
  obtain ⟨st', only', first, second⟩ := h.stream.internal only inside moved
  refine ⟨h.stream.uncut moved (Chain.cutAt_internal inside), ⟨st', only', by rw [first, called], ?_⟩, h.store, h.response, h.received⟩
  rw [second]; exact handling

/-- The first value is the header, so `handler` calls `save`. -/
theorem Inv.handle_eq (h : Inv add x u) (waits : u.handling = .firstValue) {r : Result Bytes ε}
    (answer : u.head[0]? = some r) :
    u.handle r = { u with handling := .pulling 0, content := Subject.toAsyncIterable {}, store := .adding x.client.info.received } := by
  obtain ⟨st, only, -, handling⟩ := h.handling
  cases h.handled.head_answer answer
  rw [waits] at handling
  simp only [handle, x.header_read, handling.2.1]

theorem Inv.head (h : Inv add x u) (waits : u.handling = .firstValue) {r : Result Bytes ε} (answer : u.head[0]? = some r) :
    Inv add x (u.handle r) := by
  rw [h.handle_eq waits answer]
  obtain ⟨st, only, called, handling⟩ := h.handling
  rw [waits] at handling
  obtain ⟨calls, content, idle, silent⟩ := handling
  refine ⟨h.stream, ⟨st, only, called, calls, Nat.zero_le _, ⟨rfl, _, Subject.observed_init⟩, rfl, silent⟩,
    rfl, ?_, ?_⟩
  · intro message written
    rw [show u.response = some message from written] at silent; cases silent
  · intro text got
    obtain ⟨id, declared, -⟩ := h.received text got
    rw [declared] at idle; cases idle

theorem Inv.pullTail (h : Inv add x u) {taken : Nat} (waits : u.handling = .pulling taken) {chain : Chain Bytes ε}
    (moved : Chain.step u.chain .pullLast = some chain) :
    Inv add x { u with chain, handling := .awaiting taken } := by
  obtain ⟨st, only, called, handling⟩ := h.handling
  rw [waits] at handling
  obtain ⟨calls, inside, rest⟩ := handling
  refine ⟨h.stream.uncut moved rfl, ⟨{ st with second := st.second.pull }, ?_, called, ?_, inside, rest⟩, h.store,
    h.response, h.received⟩
  · cases moved
    simp [Chain.pullUpstream, Chain.setStage, only]
  · rw [calls_pull, calls]

theorem Inv.takeTail (h : Inv add x u) {taken : Nat} (waits : u.handling = .awaiting taken) {r : Result Bytes ε}
    (answer : u.tail[taken]? = some r) : Inv add x (u.forward taken r) := by
  obtain ⟨st, only, called, handling⟩ := h.handling
  rw [waits] at handling
  obtain ⟨calls, inside, ⟨open_, later, observed⟩, busy, silent⟩ := handling
  rcases h.handled.tail_answer answer with ⟨v, at_, rfl⟩ | ⟨past, rfl⟩
  · have less := (List.getElem?_eq_some_iff.1 at_).1
    have more : x.body.take (taken + 1) = x.body.take taken ++ [v] := by
      rw [List.take_add_one, at_]; rfl
    refine ⟨h.stream, ⟨st, only, called, calls, less, ⟨?_, later.next (.plain v), ?_⟩, busy, silent⟩, h.store,
      h.response, h.received⟩
    · rw [forward, Subject.next_stopped, open_]
    · rw [more]; exact observed.next open_ v
  · have all : x.body.take taken = x.body := List.take_of_length_le past
    rw [all] at observed
    exact ⟨h.stream, ⟨st, only, called, ⟨Subject.complete_stopped _, later.complete, observed.complete open_⟩, busy,
      silent⟩, h.store, h.response, h.received⟩

/-- The subscriber goes on. -/
theorem Inv.store_ (h : Inv add x u) {store : Store} (busy : u.store.isIdle = false) (still : store.isIdle = false)
    (open_ : ∀ id, u.store ≠ .declared id) (works : StoreAt add x.client.info.received x.body.flatten store) :
    Inv add x { u with store } := by
  obtain ⟨st, only, called, handling⟩ := h.handling
  rw [busy] at handling
  refine ⟨h.stream, ⟨st, only, called, ?_⟩, works, ?_, ?_⟩
  · change HandlingAt _ _ _ store.isIdle _ _
    rw [still]; exact handling
  · intro message written
    obtain ⟨id, declared, -⟩ := h.response message written
    exact absurd declared (open_ id)
  · intro text got
    obtain ⟨id, declared, -⟩ := h.received text got
    exact absurd declared (open_ id)

theorem Inv.added (h : Inv add x u) {info : Meta} (waits : u.store = .adding info) {later : IterateLater Bytes ε}
    (at_ : u.content.observers[0]? = some later) {content : Bytes} (read : readToEnd later.gen.results = some content) :
    Inv add x { u with store := .recording info (add content) } := by
  have works := h.store
  rw [waits] at works
  apply h.store_ (by rw [waits]; rfl) rfl (by rw [waits]; nofun)
  exact ⟨works, by rw [readToEnd_served (h.content_initial at_) read]⟩

theorem Inv.recorded (h : Inv add x u) {info : Meta} {file id : Cid} (waits : u.store = .recording info file)
    (wrote : (File.toBinary { meta_ := some info, contentPath := file.text }).map add = some id) :
    Inv add x { u with store := .declared id } := by
  have works := h.store
  rw [waits] at works
  obtain ⟨rfl, rfl⟩ := works
  exact h.store_ (by rw [waits]; rfl) rfl (by rw [waits]; nofun) wrote

theorem Inv.respond (h : Inv add x u) {id : Cid} (waits : u.handling = .saved) (declared : u.store = .declared id) :
    Inv add x { u with response := some (encodeText id.text), handling := .responded } := by
  obtain ⟨st, only, called, handling⟩ := h.handling
  rw [waits] at handling
  obtain ⟨copied, busy, -⟩ := handling
  refine ⟨h.stream, ⟨st, only, called, copied, busy, rfl⟩, h.store, ?_, h.received⟩
  rintro message ⟨rfl⟩
  exact ⟨id, declared, rfl⟩

theorem Inv.receive (h : Inv add x u) {message : Bytes} {text : String} (written : u.response = some message)
    (read : decodeText message = some text) : Inv add x { u with received := some text } := by
  refine ⟨h.stream, h.handling, h.store, h.response, ?_⟩
  rintro text' ⟨rfl⟩
  obtain ⟨id, declared, rfl⟩ := h.response message written
  rw [decodeText_encodeText, Cid.unmark_text, Option.some.injEq] at read
  exact ⟨id, declared, read.symm⟩

theorem inv_step {a : Act} (h : Inv add x u) (moved : step add u a = some u') : Inv add x u' := by
  cases step_moves moved with
  | stream inside first => exact h.streamStep inside first
  | head waits answer => exact h.head waits answer
  | pullTail waits pulled => exact h.pullTail waits pulled
  | takeTail waits answer => exact h.takeTail waits answer
  | pullContent waits at_ => exact h.read at_ fun _ _ => Holds.pull
  | tickContent at_ ticked => exact h.read at_ fun _ _ holds => holds.tick ticked
  | added waits at_ read => exact h.added waits at_ read
  | recorded waits wrote => exact h.recorded waits wrote
  | respond waits declared => exact h.respond waits declared
  | receive written unanswered read => exact h.receive written read

theorem inv_run {acts : List Act} (reached : run (step add) (start x) acts = some u) : Inv add x u :=
  run_invariant (inv_start x) (fun _ _ _ => inv_step) reached

/-- The answer is the id declared for this file. -/
theorem Inv.answered (h : Inv add x u) {text : String} (got : u.received = some text) :
    ∃ id, u.store = .declared id ∧ text = id.text ∧ fileId add x.client.info.received x.client.content = some id := by
  obtain ⟨id, declared, same⟩ := h.received text got
  have works := h.store
  rw [declared, x.body_content] at works
  exact ⟨id, declared, same, works⟩

/-! ### Every upload comes to rest -/

/-- What is left to do for a body of `m` messages. -/
def handlingLeft (m : Nat) : Handling → Nat
  | .firstValue => 6 * m + 9
  | .pulling taken => 6 * (m - taken) + 7
  | .awaiting taken => 6 * (m - taken) + 5
  | .saved => 1
  | _ => 0

def storeLeft : Store → Nat
  | .idle => 2
  | .adding _ => 2
  | .recording _ _ => 1
  | .declared _ => 0

def measure (m : Nat) (u : Upload ε) : Nat :=
  Chain.measure u.chain + handlingLeft m u.handling + (u.content.observers.map (·.pending)).sum + storeLeft u.store +
    (if u.received.isSome then 0 else 1)

theorem pending_set {content : Subject Bytes ε} {later : IterateLater Bytes ε} (at_ : content.observers[0]? = some later)
    (later' : IterateLater Bytes ε) :
    ((content.set 0 later').observers.map (·.pending)).sum + later.pending =
      (content.observers.map (·.pending)).sum + later'.pending :=
  sum_map_set at_ later'

theorem measure_step {a : Act} (h : Inv add x u) (inside : internal a) (moved : step add u a = some u') :
    measure x.body.length u' < measure x.body.length u := by
  cases step_moves moved with
  | stream internal first =>
    have less := Chain.measure_step h.stream.inv internal first
    simp only [measure]; omega
  | head waits answer =>
    obtain ⟨st, -, -, handling⟩ := h.handling
    rw [waits] at handling
    obtain ⟨-, content, idle, -⟩ := handling
    have idle : u.store = .idle := by
      cases store : u.store with
      | idle => rfl
      | _ => rw [store] at idle; cases idle
    have one : ((Subject.toAsyncIterable {} : Subject Bytes ε).observers.map (·.pending)).sum = 1 := rfl
    rw [h.handle_eq waits answer]
    simp only [measure, one, waits, handlingLeft, content, idle, storeLeft]
    omega
  | pullTail waits pulled =>
    cases pulled
    have more := Chain.measure_pullUpstream u.chain u.chain.stages.length
    simp only [measure, waits, handlingLeft]; omega
  | takeTail waits answer =>
    obtain ⟨st, -, -, handling⟩ := h.handling
    rw [waits] at handling
    obtain ⟨-, inside, ⟨open_, later, only, -⟩, -⟩ := handling
    rcases h.handled.tail_answer answer with ⟨v, at_, rfl⟩ | ⟨-, rfl⟩
    · have less := (List.getElem?_eq_some_iff.1 at_).1
      simp only [measure, forward, Subject.next, open_, only, waits, handlingLeft]
      simp [pending_next]
      omega
    · simp only [measure, forward, Subject.complete, open_, only, waits, handlingLeft]
      simp [pending_complete]
  | pullContent => exact inside.elim
  | @tickContent later later' at_ ticked =>
    have less := pending_tick ticked
    have changed := pending_set at_ later'
    simp only [measure]; omega
  | added waits at_ read => simp only [measure, waits, storeLeft]; omega
  | recorded waits wrote => simp only [measure, waits, storeLeft]; omega
  | respond waits declared => simp only [measure, waits, handlingLeft]; omega
  | receive written unanswered read =>
    simp only [measure, unanswered]
    simp

/-! ### Where nothing can move -/

/-- The handler has done its part. -/
theorem Inv.handling_rests (h : Inv add x u) (quiet : Quiet (step add) internal u) :
    (u.handling = .saved ∨ u.handling = .responded) ∧ Copied x.body true u.content ∧ u.store.isIdle = false ∧
      (u.handling = .responded → u.response.isSome = true) := by
  have chainQuiet : Quiet Chain.step Chain.internal u.chain := by
    intro a inside
    have blocked := quiet (.stream a) trivial
    simpa only [step, if_pos inside, Option.map_eq_none_iff] using blocked
  have ended : u.handling = .saved ∨ u.handling = .responded := by
    apply h.handled.rests chainQuiet
    · intro at_
      have blocked := quiet .head trivial
      simpa only [step, at_, Option.map_eq_none_iff] using blocked
    · intro taken at_
      have blocked := quiet .pullTail trivial
      simpa only [step, at_, Option.map_eq_none_iff] using blocked
    · intro taken at_
      have blocked := quiet .takeTail trivial
      simpa only [step, at_, Option.map_eq_none_iff] using blocked
  refine ⟨ended, ?_⟩
  obtain ⟨st, only, called, handling⟩ := h.handling
  rcases ended with at_ | at_
  · rw [at_] at handling
    exact ⟨handling.1, handling.2.1, by rw [at_]; nofun⟩
  · rw [at_] at handling
    exact ⟨handling.1, handling.2.1, fun _ => handling.2.2⟩

/-- The store has been given the whole content. -/
theorem content_rests (copied : Copied x.body true u.content) (quiet : Quiet (step add) internal u) :
    ∃ later, u.content.observers[0]? = some later ∧ later.gen.results = served x.body true later.gen.calls := by
  obtain ⟨stopped, later, only, holds⟩ := copied
  rw [stopped] at holds
  have first : u.content.observers[0]? = some later := by rw [only]; rfl
  have rests : later.tick noPromises = none := by
    have blocked := quiet .tickContent trivial
    simpa only [step, first, Option.bind_some, Option.map_eq_none_iff] using blocked
  exact ⟨later, first, holds.plain_served rests⟩

/-- The store has declared the id of what it has read. -/
theorem Inv.store_rests (h : Inv add x u) (quiet : Quiet (step add) internal u) (busy : u.store.isIdle = false)
    {later : IterateLater Bytes ε} (first : u.content.observers[0]? = some later)
    (all : later.gen.results = served x.body true later.gen.calls) {id : Cid}
    (filed : fileId add x.client.info.received x.client.content = some id) (past : x.body.length < later.gen.calls) :
    u.store = .declared id := by
  have works := h.store
  cases store : u.store with
  | idle =>
    rw [store] at busy
    cases busy
  | adding info =>
    have blocked := quiet .added trivial
    simp only [step, store, first, all, readToEnd_past past, Option.map_some, reduceCtorEq] at blocked
  | recording info file =>
    rw [store] at works
    obtain ⟨rfl, rfl⟩ := works
    rw [x.body_content] at store
    have blocked := quiet .recorded trivial
    simp only [step, store, Option.map_eq_none_iff] at blocked
    rw [fileId, Option.map_eq_some_iff] at filed
    obtain ⟨record, written, -⟩ := filed
    rw [written] at blocked
    cases blocked
  | declared id' =>
    rw [store, x.body_content] at works
    rw [Option.some.inj (works.symm.trans filed)]

theorem Inv.rests (h : Inv add x u) (quiet : Quiet (step add) internal u) :
    ∃ later, u.content.observers[0]? = some later ∧
      later.gen.results = served x.body true later.gen.calls ∧
      ∀ id, fileId add x.client.info.received x.client.content = some id → x.body.length < later.gen.calls →
        u.received = some id.text := by
  obtain ⟨ended, copied, busy, answered⟩ := h.handling_rests quiet
  obtain ⟨later, first, all⟩ := content_rests copied quiet
  refine ⟨later, first, all, ?_⟩
  intro id filed past
  have store := h.store_rests quiet busy first all filed past
  rcases ended with saved | responded
  · have blocked := quiet .respond trivial
    simp only [step, saved, store, reduceCtorEq] at blocked
  · obtain ⟨message, written⟩ := Option.isSome_iff_exists.1 (answered responded)
    cases got : u.received with
    | some text =>
      obtain ⟨id', declared, rfl⟩ := h.received text got
      rw [store] at declared
      cases declared
      rfl
    | none =>
      obtain ⟨id', declared, rfl⟩ := h.response message written
      have blocked := quiet .receive trivial
      simp only [step, written, got, decodeText_encodeText, Option.map_some, reduceCtorEq] at blocked

/-! ### Many uploads -/

theorem inv_each {xs : List (Transmission aes)} {acts : List (Nat × Act)} {us : List (Upload ε)}
    (reached : run (each (step add)) (xs.map start) acts = some us) {i : Nat} (sent : xs[i]? = some x)
    (at_ : us[i]? = some u) : Inv add x u := by
  have started : (xs.map (start (ε := ε)))[i]? = some (start x) := by rw [List.getElem?_map, sent]; rfl
  obtain ⟨t, there, alone⟩ := run_each reached started
  rw [at_, Option.some.injEq] at there
  subst there
  exact inv_run alone

theorem inv_some {xs : List (Transmission aes)} {acts : List (Nat × Act)} {us : List (Upload ε)}
    (reached : run (each (step add)) (xs.map start) acts = some us) : ∀ u ∈ us, ∃ x : Transmission aes, Inv add x u := by
  intro u member
  obtain ⟨i, at_⟩ := List.mem_iff_getElem?.1 member
  have length := run_each_length reached
  rw [List.length_map] at length
  have inside : i < xs.length := by
    rw [← length]; exact (List.getElem?_eq_some_iff.1 at_).1
  exact ⟨xs[i], inv_each reached (List.getElem?_eq_getElem inside) at_⟩

theorem uploads_rest {us : List (Upload ε)} (all : ∀ u ∈ us, ∃ x : Transmission aes, Inv add x u) :
    ∃ as ts, (∀ a ∈ as, internal a.2) ∧ run (each (step add)) us as = some ts ∧
      Quiet (each (step add)) (fun a => internal a.2) ts := by
  refine exists_quiet_each (step add) internal (fun u => ∃ x : Transmission aes, Inv add x u)
    (fun u => measure (u.chain.source.elems.length - 1) u) ?_ all
  rintro u a u' ⟨x, h⟩ inside moved
  have next := inv_step h moved
  refine ⟨⟨x, next⟩, ?_⟩
  have length : ∀ {v : Upload ε}, Inv add x v → v.chain.source.elems.length - 1 = x.body.length := fun g => by
    rw [g.stream.elems]; rfl
  rw [length h, length next]
  exact measure_step h inside moved

end Upload

/-! ### The main results -/

/-- **Uploads are stored exactly.** Any number of uploads, side by side. -/
theorem uploads_stored {ε : Type} {aes : AesJs} (add : Bytes → Cid) (xs : List (Transmission aes))
    (acts : List (Nat × Upload.Act)) {us : List (Upload ε)}
    (reached : run (each (Upload.step add)) (xs.map Upload.start) acts = some us) :
    (∀ (i : Nat) (x : Transmission aes) (u : Upload ε), xs[i]? = some x → us[i]? = some u →
      -- the messages read through `getContent()` are at every moment the first
      -- of those that make up the file, and an end comes only after all of them
      x.body.flatten = x.client.content ∧
      (∀ later, u.content.observers[0]? = some later →
        later.gen.results <+: served x.body true later.gen.calls) ∧
      (∀ info file, u.store = .recording info file → info = x.client.info.received ∧ file = add x.client.content) ∧
      -- the answer is the id declared for this file
      (∀ text, u.received = some text →
        ∃ id, u.store = .declared id ∧ text = id.text ∧ fileId add x.client.info.received x.client.content = some id) ∧
      -- where nothing can move, nothing is held back
      (Quiet (each (Upload.step add)) (fun a => Upload.internal a.2) us →
        ∃ later, u.content.observers[0]? = some later ∧
          later.gen.results = served x.body true later.gen.calls ∧
          ∀ id, fileId add x.client.info.received x.client.content = some id → x.body.length < later.gen.calls →
            u.received = some id.text)) ∧
    -- the same bytes and metadata have the same id
    (∀ (i j : Nat) (x y : Transmission aes) (u v : Upload ε) (text text' : String),
      xs[i]? = some x → us[i]? = some u → xs[j]? = some y → us[j]? = some v →
      x.client.content = y.client.content → x.client.info = y.client.info →
      u.received = some text → v.received = some text' → text = text') ∧
    -- and the uploads do come to rest
    (∃ as ts, (∀ a ∈ as, Upload.internal a.2) ∧ run (each (Upload.step add)) us as = some ts ∧
      Quiet (each (Upload.step add)) (fun a => Upload.internal a.2) ts) := by
  refine ⟨?_, ?_, Upload.uploads_rest (Upload.inv_some reached)⟩
  · intro i x u sent at_
    have h := Upload.inv_each reached sent at_
    refine ⟨x.body_content, fun _ => h.content_initial, ?_, fun _ => h.answered, ?_⟩
    · intro info file recording
      have works := h.store
      rw [recording, x.body_content] at works
      exact works
    · intro quiet
      exact h.rests (quiet_each quiet at_)
  · intro i j x y u v text text' sent at_ sent' at_' content info got got'
    obtain ⟨id, -, rfl, filed⟩ := (Upload.inv_each reached sent at_).answered got
    obtain ⟨id', -, rfl, filed'⟩ := (Upload.inv_each reached sent' at_').answered got'
    rw [content, info, filed'] at filed
    rw [Option.some.inj filed]

/-- No key, so the package is not called. -/
def noAes : AesJs := { encrypt := fun _ _ _ => none, decrypt := fun _ _ _ => none, pad := id, strip := some }

/-- Three bytes, written in two blocks and delivered in two others. -/
def sampleUpload : Transmission noAes where
  client := .streamFile [[1], [2, 3]] { name := "", type := "", size := ⟨3, by decide⟩, lastModified := 0 }
  header := [26, 2, 24, 3]
  body := [[1, 2], [3]]
  headerSent := rfl
  bodySent := ⟨_, rfl, rfl⟩

/-- The ids of these bytes and of their record. -/
def sampleAdd (bs : Bytes) : Cid :=
  if bs = [1, 2, 3] then { text := "QmanYeBG6APPbZZgAgmzM9nkQpvcBRwAb8AYgdERwH6Amb" }
  else { text := "QmNU3VBpaJ3g6yg7Spdc695TwLefaEP2XjvWg5pAH3oNxJ" }

open Upload.Act Chain.Act in
def sampleActs : List (Nat × Upload.Act) :=
  [stream .yield, stream (.pump 0), stream (.tickFirst 0), head, pullContent, stream .yield, pullTail,
    stream (.pump 0), stream (.tickSecond 0), takeTail, tickContent, pullContent, stream .yield, stream (.pump 0),
    pullTail, stream (.tickSecond 0), takeTail, tickContent, pullTail, stream .yield, stream (.pump 0),
    stream (.tickSecond 0), takeTail, pullContent, tickContent, added, recorded, respond, receive].map (0, ·)

/-- A file of two bytes, written and delivered in one block. -/
def otherUpload : Transmission noAes where
  client := .sendFile { name := "b", type := "", lastModified := 0, content := [4, 5], size_safe := by decide }
  header := [26, 5, 10, 1, 98, 24, 2]
  body := [[4, 5]]
  headerSent := rfl
  bodySent :=
    have ⟨blocks, sent, whole⟩ := SendFile.sendContent_plain noAes [] [4, 5]
    ⟨blocks, sent, whole.symm⟩

def pairAdd (bs : Bytes) : Cid :=
  if bs = [4, 5] then { text := "QmOther" }
  else if bs = [10, 5, 10, 1, 98, 24, 2, 18, 7] ++ encodeText "QmOther" then { text := "QmOtherRecord" }
  else sampleAdd bs

open Upload.Act Chain.Act in
def otherActs : List (Nat × Upload.Act) :=
  [stream .yield, stream (.pump 0), stream (.tickFirst 0), head, pullContent, stream .yield, pullTail,
    stream (.pump 0), stream (.tickSecond 0), takeTail, tickContent, pullTail, stream .yield, stream (.pump 0),
    stream (.tickSecond 0), takeTail, pullContent, tickContent, added, recorded, respond, receive].map (1, ·)

/-- Step by step in turn, until the shorter upload has come to its end. -/
def pairActs : List (Nat × Upload.Act) :=
  (sampleActs.zipWith (fun a b => [a, b]) otherActs).flatten ++ sampleActs.drop otherActs.length

/-- Two uploads side by side. -/
theorem uploads_stored_sample :
    ∃ us : List (Upload String),
      run (each (Upload.step pairAdd)) ([sampleUpload, otherUpload].map Upload.start) pairActs = some us ∧
      us.map (·.received) = [some "QmNU3VBpaJ3g6yg7Spdc695TwLefaEP2XjvWg5pAH3oNxJ", some "QmOtherRecord"] ∧
      (∀ u, us[0]? = some u → ∀ later, u.content.observers[0]? = some later →
        later.gen.results <+: served [[1, 2], [3]] true later.gen.calls) ∧
      ∀ u, us[1]? = some u → ∀ later, u.content.observers[0]? = some later →
        later.gen.results <+: served [[4, 5]] true later.gen.calls := by
  have ran : (run (each (Upload.step (ε := String) pairAdd)) ([sampleUpload, otherUpload].map Upload.start) pairActs).map
      (·.map (·.received)) =
        some [some "QmNU3VBpaJ3g6yg7Spdc695TwLefaEP2XjvWg5pAH3oNxJ", some "QmOtherRecord"] := by
    rfl
  obtain ⟨us, reached, received⟩ := Option.map_eq_some_iff.1 ran
  have stored := (uploads_stored pairAdd [sampleUpload, otherUpload] pairActs reached).1
  refine ⟨us, reached, received, ?_, ?_⟩
  · intro u at_
    exact (stored 0 sampleUpload u rfl at_).2.1
  · intro u at_
    exact (stored 1 otherUpload u rfl at_).2.1

end Fula.FileProtocol
