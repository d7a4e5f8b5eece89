import Fula.FileProtocol.Uploads

/-!
# `getContent()` called late

`save` announces an upload with a function `getContent`, which subscribes to the
hot subject of the content when it is called. `Upload` is the box's own
subscriber, which calls it inside the announcement. Here the subscriber keeps the
function and calls it when it likes, as often as it likes, and reads each of the
iterables it gets.

`getContent_iff` says when an iterable is the whole file: when nothing has been
pushed before the call.
-/

namespace Fula.FileProtocol.GetContent
set_option autoImplicit false
open Lib AsyncLater IterateLater

variable {ε : Type} {aes : AesJs}

inductive Act where
  /-- `incomingFiles.next(..)` -/
  | announce
  /-- The stream, `save`, and the response of `handler`. -/
  | save (a : Upload.Act)
  | getContent
  /-- The subscriber calls `next()` on the iterable of its call number `o`. -/
  | pull (o : Nat)
  | tick (o : Nat)
  | declareId (id : Cid)

/-- The steps of an upload that are not the storing subscriber's. -/
def copies : Upload.Act → Bool
  | .stream _ | .pullTail | .takeTail | .respond => true
  | _ => false

/-- `save` has called `incomingFiles.next(..)`. -/
def announced : Handling → Bool
  | .pulling _ | .awaiting _ | .saved | .responded => true
  | _ => false

/-- `handler` goes on with the first value; the subscriber's callback does nothing yet. -/
def announce (u : Upload ε) (r : Result Bytes ε) : Upload ε :=
  { u.handle r with content := u.content, store := u.store }

def step (add : Bytes → Cid) (u : Upload ε) : Act → Option (Upload ε)
  | .announce =>
    match u.handling with
    | .firstValue => (u.head[0]?).map (announce u)
    | _ => none
  | .save a => if copies a then Upload.step add u a else none
  | .getContent => if announced u.handling then some { u with content := u.content.toAsyncIterable } else none
  | .pull o => (u.content.observers[o]?).map fun later => { u with content := u.content.set o later.pull }
  | .tick o => (u.content.observers[o]?).bind fun later =>
    (later.tick noPromises).map fun later => { u with content := u.content.set o later }
  | .declareId id =>
    match u.store with
    | .idle => if announced u.handling then some { u with store := .declared id } else none
    | _ => none

/-- All but what the subscriber does. -/
def internal : Act → Prop
  | .announce | .save _ | .tick _ => True
  | .getContent | .pull _ | .declareId _ => False

/-- The chunks that `save` has pushed into its subject. -/
def pushed (body : List Bytes) : Handling → List Bytes
  | .pulling taken | .awaiting taken => body.take taken
  | .saved | .responded => body
  | _ => []

/-- `save` has completed its subject. -/
def ended : Handling → Bool
  | .saved | .responded => true
  | _ => false

theorem pushed_initial (body : List Bytes) (handling : Handling) : pushed body handling <+: body := by
  cases handling with
  | pulling taken => exact List.take_prefix _ _
  | awaiting taken => exact List.take_prefix _ _
  | saved => exact List.prefix_refl _
  | responded => exact List.prefix_refl _
  | _ => exact List.nil_prefix

/-! ### What a step does -/

/-- The steps, by what they change. -/
inductive Moves (u : Upload ε) : Act → Upload ε → Prop where
  | announce {r : Result Bytes ε} (waits : u.handling = .firstValue) (answer : u.head[0]? = some r) :
    Moves u .announce (announce u r)
  | stream {a : Chain.Act} {chain : Chain Bytes ε} (inside : Chain.internal a)
    (first : Chain.step u.chain a = some chain) : Moves u (.save (.stream a)) { u with chain }
  | pullTail {taken : Nat} (waits : u.handling = .pulling taken) :
    Moves u (.save .pullTail)
      { u with chain := u.chain.pullUpstream u.chain.stages.length, handling := .awaiting taken }
  | takeTail {taken : Nat} {r : Result Bytes ε} (waits : u.handling = .awaiting taken)
    (answer : u.tail[taken]? = some r) : Moves u (.save .takeTail) (u.forward taken r)
  | respond {id : Cid} (waits : u.handling = .saved) :
    Moves u (.save .respond) { u with response := some (encodeText id.text), handling := .responded }
  | getContent (calls : announced u.handling = true) :
    Moves u .getContent { u with content := u.content.toAsyncIterable }
  | pull {o : Nat} {later : IterateLater Bytes ε} (at_ : u.content.observers[o]? = some later) :
    Moves u (.pull o) { u with content := u.content.set o later.pull }
  | tick {o : Nat} {later later' : IterateLater Bytes ε} (at_ : u.content.observers[o]? = some later)
    (ticked : later.tick noPromises = some later') :
    Moves u (.tick o) { u with content := u.content.set o later' }
  | declareId {id : Cid} : Moves u (.declareId id) { u with store := .declared id }

variable {add : Bytes → Cid} {x : Transmission aes} {u u' : Upload ε} {a : Act}

theorem step_moves (moved : step add u a = some u') : Moves u a u' := by
  cases a with
  | announce =>
    simp only [step] at moved
    split at moved
    · next waits =>
      obtain ⟨r, answer, rfl⟩ := Option.map_eq_some_iff.1 moved
      exact .announce waits answer
    · cases moved
  | save a =>
    simp only [step] at moved
    split at moved
    · next copying =>
      cases Upload.step_moves moved with
      | stream inside first => exact .stream inside first
      | pullTail waits pulled => cases pulled; exact .pullTail waits
      | takeTail waits answer => exact .takeTail waits answer
      | respond waits _ => exact .respond waits
      | _ => cases copying
    · cases moved
  | getContent =>
    simp only [step] at moved
    split at moved
    · next calls => cases moved; exact .getContent calls
    · cases moved
  | pull o =>
    obtain ⟨later, at_, rfl⟩ := Option.map_eq_some_iff.1 moved
    exact .pull at_
  | tick o =>
    simp only [step, Option.bind_eq_some_iff, Option.map_eq_some_iff] at moved
    obtain ⟨later, at_, later', ticked, rfl⟩ := moved
    exact .tick at_ ticked
  | declareId id =>
    simp only [step] at moved
    split at moved
    · split at moved
      · cases moved; exact .declareId
      · cases moved
    · cases moved

/-! ### What has been pushed -/

/-- The stream is copied, and the subject is completed at its end. -/
structure Copying (x : Transmission aes) (u : Upload ε) : Prop where
  handled : Upload.Handled x u
  stopped : u.content.stopped = ended u.handling

theorem copying_start (x : Transmission aes) : Copying x (Upload.start x : Upload ε) :=
  ⟨Upload.handled_start x, rfl⟩

/-- The state after the announcement. -/
theorem Copying.announced_eq (h : Copying x u) {r : Result Bytes ε} (answer : u.head[0]? = some r) :
    announce u r = { u with handling := .pulling 0 } := by
  cases h.handled.head_answer answer
  simp only [announce, Upload.handle, x.header_read]

theorem Copying.step (h : Copying x u) (moved : GetContent.step add u a = some u') : Copying x u' := by
  have stopped := h.stopped
  cases step_moves moved with
  | announce waits answer =>
    rw [h.announced_eq answer]
    rw [waits] at stopped
    exact ⟨h.handled.head waits, stopped⟩
  | stream inside first => exact ⟨h.handled.streamStep inside first, stopped⟩
  | pullTail waits =>
    rw [waits] at stopped
    exact ⟨h.handled.pullTail waits, stopped⟩
  | takeTail waits answer =>
    rw [waits] at stopped
    refine ⟨h.handled.takeTail waits answer, ?_⟩
    rcases h.handled.tail_answer answer with ⟨v, -, rfl⟩ | ⟨-, rfl⟩
    · exact (Subject.next_stopped u.content v).trans stopped
    · exact Subject.complete_stopped u.content
  | respond waits =>
    obtain ⟨st, only, called, -⟩ := h.handled.handling
    rw [waits] at stopped
    exact ⟨⟨h.handled.stream, st, only, called, trivial⟩, stopped⟩
  -- the others leave the stream and its readers as they are
  | _ => exact ⟨⟨h.handled.stream, h.handled.handling⟩, stopped⟩

theorem copying_run {acts : List Act} (reached : run (step add) (Upload.start x) acts = some u) :
    Copying x u :=
  run_invariant (copying_start x) (fun _ _ _ h moved => h.step moved) reached

/-! ### What an iterable yields -/

/-- The iterable of call `o`, made when `k` chunks had been pushed, is given the
chunks pushed since, and the end; `m` calls at least have been made on it. -/
structure Reads (x : Transmission aes) (k o m : Nat) (u : Upload ε) : Prop where
  before : k ≤ (pushed x.body u.handling).length
  queue : ∃ later, u.content.observers[o]? = some later ∧ m ≤ later.gen.calls ∧
    Holds noPromises (plains ((pushed x.body u.handling).drop k)) u.content.stopped later

/-- A call made now. -/
theorem reads_called (x : Transmission aes) (u : Upload ε) :
    Reads x (pushed x.body u.handling).length u.content.observers.length 0
      { u with content := u.content.toAsyncIterable } := by
  refine ⟨Nat.le_refl _, if u.content.stopped then init.complete else init, ?_, Nat.zero_le _, ?_⟩
  · simp [Subject.toAsyncIterable]
  · rw [List.drop_length, plains_nil]
    cases stopped : u.content.stopped with
    | true =>
      rw [if_pos rfl]
      exact (show u.content.toAsyncIterable.stopped = true from stopped) ▸ (holds_init _).complete
    | false =>
      rw [if_neg Bool.false_ne_true]
      exact (show u.content.toAsyncIterable.stopped = false from stopped) ▸ holds_init _

variable {k o m : Nat}

/-- A change that the consumer of an iterable makes. -/
theorem Reads.read (h : Reads x k o m u) {o' : Nat} {later later' : IterateLater Bytes ε}
    (at_ : u.content.observers[o']? = some later)
    (keep : ∀ rs closed, Holds noPromises rs closed later →
      Holds noPromises rs closed later' ∧ later.gen.calls ≤ later'.gen.calls) :
    Reads x k o m { u with content := u.content.set o' later' } := by
  obtain ⟨before, queue, there, asked, holds⟩ := h
  refine ⟨before, ?_⟩
  by_cases same : o' = o
  · subst same
    rw [there, Option.some.injEq] at at_
    subst at_
    obtain ⟨holds', more⟩ := keep _ _ holds
    refine ⟨later', ?_, asked.trans more, holds'⟩
    exact List.getElem?_set_self (List.getElem?_eq_some_iff.1 there).1
  · exact ⟨queue, (List.getElem?_set_ne same).trans there, asked, holds⟩

theorem Reads.step (h : Reads x k o m u) (base : Copying x u) (moved : GetContent.step add u a = some u') :
    Reads x k o m u' := by
  obtain ⟨before, later, at_, asked, holds⟩ := h
  cases step_moves moved with
  | announce waits answer =>
    rw [base.announced_eq answer]
    rw [waits] at before holds
    exact ⟨before, later, at_, asked, holds⟩
  | stream => exact ⟨before, later, at_, asked, holds⟩
  | pullTail waits =>
    rw [waits] at before holds
    exact ⟨before, later, at_, asked, holds⟩
  | @takeTail taken r waits answer =>
    obtain ⟨-, -, -, -, inside⟩ := waits ▸ base.handled.handling
    have stopped := base.stopped
    rw [waits] at before holds stopped
    have open_ : u.content.stopped = false := stopped
    rw [open_] at holds
    rcases base.handled.tail_answer answer with ⟨v, here, rfl⟩ | ⟨past, rfl⟩
    · have more : x.body.take (taken + 1) = x.body.take taken ++ [v] := by
        rw [List.take_add_one, here]; rfl
      have moved := holds.next (.plain v)
      rw [pushed_plain, ← List.drop_append_of_le_length before] at moved
      refine ⟨?_, later.next (.plain v), ?_, asked, ?_⟩
      · simp only [Upload.forward, pushed, more, List.length_append] at before ⊢
        omega
      · simp [Upload.forward, Subject.next, open_, at_]
      · simp only [Upload.forward, pushed, more, Subject.next_stopped, open_]
        exact moved
    · have whole : x.body.take taken = x.body := List.take_of_length_le past
      simp only [pushed, whole] at before holds
      refine ⟨before, later.complete, ?_, asked, ?_⟩
      · simp [Upload.forward, Subject.complete, open_, at_]
      · simp only [Upload.forward, Subject.complete_stopped]
        exact holds.complete
  | respond waits =>
    rw [waits] at before holds
    exact ⟨before, later, at_, asked, holds⟩
  | getContent =>
    refine ⟨before, later, ?_, asked, holds⟩
    exact (List.getElem?_append_left (List.getElem?_eq_some_iff.1 at_).1).trans at_
  | @pull o' queue there =>
    refine Reads.read ⟨before, later, at_, asked, holds⟩ there fun _ _ holds => ⟨holds.pull, ?_⟩
    rw [calls_pull]
    exact Nat.le_succ _
  | tick there ticked =>
    refine Reads.read ⟨before, later, at_, asked, holds⟩ there fun _ _ holds => ⟨holds.tick ticked, ?_⟩
    exact Nat.le_of_eq (holds.calls_tick ticked).symm
  | declareId => exact ⟨before, later, at_, asked, holds⟩

/-- Whatever the upload and its subscriber do after the call. -/
theorem Reads.run {acts : List Act} (h : Reads x k o m u) (base : Copying x u)
    (further : Lib.run (GetContent.step add) u acts = some u') : Copying x u' ∧ Reads x k o m u' :=
  run_invariant (I := fun u => Copying x u ∧ Reads x k o m u) ⟨base, h⟩
    (fun _ _ _ both moved => ⟨both.1.step moved, both.2.step both.1 moved⟩) further

/-- At every moment the answers are the first of the chunks pushed since the call. -/
theorem Reads.initial (h : Reads x k o m u) (base : Copying x u) {later : IterateLater Bytes ε}
    (at_ : u.content.observers[o]? = some later) :
    later.gen.results <+: served (x.body.drop k) true later.gen.calls := by
  obtain ⟨before, queue, there, -, holds⟩ := h
  rw [there, Option.some.injEq] at at_
  subst at_
  refine holds.plain_initial.trans (served_mono ((pushed_initial _ _).drop k) ?_)
  intro closed
  rw [base.stopped] at closed
  cases at_ : u.handling with
  | saved => rfl
  | responded => rfl
  | _ => rw [at_] at closed; cases closed

/-- Where nothing moves by itself, the chunks since the call have all been given. -/
theorem Reads.rests (h : Reads x k o m u) (base : Copying x u)
    (quiet : Quiet (GetContent.step add) internal u) {later : IterateLater Bytes ε}
    (at_ : u.content.observers[o]? = some later) :
    later.gen.results = served (x.body.drop k) true later.gen.calls := by
  obtain ⟨before, queue, there, -, holds⟩ := h
  rw [there, Option.some.injEq] at at_
  subst at_
  have all : pushed x.body u.handling = x.body ∧ ended u.handling = true := by
    have done : u.handling = .saved ∨ u.handling = .responded := by
      apply base.handled.rests
      · intro a inside
        have blocked := quiet (.save (.stream a)) trivial
        simpa only [GetContent.step, copies, if_true, Upload.step, if_pos inside,
          Option.map_eq_none_iff] using blocked
      · intro waits
        have blocked := quiet .announce trivial
        simpa only [GetContent.step, waits, Option.map_eq_none_iff] using blocked
      · intro taken waits
        have blocked := quiet (.save .pullTail) trivial
        simpa only [GetContent.step, copies, if_true, Upload.step, waits,
          Option.map_eq_none_iff] using blocked
      · intro taken waits
        have blocked := quiet (.save .takeTail) trivial
        simpa only [GetContent.step, copies, if_true, Upload.step, waits,
          Option.map_eq_none_iff] using blocked
    rcases done with saved | responded
    · rw [saved]; exact ⟨rfl, rfl⟩
    · rw [responded]; exact ⟨rfl, rfl⟩
  rw [all.1, base.stopped, all.2] at holds
  refine holds.plain_served ?_
  have blocked := quiet (.tick o) trivial
  simpa only [GetContent.step, there, Option.bind_some, Option.map_eq_none_iff] using blocked

/-! ### Every upload comes to rest -/

/-- What is left to do for a body of `m` messages, with `n` iterables to push to. -/
def left (n m : Nat) : Handling → Nat
  | .firstValue => (n + 3) * m + 9
  | .pulling taken => (n + 3) * (m - taken) + 7
  | .awaiting taken => (n + 3) * (m - taken) + 5
  | .saved => 1
  | _ => 0

def measure (m : Nat) (u : Upload ε) : Nat :=
  Chain.measure u.chain + left u.content.observers.length m u.handling +
    (u.content.observers.map (·.pending)).sum

/-- A push costs one resumption of each iterable. -/
theorem pending_push {content : Subject Bytes ε} (open_ : content.stopped = false) (v : Bytes) :
    (content.next v).observers.length = content.observers.length ∧
    ((content.next v).observers.map (·.pending)).sum =
      (content.observers.map (·.pending)).sum + content.observers.length := by
  simp only [Subject.next, open_, Bool.false_eq_true, if_false, List.length_map, List.map_map, true_and]
  induction content.observers with
  | nil => rfl
  | cons later rest ih =>
    simp only [List.map_cons, List.sum_cons, List.length_cons, Function.comp_apply, pending_next, ih]
    omega

theorem pending_end (content : Subject Bytes ε) :
    (content.complete.observers.map (·.pending)).sum = (content.observers.map (·.pending)).sum := by
  unfold Subject.complete
  split
  · rfl
  · simp [Function.comp_def, pending_complete]

theorem measure_step (h : Copying x u) (inside : internal a) (moved : step add u a = some u') :
    measure x.body.length u' < measure x.body.length u := by
  cases step_moves moved with
  | announce waits answer =>
    rw [h.announced_eq answer]
    simp only [measure, waits, left, Nat.sub_zero]
    omega
  | stream internal first =>
    have less := Chain.measure_step h.handled.stream.inv internal first
    simp only [measure]; omega
  | pullTail waits =>
    have more := Chain.measure_pullUpstream u.chain u.chain.stages.length
    simp only [measure, waits, left]; omega
  | @takeTail taken r waits answer =>
    have stopped := h.stopped
    rw [waits] at stopped
    rcases h.handled.tail_answer answer with ⟨v, at_, rfl⟩ | ⟨-, rfl⟩
    · obtain ⟨same, more⟩ := pending_push stopped v
      have less := (List.getElem?_eq_some_iff.1 at_).1
      have one : x.body.length - taken = (x.body.length - (taken + 1)) + 1 := by omega
      simp only [measure, Upload.forward, same, more, waits, left]
      rw [one, Nat.mul_succ]
      omega
    · have more := pending_end u.content
      simp only [measure, Upload.forward, more, waits, left]
      omega
  | respond waits => simp only [measure, waits, left]; omega
  | getContent => exact inside.elim
  | pull => exact inside.elim
  | @tick o later later' at_ ticked =>
    have less := pending_tick ticked
    have changed : ((u.content.set o later').observers.map (·.pending)).sum + later.pending =
        (u.content.observers.map (·.pending)).sum + later'.pending := sum_map_set at_ later'
    have same : (u.content.set o later').observers.length = u.content.observers.length := List.length_set
    simp only [measure, same]
    omega
  | declareId => exact inside.elim

theorem Copying.comes_to_rest (add : Bytes → Cid) (h : Copying x u) :
    ∃ as t, (∀ a ∈ as, internal a) ∧ run (GetContent.step add) u as = some t ∧
      Quiet (GetContent.step add) internal t := by
  refine exists_quiet (GetContent.step add) internal (Copying x) (GetContent.measure x.body.length) ?_ h
  intro u a u' h inside moved
  exact ⟨h.step moved, measure_step h inside moved⟩

/-! ### The main result -/

/-- The iterable of call `o` is the file: whatever is done from here on, its answers
are at every moment the first of the chunks and then the end, and all of them where
nothing moves by itself, which is always reached. -/
def Whole (add : Bytes → Cid) (body : List Bytes) (o : Nat) (u : Upload ε) : Prop :=
  ∀ acts t later, run (step add) u acts = some t → t.content.observers[o]? = some later →
    later.gen.results <+: served body true later.gen.calls ∧
    (Quiet (step add) internal t → later.gen.results = served body true later.gen.calls) ∧
    ∃ as rest, (∀ a ∈ as, internal a) ∧ run (step add) t as = some rest ∧ Quiet (step add) internal rest

/-- A subscriber that makes `m` calls of `next()`. -/
theorem pulls (add : Bytes → Cid) (h : Reads x k o 0 u) (base : Copying x u) (m : Nat) :
    ∃ t, run (step add) u (List.replicate m (.pull o)) = some t ∧ Copying x t ∧ Reads x k o m t := by
  induction m with
  | zero => exact ⟨u, rfl, base, h⟩
  | succ m ih =>
    obtain ⟨t, reached, base, reads⟩ := ih
    obtain ⟨later, at_, asked, holds⟩ := reads.queue
    have moved : step add t (.pull o) = some { t with content := t.content.set o later.pull } := by
      simp only [step, at_, Option.map_some]
    refine ⟨_, ?_, base.step moved, reads.before, later.pull, ?_, ?_, holds.pull⟩
    · rw [List.replicate_succ']
      exact run_snoc.2 ⟨t, reached, moved⟩
    · exact List.getElem?_set_self (List.getElem?_eq_some_iff.1 at_).1
    · rw [calls_pull]; omega

theorem Reads.whole_iff (h : Reads x k o 0 u) (base : Copying x u) : Whole add x.body o u ↔ k = 0 := by
  constructor
  · intro whole
    -- read to the end, and wait
    obtain ⟨s, reached, base, reads⟩ := pulls add h base x.body.length
    obtain ⟨as, t, -, further, quiet⟩ := base.comes_to_rest add
    obtain ⟨base, reads⟩ := reads.run base further
    obtain ⟨later, at_, asked, -⟩ := reads.queue
    have all := (whole _ t later (run_append.2 ⟨s, reached, further⟩) at_).2.1 quiet
    have some_ := reads.rests base quiet at_
    have same : x.body = x.body.drop k := by
      have values := congrArg (List.filterMap Result.value?) (all.symm.trans some_)
      rw [served_values, served_values, List.take_of_length_le asked, List.take_of_length_le] at values
      · exact values
      · rw [List.length_drop]; omega
    have inside : k ≤ x.body.length := by
      refine reads.before.trans (List.IsPrefix.length_le ?_)
      exact pushed_initial x.body t.handling
    have lengths := congrArg List.length same
    rw [List.length_drop] at lengths
    omega
  · rintro rfl acts t later further at_
    obtain ⟨base, reads⟩ := h.run base further
    exact ⟨reads.initial base at_, fun quiet => reads.rests base quiet at_, base.comes_to_rest add⟩

/-- **`getContent` called late**: the iterable is the whole file just when nothing has
been pushed before the call, as in the subscriber's callback. -/
theorem getContent_iff {acts : List Act} {s s' : Upload ε}
    (reached : run (step add) (Upload.start x) acts = some s)
    (called : step add s .getContent = some s') :
    Whole add x.body s.content.observers.length s' ↔ pushed x.body s.handling = [] := by
  have base := copying_run reached
  cases step_moves called with
  | getContent =>
    rw [← List.length_eq_zero_iff]
    exact (reads_called x s).whole_iff (base.step called)

/-- A call in the callback of the announcement. -/
theorem getContent_iff_sample :
    ∃ s s' : Upload String,
      run (step sampleAdd) (Upload.start sampleUpload)
        [.save (.stream .yield), .save (.stream (.pump 0)), .save (.stream (.tickFirst 0)), .announce] =
          some s ∧
      step sampleAdd s .getContent = some s' ∧ Whole sampleAdd sampleUpload.body 0 s' := by
  have reached : run (step (ε := String) sampleAdd) (Upload.start sampleUpload)
      [.save (.stream .yield), .save (.stream (.pump 0)), .save (.stream (.tickFirst 0)), .announce] =
        some _ := rfl
  exact ⟨_, _, reached, rfl, (getContent_iff reached rfl).2 rfl⟩

/-- A call after the first of two messages. -/
theorem late_getContent :
    ∃ acts, ∃ s s' : Upload String, run (step sampleAdd) (Upload.start sampleUpload) acts = some s ∧
      step sampleAdd s .getContent = some s' ∧
      ¬ Whole sampleAdd sampleUpload.body s.content.observers.length s' := by
  have reached : run (step (ε := String) sampleAdd) (Upload.start sampleUpload)
      [.save (.stream .yield), .save (.stream (.pump 0)), .save (.stream (.tickFirst 0)), .announce,
        .save (.stream .yield), .save .pullTail, .save (.stream (.pump 0)), .save (.stream (.tickSecond 0)),
        .save .takeTail] = some _ := rfl
  refine ⟨_, _, _, reached, rfl, fun whole => ?_⟩
  have base := (copying_run reached).step (rfl : step sampleAdd _ .getContent = some _)
  have late := ((reads_called sampleUpload _).whole_iff base).1 whole
  cases late

end Fula.FileProtocol.GetContent
