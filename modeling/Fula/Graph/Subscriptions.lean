import Fula.Lib.Run
import Fula.Graph.LiveRead
import Fula.Graph.Pushed

/-!
# The listeners of subscriptions

A box serves any number of subscriptions. Each read field of one loads its
collection, registers its `onChange` for both events of the store, and then
queries the collection, which throws where its filter does. Nothing removes a
listener. `Matches` says which listeners there should be; `listeners_match`
says in which runs they are those.
-/

namespace Fula.Graph
set_option autoImplicit false
open Lib EventEmitter

inductive Progress where
  /-- In `loadDB`. -/
  | loading
  | answered
  /-- The query threw. -/
  | threw
  /-- `loadDB` threw. -/
  | failed
  deriving DecidableEq, Repr

/-- The resolver of one read field. -/
structure ReadCall where
  input : ReadInput
  progress : Progress := .loading

/-- The listeners are registered, whatever comes of the query. -/
def ReadCall.loaded (c : ReadCall) : Prop := c.progress = .answered ∨ c.progress = .threw

structure Subscription where
  reads : List ReadCall
  /-- Its stream has ended, or the client is gone. -/
  ended : Bool := false

/-- It was answered successfully and its stream has not ended. -/
def Subscription.live (sub : Subscription) : Prop :=
  (∀ c ∈ sub.reads, c.progress = .answered) ∧ sub.ended = false

structure Box where
  /-- `db.events` of each collection; a callback is the `onChange` of read `j` of subscription `k`. -/
  stores : String → EventEmitter Change (Nat × Nat) := fun _ => {}
  subscriptions : List Subscription := []

namespace Box

def call (s : Box) (k j : Nat) : Option ReadCall := (s.subscriptions[k]?).bind fun sub => sub.reads[j]?

def modify (s : Box) (k : Nat) (f : Subscription → Subscription) : Box :=
  { s with subscriptions := s.subscriptions.modify k f }

/-- `db.events.on('write', onChange); db.events.on('replicated', onChange)`. -/
def listen (s : Box) (k j : Nat) (collection : String) : Box :=
  let events := ((s.stores collection).on .write (k, j)).on .replicated (k, j)
  { s with stores := Function.update s.stores collection events }

end Box

def Subscription.progress (j : Nat) (progress : Progress) (sub : Subscription) : Subscription :=
  { sub with reads := sub.reads.modify j fun c => { c with progress } }

inductive BoxAct where
  /-- A subscription request with these read fields. -/
  | request (inputs : List ReadInput)
  /-- `loadDB` returns for read `j` of subscription `k`, and the query finds `docs`. -/
  | loaded (k j : Nat) (docs : List Doc)
  | loadFails (k j : Nat)
  | ended (k : Nat)

variable {V : Type} (js : JavaScript V)

namespace Box

def step (s : Box) : BoxAct → Option Box
  | .request inputs => some { s with subscriptions := s.subscriptions ++ [{ reads := inputs.map ({ input := · }) }] }
  | .loaded k j docs => match s.call k j with
    | some { input, progress := .loading } =>
      let answer := match query js input.filter docs with
        | .ok _ => Progress.answered
        | .error _ => .threw
      some ((s.listen k j input.collection).modify k (·.progress j answer))
    | _ => none
  | .loadFails k j => match s.call k j with
    | some { progress := .loading, .. } => some (s.modify k (·.progress j .failed))
    | _ => none
  -- The generator is returned from; its `complete` is never called.
  | .ended k => match s.subscriptions[k]? with
    | some { ended := false, .. } => some (s.modify k ({ · with ended := true }))
    | _ => none

/-- Read `j` of subscription `k` listens to an event of the collection. -/
def Attached (s : Box) (collection : String) (event : Change) (k j : Nat) : Prop :=
  ∃ l ∈ (s.stores collection).listenersOf event, l.callback = (k, j)

/-- The listeners of the stores are those of the live subscriptions. -/
def Matches (s : Box) : Prop :=
  ∀ collection event k j, s.Attached collection event k j ↔ ∃ sub c, s.subscriptions[k]? = some sub ∧ sub.live ∧
    sub.reads[j]? = some c ∧ c.input.collection = collection

/-! ## What is attached -/

/-- Read `j` of subscription `k` has loaded the collection. -/
def Loaded (s : Box) (collection : String) (k j : Nat) : Prop :=
  ∃ sub c, s.subscriptions[k]? = some sub ∧ sub.reads[j]? = some c ∧ c.loaded ∧ c.input.collection = collection

/-- In every state the reads that were loaded listen, whatever became of them. -/
def Sound (s : Box) : Prop :=
  ∀ collection event k j, s.Attached collection event k j ↔ s.Loaded collection k j

variable {js} {s : Box}

theorem attached_listen (s : Box) (k j : Nat) (name collection : String) (event : Change) (k' j' : Nat) :
    (s.listen k j name).Attached collection event k' j' ↔
      s.Attached collection event k' j' ∨ name = collection ∧ k = k' ∧ j = j' := by
  unfold Attached listen
  by_cases same : collection = name
  · subst same
    cases event <;> simp [listenersOf_on, or_and_right, exists_or]
  · simp [Function.update_of_ne same, Ne.symm same]

theorem attached_modify (s : Box) (k : Nat) (f : Subscription → Subscription) (collection : String) (event : Change)
    (k' j' : Nat) : (s.modify k f).Attached collection event k' j' ↔ s.Attached collection event k' j' := Iff.rfl

theorem subscription_modify (s : Box) (k : Nat) (f : Subscription → Subscription) (k' : Nat) :
    (s.modify k f).subscriptions[k']? = if k = k' then s.subscriptions[k']?.map f else s.subscriptions[k']? := by
  simp only [modify, List.getElem?_modify]
  split <;> simp

/-- What a step does: a request, an answer to one read, the end of one stream. -/
theorem step_cases {s' : Box} {a : BoxAct} (moved : step js s a = some s') :
    (∃ inputs, a = .request inputs ∧
      s' = { s with subscriptions := s.subscriptions ++ [{ reads := inputs.map ({ input := · }) }] }) ∨
    (∃ k j docs sub c, a = .loaded k j docs ∧ s.subscriptions[k]? = some sub ∧ sub.reads[j]? = some c ∧
      c.progress = .loading ∧ s' = (s.listen k j c.input.collection).modify k (·.progress j
        (match query js c.input.filter docs with | .ok _ => .answered | .error _ => .threw))) ∨
    (∃ k j sub c, a = .loadFails k j ∧ s.subscriptions[k]? = some sub ∧ sub.reads[j]? = some c ∧
      c.progress = .loading ∧ s' = s.modify k (·.progress j .failed)) ∨
    (∃ k sub, a = .ended k ∧ s.subscriptions[k]? = some sub ∧ sub.ended = false ∧
      s' = s.modify k ({ · with ended := true })) := by
  cases a with
  | request inputs => exact .inl ⟨inputs, rfl, by simpa [step] using moved.symm⟩
  | loaded k j docs =>
    simp only [step] at moved
    split at moved
    · next input found =>
      obtain ⟨sub, there, read⟩ := Option.bind_eq_some_iff.1 found
      exact .inr (.inl ⟨k, j, docs, sub, _, rfl, there, read, rfl, by simpa using moved.symm⟩)
    · cases moved
  | loadFails k j =>
    simp only [step] at moved
    split at moved
    · next input found =>
      obtain ⟨sub, there, read⟩ := Option.bind_eq_some_iff.1 found
      exact .inr (.inr (.inl ⟨k, j, sub, _, rfl, there, read, rfl, by simpa using moved.symm⟩))
    · cases moved
  | ended k =>
    simp only [step] at moved
    split at moved
    · next reads there => exact .inr (.inr (.inr ⟨k, _, rfl, there, rfl, by simpa using moved.symm⟩))
    · cases moved

theorem progress_reads (sub : Subscription) (j : Nat) (progress : Progress) (i : Nat) :
    (sub.progress j progress).reads[i]? =
      if j = i then sub.reads[i]?.map fun c => { c with progress } else sub.reads[i]? := by
  simp only [Subscription.progress, List.getElem?_modify]
  split <;> simp

theorem progress_same {sub : Subscription} {j : Nat} {c : ReadCall} (read : sub.reads[j]? = some c)
    (progress : Progress) : (sub.progress j progress).reads[j]? = some { c with progress } := by
  rw [progress_reads, if_pos rfl, read]
  rfl

theorem loaded_progress {s : Box} {k j : Nat} {sub : Subscription} {c : ReadCall}
    (there : s.subscriptions[k]? = some sub) (read : sub.reads[j]? = some c) (loading : c.progress = .loading) (progress : Progress) (collection : String)
    (k' j' : Nat) : (s.modify k (·.progress j progress)).Loaded collection k' j' ↔ s.Loaded collection k' j' ∨
      ({ c with progress } : ReadCall).loaded ∧ c.input.collection = collection ∧ k = k' ∧ j = j' := by
  have notLoaded : ¬ c.loaded := by simp [ReadCall.loaded, loading]
  simp only [Loaded, subscription_modify]
  by_cases sameK : k = k'
  · subst sameK
    simp only [if_true, there, Option.map_some, Option.some.injEq, exists_and_left, exists_eq_left', progress_reads]
    by_cases sameJ : j = j'
    · subst sameJ
      simp [read, notLoaded]
    · simp [sameJ]
  · simp [sameK]

theorem loaded_request (s : Box) (inputs : List ReadInput) (collection : String) (k j : Nat) :
    Loaded { s with subscriptions := s.subscriptions ++ [{ reads := inputs.map ({ input := · }) }] } collection k j ↔
      s.Loaded collection k j := by
  constructor
  · rintro ⟨sub, c, there, read, loaded, named⟩
    rcases Nat.lt_or_ge k s.subscriptions.length with old | new
    · exact ⟨sub, c, List.getElem?_append_left old ▸ there, read, loaded, named⟩
    · rw [List.getElem?_append_right new] at there
      rw [List.mem_singleton.1 (List.mem_of_getElem? there)] at read
      obtain ⟨input, -, rfl⟩ := List.mem_map.1 (List.mem_of_getElem? read)
      simp [ReadCall.loaded] at loaded
  · rintro ⟨sub, c, there, rest⟩
    exact ⟨sub, c, by rw [List.getElem?_append_left (List.getElem?_eq_some_iff.1 there).1, there], rest⟩

theorem loaded_ended (s : Box) (k : Nat) (collection : String) (k' j' : Nat) :
    (s.modify k ({ · with ended := true })).Loaded collection k' j' ↔ s.Loaded collection k' j' := by
  simp only [Loaded, subscription_modify]
  split
  · cases s.subscriptions[k']? <;> simp
  · rfl

theorem sound_init : Sound {} := by
  intro collection event k j
  simp [Attached, Loaded, listenersOf]

/-- **What every step keeps**. -/
theorem sound_step {s' : Box} {a : BoxAct} (sound : s.Sound) (moved : step js s a = some s') : s'.Sound := by
  intro collection event k' j'
  obtain ⟨inputs, rfl, rfl⟩ | ⟨k, j, docs, sub, c, rfl, there, read, loading, rfl⟩ |
    ⟨k, j, sub, c, rfl, there, read, loading, rfl⟩ | ⟨k, sub, rfl, there, running, rfl⟩ := step_cases moved
  · rw [loaded_request]
    exact sound collection event k' j'
  · rw [attached_modify, attached_listen, sound, loaded_progress (s := s.listen k j _) there read loading]
    refine or_congr Iff.rfl (iff_and_self.2 fun _ => ?_)
    cases query js c.input.filter docs <;> simp [ReadCall.loaded]
  · rw [attached_modify, sound, loaded_progress there read loading]
    simp [ReadCall.loaded]
  · rw [attached_modify, sound, loaded_ended]

end Box

/-! ## What should be attached -/

/-- The reads of a subscription listen just when it is live. -/
def Subscription.Matches (sub : Subscription) : Prop := ∀ c ∈ sub.reads, (c.loaded ↔ sub.live)

namespace Box

theorem matches_iff {s : Box} (sound : s.Sound) : s.Matches ↔ ∀ sub ∈ s.subscriptions, sub.Matches := by
  constructor
  · intro right sub member c read
    obtain ⟨k, there⟩ := List.mem_iff_getElem?.1 member
    obtain ⟨j, at_⟩ := List.mem_iff_getElem?.1 read
    have both := (sound c.input.collection .write k j).symm.trans (right c.input.collection .write k j)
    constructor
    · intro loaded
      obtain ⟨sub', -, there', live, -⟩ := both.1 ⟨sub, c, there, at_, loaded, rfl⟩
      rw [there, Option.some.injEq] at there'
      exact there' ▸ live
    · intro live
      obtain ⟨sub', c', there', at', loaded, -⟩ := both.2 ⟨sub, c, there, live, at_, rfl⟩
      rw [there, Option.some.injEq] at there'
      subst there'
      rw [at_, Option.some.injEq] at at'
      exact at' ▸ loaded
  · intro each collection event k j
    refine (sound collection event k j).trans ⟨?_, ?_⟩
    · rintro ⟨sub, c, there, read, loaded, named⟩
      have live := (each sub (List.mem_of_getElem? there) c (List.mem_of_getElem? read)).1 loaded
      exact ⟨sub, c, there, live, read, named⟩
    · rintro ⟨sub, c, there, live, read, named⟩
      have loaded := (each sub (List.mem_of_getElem? there) c (List.mem_of_getElem? read)).2 live
      exact ⟨sub, c, there, read, loaded, named⟩

/-- A step on one subscription. -/
theorem matches_modify {s : Box} (each : ∀ sub ∈ s.subscriptions, sub.Matches) {k : Nat} {sub : Subscription}
    (there : s.subscriptions[k]? = some sub) (f : Subscription → Subscription) :
    (∀ sub ∈ (s.modify k f).subscriptions, sub.Matches) ↔ (f sub).Matches := by
  constructor
  · intro all
    exact all _ (List.mem_of_getElem? (i := k) (by rw [subscription_modify, if_pos rfl, there]; rfl))
  · intro its sub' member
    obtain ⟨k', there'⟩ := List.mem_iff_getElem?.1 member
    rw [subscription_modify] at there'
    split at there'
    · next same =>
      subst same
      rw [there, Option.map_some, Option.some.injEq] at there'
      exact there' ▸ its
    · exact each sub' (List.mem_of_getElem? there')

/-- The steps that keep the listeners right: what is answered is the only read of a
subscription whose stream goes on, and its filter does not throw; what ends has loaded nothing. -/
def Keeps (s : Box) : BoxAct → Prop
  | .request _ => True
  | .loaded k _ docs => ∃ sub c res, s.subscriptions[k]? = some sub ∧ sub.reads = [c] ∧ sub.ended = false ∧
    query js c.input.filter docs = .ok res
  | .loadFails _ _ => True
  | .ended k => ∀ sub, s.subscriptions[k]? = some sub → ∀ c ∈ sub.reads, ¬ c.loaded

variable {js}

/-- While one read is loading, none of a subscription that matches is loaded. -/
theorem none_loaded {sub : Subscription} (its : sub.Matches) {c : ReadCall} (read : c ∈ sub.reads)
    (loading : c.progress = .loading) : ∀ c' ∈ sub.reads, ¬ c'.loaded := by
  intro c' read' loaded
  have answered := ((its c' read').1 loaded).1 c read
  rw [loading] at answered
  cases answered

theorem matches_loaded {sub : Subscription} (its : sub.Matches) {j : Nat} {c : ReadCall} (read : sub.reads[j]? = some c)
    (loading : c.progress = .loading) {progress : Progress} (loaded : ({ c with progress } : ReadCall).loaded) :
    (sub.progress j progress).Matches ↔ sub.reads = [c] ∧ sub.ended = false ∧ progress = .answered := by
  have others := none_loaded its (List.mem_of_getElem? read) loading
  have now := progress_same read progress
  constructor
  · intro right
    obtain ⟨all, running⟩ := (right _ (List.mem_of_getElem? now)).1 loaded
    have alone (i : Nat) (apart : j ≠ i) : sub.reads[i]? = none := by
      by_contra other
      obtain ⟨c', at_⟩ := Option.ne_none_iff_exists'.1 other
      have same : (sub.progress j progress).reads[i]? = some c' := by rw [progress_reads, if_neg apart, at_]
      exact others c' (List.mem_of_getElem? at_) (.inl (all c' (List.mem_of_getElem? same)))
    refine ⟨?_, running, all _ (List.mem_of_getElem? now)⟩
    cases reads : sub.reads with
    | nil => simp [reads] at read
    | cons first rest =>
      have zero : j = 0 := by
        by_contra apart
        have none_ := alone 0 apart
        simp [reads] at none_
      subst zero
      have last := alone 1 (by simp)
      simp only [reads, List.getElem?_cons_zero, Option.some.injEq] at read
      simp only [reads, List.getElem?_cons_succ, List.getElem?_eq_none_iff, Nat.le_zero,
        List.length_eq_zero_iff] at last
      rw [read, last]
  · rintro ⟨one, running, rfl⟩
    have zero : j = 0 := by
      rw [one, List.getElem?_singleton] at read
      by_contra apart
      simp [apart] at read
    subst zero
    have reads : (sub.progress 0 .answered).reads = [{ c with progress := .answered }] := by
      rw [Subscription.progress, one]
      rfl
    intro c' read'
    rw [reads, List.mem_singleton] at read'
    subst read'
    refine ⟨fun _ => ⟨fun c' read' => ?_, running⟩, fun _ => .inl rfl⟩
    rw [reads, List.mem_singleton] at read'
    rw [read']

theorem matches_failed {sub : Subscription} (its : sub.Matches) {j : Nat} {c : ReadCall} (read : sub.reads[j]? = some c)
    (loading : c.progress = .loading) : (sub.progress j .failed).Matches := by
  have others := none_loaded its (List.mem_of_getElem? read) loading
  have now := progress_same read .failed
  intro c' read'
  constructor
  · intro loaded
    obtain ⟨i, at_⟩ := List.mem_iff_getElem?.1 read'
    rw [progress_reads] at at_
    split at at_
    · obtain ⟨c₀, -, rfl⟩ := Option.map_eq_some_iff.1 at_
      rcases loaded with answered | threw
      · cases answered
      · cases threw
    · exact absurd loaded (others c' (List.mem_of_getElem? at_))
  · intro live
    have answered := live.1 _ (List.mem_of_getElem? now)
    cases answered

/-- **What a step needs to keep the listeners right.** -/
theorem keeps_iff {s s' : Box} {a : BoxAct} (sound : s.Sound) (right : s.Matches) (moved : step js s a = some s') :
    s'.Matches ↔ Keeps js s a := by
  rw [matches_iff (sound_step sound moved)]
  have each := (matches_iff sound).1 right
  obtain ⟨inputs, rfl, rfl⟩ | ⟨k, j, docs, sub, c, rfl, there, read, loading, rfl⟩ |
    ⟨k, j, sub, c, rfl, there, read, loading, rfl⟩ | ⟨k, sub, rfl, there, running, rfl⟩ := step_cases moved
  · refine iff_of_true ?_ trivial
    intro sub member c read
    rcases List.mem_append.1 member with old | new
    · exact each sub old c read
    · rw [List.mem_singleton] at new
      subst new
      obtain ⟨input, -, rfl⟩ := List.mem_map.1 read
      refine ⟨fun loaded => by simp [ReadCall.loaded] at loaded, fun live => ?_⟩
      have answered := live.1 _ read
      cases answered
  · have its := each sub (List.mem_of_getElem? there)
    rw [matches_modify (s := s.listen k j _) each there, matches_loaded its read loading
      (by cases query js c.input.filter docs <;> simp [ReadCall.loaded])]
    simp only [Keeps, there, Option.some.injEq, exists_and_left, exists_eq_left']
    constructor
    · rintro ⟨one, running, answered⟩
      refine ⟨c, one, running, ?_⟩
      cases found : query js c.input.filter docs with
      | ok res => exact ⟨res, rfl⟩
      | error e => simp [found] at answered
    · rintro ⟨c', one, running, res, found⟩
      rw [one] at read
      obtain rfl := List.mem_singleton.1 (List.mem_of_getElem? read)
      exact ⟨one, running, by rw [found]⟩
  · rw [matches_modify each there]
    exact iff_of_true (matches_failed (each sub (List.mem_of_getElem? there)) read loading) trivial
  · rw [matches_modify each there]
    simp only [Keeps, there, Option.some.injEq, forall_eq']
    constructor
    · intro right c read loaded
      have live := (right c read).1 loaded
      cases live.2
    · intro none_ c read
      exact iff_of_false (none_ c read) fun live => by cases live.2

end Box

/-- **When the listeners match**: in every state of a run the listeners of the
stores are those of the live subscriptions, exactly when each of its steps keeps
them so. -/
theorem listeners_match (js : JavaScript V) {acts : List BoxAct} {s : Box}
    (reached : run (Box.step js) {} acts = some s) :
    (∀ bs m, bs <+: acts → run (Box.step js) {} bs = some m → m.Matches) ↔
      StepsMeet (Box.step js) (Box.Keeps js) {} acts := by
  refine everywhere_iff (fun _ _ _ sound moved => Box.sound_step sound moved)
    (fun _ _ _ sound right moved => Box.keeps_iff sound right moved) Box.sound_init ?_ reached
  exact (Box.matches_iff Box.sound_init).2 (by simp)

/-- One read of everything, answered. -/
theorem listeners_match_sample :
    let acts : List BoxAct := [.request [{ collection := "profile", filter := .obj [] }], .loaded 0 0 []]
    (∀ bs m, bs <+: acts → run (Box.step noComparisons) {} bs = some m → m.Matches) ↔
      StepsMeet (Box.step noComparisons) (Box.Keeps noComparisons) {} acts :=
  listeners_match noComparisons rfl

/-- A read whose filter throws on a document, and one that was answered and whose
stream has ended: both still listen. -/
theorem dead_reads_listen :
    (∃ m, run (Box.step noComparisons) {} [.request [{
        collection := "profile", filter := .obj [("age", .obj [("lt", .num 0)])] }],
        .loaded 0 0 [[("age", .num 7)]]] = some m ∧ m.Attached "profile" .write 0 0 ∧ ¬ m.Matches) ∧
    (∃ m, run (Box.step noComparisons) {} [.request [{ collection := "profile", filter := .obj [] }],
        .loaded 0 0 [], .ended 0] = some m ∧ m.Attached "profile" .write 0 0 ∧ ¬ m.Matches) := by
  constructor
  · refine ⟨_, rfl, ⟨_, List.Mem.head _, rfl⟩, fun right => ?_⟩
    obtain ⟨sub, c, there, live, read, -⟩ := (right "profile" .write 0 0).1 ⟨_, List.Mem.head _, rfl⟩
    cases there
    have answered := live.1 _ (List.Mem.head _)
    cases answered
  · refine ⟨_, rfl, ⟨_, List.Mem.head _, rfl⟩, fun right => ?_⟩
    obtain ⟨sub, c, there, live, read, -⟩ := (right "profile" .write 0 0).1 ⟨_, List.Mem.head _, rfl⟩
    cases there
    cases live.2

end Fula.Graph
