import Fula.RnFula.Bridge

/-!
# Concurrent transfers

All transfers of one end of the bridge share an emitter, and an event belongs
to a transfer by its name alone: the id with a suffix. Between ids of one
length the names are apart (`name_inj`), and none of them is an id, so what END
removes by name is nobody's listener. A consumer that subscribed in time is
told its own messages and no others, whatever else the end of the bridge does
(`Follows.step`).
-/

namespace Fula.RnFula
set_option autoImplicit false
open Lib EventEmitter

variable {V M : Type} {parse : String → Option V} {b b' : Bridge V M} {id : String} {n k : Nat}

def Callback.suffix : Callback → String
  | .resolve _ => "CALLBACK"
  | .next _ => "CHUNK"
  | .error _ => "error"
  | .complete _ _ => "END"

def Callback.observer : Callback → Option Nat
  | .resolve _ => none
  | .next k | .error k | .complete k _ => some k

/-- The transfer that an action names. -/
def Act.id? : Act M → Option String
  | .await_ id => some id
  | .message data => some data.id
  | .iterate _ => none

/-- The event of a message. -/
def Chunk.event (data : Chunk M) : String := data.id ++ match data.status with
  | .START => "CALLBACK"
  | .CHUNK => "CHUNK"
  | .END => "END"

def Chunk.payload (data : Chunk M) : Payload M := match data.status with
  | .START => .source ⟨data.id, data.meta_⟩
  | .CHUNK | .END => .data data.data

theorem streamListener_eq (parse : String → Option V) (data : Chunk M) (b : Bridge V M) :
    streamListener parse data b = emit (invoke parse data.payload) b data.event := by
  unfold streamListener Chunk.payload Chunk.event
  cases data.status <;> rfl

/-- The messages of one transfer. -/
def messagesOf (id : String) (acts : List (Act M)) : List (Chunk M) :=
  acts.filterMap fun a => match a with
    | .message data => if data.id = id then some data else none
    | _ => none

/-- START, then CHUNKs, then END, as far as they have come. -/
def InOrder (messages : List (Chunk M)) : Prop :=
  ∃ chunks, messages.map (·.status) <+: .START :: List.replicate chunks .CHUNK ++ [.END]

/-- The data of the CHUNKs. -/
def chunksOf (messages : List (Chunk M)) : List String :=
  messages.filterMap fun data => if data.status = .CHUNK then some data.data else none

/-- What a subscribed observer makes of a message of its transfer. -/
def tell (parse : String → Option V) (o : Observer V) (data : Chunk M) : Observer V :=
  match data.status with
  | .START => o
  | .CHUNK => match parse data.data with
    | some v => o.next v
    | none => o
  | .END => o.finish .completed

/-- Every listener is registered for one transfer with an id of `n` characters. -/
structure Wired (n : Nat) (b : Bridge V M) : Prop where
  named : ∀ l ∈ b.1.listeners, ∃ id : String, id.length = n ∧ l.name = id ++ l.callback.suffix ∧
    ∀ k own, l.callback = .complete k own → own = id
  known : ∀ l ∈ b.1.listeners, ∀ k, l.callback.observer = some k → k < b.2.observers.length
  sources : ∀ (p : Nat) (source : Source M), b.2.promises[p]? = some (some source) → source.id.length = n

/-- Observer `k` was told `o` of transfer `id`, and listens for more. -/
structure Attached (id : String) (k : Nat) (onChunk onEnd : Listener String Callback)
    (o : Observer V) (b : Bridge V M) :
    Prop where
  chunk : onChunk ∈ b.1.listeners
  chunkIs : onChunk.name = id ++ "CHUNK" ∧ onChunk.callback = .next k ∧ onChunk.once = false
  end_ : onEnd ∈ b.1.listeners
  endIs : onEnd.name = id ++ "END" ∧ onEnd.callback = .complete k id
  only : ∀ l ∈ b.1.listeners, l.callback.observer = some k → l = onChunk ∨ l = onEnd ∨ l.callback = .error k
  observer : b.2.observers[k]? = some o
  running : o.outcome = none

/-- Observer `k` was told exactly `o` of transfer `id`, to the end or so far. -/
def Follows (id : String) (k : Nat) (o : Observer V) (b : Bridge V M) : Prop :=
  b.2.observers[k]? = some o ∧ (o.outcome = none → ∃ onChunk onEnd, Attached id k onChunk onEnd o b)

/-! ## Names -/

theorem name_inj {id id' suffix suffix' : String} (lengths : id.length = id'.length)
    (same : id ++ suffix = id' ++ suffix') : id = id' ∧ suffix = suffix' := by
  have chars := congrArg String.toList same
  rw [String.toList_append, String.toList_append] at chars
  obtain ⟨front, back⟩ := List.append_inj chars (by rwa [String.length_toList, String.length_toList])
  exact ⟨String.toList_injective front, String.toList_injective back⟩

theorem name_ne_id {id id' : String} (c : Callback) (lengths : id.length = id'.length) :
    id ++ c.suffix ≠ id' := by
  intro same
  have longer := congrArg String.length same
  rw [String.length_append, lengths] at longer
  cases c <;> simp [Callback.suffix] at longer

/-! ## What a callback leaves alone -/

theorem invoke_listeners (payload : Payload M) (c : Callback) (t : Bridge V M) {m : Listener String Callback}
    (still : m ∈ (invoke parse payload c t).1.1.listeners) : m ∈ t.1.listeners := by
  obtain ⟨e, ρ⟩ := t
  cases c with
  | resolve p => cases payload <;> exact still
  | next j =>
    cases payload with
    | source source => exact still
    | data val => simp only [invoke] at still; split at still <;> exact still
  | error j => exact still
  | complete j own => exact (List.mem_filter.1 still).1

theorem invoke_keeps (payload : Payload M) {c : Callback} {t : Bridge V M} {m : Listener String Callback}
    (there : m ∈ t.1.listeners) (apart : ∀ j own, c = .complete j own → m.name ≠ own) :
    m ∈ (invoke parse payload c t).1.1.listeners := by
  obtain ⟨e, ρ⟩ := t
  cases c with
  | resolve p => cases payload <;> exact there
  | next j =>
    cases payload with
    | source source => exact there
    | data val => simp only [invoke]; split <;> exact there
  | error j => exact there
  | complete j own => exact List.mem_filter.2 ⟨there, by simpa using apart j own rfl⟩

theorem invoke_observer (payload : Payload M) {c : Callback} (t : Bridge V M) (other : c.observer ≠ some k) :
    (invoke parse payload c t).1.2.observers[k]? = t.2.observers[k]? := by
  obtain ⟨e, ρ⟩ := t
  have apart : ∀ j told, c.observer = some j → (tellObserver j told ρ).observers[k]? = ρ.observers[k]? := by
    intro j told named
    have ne : j ≠ k := by
      rintro rfl
      exact other named
    simp only [tellObserver]
    exact List.getElem?_modify_ne _ _ ne
  cases c with
  | resolve p => cases payload <;> rfl
  | next j =>
    cases payload with
    | source source => rfl
    | data val =>
      simp only [invoke]
      split
      · exact apart j _ rfl
      · rfl
  | error j => exact apart j _ rfl
  | complete j own => exact apart j _ rfl

theorem modify_finished {os : List (Observer V)} {j : Nat} {o : Observer V} {told : Observer V → Observer V}
    (at_ : os[k]? = some o) (same : told o = o) : (os.modify j told)[k]? = some o := by
  rw [List.getElem?_modify]
  split
  · simp [at_, same]
  · simp [at_]

theorem next_finished {o : Observer V} (ended : o.outcome ≠ none) (v : V) : o.next v = o := if_neg ended

theorem finish_finished {o : Observer V} (ended : o.outcome ≠ none) (outcome : Outcome) :
    o.finish outcome = o :=
  if_neg ended

/-- An observer whose subscription is ended is told nothing. -/
theorem invoke_finished (payload : Payload M) (c : Callback) {t : Bridge V M} {o : Observer V}
    (at_ : t.2.observers[k]? = some o) (ended : o.outcome ≠ none) :
    (invoke parse payload c t).1.2.observers[k]? = some o := by
  obtain ⟨e, ρ⟩ := t
  cases c with
  | resolve p => cases payload <;> exact at_
  | next j =>
    cases payload with
    | source source => exact at_
    | data val =>
      simp only [invoke]
      split
      · exact modify_finished at_ (next_finished ended _)
      · exact at_
  | error j => exact modify_finished at_ (finish_finished ended _)
  | complete j own => exact modify_finished at_ (finish_finished ended _)

theorem call_listeners (payload : Payload M) (t : Bridge V M) {l m : Listener String Callback}
    (still : m ∈ (call (invoke parse payload) t l).1.1.listeners) : m ∈ t.1.listeners := by
  obtain ⟨e, called, fewer, -⟩ := call_eq (invoke parse payload) t l
  rw [called] at still
  exact fewer m (invoke_listeners payload l.callback (e, t.2) still)

theorem call_finished (payload : Payload M) (l : Listener String Callback) {t : Bridge V M} {o : Observer V}
    (at_ : t.2.observers[k]? = some o) (ended : o.outcome ≠ none) :
    (call (invoke parse payload) t l).1.2.observers[k]? = some o := by
  obtain ⟨e, called, -, -⟩ := call_eq (invoke parse payload) t l
  rw [called]
  exact invoke_finished payload l.callback at_ ended

/-! ## One event -/

variable {onChunk onEnd l : Listener String Callback} {o : Observer V} {data : Chunk M}

/-- Who hears a message of a transfer. -/
theorem Wired.heard (wired : Wired n b) (length : data.id.length = n)
    (there : l ∈ b.1.listenersOf data.event) :
    data.event = data.id ++ l.callback.suffix ∧ ∀ k own, l.callback = .complete k own → own = data.id := by
  obtain ⟨registered, same⟩ := mem_listenersOf.1 there
  obtain ⟨id, idLength, named, own⟩ := wired.named l registered
  rw [named] at same
  obtain ⟨rfl, rest⟩ := name_inj (idLength.trans length.symm) same
  exact ⟨same.symm, own⟩

/-- The listeners of other observers leave this one attached. -/
theorem Attached.other (payload : Payload M) (wired : Wired n b) (length : id.length = n)
    (h : Attached id k onChunk onEnd o b) (there : l ∈ b.1.listeners) (apart : l ≠ onChunk ∧ l ≠ onEnd)
    (silent : ∀ j, l.callback ≠ .error j) {told : Observer V} (t : Bridge V M)
    (now : Attached id k onChunk onEnd told t) :
    Attached id k onChunk onEnd told (call (invoke parse payload) t l).1 := by
  obtain ⟨e, called, fewer, kept⟩ := call_eq (invoke parse payload) t l
  have observer : l.callback.observer ≠ some k := by
    intro same
    rcases h.only l there same with rfl | rfl | error
    · exact apart.1 rfl
    · exact apart.2 rfl
    · exact silent k error
  have stays : ∀ m ∈ b.1.listeners, m ≠ l → m ∈ t.1.listeners → (∃ c : Callback, m.name = id ++ c.suffix) →
      m ∈ (invoke parse payload l.callback (e, t.2)).1.1.listeners := by
    rintro m old ne still ⟨c, named⟩
    refine invoke_keeps payload (kept m still fun same => ne (key_inj old there same)) ?_
    rintro j own complete
    obtain ⟨id', length', -, sameId⟩ := wired.named l there
    rw [named, sameId j own complete]
    exact name_ne_id c (length.trans length'.symm)
  rw [called]
  refine ⟨?_, now.chunkIs, ?_, now.endIs, fun m still => ?_, ?_, now.running⟩
  · exact stays onChunk h.chunk (Ne.symm apart.1) now.chunk ⟨.next k, h.chunkIs.1⟩
  · exact stays onEnd h.end_ (Ne.symm apart.2) now.end_ ⟨.complete k id, h.endIs.1⟩
  · exact now.only m (fewer m (invoke_listeners payload l.callback (e, t.2) still))
  · rw [invoke_observer payload (e, t.2) observer]
    exact now.observer

/-- Nobody is told of a failure by a message. -/
theorem Wired.silent (wired : Wired n b) (length : data.id.length = n)
    (there : l ∈ b.1.listenersOf data.event) (j : Nat) :
    l.callback ≠ .error j := by
  intro error
  have suffixes := (wired.heard length there).1
  rw [error] at suffixes
  simp only [Chunk.event, Callback.suffix, String.append_right_inj] at suffixes
  cases status : data.status <;> simp [status] at suffixes

/-- Messages of other transfers, and START, leave the observer attached. -/
theorem Attached.unheard (parse : String → Option V) (wired : Wired n b) (length : id.length = n)
    (h : Attached id k onChunk onEnd o b) (dataLength : data.id.length = n)
    (other : data.id ≠ id ∨ data.status = .START) :
    Attached id k onChunk onEnd o (streamListener parse data b) := by
  have lengths : data.id.length = id.length := dataLength.trans length.symm
  rw [streamListener_eq]
  refine emit_keeps h fun l there => ?_
  refine h.other data.payload wired length (mem_listenersOf.1 there).1 ⟨?_, ?_⟩
    (wired.silent dataLength there)
  · rintro rfl
    have named := (mem_listenersOf.1 there).2
    rw [h.chunkIs.1] at named
    obtain ⟨same, suffix⟩ := name_inj lengths.symm named
    rcases other with apart | start
    · exact apart same.symm
    · simp [start] at suffix
  · rintro rfl
    have named := (mem_listenersOf.1 there).2
    rw [h.endIs.1] at named
    obtain ⟨same, suffix⟩ := name_inj lengths.symm named
    rcases other with apart | start
    · exact apart same.symm
    · simp [start] at suffix

/-- A CHUNK of its own. -/
theorem Attached.chunkHeard (parse : String → Option V) (wired : Wired n b) (length : id.length = n)
    (h : Attached id k onChunk onEnd o b) (own : data.id = id) (status : data.status = .CHUNK) :
    Attached id k onChunk onEnd (tell parse o data) (streamListener parse data b) := by
  have dataLength : data.id.length = n := by rw [own, length]
  have payload : data.payload = .data data.data := by simp [Chunk.payload, status]
  have mine : onChunk ∈ b.1.listenersOf data.event :=
    mem_listenersOf.2 ⟨h.chunk, by rw [h.chunkIs.1]; simp [Chunk.event, status, own]⟩
  have next : ∀ l ∈ b.1.listenersOf data.event, ∃ j, l.callback = .next j := by
    intro l there
    have suffixes := (wired.heard dataLength there).1
    simp only [Chunk.event, status, String.append_right_inj] at suffixes
    cases kind : l.callback <;> simp [kind, Callback.suffix] at suffixes
    exact ⟨_, rfl⟩
  have others : ∀ l ∈ b.1.listenersOf data.event, l ≠ onChunk → ∀ {told : Observer V} (t : Bridge V M),
      Attached id k onChunk onEnd told t →
        Attached id k onChunk onEnd told (call (invoke parse data.payload) t l).1 := by
    intro l there apart told t
    refine h.other data.payload wired length (mem_listenersOf.1 there).1 ⟨apart, ?_⟩
      (wired.silent dataLength there) t
    rintro rfl
    obtain ⟨j, kind⟩ := next l there
    simp [h.endIs.2] at kind
  have mineCalled : ∀ t : Bridge V M,
    call (invoke parse data.payload) t onChunk = invoke parse data.payload (.next k) t := by
    intro t
    simp [call, h.chunkIs]
  rw [streamListener_eq]
  cases parsed : parse data.data with
  | none =>
    -- Every listener throws on this CHUNK.
    have same : tell parse o data = o := by simp [tell, status, parsed]
    rw [same]
    refine emit_keeps h fun l there t now => ?_
    by_cases me : l = onChunk
    · subst me
      rw [mineCalled, payload]
      simpa [invoke, parsed] using now
    · exact others l there me t now
  | some v =>
    have more : tell parse o data = o.next v := by simp [tell, status, parsed]
    rw [more]
    refine emit_hits mine h (fun l there t => ?_)
      (fun l there apart t now => others l there apart t now) (fun t now => ?_)
      (fun l there apart t now => others l there apart t now)
    · obtain ⟨j, kind⟩ := next l there
      simp [call, kind, payload, invoke, parsed]
    · rw [mineCalled, payload]
      simp only [invoke, parsed]
      refine ⟨now.chunk, now.chunkIs, now.end_, now.endIs, now.only, ?_, ?_⟩
      · simp [tellObserver, now.observer]
      · simp [Observer.next, now.running]

/-- Its END. -/
theorem Attached.endHeard (parse : String → Option V) (wired : Wired n b) (length : id.length = n)
    (h : Attached id k onChunk onEnd o b) (own : data.id = id) (status : data.status = .END) :
    (streamListener parse data b).2.observers[k]? = some (o.finish .completed) := by
  have dataLength : data.id.length = n := by rw [own, length]
  have ended : (o.finish .completed).outcome ≠ none := by simp [Observer.finish, h.running]
  have mine : onEnd ∈ b.1.listenersOf data.event :=
    mem_listenersOf.2 ⟨h.end_, by rw [h.endIs.1]; simp [Chunk.event, status, own]⟩
  have complete : ∀ l ∈ b.1.listenersOf data.event, ∃ j own, l.callback = .complete j own := by
    intro l there
    have suffixes := (wired.heard dataLength there).1
    simp only [Chunk.event, status, String.append_right_inj] at suffixes
    cases kind : l.callback <;> simp [kind, Callback.suffix] at suffixes
    exact ⟨_, _, rfl⟩
  rw [streamListener_eq]
  refine emit_hits (Q := fun t => t.2.observers[k]? = some (o.finish .completed)) mine h (fun l there t => ?_)
    (fun l there apart t now => ?_) (fun t now => ?_) (fun l there _ t now => call_finished _ _ now ended)
  · obtain ⟨j, own, kind⟩ := complete l there
    simp [call, kind, invoke]
  · refine h.other data.payload wired length (mem_listenersOf.1 there).1 ⟨?_, apart⟩
      (wired.silent dataLength there) t now
    rintro rfl
    obtain ⟨j, own, kind⟩ := complete l there
    simp [h.chunkIs.2.1] at kind
  · obtain ⟨e, called, -, -⟩ := call_eq (invoke parse data.payload) t onEnd
    rw [called, h.endIs.2]
    simp [invoke, tellObserver, now.observer]

/-! ## A run -/

theorem tell_finished (parse : String → Option V) (ended : o.outcome ≠ none) (data : Chunk M) :
    tell parse o data = o := by
  unfold tell
  split
  · rfl
  · split
    · exact next_finished ended _
    · rfl
  · exact finish_finished ended _

theorem Follows.message (wired : Wired n b) (length : id.length = n) (h : Follows id k o b)
    (dataLength : data.id.length = n) :
    Follows id k (if data.id = id then tell parse o data else o) (streamListener parse data b) := by
  by_cases running : o.outcome = none
  · obtain ⟨onChunk, onEnd, attached⟩ := h.2 running
    by_cases own : data.id = id
    · rw [if_pos own]
      cases status : data.status with
      | START =>
        have same : tell parse o data = o := by simp [tell, status]
        have now := attached.unheard parse wired length dataLength (.inr status)
        rw [same]
        exact ⟨now.observer, fun _ => ⟨_, _, now⟩⟩
      | CHUNK =>
        have now := attached.chunkHeard parse wired length own status
        exact ⟨now.observer, fun _ => ⟨_, _, now⟩⟩
      | END =>
        have last : tell parse o data = o.finish .completed := by simp [tell, status]
        rw [last]
        refine ⟨attached.endHeard parse wired length own status, fun still => ?_⟩
        simp [Observer.finish, running] at still
    · rw [if_neg own]
      have now := attached.unheard parse wired length dataLength (.inl own)
      exact ⟨now.observer, fun _ => ⟨_, _, now⟩⟩
  · have same : (if data.id = id then tell parse o data else o) = o := by
      split
      · exact tell_finished parse running data
      · rfl
    rw [same, streamListener_eq]
    refine ⟨?_, fun still => absurd still running⟩
    exact emit_keeps (P := fun t : Bridge V M => t.2.observers[k]? = some o) h.1
      fun l _ t now => call_finished data.payload l now running

theorem invoke_lengths (payload : Payload M) (c : Callback) (t : Bridge V M) :
    (invoke parse payload c t).1.2.observers.length = t.2.observers.length := by
  obtain ⟨e, ρ⟩ := t
  cases c with
  | resolve p => cases payload <;> rfl
  | next j =>
    cases payload with
    | source source => rfl
    | data val => simp only [invoke]; split <;> simp [tellObserver]
  | error j => simp [invoke, tellObserver]
  | complete j own => simp [invoke, tellObserver]

/-- A promise is resolved by START, with the source of that transfer. -/
theorem invoke_promises (payload : Payload M) (c : Callback) (t : Bridge V M) {p : Nat} {source : Source M}
    (resolved : (invoke parse payload c t).1.2.promises[p]? = some (some source)) :
    t.2.promises[p]? = some (some source) ∨ payload = .source source := by
  obtain ⟨e, ρ⟩ := t
  cases c with
  | resolve q =>
    cases payload with
    | data val => exact .inl resolved
    | source handed =>
      simp only [invoke, tellPromise, List.getElem?_modify] at resolved
      cases at_ : ρ.promises[p]? with
      | none => simp [at_] at resolved
      | some settled =>
        cases settled with
        | some old => split at resolved <;> simp_all
        | none => split at resolved <;> simp_all
  | next j =>
    cases payload with
    | source source => exact .inl resolved
    | data val => simp only [invoke] at resolved; split at resolved <;> exact .inl resolved
  | error j => exact .inl resolved
  | complete j own => exact .inl resolved

theorem Wired.message (parse : String → Option V) (wired : Wired n b) (length : data.id.length = n) :
    Wired n (streamListener parse data b) := by
  have kept : (∀ l ∈ (streamListener parse data b).1.listeners, l ∈ b.1.listeners) ∧
      (streamListener parse data b).2.observers.length = b.2.observers.length ∧
      ∀ (p : Nat) (source : Source M), (streamListener parse data b).2.promises[p]? = some (some source) →
        source.id.length = n := by
    rw [streamListener_eq]
    refine emit_keeps (P := fun t : Bridge V M => (∀ l ∈ t.1.listeners, l ∈ b.1.listeners) ∧
      t.2.observers.length = b.2.observers.length ∧
      ∀ (p : Nat) (source : Source M), t.2.promises[p]? = some (some source) → source.id.length = n)
      ⟨fun _ there => there, rfl, wired.sources⟩ ?_
    rintro l - t ⟨listeners, observers, sources⟩
    obtain ⟨e, called, -, -⟩ := call_eq (invoke parse data.payload) t l
    refine ⟨fun m still => listeners m (call_listeners _ t still), ?_, fun p source resolved => ?_⟩
    · rw [called, invoke_lengths, observers]
    · rw [called] at resolved
      rcases invoke_promises _ _ _ resolved with old | new
      · exact sources p source old
      · simp only [Chunk.payload] at new
        split at new
        · cases new; exact length
        · cases new
        · cases new
  obtain ⟨listeners, observers, sources⟩ := kept
  exact ⟨fun l there => wired.named l (listeners l there),
    fun l there j mine => observers ▸ wired.known l (listeners l there) j mine, sources⟩

/-- A registration for a transfer. -/
theorem Wired.add {e : EventEmitter String Callback} {ρ : Consumers V M}
    (wired : Wired n (e, ρ)) {own : String} (length : own.length = n) (once : Bool) (c : Callback)
    (known : ∀ k, c.observer = some k → k < ρ.observers.length)
    (mine : ∀ k id, c = .complete k id → id = own) : Wired n (e.add once (own ++ c.suffix) c, ρ) := by
  refine ⟨fun l there => ?_, fun l there => ?_, wired.sources⟩
  · rcases mem_add.1 there with old | rfl
    · exact wired.named l old
    · exact ⟨own, length, rfl, mine⟩
  · rcases mem_add.1 there with old | rfl
    · exact wired.known l old
    · exact known

theorem Wired.subscribe (wired : Wired n b) (length : id.length = n) : Wired n (subscribe id b) := by
  have more : Wired n (b.1, { b.2 with observers := b.2.observers ++ [{}] }) := by
    refine ⟨wired.named, fun l there j mine => ?_, wired.sources⟩
    have less := wired.known l there j mine
    simp only [List.length_append, List.length_singleton]
    omega
  have known : ∀ c : Callback, c.observer = some b.2.observers.length →
      ∀ j, c.observer = some j → j < (b.2.observers ++ [({} : Observer V)]).length := by
    intro c mine j same
    rw [mine, Option.some.injEq] at same
    simp [← same]
  have chunk := more.add length false (.next b.2.observers.length) (known _ rfl)
    (fun _ _ same => by cases same)
  have error := chunk.add length true (.error b.2.observers.length) (known _ rfl)
    (fun _ _ same => by cases same)
  exact error.add length true (.complete b.2.observers.length id) (known _ rfl)
    (fun _ _ same => by cases same; rfl)

theorem Wired.step {a : Act M} (wired : Wired n b) (length : ∀ id, a.id? = some id → id.length = n)
    (moved : step parse b a = some b') : Wired n b' := by
  cases a with
  | await_ transferId =>
    cases moved
    have more : Wired n (b.1, { b.2 with promises := b.2.promises ++ [none] }) := by
      refine ⟨wired.named, wired.known, fun p source resolved => ?_⟩
      rw [List.getElem?_append] at resolved
      split at resolved
      · exact wired.sources p source resolved
      · simp only [List.getElem?_singleton] at resolved
        split at resolved <;> cases resolved
    exact more.add (length transferId rfl) true (.resolve b.2.promises.length) (fun _ same => by cases same)
      (fun _ _ same => by cases same)
  | message data => cases moved; exact wired.message parse (length data.id rfl)
  | iterate p =>
    obtain ⟨source, opened, rfl⟩ := Option.map_eq_some_iff.1 moved
    exact wired.subscribe (wired.sources p source (Option.join_eq_some_iff.1 opened))

theorem wired_of_run {acts : List (Act M)} (lengths : ∀ a ∈ acts, ∀ id, a.id? = some id → id.length = n)
    (reached : run (RnFula.step parse) init acts = some b) : Wired n b := by
  refine run_invariant_acts ⟨?_, ?_, ?_⟩ (fun _ _ _ h => h.step) lengths reached
  · exact fun l there => absurd there List.not_mem_nil
  · exact fun l there => absurd there List.not_mem_nil
  · exact fun p source resolved => by cases resolved

/-- Registrations of others. -/
theorem Follows.add {e : EventEmitter String Callback} {ρ : Consumers V M}
    (h : Follows id k o (e, ρ)) (once : Bool)
    (name : String) (c : Callback) (other : c.observer ≠ some k) : Follows id k o (e.add once name c, ρ) := by
  refine ⟨h.1, fun running => ?_⟩
  obtain ⟨onChunk, onEnd, attached⟩ := h.2 running
  refine ⟨onChunk, onEnd, mem_add.2 (.inl attached.chunk), attached.chunkIs, mem_add.2 (.inl attached.end_),
    attached.endIs, fun l there mine => ?_, attached.observer, running⟩
  rcases mem_add.1 there with old | rfl
  · exact attached.only l old mine
  · exact absurd mine other

theorem Follows.subscribe (h : Follows id k o b) (other : String) : Follows id k o (subscribe other b) := by
  have less : k < b.2.observers.length := (List.getElem?_eq_some_iff.1 h.1).1
  have more : Follows id k o (b.1, { b.2 with observers := b.2.observers ++ [{}] }) := by
    refine ⟨by rw [List.getElem?_append_left less]; exact h.1, fun running => ?_⟩
    obtain ⟨onChunk, onEnd, attached⟩ := h.2 running
    exact ⟨onChunk, onEnd, { attached with observer := by rw [List.getElem?_append_left less]; exact h.1 }⟩
  have apart : ∀ c : Callback, c.observer = some b.2.observers.length → c.observer ≠ some k := by
    intro c mine same
    rw [mine, Option.some.injEq] at same
    omega
  exact ((more.add false _ (.next _) (apart _ rfl)).add true _ (.error _) (apart _ rfl)).add true _
    (.complete _ other)
    (apart _ rfl)

/-- Whatever this end of the bridge does, the observer is told the messages of
its transfer. -/
theorem Follows.step {a : Act M} (wired : Wired n b) (length : id.length = n) (h : Follows id k o b)
    (actLength : ∀ id, a.id? = some id → id.length = n) (moved : step parse b a = some b') :
    Follows id k ((messagesOf id [a]).foldl (tell parse) o) b' := by
  cases a with
  | await_ transferId =>
    cases moved
    have more : Follows id k o (b.1, { b.2 with promises := b.2.promises ++ [none] }) :=
      ⟨h.1, fun running => (h.2 running).imp fun _ ⟨onEnd, attached⟩ => ⟨onEnd, { attached with }⟩⟩
    exact more.add true _ (.resolve b.2.promises.length) (fun same => by cases same)
  | message data =>
    cases moved
    have told : Follows id k (if data.id = id then tell parse o data else o) (streamListener parse data b) :=
      h.message wired length (actLength data.id rfl)
    by_cases own : data.id = id
    · simpa [messagesOf, own] using told
    · simpa [messagesOf, own] using told
  | iterate p =>
    obtain ⟨source, -, rfl⟩ := Option.map_eq_some_iff.1 moved
    exact h.subscribe source.id

theorem follows_subscribe (wired : Wired n b) (id : String) :
    Follows id b.2.observers.length {} (subscribe id b) := by
  refine ⟨by simp [subscribe], fun _ => ?_⟩
  refine ⟨_, _, mem_add.2 (.inl (mem_add.2 (.inl (mem_add.2 (.inr rfl))))), ⟨rfl, rfl, rfl⟩,
    mem_add.2 (.inr rfl), ⟨rfl, rfl⟩,
    fun l there mine => ?_, by simp [subscribe], rfl⟩
  rcases mem_add.1 there with there | rfl
  · rcases mem_add.1 there with there | rfl
    · rcases mem_add.1 there with old | rfl
      · exact absurd (wired.known l old _ mine) (Nat.lt_irrefl _)
      · exact .inl rfl
    · exact .inr (.inr rfl)
  · exact .inr (.inl rfl)

theorem messagesOf_append (id : String) (as bs : List (Act M)) :
    messagesOf id (as ++ bs) = messagesOf id as ++ messagesOf id bs :=
  List.filterMap_append

theorem Follows.run {acts : List (Act M)} (wired : Wired n b) (length : id.length = n) (h : Follows id k {} b)
    (lengths : ∀ a ∈ acts, ∀ id, a.id? = some id → id.length = n)
    (reached : run (RnFula.step parse) b acts = some b') :
    Follows id k ((messagesOf id acts).foldl (tell parse) {}) b' := by
  have all : (∀ a ∈ acts, ∀ id, a.id? = some id → id.length = n) →
      Wired n b' ∧ Follows id k ((messagesOf id acts).foldl (tell parse) {}) b' := by
    refine run_history (I := fun acts b' => (∀ a ∈ acts, ∀ id, a.id? = some id → id.length = n) →
      Wired n b' ∧ Follows id k ((messagesOf id acts).foldl (tell parse) {}) b')
      (fun _ => ⟨wired, h⟩) ?_ reached
    intro before a m t ih moved lengths
    obtain ⟨now, follows⟩ := ih fun a there => lengths a (by simp [there])
    have own := lengths a (by simp)
    refine ⟨now.step own moved, ?_⟩
    rw [messagesOf_append, List.foldl_append]
    exact follows.step now length own moved
  exact (all lengths).2

/-! ## In order -/

theorem InOrder.snoc {messages : List (Chunk M)} (h : InOrder (messages ++ [data])) :
    InOrder messages ∧ ∀ m ∈ messages, m.status ≠ .END := by
  obtain ⟨chunks, initial⟩ := h
  rw [List.map_append, List.map_singleton] at initial
  have short : messages.map (·.status) <+: .START :: List.replicate chunks .CHUNK := by
    refine List.prefix_of_prefix_length_le ((List.prefix_append _ _).trans initial)
      (List.prefix_append _ _) ?_
    have bound := initial.length_le
    simpa using bound
  refine ⟨⟨chunks, short.trans (List.prefix_append _ _)⟩, fun m member same => ?_⟩
  have there := short.subset (List.mem_map_of_mem member)
  simp [same] at there

theorem foldl_tell (parse : String → Option V) {messages : List (Chunk M)} (inOrder : InOrder messages) :
    messages.foldl (tell parse) {} = { values := (chunksOf messages).filterMap parse,
                                       outcome := if ∃ m ∈ messages, m.status = .END then some .completed else none } := by
  induction messages using List.reverseRecOn with
  | nil => simp [chunksOf]
  | append_singleton messages data ih =>
    obtain ⟨before, running⟩ := inOrder.snoc
    have notYet : ¬∃ m ∈ messages, m.status = .END := fun ⟨m, member, same⟩ => running m member same
    rw [List.foldl_append, ih before, if_neg notYet]
    have chunks : chunksOf (messages ++ [data]) = chunksOf messages ++ chunksOf [data] :=
      List.filterMap_append
    rw [chunks, List.filterMap_append]
    cases status : data.status with
    | START => simp [tell, status, chunksOf, notYet]
    | CHUNK =>
      cases parsed : parse data.data with
      | none => simp [tell, status, chunksOf, parsed, notYet]
      | some v => simp [tell, status, chunksOf, parsed, notYet, Observer.next]
    | END => simp [tell, status, chunksOf, Observer.finish]

theorem foldl_tell_start (parse : String → Option V) {messages : List (Chunk M)} (o : Observer V)
    (early : ∀ m ∈ messages, m.status = .START) : messages.foldl (tell parse) o = o := by
  induction messages with
  | nil => rfl
  | cons m messages ih =>
    have same : tell parse o m = o := by simp [tell, early m (by simp)]
    rw [List.foldl_cons, same]
    exact ih fun m' member => early m' (by simp [member])

/-- **Concurrent transfers do not mix**: a consumer that subscribes to the
source of a transfer after its START and before its first CHUNK or END is told
the CHUNKs of that transfer, and completed when its END has come. -/
theorem transfers_do_not_mix {before after : List (Act M)} {t : Bridge V M} {p : Nat} {source : Source M}
    (lengths : ∀ a ∈ before ++ after, ∀ id, a.id? = some id → id.length = n)
    (first : run (RnFula.step parse) init before = some b) (opened : b.2.promises[p]? = some (some source))
    (early : ∀ m ∈ messagesOf source.id before, m.status = .START)
    (inOrder : InOrder (messagesOf source.id (before ++ after)))
    (reached : run (RnFula.step parse) b (.iterate p :: after) = some t) :
    t.2.observers[b.2.observers.length]? = some
      { values := (chunksOf (messagesOf source.id (before ++ after))).filterMap parse,
        outcome := if ∃ m ∈ messagesOf source.id (before ++ after), m.status = .END then
          some .completed else none } := by
  have wired : Wired n b := wired_of_run (fun a there => lengths a (by simp [there])) first
  have length : source.id.length = n := wired.sources p source opened
  obtain ⟨subscribed, moved, rest⟩ := run_cons.1 reached
  have same : subscribed = subscribe source.id b := by
    simpa [RnFula.step, opened] using moved.symm
  subst same
  have told := ((follows_subscribe wired source.id).run (wired.subscribe length) length
    (fun a there => lengths a (by simp [there])) rest).1
  rw [told, ← foldl_tell parse inOrder, messagesOf_append, List.foldl_append, foldl_tell_start parse {} early]

/-- Two transfers, the other one ending first. -/
theorem transfers_do_not_mix_sample :
    ∃ b t : Bridge String Unit,
      run (RnFula.step some) init [.await_ "a", .await_ "b", .message ⟨"a", (), "", .START⟩,
        .message ⟨"b", (), "", .START⟩] =
        some b ∧
      run (RnFula.step some) b [.iterate 0, .iterate 1, .message ⟨"b", (), "B", .CHUNK⟩,
        .message ⟨"a", (), "A", .CHUNK⟩,
        .message ⟨"b", (), "", .END⟩, .message ⟨"a", (), "", .END⟩] = some t ∧
      t.2.observers[b.2.observers.length]? = some { values := ["A"], outcome := some .completed } :=
  ⟨_, _, rfl, rfl, @transfers_do_not_mix String Unit some _ 1
    [.await_ "a", .await_ "b", .message ⟨"a", (), "", .START⟩, .message ⟨"b", (), "", .START⟩]
    [.iterate 1, .message ⟨"b", (), "B", .CHUNK⟩, .message ⟨"a", (), "A", .CHUNK⟩,
      .message ⟨"b", (), "", .END⟩,
      .message ⟨"a", (), "", .END⟩] _ 0 ⟨"a", ()⟩ (by simp [Act.id?]; decide) rfl rfl
      (by decide) ⟨1, by decide⟩ rfl⟩

end Fula.RnFula
