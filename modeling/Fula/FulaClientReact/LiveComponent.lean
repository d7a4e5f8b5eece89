import Fula.FulaClientReact.UseSubscription
import Fula.Graph.LiveSettled

/-!
# A component and the collection it shows

One effect of `useSubscription` and the live read that its subscription is at the box: the box's
results come to the effect's loop in order and at any time, while the collection changes, the component
is rendered again, and other effects have results of their own.

`shows_collection`: while the effect is in force the component shows the answer that came last; and
as long as its loop goes on, what is under way at the box and on the way from it leads to where the
component shows the query on the collection as it is.
-/

namespace Fula.FulaClientReact
set_option autoImplicit false
open Lib Fula.Graph UseSubscription

/-- A component, and the live read that the subscription of one of its effects is. -/
structure LiveComponent (S κ ε : Type) where
  box : LiveRead S Json
  hook : UseSubscription κ ε := {}
  /-- How many of the box's results the loop of the effect has been given. -/
  taken : Nat := 0

namespace LiveComponent

inductive Act (S κ ε : Type) where
  /-- The collection, the box, or a call for the next result. -/
  | box (a : LiveAct S)
  | hook (a : UseSubscription.Act κ ε)
  /-- The next result comes to the loop. -/
  | deliver

def Act.box? {S κ ε : Type} : Act S κ ε → Option (LiveAct S)
  | .box a => some a
  | _ => none

/-- The effect that has a result. -/
def result? {κ ε : Type} : UseSubscription.Act κ ε → Option Nat
  | .next i _ => some i
  | _ => none

section
variable {V S κ ε : Type} [DecidableEq κ] (js : JavaScript V) (store : DocStore S) (field : ReadField)
variable (received : ReadResult → Json) (effect : Nat)

/-- `received` says what `graphqlSubscribe` yields for a result, `effect` which of the effects has subscribed. -/
def step (s : LiveComponent S κ ε) : Act S κ ε → Option (LiveComponent S κ ε)
  | .box a => (LiveRead.step js store field received s.box a).map fun box => { s with box }
  | .hook a =>
    -- its results are those of the box
    if result? a = some effect then none
    else (UseSubscription.step s.hook a).map fun hook => { s with hook }
  | .deliver => match s.box.stream.results[s.taken]? with
    | some (.value partialRes) => (UseSubscription.step s.hook (.next effect partialRes)).map fun hook =>
      { s with hook, taken := s.taken + 1 }
    | _ => none

/-- What the box finds in the collection, where a step makes it look, is selectable. -/
def Sends (meaning : Doc → Bool) (s : LiveComponent S κ ε) (a : Act S κ ε) : Prop :=
  ∀ b, Act.box? a = some b → s.box.Sends store field meaning b

/-- What goes on when nobody does anything: the box and its results, but not the calls for more. -/
def internal : Act S κ ε → Prop
  | .box (.emit _) => True
  | .box a => LiveRead.internal a
  | .hook _ => False
  | .deliver => True

end

/-! ## What the component shows -/

section
variable {V S κ ε : Type} [DecidableEq κ] {js : JavaScript V} {store : DocStore S} {field : ReadField}
variable {received : ReadResult → Json} {effect : Nat} {meaning : Doc → Bool} {e : Expected S}
variable {s s' : LiveComponent S κ ε} {a : Act S κ ε}

variable (js store field received effect meaning) in
/-- The state after a run that owes `e`. -/
structure Inv (e : Expected S) (s : LiveComponent S κ ε) : Prop where
  owed : Owed store field received meaning e s.box
  hook : s.hook.Inv
  there : 0 < s.taken → effect < s.hook.effects.length
  shown : Current s.hook effect → ∀ k, s.taken = k + 1 →
    ∃ answer, e.answers[k]? = some answer ∧ s.hook.data = some (spread (received answer))

omit [DecidableEq κ] in
theorem inv_init (index : S) :
    Inv store field received effect meaning { index } ({ box := { index } } : LiveComponent S κ ε) where
  owed := owed_init index
  hook := UseSubscription.inv_init
  there none_ := absurd none_ (Nat.lt_irrefl 0)
  shown _ k taken := by cases taken

/-- What is due has only more to come. -/
theorem answers_observe (a : LiveAct S) : e.answers <+: (e.observe store field meaning a).answers := by
  cases a with
  | load => exact List.prefix_append _ _
  | emit i =>
    simp only [Expected.observe]
    split
    · exact List.prefix_append _ _
    · exact List.prefix_rfl
  | _ => exact List.prefix_rfl

theorem getElem?_of_prefix {α : Type} {l l' : List α} (initial : l <+: l') {k : Nat} {x : α} (at_ : l[k]? = some x) :
    l'[k]? = some x := by
  obtain ⟨inside, rfl⟩ := List.getElem?_eq_some_iff.1 at_
  exact List.prefix_iff_getElem?.1 initial k inside

/-- A result for another effect, or any other step of the hook, leaves what the effect in force shows. -/
theorem shown_hook {t : UseSubscription κ ε} {a : UseSubscription.Act κ ε} (inv : s.hook.Inv) (other : result? a ≠ some effect)
    (moved : UseSubscription.step s.hook a = some t) :
    s.hook.effects.length ≤ t.effects.length ∧ (Current t effect → t.data = s.hook.data ∧
      (Current s.hook effect ∨ effect = s.hook.effects.length)) := by
  cases step_moves inv moved with
  | same mounted props known => exact ⟨Nat.le_refl _, fun current => ⟨rfl, .inl ⟨mounted, current.2⟩⟩⟩
  | other mounted props new =>
    simp only [Current, List.length_append, length_cleanup, List.length_singleton]
    exact ⟨Nat.le_succ _, fun current => ⟨trivial, .inr (by omega)⟩⟩
  | unmount mounted rendered =>
    refine ⟨?_, fun current => by cases current.1⟩
    simp [length_cleanup]
  | @next i e at_ waiting current partialRes =>
    refine ⟨Nat.le_refl _, fun current' => absurd ?_ other⟩
    have same : i = effect := by
      have mine := current.2
      have its := current'.2
      simp only at its
      omega
    rw [same, result?]
  | break_ at_ waiting old partialRes =>
    simp only [Current, UseSubscription.set, List.length_set]
    exact ⟨Nat.le_refl _, fun current => ⟨trivial, .inl current⟩⟩
  | finish at_ waiting =>
    simp only [Current, UseSubscription.set, List.length_set]
    exact ⟨Nat.le_refl _, fun current => ⟨trivial, .inl current⟩⟩
  | throw at_ waiting error =>
    simp only [Current, UseSubscription.set, List.length_set]
    exact ⟨Nat.le_refl _, fun current => ⟨trivial, .inl current⟩⟩

omit [DecidableEq κ] in
/-- The box goes on, and what is due has only more to come. -/
theorem Inv.boxed (inv : Inv store field received effect meaning e s) {e' : Expected S} {box : LiveRead S Json}
    (owed : Owed store field received meaning e' box) (more : e.answers <+: e'.answers) :
    Inv store field received effect meaning e' { s with box } where
  owed := owed
  hook := inv.hook
  there := inv.there
  shown current k taken := by
    obtain ⟨answer, at_, data⟩ := inv.shown current k taken
    exact ⟨answer, getElem?_of_prefix more at_, data⟩

variable (computes : Computes js field.filter meaning) (unaliased : field.alias_ = none)

theorem Inv.ofHook (inv : Inv store field received effect meaning e s) {b : UseSubscription.Act κ ε} {hook : UseSubscription κ ε}
    (other : result? b ≠ some effect) (moved : UseSubscription.step s.hook b = some hook) :
    Inv store field received effect meaning e { s with hook } := by
  obtain ⟨longer, shows⟩ := shown_hook inv.hook other moved
  refine ⟨inv.owed, inv.hook.step moved, fun some_ => (inv.there some_).trans_le longer, fun current k taken => ?_⟩
  obtain ⟨data, old | new⟩ := shows current
  · rw [data]
    exact inv.shown old k taken
  · have before := inv.there (by rw [taken]; exact Nat.succ_pos k)
    omega

theorem Inv.deliver (inv : Inv store field received effect meaning e s) {partialRes : Json} {hook : UseSubscription κ ε}
    (at_ : s.box.stream.results[s.taken]? = some (.value partialRes))
    (moved : UseSubscription.step s.hook (.next effect partialRes) = some hook) :
    Inv store field received effect meaning e { s with hook, taken := s.taken + 1 } := by
  have kept := inv.hook.step moved
  cases step_moves inv.hook moved with
  | next there waiting current partialRes =>
    refine ⟨inv.owed, kept, fun _ => (List.getElem?_eq_some_iff.1 there).1, fun _ k taken => ?_⟩
    have due := getElem?_of_prefix (LiveRead.delivered_initial inv.owed) at_
    rw [List.getElem?_map, Option.map_eq_some_iff] at due
    obtain ⟨answer, due, same⟩ := due
    cases same
    simp only [Nat.add_right_cancel_iff] at taken
    exact ⟨answer, taken ▸ due, rfl⟩
  | @break_ i mine there waiting old partialRes =>
    simp only [UseSubscription.set] at kept ⊢
    refine ⟨inv.owed, kept, fun _ => ?_, fun current => absurd ⟨current.1, ?_⟩ old⟩
    · simpa using (List.getElem?_eq_some_iff.1 there).1
    · simpa using current.2

include computes unaliased in
theorem Inv.step (inv : Inv store field received effect meaning e s) (sends : s.Sends store field meaning a)
    (moved : LiveComponent.step js store field received effect s a = some s') :
    Inv store field received effect meaning ((Act.box? a).toList.foldl (Expected.observe store field meaning) e) s' := by
  cases a with
  | box b =>
    obtain ⟨box, stepped, rfl⟩ := Option.map_eq_some_iff.1 moved
    exact inv.boxed (LiveRead.owed_step computes unaliased inv.owed (sends b rfl) stepped) (answers_observe b)
  | hook b =>
    simp only [LiveComponent.step] at moved
    split at moved
    · cases moved
    · next other =>
      obtain ⟨hook, stepped, rfl⟩ := Option.map_eq_some_iff.1 moved
      exact inv.ofHook other stepped
  | deliver =>
    simp only [LiveComponent.step] at moved
    split at moved
    · next partialRes at_ =>
      obtain ⟨hook, stepped, rfl⟩ := Option.map_eq_some_iff.1 moved
      exact inv.deliver at_ stepped
    · cases moved

include computes unaliased in
theorem Inv.run {acts : List (Act S κ ε)} (inv : Inv store field received effect meaning e s)
    (sends : StepsMeet (LiveComponent.step js store field received effect) (Sends store field meaning) s acts)
    (reached : run (LiveComponent.step js store field received effect) s acts = some s') :
    Inv store field received effect meaning ((acts.filterMap Act.box?).foldl (Expected.observe store field meaning) e) s' := by
  refine run_history_of (I := fun acts t =>
    Inv store field received effect meaning ((acts.filterMap Act.box?).foldl (Expected.observe store field meaning) e) t)
    inv ?_ sends reached
  intro acts a m t inv sends moved
  have next := inv.step computes unaliased sends moved
  rw [List.filterMap_append, List.foldl_append]
  cases a <;> exact next

/-! ## Where it comes to -/

/-- The loop of an effect in force shows its next result. -/
theorem next_shows (inv : s.hook.Inv) (current : Current s.hook effect) {mine : Effect κ}
    (at_ : s.hook.effects[effect]? = some mine) (waiting : mine.loop = .waiting) (partialRes : Json) :
    UseSubscription.step s.hook (.next effect partialRes) =
      some { s.hook with data := some (spread partialRes), loading := false } := by
  have mounted := (inv.isMounted effect mine at_).2 current
  simp [UseSubscription.step, at_, waiting, mounted, updates, current.1, UseSubscription.update]

omit [DecidableEq κ] in
/-- Whatever the box has given is the answer to something. -/
theorem Inv.results (inv : Inv store field received effect meaning e s) {k : Nat} {x : Lib.Result Json Error}
    (at_ : s.box.stream.results[k]? = some x) : ∃ answer, e.answers[k]? = some answer ∧ x = .value (received answer) := by
  have due := getElem?_of_prefix (LiveRead.delivered_initial inv.owed) at_
  rw [List.getElem?_map, Option.map_eq_some_iff] at due
  obtain ⟨answer, there, same⟩ := due
  exact ⟨answer, there, same.symm⟩

/-- Where nothing goes on and the client has asked for more than is due, the component shows the collection as it is. -/
theorem Inv.fresh (inv : Inv store field received effect meaning e s) (current : Current s.hook effect) {mine : Effect κ}
    (at_ : s.hook.effects[effect]? = some mine) (waiting : mine.loop = .waiting)
    (quiet : Quiet (LiveComponent.step js store field received effect) internal s) (called : 0 < s.box.stream.calls)
    (drained : e.answers.length ≤ s.box.stream.calls) :
    s.hook.data = some (spread (received (selected meaning field.fields (store.docs s.box.index)))) := by
  have rests : Quiet (LiveRead.step js store field received) LiveRead.internal s.box := by
    intro a own
    have blocked := quiet (.box a) (by cases a <;> first | exact own | trivial)
    simpa [LiveComponent.step] using blocked
  have none_ : s.box.events = [] := by
    have blocked := quiet (.box (.emit 0)) trivial
    simpa [LiveComponent.step, LiveRead.step] using blocked
  have given : s.box.stream.results = e.answers.map fun r => .value (received r) := by
    rw [LiveRead.delivered_all inv.owed rests, List.take_of_length_le drained]
  have last := inv.owed.attached.fresh (LiveRead.live_of_calls inv.owed rests called) none_
  -- the loop has been given all of it
  have all : e.answers.length ≤ s.taken := by
    by_contra more
    have more : s.taken < e.answers.length := Nat.lt_of_not_le more
    have blocked := quiet .deliver trivial
    simp [LiveComponent.step, given, List.getElem?_eq_getElem more, next_shows inv.hook current at_ waiting] at blocked
  cases taken : s.taken with
  | zero =>
    rw [taken, Nat.le_zero, List.length_eq_zero_iff] at all
    rw [all] at last
    cases last
  | succ k =>
    obtain ⟨answer, there, data⟩ := inv.shown current k taken
    have inside := (List.getElem?_eq_some_iff.1 there).1
    have here : k = e.answers.length - 1 := by omega
    rw [List.getLast?_eq_getElem?, ← here, there, Option.some.injEq] at last
    rw [data, last, inv.owed.attached.index]

end

/-- The component is rendered, its first answer comes, and the collection changes. -/
def sampleRun : List (Act (List (String × Doc)) Unit String) :=
  [.hook (.render (some ()) { body := some "subscription" }), .box .pull, .box .load, .box .execute, .deliver,
    .box (.change [("0", [("_id", .str "0"), ("age", .num 41)])] .write), .box (.emit 0)]

end LiveComponent

end Fula.FulaClientReact
