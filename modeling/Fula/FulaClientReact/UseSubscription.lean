import Fula.FulaClientReact.UseLazyQuery

/-!
# `useSubscription` (`fula-client-react/src/hooks/UseSubscription.ts`)

One component that uses the hook, from its first render until it is unmounted. The effect depends on
the client alone: whenever a render brings another client, the effect of the client before is cleaned
up and a new one makes a subscription of its own. The loops of the old ones are not stopped by that.
Each awaits its next result, and only then sees `isMounted`. Their failures it does not guard at all.

* `shown_eq`: what the hook shows is the last of the results that came to the effect in force, and the
  last failure of any effect.
* `left_behind`: what becomes of the subscriptions of the others.
* `follows_iff`: in which runs the subscription in force is for what the component has rendered last.
-/

namespace Fula.FulaClientReact
set_option autoImplicit false
open Lib

/-- What the component passes to the hook, as far as it reads it: `query.loc?.source?.body`,
`query?.definitions?.[0]?.name?.value` and `options?.variables`. -/
structure Props where
  body : Option String
  name : Option String := none
  variableValues : Option Json := none

/-- Where the async function of an effect is. -/
inductive Loop where
  /-- It awaits the next result. -/
  | waiting
  | done
deriving DecidableEq

structure Effect (κ : Type) where
  fula : Option κ
  props : Props
  isMounted : Bool := true
  loop : Loop

variable {κ ε : Type}

/-- `fula && query.loc?.source?.body` -/
def Effect.subscribes (fula : Option κ) (props : Props) : Bool := fula.isSome && props.body.any (· ≠ "")

/-- The effect runs up to its first `await`. -/
def Effect.begin (fula : Option κ) (props : Props) : Effect κ where
  fula := fula
  props := props
  loop := if subscribes fula props then .waiting else .done

/-- The setters of the hook's state. -/
inductive Update (ε : Type) where
  | data (data : List (String × Json))
  | error (error : ε)
  | loading (loading : Bool)

structure UseSubscription (κ ε : Type) where
  data : Option (List (String × Json)) := none
  error : Option ε := none
  loading : Bool := false
  /-- What the latest render has brought. -/
  rendered : Option (Option κ × Props) := none
  effects : List (Effect κ) := []
  unmounted : Bool := false

namespace UseSubscription

inductive Act (κ ε : Type) where
  /-- A render has been committed, with a client from the context or without one. -/
  | render (fula : Option κ) (props : Props)
  | unmount
  /-- The subscription of an effect has a result. -/
  | next (i : Nat) (partialRes : Json)
  /-- It has come to its end. -/
  | finish (i : Nat)
  /-- It throws, or could not be made. -/
  | throw (i : Nat) (e : ε)

def update (s : UseSubscription κ ε) : Update ε → UseSubscription κ ε
  | .data data => { s with data := some data }
  | .error error => { s with error := some error }
  | .loading loading => { s with loading := loading }

/-- Setters that are called one after the other; those of a component that is gone do nothing. -/
def updates (s : UseSubscription κ ε) (us : List (Update ε)) : UseSubscription κ ε :=
  if s.unmounted then s else us.foldl update s

/-- The clean-up function of the latest effect. -/
def cleanup (effects : List (Effect κ)) : List (Effect κ) :=
  effects.modify (effects.length - 1) fun e => { e with isMounted := false }

def set (s : UseSubscription κ ε) (i : Nat) (e : Effect κ) : UseSubscription κ ε :=
  { s with effects := s.effects.set i e }

def step [DecidableEq κ] (s : UseSubscription κ ε) : Act κ ε → Option (UseSubscription κ ε)
  | .render fula props =>
    if s.unmounted then none
    else if s.effects.getLast?.map (·.fula) = some fula then some { s with rendered := some (fula, props) }
    else some { s with rendered := some (fula, props), effects := cleanup s.effects ++ [.begin fula props] }
  | .unmount =>
    if s.unmounted || s.rendered.isNone then none
    else some { s with unmounted := true, effects := cleanup s.effects }
  | .next i partialRes => match s.effects[i]? with
    | some e => match e.loop with
      | .waiting =>
        if e.isMounted then some (s.updates [.loading true, .data (spread partialRes), .loading false])
        else some (s.set i { e with loop := .done })
      | .done => none
    | none => none
  | .finish i => match s.effects[i]? with
    | some e => match e.loop with
      | .waiting => some (s.set i { e with loop := .done })
      | .done => none
    | none => none
  | .throw i error => match s.effects[i]? with
    | some e => match e.loop with
      | .waiting => some ((s.updates [.error error]).set i { e with loop := .done })
      | .done => none
    | none => none

/-! ## What a step does -/

section
variable {s s' t : UseSubscription κ ε} {a : Act κ ε} {i : Nat}

/-- The effect in force. -/
def Current (s : UseSubscription κ ε) (i : Nat) : Prop := s.unmounted = false ∧ i + 1 = s.effects.length

instance (s : UseSubscription κ ε) (i : Nat) : Decidable (Current s i) := inferInstanceAs (Decidable (_ ∧ _))

/-- `isMounted` holds in the effect in force and in no other, and nothing is loading. -/
structure Inv (s : UseSubscription κ ε) : Prop where
  isMounted : ∀ i e, s.effects[i]? = some e → (e.isMounted = true ↔ Current s i)
  loading : s.loading = false
  rendered : s.unmounted = true → s.rendered.isSome
  latest : s.rendered.map (·.1) = s.effects.getLast?.map (·.fula)

theorem inv_init : Inv ({} : UseSubscription κ ε) := ⟨by simp, rfl, by simp, rfl⟩

/-- The states that a step of each kind leads to. -/
inductive Moves (s : UseSubscription κ ε) : Act κ ε → UseSubscription κ ε → Prop
  | same (mounted : s.unmounted = false) {fula : Option κ} (props : Props) (known : s.effects.getLast?.map (·.fula) = some fula) :
      Moves s (.render fula props) { s with rendered := some (fula, props) }
  | other (mounted : s.unmounted = false) {fula : Option κ} (props : Props) (new : s.effects.getLast?.map (·.fula) ≠ some fula) :
      Moves s (.render fula props)
        { s with rendered := some (fula, props), effects := cleanup s.effects ++ [.begin fula props] }
  | unmount (mounted : s.unmounted = false) (rendered : s.rendered.isSome) :
      Moves s .unmount { s with unmounted := true, effects := cleanup s.effects }
  | next {i : Nat} {e : Effect κ} (at_ : s.effects[i]? = some e) (waiting : e.loop = .waiting) (current : Current s i)
      (partialRes : Json) : Moves s (.next i partialRes) { s with data := some (spread partialRes), loading := false }
  | break_ {i : Nat} {e : Effect κ} (at_ : s.effects[i]? = some e) (waiting : e.loop = .waiting) (old : ¬Current s i)
      (partialRes : Json) : Moves s (.next i partialRes) (s.set i { e with loop := .done })
  | finish {i : Nat} {e : Effect κ} (at_ : s.effects[i]? = some e) (waiting : e.loop = .waiting) :
      Moves s (.finish i) (s.set i { e with loop := .done })
  | throw {i : Nat} {e : Effect κ} (at_ : s.effects[i]? = some e) (waiting : e.loop = .waiting) (error : ε) :
      Moves s (.throw i error) ({ s with error := if s.unmounted then s.error else some error }.set i { e with loop := .done })

theorem step_moves [DecidableEq κ] (h : Inv s) (moved : step s a = some s') : Moves s a s' := by
  cases a with
  | render fula props =>
    simp only [step] at moved
    split at moved
    · cases moved
    · next mounted =>
      have mounted : s.unmounted = false := by simpa using mounted
      split at moved
      · next known => cases moved; exact .same mounted props known
      · next new => cases moved; exact .other mounted props new
  | unmount =>
    simp only [step] at moved
    split at moved
    · cases moved
    · next here =>
      simp only [Bool.or_eq_true, not_or, Bool.not_eq_true, Option.isNone_eq_false_iff] at here
      cases moved
      exact .unmount here.1 here.2
  | next i partialRes =>
    simp only [step] at moved
    split at moved
    · next e at_ =>
      split at moved
      · next waiting =>
        split at moved
        · next mounted =>
          have current := (h.isMounted i e at_).1 mounted
          cases moved
          rw [updates, if_neg (Bool.not_eq_true _ ▸ current.1)]
          exact .next at_ waiting current partialRes
        · next unmounted =>
          cases moved
          exact .break_ at_ waiting (fun current => unmounted ((h.isMounted i e at_).2 current)) partialRes
      · cases moved
    · cases moved
  | finish i =>
    simp only [step] at moved
    split at moved
    · next e at_ =>
      split at moved
      · next waiting => cases moved; exact .finish at_ waiting
      · cases moved
    · cases moved
  | throw i error =>
    simp only [step] at moved
    split at moved
    · next e at_ =>
      split at moved
      · next waiting =>
        cases moved
        have one : s.updates [.error error] = { s with error := if s.unmounted then s.error else some error } := by
          unfold updates
          split
          · rfl
          · rfl
        rw [one]
        exact .throw at_ waiting error
      · cases moved
    · cases moved

theorem length_cleanup (effects : List (Effect κ)) : (cleanup effects).length = effects.length := List.length_modify ..

theorem getElem?_cleanup {effects : List (Effect κ)} {e : Effect κ} (at_ : (cleanup effects)[i]? = some e) :
    ∃ e', effects[i]? = some e' ∧ e = { e' with isMounted := if i + 1 = effects.length then false else e'.isMounted } := by
  rw [cleanup, List.getElem?_modify, Option.map_eq_map, Option.map_eq_some_iff] at at_
  obtain ⟨e', before, rfl⟩ := at_
  have inside := (List.getElem?_eq_some_iff.1 before).1
  refine ⟨e', before, ?_⟩
  by_cases last : i + 1 = effects.length
  · have here : effects.length - 1 = i := by omega
    rw [if_pos here, if_pos last]
  · have elsewhere : effects.length - 1 ≠ i := by omega
    rw [if_neg elsewhere, if_neg last]

/-- One effect has got on with its loop. -/
theorem Inv.set {e : Effect κ} (h : Inv s) (at_ : s.effects[i]? = some e) (loop : Loop) (error : Option ε) :
    Inv ({ s with error := error }.set i { e with loop := loop }) := by
  have fulas : (s.effects.set i { e with loop := loop }).map (·.fula) = s.effects.map (·.fula) := by
    apply List.ext_getElem?
    intro j
    simp only [List.getElem?_map]
    by_cases same : i = j
    · subst same
      rw [List.getElem?_set_self (List.getElem?_eq_some_iff.1 at_).1, at_]
      rfl
    · rw [List.getElem?_set_ne same]
  refine ⟨fun j e' there => ?_, h.loading, h.rendered, ?_⟩
  · simp only [UseSubscription.set, Current, List.length_set] at there ⊢
    by_cases same : i = j
    · subst same
      rw [List.getElem?_set_self (List.getElem?_eq_some_iff.1 at_).1, Option.some.injEq] at there
      subst there
      exact h.isMounted i e at_
    · rw [List.getElem?_set_ne same] at there
      exact h.isMounted j e' there
  · rw [← List.getLast?_map]
    simp only [UseSubscription.set]
    rw [fulas, List.getLast?_map]
    exact h.latest

theorem Inv.step [DecidableEq κ] (h : Inv s) (moved : UseSubscription.step s a = some s') : Inv s' := by
  cases step_moves h moved with
  | same mounted props known => exact ⟨h.isMounted, h.loading, by simp, known.symm⟩
  | @other mounted fula props new =>
    refine ⟨fun j e there => ?_, h.loading, by simp, by simp [Effect.begin]⟩
    simp only [Current, mounted, List.length_append, length_cleanup, List.length_singleton, Nat.add_right_cancel_iff,
      true_and]
    rcases Nat.lt_or_ge j s.effects.length with inside | outside
    · rw [List.getElem?_append_left (by rwa [length_cleanup])] at there
      obtain ⟨e', before, rfl⟩ := getElem?_cleanup there
      have old := h.isMounted j e' before
      simp only [Current, mounted, true_and] at old
      simp only [Bool.if_false_left, Bool.and_eq_true, Bool.not_eq_eq_eq_not, Bool.not_true, decide_eq_false_iff_not, old]
      omega
    · rw [List.getElem?_append_right (by rwa [length_cleanup]), length_cleanup] at there
      rw [List.getElem?_singleton, Option.ite_none_right_eq_some] at there
      obtain ⟨here, same⟩ := there
      cases same
      exact iff_of_true rfl (by omega)
  | unmount mounted rendered =>
    refine ⟨fun j e there => ?_, h.loading, fun _ => rendered, ?_⟩
    · obtain ⟨e', before, rfl⟩ := getElem?_cleanup there
      have old := h.isMounted j e' before
      simp only [Current, mounted, true_and] at old
      simp [Current, old]
    · simp only [List.getLast?_eq_getElem?, length_cleanup]
      rw [cleanup, List.getElem?_modify]
      have latest := h.latest
      rw [List.getLast?_eq_getElem?] at latest
      simp [latest, Function.comp_def]
  | next at_ waiting current partialRes => exact ⟨h.isMounted, rfl, h.rendered, h.latest⟩
  | break_ at_ waiting old partialRes => exact h.set at_ .done s.error
  | finish at_ waiting => exact h.set at_ .done s.error
  | throw at_ waiting error => exact h.set at_ .done _

theorem inv_run [DecidableEq κ] {acts : List (Act κ ε)} (reached : run step ({} : UseSubscription κ ε) acts = some s) : Inv s :=
  run_invariant inv_init (fun _ _ _ h moved => h.step moved) reached

end

/-! ## What is shown in a run -/

/-- What the component gets to see. -/
inductive Shown (ε : Type) where
  /-- A result of effect `i`. -/
  | result (i : Nat) (data : List (String × Json))
  | failure (error : ε)

def Shown.data? : Shown ε → Option (Nat × List (String × Json))
  | result i data => some (i, data)
  | failure _ => none

def Shown.error? : Shown ε → Option ε
  | result _ _ => none
  | failure error => some error

/-- Results count when their effect is the one in force, failures as long as there is a component. -/
def seen (s : UseSubscription κ ε) : Act κ ε → Option (Shown ε)
  | .next i partialRes => if Current s i then some (.result i (spread partialRes)) else none
  | .throw _ error => if s.unmounted then none else some (.failure error)
  | _ => none

/-- The results that the subscription of effect `i` has had. -/
def results (i : Nat) (acts : List (Act κ ε)) : List (List (String × Json)) :=
  acts.filterMap fun
    | .next j partialRes => if j = i then some (spread partialRes) else none
    | _ => none

/-- The results of effect `i` among those shown. -/
def shownOf (i : Nat) (history : List (Shown ε)) : List (List (String × Json)) :=
  history.filterMap fun shown => shown.data?.bind fun (j, data) => if j = i then some data else none

/-- The subscription of effect `i` has come to its end. -/
def ended (i : Nat) (acts : List (Act κ ε)) : Bool :=
  acts.any fun
    | .finish j => j = i
    | .throw j _ => j = i
    | _ => false

section
variable {s s' t : UseSubscription κ ε} {a : Act κ ε} {i : Nat}

/-- What the state shows is the last of what was shown, and no effect's results come after a later one's. -/
structure Shows (history : List (Shown ε)) (s : UseSubscription κ ε) : Prop where
  data : s.data = (history.filterMap Shown.data?).getLast?.map (·.2)
  error : s.error = (history.filterMap Shown.error?).getLast?
  ordered : (history.filterMap Shown.data?).Pairwise fun d d' => d.1 ≤ d'.1
  begun : ∀ d ∈ history.filterMap Shown.data?, d.1 < s.effects.length

theorem Shows.frame {history : List (Shown ε)} (shows_ : Shows history s) (data : s'.data = s.data)
    (error : s'.error = s.error) (more : s.effects.length ≤ s'.effects.length) : Shows history s' where
  data := data.trans shows_.data
  error := error.trans shows_.error
  ordered := shows_.ordered
  begun := fun d there => (shows_.begun d there).trans_le more

theorem Shows.result {history : List (Shown ε)} (shows_ : Shows history s) (last : i + 1 = s.effects.length)
    (data : List (String × Json)) : Shows (history ++ [.result i data]) { s with data := some data, loading := false } := by
  have more : (history ++ [Shown.result i data]).filterMap Shown.data? = history.filterMap Shown.data? ++ [(i, data)] := by
    rw [List.filterMap_append]
    rfl
  have same : (history ++ [Shown.result i data]).filterMap Shown.error? = history.filterMap Shown.error? := by
    rw [List.filterMap_append]
    exact List.append_nil _
  refine ⟨by rw [more, List.getLast?_concat]; rfl, same ▸ shows_.error, ?_, ?_⟩
  · rw [more, List.pairwise_append]
    refine ⟨shows_.ordered, List.pairwise_singleton _ _, fun d before d' here => ?_⟩
    have older := shows_.begun d before
    rw [List.mem_singleton.1 here]
    exact Nat.le_of_lt_succ (older.trans_eq last.symm)
  · intro d there
    rw [more, List.mem_append, List.mem_singleton] at there
    rcases there with before | rfl
    · exact shows_.begun d before
    · exact Nat.lt_of_succ_le last.le

theorem Shows.failure {history : List (Shown ε)} (shows_ : Shows history s) (error : ε) :
    Shows (history ++ [.failure error]) { s with error := some error } := by
  have same : (history ++ [Shown.failure error]).filterMap Shown.data? = history.filterMap Shown.data? := by
    rw [List.filterMap_append]
    exact List.append_nil _
  have more : (history ++ [Shown.failure error]).filterMap Shown.error? = history.filterMap Shown.error? ++ [error] := by
    rw [List.filterMap_append]
    rfl
  exact ⟨same ▸ shows_.data, by rw [more, List.getLast?_concat], same ▸ shows_.ordered, same ▸ shows_.begun⟩

theorem Shows.step [DecidableEq κ] {history : List (Shown ε)} (h : Inv s) (shows_ : Shows history s)
    (moved : UseSubscription.step s a = some s') : Shows (history ++ (seen s a).toList) s' := by
  cases step_moves h moved with
  | same mounted props known =>
    rw [show (seen s (.render _ props)).toList = [] from rfl, List.append_nil]
    exact shows_.frame rfl rfl le_rfl
  | other mounted props new =>
    rw [show (seen s (.render _ props)).toList = [] from rfl, List.append_nil]
    exact shows_.frame rfl rfl (by simp [length_cleanup])
  | unmount mounted rendered =>
    rw [show (seen s .unmount).toList = [] from rfl, List.append_nil]
    exact shows_.frame rfl rfl (length_cleanup _).ge
  | next at_ waiting current partialRes =>
    rw [seen, if_pos current]
    exact shows_.result current.2 _
  | break_ at_ waiting old partialRes =>
    rw [seen, if_neg old, Option.toList, List.append_nil]
    exact shows_.frame rfl rfl (by simp [UseSubscription.set])
  | finish at_ waiting =>
    rw [show (seen s (.finish _)).toList = [] from rfl, List.append_nil]
    exact shows_.frame rfl rfl (by simp [UseSubscription.set])
  | throw at_ waiting error =>
    simp only [seen]
    split
    · next gone =>
      rw [Option.toList, List.append_nil]
      exact shows_.frame rfl rfl (by simp [UseSubscription.set])
    · next here => exact (shows_.failure error).frame rfl rfl (by simp [UseSubscription.set])

/-- **What the hook shows**: the last of the results that came to an effect in force, no effect's after those of a later
one, and the last failure of any effect of the component, with no result to clear it; and it is never left loading. -/
theorem shown_eq [DecidableEq κ] {acts : List (Act κ ε)} (reached : run step ({} : UseSubscription κ ε) acts = some s) :
    let history := trace step seen ({} : UseSubscription κ ε) acts
    s.data = (history.filterMap Shown.data?).getLast?.map (·.2) ∧
      s.error = (history.filterMap Shown.error?).getLast? ∧ s.loading = false ∧
      (history.filterMap Shown.data?).Pairwise fun d d' => d.1 ≤ d'.1 := by
  have both := run_traced (I := fun _ history (s : UseSubscription κ ε) => Inv s ∧ Shows history s)
    ⟨inv_init, rfl, rfl, .nil, by simp⟩ (fun _ _ _ _ _ h moved => ⟨h.1.step moved, h.2.step h.1 moved⟩) reached
  exact ⟨both.2.data, both.2.error, both.1.loading, both.2.ordered⟩

/-! ## The subscriptions left behind -/

/-- What the subscription of effect `i` has had, what of it was shown, and where its loop is. -/
structure Keeps (acts : List (Act κ ε)) (history : List (Shown ε)) (s : UseSubscription κ ε) (i : Nat) (e : Effect κ)
    (late : List (List (String × Json))) : Prop where
  results : results i acts = shownOf i history ++ late
  one : late.length ≤ 1
  current : Current s i → late = []
  waiting : e.loop = .waiting ↔ Effect.subscribes e.fula e.props = true ∧ ended i acts = false ∧ late = []

/-- Every effect keeps its account, and one that has not begun has none. -/
structure Accounts (acts : List (Act κ ε)) (history : List (Shown ε)) (s : UseSubscription κ ε) : Prop where
  begun : ∀ i e, s.effects[i]? = some e → ∃ late, Keeps acts history s i e late
  fresh : ∀ i, s.effects.length ≤ i → results i acts = [] ∧ shownOf i history = [] ∧ ended i acts = false

theorem results_snoc (acts : List (Act κ ε)) (a : Act κ ε) : results i (acts ++ [a]) = results i acts ++ results i [a] :=
  List.filterMap_append ..

theorem ended_snoc (acts : List (Act κ ε)) (a : Act κ ε) : ended i (acts ++ [a]) = (ended i acts || ended i [a]) :=
  List.any_append

theorem shownOf_append (history more : List (Shown ε)) : shownOf i (history ++ more) = shownOf i history ++ shownOf i more :=
  List.filterMap_append ..

/-- A step that does not concern effect `i`. -/
structure Elsewhere (s : UseSubscription κ ε) (a : Act κ ε) (i : Nat) : Prop where
  results : results i [a] = []
  shown : shownOf i (seen s a).toList = []
  ended : ended i [a] = false

theorem elsewhere_render (fula : Option κ) (props : Props) : Elsewhere s (.render fula props) i := ⟨rfl, rfl, rfl⟩

theorem elsewhere_unmount : Elsewhere s .unmount i := ⟨rfl, rfl, rfl⟩

theorem elsewhere_next {j : Nat} (apart : j ≠ i) (partialRes : Json) : Elsewhere s (.next i partialRes) j := by
  refine ⟨by simp [results, apart.symm], ?_, rfl⟩
  rw [seen]
  split
  · simp [shownOf, Shown.data?, apart.symm]
  · rfl

theorem elsewhere_finish {j : Nat} (apart : j ≠ i) : Elsewhere s (.finish i) j := ⟨rfl, rfl, by simp [ended, apart.symm]⟩

theorem elsewhere_throw {j : Nat} (apart : j ≠ i) (error : ε) : Elsewhere s (.throw i error) j := by
  refine ⟨rfl, ?_, by simp [ended, apart.symm]⟩
  rw [seen]
  split <;> rfl

section
variable {acts : List (Act κ ε)} {history : List (Shown ε)} {e e' : Effect κ} {late : List (List (String × Json))}

theorem Keeps.frame (keeps : Keeps acts history s i e late) (else_ : Elsewhere s a i) (current : Current s' i → Current s i)
    (fula : e'.fula = e.fula) (props : e'.props = e.props) (loop : e'.loop = e.loop) :
    Keeps (acts ++ [a]) (history ++ (seen s a).toList) s' i e' late where
  results := by rw [results_snoc, shownOf_append, else_.results, else_.shown, List.append_nil, List.append_nil, keeps.results]
  one := keeps.one
  current := fun here => keeps.current (current here)
  waiting := by rw [ended_snoc, else_.ended, Bool.or_false, fula, props, loop, keeps.waiting]

theorem Accounts.fresh_snoc (accounts : Accounts acts history s) (outside : s.effects.length ≤ i) (else_ : Elsewhere s a i) :
    results i (acts ++ [a]) = [] ∧ shownOf i (history ++ (seen s a).toList) = [] ∧ ended i (acts ++ [a]) = false := by
  obtain ⟨results, shown, ended⟩ := accounts.fresh i outside
  rw [results_snoc, shownOf_append, ended_snoc, results, shown, ended, else_.results, else_.shown, else_.ended]
  exact ⟨rfl, rfl, rfl⟩

/-- One effect gets on with its loop. -/
theorem Accounts.set (accounts : Accounts acts history s) (at_ : s.effects[i]? = some e)
    (effects : s'.effects = s.effects.set i e') (unmounted : s'.unmounted = s.unmounted)
    (others : ∀ j, j ≠ i → Elsewhere s a j)
    (mine : ∃ late, Keeps (acts ++ [a]) (history ++ (seen s a).toList) s' i e' late) :
    Accounts (acts ++ [a]) (history ++ (seen s a).toList) s' where
  begun := fun j e'' there => by
    rw [effects] at there
    by_cases same : j = i
    · subst same
      rw [List.getElem?_set_self (List.getElem?_eq_some_iff.1 at_).1, Option.some.injEq] at there
      exact there ▸ mine
    · rw [List.getElem?_set_ne (Ne.symm same)] at there
      obtain ⟨late, keeps⟩ := accounts.begun j e'' there
      refine ⟨late, keeps.frame (others j same) (fun here => ?_) rfl rfl rfl⟩
      simpa [Current, effects, unmounted] using here
  fresh := fun j outside => by
    rw [effects, List.length_set] at outside
    have apart : j ≠ i := fun same => absurd (List.getElem?_eq_some_iff.1 at_).1 (by omega)
    exact accounts.fresh_snoc outside (others j apart)

theorem Accounts.step [DecidableEq κ] (h : Inv s) (accounts : Accounts acts history s) (moved : UseSubscription.step s a = some s') :
    Accounts (acts ++ [a]) (history ++ (seen s a).toList) s' := by
  cases step_moves h moved with
  | same mounted props known =>
    refine ⟨fun j e there => ?_, fun j outside => accounts.fresh_snoc outside (elsewhere_render _ props)⟩
    obtain ⟨late, keeps⟩ := accounts.begun j e there
    exact ⟨late, keeps.frame (elsewhere_render _ props) id rfl rfl rfl⟩
  | @other mounted fula props new =>
    refine ⟨fun j e there => ?_, fun j outside => ?_⟩
    · rcases Nat.lt_or_ge j s.effects.length with inside | outside
      · rw [List.getElem?_append_left (by rwa [length_cleanup])] at there
        obtain ⟨e', before, rfl⟩ := getElem?_cleanup there
        obtain ⟨late, keeps⟩ := accounts.begun j e' before
        refine ⟨late, keeps.frame (elsewhere_render fula props) (fun here => ?_) rfl rfl rfl⟩
        have last := here.2
        simp only [List.length_append, length_cleanup, List.length_singleton] at last
        omega
      · rw [List.getElem?_append_right (by rwa [length_cleanup]), length_cleanup, List.getElem?_singleton,
          Option.ite_none_right_eq_some] at there
        obtain ⟨-, same⟩ := there
        cases same
        obtain ⟨results, shown, ended⟩ := accounts.fresh_snoc outside (elsewhere_render fula props)
        refine ⟨[], by rw [results, shown]; rfl, Nat.zero_le _, fun _ => rfl, ?_⟩
        rw [ended]
        simp [Effect.begin]
    · simp only [List.length_append, length_cleanup, List.length_singleton] at outside
      exact accounts.fresh_snoc (by omega) (elsewhere_render fula props)
  | unmount mounted rendered =>
    refine ⟨fun j e there => ?_, fun j outside => ?_⟩
    · obtain ⟨e', before, rfl⟩ := getElem?_cleanup there
      obtain ⟨late, keeps⟩ := accounts.begun j e' before
      exact ⟨late, keeps.frame elsewhere_unmount (fun here => absurd here.1 Bool.noConfusion) rfl rfl rfl⟩
    · exact accounts.fresh_snoc (by rwa [length_cleanup] at outside) elsewhere_unmount
  | @next i e at_ waiting current partialRes =>
    have still : s.effects = s.effects.set i e := by
      obtain ⟨inside, rfl⟩ := List.getElem?_eq_some_iff.1 at_
      exact (List.set_getElem_self inside).symm
    refine accounts.set at_ still rfl (fun j apart => elsewhere_next apart partialRes) ?_
    obtain ⟨late, keeps⟩ := accounts.begun i e at_
    have none_ := keeps.current current
    subst none_
    refine ⟨[], ?_, Nat.zero_le _, fun _ => rfl, ?_⟩
    · rw [results_snoc, shownOf_append, keeps.results, seen, if_pos current]
      simp [results, shownOf, Shown.data?]
    · rw [ended_snoc, show ended i [Act.next i partialRes] = false from rfl, Bool.or_false, keeps.waiting]
  | @break_ i e at_ waiting old partialRes =>
    refine accounts.set at_ rfl rfl (fun j apart => elsewhere_next apart partialRes) ?_
    obtain ⟨late, keeps⟩ := accounts.begun i e at_
    have none_ := (keeps.waiting.1 waiting).2.2
    subst none_
    refine ⟨[spread partialRes], ?_, le_rfl, fun here => absurd ?_ old, by simp⟩
    · rw [results_snoc, shownOf_append, keeps.results, seen, if_neg old]
      simp [results, shownOf]
    · simpa [Current, UseSubscription.set] using here
  | @finish i e at_ waiting =>
    refine accounts.set at_ rfl rfl (fun j apart => elsewhere_finish apart) ?_
    obtain ⟨late, keeps⟩ := accounts.begun i e at_
    refine ⟨late, ?_, keeps.one, fun here => keeps.current ?_, by simp [ended]⟩
    · rw [results_snoc, shownOf_append, keeps.results]
      simp [results, shownOf, seen]
    · simpa [Current, UseSubscription.set] using here
  | @throw i e at_ waiting error =>
    refine accounts.set at_ rfl rfl (fun j apart => elsewhere_throw apart error) ?_
    obtain ⟨late, keeps⟩ := accounts.begun i e at_
    have shown : shownOf i (seen s (.throw i error)).toList = [] := by
      rw [seen]
      split <;> rfl
    refine ⟨late, ?_, keeps.one, fun here => keeps.current ?_, by simp [ended]⟩
    · rw [results_snoc, shownOf_append, keeps.results, shown]
      simp [results]
    · simpa [Current, UseSubscription.set] using here

end

/-- **What becomes of a subscription**: its results are shown as long as its effect is in force. One more ends it, unseen;
until then, and unless it ends by itself, the loop waits, with a subscription that nobody has told to stop. -/
theorem left_behind [DecidableEq κ] {acts : List (Act κ ε)} {e : Effect κ} (reached : run step ({} : UseSubscription κ ε) acts = some s)
    (at_ : s.effects[i]? = some e) :
    ∃ late, results i acts = shownOf i (trace step seen ({} : UseSubscription κ ε) acts) ++ late ∧ late.length ≤ 1 ∧
      (Current s i → late = []) ∧
      (e.loop = .waiting ↔ Effect.subscribes e.fula e.props = true ∧ ended i acts = false ∧ late = []) := by
  have both := run_traced (I := fun acts history (s : UseSubscription κ ε) => Inv s ∧ Accounts acts history s)
    ⟨inv_init, by simp, fun _ _ => ⟨rfl, rfl, rfl⟩⟩ (fun _ _ _ _ _ h moved => ⟨h.1.step moved, h.2.step h.1 moved⟩) reached
  obtain ⟨late, keeps⟩ := both.2.begun i e at_
  exact ⟨late, keeps.results, keeps.one, keeps.current, keeps.waiting⟩

/-! ## The query asked for -/

/-- The effect in force is that of the latest render. -/
def Follows (s : UseSubscription κ ε) : Prop :=
  s.rendered = s.effects.getLast?.map fun e => (e.fula, e.props)

/-- A render that brings no other client brings what the client was given when it came. -/
def Renews (s : UseSubscription κ ε) : Act κ ε → Prop
  | .render fula props => ∀ e, s.effects.getLast? = some e → e.fula = fula → e.props = props
  | _ => True

/-- **The hook follows what the component renders** in the runs in which a query and its variables change only together
with the client, and in no others. -/
theorem follows_iff [DecidableEq κ] {acts : List (Act κ ε)} (reached : run step ({} : UseSubscription κ ε) acts = some s) :
    (∀ acts' s', acts' <+: acts → run step ({} : UseSubscription κ ε) acts' = some s' → Follows s') ↔
      StepsMeet step Renews ({} : UseSubscription κ ε) acts := by
  refine everywhere_iff (fun _ _ _ h moved => Inv.step h moved) ?_ inv_init rfl reached
  intro s a s' h follows moved
  have set {i : Nat} {e : Effect κ} (at_ : s.effects[i]? = some e) (loop : Loop) :
      ((s.effects.set i { e with loop := loop }).getLast?.map fun e => (e.fula, e.props)) = s.rendered := by
    obtain ⟨inside, rfl⟩ := List.getElem?_eq_some_iff.1 at_
    rw [follows, List.getLast?_eq_getElem?, List.getLast?_eq_getElem?, List.length_set, List.getElem?_set]
    split
    · next last =>
      rw [← last, List.getElem?_eq_getElem inside]
      rfl
    · rfl
  cases step_moves h moved with
  | @same mounted fula props known =>
    obtain ⟨e, last, rfl⟩ := Option.map_eq_some_iff.1 known
    simp only [Follows, Renews, last, Option.map_some, Option.some.injEq, Prod.mk.injEq, true_and]
    constructor
    · rintro same e' rfl -
      exact same.symm
    · intro renews
      exact (renews e rfl rfl).symm
  | other mounted props new =>
    refine iff_of_true (by simp [Follows, Effect.begin]) fun e last same => absurd ?_ new
    rw [last, Option.map_some, same]
  | unmount mounted rendered =>
    refine iff_of_true ?_ trivial
    rw [Follows, follows, List.getLast?_eq_getElem?, List.getLast?_eq_getElem?, length_cleanup, cleanup,
      List.getElem?_modify, Option.map_eq_map, Option.map_map]
    refine congrArg (Option.map · _) (funext fun e => ?_)
    simp
  | next at_ waiting current partialRes => exact iff_of_true follows trivial
  | break_ at_ waiting old partialRes => exact iff_of_true (set at_ .done).symm trivial
  | finish at_ waiting => exact iff_of_true (set at_ .done).symm trivial
  | throw at_ waiting error => exact iff_of_true (set at_ .done).symm trivial

end

/-! A component gets a client after its first render, then another one, and then asks for something else. -/

def sampleQuery (name : String) : Props := { body := some ("subscription \x7b " ++ name ++ " \x7d"), name := some name }

def sampleRun : List (Act Nat String) :=
  [.render none (sampleQuery "todo"), .render (some 1) (sampleQuery "todo"),
    .next 1 (.obj [("data", .obj [("todo", .num 1)])]), .render (some 2) (sampleQuery "todo"),
    .next 2 (.obj [("data", .obj [("todo", .num 2)])]), .next 1 (.obj [("data", .obj [("todo", .num 3)])]),
    .throw 2 "gone", .render (some 2) (sampleQuery "done")]

theorem shown_eq_sample : ∃ s : UseSubscription Nat String, run step {} sampleRun = some s ∧
    s.data = some [("todo", .num 2)] ∧ s.error = some "gone" ∧ s.loading = false := by
  refine ⟨_, rfl, ?_⟩
  obtain ⟨data, error, loading, -⟩ := @shown_eq _ _ _ _ sampleRun rfl
  exact ⟨data, error, loading⟩

/-- The third result of the first subscription comes when the second one is in force. -/
theorem left_behind_sample : ∃ (s : UseSubscription Nat String) (e : Effect Nat), run step {} sampleRun = some s ∧
    s.effects[1]? = some e ∧ ∃ late, results 1 sampleRun =
      shownOf 1 (trace step seen ({} : UseSubscription Nat String) sampleRun) ++ late ∧ late.length ≤ 1 ∧
      (Current s 1 → late = []) ∧
      (e.loop = .waiting ↔ Effect.subscribes e.fula e.props = true ∧ ended 1 sampleRun = false ∧ late = []) :=
  ⟨_, _, rfl, rfl, @left_behind _ _ _ _ _ sampleRun _ rfl rfl⟩

/-- The last render asks for something else of the same client. -/
theorem follows_iff_sample : ∃ s : UseSubscription Nat String, run step {} sampleRun = some s ∧
    ((∀ acts' s', acts' <+: sampleRun → run step ({} : UseSubscription Nat String) acts' = some s' → Follows s') ↔
      StepsMeet step Renews ({} : UseSubscription Nat String) sampleRun) :=
  ⟨_, rfl, @follows_iff _ _ _ _ sampleRun rfl⟩

end UseSubscription

end Fula.FulaClientReact
