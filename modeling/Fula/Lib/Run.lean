import Mathlib

/-!
# Runs of a labelled step function

A system is a partial step function `step : σ → α → Option σ`: an action says
which party moves and with what data, and `none` means it cannot move now. A
run is the list of its actions, so a statement "for every interleaving" ranges
over all action lists, and a concrete run is evaluated by `rfl`.

* `run_invariant`: what one step preserves, a whole run preserves.
* `run_invariant_of`: the same for the runs whose steps all meet a condition
  (`run_invariant_acts`: whose actions do).
* `run_trace`: the same over what was seen of the run, where only some steps show.
* `run_simulates`: what each step of one system matches in another, a run matches.
* `everywhere_iff_of`, `everywhere_iff`: when a condition on the steps is exactly what an
  invariant needs.
* `run_each`: a run of many systems side by side is a run of each of them.
* `exists_quiet`: a measure that the internal actions decrease lets every
  state be run to one where no internal action is enabled.
* `run_length_le`, `exists_quiet_of_bounded`: runs that cannot go on for ever.
-/

namespace Lib
set_option autoImplicit false

section
variable {σ α : Type*} (step : σ → α → Option σ)

/-- The state after the actions of a list, when each is enabled in its turn. -/
def run : σ → List α → Option σ
  | s, [] => some s
  | s, a :: as => (step s a).bind fun s' => run s' as

/-- Every step of the run from `s` meets `ok` in the state it is taken from. -/
def StepsMeet (ok : σ → α → Prop) : σ → List α → Prop
  | _, [] => True
  | s, a :: as => ok s a ∧ ∀ s', step s a = some s' → StepsMeet ok s' as

/-- What is seen of a run when `label` is seen of each step, if anything. -/
def trace {β : Type*} (label : σ → α → Option β) : σ → List α → List β
  | _, [] => []
  | s, a :: as => (label s a).toList ++ match step s a with
    | some s' => trace label s' as
    | none => []

/-- No action of the given kind is enabled. -/
def Quiet (internal : α → Prop) (s : σ) : Prop :=
  ∀ a, internal a → step s a = none

variable {step}

@[simp] theorem run_nil (s : σ) : run step s [] = some s := rfl

theorem run_cons {s t : σ} {a : α} {as : List α} :
    run step s (a :: as) = some t ↔ ∃ s', step s a = some s' ∧ run step s' as = some t := by
  simp only [run, Option.bind_eq_some_iff]

theorem run_append {s t : σ} {as bs : List α} :
    run step s (as ++ bs) = some t ↔ ∃ m, run step s as = some m ∧ run step m bs = some t := by
  induction as generalizing s with
  | nil => simp
  | cons a as ih =>
    simp only [List.cons_append, run_cons, ih]
    constructor
    · rintro ⟨s', first, m, middle, last⟩
      exact ⟨m, ⟨s', first, middle⟩, last⟩
    · rintro ⟨m, ⟨s', first, middle⟩, last⟩
      exact ⟨s', first, m, middle, last⟩

theorem run_snoc {s t : σ} {as : List α} {a : α} :
    run step s (as ++ [a]) = some t ↔ ∃ m, run step s as = some m ∧ step m a = some t := by
  simp [run_append, run_cons]

theorem trace_snoc {β : Type*} {label : σ → α → Option β} {s m : σ} {as : List α} (reached : run step s as = some m)
    (a : α) : trace step label s (as ++ [a]) = trace step label s as ++ (label m a).toList := by
  induction as generalizing s with
  | nil =>
    cases reached
    simp only [List.nil_append, trace]
    split <;> simp
  | cons b as ih =>
    obtain ⟨s', first, rest⟩ := run_cons.1 reached
    simp only [List.cons_append, trace, first, ih rest, List.append_assoc]

/-- The invariant rule, over the actions so far: `I as s` says what holds in
the state `s` that the actions `as` lead to. -/
theorem run_history {I : List α → σ → Prop} {s t : σ} {as : List α} (start : I [] s)
    (keep : ∀ as a m t, I as m → step m a = some t → I (as ++ [a]) t)
    (reached : run step s as = some t) : I as t := by
  induction as using List.reverseRecOn generalizing t with
  | nil => cases reached; exact start
  | append_singleton as a ih =>
    obtain ⟨m, before, last⟩ := run_snoc.1 reached
    exact keep as a m t (ih before) last

/-- The same over what was seen so far, for the runs whose actions are all of one kind. -/
theorem run_trace {β : Type*} {label : σ → α → Option β} {I : List β → σ → Prop} {kind : α → Prop} {s t : σ}
    {as : List α} (start : I [] s)
    (keep : ∀ bs m a m', I bs m → kind a → step m a = some m' → I (bs ++ (label m a).toList) m')
    (only : ∀ a ∈ as, kind a) (reached : run step s as = some t) : I (trace step label s as) t := by
  induction as using List.reverseRecOn generalizing t with
  | nil => cases reached; exact start
  | append_singleton as a ih =>
    obtain ⟨m, before, last⟩ := run_snoc.1 reached
    rw [trace_snoc before]
    exact keep _ m a t (ih (fun b member => only b (by simp [member])) before) (only a (by simp)) last

/-- The same over the actions and what was seen of them. -/
theorem run_traced {β : Type*} {label : σ → α → Option β} {I : List α → List β → σ → Prop} {s t : σ} {as : List α}
    (start : I [] [] s)
    (keep : ∀ as bs m a m', I as bs m → step m a = some m' → I (as ++ [a]) (bs ++ (label m a).toList) m')
    (reached : run step s as = some t) : I as (trace step label s as) t := by
  induction as using List.reverseRecOn generalizing t with
  | nil => cases reached; exact start
  | append_singleton as a ih =>
    obtain ⟨m, before, last⟩ := run_snoc.1 reached
    rw [trace_snoc before]
    exact keep as _ m a t (ih before) last

/-- The invariant rule. -/
theorem run_invariant {I : σ → Prop} {s t : σ} {as : List α} (start : I s)
    (keep : ∀ s a s', I s → step s a = some s' → I s') (reached : run step s as = some t) : I t :=
  run_history (I := fun _ s => I s) start (fun _ a m t => keep m a t) reached

/-- The invariant rule for the runs whose steps all meet `ok`. -/
theorem run_invariant_of {I : σ → Prop} {ok : σ → α → Prop} {s t : σ} {as : List α} (start : I s)
    (keep : ∀ s a s', I s → ok s a → step s a = some s' → I s')
    (meet : StepsMeet step ok s as) (reached : run step s as = some t) : I t := by
  induction as generalizing s with
  | nil => cases reached; exact start
  | cons a as ih =>
    obtain ⟨s', first, rest⟩ := run_cons.1 reached
    exact ih (keep s a s' start meet.1 first) (meet.2 s' first) rest

theorem stepsMeet_cons {ok : σ → α → Prop} {s s' : σ} {a : α} {as : List α} (here : ok s a) (first : step s a = some s')
    (rest : StepsMeet step ok s' as) : StepsMeet step ok s (a :: as) := by
  refine ⟨here, fun t moved => ?_⟩
  rw [first] at moved
  cases moved
  exact rest

theorem stepsMeet_append {ok : σ → α → Prop} {s t : σ} {as bs : List α} (meet : StepsMeet step ok s (as ++ bs))
    (reached : run step s as = some t) : StepsMeet step ok s as ∧ StepsMeet step ok t bs := by
  induction as generalizing s with
  | nil => cases reached; exact ⟨trivial, meet⟩
  | cons a as ih =>
    obtain ⟨s', first, rest⟩ := run_cons.1 reached
    obtain ⟨before, after⟩ := ih (meet.2 s' first) rest
    exact ⟨stepsMeet_cons meet.1 first before, after⟩

/-- The same over the actions so far. -/
theorem run_history_of {I : List α → σ → Prop} {ok : σ → α → Prop} {s t : σ} {as : List α} (start : I [] s)
    (keep : ∀ as a m t, I as m → ok m a → step m a = some t → I (as ++ [a]) t)
    (meet : StepsMeet step ok s as) (reached : run step s as = some t) : I as t := by
  induction as using List.reverseRecOn generalizing t with
  | nil => cases reached; exact start
  | append_singleton as a ih =>
    obtain ⟨m, before, last⟩ := run_snoc.1 reached
    obtain ⟨earlier, here⟩ := stepsMeet_append meet before
    exact keep as a m t (ih earlier before) here.1 last

/-- The invariant rule for the runs whose actions are all of one kind. -/
theorem run_invariant_acts {I : σ → Prop} {kind : α → Prop} {s t : σ} {as : List α} (start : I s)
    (keep : ∀ s a s', I s → kind a → step s a = some s' → I s') (only : ∀ a ∈ as, kind a)
    (reached : run step s as = some t) : I t := by
  refine run_invariant_of start keep (show StepsMeet step (fun _ => kind) s as from ?_) reached
  clear reached
  induction as generalizing s with
  | nil => trivial
  | cons a as ih =>
    refine ⟨only a (by simp), fun s' first => ?_⟩
    exact ih (keep s a s' start (only a (by simp)) first) fun b member => only b (by simp [member])

/-- The simulation rule: when every step of one kind is matched by a step of
another system, a run of such steps is matched by a run. -/
theorem run_simulates {τ β : Type*} {step' : τ → β → Option τ} {R : σ → τ → Prop} {kind : α → Prop}
    {s s' : σ} {t : τ} {as : List α} (start : R s t)
    (keep : ∀ s a s' t, R s t → kind a → step s a = some s' → ∃ b t', step' t b = some t' ∧ R s' t')
    (only : ∀ a ∈ as, kind a) (reached : run step s as = some s') :
    ∃ bs t', run step' t bs = some t' ∧ R s' t' := by
  refine run_invariant_acts (I := fun s' => ∃ bs t', run step' t bs = some t' ∧ R s' t')
    ⟨[], t, rfl, start⟩ ?_ only reached
  rintro m a m' ⟨bs, u, before, related⟩ fits moved
  obtain ⟨b, u', matched, related'⟩ := keep m a m' u related fits moved
  exact ⟨bs ++ [b], u', run_snoc.2 ⟨u, before, matched⟩, related'⟩

instance decidableStepsMeet {ok : σ → α → Prop} [∀ s a, Decidable (ok s a)] :
    ∀ (s : σ) (as : List α), Decidable (StepsMeet step ok s as)
  | _, [] => .isTrue trivial
  | s, a :: as =>
    match first : step s a with
    | none => decidable_of_iff (ok s a) ⟨fun here => ⟨here, fun s' moved => by rw [first] at moved; cases moved⟩, And.left⟩
    | some s' =>
      have : Decidable (StepsMeet step ok s' as) := decidableStepsMeet s' as
      decidable_of_iff (ok s a ∧ StepsMeet step ok s' as)
        ⟨fun ⟨here, rest⟩ => stepsMeet_cons here first rest, fun meet => ⟨meet.1, meet.2 s' first⟩⟩

/-- Two conditions on the steps that agree on good states agree on a run of them. -/
theorem stepsMeet_congr {I : σ → Prop} {ok ok' : σ → α → Prop} (keep : ∀ s a s', I s → step s a = some s' → I s')
    (same : ∀ s a, I s → (ok s a ↔ ok' s a)) {s : σ} {as : List α} (start : I s) :
    StepsMeet step ok s as ↔ StepsMeet step ok' s as := by
  induction as generalizing s with
  | nil => exact Iff.rfl
  | cons a as ih =>
    refine and_congr (same s a start) (forall_congr' fun s' => ?_)
    constructor
    · intro rest first
      exact (ih (keep s a s' start first)).1 (rest first)
    · intro rest first
      exact (ih (keep s a s' start first)).2 (rest first)

/-- The exact rule: where `J` carries the runs that meet `ok` and promises `P`, and `P`
tells at once of a step that does not meet it, every state of a run is good just when every
step of it meets `ok`. -/
theorem everywhere_iff_of {J P : σ → Prop} {ok : σ → α → Prop} (sound : ∀ s, J s → P s)
    (keep : ∀ s a s', J s → ok s a → step s a = some s' → J s')
    (hits : ∀ s a s', J s → step s a = some s' → P s' → ok s a) {s t : σ} {as : List α} (start : J s)
    (reached : run step s as = some t) :
    (∀ bs m, bs <+: as → run step s bs = some m → P m) ↔ StepsMeet step ok s as := by
  induction as generalizing s with
  | nil =>
    refine ⟨fun _ => trivial, fun _ bs m initial here => ?_⟩
    rw [List.prefix_nil.1 initial] at here
    cases here
    exact sound s start
  | cons a as ih =>
    obtain ⟨s', first, rest⟩ := run_cons.1 reached
    constructor
    · intro all
      have met : ok s a := hits s a s' start first (all [a] s' (by simp) (run_cons.2 ⟨s', first, rfl⟩))
      refine stepsMeet_cons met first ((ih (keep s a s' start met first) rest).1 ?_)
      intro bs m initial here
      exact all (a :: bs) m (by simp [initial]) (run_cons.2 ⟨s', first, here⟩)
    · intro meet bs m initial here
      cases bs with
      | nil => cases here; exact sound s start
      | cons b bs =>
        obtain ⟨rfl, shorter⟩ := List.cons_prefix_cons.1 initial
        obtain ⟨s'', first', here⟩ := run_cons.1 here
        rw [first, Option.some.injEq] at first'
        subst first'
        exact (ih (keep s b s' start meet.1 first) rest).2 (meet.2 s' first) bs m shorter here

/-- The same, where a step leads from a good state to a good one just when it meets `ok`. -/
theorem everywhere_iff {I P : σ → Prop} {ok : σ → α → Prop} (keep : ∀ s a s', I s → step s a = some s' → I s')
    (exact_ : ∀ s a s', I s → P s → step s a = some s' → (P s' ↔ ok s a)) {s t : σ} {as : List α} (start : I s)
    (good : P s) (reached : run step s as = some t) :
    (∀ bs m, bs <+: as → run step s bs = some m → P m) ↔ StepsMeet step ok s as := by
  refine everywhere_iff_of (J := fun s => I s ∧ P s) (fun _ => And.right) ?_ ?_ ⟨start, good⟩ reached
  · intro s a s' ⟨inv, good⟩ met first
    exact ⟨keep s a s' inv first, (exact_ s a s' inv good first).2 met⟩
  · intro s a s' ⟨inv, good⟩ first after
    exact (exact_ s a s' inv good first).1 after

/-- A run of a system that can do less is one of the system. -/
theorem run_of_le {step' : σ → α → Option σ} (le : ∀ s a s', step' s a = some s' → step s a = some s') {s t : σ}
    {as : List α} (reached : run step' s as = some t) : run step s as = some t := by
  induction as generalizing s with
  | nil => exact reached
  | cons a as ih =>
    obtain ⟨s', first, rest⟩ := run_cons.1 reached
    exact run_cons.2 ⟨s', le s a s' first, ih rest⟩

/-- From every state the internal actions reach a quiet one. -/
theorem exists_quiet (step : σ → α → Option σ) (internal : α → Prop) (I : σ → Prop) (μ : σ → Nat)
    (keep : ∀ s a s', I s → internal a → step s a = some s' → I s' ∧ μ s' < μ s)
    {s : σ} (start : I s) :
    ∃ as t, (∀ a ∈ as, internal a) ∧ run step s as = some t ∧ Quiet step internal t := by
  generalize measured : μ s = m
  induction m using Nat.strongRecOn generalizing s with
  | ind m ih =>
    by_cases quiet : Quiet step internal s
    · exact ⟨[], s, by simp, rfl, quiet⟩
    · simp only [Quiet, not_forall, exists_prop] at quiet
      obtain ⟨a, inside, enabled⟩ := quiet
      obtain ⟨s', first⟩ := Option.ne_none_iff_exists'.1 enabled
      obtain ⟨next, less⟩ := keep s a s' start inside first
      obtain ⟨as, t, only, rest, final⟩ := ih (μ s') (measured ▸ less) next rfl
      refine ⟨a :: as, t, ?_, run_cons.2 ⟨s', first, rest⟩, final⟩
      intro b hb
      rcases List.mem_cons.1 hb with rfl | hb
      · exact inside
      · exact only b hb

/-- A run is no longer than the measure allows. -/
theorem run_length_le {I : σ → Prop} (μ : σ → Nat) (keep : ∀ s a s', I s → step s a = some s' → I s' ∧ μ s' < μ s) {s t : σ}
    {as : List α} (start : I s) (reached : run step s as = some t) : as.length ≤ μ s := by
  induction as generalizing s with
  | nil => exact Nat.zero_le _
  | cons a as ih =>
    obtain ⟨s', first, rest⟩ := run_cons.1 reached
    obtain ⟨next, less⟩ := keep s a s' start first
    have shorter := ih next rest
    rw [List.length_cons]
    omega

/-- Where runs cannot go on for ever, one comes to rest. -/
theorem exists_quiet_of_bounded {bound : Nat} {s : σ} (all : ∀ as t, run step s as = some t → as.length ≤ bound) :
    ∃ as t, run step s as = some t ∧ Quiet step (fun _ => True) t := by
  by_contra never
  -- else there are runs of every length
  have longer : ∀ n, ∃ as t, run step s as = some t ∧ as.length = n := by
    intro n
    induction n with
    | zero => exact ⟨[], s, rfl, rfl⟩
    | succ n ih =>
      obtain ⟨as, t, reached, length⟩ := ih
      have moves : ¬Quiet step (fun _ => True) t := fun quiet => never ⟨as, t, reached, quiet⟩
      simp only [Quiet, not_forall, exists_prop, true_and] at moves
      obtain ⟨a, enabled⟩ := moves
      obtain ⟨t', moved⟩ := Option.ne_none_iff_exists'.1 enabled
      exact ⟨as ++ [a], t', run_snoc.2 ⟨t, reached, moved⟩, by simp [length]⟩
  obtain ⟨as, t, reached, length⟩ := longer (bound + 1)
  have bounded := all as t reached
  omega

/-! ## Systems side by side -/

/-- Many systems, none of which sees another: an action names the one that moves. -/
def each (step : σ → α → Option σ) (ss : List σ) : Nat × α → Option (List σ)
  | (i, a) => (ss[i]?).bind fun s => (step s a).map fun s' => ss.set i s'

/-- The actions of system `i`. -/
def actsOf (i : Nat) (acts : List (Nat × α)) : List α :=
  acts.filterMap fun (j, a) => if j = i then some a else none

theorem each_length {ss ts : List σ} {a : Nat × α} (moved : each step ss a = some ts) : ts.length = ss.length := by
  simp only [each, Option.bind_eq_some_iff, Option.map_eq_some_iff] at moved
  obtain ⟨s, -, s', -, rfl⟩ := moved
  exact List.length_set

theorem run_each_length {ss ts : List σ} {acts : List (Nat × α)} (reached : run (each step) ss acts = some ts) :
    ts.length = ss.length :=
  run_invariant (I := fun us => us.length = ss.length) rfl
    (fun _ _ _ same moved => (each_length moved).trans same) reached

/-- A run of many systems is a run of each of them. -/
theorem run_each {ss ts : List σ} {acts : List (Nat × α)} (reached : run (each step) ss acts = some ts) {i : Nat} {s : σ}
    (at_ : ss[i]? = some s) : ∃ t, ts[i]? = some t ∧ run step s (actsOf i acts) = some t := by
  refine run_history (I := fun acts us => ∃ t, us[i]? = some t ∧ run step s (actsOf i acts) = some t)
    ⟨s, at_, rfl⟩ ?_ reached
  rintro acts ⟨j, a⟩ us vs ⟨t, there, before⟩ moved
  simp only [each, Option.bind_eq_some_iff, Option.map_eq_some_iff] at moved
  obtain ⟨u, atJ, u', first, rfl⟩ := moved
  by_cases same : j = i
  · subst same
    rw [atJ, Option.some.injEq] at there
    subst there
    refine ⟨u', ?_, ?_⟩
    · rw [List.getElem?_set_self (List.getElem?_eq_some_iff.1 atJ).1]
    · have more : actsOf j (acts ++ [(j, a)]) = actsOf j acts ++ [a] := by simp [actsOf]
      rw [more]
      exact run_snoc.2 ⟨u, before, first⟩
  · refine ⟨t, ?_, ?_⟩
    · rw [List.getElem?_set_ne same]; exact there
    · have more : actsOf i (acts ++ [(j, a)]) = actsOf i acts := by simp [actsOf, same]
      rw [more]
      exact before

theorem sum_map_set {f : σ → Nat} {ss : List σ} {i : Nat} {s : σ} (at_ : ss[i]? = some s) (s' : σ) :
    ((ss.set i s').map f).sum + f s = (ss.map f).sum + f s' := by
  induction ss generalizing i with
  | nil => cases at_
  | cons t ss ih =>
    cases i with
    | zero => cases at_; simp only [List.set_cons_zero, List.map_cons, List.sum_cons]; omega
    | succ i =>
      have := ih at_
      simp only [List.set_cons_succ, List.map_cons, List.sum_cons]; omega

/-- Systems that each come to rest come to rest side by side. -/
theorem exists_quiet_each (step : σ → α → Option σ) (internal : α → Prop) (I : σ → Prop) (μ : σ → Nat)
    (keep : ∀ s a s', I s → internal a → step s a = some s' → I s' ∧ μ s' < μ s)
    {ss : List σ} (start : ∀ s ∈ ss, I s) :
    ∃ as ts, (∀ a ∈ as, internal a.2) ∧ run (each step) ss as = some ts ∧
      Quiet (each step) (fun a => internal a.2) ts := by
  refine exists_quiet (each step) (fun a => internal a.2) (fun us => ∀ u ∈ us, I u) (fun us => (us.map μ).sum) ?_ start
  rintro us ⟨i, a⟩ vs all inside moved
  simp only [each, Option.bind_eq_some_iff, Option.map_eq_some_iff] at moved
  obtain ⟨u, at_, u', first, rfl⟩ := moved
  obtain ⟨next, less⟩ := keep u a u' (all u (List.mem_of_getElem? at_)) inside first
  have changed := sum_map_set (f := μ) at_ u'
  refine ⟨?_, by omega⟩
  intro v member
  rcases List.mem_or_eq_of_mem_set member with old | rfl
  · exact all v old
  · exact next

/-- Where no system can move by itself, none of them can. -/
theorem quiet_each {internal : α → Prop} {ss : List σ} (quiet : Quiet (each step) (fun a => internal a.2) ss) {i : Nat}
    {s : σ} (at_ : ss[i]? = some s) : Quiet step internal s := by
  intro a inside
  have blocked := quiet (i, a) inside
  simpa [each, at_] using blocked

end

end Lib
