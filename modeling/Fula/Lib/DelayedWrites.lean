import Mathlib.Data.List.Basic

/-!
# Stores whose writes land later

A store with a current state and the writes that were issued and have not
landed; they land in the order they were issued. A transaction reads the
current state once and issues all its writes at that moment. What is behind
all pending writes, the settled state, moves as if every transaction ran alone
and at once, as long as each reads what it would read of the settled state
(`serial_issue`).
-/

namespace Lib
set_option autoImplicit false

structure DelayedWrites (σ ω : Type) where
  current : σ
  pending : List ω := []

namespace DelayedWrites

variable {σ ω τ : Type} (apply : ω → σ → σ)

def applyAll (writes : List ω) (s : σ) : σ := writes.foldl (fun s w => apply w s) s

/-- The state once everything pending has landed. -/
def settled (d : DelayedWrites σ ω) : σ := applyAll apply d.pending d.current

def issue (d : DelayedWrites σ ω) (writes : List ω) : DelayedWrites σ ω :=
  { d with pending := d.pending ++ writes }

def land (d : DelayedWrites σ ω) : Option (DelayedWrites σ ω) :=
  match d.pending with
  | [] => none
  | w :: ws => some { current := apply w d.current, pending := ws }

theorem applyAll_append (ws vs : List ω) (s : σ) :
    applyAll apply (ws ++ vs) s = applyAll apply vs (applyAll apply ws s) := by
  simp [applyAll]

theorem settled_issue (d : DelayedWrites σ ω) (writes : List ω) :
    (d.issue writes).settled apply = applyAll apply writes (d.settled apply) := by
  simp only [settled, issue, applyAll_append]

theorem settled_land {d d' : DelayedWrites σ ω} (landed : d.land apply = some d') :
    d'.settled apply = d.settled apply := by
  unfold land at landed
  split at landed
  · cases landed
  · next w ws pending =>
    cases landed
    simp [settled, pending, applyAll]

theorem settled_of_pending_nil {d : DelayedWrites σ ω} (none_ : d.pending = []) : d.settled apply = d.current := by
  simp [settled, none_, applyAll]

theorem pending_land {d d' : DelayedWrites σ ω} (landed : d.land apply = some d') {w : ω} (member : w ∈ d'.pending) :
    w ∈ d.pending := by
  unfold land at landed
  split at landed
  · cases landed
  · next v ws pending =>
    cases landed
    rw [pending]
    exact List.mem_cons_of_mem _ member

/-- One transaction after the other, all writes of each landing before the
next; `none` when one fails. -/
def serial (writes : τ → σ → Option (List ω)) : List τ → σ → Option σ
  | [], s => some s
  | t :: ts, s => (writes t s).bind fun ws => serial writes ts (applyAll apply ws s)

variable {apply} {writes : τ → σ → Option (List ω)}

theorem serial_snoc (ts : List τ) (t : τ) (s : σ) :
    serial apply writes (ts ++ [t]) s =
      (serial apply writes ts s).bind fun s' => (writes t s').map fun ws => applyAll apply ws s' := by
  induction ts generalizing s with
  | nil => simp only [List.nil_append, serial, Option.bind_some, Option.map_eq_bind, Function.comp_def]
  | cons u ts ih => simp only [List.cons_append, serial, ih, Option.bind_assoc]

/-- Issuing the writes of a transaction that reads what the settled state would
give it is running it after all the earlier ones. -/
theorem serial_issue {s₀ : σ} {d : DelayedWrites σ ω} {ts : List τ} {t : τ} {ws : List ω}
    (before : serial apply writes ts s₀ = some (d.settled apply)) (reads : writes t (d.settled apply) = some ws) :
    serial apply writes (ts ++ [t]) s₀ = some ((d.issue ws).settled apply) := by
  rw [serial_snoc, before, Option.bind_some, reads, Option.map_some, settled_issue]

end DelayedWrites

end Lib
