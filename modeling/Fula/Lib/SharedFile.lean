import Mathlib.Data.List.Basic

/-!
# A file that is overwritten by many

A write of a whole file opens it, which empties it, and then writes its text piece by piece at its
own offset. Nobody waits for anybody: a write may open the file while another is still writing, or
a later one before an earlier one, and each may fail at any point.

`Serial` says what holds as long as each write opens the file only when no other is writing and none
that was started later has opened it (`InTurn`): the file has what the last one to open it has
written so far.
-/

namespace Lib
set_option autoImplicit false

/-- Where a write is. -/
inductive WriteState where
  | waiting
  /-- The file could not be opened. -/
  | refused
  /-- So much of the text has been written. -/
  | writing (done : Nat)
  /-- A piece could not be written. -/
  | broken
  deriving DecidableEq, Repr

/-- It has opened the file. -/
def WriteState.Begun : WriteState → Prop
  | writing _ | broken => True
  | _ => False

structure FileWrite (β : Type) where
  text : List β
  state : WriteState := .waiting

structure SharedFile (β : Type) where
  content : Option (List β) := none
  writes : List (FileWrite β) := []

namespace SharedFile

variable {β : Type}

/-- The content after a piece has been written at an offset; a gap before it is filled up. -/
def writeAt [Inhabited β] (content : List β) (offset : Nat) (piece : List β) : List β :=
  (content ++ List.replicate (offset - content.length) default).take offset ++ piece ++ content.drop (offset + piece.length)

inductive Act (β : Type) where
  | start (text : List β)
  | open_ (i : Nat)
  /-- The next `n` of the text are written. -/
  | write (i n : Nat)
  | fail (i : Nat)

def setState (f : SharedFile β) (i : Nat) (w : FileWrite β) (state : WriteState) : SharedFile β :=
  { f with writes := f.writes.set i { w with state } }

def step [Inhabited β] (f : SharedFile β) : Act β → Option (SharedFile β)
  | .start text => some { f with writes := f.writes ++ [{ text }] }
  | .open_ i => (f.writes[i]?).bind fun w =>
    match w.state with
    | .waiting => some { f.setState i w (.writing 0) with content := some [] }
    | _ => none
  | .write i n => (f.writes[i]?).bind fun w =>
    match w.state with
    | .writing done =>
      if 0 < n ∧ done + n ≤ w.text.length then
        some { f.setState i w (.writing (done + n)) with
          content := some (writeAt (f.content.getD []) done ((w.text.drop done).take n)) }
      else none
    | _ => none
  | .fail i => (f.writes[i]?).bind fun w =>
    match w.state with
    | .waiting => some (f.setState i w .refused)
    | .writing _ => some (f.setState i w .broken)
    | _ => none

/-! ## One write at a time -/

/-- The write is at work. -/
def Busy (w : FileWrite β) : Prop := ∃ done, w.state = .writing done ∧ done < w.text.length

/-- The whole text has been written. -/
def Complete (w : FileWrite β) : Prop := w.state = .writing w.text.length

/-- None that was started later has opened the file. -/
def Newest (f : SharedFile β) (k : Nat) : Prop := ∀ (j : Nat) w, k < j → f.writes[j]? = some w → ¬w.state.Begun

/-- The file is opened by one write after the other, in the order in which they were started. -/
def InTurn (f : SharedFile β) : Act β → Prop
  | .open_ i => (∀ w ∈ f.writes, ¬Busy w) ∧ f.Newest i
  | _ => True

structure Serial (f : SharedFile β) : Prop where
  /-- Only the last write to open the file is at work. -/
  busy : ∀ (k : Nat) w, f.writes[k]? = some w → Busy w → f.Newest k ∧ ∀ (j : Nat) w', f.writes[j]? = some w' → Busy w' → j = k
  content : ∀ (k : Nat) w done, f.writes[k]? = some w → w.state = .writing done → f.Newest k →
    f.content = some (w.text.take done)

variable {f f' : SharedFile β} {i : Nat} {w : FileWrite β}

theorem setState_get (at_ : f.writes[i]? = some w) (state : WriteState) (j : Nat) :
    (f.setState i w state).writes[j]? = if j = i then some { w with state } else f.writes[j]? := by
  have inside := (List.getElem?_eq_some_iff.1 at_).1
  by_cases same : j = i
  · subst same
    simp [setState, inside]
  · simp [setState, same, Ne.symm same]

/-- Where a write has opened the file neither less nor more than before, the same ones are the newest. -/
theorem newest_congr {state : WriteState} (at_ : f.writes[i]? = some w) (same : state.Begun ↔ w.state.Begun) (k : Nat) :
    (f.setState i w state).Newest k ↔ f.Newest k := by
  constructor
  · intro newest j w' later there begun
    by_cases here : j = i
    · subst here
      rw [at_, Option.some.injEq] at there
      subst there
      exact newest j _ later (by rw [setState_get at_, if_pos rfl]) (same.2 begun)
    · exact newest j w' later (by rw [setState_get at_, if_neg here, there]) begun
  · intro newest j w' later there begun
    rw [setState_get at_] at there
    split at there
    · next here =>
      cases there
      exact newest j w later (by rw [here, at_]) (same.1 begun)
    · exact newest j w' later there begun

/-- Of two that have opened the file, the newest is not the earlier one. -/
theorem not_newest {k j : Nat} (there : f.writes[j]? = some w) (begun : w.state.Begun) (newest : f.Newest k) : j ≤ k := by
  by_contra later
  exact newest j w (Nat.lt_of_not_le later) there begun

theorem begun_of_writing {done : Nat} (state : w.state = .writing done) : w.state.Begun := by
  rw [state]
  trivial

theorem Serial.start (h : Serial f) (text : List β) : Serial { f with writes := f.writes ++ [{ text }] } := by
  -- the new write has not opened the file
  have get {j : Nat} {w : FileWrite β} (there : (f.writes ++ [FileWrite.mk text .waiting])[j]? = some w) (begun : w.state.Begun) :
      f.writes[j]? = some w := by
    rcases Nat.lt_or_ge j f.writes.length with old | new
    · rwa [List.getElem?_append_left old] at there
    · rw [List.getElem?_append_right new] at there
      obtain rfl := List.mem_singleton.1 (List.mem_of_getElem? there)
      exact begun.elim
  have kept {j : Nat} {w : FileWrite β} (there : f.writes[j]? = some w) :
      (f.writes ++ [FileWrite.mk text .waiting])[j]? = some w := by
    rw [List.getElem?_append_left (List.getElem?_eq_some_iff.1 there).1, there]
  have newest {k : Nat} : ({ f with writes := f.writes ++ [{ text }] } : SharedFile β).Newest k ↔ f.Newest k := by
    constructor
    · exact fun all j w later there => all j w later (kept there)
    · exact fun all j w later there begun => all j w later (get there begun) begun
  have begun {w : FileWrite β} : Busy w → w.state.Begun := fun ⟨_, state, _⟩ => begun_of_writing state
  refine ⟨fun k w there busy => ?_, fun k w done there state last => ?_⟩
  · obtain ⟨last, only⟩ := h.busy k w (get there (begun busy)) busy
    exact ⟨newest.2 last, fun j w' there' busy' => only j w' (get there' (begun busy')) busy'⟩
  · exact h.content k w done (get there (begun_of_writing state)) state (newest.1 last)

theorem serial_open (at_ : f.writes[i]? = some w) (idle : ∀ w ∈ f.writes, ¬Busy w) (newest : f.Newest i) :
    Serial { f.setState i w (.writing 0) with content := some [] } := by
  have others {j : Nat} {w' : FileWrite β} (there : (f.setState i w (.writing 0)).writes[j]? = some w') (busy : Busy w') : j = i := by
    rw [setState_get at_] at there
    split at there
    · assumption
    · exact absurd busy (idle w' (List.mem_of_getElem? there))
  refine ⟨fun k w' there busy => ?_, fun k w' done there state last => ?_⟩
  · obtain rfl := others there busy
    refine ⟨fun j w'' later there' => ?_, fun j w'' there' busy' => others there' busy'⟩
    rw [setState_get at_, if_neg (Nat.ne_of_gt later)] at there'
    exact newest j w'' later there'
  · have opened : (f.setState i w (.writing 0)).writes[i]? = some { w with state := .writing 0 } := by
      rw [setState_get at_, if_pos rfl]
    have le : i ≤ k := not_newest opened trivial last
    have inside : (f.setState i w (.writing 0)).writes[k]? = some w' := there
    rw [setState_get at_] at inside
    split at inside
    · cases inside
      cases state
      rfl
    · next other =>
      exact absurd (begun_of_writing state) (newest k w' (by omega) inside)

theorem writeAt_take [Inhabited β] {text : List β} {done n : Nat} (inside : done + n ≤ text.length) :
    writeAt (text.take done) done ((text.drop done).take n) = text.take (done + n) := by
  have length : (text.take done).length = done := by
    rw [List.length_take]
    omega
  have nothing : (text.take done).drop (done + ((text.drop done).take n).length) = [] :=
    List.drop_eq_nil_of_le (by omega)
  rw [writeAt, length, nothing, Nat.sub_self, List.replicate_zero, List.append_nil, List.append_nil,
    List.take_of_length_le (Nat.le_of_eq length), List.take_add]

theorem Serial.write [Inhabited β] {done n : Nat} (h : Serial f) (at_ : f.writes[i]? = some w) (state : w.state = .writing done)
    (some_ : 0 < n) (inside : done + n ≤ w.text.length) :
    Serial { f.setState i w (.writing (done + n)) with
      content := some (writeAt (f.content.getD []) done ((w.text.drop done).take n)) } := by
  have busy : Busy w := ⟨done, state, by omega⟩
  obtain ⟨newest, only⟩ := h.busy i w at_ busy
  have same (k : Nat) : (f.setState i w (.writing (done + n))).Newest k ↔ f.Newest k :=
    newest_congr at_ (by rw [state]; exact Iff.rfl) k
  have others {j : Nat} {w' : FileWrite β} (there : (f.setState i w (.writing (done + n))).writes[j]? = some w')
      (busy : Busy w') : j = i := by
    rw [setState_get at_] at there
    split at there
    · assumption
    · exact only j w' there busy
  refine ⟨fun k w' there busy' => ?_, fun k w' done' there state' last => ?_⟩
  · obtain rfl := others there busy'
    exact ⟨(same k).2 newest, fun j w'' there' busy'' => others there' busy''⟩
  · have le : i ≤ k := not_newest at_ (begun_of_writing state) ((same k).1 last)
    have there_ : (f.setState i w (.writing (done + n))).writes[k]? = some w' := there
    rw [setState_get at_] at there_
    split at there_
    · cases there_
      cases state'
      show some (writeAt (f.content.getD []) done _) = _
      rw [h.content i w done at_ state newest, Option.getD_some, writeAt_take inside]
    · next other =>
      exact absurd (begun_of_writing state') (newest k w' (by omega) there_)

/-- A write that fails leaves the file as it is. -/
theorem Serial.fail {state : WriteState} (h : Serial f) (at_ : f.writes[i]? = some w) (same : state.Begun ↔ w.state.Begun)
    (ends : ∀ done, state ≠ .writing done) : Serial (f.setState i w state) := by
  have get {j : Nat} {w' : FileWrite β} {done : Nat} (there : (f.setState i w state).writes[j]? = some w')
      (writing : w'.state = .writing done) : f.writes[j]? = some w' := by
    rw [setState_get at_] at there
    split at there
    · cases there
      exact absurd writing (ends done)
    · exact there
  refine ⟨fun k w' there busy => ?_, fun k w' done there writing last => ?_⟩
  · have ⟨done, writing, _⟩ := busy
    obtain ⟨newest, only⟩ := h.busy k w' (get there writing) busy
    refine ⟨(newest_congr at_ same k).2 newest, fun j w'' there' busy' => ?_⟩
    have ⟨done', writing', _⟩ := busy'
    exact only j w'' (get there' writing') busy'
  · exact h.content k w' done (get there writing) writing ((newest_congr at_ same k).1 last)

theorem Serial.step [Inhabited β] {a : Act β} (h : Serial f) (inTurn : f.InTurn a) (moved : f.step a = some f') : Serial f' := by
  cases a with
  | start text =>
    cases moved
    exact h.start text
  | open_ i =>
    obtain ⟨w, at_, moved⟩ := Option.bind_eq_some_iff.1 moved
    split at moved
    · cases moved
      exact serial_open at_ inTurn.1 inTurn.2
    · cases moved
  | write i n =>
    obtain ⟨w, at_, moved⟩ := Option.bind_eq_some_iff.1 moved
    split at moved
    · next done state =>
      split at moved
      · next fits =>
        cases moved
        exact h.write at_ state fits.1 fits.2
      · cases moved
    · cases moved
  | fail i =>
    obtain ⟨w, at_, moved⟩ := Option.bind_eq_some_iff.1 moved
    split at moved
    · next state =>
      cases moved
      exact h.fail at_ (by rw [state]; exact Iff.rfl) (by simp)
    · next state =>
      cases moved
      exact h.fail at_ (by rw [state]; exact Iff.rfl) (by simp)
    · cases moved

theorem serial_init (content : Option (List β)) : Serial { content } := ⟨by simp, by simp⟩

/-- The last write to be started is complete: the file has its text. -/
theorem Serial.read (h : Serial f) (last : f.writes.getLast? = some w) (complete : Complete w) : f.content = some w.text := by
  rw [List.getLast?_eq_getElem?] at last
  have newest : f.Newest (f.writes.length - 1) := by
    intro j w' later there
    have := (List.getElem?_eq_some_iff.1 there).1
    omega
  rw [h.content _ w _ last complete newest, List.take_length]

end SharedFile

end Lib
