import Fula.Graph.Announcements

/-!
# Boxes on one topic

Boxes whose messages on the open-dbs topic reach each other, or get lost, or arrive late and more than
once. Each box opens what it is told of, and goes on telling of its own collections alone, so a name
goes from the box whose client asked for it to the others, and no further.

`opened_asked` says of every store where its name comes from.
-/

namespace Fula.Graph.OpenDbs
set_option autoImplicit false
open Lib DbCollections

/-! ## The names of a message -/

/-- `{list: [...], ROI: ...}`, as it is read back. -/
def json (said : Announcement) : Json :=
  .obj ((said.list.map fun names => ("list", .arr (names.map .str))).toList ++
    (said.roi.map fun roi => ("ROI", .str roi)).toList)

/-- What a message lists. -/
def listed (parse : Bytes → Option Json) (msg : Message) : List Json :=
  (((parse msg.data).bind (property "list")).bind iterated).getD []

theorem listed_json {parse : Bytes → Option Json} {msg : Message} {said : Announcement}
    (read : parse msg.data = some (json said)) : listed parse msg = (said.list.getD []).map .str := by
  obtain ⟨roi, list⟩ := said
  cases list with
  | none => cases roi <;> simp [listed, read, json, property, List.lookup]
  | some names => cases roi <;> simp [listed, read, json, property, iterated]

/-- The elements that a call of `handleDBNameReceived` has still to visit. -/
def HandleAt.rest : HandleAt → List Json
  | .docs _ rest | .load _ rest => rest
  | .publish | .returned | .rejected => []

section
variable {parse : Bytes → Option Json} {toString_ : Json → Option String} {positive : List Char → Bool}
  {b b' : Box} {a : OpenDbs.Act}

/-- The loop opens and keeps elements that it was given. -/
theorem openShared_among (toString_ : Json → Option String) (b : Box) (elements : List Json) :
    (∀ entry ∈ (openShared toString_ b elements).1.docs, entry ∈ b.docs ∨ entry.1 ∈ elements) ∧
      ∀ e ∈ (openShared toString_ b elements).2.rest, e ∈ elements := by
  rcases openShared_cases toString_ b elements with ⟨same, -⟩ | ⟨skipped, e, rest, key, rfl, -, -, -, -, same⟩ | ⟨same, -⟩
  · rw [same]
    exact ⟨fun entry there => .inl there, by simp [HandleAt.rest]⟩
  · rw [same]
    refine ⟨fun entry there => ?_, fun e' there => ?_⟩
    · rcases List.mem_append.1 there with old | new
      · exact .inl old
      · rw [List.mem_singleton.1 new]
        exact .inr (by simp)
    · exact List.mem_append_right _ (List.mem_cons_of_mem _ there)
  · rw [same]
    exact ⟨fun entry there => .inl there, by simp [HandleAt.rest]⟩

theorem handleDBNameReceived_among (parse : Bytes → Option Json) (toString_ : Json → Option String) (b : Box) (msg : Message) :
    (∀ entry ∈ (handleDBNameReceived parse toString_ b msg).1.docs, entry ∈ b.docs ∨ entry.1 ∈ listed parse msg) ∧
      ∀ e ∈ (handleDBNameReceived parse toString_ b msg).2.rest, e ∈ listed parse msg := by
  have nothing : (∀ entry ∈ b.docs, entry ∈ b.docs ∨ entry.1 ∈ listed parse msg) ∧ ∀ e ∈ ([] : List Json), e ∈ listed parse msg :=
    ⟨fun entry there => .inl there, by simp⟩
  unfold handleDBNameReceived
  split
  · exact nothing
  · split
    · exact nothing
    · exact nothing
    · next data _ read =>
      split
      · exact nothing
      · split
        · exact nothing
        · next elements given =>
          have all : listed parse msg = elements := by simp [listed, read, given]
          rw [all]
          exact openShared_among toString_ b elements

/-! ## What a box opens -/

/-- Every store that has been opened, and every element still to be visited, is one of some names. -/
structure Opened (asked : String → Prop) (b : Box) : Prop where
  docs : ∀ entry ∈ b.docs, ∃ name, entry.1 = .str name ∧ asked name
  rest : ∀ at_, .handleDBNameReceived at_ ∈ b.processes → ∀ e ∈ at_.rest, ∃ name, e = .str name ∧ asked name

theorem Opened.init (asked : String → Prop) : Opened asked {} := ⟨by simp, by simp⟩

theorem Opened.mono {asked asked' : String → Prop} (more : ∀ name, asked name → asked' name) (h : Opened asked b) :
    Opened asked' b where
  docs := fun entry there => (h.docs entry there).imp fun name own => ⟨own.1, more name own.2⟩
  rest := fun at_ there e left => (h.rest at_ there e left).imp fun name own => ⟨own.1, more name own.2⟩

/-- A process that goes on has no other elements than before. -/
theorem Opened.set {asked : String → Prop} {i : Nat} {p p' : Process} (h : Opened asked b) (here : b.processes[i]? = some p)
    (same : ∀ at_, p' = .handleDBNameReceived at_ → ∀ e ∈ at_.rest, ∃ at', p = .handleDBNameReceived at' ∧ e ∈ at'.rest) :
    Opened asked (b.set i p') where
  docs := h.docs
  rest := fun at_ there e left => by
    rcases List.mem_or_eq_of_mem_set there with old | rfl
    · exact h.rest at_ old e left
    · obtain ⟨at', rfl, before⟩ := same at_ rfl e left
      exact h.rest at' (List.mem_of_getElem? here) e before

/-- **What one step opens** has been asked for, or is listed by the message. -/
theorem Opened.step {asked : String → Prop} (h : Opened asked b) (own : ∀ name, a = .request name → asked name)
    (told : ∀ msg, a = .message msg → ∀ e ∈ listed parse msg, ∃ name, e = .str name ∧ asked name)
    (moved : OpenDbs.step parse toString_ positive b a = some b') : Opened asked b' := by
  cases step_moves moved with
  | ready => exact ⟨h.docs, h.rest⟩
  | @request n ready =>
    refine ⟨fun entry there => ?_, fun at_ there => ?_⟩
    · unfold loadDB at there
      split at there
      · exact h.docs entry there
      · rcases List.mem_append.1 there with old | new
        · exact h.docs entry old
        · rw [List.mem_singleton.1 new]
          exact ⟨n, rfl, own n rfl⟩
    · obtain ⟨last, more⟩ := loadDB_processes b n
      rw [more, List.mem_append, List.mem_singleton] at there
      rcases there with old | new
      · exact h.rest at_ old
      · cases new
  | message msg =>
    obtain ⟨docs, rest⟩ := handleDBNameReceived_among parse toString_ b msg
    obtain ⟨more, messages, same, -⟩ := handleDBNameReceived_frame parse toString_ b msg
    refine ⟨fun entry there => ?_, fun at_ there e left => ?_⟩
    · rcases docs entry there with old | new
      · exact h.docs entry old
      · exact told msg rfl _ new
    · rcases List.mem_append.1 there with old | new
      · rw [same] at old
        exact h.rest at_ old e left
      · cases List.mem_singleton.1 new
        exact told msg rfl e (rest e left)
  | goes at_ follows =>
    refine h.set at_ fun at' same e left => ?_
    cases follows <;> cases same
    · exact ⟨_, rfl, left⟩
    · cases left
  | @recorded j n db at_ =>
    have loaded : Opened asked { b with loaded := b.loaded ++ [db], dbCollections := b.dbCollections.assign n db } :=
      ⟨h.docs, h.rest⟩
    exact loaded.set at_ fun at' same => by cases same
  | told at_ some_ =>
    rw [connected_eq_false] at some_
    cases some_
  | @round j db rest at_ =>
    have waiting := h.rest _ (List.mem_of_getElem? at_)
    obtain ⟨docs, left⟩ := openShared_among toString_ { b with loaded := b.loaded ++ [db] } rest
    obtain ⟨more, same, -⟩ := openShared_frame toString_ { b with loaded := b.loaded ++ [db] } rest
    refine ⟨fun entry there => ?_, fun at' there e here => ?_⟩
    · rcases docs entry there with old | new
      · exact h.docs entry old
      · exact waiting _ new
    · rcases List.mem_or_eq_of_mem_set there with old | new
      · rw [same] at old
        exact h.rest at' old e here
      · cases new
        exact waiting e (left e here)
  | rejects here pending =>
    refine h.set here fun at' same e left => ?_
    cases same
    cases left

end

/-! ## Many boxes -/

namespace Network

inductive Act where
  /-- A step of box `i` that is not a message. -/
  | box (i : Nat) (a : OpenDbs.Act)
  /-- What a box has said on the topic reaches box `i`. -/
  | deliver (i : Nat) (said : Announcement)

section
variable (parse : Bytes → Option Json) (toString_ : Json → Option String) (positive : List Char → Bool)
  (encode : Announcement → Bytes)

/-- What a box publishes when it starts. -/
def startRequest : Announcement := { roi := some "req" }

def step (boxes : List Box) : Act → Option (List Box)
  | .box _ (.message _) => none
  | .box i a => each (OpenDbs.step parse toString_ positive) boxes (i, a)
  | .deliver i said =>
    if said = startRequest ∨ ∃ b ∈ boxes, said ∈ b.published then
      each (OpenDbs.step parse toString_ positive) boxes (i, .message ⟨["open-dbs"], encode said⟩)
    else none

end

section
variable {parse : Bytes → Option Json} {toString_ : Json → Option String} {positive : List Char → Bool}
  {encode : Announcement → Bytes} {acts : List Act} {boxes boxes' : List Box} {i : Nat} {b : Box}

/-- A client of box `i` has asked for a collection. -/
def AskedOf (acts : List Act) (i : Nat) (name : String) : Prop := .box i (.request name) ∈ acts

def Asked (acts : List Act) (name : String) : Prop := ∃ i, AskedOf acts i name

/-- Each box tells of what its own clients have asked for, and opens what clients anywhere have. -/
def Inv (acts : List Act) (boxes : List Box) : Prop :=
  ∀ (i : Nat) b, boxes[i]? = some b → OwnNames (AskedOf acts i) b ∧ Opened (Asked acts) b

theorem Inv.move {a : Act} {own : OpenDbs.Act} (inv : Inv acts boxes)
    (asks_ : ∀ name, own = .request name → AskedOf (acts ++ [a]) i name)
    (told : ∀ msg, own = .message msg → ∀ e ∈ listed parse msg, ∃ name, e = .str name ∧ Asked acts name)
    (moved : each (OpenDbs.step parse toString_ positive) boxes (i, own) = some boxes') : Inv (acts ++ [a]) boxes' := by
  have later (j : Nat) (name : String) (before : AskedOf acts j name) : AskedOf (acts ++ [a]) j name :=
    List.mem_append_left _ before
  have anywhere (name : String) (before : Asked acts name) : Asked (acts ++ [a]) name :=
    before.imp fun j own => later j name own
  simp only [each, Option.bind_eq_some_iff, Option.map_eq_some_iff] at moved
  obtain ⟨b, here, b', first, rfl⟩ := moved
  intro j c there
  by_cases same : i = j
  · subst same
    rw [List.getElem?_set_self (List.getElem?_eq_some_iff.1 here).1, Option.some.injEq] at there
    subst there
    obtain ⟨names, opened⟩ := inv i b here
    refine ⟨(names.mono (later i)).step asks_ first, (opened.mono anywhere).step ?_ ?_ first⟩
    · exact fun name request => ⟨i, asks_ name request⟩
    · exact fun msg message e there => (told msg message e there).imp fun name own => ⟨own.1, anywhere name own.2⟩
  · rw [List.getElem?_set_ne same] at there
    obtain ⟨names, opened⟩ := inv j c there
    exact ⟨names.mono (later j), opened.mono anywhere⟩

theorem Inv.step {a : Act} (inv : Inv acts boxes)
    (read : ∀ i said, a = .deliver i said → parse (encode said) = some (json said))
    (moved : Network.step parse toString_ positive encode boxes a = some boxes') : Inv (acts ++ [a]) boxes' := by
  cases a with
  | box i a =>
    have moved' : each (OpenDbs.step parse toString_ positive) boxes (i, a) = some boxes' ∧ ∀ msg, a ≠ .message msg := by
      cases a with
      | message msg => cases moved
      | _ => exact ⟨moved, fun _ same => by cases same⟩
    refine inv.move ?_ (fun msg same => absurd same (moved'.2 msg)) moved'.1
    rintro name rfl
    simp [AskedOf]
  | deliver i said =>
    simp only [Network.step] at moved
    split at moved
    · next heard =>
      refine inv.move (fun name same => by cases same) ?_ moved
      rintro msg same e there
      cases same
      rw [listed_json (read i said rfl), List.mem_map] at there
      obtain ⟨name, listed_, rfl⟩ := there
      refine ⟨name, rfl, ?_⟩
      rcases heard with rfl | ⟨b, member, published⟩
      · cases listed_
      · obtain ⟨j, at_⟩ := List.mem_iff_getElem?.1 member
        obtain ⟨names, rfl, own⟩ := (inv j b at_).1.published said published
        exact ⟨j, own name listed_⟩
    · cases moved

/-- **Where collections come from**: however many boxes there are, and however their messages are lost, delayed and repeated,
every store that a box opens has a name that a client of some box has asked for before, and what a box tells the others of
is what its own clients have. What is sent is taken to be read as it was written. -/
theorem opened_asked {n : Nat} (read : ∀ i said, .deliver i said ∈ acts → parse (encode said) = some (json said))
    (reached : run (Network.step parse toString_ positive encode) (List.replicate n {}) acts = some boxes)
    (at_ : boxes[i]? = some b) :
    (∀ entry ∈ b.docs, ∃ name, entry.1 = .str name ∧ ∃ j, .box j (.request name) ∈ acts) ∧
      ∀ said ∈ b.published, ∃ names, said = { roi := some "res", list := some names } ∧
        ∀ name ∈ names, .box i (.request name) ∈ acts := by
  have inv : (∀ i said, .deliver i said ∈ acts → parse (encode said) = some (json said)) → Inv acts boxes := by
    refine run_history (I := fun acts boxes =>
      (∀ i said, .deliver i said ∈ acts → parse (encode said) = some (json said)) → Inv acts boxes) ?_ ?_ reached
    · intro _ i b here
      obtain rfl : b = {} := List.eq_of_mem_replicate (List.mem_of_getElem? here)
      exact ⟨.init _, .init _⟩
    · intro acts a boxes boxes' inv moved read
      refine (inv fun i said there => read i said (by simp [there])).step (fun i said same => read i said ?_) moved
      simp [same]
  obtain ⟨names, opened⟩ := inv read i b at_
  exact ⟨opened.docs, names.published⟩

end

/-- `{"list":["a"],"ROI":"res"}` -/
def sampleAnswer : Announcement := { roi := some "res", list := some ["a"] }

def sampleEncode (said : Announcement) : Bytes :=
  if said = sampleAnswer then
    [0x7b, 0x22, 0x6c, 0x69, 0x73, 0x74, 0x22, 0x3a, 0x5b, 0x22, 0x61, 0x22, 0x5d, 0x2c, 0x22, 0x52, 0x4f, 0x49, 0x22, 0x3a,
      0x22, 0x72, 0x65, 0x73, 0x22, 0x7d]
  else sampleRequest.data

def sampleRead (data : Bytes) : Option Json :=
  if data = sampleEncode sampleAnswer then some (json sampleAnswer) else parseRequest data

/-- A client of the first box asks for a collection; the second box starts, and opens it too. -/
def spreadActs : List Act := [.box 0 .ready, .box 0 (.request "a"), .box 0 (.resolve 0), .box 0 (.resolve 0),
  .box 1 .ready, .deliver 0 startRequest, .deliver 1 sampleAnswer]

theorem opened_asked_sample : ∃ (boxes : List Box) (b : Box),
    run (Network.step sampleRead (fun _ => none) (fun _ => true) sampleEncode) (List.replicate 2 {}) spreadActs = some boxes ∧
      boxes[1]? = some b ∧ b.docs = [(.str "a", options)] ∧
      (∀ entry ∈ b.docs, ∃ name, entry.1 = .str name ∧ ∃ j, .box j (.request name) ∈ spreadActs) ∧
      ∀ said ∈ b.published, ∃ names, said = { roi := some "res", list := some names } ∧
        ∀ name ∈ names, .box 1 (.request name) ∈ spreadActs := by
  have read : ∀ i said, .deliver i said ∈ spreadActs → sampleRead (sampleEncode said) = some (json said) := by
    intro i said there
    simp only [spreadActs, List.mem_cons, List.not_mem_nil, or_false] at there
    rcases there with same | same | same | same | same | same | same <;> cases same
    · rfl
    · rfl
  have reached : ∃ (boxes : List Box) (b : Box),
      run (Network.step sampleRead (fun _ => none) (fun _ => true) sampleEncode) (List.replicate 2 {}) spreadActs = some boxes ∧
        boxes[1]? = some b ∧ b.docs = [(.str "a", options)] := ⟨_, _, rfl, rfl, rfl⟩
  obtain ⟨boxes, b, reached, at_, opens⟩ := reached
  exact ⟨boxes, b, reached, at_, opens, opened_asked read reached at_⟩

end Network

end Fula.Graph.OpenDbs
