import Fula.Graph.OpenDbs

/-!
# What a box says on the open-dbs topic

Whatever its clients ask for and whatever arrives on the topic, from boxes or
from anybody else, a box publishes one message for each request that it hears
and no other. The lists in these messages name collections that its own clients
have asked for: what it learns from other boxes it opens, but does not pass on.
-/

namespace Fula.Graph.OpenDbs
set_option autoImplicit false
open Lib DbCollections

section
variable (parse : Bytes → Option Json)

/-- A message on the topic that asks for the collections. -/
def asks (msg : Message) : Bool :=
  msg.topicIDs.contains "open-dbs" &&
    match (parse msg.data).bind (property "ROI") with
    | some (.str roi) => roi == "req"
    | _ => false

/-- What is published in a step. -/
def reply (b : Box) : Act → Option Announcement
  | .message msg => if asks parse msg then some (b.announcement (some "res")) else none
  | _ => none

end

section
variable {parse : Bytes → Option Json} {toString_ : Json → Option String} {positive : List Char → Bool}
  {b b' : Box} {a : Act}

theorem handleDBNameReceived_published (b : Box) (msg : Message) :
    (handleDBNameReceived parse toString_ b msg).1.published =
      b.published ++ (reply parse b (.message msg)).toList := by
  have silent : ∀ elements, (openShared toString_ b elements).1.published = b.published := by
    intro elements
    obtain ⟨more, same, -⟩ := openShared_frame toString_ b elements
    rw [same]
  unfold handleDBNameReceived
  split
  · next off =>
    have elsewhere : msg.topicIDs.contains "open-dbs" = false := by simpa using off
    simp only [reply, asks, elsewhere, Bool.false_and, Bool.false_eq_true, if_false, Option.toList, List.append_nil]
  · next on =>
    have here : msg.topicIDs.contains "open-dbs" = true := by simpa using on
    split
    · next unreadable => simp [reply, asks, unreadable]
    · next null => simp [reply, asks, null, property]
    · next data _ read =>
      split
      · next roi =>
        simp only [reply, asks, here, read, roi, Option.bind_some, Bool.true_and, beq_self_eq_true, if_true,
          Option.toList]
      · next other =>
        have none_ : reply parse b (.message msg) = none := by
          simp only [reply, asks, here, read, Bool.true_and, Option.bind_some]
          split
          · next roi same => exact if_neg fun asked => other (by rw [same, beq_iff_eq.1 asked])
          · exact if_neg Bool.false_ne_true
        rw [none_, Option.toList, List.append_nil]
        split
        · rfl
        · exact silent _

/-- Nothing but a request makes a box publish anything: no list of peers is above 0. -/
theorem step_published (moved : step parse toString_ positive b a = some b') :
    b'.published = b.published ++ (reply parse b a).toList := by
  cases step_moves moved with
  | message msg => exact handleDBNameReceived_published b msg
  | ready => simp [reply]
  | request ready =>
    unfold loadDB
    split <;> simp [reply]
  | goes at_ follows how =>
    rcases how with (rfl | ⟨found, rfl⟩) | ⟨rfl, -⟩ <;> simp [reply, Box.set]
  | recorded at_ => simp [reply, Box.set]
  | told at_ some_ =>
    rw [connected_eq_false] at some_
    cases some_
  | @round j db rest at_ =>
    obtain ⟨more, same, -⟩ := openShared_frame toString_ { b with loaded := b.loaded ++ [db] } rest
    simp [reply, Box.set, same]
  | rejects here pending => simp [reply, Box.set]

/-! ## Where the names come from -/

/-- The collections of the table, those that `loadDB` works on and those of the messages, when clients have asked
for some. -/
structure OwnNames (asked : String → Prop) (b : Box) : Prop where
  table : ∀ name ∈ b.dbCollections.map (·.1), asked name
  loading : ∀ name at_, .loadDB name at_ ∈ b.processes → asked name
  published : ∀ message ∈ b.published, ∃ names, message = { roi := some "res", list := some names } ∧ ∀ name ∈ names, asked name

theorem OwnNames.mono {asked asked' : String → Prop} (more : ∀ name, asked name → asked' name) (h : OwnNames asked b) :
    OwnNames asked' b where
  table := fun name there => more name (h.table name there)
  loading := fun name at_ there => more name (h.loading name at_ there)
  published := fun message there => by
    obtain ⟨names, same, own⟩ := h.published message there
    exact ⟨names, same, fun name listed => more name (own name listed)⟩

theorem OwnNames.init (asked : String → Prop) : OwnNames asked {} := ⟨by simp, by simp, by simp⟩

theorem OwnNames.step {asked : String → Prop} (h : OwnNames asked b) (own : ∀ name, a = .request name → asked name)
    (moved : OpenDbs.step parse toString_ positive b a = some b') : OwnNames asked b' := by
  have published : ∀ message ∈ b'.published, ∃ names, message = { roi := some "res", list := some names } ∧
      ∀ name ∈ names, asked name := by
    intro message member
    rw [step_published moved] at member
    rcases List.mem_append.1 member with before | now
    · exact h.published message before
    · refine ⟨b.dbCollections.objectKeys, ?_, fun name listed => h.table name (Properties.mem_objectKeys.1 listed)⟩
      cases a with
      | message msg =>
        simp only [reply] at now
        split at now
        · simpa [Box.announcement] using now
        · cases now
      | _ => cases now
  -- a process that is not a new call of `loadDB` was one of the same name before
  have set : ∀ {i : Nat} {p p' : Process}, b.processes[i]? = some p →
      (∀ name at_, p' = .loadDB name at_ → ∃ at_', p = .loadDB name at_') →
      ∀ name at_, .loadDB name at_ ∈ b.processes.set i p' → asked name := by
    intro i p p' here same name at_ member
    rcases List.mem_or_eq_of_mem_set member with before | rfl
    · exact h.loading name at_ before
    · obtain ⟨at_', rfl⟩ := same name at_ rfl
      exact h.loading name at_' (List.mem_of_getElem? here)
  cases step_moves moved with
  | ready => exact ⟨h.table, h.loading, published⟩
  | @request n ready =>
    refine ⟨fun name there => h.table name ?_, fun name at_ there => ?_, published⟩
    · unfold loadDB at there
      split at there <;> exact there
    · obtain ⟨last, more⟩ := loadDB_processes b n
      rw [more, List.mem_append, List.mem_singleton] at there
      rcases there with before | new
      · exact h.loading name at_ before
      · cases new
        exact own n rfl
  | message msg =>
    obtain ⟨docs, messages, same, -⟩ := handleDBNameReceived_frame parse toString_ b msg
    refine ⟨fun name there => h.table name ?_, fun name at_ there => h.loading name at_ ?_, published⟩
    · simpa [same] using there
    · simpa [same] using there
  | goes at_ follows =>
    refine ⟨h.table, set at_ fun name at_' same => ?_, published⟩
    cases follows <;> cases same <;> exact ⟨_, rfl⟩
  | @recorded j n db at_ =>
    refine ⟨fun name there => ?_, set at_ fun name at_' same => ?_, published⟩
    · simp only [Box.set, Properties.keys_assign] at there
      split at there
      · exact h.table name there
      · rcases List.mem_append.1 there with before | new
        · exact h.table name before
        · rw [List.mem_singleton] at new
          subst new
          exact h.loading name _ (List.mem_of_getElem? at_)
    · cases same
      exact ⟨_, rfl⟩
  | told at_ some_ =>
    rw [connected_eq_false] at some_
    cases some_
  | @round j db rest at_ =>
    obtain ⟨docs, same, -⟩ := openShared_frame toString_ { b with loaded := b.loaded ++ [db] } rest
    refine ⟨fun name there => h.table name ?_, ?_, published⟩
    · simpa [Box.set, same] using there
    · simp only [Box.set, same]
      exact set at_ fun name at_' same => by cases same
  | rejects here pending => exact ⟨h.table, set here fun name at_' same => (by cases same), published⟩

/-- **What a box publishes in its life**: one answer for every request it hears, in the order in which it hears them,
each with the collections of its table at that moment, and nothing else; and every collection that it names is one that
a client of its own has asked for before. -/
theorem published_eq {acts : List Act} (reached : run (step parse toString_ positive) {} acts = some b) :
    b.published = trace (step parse toString_ positive) (reply parse) {} acts ∧
      ∀ message ∈ b.published, ∃ names, message = { roi := some "res", list := some names } ∧
        ∀ name ∈ names, .request name ∈ acts := by
  constructor
  · refine run_trace (I := fun messages b => b.published = messages) rfl ?_ (fun _ _ => trivial) reached
    rintro messages m a m' rfl - moved
    exact step_published moved
  · refine (run_history (I := fun acts => OwnNames (.request · ∈ acts)) (.init _) ?_ reached).published
    intro acts a b b' own moved
    exact (own.mono fun name => List.mem_append_left _).step (fun name same => by simp [same]) moved

end

/-- `{"ROI":"req"}` on the topic: another box that has just started. -/
def sampleRequest : Message :=
  ⟨["open-dbs"], [0x7b, 0x22, 0x52, 0x4f, 0x49, 0x22, 0x3a, 0x22, 0x72, 0x65, 0x71, 0x22, 0x7d]⟩

def parseRequest (data : Bytes) : Option Json :=
  if data = sampleRequest.data then some (.obj [("ROI", .str "req")]) else none

def sampleActs : List Act :=
  [.ready, .message sampleRequest, .request "profile", .resolve 1, .resolve 1, .message sampleRequest]

/-- The second of two requests finds the collection that was opened in between. -/
theorem published_eq_sample :
    ∃ b, run (step parseRequest (fun _ => none) fun _ => true) {} sampleActs = some b ∧
      b.published = [⟨some "res", some []⟩, ⟨some "res", some ["profile"]⟩] ∧
      b.published = trace (step parseRequest (fun _ => none) fun _ => true) (reply parseRequest) {} sampleActs := by
  have reached : ∃ b, run (step parseRequest (fun _ => none) fun _ => true) {} sampleActs = some b ∧
      b.published = [⟨some "res", some []⟩, ⟨some "res", some ["profile"]⟩] := ⟨_, rfl, rfl⟩
  obtain ⟨b, reached, answers⟩ := reached
  exact ⟨b, reached, answers, (published_eq reached).1⟩

end Fula.Graph.OpenDbs
