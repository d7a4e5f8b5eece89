import Fula.GraphProtocol.Schema

/-!
# Requests and results on a stream

A request or a result is written to its stream with nothing in front of it.
The multiplexer cuts what is written at once into frames, and each end takes
one frame for one message: the handler the first frame for the request,
`submitQuery` the first frame for the result, `submitSubscriptionQuery` every
frame for a result.

`submit_framed` says when that is right. It holds for every cut because no part
of a message is read as that message, and no part of a result is read at all
but the empty one; a whole message is read as it was written but for what the
reader makes of its strings and keys.
-/

namespace Fula.GraphProtocol
set_option autoImplicit false
open Lib Lib.Wire

/-! ## Frames -/

/-- The frames of one write: consecutive parts of at most `M` bytes. -/
structure Cut (M : Nat) (bs : Bytes) where
  frames : List Bytes
  whole : frames.flatten = bs
  bounded : ∀ frame ∈ frames, frame.length ≤ M

/-- The frames in which a sequence of writes is received. -/
inductive Carried (M : Nat) : List Bytes → List Bytes → Prop
  | nil : Carried M [] []
  | cons {bs : Bytes} {writes frames : List Bytes} (cut : Cut M bs) (rest : Carried M writes frames) :
      Carried M (bs :: writes) (cut.frames ++ frames)

/-- The first frame is all of the message. -/
def WholeFirst (message : Option Bytes) (frames : List Bytes) : Prop :=
  ∃ bs, message = some bs ∧ frames.head? = some bs

/-- What JavaScript holds: an object has one value for each of its keys. -/
abbrev RequestObject := {req : Request // req.Distinct}

abbrev ResultObject := {result : Result // result.Distinct}

/-! ## The two ends -/

/-- `PROTOCOL` -/
def protocol : String := "fx/graph/1"

/-- What `submitQuery` and `submitSubscriptionQuery` write on a stream of this
protocol: nothing where `Request.toBinary` throws. -/
def streamQuerySubmission (req : Request) : List Bytes := req.toBinary.toList

/-- Which of the two resolution methods is called, and with what. -/
inductive Resolution where
  | resolve (request : Request)
  | subscriptionResolve (request : Request)

def resolution (request : Request) : Resolution :=
  if !request.subscribe then .resolve request else .subscriptionResolve request

/-- `handler`, up to the response: the frames after the first are not read, and
without a first `firstValue` throws. -/
def handler (source : List Bytes) : Option Resolution :=
  source.head?.bind fun message => (Request.fromBinary message).map resolution

/-- What the box writes for a query: `none` where the encoding throws, and the response is `Response.EMPTY`. -/
def queryResolution (result : Result) : Option (List Bytes) := result.toBinary.map ([·])

/-- What the box writes for a subscription: the loop ends where an encoding throws. -/
def subscriptionResolution : List Result → List Bytes
  | [] => []
  | result :: results =>
    match result.toBinary with
    | none => []
    | some bytes => bytes :: subscriptionResolution results

/-- What `submitQuery` returns: `none` is an exception, `some none` is `undefined`. -/
def submitQuery (connectionProtocol : String) (source : List Bytes) : Option (Option Result) :=
  if connectionProtocol ≠ protocol then none
  else
    match source with
    | [] => some none
    | result :: _ => (Result.fromBinary result).map some

/-- The loop of `submitSubscriptionQuery`: what is yielded, and whether an exception ends it. -/
def yielded : List Bytes → List Result × Bool
  | [] => ([], false)
  | result :: source =>
    match Result.fromBinary result with
    | none => ([], true)
    | some r => (r :: (yielded source).1, (yielded source).2)

def submitSubscriptionQuery (connectionProtocol : String) (source : List Bytes) : List Result × Bool :=
  if connectionProtocol ≠ protocol then ([], true) else yielded source

/-! ## Lemmas about frames -/

section
variable {M : Nat} {bs frame : Bytes} {frames : List Bytes}

theorem carried_nil (carried : Carried M [] frames) : frames = [] := by
  cases carried
  rfl

theorem carried_one (carried : Carried M [bs] frames) : frames.flatten = bs ∧ ∀ frame ∈ frames, frame.length ≤ M := by
  cases carried with
  | cons cut rest =>
    rw [carried_nil rest, List.append_nil]
    exact ⟨cut.whole, cut.bounded⟩

theorem prefix_of_head (first : frames.head? = some frame) : frame <+: frames.flatten := by
  obtain ⟨rest, rfl⟩ := List.head?_eq_some_iff.1 first
  exact List.prefix_append _ _

/-- Frames of which none is a proper part are empty, but for the whole. -/
theorem frames_whole (whole : frames.flatten = bs)
    (uncut : ∀ frame ∈ frames, frame <+: bs → frame ≠ [] → frame = bs) : ∀ frame ∈ frames, frame = [] ∨ frame = bs := by
  induction frames with
  | nil => exact fun _ member => by cases member
  | cons first frames ih =>
    rw [List.flatten_cons] at whole
    cases first with
    | nil =>
      intro frame member
      rcases List.mem_cons.1 member with rfl | later
      · exact .inl rfl
      · exact ih whole (fun frame member => uncut frame (List.mem_cons_of_mem _ member)) frame later
    | cons byte first =>
      have all := uncut (byte :: first) List.mem_cons_self ⟨frames.flatten, whole⟩ (List.cons_ne_nil _ _)
      have nothing : frames.flatten = [] := List.append_right_eq_self.1 (whole.trans all.symm)
      intro frame member
      rcases List.mem_cons.1 member with rfl | later
      · exact .inr all
      · exact .inl (List.flatten_eq_nil_iff.1 nothing frame later)

end

/-! ## The request -/

theorem resolution_inj {request request' : Request} (same : resolution request = resolution request') :
    request = request' := by
  unfold resolution at same
  split at same <;> split at same <;> cases same <;> rfl

section
variable {M : Nat} {req : Request} {sent : List Bytes}

theorem handler_whole (distinct : req.Distinct) (submitted : Carried M (streamQuerySubmission req) sent) :
    handler sent = some (resolution req) ↔ WholeFirst req.toBinary sent ∧ req.Plain := by
  unfold handler WholeFirst
  constructor
  · intro handled
    obtain ⟨message, first, decoded⟩ := Option.bind_eq_some_iff.1 handled
    obtain ⟨request, decoded, same⟩ := Option.map_eq_some_iff.1 decoded
    rw [resolution_inj same] at decoded
    cases wrote : req.toBinary with
    | none =>
      rw [streamQuerySubmission, wrote] at submitted
      rw [carried_nil submitted] at first
      cases first
    | some bs =>
      rw [streamQuerySubmission, wrote] at submitted
      have part := prefix_of_head first
      rw [(carried_one submitted).1] at part
      obtain rfl := Request.only_whole wrote part decoded
      rw [Request.fromBinary_toBinary wrote, Option.some.injEq, Request.received_eq_self distinct] at decoded
      exact ⟨⟨message, rfl, first⟩, decoded⟩
  · rintro ⟨⟨bs, wrote, first⟩, plain⟩
    rw [first, Option.bind_some, Request.fromBinary_toBinary wrote, (Request.received_eq_self distinct).2 plain,
      Option.map_some]

/-- No cut lets a longer message through. -/
theorem handler_long (distinct : req.Distinct) (submitted : Carried M (streamQuerySubmission req) sent) {bs : Bytes}
    (wrote : req.toBinary = some bs) (long : M < bs.length) : handler sent ≠ some (resolution req) := by
  intro handled
  obtain ⟨⟨bs', same, first⟩, -⟩ := (handler_whole distinct submitted).1 handled
  obtain rfl := Option.some.inj (wrote.symm.trans same)
  rw [streamQuerySubmission, wrote] at submitted
  exact absurd ((carried_one submitted).2 bs (List.mem_of_head? first)) (Nat.not_le_of_lt long)

end

/-! ## The results -/

section
variable {M : Nat}

theorem submitQuery_eq {source : List Bytes} {result : Result} :
    submitQuery protocol source = some (some result) ↔
      ∃ frame, source.head? = some frame ∧ Result.fromBinary frame = some result := by
  cases source <;> simp [submitQuery]

/-- What ends without an exception reads each of the frames. -/
theorem yielded_eq {source : List Bytes} {results : List Result} :
    yielded source = (results, false) ↔ source.map Result.fromBinary = results.map some := by
  induction source generalizing results with
  | nil => cases results <;> simp [yielded]
  | cons frame source ih =>
    rw [yielded]
    cases decoded : Result.fromBinary frame with
    | none => cases results <;> simp [decoded]
    | some r =>
      cases results with
      | nil => simp
      | cons result results =>
        rw [List.map_cons, List.map_cons, List.cons.injEq, ← ih, decoded, Prod.ext_iff, Prod.ext_iff, Option.some.injEq]
        simp [and_assoc]

/-- Whether there are data or an error in it. -/
def isSet : Result → Bool
  | .unset => false
  | _ => true

theorem isSet_received (result : Result) : isSet result.received = isSet result := by cases result <;> rfl

/-- What is read of the frames of a result: the result, and nothing of the empty ones. -/
theorem read_frames {result : Result} {bs : Bytes} (wrote : result.toBinary = some bs) {frames : List Bytes}
    {read : List Result} (whole : frames.flatten = bs) (reads : frames.map Result.fromBinary = read.map some) :
    read.filter isSet = [result.received].filter isSet := by
  induction frames generalizing read with
  | nil =>
    obtain rfl := List.map_eq_nil_iff.1 reads.symm
    subst whole
    have unset : Result.unset = result.received := Option.some.inj (Result.fromBinary_toBinary wrote)
    rw [← unset]
    rfl
  | cons frame frames ih =>
    rw [List.flatten_cons] at whole
    obtain ⟨r, read, rfl, first, later⟩ := List.map_eq_cons_iff.1 reads.symm
    cases frame with
    | nil =>
      obtain rfl : r = .unset := Option.some.inj first
      exact (List.filter_cons_of_neg (by decide)).trans (ih whole later.symm)
    | cons byte frame =>
      -- it is all of the result, and only empty frames come after it
      obtain all := Result.fromBinary_part wrote ⟨frames.flatten, whole⟩ (List.cons_ne_nil _ _) first.symm
      rw [all, Result.fromBinary_toBinary wrote, Option.some.injEq] at first
      have empty := List.flatten_eq_nil_iff.1 (List.append_right_eq_self.1 (whole.trans all.symm))
      have none : read.filter isSet = [] := by
        rw [List.filter_eq_nil_iff]
        intro r' member
        obtain ⟨frame, there, decoded⟩ := List.mem_map.1 (later ▸ List.mem_map_of_mem member)
        rw [empty frame there] at decoded
        cases decoded
        decide
      rw [List.filter_cons, List.filter_cons, none, first, List.filter_nil]

/-- What is read of a subscription: its results up to some point. -/
theorem read_carried {results : List Result} {frames : List Bytes} {read : List Result}
    (streams : Carried M (subscriptionResolution results) frames)
    (reads : frames.map Result.fromBinary = read.map some) :
    ∃ written, written <+: results ∧ read.filter isSet = (written.map Result.received).filter isSet := by
  induction results generalizing frames read with
  | nil =>
    rw [carried_nil streams] at reads
    obtain rfl := List.map_eq_nil_iff.1 reads.symm
    exact ⟨[], List.nil_prefix, rfl⟩
  | cons result results ih =>
    rw [subscriptionResolution] at streams
    cases wrote : result.toBinary with
    | none =>
      rw [wrote] at streams
      rw [carried_nil streams] at reads
      obtain rfl := List.map_eq_nil_iff.1 reads.symm
      exact ⟨[], List.nil_prefix, rfl⟩
    | some bs =>
      rw [wrote] at streams
      cases streams with
      | cons cut rest =>
        rw [List.map_append] at reads
        obtain ⟨read, read', rfl, its, others⟩ := List.map_eq_append_iff.1 reads.symm
        obtain ⟨written, part, same⟩ := ih rest others.symm
        refine ⟨result :: written, List.cons_prefix_cons.2 ⟨rfl, part⟩, ?_⟩
        rw [List.filter_append, read_frames wrote cut.whole its.symm, same, ← List.filter_append]
        rfl

/-- Where the results are read as they were produced, none of them loses anything. -/
theorem received_of_read {results : List Result} {frames : List Bytes}
    (streams : Carried M (subscriptionResolution results) frames)
    (reads : frames.map Result.fromBinary = results.map some) : ∀ result ∈ results, result.received = result := by
  obtain ⟨written, part, same⟩ := read_carried streams reads
  rw [List.filter_map, show isSet ∘ Result.received = isSet from funext isSet_received] at same
  have all : written.filter isSet = results.filter isSet :=
    (part.filter isSet).eq_of_length (by rw [same, List.length_map])
  rw [all] at same
  have fixed := List.map_inj_left.1 ((List.map_id _).trans same)
  intro result member
  cases result with
  | unset => rfl
  | data | error => exact (fixed _ (List.mem_filter.2 ⟨member, rfl⟩)).symm

/-- Where all frames of a result are read, each is written for what is read of it. -/
theorem frames_written {result : Result} {bs : Bytes} {frames : List Bytes} (wrote : result.toBinary = some bs)
    (fixed : result.received = result) (whole : frames.flatten = bs)
    (read : ∀ frame ∈ frames, ∃ r, Result.fromBinary frame = some r) :
    ∀ frame ∈ frames, ∀ r, Result.fromBinary frame = some r → r.toBinary = some frame := by
  intro frame member r decoded
  have uncut (frame : Bytes) (member : frame ∈ frames) (part : frame <+: bs) (some_ : frame ≠ []) : frame = bs :=
    have ⟨_, decoded⟩ := read frame member
    Result.fromBinary_part wrote part some_ decoded
  rcases frames_whole whole uncut frame member with rfl | rfl
  · cases decoded
    rfl
  · rw [Result.fromBinary_toBinary wrote, fixed] at decoded
    cases decoded
    exact wrote

theorem carried_written {results : List Result} {frames : List Bytes}
    (streams : Carried M (subscriptionResolution results) frames)
    (fixed : ∀ result ∈ results, result.received = result)
    (read : ∀ frame ∈ frames, ∃ r, Result.fromBinary frame = some r) :
    ∀ frame ∈ frames, ∀ r, Result.fromBinary frame = some r → r.toBinary = some frame := by
  induction results generalizing frames with
  | nil =>
    rw [carried_nil streams]
    exact fun _ member => by cases member
  | cons result results ih =>
    rw [subscriptionResolution] at streams
    obtain ⟨its, others⟩ := List.forall_mem_cons.1 fixed
    cases wrote : result.toBinary with
    | none =>
      rw [wrote] at streams
      rw [carried_nil streams]
      exact fun _ member => by cases member
    | some bs =>
      rw [wrote] at streams
      cases streams with
      | cons cut rest =>
        obtain ⟨first, later⟩ := List.forall_mem_append.1 read
        exact List.forall_mem_append.2 ⟨frames_written wrote its cut.whole first, ih rest others later⟩

theorem submitQuery_whole {result : ResultObject} {writes answers : List Bytes}
    (produced : queryResolution result.1 = some writes) (answered : Carried M writes answers) :
    submitQuery protocol answers = some (some result.1) ↔
      WholeFirst result.1.toBinary answers ∧ result.1.Plain := by
  obtain ⟨bs, wrote, rfl⟩ := Option.map_eq_some_iff.1 produced
  rw [submitQuery_eq, WholeFirst]
  constructor
  · rintro ⟨frame, first, decoded⟩
    have part := prefix_of_head first
    rw [(carried_one answered).1] at part
    obtain rfl := Result.only_whole wrote part decoded
    rw [Result.fromBinary_toBinary wrote, Option.some.injEq, Result.received_eq_self result.2] at decoded
    exact ⟨⟨frame, wrote, first⟩, decoded⟩
  · rintro ⟨⟨bs, wrote, first⟩, plain⟩
    refine ⟨bs, first, ?_⟩
    rw [Result.fromBinary_toBinary wrote, (Result.received_eq_self result.2).2 plain]

theorem submitSubscriptionQuery_whole {results : List ResultObject} {frames : List Bytes}
    (streams : Carried M (subscriptionResolution (results.map (·.1))) frames) :
    submitSubscriptionQuery protocol frames = (results.map (·.1), false) ↔
      results.map (·.1.toBinary) = frames.map some ∧ ∀ result ∈ results, result.1.Plain := by
  have plain_iff : (∀ result ∈ results, result.1.Plain) ↔ ∀ result ∈ results.map (·.1), result.received = result := by
    rw [List.forall_mem_map]
    exact forall₂_congr fun result _ => (Result.received_eq_self result.2).symm
  rw [submitSubscriptionQuery, if_neg (not_not.2 rfl), yielded_eq, plain_iff]
  constructor
  · intro reads
    have fixed := received_of_read streams reads
    have read : ∀ frame ∈ frames, ∃ r, Result.fromBinary frame = some r := by
      intro frame member
      obtain ⟨r, -, decoded⟩ := List.mem_map.1 (reads ▸ List.mem_map_of_mem (f := Result.fromBinary) member)
      exact ⟨r, decoded.symm⟩
    have written := carried_written streams fixed read
    refine ⟨?_, fixed⟩
    have encoded : frames.map (fun frame => (Result.fromBinary frame).bind Result.toBinary) = frames.map some := by
      refine List.map_congr_left fun frame member => ?_
      obtain ⟨r, decoded⟩ := read frame member
      rw [decoded, Option.bind_some, written frame member r decoded]
    have back := congrArg (List.map (·.bind Result.toBinary)) reads
    rw [List.map_map, List.map_map, List.map_map] at back
    exact back.symm.trans encoded
  · rintro ⟨written, fixed⟩
    have decoded := congrArg (List.map (·.bind Result.fromBinary)) written
    rw [List.map_map, List.map_map] at decoded
    refine decoded.symm.trans ?_
    rw [List.map_map]
    refine List.map_congr_left fun result member => ?_
    obtain ⟨frame, -, wrote⟩ := List.mem_map.1
      (written ▸ List.mem_map_of_mem (f := fun result : ResultObject => result.1.toBinary) member)
    simp only [Function.comp, ← wrote, Option.bind_some, Result.fromBinary_toBinary wrote.symm,
      fixed _ (List.mem_map_of_mem member)]

end

/-- **Messages survive framing.** A request is decoded as it was submitted, and
the results are those of the box, just where each message comes in one frame and
none has a string or a key in it that the reader changes. -/
theorem submit_framed {M : Nat} (req : RequestObject) (result : ResultObject) (results : List ResultObject)
    {sent writes answers streamed : List Bytes} (submitted : Carried M (streamQuerySubmission req.1) sent)
    (produced : queryResolution result.1 = some writes) (answered : Carried M writes answers)
    (streams : Carried M (subscriptionResolution (results.map (·.1))) streamed) :
    (handler sent = some (resolution req.1) ↔ WholeFirst req.1.toBinary sent ∧ req.1.Plain) ∧
      (submitQuery protocol answers = some (some result.1) ↔
        WholeFirst result.1.toBinary answers ∧ result.1.Plain) ∧
      (submitSubscriptionQuery protocol streamed = (results.map (·.1), false) ↔
        results.map (·.1.toBinary) = streamed.map some ∧ ∀ result ∈ results, result.1.Plain) :=
  ⟨handler_whole req.2 submitted, submitQuery_whole produced answered, submitSubscriptionQuery_whole streams⟩

/-- A query, its result, and a subscription with two results. -/
theorem submit_framed_sample :
    let read : Result := .data (.struct [("read", .list [])])
    let request : Bytes := [10, 3, 123, 97, 125]
    let answer : Bytes := [10, 14, 42, 12, 10, 10, 10, 4, 114, 101, 97, 100, 18, 2, 50, 0]
    handler [request] = some (.resolve { query := "{a}" }) ∧ submitQuery protocol [answer] = some (some read) ∧
      submitSubscriptionQuery protocol [answer, [18, 2, 32, 1]] = ([read, .error (.bool true)], false) := by
  intro read request answer
  have distinct : read.Distinct := ⟨by decide, trivial, trivial⟩
  have plain : read.Plain := ⟨by decide, trivial, trivial⟩
  have ⟨handled, returned, yields⟩ := @submit_framed 16 ⟨{ query := "{a}" }, fun _ given => by cases given⟩
    ⟨read, distinct⟩ [⟨read, distinct⟩, ⟨.error (.bool true), trivial⟩] [request] [answer] [answer]
    [answer, [18, 2, 32, 1]] (.cons ⟨[request], rfl, by decide⟩ .nil) rfl (.cons ⟨[answer], rfl, by decide⟩ .nil)
    (.cons ⟨[answer], rfl, by decide⟩ (.cons ⟨[[18, 2, 32, 1]], rfl, by decide⟩ .nil))
  refine ⟨handled.2 ⟨⟨_, rfl, rfl⟩, by decide, by decide, fun _ given => by cases given⟩,
    returned.2 ⟨⟨_, rfl, rfl⟩, plain⟩, yields.2 ⟨rfl, ?_⟩⟩
  intro result member
  rcases List.mem_cons.1 member with rfl | member
  · exact plain
  · rw [List.mem_singleton.1 member]
    trivial

/-! A query of more than a megabyte. -/

def spaces : Nat → String
  | 0 => " "
  | k + 1 => spaces k ++ spaces k

theorem spaces_size (k : Nat) : (spaces k).utf8ByteSize = 2 ^ k := by
  induction k with
  | zero => rfl
  | succ k ih => rw [spaces, String.utf8ByteSize_append, ih]; omega

def longQuery : Request := { query := "{a}" ++ spaces 20 }

/-- A request of a query alone. -/
theorem toBinary_query {query : String} (some_ : query ≠ "") {text : Bytes} (given : Wire.string query = some text) :
    ({ query } : Request).toBinary = some (tag 1 .lengthDelimited ++ text) := by
  simp [Request.toBinary, fieldUnless, some_, given]

theorem longQuery_written : ∃ bs, longQuery.toBinary = some bs ∧ 2 ^ 20 < bs.length ∧ bs.length ≤ 2 ^ 21 := by
  have size : longQuery.query.toUTF8.data.toList.length = 3 + 2 ^ 20 := by
    change longQuery.query.utf8ByteSize = _
    rw [longQuery, String.utf8ByteSize_append, spaces_size]
    rfl
  have some_ : longQuery.query ≠ "" := by
    intro empty
    rw [empty] at size
    cases size
  obtain ⟨text, given, short⟩ := lengthDelimited_fits (show longQuery.query.toUTF8.data.toList.length < 2 ^ 32 by omega)
  have long := lengthDelimited_length given
  refine ⟨_, toBinary_query some_ given, ?_⟩
  rw [List.length_append, show (tag 1 .lengthDelimited).length = 1 from rfl]
  omega

/-- `{a}` and a megabyte of spaces, in two frames of a megabyte or less. -/
theorem longQuery_lost : ¬ ∀ (req : RequestObject) (sent : List Bytes),
    Carried (2 ^ 20) (streamQuerySubmission req.1) sent → handler sent = some (resolution req.1) := by
  intro survives
  obtain ⟨bs, wrote, long, short⟩ := longQuery_written
  have distinct : longQuery.Distinct := fun _ given => by cases given
  have cut : Cut (2 ^ 20) bs :=
    ⟨[bs.take (2 ^ 20), bs.drop (2 ^ 20)], by simp, by simp; omega⟩
  have submitted : Carried (2 ^ 20) (streamQuerySubmission longQuery) (cut.frames ++ []) := by
    rw [streamQuerySubmission, wrote]
    exact .cons cut .nil
  exact handler_long distinct submitted wrote long (survives ⟨longQuery, distinct⟩ _ submitted)

end Fula.GraphProtocol
