import Fula.Lib.Properties
import Fula.Firmware.Server

/-!
# The list of networks (`services/wifi`, `controllers`, `helpers/connect`)

`GET /wifi/list` scans. Once a scan has found networks, a request is answered with the networks found
last, and its own scan goes on by itself; until then it waits for its scan. Scans run side by side and
end in any order. `getWifiList` returns the promise of `scan` without awaiting it, so that its `catch`
is never taken, and `connect` answers for a scan that fails.

* `list_answer_eq`: what each request is answered, and when.
* `unhandled_scan_iff`: which scans fail with nobody waiting for them.
-/

namespace Fula.Firmware.WifiList
set_option autoImplicit false
open Lib

/-- A network that `iwlist` has found. -/
abbrev Network := Properties Json

/-- `{ ssid: d.essid, ...d }`, where an `ssid` that is `undefined` does not show. -/
def withSsid (d : Network) : Network :=
  d.foldl (fun object (key, value) => object.assign key value) ((d.lookup "essid").map ("ssid", ·)).toList

/-- What `iw.scan` calls back with. -/
abbrev Scan := Except Server.Thrown (List Network)

/-- `connect(getWifiList)`, with what the promise that it returns comes to. -/
def respond (networks : Except Server.Thrown (List Network)) : Server.Response :=
  Server.connect 200 (networks.map fun found => some (.arr (found.map .obj))) {}

/-! ## The service -/

/-- A request, and its scan. -/
structure Request where
  response : Option Server.Response
  scanning : Bool := true

structure Service where
  scanned : List Network := []
  requests : List Request := []
  /-- What scans have failed with whose promise nobody has. -/
  unhandled : List Server.Thrown := []

inductive Act where
  /-- `GET /wifi/list` -/
  | request
  /-- The scan of request `k` calls back. -/
  | finish (k : Nat) (scan : Scan)

/-- `if (result.length > 0) scanned = result.map(...)` -/
def keep (scanned : List Network) : Scan → List Network
  | .ok [] | .error _ => scanned
  | .ok result => result.map withSsid

def step (s : Service) : Act → Option Service
  | .request =>
    if s.scanned.length > 0 then some { s with requests := s.requests ++ [{ response := some (respond (.ok s.scanned)) }] }
    else some { s with requests := s.requests ++ [{ response := none }] }
  | .finish k scan => match s.requests[k]? with
    | some r =>
      if r.scanning then
        let scanned := keep s.scanned scan
        match r.response with
        | some _ => some {
            scanned := scanned
            requests := s.requests.set k { r with scanning := false }
            unhandled := s.unhandled ++ match scan with | .error e => [e] | .ok _ => [] }
        | none => some { s with
            scanned := scanned
            requests := s.requests.set k ⟨some (respond (scan.map fun _ => scanned)), false⟩ }
      else none
    | none => none

/-! ## What a run has found -/

/-- The networks of the last scan that has found some. -/
def found (acts : List Act) : List Network :=
  acts.foldl (fun scanned a => match a with
    | .request => scanned
    | .finish _ scan => keep scanned scan) []

def isRequest : Act → Bool
  | .request => true
  | .finish _ _ => false

theorem found_snoc (acts : List Act) (a : Act) : found (acts ++ [a]) = match a with
    | .request => found acts
    | .finish _ scan => keep (found acts) scan := by
  cases a <;> simp [found]

section
variable {s s' t : Service} {a : Act} {acts before after : List Act} {k : Nat}

/-- What the steps do. -/
inductive Moves (s : Service) : Act → Service → Prop
  | cached (some_ : s.scanned ≠ []) :
      Moves s .request { s with requests := s.requests ++ [{ response := some (respond (.ok s.scanned)) }] }
  | waits (none_ : s.scanned = []) : Moves s .request { s with requests := s.requests ++ [{ response := none }] }
  | refreshed {k : Nat} {response : Server.Response} (at_ : s.requests[k]? = some ⟨some response, true⟩) (scan : Scan) :
      Moves s (.finish k scan) {
        scanned := keep s.scanned scan
        requests := s.requests.set k ⟨some response, false⟩
        unhandled := s.unhandled ++ match scan with | .error e => [e] | .ok _ => [] }
  | answered {k : Nat} (at_ : s.requests[k]? = some ⟨none, true⟩) (scan : Scan) :
      Moves s (.finish k scan) { s with
        scanned := keep s.scanned scan
        requests := s.requests.set k ⟨some (respond (scan.map fun _ => keep s.scanned scan)), false⟩ }

theorem step_moves (moved : step s a = some s') : Moves s a s' := by
  cases a with
  | request =>
    simp only [step] at moved
    split at moved
    · next some_ => cases moved; exact .cached (List.length_pos_iff.1 some_)
    · next none_ => cases moved; exact .waits (List.eq_nil_of_length_eq_zero (Nat.eq_zero_of_not_pos none_))
  | finish k scan =>
    simp only [step] at moved
    split at moved
    · next r at_ =>
      obtain ⟨response, scanning⟩ := r
      split at moved
      · next busy =>
        simp only at busy
        subst busy
        cases response with
        | some response => cases moved; exact .refreshed at_ scan
        | none => cases moved; exact .answered at_ scan
      · cases moved
    · cases moved

/-- The cache is what has been found, and every request has been counted. -/
structure Inv (acts : List Act) (s : Service) : Prop where
  scanned : s.scanned = found acts
  requests : s.requests.length = acts.countP isRequest

theorem Inv.step (inv : Inv acts s) (moved : WifiList.step s a = some s') : Inv (acts ++ [a]) s' := by
  have count : (acts ++ [a]).countP isRequest = acts.countP isRequest + if isRequest a then 1 else 0 := by
    rw [List.countP_append, List.countP_singleton]
  cases step_moves moved with
  | cached some_ => exact ⟨by rw [found_snoc]; exact inv.scanned, by simp [count, inv.requests, isRequest]⟩
  | waits none_ => exact ⟨by rw [found_snoc]; exact inv.scanned, by simp [count, inv.requests, isRequest]⟩
  | refreshed at_ scan =>
    exact ⟨by rw [found_snoc, ← inv.scanned], by simp [count, inv.requests, isRequest]⟩
  | answered at_ scan =>
    exact ⟨by rw [found_snoc, ← inv.scanned], by simp [count, inv.requests, isRequest]⟩

theorem inv_run (reached : run WifiList.step ({} : Service) acts = some s) : Inv acts s :=
  run_history (I := Inv) ⟨rfl, rfl⟩ (fun _ _ _ _ inv moved => inv.step moved) reached

/-! ## One request -/

/-- An answer stays as it is. -/
theorem answered_step {r : Request} {response : Server.Response} (at_ : s.requests[k]? = some r) (has : r.response = some response)
    (moved : WifiList.step s a = some s') : ∃ r', s'.requests[k]? = some r' ∧ r'.response = some response := by
  have inside := (List.getElem?_eq_some_iff.1 at_).1
  cases step_moves moved with
  | cached some_ => exact ⟨r, by simp [List.getElem?_append_left inside, at_], has⟩
  | waits none_ => exact ⟨r, by simp [List.getElem?_append_left inside, at_], has⟩
  | @refreshed j response' there scan =>
    by_cases same : j = k
    · subst same
      rw [at_, Option.some.injEq] at there
      subst there
      exact ⟨_, List.getElem?_set_self inside, has⟩
    · exact ⟨r, by simp only [List.getElem?_set_ne same, at_], has⟩
  | @answered j there scan =>
    by_cases same : j = k
    · subst same
      rw [at_, Option.some.injEq] at there
      subst there
      cases has
    · exact ⟨r, by simp only [List.getElem?_set_ne same, at_], has⟩

theorem answered_run {r : Request} {response : Server.Response} (at_ : s.requests[k]? = some r) (has : r.response = some response)
    (reached : run WifiList.step s acts = some t) : ∃ r', t.requests[k]? = some r' ∧ r'.response = some response := by
  refine run_invariant (I := fun u : Service => ∃ r', u.requests[k]? = some r' ∧ r'.response = some response) ⟨r, at_, has⟩
    ?_ reached
  rintro u a u' ⟨r', there, has⟩ moved
  exact answered_step there has moved

/-! ## What a request is answered -/

/-- The answer of request `k` that waits for its scan: with what the scan has found or, when it has
found nothing, with the networks found before it. -/
def awaited (k : Nat) : List Act → List Act → Option Server.Response
  | _, [] => none
  | earlier, .request :: later => awaited k (earlier ++ [.request]) later
  | earlier, .finish j scan :: later =>
    if j = k then some (respond (scan.map fun _ => keep (found earlier) scan))
    else awaited k (earlier ++ [.finish j scan]) later

/-- The answer of a request. -/
def answer (before after : List Act) : Option Server.Response :=
  if found before = [] then awaited (before.countP isRequest) (before ++ [.request]) after
  else some (respond (.ok (found before)))

theorem awaited_run : ∀ {acts earlier : List Act} {s : Service}, Inv earlier s → s.requests[k]? = some ⟨none, true⟩ →
    run WifiList.step s acts = some t → ∃ r, t.requests[k]? = some r ∧ r.response = awaited k earlier acts
  | [], _, _, _, waiting, reached => by
    cases reached
    exact ⟨_, waiting, rfl⟩
  | a :: acts, earlier, s, inv, waiting, reached => by
    rw [run_cons] at reached
    obtain ⟨u, moved, rest⟩ := reached
    have inside := (List.getElem?_eq_some_iff.1 waiting).1
    have inv' := inv.step moved
    cases step_moves moved with
    | cached some_ =>
      rw [awaited]
      exact awaited_run inv' (by simp [List.getElem?_append_left inside, waiting]) rest
    | waits none_ =>
      rw [awaited]
      exact awaited_run inv' (by simp [List.getElem?_append_left inside, waiting]) rest
    | @refreshed j response at_ scan =>
      have apart : j ≠ k := by
        rintro rfl
        cases at_.symm.trans waiting
      rw [awaited, if_neg apart]
      exact awaited_run inv' (by simp only [List.getElem?_set_ne apart, waiting]) rest
    | @answered j at_ scan =>
      by_cases same : j = k
      · subst same
        -- its own scan: the answer is there, and stays
        rw [awaited, if_pos rfl, ← inv.scanned]
        exact answered_run (List.getElem?_set_self inside) rfl rest
      · rw [awaited, if_neg same]
        exact awaited_run inv' (by simp only [List.getElem?_set_ne same, waiting]) rest

/-- In every run each request is answered at once with the networks found last and, when none have
been found, with what its own scan ends with. -/
theorem list_answer_eq (reached : run WifiList.step ({} : Service) (before ++ .request :: after) = some s) :
    ∃ r, s.requests[before.countP isRequest]? = some r ∧ r.response = answer before after := by
  obtain ⟨u, first, rest⟩ := run_append.1 reached
  obtain ⟨v, moved, rest⟩ := run_cons.1 rest
  have inv := inv_run first
  have inv' := inv.step moved
  rw [answer, ← inv.requests, ← inv.scanned]
  cases step_moves moved with
  | cached some_ =>
    rw [if_neg some_]
    exact answered_run (List.getElem?_concat_length ..) rfl rest
  | waits none_ =>
    rw [if_pos none_]
    exact awaited_run inv' (List.getElem?_concat_length ..) rest

def home : Network := [("essid", .str "home")]

/-- Three requests, of which the first two wait: a scan that fails, one that finds a network, and the
one that the third request has left to itself. -/
theorem list_answer_eq_sample : ∃ s r, run WifiList.step {}
      ([.request, .request, .finish 0 (.error ⟨"busy", none⟩), .finish 1 (.ok [home])] ++
        .request :: [.finish 2 (.error ⟨"busy", none⟩)]) = some s ∧ s.requests[2]? = some r ∧
      r.response = some (respond (.ok [[("ssid", .str "home"), ("essid", .str "home")]])) := by
  obtain ⟨s, reached⟩ : ∃ s, run WifiList.step {}
      ([.request, .request, .finish 0 (.error ⟨"busy", none⟩), .finish 1 (.ok [home])] ++
        .request :: [.finish 2 (.error ⟨"busy", none⟩)]) = some s := ⟨_, rfl⟩
  obtain ⟨r, at_, answered⟩ := list_answer_eq reached
  exact ⟨s, r, reached, at_, answered⟩

/-! ## Scans that fail -/

/-- The scan of a request that was answered at once. -/
def Floating (acts : List Act) (k : Nat) (rest : List Act) : Prop :=
  ∃ before, acts = before ++ .request :: rest ∧ before.countP isRequest = k ∧ found before ≠ []

theorem Floating.snoc {rest : List Act} (old : Floating acts k rest) (a : Act) :
    Floating (acts ++ [a]) k (rest ++ [a]) := by
  obtain ⟨before, same, count, some_⟩ := old
  exact ⟨before, by simp [same], count, some_⟩

/-- A request that is answered while its scan goes on was answered at once, and what nobody has waited
for came of such a scan. -/
structure Alone (acts : List Act) (s : Service) : Prop where
  floating : ∀ (k : Nat) (response : Server.Response), s.requests[k]? = some ⟨some response, true⟩ → ∃ rest, Floating acts k rest
  unhandled : ∀ e ∈ s.unhandled, ∃ before k rest later, acts = before ++ .finish k (.error e) :: later ∧ Floating before k rest

theorem Alone.of_old {s' : Service} (old : Alone acts s) (a : Act)
    (back : ∀ (k : Nat) (response : Server.Response), s'.requests[k]? = some ⟨some response, true⟩ →
      s.requests[k]? = some ⟨some response, true⟩)
    (same : s'.unhandled = s.unhandled) : Alone (acts ++ [a]) s' where
  floating k response at_ := by
    obtain ⟨rest, floating⟩ := old.floating k response (back k response at_)
    exact ⟨rest ++ [a], floating.snoc a⟩
  unhandled e member := by
    rw [same] at member
    obtain ⟨before, k, rest, later, split, floating⟩ := old.unhandled e member
    exact ⟨before, k, rest, later ++ [a], by simp [split], floating⟩

/-- What is left of a list after one element of it has been set to something else. -/
theorem of_set {requests : List Request} {j : Nat} {r r' : Request} (at_ : (requests.set j r')[k]? = some r)
    (apart : r ≠ r') : requests[k]? = some r := by
  rw [List.getElem?_set] at at_
  split at at_
  · split at at_
    · exact absurd (Option.some.inj at_).symm apart
    · cases at_
  · exact at_

theorem Alone.step (old : Alone acts s) (inv : Inv acts s) (moved : WifiList.step s a = some s') : Alone (acts ++ [a]) s' := by
  cases step_moves moved with
  | cached some_ =>
    refine ⟨fun k response at_ => ?_, fun e member => ?_⟩
    · rw [List.getElem?_append] at at_
      split at at_
      · obtain ⟨rest, floating⟩ := old.floating k response at_
        exact ⟨_, floating.snoc _⟩
      · next outside =>
        have here : k = acts.countP isRequest := by
          have short := (List.getElem?_eq_some_iff.1 at_).1
          have count := inv.requests
          simp only [List.length_singleton] at short
          omega
        exact ⟨[], acts, rfl, here.symm, inv.scanned ▸ some_⟩
    · obtain ⟨before, k, rest, later, split, floating⟩ := old.unhandled e member
      exact ⟨before, k, rest, _, by rw [split, List.append_assoc]; rfl, floating⟩
  | waits none_ =>
    refine old.of_old _ (fun k response at_ => ?_) rfl
    rw [List.getElem?_append] at at_
    split at at_
    · exact at_
    · rw [List.getElem?_singleton] at at_
      split at at_ <;> cases at_
  | @refreshed j response at_ scan =>
    refine ⟨fun k response' at' => ?_, fun e member => ?_⟩
    · obtain ⟨rest, floating⟩ := old.floating k response' (of_set at' (by simp))
      exact ⟨_, floating.snoc _⟩
    · rcases List.mem_append.1 member with member | member
      · obtain ⟨before, k, rest, later, split, floating⟩ := old.unhandled e member
        exact ⟨before, k, rest, _, by rw [split, List.append_assoc]; rfl, floating⟩
      · obtain ⟨rest, floating⟩ := old.floating j response at_
        cases scan with
        | ok _ => cases member
        | error err =>
          cases List.mem_singleton.1 member
          exact ⟨acts, j, rest, [], rfl, floating⟩
  | @answered j at_ scan => exact old.of_old _ (fun k response at' => of_set at' (by simp)) rfl

theorem alone_run (reached : run WifiList.step ({} : Service) acts = some s) : Alone acts s := by
  have start : Alone [] ({} : Service) := by
    constructor
    · intro k response at_
      cases at_
    · intro e member
      cases member
  have both : Inv acts s ∧ Alone acts s := run_history (I := fun acts s => Inv acts s ∧ Alone acts s) ⟨⟨rfl, rfl⟩, start⟩
    (fun _ _ _ _ both moved => ⟨both.1.step moved, both.2.step both.1 moved⟩) reached
  exact both.2

theorem unhandled_step {e : Server.Thrown} (member : e ∈ s.unhandled) (moved : WifiList.step s a = some s') : e ∈ s'.unhandled := by
  cases step_moves moved with
  | cached some_ => exact member
  | waits none_ => exact member
  | refreshed at_ scan => exact List.mem_append_left _ member
  | answered at_ scan => exact member

/-- In every run the scans whose failure nobody handles are those of the requests that were answered
with the networks found before: `connect` answers for all the others. -/
theorem unhandled_scan_iff {e : Server.Thrown} (reached : run WifiList.step ({} : Service) acts = some s) :
    e ∈ s.unhandled ↔
      ∃ before mid rest, acts = before ++ .request :: mid ++ .finish (before.countP isRequest) (.error e) :: rest ∧
        found before ≠ [] := by
  constructor
  · intro member
    obtain ⟨_, k, mid, rest, split, before, same, count, some_⟩ := (alone_run reached).unhandled e member
    exact ⟨before, mid, rest, by rw [split, same, count], some_⟩
  · rintro ⟨before, mid, rest, rfl, some_⟩
    rw [List.append_assoc] at reached
    obtain ⟨u, first, reached⟩ := run_append.1 reached
    obtain ⟨v, asked, reached⟩ := run_cons.1 reached
    obtain ⟨w, middle, reached⟩ := run_append.1 reached
    obtain ⟨x, failed, last⟩ := run_cons.1 reached
    have inv := inv_run first
    rw [← inv.requests] at failed
    rw [← inv.scanned] at some_
    cases step_moves asked with
    | waits none_ => exact absurd none_ some_
    | cached _ =>
      obtain ⟨r, at_, has⟩ := answered_run (List.getElem?_concat_length ..) rfl middle
      cases step_moves failed with
      | refreshed _ _ =>
        exact run_invariant (I := fun u : Service => e ∈ u.unhandled) (List.mem_append_right _ (List.mem_singleton_self e))
          (fun _ _ _ member moved => unhandled_step member moved) last
      | answered at' _ =>
        rw [at_, Option.some.injEq] at at'
        subst at'
        cases has

theorem unhandled_scan_iff_sample : ∃ s : Service, run WifiList.step {}
      [.request, .finish 0 (.ok [home]), .request, .finish 1 (.error ⟨"busy", none⟩)] = some s ∧ ⟨"busy", none⟩ ∈ s.unhandled := by
  obtain ⟨s, reached⟩ : ∃ s : Service, run WifiList.step {}
      [.request, .finish 0 (.ok [home]), .request, .finish 1 (.error ⟨"busy", none⟩)] = some s := ⟨_, rfl⟩
  exact ⟨s, reached, (unhandled_scan_iff reached).2
    ⟨[.request, .finish 0 (.ok [home])], [], [], rfl, by simp [found, keep]⟩⟩

end

end Fula.Firmware.WifiList
