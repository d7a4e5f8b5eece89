import Fula.RnFula.BothSides

/-!
# Posts of a page that is not ready

`postMessage` of the page needs `window.ReactNativeWebView.postMessage`. While that is undefined it
sets a timer to post the text again, and then calls it all the same, which throws in whoever posts.
The timer posts the text, not the message: the text becomes JSON once more, and what the native side
parses is a string.

`early_lost`: what the page hears, registers and posts before it is ready is lost, whatever the timers
do later, and from then on the two sides run as those of `System`.
-/

namespace Fula.RnFula.Rpc
set_option autoImplicit false
open Lib

/-- What `JSON.stringify` gives of a message, when it is made JSON `quotes` times again. -/
structure JsonData (M : Type) where
  message : Message M
  quotes : Nat := 0

/-- `window.ReactNativeWebView`. -/
inductive Injection where
  | undefined
  /-- It is there; its `postMessage` is undefined. -/
  | empty
  | ready
  deriving DecidableEq

/-- Both sides of the bridge, with the timers of the page. -/
structure WebView (F V M : Type) where
  native : Native M := init
  page : Page F V M := {}
  heard : Nat := 0
  toNative : List (JsonData M) := []
  injection : Injection := .undefined
  timers : List (JsonData M) := []

/-- `messageHandler`, of a text: a string has no `type`. -/
def JsonData.handled {M : Type} (text : JsonData M) (n : Native M) : Native M :=
  messageHandler n (if text.quotes = 0 then text.message else .other)

def JsonData.plain? {M : Type} (text : JsonData M) : Option (Message M) :=
  if text.quotes = 0 then some text.message else none

namespace WebView

inductive Act (F M : Type) where
  | system (a : System.Act F M)
  /-- `window.ReactNativeWebView` is set. -/
  | appears
  /-- Its `postMessage` is set. -/
  | injects
  /-- Timer `i` is due. -/
  | fires (i : Nat)

section
variable {F V M : Type} (functions : Functions F M) (parse : String → Option V)

/-- `main().catch(e => log(e))`, of an error. -/
def failureLog : Message M := .log "{}"

/-- It throws unless all is ready. -/
def postMessage (jsonData : JsonData M) (s : WebView F V M) : WebView F V M :=
  match s.injection with
  | .undefined => s
  | .empty => { s with timers := s.timers ++ [jsonData] }
  | .ready => { s with toNative := s.toNative ++ [jsonData] }

def Act.system? : Act F M → Option (System.Act F M)
  | .system a => some a
  | _ => none

def Act.call? : Act F M → Option (System.Act F M)
  | .system (.native a) => some (.native a)
  | _ => none

/-- The native side hears the next message. -/
def hearing : System.Act F M → Bool
  | .toNative => true
  | _ => false

/-- The two sides, with the texts that are messages. -/
def system (s : WebView F V M) : System F V M where
  native := s.native
  page := s.page
  heard := s.heard
  toNative := s.toNative.filterMap JsonData.plain?

def step (s : WebView F V M) : Act F M → Option (WebView F V M)
  | .appears => if s.injection = .undefined then some { s with injection := .empty } else none
  | .injects => if s.injection = .empty then some { s with injection := .ready } else none
  | .fires i => s.timers[i]?.map fun text =>
    postMessage { text with quotes := text.quotes + 1 } { s with timers := s.timers.eraseIdx i }
  | .system (.register obj) =>
    let logged := postMessage { message := System.registerLog } s
    if s.injection = .ready then
      some { logged with page := { s.page with adaptor := register s.page.adaptor obj } }
    -- `postLog` has thrown in `register`, and `main` fails
    else some (postMessage { message := failureLog } logged)
  | .system .toPage => s.native.2.posted[s.heard]?.map fun message =>
    if s.injection = .ready then
      let (page, posted) := System.hear functions parse s.page message
      posted.foldl (fun s message => postMessage { message } s) { s with page := page, heard := s.heard + 1 }
    -- `postLog(JSON.stringify(adaptor))` throws before the listener looks at the message
    else postMessage { message := adaptorLog } { s with heard := s.heard + 1 }
  | .system .toNative => match s.toNative with
    | text :: rest => some { s with native := text.handled s.native, toNative := rest }
    | [] => none
  | .system a => (System.step functions parse s.system a).map fun t => { s with native := t.native, page := t.page }

end

/-! ## What a post is to the other side -/

section
variable {F V M : Type} {functions : Functions F M} {parse : String → Option V} {s s' : WebView F V M} {a : Act F M}

theorem handled_plain {text : JsonData M} (plain : text.quotes = 0) (n : Native M) :
    text.handled n = messageHandler n text.message := by
  rw [JsonData.handled, if_pos plain]

/-- The native side throws. -/
theorem handled_quoted {text : JsonData M} (quoted : text.quotes ≠ 0) (n : Native M) : text.handled n = n := by
  rw [JsonData.handled, if_neg quoted]
  rfl

theorem postMessage_ready (jsonData : JsonData M) (s : WebView F V M) (ready : s.injection = .ready) :
    postMessage jsonData s = { s with toNative := s.toNative ++ [jsonData] } := by
  rw [postMessage, ready]

/-- A post that throws leaves at most a timer behind. -/
theorem postMessage_early (jsonData : JsonData M) (s : WebView F V M) (early : s.injection ≠ .ready) :
    ∃ timers, postMessage jsonData s = { s with timers } := by
  cases where_ : s.injection with
  | undefined => exact ⟨s.timers, by simp only [postMessage, where_]; rw [← where_]⟩
  | empty => exact ⟨s.timers ++ [jsonData], by simp only [postMessage, where_]⟩
  | ready => exact absurd where_ early

theorem posts_ready (messages : List (Message M)) (s : WebView F V M) (ready : s.injection = .ready) :
    messages.foldl (fun s message => postMessage { message } s) s =
      { s with toNative := s.toNative ++ messages.map fun message => { message } } := by
  induction messages generalizing s with
  | nil => simp
  | cons message messages ih =>
    rw [List.foldl_cons, postMessage_ready _ s ready, ih { s with toNative := s.toNative ++ [{ message }] } ready, List.map_cons, List.append_assoc]
    rfl

@[simp] theorem plain_message (message : Message M) : ({ message } : JsonData M).plain? = some message := rfl

/-- A text that is posted again is nothing to the native side. -/
theorem plain_quoted (text : JsonData M) : JsonData.plain? { text with quotes := text.quotes + 1 } = none :=
  if_neg (Nat.succ_ne_zero _)

/-! ## Once the page is ready -/

/-- What neither posts to the native side nor hears it is as it is in `System`. -/
theorem step_system {b : System.Act F M} (register : ∀ obj, b ≠ .register obj) (toPage : b ≠ .toPage)
    (toNative : b ≠ .toNative) :
    step functions parse s (.system b) =
      (System.step functions parse s.system b).map fun t => { s with native := t.native, page := t.page } := by
  cases b with
  | register obj => exact absurd rfl (register obj)
  | toPage => exact absurd rfl toPage
  | toNative => exact absurd rfl toNative
  | native a => rfl
  | await_ k => rfl
  | iterate p => rfl

theorem system_step {t u : System F V M} {b : System.Act F M} (register : ∀ obj, b ≠ .register obj) (toPage : b ≠ .toPage)
    (toNative : b ≠ .toNative) (moved : System.step functions parse t b = some u) :
    u = { t with native := u.native, page := u.page } := by
  cases b with
  | register obj => exact absurd rfl (register obj)
  | toPage => exact absurd rfl toPage
  | toNative => exact absurd rfl toNative
  | native a =>
    obtain ⟨-, native, -, rfl⟩ := System.step_native.1 moved
    rfl
  | await_ k =>
    obtain ⟨invoked, -, rfl⟩ := Option.map_eq_some_iff.1 moved
    rfl
  | iterate p =>
    obtain ⟨bridge, -, rfl⟩ := Option.map_eq_some_iff.1 moved
    rfl

/-- A step of a page that is ready is a step of the two sides, or one that they do not see: a timer, or a text
that the native side refuses. -/
theorem step_ready (ready : s.injection = .ready) (moved : step functions parse s a = some s') :
    s'.injection = .ready ∧ ((∃ b, a = .system b ∧ System.step functions parse s.system b = some s'.system) ∨
      s'.system = s.system ∧ ∀ b, a = .system b → b = .toNative) := by
  cases a with
  | appears => simp [step, ready] at moved
  | injects => simp [step, ready] at moved
  | fires i =>
    obtain ⟨text, there, rfl⟩ := Option.map_eq_some_iff.1 moved
    rw [postMessage_ready _ { s with timers := s.timers.eraseIdx i } ready]
    refine ⟨ready, .inr ⟨?_, fun b same => by cases same⟩⟩
    simp only [system, List.filterMap_append, List.filterMap_cons, plain_quoted, List.filterMap_nil, List.append_nil]
  | system b =>
    by_cases registers : ∃ obj, b = .register obj
    · obtain ⟨obj, rfl⟩ := registers
      simp only [step, ready, if_true, postMessage_ready _ s ready, Option.some.injEq] at moved
      subst moved
      refine ⟨rfl, .inl ⟨_, rfl, ?_⟩⟩
      simp [system, System.step]
    by_cases hears : b = .toPage
    · subst hears
      obtain ⟨message, posted, rfl⟩ := Option.map_eq_some_iff.1 moved
      simp only [if_pos ready, posts_ready _ { s with page := _, heard := s.heard + 1 } ready]
      refine ⟨ready, .inl ⟨_, rfl, ?_⟩⟩
      simp [system, System.step, posted, Function.comp_def]
    by_cases heard : b = .toNative
    · subst heard
      simp only [step] at moved
      split at moved
      · next text rest there =>
        cases moved
        refine ⟨ready, ?_⟩
        by_cases plain : text.quotes = 0
        · refine .inl ⟨_, rfl, ?_⟩
          simp [system, System.step, there, JsonData.plain?, plain, handled_plain plain]
        · refine .inr ⟨?_, fun b same => by cases same; rfl⟩
          simp [system, there, JsonData.plain?, plain, handled_quoted plain]
      · cases moved
    rw [step_system (fun obj same => registers ⟨obj, same⟩) hears heard] at moved
    obtain ⟨t, stepped, rfl⟩ := Option.map_eq_some_iff.1 moved
    refine ⟨ready, .inl ⟨_, rfl, ?_⟩⟩
    rw [stepped, system_step (fun obj same => registers ⟨obj, same⟩) hears heard stepped]
    rfl

theorem run_ready {s₁ : WebView F V M} {acts : List (Act F M)} (ready : s₁.injection = .ready)
    (reached : run (step functions parse) s₁ acts = some s) :
    ∃ bs, run (System.step functions parse) s₁.system bs = some s.system ∧ bs.Sublist (acts.filterMap Act.system?) ∧
      bs.filter (!hearing ·) = (acts.filterMap Act.system?).filter (!hearing ·) := by
  refine (run_history (I := fun acts s => s.injection = .ready ∧
    ∃ bs, run (System.step functions parse) s₁.system bs = some s.system ∧ bs.Sublist (acts.filterMap Act.system?) ∧
      bs.filter (!hearing ·) = (acts.filterMap Act.system?).filter (!hearing ·)) ⟨ready, [], rfl, .refl _, rfl⟩ ?_ reached).2
  rintro acts a m t ⟨ready, bs, before, kept, all⟩ moved
  obtain ⟨ready', ⟨b, rfl, stepped⟩ | ⟨same, unheard⟩⟩ := step_ready ready moved
  · refine ⟨ready', bs ++ [b], run_snoc.2 ⟨_, before, stepped⟩, ?_, ?_⟩
    · rw [List.filterMap_append]
      exact kept.append (.refl _)
    · rw [List.filterMap_append, List.filter_append, List.filter_append, all]
      rfl
  · refine ⟨ready', bs, same ▸ before, ?_, ?_⟩
    · rw [List.filterMap_append]
      exact kept.trans (List.sublist_append_left _ _)
    · rw [List.filterMap_append, List.filter_append, all]
      cases a with
      | system b => rw [unheard b rfl]; simp [Act.system?, hearing]
      | _ => simp [Act.system?]

/-! ## Before -/

variable (functions parse) in
/-- Nobody has been told anything. -/
structure Early (acts : List (Act F M)) (s : WebView F V M) : Prop where
  early : s.injection ≠ .ready
  page : s.page = {}
  toNative : s.toNative = []
  native : run (System.step functions parse) {} (acts.filterMap Act.call?) = some { native := s.native }

variable {acts : List (Act F M)}

/-- A step that the native side has no part in. -/
theorem Early.keep (inv : Early functions parse acts s) (still : Act.call? a = none) (early : s'.injection ≠ .ready)
    (page : s'.page = s.page) (toNative : s'.toNative = s.toNative) (native : s'.native = s.native) :
    Early functions parse (acts ++ [a]) s' where
  early := early
  page := page.trans inv.page
  toNative := toNative.trans inv.toNative
  native := by
    rw [List.filterMap_append, List.filterMap_cons, still, List.filterMap_nil, List.append_nil, native]
    exact inv.native

theorem Early.posts (inv : Early functions parse acts s) (jsonData : JsonData M) :
    Early functions parse acts (postMessage jsonData s) := by
  obtain ⟨timers, posted⟩ := postMessage_early jsonData s inv.early
  rw [posted]
  exact ⟨inv.early, inv.page, inv.toNative, inv.native⟩

theorem Early.step (inv : Early functions parse acts s) (other : a ≠ .injects)
    (moved : WebView.step functions parse s a = some s') : Early functions parse (acts ++ [a]) s' := by
  cases a with
  | injects => exact absurd rfl other
  | appears =>
    simp only [WebView.step] at moved
    split at moved
    · cases moved
      exact inv.keep rfl (fun same => by cases same) rfl rfl rfl
    · cases moved
  | fires i =>
    obtain ⟨text, there, rfl⟩ := Option.map_eq_some_iff.1 moved
    have before : Early functions parse (acts ++ [.fires i]) { s with timers := s.timers.eraseIdx i } :=
      inv.keep rfl inv.early rfl rfl rfl
    exact before.posts _
  | system b =>
    cases b with
    | register obj =>
      simp only [WebView.step, if_neg inv.early, Option.some.injEq] at moved
      subst moved
      have before : Early functions parse (acts ++ [.system (.register obj)]) s := inv.keep rfl inv.early rfl rfl rfl
      exact (before.posts _).posts _
    | toPage =>
      obtain ⟨message, posted, rfl⟩ := Option.map_eq_some_iff.1 moved
      rw [if_neg inv.early]
      have before : Early functions parse (acts ++ [.system .toPage]) { s with heard := s.heard + 1 } :=
        inv.keep rfl inv.early rfl rfl rfl
      exact before.posts _
    | toNative => simp [WebView.step, inv.toNative] at moved
    | native a =>
      obtain ⟨t, stepped, rfl⟩ := Option.map_eq_some_iff.1 moved
      obtain ⟨apart, native, first, rfl⟩ := System.step_native.1 stepped
      refine ⟨inv.early, inv.page, inv.toNative, ?_⟩
      rw [List.filterMap_append]
      exact run_snoc.2 ⟨_, inv.native, System.step_native.2 ⟨apart, native, first, rfl⟩⟩
    | await_ k => simp [WebView.step, System.step, system, inv.page] at moved
    | iterate p => simp [WebView.step, System.step, system, inv.page, RnFula.step, RnFula.init] at moved

/-- What the page hears, registers and posts before it is ready is lost: nothing of it has reached the native side, which has
made its own calls, or the page's functions. From then on the two sides run as those of `System`, from a page where nothing is
registered, to which the messages heard so far are lost; the timers do nothing but make the native side throw. -/
theorem early_lost {before after : List (Act F M)} {s₀ : WebView F V M} (early : .injects ∉ before)
    (waited : run (step functions parse) ({} : WebView F V M) before = some s₀)
    (reached : run (step functions parse) s₀ (.injects :: after) = some s) :
    s₀.page = {} ∧ s₀.toNative = [] ∧
      run (System.step functions parse) {} (before.filterMap Act.call?) = some { native := s₀.native } ∧
      ∃ acts, run (System.step functions parse) { native := s₀.native, heard := s₀.heard } acts = some s.system ∧
        acts.Sublist (after.filterMap Act.system?) ∧
        acts.filter (!hearing ·) = (after.filterMap Act.system?).filter (!hearing ·) := by
  have inv : .injects ∉ before → Early functions parse before s₀ := by
    refine run_history (I := fun acts s => .injects ∉ acts → Early functions parse acts s) ?_ ?_ waited
    · exact fun _ => ⟨(fun same => by cases same), rfl, rfl, rfl⟩
    · intro acts a m t inv moved never
      refine (inv fun there => never (by simp [there])).step ?_ moved
      rintro rfl
      exact never (by simp)
  have inv := inv early
  obtain ⟨s₁, injected, later⟩ := run_cons.1 reached
  simp only [step] at injected
  split at injected
  · cases injected
    refine ⟨inv.page, inv.toNative, inv.native, ?_⟩
    obtain ⟨acts, ran, kept⟩ := run_ready rfl later
    refine ⟨acts, ?_, kept⟩
    simpa [system, inv.page, inv.toNative] using ran
  · cases injected

end

/-- `main` registers its functions, and a request comes, while `postMessage` is undefined. -/
def sampleBefore : List (Act Unit Unit) := [.appears, .system (.register [("start", ())]),
  .system (.native (.RPC "Xk3b0Zq1aT" "start" [])), .system .toPage, .fires 0]

/-- One of the three timers is due, and a second request comes. -/
def sampleAfter : List (Act Unit Unit) := [.fires 0, .system (.native (.RPC "p8VxG2hd9L" "start" [])), .system .toPage,
  .system .toNative, .system .toNative]

theorem early_lost_sample : ∃ s₀ s : WebView Unit Unit Unit,
    run (step ready fun _ => none) {} sampleBefore = some s₀ ∧ run (step ready fun _ => none) s₀ (.injects :: sampleAfter) = some s ∧
    s.page.adaptor = [] ∧ s.timers.length = 2 ∧ s.toNative.length = 2 ∧
    s₀.page = {} ∧ s₀.toNative = [] ∧
      run (System.step ready fun _ => none) ({} : System Unit Unit Unit) (sampleBefore.filterMap Act.call?) =
        some { native := s₀.native } ∧
      ∃ acts, run (System.step ready fun _ => none) { native := s₀.native, heard := s₀.heard } acts = some s.system ∧
        acts.Sublist (sampleAfter.filterMap Act.system?) ∧
        acts.filter (!hearing ·) = (sampleAfter.filterMap Act.system?).filter (!hearing ·) :=
  ⟨_, _, rfl, rfl, rfl, rfl, rfl, early_lost (by simp [sampleBefore]) rfl rfl⟩

end WebView

end Fula.RnFula.Rpc
