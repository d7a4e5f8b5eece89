import Fula.Lib.Json
import Fula.Lib.Properties
import Fula.Lib.Run
import Fula.Lib.SharedFile

/-!
# The properties of the device (`services/properties-file`, `controllers`)

`postProperties` starts a write of the properties file and answers at once, whatever becomes of the
write. `getProperties` reads the file as it is at that moment, and takes a file that it cannot read
for one without properties.

`getProperties_latest` says in which runs it returns what was posted last.
-/

namespace Fula.Firmware
set_option autoImplicit false
open Lib

namespace PropertiesFile

structure Config where
  /-- `JSON.stringify`, and the bytes of its text in a file. -/
  stringify : Json → List UInt8
  /-- `JSON.parse` of a file; `none` is a `SyntaxError`. -/
  parse : List UInt8 → Option Json
  PROJECT_NAME : String

structure Device where
  /-- `CUSTOM_PROPERTIES_FILE` -/
  file : SharedFile UInt8 := {}
  /-- The properties that have been answered `{success: true}`. -/
  posted : List Json := []

variable (config : Config)

/-- `fs.writeFile(..)`, which is not awaited. -/
def write (properties : Json) (d : Device) : Device :=
  { d with file := { d.file with writes := d.file.writes ++ [{ text := config.stringify properties }] } }

/-- A file that is missing or that is not JSON counts as `{}`. -/
def read (d : Device) : Json :=
  match d.file.content with
  | some fileContent => (config.parse fileContent).getD (.obj [])
  | none => .obj []

/-- `{name: config.PROJECT_NAME, ...customProperties}` -/
def merged (customProperties : Json) : Properties Json :=
  (customProperties.entries.getD []).foldl (fun object (key, value) => object.assign key value)
    [("name", .str config.PROJECT_NAME)]

def getProperties (d : Device) : Properties Json := merged config (read config d)

/-- The device once it has answered `{success: true}`. -/
def postProperties (params : Json) (d : Device) : Device :=
  { write config params d with posted := d.posted ++ [params] }

inductive Act where
  | post (params : Json)
  | get
  /-- A write of the file goes on. -/
  | open_ (i : Nat)
  | write (i n : Nat)
  | fail (i : Nat)

/-- What the file system does. -/
def Act.io : Act → Option (SharedFile.Act UInt8)
  | open_ i => some (.open_ i)
  | write i n => some (.write i n)
  | fail i => some (.fail i)
  | _ => none

def step (d : Device) (a : Act) : Option Device :=
  match a with
  | .post params => some (postProperties config params d)
  | .get => some d
  | _ => a.io.bind fun io => (d.file.step io).map fun file => { d with file }

/-! ## What was posted last -/

/-- The writes of the posts take turns, and a `get` comes when the last of them is complete. -/
def Waited (d : Device) : Act → Prop
  | .get => ∀ w, d.file.writes.getLast? = some w → SharedFile.Complete w
  | a => ∀ io, a.io = some io → d.file.InTurn io

/-- The writes are those of the posts, and they have taken turns. -/
structure Written (d : Device) : Prop where
  serial : SharedFile.Serial d.file
  texts : d.file.writes.map (·.text) = d.posted.map config.stringify

variable {config} {d d' : Device}

theorem setState_texts {f : SharedFile UInt8} {i : Nat} {w : FileWrite UInt8} (at_ : f.writes[i]? = some w)
    (state : WriteState) : (f.setState i w state).writes.map (·.text) = f.writes.map (·.text) := by
  refine List.ext_getElem? fun j => ?_
  rw [List.getElem?_map, List.getElem?_map, SharedFile.setState_get at_]
  split
  · next same => rw [same, at_]; rfl
  · rfl

/-- The file system changes no text. -/
theorem io_texts {io : SharedFile.Act UInt8} {f f' : SharedFile UInt8} (other : ∀ text, io ≠ .start text)
    (moved : f.step io = some f') : f'.writes.map (·.text) = f.writes.map (·.text) := by
  cases io with
  | start text => exact absurd rfl (other text)
  | open_ i =>
    obtain ⟨w, at_, moved⟩ := Option.bind_eq_some_iff.1 moved
    split at moved <;> cases moved
    exact setState_texts at_ _
  | write i n =>
    obtain ⟨w, at_, moved⟩ := Option.bind_eq_some_iff.1 moved
    split at moved
    · split at moved <;> cases moved
      exact setState_texts at_ _
    · cases moved
  | fail i =>
    obtain ⟨w, at_, moved⟩ := Option.bind_eq_some_iff.1 moved
    split at moved <;> cases moved <;> exact setState_texts at_ _

theorem Written.io {io : SharedFile.Act UInt8} (h : Written config d) (inTurn : d.file.InTurn io)
    (other : ∀ text, io ≠ .start text) (moved : ((d.file.step io).map fun file => { d with file }) = some d') :
    Written config d' := by
  obtain ⟨file, stepped, rfl⟩ := Option.map_eq_some_iff.1 moved
  exact ⟨h.serial.step inTurn stepped, (io_texts other stepped).trans h.texts⟩

theorem Written.step {a : Act} (h : Written config d) (waited : Waited d a) (moved : step config d a = some d') :
    Written config d' := by
  cases a with
  | post params =>
    cases moved
    refine ⟨h.serial.start _, ?_⟩
    simp [postProperties, PropertiesFile.write, h.texts]
  | get =>
    cases moved
    exact h
  | open_ i => exact h.io (waited _ rfl) (by simp) moved
  | write i n => exact h.io (waited _ rfl) (by simp) moved
  | fail i => exact h.io (waited _ rfl) (by simp) moved

/-- The last write is complete: what was posted last is read. -/
theorem Written.read {params : Json} (h : Written config d) (waited : Waited d .get) (latest : d.posted.getLast? = some params)
    (documented : config.parse (config.stringify params) = some params) : getProperties config d = merged config params := by
  have lasts := congrArg List.getLast? h.texts
  rw [List.getLast?_map, List.getLast?_map, latest] at lasts
  obtain ⟨w, last, text⟩ := Option.map_eq_some_iff.1 lasts
  have content := h.serial.read last (waited w last)
  rw [text] at content
  simp only [getProperties, PropertiesFile.read, content, documented, Option.getD_some]

/-- A device on which some file is found, or none. -/
def boot (content : Option (List UInt8)) : Device := { file := { content } }

/-- **The properties that were posted last are read back**: in a run in which each write opens the file
only when no other is at work and none of a later post has opened it, and each `get` comes only
when the write of the last post is complete, every `get` returns them. -/
theorem getProperties_latest {content : Option (List UInt8)} {acts as : List Act} (served : as ++ [.get] <+: acts)
    (reached : run (step config) (boot content) as = some d) (meet : StepsMeet (step config) Waited (boot content) acts)
    {params : Json} (latest : d.posted.getLast? = some params)
    (documented : config.parse (config.stringify params) = some params) : getProperties config d = merged config params := by
  obtain ⟨rest, rfl⟩ := served
  rw [List.append_assoc] at meet
  obtain ⟨before, waited⟩ := stepsMeet_append meet reached
  have written : Written config d :=
    run_invariant_of ⟨SharedFile.serial_init content, rfl⟩ (fun _ _ _ h waited moved => h.step waited moved) before reached
  exact written.read waited.1 latest documented

def sampleParams (room : String) : Json := .obj [("room", .str room)]

/-- Its text. -/
def sampleText (room : String) : List UInt8 :=
  [0x7b, 0x22, 0x72, 0x6f, 0x6f, 0x6d, 0x22, 0x3a, 0x22] ++ room.toList.map (fun c => UInt8.ofNat c.toNat) ++ [0x22, 0x7d]

/-- The JSON of two rooms. -/
def sampleConfig : Config where
  stringify
    | .obj [(_, .str room)] => sampleText room
    | _ => []
  parse text := (["lab", "attic"].find? fun room => text = sampleText room).map sampleParams
  PROJECT_NAME := "Box Firmware"

/-- Two posts, whose texts are written in pieces, the first before the second. -/
def sampleActs : List Act :=
  [.post (sampleParams "lab"), .post (sampleParams "attic"), .open_ 0, .write 0 10, .write 0 4, .open_ 1, .write 1 8, .write 1 8]

theorem getProperties_latest_sample : ∃ d, run (step sampleConfig) (boot none) sampleActs = some d ∧
    getProperties sampleConfig d = merged sampleConfig (sampleParams "attic") := by
  have reached : run (step sampleConfig) (boot none) sampleActs = some _ := rfl
  have idle : ∀ w : FileWrite UInt8, w.state = .waiting ∨ SharedFile.Complete w → ¬SharedFile.Busy w := by
    rintro w (state | state) ⟨done, writing, less⟩
    · rw [state] at writing
      cases writing
    · rw [state] at writing
      cases writing
      exact Nat.lt_irrefl _ less
  refine ⟨_, reached, getProperties_latest (List.prefix_refl _) reached ?_ rfl rfl⟩
  refine stepsMeet_cons (fun _ never => by cases never) rfl (stepsMeet_cons (fun _ never => by cases never) rfl ?_)
  refine stepsMeet_cons ?_ rfl (stepsMeet_cons ?_ rfl (stepsMeet_cons ?_ rfl (stepsMeet_cons ?_ rfl (stepsMeet_cons ?_ rfl
    (stepsMeet_cons ?_ rfl (stepsMeet_cons ?_ rfl trivial))))))
  · rintro io ⟨⟩
    refine ⟨List.forall_mem_cons.2 ⟨idle _ (.inl rfl), List.forall_mem_singleton.2 (idle _ (.inl rfl))⟩, ?_⟩
    rintro (_ | _ | j) w later ⟨⟩
    · exact absurd later (Nat.lt_irrefl _)
    · exact id
  · rintro io ⟨⟩
    trivial
  · rintro io ⟨⟩
    trivial
  · rintro io ⟨⟩
    refine ⟨List.forall_mem_cons.2 ⟨idle _ (.inr rfl), List.forall_mem_singleton.2 (idle _ (.inl rfl))⟩, ?_⟩
    rintro (_ | _ | j) w later ⟨⟩
    · exact absurd later (Nat.not_lt_zero _)
    · exact absurd later (Nat.lt_irrefl _)
  · rintro io ⟨⟩
    trivial
  · rintro io ⟨⟩
    trivial
  · rintro w ⟨⟩
    rfl

/-- The write has opened the file, which is empty: the properties that have been posted are not there. -/
theorem reads_emptied : ∃ d, run (step sampleConfig) (boot none) [.post (sampleParams "lab"), .open_ 0] = some d ∧
    d.posted.getLast? = some (sampleParams "lab") ∧
    getProperties sampleConfig d ≠ merged sampleConfig (sampleParams "lab") := by
  refine ⟨_, rfl, rfl, fun same => ?_⟩
  have length := congrArg List.length same
  revert length
  decide

end PropertiesFile

end Fula.Firmware
