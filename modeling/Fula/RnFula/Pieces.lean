import Fula.RnFula.FailingTransfers

/-!
# Files in pieces

Both ends of the bridge cut a file into pieces of text. The native `fileReader2` slices the
base64 of the whole file every `chunksAmount` characters, and the web view decodes each slice by
itself. The web view's `streamSend` encodes groups of the chunks that it reads.

* `fileReader2_decodes`: the slices decode one by one, and to the file.
* `webStreamSend_groups`: the CHUNKs are groups of one to three chunks, in order.
-/

namespace Fula.RnFula
set_option autoImplicit false
open Lib EventEmitter Download

/-! ## `fileReader2` -/

/-- What a generator yields until it returns, by what its body does up to the next `yield`. -/
inductive Yields {σ β : Type} (next : σ → Option (β × σ)) : σ → List β → Prop where
  | returns {s : σ} (ends : next s = none) : Yields next s []
  | yields {s s' : σ} {b : β} {bs : List β} (first : next s = some (b, s')) (rest : Yields next s' bs) :
    Yields next s (b :: bs)

theorem Yields.unique {σ β : Type} {next : σ → Option (β × σ)} {s : σ} {bs cs : List β} (h : Yields next s bs)
    (h' : Yields next s cs) : bs = cs := by
  induction h generalizing cs with
  | returns ends =>
    cases h' with
    | returns ends' => rfl
    | yields first rest =>
      rw [ends] at first
      cases first
  | yields first rest ih =>
    cases h' with
    | returns ends =>
      rw [ends] at first
      cases first
    | yields first' rest' =>
      rw [first] at first'
      cases first'
      rw [ih rest']

/-- What is used of `expo-file-system` and `fetch`. -/
structure FileSystem (T : Type) where
  modificationTime : String → T
  size : String → Nat
  /-- `readAsStringAsync(uri, { encoding: Base64 })` -/
  readAsStringAsync : String → String
  /-- `(await fetch(uri)).blob()`, its type -/
  blobType : String → String

structure Meta (T : Type) where
  name : String
  type : String
  lastModified : T
  size : Nat

def getFileName (str : String) : String :=
  let last (sep : Char) (cs : List Char) : List Char := ((cs.splitOn sep).getLast?).getD []
  String.ofList (last '/' (last '\\' str.toList))

inductive Piece (T : Type) where
  | info (meta_ : Meta T)
  | text (data : String)

/-- Where the body of `fileReader2` is. -/
inductive Reader where
  | started (uri : String) (chunksAmount : Nat)
  | loop (content : String) (chunksAmount byteStart byteEnd : Nat)

/-- `content.slice(byteStart, byteEnd)` -/
def slice (content : String) (byteStart byteEnd : Nat) : String :=
  String.ofList ((content.toList.drop byteStart).take (byteEnd - byteStart))

variable {T : Type}

def fileReader2 (fs : FileSystem T) : Reader → Option (Piece T × Reader)
  | .started uri chunksAmount =>
    let content := fs.readAsStringAsync uri
    let info := {
      name := getFileName uri, type := fs.blobType uri, lastModified := fs.modificationTime uri, size := fs.size uri }
    some (.info info, .loop content chunksAmount 0 chunksAmount)
  | .loop content chunksAmount byteStart byteEnd =>
    if byteStart < content.length then
      let next := byteEnd + chunksAmount
      some (.text (slice content byteStart byteEnd),
        .loop content chunksAmount byteEnd (if next ≥ content.length then content.length else next))
    else none

/-- The window that the loop is about to yield: of full width, or up to the end. -/
def Window (content : String) (chunksAmount byteStart byteEnd : Nat) : Prop :=
  byteEnd = byteStart + chunksAmount ∨ byteEnd = content.length ∧ content.length ≤ byteStart + chunksAmount

theorem Window.next {content : String} {chunksAmount byteEnd : Nat} :
    Window content chunksAmount byteEnd
      (if byteEnd + chunksAmount ≥ content.length then content.length else byteEnd + chunksAmount) := by
  unfold Window
  split
  · next clamped => exact .inr ⟨rfl, clamped⟩
  · exact .inl rfl

theorem Window.slice_eq {content : String} {chunksAmount byteStart byteEnd : Nat}
    (h : Window content chunksAmount byteStart byteEnd) :
    slice content byteStart byteEnd = String.ofList ((content.toList.drop byteStart).take chunksAmount) := by
  rcases h with rfl | ⟨rfl, short⟩
  · rw [slice, Nat.add_sub_cancel_left]
  · have rest : (content.toList.drop byteStart).length = content.length - byteStart := by
      rw [List.length_drop, String.length_toList]
    rw [slice, List.take_of_length_le (by omega), List.take_of_length_le (by omega)]

theorem Window.drop_eq {content : String} {chunksAmount byteStart byteEnd : Nat}
    (h : Window content chunksAmount byteStart byteEnd) :
    content.toList.drop byteEnd = (content.toList.drop byteStart).drop chunksAmount := by
  have length : content.toList.length = content.length := String.length_toList
  rcases h with rfl | ⟨rfl, short⟩
  · rw [List.drop_drop]
  · rw [List.drop_drop, List.drop_eq_nil_of_le (by omega), List.drop_eq_nil_of_le (by omega)]

/-- From a window that starts at a quantum, the loop yields the rest of the file. -/
theorem loop_decodes (fs : FileSystem T) {content : String} {k byteStart byteEnd : Nat} (positive : 0 < k)
    (window : Window content (4 * k) byteStart byteEnd) {rest : Bytes}
    (encoded : content.toList.drop byteStart = Base64.encode rest) :
    ∃ (texts : List String) (decoded : List Bytes), Yields (fileReader2 fs) (.loop content (4 * k) byteStart byteEnd) (texts.map .text) ∧
      (∀ text ∈ texts, text ≠ "") ∧ texts.mapM (fun text => Base64.decode text.toList) = some decoded ∧
      decoded.flatten = rest := by
  generalize measured : rest.length = n
  induction n using Nat.strongRecOn generalizing rest byteStart byteEnd with
  | ind n ih =>
    have length : content.toList.length = content.length := String.length_toList
    by_cases inside : byteStart < content.length
    · have some_ : rest ≠ [] := by
        rintro rfl
        have := congrArg List.length encoded
        simp only [List.length_drop, Base64.encode, List.length_nil] at this
        omega
      have shorter : (rest.drop (3 * k)).length < n := by
        have := List.length_pos_of_ne_nil some_
        rw [List.length_drop]
        omega
      have after : content.toList.drop byteEnd = Base64.encode (rest.drop (3 * k)) := by
        rw [window.drop_eq, encoded, Base64.encode_drop]
      obtain ⟨texts, decoded, yields, full, decodes, whole⟩ := ih _ shorter Window.next after rfl
      have piece : slice content byteStart byteEnd = String.ofList (Base64.encode (rest.take (3 * k))) := by
        rw [window.slice_eq, encoded, Base64.encode_take]
      have first : Base64.decode (slice content byteStart byteEnd).toList = some (rest.take (3 * k)) := by
        rw [piece, String.toList_ofList, Base64.decode_encode]
      refine ⟨slice content byteStart byteEnd :: texts, rest.take (3 * k) :: decoded, ?_, ?_, ?_, ?_⟩
      · exact .yields (if_pos inside) yields
      · rintro text (_ | ⟨_, later⟩)
        · rw [piece]
          intro empty
          have nothing := congrArg String.toList empty
          rw [String.toList_ofList] at nothing
          have taken := Base64.encode_eq_nil.1 nothing
          rw [List.take_eq_nil_iff] at taken
          exact taken.elim (by omega) some_
        · exact full text later
      · simp [first, decodes]
      · rw [List.flatten_cons, whole, List.take_append_drop]
    · have none_ : rest = [] := by
        rw [List.drop_eq_nil_of_le (by omega)] at encoded
        exact Base64.encode_eq_nil.1 encoded.symm
      exact ⟨[], [], .returns (if_neg inside), by simp, rfl, none_.symm⟩

/-- **Sliced uploads**: whatever the file and wherever the slices are cut, as long as that is between
two quanta, there are finitely many slices, none empty, each decodes, and together to the file. -/
theorem fileReader2_decodes (fs : FileSystem T) {uri : String} {bytes : Bytes}
    (documented : (fs.readAsStringAsync uri).toList = Base64.encode bytes) {chunksAmount : Nat}
    (positive : 0 < chunksAmount) (aligned : 4 ∣ chunksAmount) :
    ∃ (info : Meta T) (texts : List String) (decoded : List Bytes),
      Yields (fileReader2 fs) (.started uri chunksAmount) (.info info :: texts.map .text) ∧
      (∀ text ∈ texts, text ≠ "") ∧ texts.mapM (fun text => Base64.decode text.toList) = some decoded ∧
      decoded.flatten = bytes := by
  obtain ⟨k, rfl⟩ := aligned
  have window : Window (fs.readAsStringAsync uri) (4 * k) 0 (4 * k) := .inl (Nat.zero_add _).symm
  obtain ⟨texts, decoded, yields, full, decodes, whole⟩ := loop_decodes fs (by omega) window documented
  exact ⟨_, texts, decoded, .yields rfl yields, full, decodes, whole⟩

/-- Five bytes, four characters at a time. -/
theorem fileReader2_decodes_sample : ∃ (info : Meta Unit) (texts : List String) (decoded : List Bytes),
    Yields (fileReader2 ⟨fun _ => (), fun _ => 5, fun _ => "AQIDBAU=", fun _ => "text/plain"⟩) (.started "file" 4)
      (.info info :: texts.map .text) ∧
    (∀ text ∈ texts, text ≠ "") ∧ texts.mapM (fun text => Base64.decode text.toList) = some decoded ∧
    decoded.flatten = [1, 2, 3, 4, 5] :=
  fileReader2_decodes _ (by decide) (by decide) (by decide)

/-- `chunksAmount: number = 1048576` -/
def defaultChunksAmount : Nat := 1048576

/-- The web view's end of an upload with the default slices: the consumer of the source, whenever it
comes before the first CHUNK, gets the bytes of the file and its end. -/
theorem sendFile_received (fs : FileSystem T) {uri : String} {bytes : Bytes}
    (documented : (fs.readAsStringAsync uri).toList = Base64.encode bytes) {b : Bridge Bytes (Meta T)} {id : String}
    (unused : Unused id b) :
    ∃ (info : Meta T) (texts : List String) (b' : Bridge Bytes (Meta T)) (decoded : List Bytes),
      Yields (fileReader2 fs) (.started uri defaultChunksAmount) (.info info :: texts.map .text) ∧
      run (step fun text => Base64.decode text.toList) b (upload id b.2.promises.length
        [⟨id, info, "", .START⟩] (texts.map (⟨id, info, ·, .CHUNK⟩) ++ [⟨id, info, "", .END⟩])) = some b' ∧
      b'.2.observers[b.2.observers.length]? = some { values := decoded, outcome := some .completed } ∧
      decoded.flatten = bytes := by
  have quanta : defaultChunksAmount = 4 * 262144 := rfl
  have window : Window (fs.readAsStringAsync uri) (4 * 262144) 0 (4 * 262144) := .inl (Nat.zero_add _).symm
  obtain ⟨texts, decoded, loops, -, decodes, whole⟩ := loop_decodes fs (by omega) window documented
  obtain ⟨info, yields⟩ : ∃ info : Meta T, Yields (fileReader2 fs) (.started uri defaultChunksAmount)
      (.info info :: texts.map .text) := ⟨_, .yields (by rw [quanta]; rfl) loops⟩
  obtain ⟨b', reached, told⟩ := upload_late info unused [] decodes
  exact ⟨info, texts, b', decoded, yields, reached, told, whole⟩

/-! ## `streamSend` -/

section
variable {M : Type} {transferId : String} {info : M} {stringify : Bytes → String}

theorem groups_size {α : Type} (as : List α) : ∀ group ∈ groups as, 1 ≤ group.length ∧ group.length ≤ 3 := by
  fun_induction groups as with
  | case1 => simp
  | case2 => simp
  | case3 => simp
  | case4 a b c rest ih =>
    rintro group (_ | ⟨_, later⟩)
    · simp
    · exact ih group later

theorem sendBuffers_fulfilled (buffer chunks : List Bytes) :
    (sendBuffers transferId info stringify .done buffer chunks).promise = .fulfilled := by
  induction chunks generalizing buffer with
  | nil => rfl
  | cons chunk chunks ih =>
    simp only [sendBuffers]
    split
    · exact ih _
    · exact ih _

/-- **What the web view sends**: START, CHUNKs and END, and the data of the CHUNKs are those of groups of
one to three chunks, which in their order are all the chunks. -/
theorem webStreamSend_groups (documented : ∀ bytes, (stringify bytes).toList = Base64.encode bytes) (chunks : List Bytes) :
    (webStreamSend transferId info stringify .done chunks).promise = .fulfilled ∧
    ∃ (groups : List (List Bytes)) (texts : List String),
      (webStreamSend transferId info stringify .done chunks).posted =
        ⟨transferId, info, "", .START⟩ :: texts.map (⟨transferId, info, ·, .CHUNK⟩) ++ [⟨transferId, info, "", .END⟩] ∧
      texts.map (fun text => Base64.decode text.toList) = groups.map (some ·.flatten) ∧
      (∀ group ∈ groups, 1 ≤ group.length ∧ group.length ≤ 3) ∧ groups.flatten = chunks := by
  refine ⟨sendBuffers_fulfilled [] chunks, groups chunks, (groups chunks).map fun group => stringify group.flatten,
    ?_, ?_, groups_size chunks, groups_flatten chunks⟩
  · have posted : (sendBuffers transferId info stringify .done [] chunks).posted = _ := sendBuffers_done [] chunks
    rw [post_eq stringify chunks (by simp)] at posted
    simp only [webStreamSend, Sent.post, posted, List.nil_append, List.cons_append]
  · rw [List.map_map]
    refine List.map_congr_left fun group _ => ?_
    rw [Function.comp_apply, documented, Base64.decode_encode]

/-- Five chunks, one of them empty. -/
theorem webStreamSend_groups_sample :
    (webStreamSend "transfer" () Download.stringify .done [[1], [], [2, 3], [4], [5]]).promise = .fulfilled ∧
    ∃ (groups : List (List Bytes)) (texts : List String),
      (webStreamSend "transfer" () Download.stringify .done [[1], [], [2, 3], [4], [5]]).posted =
        ⟨"transfer", (), "", .START⟩ :: texts.map (⟨"transfer", (), ·, .CHUNK⟩) ++ [⟨"transfer", (), "", .END⟩] ∧
      texts.map (fun text => Base64.decode text.toList) = groups.map (some ·.flatten) ∧
      (∀ group ∈ groups, 1 ≤ group.length ∧ group.length ≤ 3) ∧ groups.flatten = [[1], [], [2, 3], [4], [5]] :=
  webStreamSend_groups (fun _ => String.toList_ofList) _

end

end Fula.RnFula
