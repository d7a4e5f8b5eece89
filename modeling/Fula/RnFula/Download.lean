import Fula.Lib.Base64
import Fula.RnFula.Bridge

/-!
# Downloads over the bridge

The web view's `streamSend` reads a file in chunks of any length, joins up to
three of them and posts the base64 of each group in a CHUNK message of its
own; the native `receiveFile` joins the texts. A text that ends in a pad can
only be the last one, so the joined text is the file as long as every group
but the last ones with bytes is a multiple of three long.

`rfc4648` is not part of the repository; what is used of it is that
`base64.stringify` encodes.
-/

namespace Fula.RnFula.Download
set_option autoImplicit false
open Lib

abbrev Bytes := List UInt8

/-! ## The web view -/

/-- `result.set(buf, offset)`. -/
def set (result buf : Bytes) (offset : Nat) : Bytes :=
  result.take offset ++ buf ++ result.drop (offset + buf.length)

def concatArrayBuffers (bufs : List Bytes) : Bytes :=
  let result := List.replicate (bufs.foldl (fun totalSize buf => totalSize + buf.length) 0) 0
  (bufs.foldl (fun (result, offset) buf => (set result buf offset, offset + buf.length)) (result, 0)).1

/-- The loop of `streamSend` from a round with this `buffer` on: the data of
the CHUNK messages. -/
def post (stringify : Bytes → String) : List Bytes → List Bytes → List String
  | buffer, [] => if buffer.length > 0 then [stringify (concatArrayBuffers buffer)] else []
  | buffer, chunk :: chunks =>
    if buffer.length < 3 then post stringify (buffer ++ [chunk]) chunks
    else stringify (concatArrayBuffers buffer) :: post stringify [chunk] chunks

/-- The messages that the web view's `streamSend` posts. -/
def streamSend {M : Type} (stringify : Bytes → String) (transferId : String) (iterator : List Bytes) (info : M) :
    List (Chunk M) :=
  RnFula.streamSend transferId (post stringify [] iterator) info

/-! ## The native side -/

/-- The `result` of `receiveFile`, when the source completes. -/
def receiveFile (source : Observer String) : Option String :=
  match source.outcome with
  | some .completed => some (source.values.foldl (· ++ ·) "")
  | _ => none

/-! ## What is posted -/

theorem totalSize_eq (bufs : List Bytes) (n : Nat) :
    bufs.foldl (fun totalSize buf => totalSize + buf.length) n = n + bufs.flatten.length := by
  induction bufs generalizing n with
  | nil => rfl
  | cons buf bufs ih =>
    rw [List.foldl_cons, ih, List.flatten_cons, List.length_append, Nat.add_assoc]

/-- The buffers are written behind what is written, over zeros. -/
theorem set_all (bufs : List Bytes) (written : Bytes) :
    bufs.foldl (fun (result, offset) buf => (set result buf offset, offset + buf.length))
        (written ++ List.replicate bufs.flatten.length 0, written.length) =
      (written ++ bufs.flatten, (written ++ bufs.flatten).length) := by
  induction bufs generalizing written with
  | nil => simp
  | cons buf bufs ih =>
    have here : set (written ++ List.replicate (buf :: bufs).flatten.length 0) buf written.length =
        (written ++ buf) ++ List.replicate bufs.flatten.length 0 := by
      simp [set]
    simp only [List.foldl_cons, here]
    rw [← List.length_append, ih]
    simp

theorem concatArrayBuffers_eq (bufs : List Bytes) : concatArrayBuffers bufs = bufs.flatten := by
  have whole := set_all bufs []
  rw [List.nil_append, List.length_nil] at whole
  rw [concatArrayBuffers, totalSize_eq, Nat.zero_add, whole, List.nil_append]

/-- A list in threes, the last group with what is left. -/
def groups {α : Type} : List α → List (List α)
  | [] => []
  | [a] => [[a]]
  | [a, b] => [[a, b]]
  | a :: b :: c :: rest => [a, b, c] :: groups rest

theorem groups_flatten {α : Type} (as : List α) : (groups as).flatten = as := by
  fun_induction groups as with
  | case1 => rfl
  | case2 => rfl
  | case3 => rfl
  | case4 a b c rest ih => rw [List.flatten_cons, ih]; rfl

theorem post_eq (stringify : Bytes → String) (chunks : List Bytes) {buffer : List Bytes} (room : buffer.length ≤ 3) :
    post stringify buffer chunks = (groups (buffer ++ chunks)).map fun group => stringify group.flatten := by
  induction chunks generalizing buffer with
  | nil =>
    rw [List.append_nil, post, concatArrayBuffers_eq]
    match buffer with
    | [] => rfl
    | [a] => rfl
    | [a, b] => rfl
    | [a, b, c] => rfl
  | cons chunk chunks ih =>
    rw [post]
    split
    · next less =>
      rw [ih (by rw [List.length_append, List.length_singleton]; omega), List.append_assoc]
      rfl
    · next full =>
      rw [ih (by simp), concatArrayBuffers_eq]
      obtain ⟨a, b, c, rfl⟩ := List.length_eq_three.1 (show buffer.length = 3 by omega)
      rfl

/-! ## What is received -/

theorem foldl_toList (texts : List String) (front : String) :
    (texts.foldl (· ++ ·) front).toList = front.toList ++ texts.flatMap String.toList := by
  induction texts generalizing front with
  | nil => simp
  | cons text texts ih => rw [List.foldl_cons, ih, String.toList_append, List.flatMap_cons, List.append_assoc]

section
variable {stringify : Bytes → String} (documented : ∀ bytes, (stringify bytes).toList = Base64.encode bytes)
include documented

/-- The joined texts. -/
theorem posted_text (chunks : List Bytes) :
    ((post stringify [] chunks).foldl (· ++ ·) "").toList =
      ((groups chunks).map List.flatten).flatMap Base64.encode := by
  have texts : post stringify [] chunks = (groups chunks).map fun group => stringify group.flatten :=
    post_eq stringify chunks (by simp)
  rw [foldl_toList, texts]
  simp [List.flatMap_map, documented]

/-- **What a download decodes to**: from any state of the native side in which
the transfer id is not in use, `receiveFile` gets a text, and it is the base64
of the file exactly when a group of three chunks whose length is no multiple
of three has only empty groups behind it. -/
theorem receiveFile_decodes {M : Type} (info : M) {b : Bridge String M} {id : String} (unused : Unused id b)
    (chunks : List Bytes) {first : Chunk M} {rest : List (Chunk M)}
    (posted : first :: rest = streamSend stringify id chunks info) :
    ∃ b' source result, run (step some) b (upload id b.2.promises.length [first] rest) = some b' ∧
      b'.2.observers[b.2.observers.length]? = some source ∧ receiveFile source = some result ∧
      (Base64.decode result.toList = some chunks.flatten ↔
        (groups chunks).Pairwise fun g h => 3 ∣ g.flatten.length ∨ h.flatten = []) := by
  have decodes : (post stringify [] chunks).mapM some = some (post stringify [] chunks) := by
    exact List.mapM_pure.trans (by simp)
  obtain ⟨b', reached, told⟩ := upload_late info unused [] decodes
  cases posted
  refine ⟨b', _, _, reached, told, rfl, ?_⟩
  have whole : chunks.flatten = ((groups chunks).map List.flatten).flatten := by
    rw [← List.flatten_flatten, groups_flatten]
  rw [posted_text documented, whole, Base64.decode_join, List.pairwise_map]

end

/-- `base64.stringify`, as documented. -/
def stringify (bytes : Bytes) : String := String.ofList (Base64.encode bytes)

theorem receiveFile_decodes_sample :
    ∃ b' source result, run (step some) (init : Bridge String Unit)
        (upload "transfer" 0 [⟨"transfer", (), "", .START⟩]
          [⟨"transfer", (), "AQIDBAUG", .CHUNK⟩, ⟨"transfer", (), "Bw==", .CHUNK⟩, ⟨"transfer", (), "", .END⟩]) = some b' ∧
      b'.2.observers[0]? = some source ∧ receiveFile source = some result ∧
      (Base64.decode result.toList = some [1, 2, 3, 4, 5, 6, 7] ↔
        (groups [[1], [2], [3, 4, 5, 6], [7]] : List (List Bytes)).Pairwise fun g h =>
          3 ∣ g.flatten.length ∨ h.flatten = []) :=
  receiveFile_decodes (fun _ => String.toList_ofList) () ⟨rfl, rfl, rfl⟩
    [[1], [2], [3, 4, 5, 6], [7]] rfl

/-- Four bytes in three chunks and a fifth: the first text ends in pads. -/
theorem joined_not_base64 :
    ∃ b' source, run (step some) (init : Bridge String Unit)
        (upload "transfer" 0 [⟨"transfer", (), "", .START⟩]
          ((streamSend stringify "transfer" [[1], [2], [3, 4], [5]] ()).drop 1)) = some b' ∧
      b'.2.observers[0]? = some source ∧ receiveFile source = some "AQIDBA==BQ==" ∧
      Base64.decode "AQIDBA==BQ==".toList = none := by
  have told : (run (step some) (init : Bridge String Unit)
        (upload "transfer" 0 [⟨"transfer", (), "", .START⟩]
          ((streamSend stringify "transfer" [[1], [2], [3, 4], [5]] ()).drop 1))).map (·.2.observers) =
      some [{ values := ["AQIDBA==", "BQ=="], outcome := some .completed }] := by
    decide
  obtain ⟨b', reached, observers⟩ := Option.map_eq_some_iff.1 told
  refine ⟨b', _, reached, by rw [observers]; rfl, rfl, ?_⟩
  decide

end Fula.RnFula.Download
