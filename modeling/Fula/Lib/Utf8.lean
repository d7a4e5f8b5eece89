import Mathlib.Data.List.Basic

/-!
# Text as UTF-8

`TextEncoder` and `TextDecoder`, for texts of Unicode scalar values: a lone
surrogate, which an encoder replaces by U+FFFD, cannot be written here. A
decoder drops a byte order mark, the bytes `EF BB BF`, from the front of what
it is given. A text that starts with U+FEFF is written as such bytes, and no
other text is, so that of each text exactly this one character is lost.
-/

namespace Lib
set_option autoImplicit false

/-- `new TextEncoder().encode(text)` -/
def encodeText (text : String) : List UInt8 := text.toUTF8.data.toList

def byteOrderMark : List UInt8 := [0xEF, 0xBB, 0xBF]

/-- The `decode` of a text decoder that is given all bytes at once; `none` is an exception. -/
abbrev TextDecoder := List UInt8 → Option String

/-- With `ignoreBOM: true`: the bytes are decoded as they are. -/
def decodeMarked : TextDecoder := fun bs => String.fromUTF8? ⟨bs.toArray⟩

/-- Without: a byte order mark in front is dropped. -/
def decodeText : TextDecoder := fun bs =>
  decodeMarked (if bs.take 3 = byteOrderMark then bs.drop 3 else bs)

/-- The text starts with U+FEFF. -/
def Marked (text : String) : Prop := text.toList.head? = some '\uFEFF'

instance (text : String) : Decidable (Marked text) := inferInstanceAs (Decidable (_ = _))

/-- What is decoded of an encoded text: one U+FEFF in front is lost. -/
def unmark (text : String) : String := if Marked text then String.ofList text.toList.tail else text

theorem decodeMarked_encodeText (text : String) : decodeMarked (encodeText text) = some text :=
  dif_pos text.isValidUTF8

theorem encodeText_ofList (cs : List Char) : encodeText (String.ofList cs) = cs.flatMap String.utf8EncodeChar := by
  rw [encodeText, String.toUTF8_eq_toByteArray, String.toByteArray_ofList, List.utf8Encode,
    List.toList_data_toByteArray]

theorem encodeText_of_marked {text : String} (marked : Marked text) :
    encodeText text = byteOrderMark ++ encodeText (unmark text) := by
  obtain ⟨rest, starts⟩ := List.head?_eq_some_iff.1 marked
  rw [unmark, if_pos marked, starts, List.tail_cons, ← String.ofList_toList (s := text), starts, encodeText_ofList,
    encodeText_ofList, List.flatMap_cons]
  rfl

/-- No other text is written with the bytes of the mark in front. -/
theorem marked_of_take {text : String} (bytes : (encodeText text).take 3 = byteOrderMark) : Marked text := by
  rw [← String.ofList_toList (s := text)] at bytes
  cases chars : text.toList with
  | nil =>
    rw [chars] at bytes
    cases bytes
  | cons c rest =>
    -- the first character is decoded from both sides of the equation
    have whole := List.take_append_drop 3 (encodeText (String.ofList (c :: rest)))
    rw [← chars, bytes, show byteOrderMark = String.utf8EncodeChar '\uFEFF' from rfl, chars, encodeText_ofList,
      List.flatMap_cons] at whole
    have decoded := congrArg (fun bs : List UInt8 => bs.toByteArray.utf8DecodeChar? 0) whole
    simp only [List.toByteArray_append, ByteArray.utf8DecodeChar?_utf8EncodeChar_append, Option.some.injEq] at decoded
    rw [Marked, chars, ← decoded]
    rfl

/-- What is decoded of an encoded text. -/
theorem decodeText_encodeText (text : String) : decodeText (encodeText text) = some (unmark text) := by
  by_cases marked : Marked text
  · have front : (byteOrderMark ++ encodeText (unmark text)).take 3 = byteOrderMark := rfl
    rw [decodeText, encodeText_of_marked marked, if_pos front]
    exact decodeMarked_encodeText _
  · rw [decodeText, if_neg fun bytes => marked (marked_of_take bytes), decodeMarked_encodeText, unmark, if_neg marked]

theorem unmark_length {text : String} (marked : Marked text) :
    (unmark text).toList.length + 1 = text.toList.length := by
  obtain ⟨rest, starts⟩ := List.head?_eq_some_iff.1 marked
  rw [unmark, if_pos marked, String.toList_ofList, starts, List.tail_cons, List.length_cons]

theorem unmark_length_le (text : String) : (unmark text).toList.length ≤ text.toList.length := by
  by_cases marked : Marked text
  · have shorter := unmark_length marked
    omega
  · exact Nat.le_of_eq (by rw [unmark, if_neg marked])

theorem unmark_eq_self {text : String} : unmark text = text ↔ ¬Marked text := by
  constructor
  · intro same marked
    have shorter := unmark_length marked
    rw [same] at shorter
    omega
  · intro unmarked
    rw [unmark, if_neg unmarked]

/-- What decoding takes is not there again after further decoding. -/
theorem unmark_thrice {text : String} : unmark (unmark (unmark text)) = text ↔ ¬Marked text := by
  constructor
  · intro same marked
    have shorter := unmark_length marked
    have le := unmark_length_le (unmark text)
    have le' := unmark_length_le (unmark (unmark text))
    rw [same] at le'
    omega
  · intro unmarked
    rw [unmark_eq_self.2 unmarked, unmark_eq_self.2 unmarked, unmark_eq_self.2 unmarked]

theorem encodeText_unmark_length (text : String) : (encodeText (unmark text)).length ≤ (encodeText text).length := by
  by_cases marked : Marked text
  · rw [encodeText_of_marked marked, List.length_append]
    omega
  · exact Nat.le_of_eq (by rw [unmark, if_neg marked])

/-- What a decoder makes of an encoded text. -/
structure Decodes (decode : TextDecoder) (seen : String → String) : Prop where
  text : ∀ s, decode (encodeText s) = some (seen s)
  empty : seen "" = ""

theorem decodes_text : Decodes decodeText unmark := ⟨decodeText_encodeText, rfl⟩

theorem decodes_marked : Decodes decodeMarked id := ⟨decodeMarked_encodeText, rfl⟩

end Lib
