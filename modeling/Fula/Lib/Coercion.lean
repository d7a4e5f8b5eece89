import Mathlib.Data.List.Basic
import Mathlib.Data.List.Infix

/-!
# Strings and numbers as JavaScript converts them

What `trim` takes off, the string of an array, and the comparison of such a
string with 0. A string is compared as the number it is a literal of; one that
is no numeric literal is `NaN`, which nothing exceeds. The value of the
literals themselves is a parameter.
-/

namespace Lib.Coercion
set_option autoImplicit false

/-- White space and line terminators. -/
def isWhiteSpace (c : Char) : Bool :=
  c.toNat ∈ [0x9, 0xA, 0xB, 0xC, 0xD, 0x20, 0xA0, 0x1680, 0x2028, 0x2029, 0x202F, 0x205F, 0x3000, 0xFEFF] ||
    (0x2000 ≤ c.toNat && c.toNat ≤ 0x200A)

def trim (chars : List Char) : List Char := (chars.dropWhile isWhiteSpace).reverse.dropWhile isWhiteSpace |>.reverse

/-- `array.toString()`, from the strings of the elements. -/
def joined (elements : List (List Char)) : List Char := [','].intercalate elements

/-- The characters of numeric literals: digits and hexadecimal digits, prefixes,
signs, the point, exponents, `Infinity`. -/
def isNumeric (c : Char) : Bool := c.isDigit || c ∈ "+-.abcdefABCDEFoOxXInity".toList

/-- `string > 0`, where `positive` says it of the numeric literals. -/
def exceedsZero (positive : List Char → Bool) (string : List Char) : Bool :=
  match trim string with
  -- The empty string is 0.
  | [] => false
  | literal => literal.all isNumeric && positive literal

theorem prefix_joined (first : List Char) (rest : List (List Char)) : first <+: joined (first :: rest) := by
  cases rest with
  | nil => simp [joined, List.intercalate]
  | cons second rest => exact ⟨',' :: joined (second :: rest), by simp [joined, List.intercalate]⟩

/-- What is no numeric literal is not above 0. -/
theorem exceedsZero_of_head {c : Char} {chars : List Char} (positive : List Char → Bool) (visible : isWhiteSpace c = false)
    (other : isNumeric c = false) : exceedsZero positive (c :: chars) = false := by
  have kept : c ∈ trim (c :: chars) := by
    unfold trim
    rw [List.dropWhile_cons_of_neg (by simp [visible]), List.mem_reverse]
    rw [List.reverse_cons]
    generalize chars.reverse = back
    induction back with
    | nil => simp [List.dropWhile_cons_of_neg, visible]
    | cons d back ih =>
      rw [List.cons_append, List.dropWhile_cons]
      split
      · exact ih
      · simp
  unfold exceedsZero
  split
  · rfl
  · rw [Bool.and_eq_false_iff]
    refine .inl ?_
    rw [List.all_eq_false]
    exact ⟨c, kept, by simp [other]⟩

end Lib.Coercion
