import Mathlib.Data.List.Basic

/-!
# Base64

RFC 4648, section 4, over the characters of the text: three bytes give four
digits, and `=` pads the last quantum. `decode` is strict: a pad stands only
at the end of the text, and the bits it stands for are zero.

Encodings that are joined decode to the joined bytes as long as nothing
follows a pad (`decode_join`).
-/

namespace Lib.Base64
set_option autoImplicit false

def alphabet : List Char := "ABCDEFGHIJKLMNOPQRSTUVWXYZabcdefghijklmnopqrstuvwxyz0123456789+/".toList

def digit (n : Nat) : Char := alphabet.getD n '='

def value? (c : Char) : Option Nat := alphabet.idxOf? c

theorem value?_digit {n : Nat} (fits : n < 64) : value? (digit n) = some n := by
  have all : ∀ n < 64, value? (digit n) = some n := by decide +kernel
  exact all n fits

theorem digit_ne_pad {n : Nat} (fits : n < 64) : digit n ≠ '=' := by
  intro same
  have known := value?_digit fits
  rw [same] at known
  cases known

def encode : List UInt8 → List Char
  | [] => []
  | [a] => [digit (a.toNat / 4), digit (a.toNat % 4 * 16), '=', '=']
  | [a, b] => [digit (a.toNat / 4), digit (a.toNat % 4 * 16 + b.toNat / 16), digit (b.toNat % 16 * 4), '=']
  | a :: b :: c :: rest =>
    digit (a.toNat / 4) :: digit (a.toNat % 4 * 16 + b.toNat / 16) :: digit (b.toNat % 16 * 4 + c.toNat / 64) ::
      digit (c.toNat % 64) :: encode rest

def decode : List Char → Option (List UInt8)
  | [] => some []
  | p :: q :: r :: s :: rest => do
    let p ← value? p
    let q ← value? q
    if s = '=' then
      if rest ≠ [] then none
      else if r = '=' then if q % 16 = 0 then some [UInt8.ofNat (p * 4 + q / 16)] else none
      else
        let r ← value? r
        if r % 4 = 0 then some [UInt8.ofNat (p * 4 + q / 16), UInt8.ofNat (q % 16 * 16 + r / 4)] else none
    else
      let r ← value? r
      let s ← value? s
      let bytes ← decode rest
      some (UInt8.ofNat (p * 4 + q / 16) :: UInt8.ofNat (q % 16 * 16 + r / 4) :: UInt8.ofNat (r % 4 * 64 + s) :: bytes)
  | _ => none

/-! ## One quantum -/

theorem first_byte (a : UInt8) {low : Nat} (small : low < 16) :
    UInt8.ofNat (a.toNat / 4 * 4 + (a.toNat % 4 * 16 + low) / 16) = a := by
  have sum : a.toNat / 4 * 4 + (a.toNat % 4 * 16 + low) / 16 = a.toNat := by omega
  rw [sum, UInt8.ofNat_toNat]

theorem second_byte (a b : UInt8) {low : Nat} (small : low < 4) :
    UInt8.ofNat ((a.toNat % 4 * 16 + b.toNat / 16) % 16 * 16 + (b.toNat % 16 * 4 + low) / 4) = b := by
  have byte := b.toNat_lt
  have sum : (a.toNat % 4 * 16 + b.toNat / 16) % 16 * 16 + (b.toNat % 16 * 4 + low) / 4 = b.toNat := by omega
  rw [sum, UInt8.ofNat_toNat]

theorem third_byte (b c : UInt8) :
    UInt8.ofNat ((b.toNat % 16 * 4 + c.toNat / 64) % 4 * 64 + c.toNat % 64) = c := by
  have byte := c.toNat_lt
  have sum : (b.toNat % 16 * 4 + c.toNat / 64) % 4 * 64 + c.toNat % 64 = c.toNat := by omega
  rw [sum, UInt8.ofNat_toNat]

theorem decode_full (a b c : UInt8) (rest : List UInt8) (text : List Char) :
    decode (encode (a :: b :: c :: rest) ++ text) = (decode (encode rest ++ text)).map (a :: b :: c :: ·) := by
  have byteA := a.toNat_lt
  have byteB := b.toNat_lt
  have byteC := c.toNat_lt
  simp only [encode, List.cons_append, decode, value?_digit (show a.toNat / 4 < 64 by omega),
    value?_digit (show a.toNat % 4 * 16 + b.toNat / 16 < 64 by omega),
    value?_digit (show b.toNat % 16 * 4 + c.toNat / 64 < 64 by omega), value?_digit (show c.toNat % 64 < 64 by omega),
    digit_ne_pad (show c.toNat % 64 < 64 by omega), Option.bind_eq_bind, Option.bind_some, if_false,
    first_byte a (show b.toNat / 16 < 16 by omega), second_byte a b (show c.toNat / 64 < 4 by omega), third_byte]
  cases decode (encode rest ++ text) <;> rfl

theorem decode_one (a : UInt8) (text : List Char) :
    decode (encode [a] ++ text) = if text = [] then some [a] else none := by
  have byteA := a.toNat_lt
  have high : a.toNat % 4 * 16 % 16 = 0 := by omega
  have whole := first_byte a (show 0 < 16 by decide)
  rw [Nat.add_zero] at whole
  simp only [encode, List.cons_append, List.nil_append, decode, value?_digit (show a.toNat / 4 < 64 by omega),
    value?_digit (show a.toNat % 4 * 16 < 64 by omega), Option.bind_eq_bind, Option.bind_some, if_true, high, whole]
  by_cases last : text = []
  · simp [last]
  · simp [last]

theorem decode_two (a b : UInt8) (text : List Char) :
    decode (encode [a, b] ++ text) = if text = [] then some [a, b] else none := by
  have byteA := a.toNat_lt
  have byteB := b.toNat_lt
  have high : b.toNat % 16 * 4 % 4 = 0 := by omega
  have first := first_byte a (show b.toNat / 16 < 16 by omega)
  have second := second_byte a b (show 0 < 4 by decide)
  rw [Nat.add_zero] at second
  simp only [encode, List.cons_append, List.nil_append, decode, value?_digit (show a.toNat / 4 < 64 by omega),
    value?_digit (show a.toNat % 4 * 16 + b.toNat / 16 < 64 by omega), value?_digit (show b.toNat % 16 * 4 < 64 by omega),
    digit_ne_pad (show b.toNat % 16 * 4 < 64 by omega), Option.bind_eq_bind, Option.bind_some, if_true, if_false, high,
    first, second]
  by_cases last : text = []
  · simp [last]
  · simp [last]

/-! ## Joined encodings -/

theorem encode_eq_nil {bs : List UInt8} : encode bs = [] ↔ bs = [] := by
  match bs with
  | [] => simp [encode]
  | [_] => simp [encode]
  | [_, _] => simp [encode]
  | _ :: _ :: _ :: _ => simp [encode]

/-- After whole quanta the text goes on. -/
theorem decode_aligned {bs : List UInt8} (aligned : 3 ∣ bs.length) (text : List Char) :
    decode (encode bs ++ text) = (decode text).map (bs ++ ·) := by
  match bs with
  | [] => simp [encode]
  | [_] => simp at aligned
  | [_, _] => simp at aligned
  | a :: b :: c :: rest =>
    have shorter : 3 ∣ rest.length := by
      simp only [List.length_cons] at aligned
      omega
    rw [decode_full, decode_aligned shorter text, Option.map_map]
    rfl

/-- After a pad it does not. -/
theorem decode_padded {bs : List UInt8} (padded : ¬ 3 ∣ bs.length) (text : List Char) :
    decode (encode bs ++ text) = if text = [] then some bs else none := by
  match bs with
  | [] => simp at padded
  | [a] => exact decode_one a text
  | [a, b] => exact decode_two a b text
  | a :: b :: c :: rest =>
    have shorter : ¬ 3 ∣ rest.length := by
      simp only [List.length_cons] at padded
      omega
    rw [decode_full, decode_padded shorter text]
    by_cases last : text = []
    · simp [last]
    · simp [last]

/-- Joined encodings are an encoding of the joined bytes exactly when a group
that is not of whole quanta is followed by empty groups only. -/
theorem decode_join (groups : List (List UInt8)) :
    decode (groups.flatMap encode) = some groups.flatten ↔ groups.Pairwise fun g h => 3 ∣ g.length ∨ h = [] := by
  induction groups with
  | nil => simp [decode]
  | cons g groups ih =>
    rw [List.flatMap_cons, List.flatten_cons, List.pairwise_cons]
    by_cases aligned : 3 ∣ g.length
    · rw [decode_aligned aligned, Option.map_eq_some_iff]
      constructor
      · rintro ⟨bytes, rest, same⟩
        rw [List.append_cancel_left same] at rest
        exact ⟨fun _ _ => .inl aligned, ih.1 rest⟩
      · rintro ⟨-, rest⟩
        exact ⟨_, ih.2 rest, rfl⟩
    · have ends : groups.flatMap encode = [] ↔ ∀ h ∈ groups, h = [] := by
        simp only [List.flatMap_eq_nil_iff, encode_eq_nil]
      rw [decode_padded aligned]
      by_cases last : groups.flatMap encode = []
      · have empty := ends.1 last
        have joined : groups.flatten = [] := List.flatten_eq_nil_iff.2 empty
        rw [if_pos last, joined, List.append_nil]
        refine iff_of_true rfl ⟨fun h member => .inr (empty h member), ?_⟩
        rw [List.pairwise_iff_forall_sublist]
        intro a b inside
        exact .inr (empty b (inside.subset (by simp)))
      · rw [if_neg last]
        refine iff_of_false (by simp) ?_
        rintro ⟨all, -⟩
        exact last (ends.2 fun h member => (all h member).resolve_left aligned)

theorem decode_encode (bs : List UInt8) : decode (encode bs) = some bs := by
  have one := (decode_join [bs]).2 (List.pairwise_singleton _ _)
  simpa using one

/-! ## Cuts between two quanta -/

theorem encode_take (bs : List UInt8) (m : Nat) : encode (bs.take (3 * m)) = (encode bs).take (4 * m) := by
  induction m generalizing bs with
  | zero => rfl
  | succ m ih =>
    have three : 3 * (m + 1) = 3 * m + 1 + 1 + 1 := by omega
    have four : 4 * (m + 1) = 4 * m + 1 + 1 + 1 + 1 := by omega
    rw [three, four]
    match bs with
    | [] => simp [encode]
    | [_] => simp [encode]
    | [_, _] => simp [encode]
    | a :: b :: c :: rest => simp only [List.take_succ_cons, encode, ih]

theorem encode_drop (bs : List UInt8) (m : Nat) : encode (bs.drop (3 * m)) = (encode bs).drop (4 * m) := by
  induction m generalizing bs with
  | zero => rfl
  | succ m ih =>
    have three : 3 * (m + 1) = 3 * m + 1 + 1 + 1 := by omega
    have four : 4 * (m + 1) = 4 * m + 1 + 1 + 1 + 1 := by omega
    rw [three, four]
    match bs with
    | [] => simp [encode]
    | [_] => simp [encode]
    | [_, _] => simp [encode]
    | a :: b :: c :: rest => simp only [List.drop_succ_cons, encode, ih]

end Lib.Base64
