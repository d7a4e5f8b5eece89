import Fula.Lib.Wire

/-!
# Truncated protocol buffers

What a reader makes of a part of a message. A value is self-delimiting: no
proper prefix of it can be read. So a nested message, whose length is written
in front, is not read from a part of its bytes, and a whole message is read
from a part of it just where the part ends between two fields, with the fields
so far.

`Strict` says that no field is read from a part of its bytes, and `Written` is
a number of such fields in a row. `Ranked` says that no field adds more than
one to what a message has, measured by a rank: where a part of a message is
read as a message of full rank, none of the fields is missing.
-/

namespace Lib.Wire
set_option autoImplicit false

/-! ## Values -/

theorem prefix_append_cases {p as bs : List UInt8} (part : p <+: as ++ bs) :
    (p <+: as ∧ p ≠ as) ∨ ∃ q, p = as ++ q ∧ q <+: bs := by
  rcases List.prefix_or_prefix_of_prefix part (List.prefix_append as bs) with inside | ⟨q, rfl⟩
  · by_cases whole : p = as
    · exact .inr ⟨[], by simp [whole], List.nil_prefix⟩
    · exact .inl ⟨inside, whole⟩
  · exact .inr ⟨q, rfl, (List.prefix_append_right_inj as).1 part⟩

theorem readGroups_part {k n : Nat} {p : List UInt8} (part : p <+: groups k n)
    (proper : p ≠ groups k n) (j : Nat) :
    readGroups j p = none := by
  induction k generalizing n p j with
  | zero => exact absurd (List.prefix_nil.1 part) proper
  | succ k ih =>
    cases j with
    | zero => rfl
    | succ j =>
      rw [groups] at part proper
      cases p with
      | nil => rfl
      | cons b p =>
        split at part
        · obtain ⟨rfl, rest⟩ := List.cons_prefix_cons.1 part
          rw [List.prefix_nil.1 rest] at proper
          simp_all
        · next large =>
          obtain ⟨rfl, rest⟩ := List.cons_prefix_cons.1 part
          rw [if_neg large] at proper
          have shorter := ih rest (fun whole => proper (by rw [whole])) j
          have byte : (UInt8.ofNat (n % 128 + 128)).toNat = n % 128 + 128 := by rw [UInt8.toNat_ofNat']; omega
          rw [readGroups, if_neg (by omega), shorter]
          rfl

theorem readUint32_part {n : Nat} {p : List UInt8} (part : p <+: varint n) (proper : p ≠ varint n) :
    readUint32 p = none := by
  rw [readUint32, readGroups_part part proper]
  rfl

theorem readUint64_part {n : Nat} {p : List UInt8} (part : p <+: varint n) (proper : p ≠ varint n) :
    readUint64 p = none := by
  rw [readUint64, readGroups_part part proper]
  rfl

theorem readTag_part {no : Nat} {type : WireType} {p : List UInt8} (part : p <+: tag no type)
    (proper : p ≠ tag no type) : readTag p = none := by
  rw [readTag, readUint32_part part proper]
  rfl

theorem lengthDelimited_length {bs written : List UInt8} (wrote : lengthDelimited bs = some written) :
    bs.length < written.length := by
  obtain ⟨-, rfl⟩ := lengthDelimited_eq wrote
  have := varint_length_pos bs.length
  rw [List.length_append]; omega

/-- A length is read only with all of what it delimits behind it. -/
theorem lengthDelimited_part {bs written p : List UInt8} (wrote : lengthDelimited bs = some written)
    (part : p <+: written) (proper : p ≠ written) :
    readUint32 p = none ∨ ∃ q, readUint32 p = some (bs.length, q) ∧ q <+: bs ∧ q ≠ bs := by
  obtain ⟨fits, rfl⟩ := lengthDelimited_eq wrote
  rcases prefix_append_cases part with ⟨inside, short⟩ | ⟨q, rfl, rest⟩
  · exact .inl (readUint32_part inside short)
  · exact .inr ⟨q, readUint32_varint fits q, rest, fun whole => proper (by rw [whole])⟩

theorem readBytes_part {bs written p : List UInt8} (wrote : lengthDelimited bs = some written)
    (part : p <+: written)
    (proper : p ≠ written) : readBytes p = none := by
  rcases lengthDelimited_part wrote part proper with cut | ⟨q, length, rest, short⟩
  · rw [readBytes, cut]; rfl
  · have less : q.length < bs.length :=
      lt_of_le_of_ne rest.length_le fun same => short (rest.eq_of_length same)
    rw [readBytes, length]
    simp only [Option.bind_eq_bind, Option.bind_some]
    rw [if_neg (by omega)]

theorem readString_part {decode : TextDecoder} {s : String} {written p : List UInt8} (wrote : string s = some written)
    (part : p <+: written)
    (proper : p ≠ written) : readString decode p = none := by
  rw [readString, readBytes_part wrote part proper]
  rfl

/-! ## Messages -/

section
variable {M : Type} (read : FieldReader M) (rank : M → Nat)

/-- No field is read from a part of its bytes. -/
def Strict (m : M) (bs : List UInt8) : Prop :=
  ∀ p, p <+: bs → p ≠ bs → ∀ no type value, readTag p = some ((no, type), value) → read m no type value = none

/-- `n` strict fields. -/
inductive Written : Nat → M → List UInt8 → M → Prop
  | nil (m : M) : Written 0 m [] m
  | cons {n : Nat} {m m' m'' : M} {b bs : List UInt8} (field : Encodes read m b m') (strict : Strict read m b)
      (rest : Written n m' bs m'') : Written (n + 1) m (b ++ bs) m''

/-- No field adds more than one to the rank. -/
def Ranked : Prop :=
  ∀ m no type bs m' rest, read m no type bs = some (m', rest) → rank m' ≤ rank m + 1

variable {read rank} {n n' : Nat}

theorem Written.fields {m m' : M} {bs : List UInt8} (written : Written read n m bs m') :
    Fields read m bs m' := by
  induction written with
  | nil m => exact .nil m
  | cons field _ _ ih => exact .cons field ih

theorem Written.one {m m' : M} {bs : List UInt8} (field : Encodes read m bs m') (strict : Strict read m bs) :
    Written read 1 m bs m' := by
  have written := Written.cons field strict (.nil m')
  rwa [List.append_nil] at written

theorem Written.append {m m' m'' : M} {as bs : List UInt8} (first : Written read n m as m')
    (second : Written read n' m' bs m'') : Written read (n + n') m (as ++ bs) m'' := by
  induction first with
  | nil => rwa [Nat.zero_add]
  | cons field strict _ ih =>
    rw [List.append_assoc, Nat.add_right_comm]
    exact .cons field strict (ih second)

theorem Written.rank_le (ranked : Ranked read rank) {m m' : M} {bs : List UInt8} (written : Written read n m bs m') :
    rank m' ≤ rank m + n := by
  induction written with
  | nil m => exact Nat.le_refl _
  | cons field _ _ ih =>
    obtain ⟨no, type, value, -, valued⟩ := field.2 []
    have step := ranked _ no type value _ _ valued
    omega

theorem Strict.of_value {m : M} {no : Nat} {type : WireType} {value : List UInt8} (positive : 0 < no)
    (fits : no < 2 ^ 29) (strict : ∀ p, p <+: value → p ≠ value → read m no type p = none) :
    Strict read m (tag no type ++ value) := by
  intro p part proper no' type' value' tagged
  rcases prefix_append_cases part with ⟨inside, short⟩ | ⟨q, rfl, rest⟩
  · rw [readTag_part inside short] at tagged
    cases tagged
  · rw [readTag_tag positive fits] at tagged
    cases tagged
    exact strict value' rest fun whole => proper (by rw [whole])

theorem strict_nil (m : M) : Strict read m [] :=
  fun _ part proper => absurd (List.prefix_nil.1 part) proper

theorem fieldUnless_strict {m : M} {absent : Bool} {no : Nat} {type : WireType} {value : Option (List UInt8)}
    {bs : List UInt8} (wrote : fieldUnless absent no type value = some bs) (positive : 0 < no)
    (fits : no < 2 ^ 29)
    (strict : ∀ v, value = some v → ∀ p, p <+: v → p ≠ v → read m no type p = none) : Strict read m bs := by
  unfold fieldUnless at wrote
  split at wrote
  · cases wrote
    exact strict_nil m
  · obtain ⟨v, given, rfl⟩ := Option.map_eq_some_iff.1 wrote
    exact .of_value positive fits (strict v given)

/-- Where a field is cut, what stands before it does not help. -/
theorem Fields.cut {m m' : M} {as bs p : List UInt8} (first : Fields read m as m')
    (strict : Strict read m' bs)
    (part : p <+: bs) (proper : p ≠ bs) (some_ : p ≠ []) (k : Nat) :
    readFields read k (as ++ p).length m (as ++ p) = none := by
  induction first generalizing k with
  | nil m =>
    cases p with
    | nil => exact absurd rfl some_
    | cons byte p =>
      cases k with
      | zero => rfl
      | succ k =>
        rw [List.nil_append, List.length_cons, readFields]
        cases tagged : readTag (byte :: p) with
        | none => rfl
        | some t =>
          obtain ⟨⟨no, type⟩, value⟩ := t
          simp only [Option.bind_eq_bind, Option.bind_some, strict _ part proper no type value tagged,
            Option.bind_none]
  | @cons m _ _ b as field _ ih =>
    obtain ⟨positive, reads⟩ := field
    obtain ⟨length, whole⟩ : ∃ length, (b ++ as ++ p).length = length + 1 :=
      ⟨(b ++ as ++ p).length - 1, by simp only [List.length_append]; omega⟩
    rw [whole]
    cases k with
    | zero => rfl
    | succ k =>
      obtain ⟨no, type, value, tagged, valued⟩ := reads (as ++ p)
      have left : length + 1 - ((b ++ (as ++ p)).length - (as ++ p).length) = (as ++ p).length := by
        rw [← whole]; simp only [List.length_append]; omega
      rw [List.append_assoc, readFields]
      simp only [Option.bind_eq_bind, tagged, Option.bind_some, valued, left]
      exact ih strict k

/-- A message that is one field is not read from a part of its bytes, unless there are none. -/
theorem Strict.fromBinary {m : M} {bs p : List UInt8} (strict : Strict read m bs) (part : p <+: bs)
    (proper : p ≠ bs)
    (some_ : p ≠ []) : Wire.fromBinary read m p = none := by
  rw [Wire.fromBinary, readMessage, Option.map_eq_none_iff]
  exact (Fields.nil m).cut strict part proper some_ p.length

/-- A field, given by its number, its wire type and its value. -/
theorem Written.field {m m' : M} {no : Nat} {type : WireType} {value : List UInt8} (positive : 0 < no)
    (fits : no < 2 ^ 29) (reads : ∀ rest, read m no type (value ++ rest) = some (m', rest))
    (strict : ∀ p, p <+: value → p ≠ value → read m no type p = none) :
    Written read 1 m (tag no type ++ value) m' :=
  .one (.of_value positive fits reads) (.of_value positive fits strict)

/-- A field that is left out when its value is the default. -/
theorem fieldUnless_written {m m' : M} {absent : Bool} {no : Nat} {type : WireType}
    {value : Option (List UInt8)} {bs : List UInt8} (wrote : fieldUnless absent no type value = some bs)
    (same : absent = true → m' = m)
    (present : absent = false → ∀ v, value = some v → Written read 1 m (tag no type ++ v) m') :
    Written read (!absent).toNat m bs m' := by
  unfold fieldUnless at wrote
  split at wrote
  · next left =>
    cases wrote
    rw [same left, left]
    exact .nil m
  · next there =>
    obtain ⟨v, given, rfl⟩ := Option.map_eq_some_iff.1 wrote
    rw [Bool.eq_false_iff.2 there]
    exact present (Bool.eq_false_iff.2 there) v given

/-- A field of a value, left out when it is the default; it is read as `y`. -/
theorem scalar_written {T : Type*} {x y default_ : T} [Decidable (x = default_)] {no : Nat} {type : WireType}
    {value : Option (List UInt8)} {bs : List UInt8} (set : T → M)
    (wrote : fieldUnless (decide (x = default_)) no type value = some bs) (positive : 0 < no)
    (fits : no < 2 ^ 29) (same : x = default_ → y = default_)
    (reads : ∀ v, value = some v → ∀ rest, read (set default_) no type (v ++ rest) = some (set y, rest))
    (strict : ∀ v, value = some v → ∀ p, p <+: v → p ≠ v → read (set default_) no type p = none) :
    Written read (!decide (x = default_)).toNat (set default_) bs (set y) := by
  refine fieldUnless_written wrote (fun absent => by rw [same (of_decide_eq_true absent)]) fun _ v given => ?_
  exact .field positive fits (reads v given) (strict v given)

/-- A field of text, left out when there is none of it; it is read as its decoder has it. -/
theorem text_written {decode : TextDecoder} {seen : String → String} (decodes : Decodes decode seen) {s : String}
    {no : Nat} {bs : List UInt8} (set : String → M)
    (wrote : fieldUnless (decide (s = "")) no .lengthDelimited (string s) = some bs) (positive : 0 < no)
    (fits : no < 2 ^ 29)
    (reads : ∀ bs, read (set "") no .lengthDelimited bs = (readString decode bs).map fun (s, rest) => (set s, rest)) :
    Written read (!decide (s = "")).toNat (set "") bs (set (seen s)) := by
  apply scalar_written set wrote positive fits
  · rintro rfl
    exact decodes.empty
  · intro v given rest
    rw [reads, readString_string decodes given, Option.map_some]
  · intro v given p part proper
    rw [reads, readString_part given part proper, Option.map_none]

/-- A message of which a part is missing is not read. -/
theorem Written.truncated {m m' : M} {bs p : List UInt8} (written : Written read n m bs m')
    (part : p <+: bs)
    (proper : p ≠ bs) (k : Nat) : readFields read k bs.length m p = none := by
  induction written generalizing k p with
  | nil m => exact absurd (List.prefix_nil.1 part) proper
  | @cons _ m _ _ b bs field strict _ ih =>
    obtain ⟨positive, reads⟩ := field
    obtain ⟨length, whole⟩ : ∃ length, (b ++ bs).length = length + 1 :=
      ⟨(b ++ bs).length - 1, by rw [List.length_append]; omega⟩
    rw [whole]
    cases k with
    | zero => rfl
    | succ k =>
      rw [readFields]
      rcases prefix_append_cases part with ⟨inside, short⟩ | ⟨q, rfl, rest⟩
      · cases tagged : readTag p with
        | none => rfl
        | some t =>
          obtain ⟨⟨no, type⟩, value⟩ := t
          simp only [Option.bind_eq_bind, Option.bind_some, strict p inside short no type value tagged,
            Option.bind_none]
      · obtain ⟨no, type, value, tagged, valued⟩ := reads q
        have left : length + 1 - ((b ++ q).length - q.length) = bs.length := by
          rw [← whole]; simp only [List.length_append]; omega
        simp only [Option.bind_eq_bind, tagged, Option.bind_some, valued, left]
        exact ih rest (fun same => proper (by rw [same])) k

/-- A part of a message is read where it ends between two fields, with the fields so far. -/
theorem Written.partly {m m' x : M} {bs p rest : List UInt8} (written : Written read n m bs m')
    (part : p <+: bs) {k : Nat} (reads : readFields read k p.length m p = some (x, rest)) :
    ∃ i j q, n = i + j ∧ bs = p ++ q ∧ Written read i m p x ∧ Written read j x q m' := by
  induction written generalizing k p with
  | nil m =>
    obtain rfl := List.prefix_nil.1 part
    cases k <;> (cases reads; exact ⟨0, 0, [], rfl, rfl, .nil _, .nil _⟩)
  | @cons n m _ _ b bs field strict later ih =>
    cases p with
    | nil =>
      cases k <;> (cases reads; exact ⟨0, n + 1, b ++ bs, by omega, rfl, .nil _, .cons field strict later⟩)
    | cons byte p =>
      cases k with
      | zero => cases reads
      | succ k =>
        rw [List.length_cons, readFields] at reads
        rcases prefix_append_cases part with ⟨inside, short⟩ | ⟨q, same, part⟩
        · cases tagged : readTag (byte :: p) with
          | none => rw [tagged] at reads; cases reads
          | some t =>
            obtain ⟨⟨no, type⟩, value⟩ := t
            simp only [tagged, Option.bind_eq_bind, Option.bind_some,
              strict _ inside short no type value tagged,
              Option.bind_none] at reads
            cases reads
        · obtain ⟨no, type, value, tagged, valued⟩ := field.2 q
          have left : p.length + 1 - ((byte :: p).length - q.length) = q.length := by
            have lengths := congrArg List.length same
            simp only [List.length_cons, List.length_append] at lengths ⊢
            omega
          rw [same, tagged] at reads
          simp only [Option.bind_eq_bind, Option.bind_some, valued] at reads
          rw [← same, left] at reads
          obtain ⟨i, j, q', rfl, rfl, before, after⟩ := ih part reads
          rw [same]
          exact ⟨i + 1, j, q', by omega, by rw [List.append_assoc], .cons field strict before, after⟩

/-- A part of a message that is read with as many fields as were written is the whole. -/
theorem Written.only_whole (ranked : Ranked read rank) {create m x : M} {bs p : List UInt8}
    (written : Written read n create bs m) (part : p <+: bs) (reads : fromBinary read create p = some x)
    (full : rank create + n ≤ rank x) : p = bs := by
  obtain ⟨⟨x, rest⟩, found, rfl⟩ := Option.map_eq_some_iff.1 reads
  obtain ⟨i, j, q, rfl, rfl, before, after⟩ := written.partly part found
  have bound := before.rank_le ranked
  change rank create + (i + j) ≤ rank x at full
  obtain rfl : j = 0 := by omega
  cases after
  rw [List.append_nil]

/-- A nested message is not read from a part of its bytes. -/
theorem Written.nested_part {m m' : M} {bs written p : List UInt8} (fields : Written read n m bs m')
    (wrote : lengthDelimited bs = some written) (part : p <+: written) (proper : p ≠ written) :
    readNested read m p = none := by
  rcases lengthDelimited_part wrote part proper with cut | ⟨q, length, rest, short⟩
  · rw [readNested, cut]; rfl
  · rw [readNested, length]
    exact fields.truncated rest short _

end

/-! ## Readers that read more -/

section
variable {M : Type}

/-- What the first reader reads, the second reads. -/
def Less (read read' : FieldReader M) : Prop :=
  ∀ m no type bs r, read m no type bs = some r → read' m no type bs = some r

variable {read read' : FieldReader M}

theorem Less.fields (less : Less read read') {k length : Nat} {m : M} {bs : List UInt8} {r : M × List UInt8}
    (reads : readFields read k length m bs = some r) : readFields read' k length m bs = some r := by
  induction k generalizing length m bs with
  | zero => cases length <;> exact reads
  | succ k ih =>
    cases length with
    | zero => exact reads
    | succ length =>
      simp only [readFields, Option.bind_eq_bind, Option.bind_eq_some_iff] at reads ⊢
      obtain ⟨⟨⟨no, type⟩, value⟩, tagged, ⟨m', rest⟩, field, later⟩ := reads
      exact ⟨_, tagged, _, less m no type value _ field, ih later⟩

theorem Less.nested (less : Less read read') {m : M} {bs : List UInt8} {r : M × List UInt8}
    (reads : readNested read m bs = some r) : readNested read' m bs = some r := by
  simp only [readNested, Option.bind_eq_some_iff] at reads ⊢
  obtain ⟨⟨length, rest⟩, first, later⟩ := reads
  exact ⟨_, first, less.fields later⟩

theorem Less.fromBinary (less : Less read read') {create m : M} {bs : List UInt8}
    (reads : Wire.fromBinary read create bs = some m) : Wire.fromBinary read' create bs = some m := by
  obtain ⟨r, found, rfl⟩ := Option.map_eq_some_iff.1 reads
  exact Option.map_eq_some_iff.2 ⟨r, less.fields found, rfl⟩

end

end Lib.Wire
