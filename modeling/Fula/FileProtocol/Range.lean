import Fula.FileProtocol.Retrieve

/-!
# Ranged reads

`receiveContent` sends a range with its request, and `Chunk` carries it to the
box, where the retrieval method reads the id alone: the whole content comes
back, so a range is answered right when it is the whole content.
-/

namespace Fula.FileProtocol
set_option autoImplicit false
open Lib.Wire Schema

/-- `receiveContent({connection, id, skip, limit})`. -/
def receiveContentRange (dropsEmpty : Bool) (cat : Cat) (id : String) (skip limit : Option SafeNat) :
    Option (List Bytes) := do
  let request ← (Request.receive { id, skip, limit }).toBinary
  some (deliver dropsEmpty (handler cat request))

/-- The range of a content: without its first `skip` bytes, cut to `limit`. -/
def range (skip limit : Option SafeNat) (content : Bytes) : Bytes :=
  let rest := content.drop (skip.elim 0 (·.1))
  limit.elim rest fun l => rest.take l.1

/-- The range that is everything. -/
theorem range_eq_self (skip limit : Option SafeNat) (content : Bytes) :
    range skip limit content = content ↔
      (skip.elim 0 (·.1) = 0 ∨ content = []) ∧ ∀ l, limit = some l → content.length ≤ l.1 := by
  have whole : ∀ n, content.drop n = content ↔ n = 0 ∨ content = [] := by
    intro n
    constructor
    · intro same
      have lengths := congrArg List.length same
      rw [List.length_drop] at lengths
      rcases Nat.eq_zero_or_pos n with none | some_
      · exact .inl none
      · exact .inr (List.length_eq_zero_iff.1 (by omega))
    · rintro (rfl | rfl)
      · rfl
      · exact List.drop_nil
  cases limit with
  | none => simpa [range] using whole _
  | some l =>
    simp only [range, Option.elim_some, Option.some.injEq, forall_eq']
    constructor
    · intro same
      have lengths := congrArg List.length same
      rw [List.length_take, List.length_drop] at lengths
      have all : content.drop (skip.elim 0 (·.1)) = content := by
        refine (List.drop_sublist _ _).eq_of_length ?_
        rw [List.length_drop]
        omega
      exact ⟨(whole _).1 all, by omega⟩
    · rintro ⟨all, long⟩
      rw [(whole _).2 all, List.take_of_length_le long]

variable {f : StoredFile} {cat : Cat}

/-- **What a ranged read returns**: the whole content, so the range exactly
when that is everything. -/
theorem receiveContent_range (dropsEmpty : Bool) (served : Backend f true cat) (skip limit : Option SafeNat) :
    ∃ cs, receiveContentRange dropsEmpty cat f.id.text skip limit = some cs ∧
      (cs.flatten = range skip limit f.content ↔
        (skip.elim 0 (·.1) = 0 ∨ f.content = []) ∧ ∀ l, limit = some l → f.content.length ≤ l.1) := by
  obtain ⟨request, requested, read⟩ := f.content_requested skip limit
  obtain ⟨-, cs, stored, whole⟩ := id served
  refine ⟨_, by rw [receiveContentRange, requested]; rfl, ?_⟩
  have all : (deliver dropsEmpty (handler cat request)).flatten = f.content := by
    rw [deliver_flatten, handler, read]
    simp only [retrieve, served.lookup, StoredFile.file, stored, whole]
  rw [all, eq_comm, range_eq_self]

/-- The whole of the two bytes. -/
theorem receiveContent_range_sample :
    ∃ cs, receiveContentRange true sampleCat sampleStored.id.text (some 0) none = some cs ∧
      (cs.flatten = range (some 0) none sampleStored.content ↔
        (0 = 0 ∨ sampleStored.content = []) ∧
          ∀ l, (none : Option SafeNat) = some l → sampleStored.content.length ≤ l.1) :=
  receiveContent_range true sampleCat_serves (some 0) none

/-- The two bytes without the first: both come back. -/
theorem skip_ignored :
    Backend sampleStored true sampleCat ∧
      receiveContentRange true sampleCat sampleStored.id.text (some ⟨1, by decide⟩) none = some [[1], [2]] ∧
      range (some ⟨1, by decide⟩) none sampleStored.content = [2] ∧ [[1], [2]].flatten ≠ ([2] : Bytes) :=
  ⟨sampleCat_serves, rfl, rfl, by decide⟩

end Fula.FileProtocol
