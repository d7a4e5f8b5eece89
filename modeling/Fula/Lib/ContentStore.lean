import Mathlib.Data.List.Basic

/-!
# Stores addressed by content

A store that keeps what it is given under a key computed from it. As long as
the key tells apart all that is stored, each content is found under its key,
whatever is stored beside it.
-/

namespace Lib.ContentStore
set_option autoImplicit false

variable {β κ : Type} {key : β → κ} {blobs more : List β}

/-- The key tells the contents of the store apart. -/
def Apart (key : β → κ) (blobs : List β) : Prop :=
  ∀ blob ∈ blobs, ∀ other ∈ blobs, key blob = key other → blob = other

instance [DecidableEq β] [DecidableEq κ] : Decidable (Apart key blobs) :=
  inferInstanceAs (Decidable (∀ blob ∈ blobs, ∀ other ∈ blobs, key blob = key other → blob = other))

theorem Apart.mono (le : blobs ⊆ more) (apart : Apart key more) : Apart key blobs :=
  fun blob stored other stored' => apart blob (le stored) other (le stored')

/-- What is found under a key. -/
def find [DecidableEq κ] (key : β → κ) (blobs : List β) (k : κ) : Option β := blobs.find? fun blob => key blob = k

theorem find_stored [DecidableEq κ] (apart : Apart key blobs) {blob : β} (stored : blob ∈ blobs) :
    find key blobs (key blob) = some blob := by
  have some_ : (blobs.find? fun other => key other = key blob).isSome := by
    rw [List.find?_isSome]
    exact ⟨blob, stored, by simp⟩
  obtain ⟨other, found⟩ := Option.isSome_iff_exists.1 some_
  have same : other = blob :=
    apart other (List.mem_of_find?_eq_some found) blob stored (by simpa using List.find?_some found)
  rw [find, found, same]

end Lib.ContentStore
