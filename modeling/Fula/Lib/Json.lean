import Mathlib.Data.Rat.Defs

/-!
# JSON values as JavaScript sees them

An object is the list of its own properties, in the order of `Object.entries`.
-/

namespace Lib
set_option autoImplicit false

inductive Json where
  | null
  | bool (b : Bool)
  | num (n : ℚ)
  | str (s : String)
  | arr (elements : List Json)
  | obj (fields : List (String × Json))

namespace Json

/-- `Boolean(value)`. -/
def truthy : Json → Bool
  | .null => false
  | .bool b => b
  | .num n => n ≠ 0
  | .str s => s ≠ ""
  | .arr _ => true
  | .obj _ => true

/-- The entries of something that is indexed. -/
def indexed (vs : List Json) : List (String × Json) :=
  vs.zipIdx.map fun (v, i) => (toString i, v)

/-- `Object.entries(value)`; `none` is a `TypeError`. -/
def entries : Json → Option (List (String × Json))
  | .null => none
  | .bool _ => some []
  | .num _ => some []
  -- JavaScript counts UTF-16 units here; either way there are none just for the empty string.
  | .str s => some (indexed (s.toList.map fun c => .str c.toString))
  | .arr vs => some (indexed vs)
  | .obj fields => some fields

end Json

end Lib
