import Mathlib.Data.List.Sort

/-!
# Objects as lists of properties

A JavaScript object used as a dictionary: its own properties in the order in
which they were first assigned. A property is read by `List.lookup`, and
`Object.keys` lists the integer-like keys first.
-/

namespace Lib
set_option autoImplicit false

abbrev Properties (V : Type) := List (String × V)

/-- What every object made by `{}` has from `Object.prototype`. -/
def inherited : List String :=
  ["constructor", "__defineGetter__", "__defineSetter__", "hasOwnProperty", "__lookupGetter__",
    "__lookupSetter__", "isPrototypeOf", "propertyIsEnumerable", "toString", "valueOf", "__proto__",
    "toLocaleString"]

namespace Properties

variable {V : Type}

/-- `object[key] = value`: in the place of the old value, or at the end. -/
def assign (object : Properties V) (key : String) (value : V) : Properties V :=
  if object.any (·.1 = key) then object.map fun (k, v) => if k = key then (k, value) else (k, v)
  else object ++ [(key, value)]

theorem any_key (object : Properties V) (key : String) : object.any (·.1 = key) = (object.lookup key).isSome := by
  induction object with
  | nil => rfl
  | cons property object ih =>
    obtain ⟨k, v⟩ := property
    by_cases same : key = k
    · simp [same]
    · simp [List.lookup_cons, beq_eq_false_iff_ne.2 same, Ne.symm same, ← ih]

theorem assign_new {object : Properties V} {key : String} (fresh : key ∉ object.map (·.1)) (value : V) :
    object.assign key value = object ++ [(key, value)] := by
  refine if_neg fun old => ?_
  obtain ⟨property, member, named⟩ := List.any_eq_true.1 old
  exact fresh (List.mem_map.2 ⟨property, member, of_decide_eq_true named⟩)

theorem lookup_replace (object : Properties V) (key : String) (value : V) (k : String) :
    List.lookup k (object.map fun (k', v) => if k' = key then (k', value) else (k', v)) =
      if k = key then (object.lookup k).map fun _ => value else object.lookup k := by
  induction object with
  | nil => simp
  | cons property object ih =>
    obtain ⟨k', v⟩ := property
    by_cases here : k = k'
    · subst here
      by_cases same : k = key
      · simp [same]
      · simp [same]
    · by_cases same : k' = key
      · subst same
        simp only [List.map_cons, if_true, List.lookup_cons, beq_eq_false_iff_ne.2 here, ih, here, if_false]
      · simp only [List.map_cons, same, if_false, List.lookup_cons, beq_eq_false_iff_ne.2 here, ih]

theorem lookup_assign (object : Properties V) (key : String) (value : V) (k : String) :
    (object.assign key value).lookup k = if k = key then some value else object.lookup k := by
  unfold assign
  split
  · next old =>
    rw [lookup_replace]
    split
    · next same =>
      subst same
      obtain ⟨property, member, named⟩ := List.any_eq_true.1 old
      have same : k = property.1 := by simpa using (of_decide_eq_true named).symm
      have found : (object.lookup k).isSome = true := List.lookup_isSome_iff.2 ⟨property, member, by simp [← same]⟩
      obtain ⟨v, there⟩ := Option.isSome_iff_exists.1 found
      rw [there, Option.map_some]
    · rfl
  · next new =>
    rw [List.lookup_append, List.lookup_cons, List.lookup_nil]
    by_cases same : k = key
    · subst same
      have absent : object.lookup k = none := by
        rw [List.lookup_eq_none_iff]
        intro property member
        simp only [bne_iff_ne, ne_eq]
        intro named
        exact new (List.any_eq_true.2 ⟨property, member, by simp [named]⟩)
      simp [absent]
    · simp [beq_eq_false_iff_ne.2 same, same]

/-- A property that is taken out is gone, and no other. -/
theorem lookup_without (object : Properties V) (key k : String) :
    List.lookup k (object.filter fun property => property.1 ≠ key) = if k = key then none else object.lookup k := by
  induction object with
  | nil => simp
  | cons property object ih =>
    obtain ⟨k', v⟩ := property
    by_cases out : k' = key
    · subst out
      rw [List.filter_cons_of_neg (by simp), ih, List.lookup_cons]
      by_cases same : k = k'
      · simp [same]
      · simp [same, beq_eq_false_iff_ne.2 same]
    · rw [List.filter_cons_of_pos (by simpa using out), List.lookup_cons, List.lookup_cons, ih]
      by_cases same : k = k'
      · subst same
        simp [out]
      · simp [beq_eq_false_iff_ne.2 same]

theorem keys_assign (object : Properties V) (key : String) (value : V) :
    (object.assign key value).map (·.1) = if key ∈ object.map (·.1) then object.map (·.1) else object.map (·.1) ++ [key] := by
  by_cases known : key ∈ object.map (·.1)
  · have old : object.any (·.1 = key) = true := by
      obtain ⟨property, member, named⟩ := List.mem_map.1 known
      exact List.any_eq_true.2 ⟨property, member, by simpa using named⟩
    rw [if_pos known, assign, if_pos old, List.map_map]
    refine List.map_congr_left fun property _ => ?_
    simp only [Function.comp]
    split <;> rfl
  · rw [if_neg known, assign_new known]
    simp

theorem nodup_assign {object : Properties V} (distinct : (object.map (·.1)).Nodup) (key : String) (value : V) :
    ((object.assign key value).map (·.1)).Nodup := by
  rw [keys_assign]
  split
  · exact distinct
  · next fresh => exact List.nodup_append.2 ⟨distinct, by simp, by
      rintro k old k' new rfl
      rw [List.mem_singleton] at new
      exact fresh (new ▸ old)⟩

theorem lookup_eq_some_iff_mem {object : Properties V} (distinct : (object.map (·.1)).Nodup) {key : String} {value : V} :
    object.lookup key = some value ↔ (key, value) ∈ object := by
  constructor
  · intro found
    obtain ⟨before, after, rfl, -⟩ := List.lookup_eq_some_iff.1 found
    simp
  · intro there
    obtain ⟨before, after, rfl⟩ := List.append_of_mem there
    rw [List.map_append, List.nodup_append] at distinct
    have absent : before.lookup key = none := by
      rw [List.lookup_eq_none_iff]
      intro property member
      have apart := distinct.2.2 property.1 (List.mem_map_of_mem member) key (by simp)
      simpa using Ne.symm apart
    simp [List.lookup_append, absent]

/-! ## The order of the keys -/

/-- The number that a key is the decimal numeral of, if it is an array index. -/
def arrayIndex? (key : String) : Option Nat :=
  let digits := key.toList
  let n := digits.foldl (fun n c => 10 * n + (c.toNat - '0'.toNat)) 0
  if digits ≠ [] ∧ digits.all Char.isDigit = true ∧ (digits.head? = some '0' → digits.length = 1) ∧ n < 4294967295
  then some n else none

/-- `Object.keys(object)`: array indices in ascending order, then the others. -/
def objectKeys (object : Properties V) : List String :=
  let keys := object.map (·.1)
  (keys.filter fun key => (arrayIndex? key).isSome).insertionSort
      (fun key key' => (arrayIndex? key).getD 0 ≤ (arrayIndex? key').getD 0) ++
    keys.filter fun key => (arrayIndex? key).isNone

theorem mem_objectKeys {object : Properties V} {key : String} : key ∈ object.objectKeys ↔ key ∈ object.map (·.1) := by
  simp only [objectKeys, List.mem_append, List.mem_insertionSort, List.mem_filter]
  cases arrayIndex? key <;> simp

example : objectKeys [("b", ()), ("10", ()), ("2", ()), ("01", ())] = ["2", "10", "b", "01"] := by decide

/-! ## Objects made by `{}` -/

/-- `object[key] = value`, with the accessor of the prototype: `__proto__` does not become a property. -/
def setOwn (object : Properties V) (key : String) (value : V) : Properties V :=
  if key = "__proto__" then object else object.assign key value

/-- One assignment after the other. -/
def setAll (object entries : Properties V) : Properties V :=
  entries.foldl (fun object (entry : String × V) => object.setOwn entry.1 entry.2) object

section
variable {object entries : Properties V} {key : String}

@[simp] theorem setOwn_proto (object : Properties V) (value : V) : object.setOwn "__proto__" value = object := if_pos rfl

theorem lookup_setOwn (object : Properties V) (key : String) (value : V) (k : String) :
    (object.setOwn key value).lookup k = if k = key ∧ key ≠ "__proto__" then some value else object.lookup k := by
  unfold setOwn
  by_cases proto : key = "__proto__"
  · simp [proto]
  · rw [if_neg proto, lookup_assign]
    simp [proto]

theorem setOwn_new (own : key ≠ "__proto__") (fresh : key ∉ object.map (·.1)) (value : V) :
    object.setOwn key value = object ++ [(key, value)] := by
  rw [setOwn, if_neg own, assign_new fresh]

@[simp] theorem setAll_nil (object : Properties V) : object.setAll [] = object := rfl

@[simp] theorem setAll_cons (object : Properties V) (entry : String × V) (entries : Properties V) :
    object.setAll (entry :: entries) = (object.setOwn entry.1 entry.2).setAll entries := rfl

/-- The keys stay distinct, and none is `__proto__`. -/
theorem keys_setAll (distinct : (object.map (·.1)).Nodup) (own : "__proto__" ∉ object.map (·.1))
    (entries : Properties V) :
    ((object.setAll entries).map (·.1)).Nodup ∧ "__proto__" ∉ (object.setAll entries).map (·.1) := by
  induction entries generalizing object with
  | nil => exact ⟨distinct, own⟩
  | cons entry entries ih =>
    rw [setAll_cons]
    by_cases proto : entry.1 = "__proto__"
    · rw [proto, setOwn_proto]
      exact ih distinct own
    · rw [setOwn, if_neg proto]
      refine ih (nodup_assign distinct _ _) ?_
      rw [keys_assign]
      split
      · exact own
      · rw [List.mem_append, List.mem_singleton]
        exact not_or.2 ⟨own, Ne.symm proto⟩

/-- Of new keys all but `__proto__` are appended. -/
theorem setAll_new (fresh : (object.map (·.1) ++ entries.map (·.1)).Nodup) :
    object.setAll entries = object ++ entries.filter (·.1 ≠ "__proto__") := by
  induction entries generalizing object with
  | nil => simp
  | cons entry entries ih =>
    rw [setAll_cons]
    by_cases proto : entry.1 = "__proto__"
    · rw [proto, setOwn_proto, List.filter_cons_of_neg (by simpa using proto)]
      exact ih (fresh.sublist (List.Sublist.append_left (List.sublist_cons_self _ _) _))
    · have new : entry.1 ∉ object.map (·.1) := fun old =>
        (List.nodup_append.1 fresh).2.2 _ old _ List.mem_cons_self rfl
      rw [setOwn_new proto new, List.filter_cons_of_pos (by simpa using proto), ih (by simpa using fresh)]
      simp

theorem setAll_self (distinct : (entries.map (·.1)).Nodup) (own : "__proto__" ∉ entries.map (·.1)) :
    setAll [] entries = entries := by
  rw [setAll_new (by simpa using distinct), List.nil_append, List.filter_eq_self]
  intro entry member
  simpa using fun proto => own (List.mem_map.2 ⟨entry, member, proto⟩)

theorem length_setOwn_le (object : Properties V) (key : String) (value : V) :
    (object.setOwn key value).length ≤ object.length + 1 := by
  unfold setOwn assign
  split
  · omega
  · split <;> simp

theorem length_setAll_le (object entries : Properties V) :
    (object.setAll entries).length ≤ object.length + entries.length := by
  induction entries generalizing object with
  | nil => simp
  | cons entry entries ih =>
    have first := length_setOwn_le object entry.1 entry.2
    have later := ih (object.setOwn entry.1 entry.2)
    rw [setAll_cons, List.length_cons]
    omega

/-- Where every assignment makes the object longer, each has appended its property. -/
theorem setAll_full (full : (object.setAll entries).length = object.length + entries.length) :
    object.setAll entries = object ++ entries ∧ "__proto__" ∉ entries.map (·.1) := by
  induction entries generalizing object with
  | nil => simp
  | cons entry entries ih =>
    have first := length_setOwn_le object entry.1 entry.2
    have later := length_setAll_le (object.setOwn entry.1 entry.2) entries
    rw [setAll_cons, List.length_cons] at full
    have own : entry.1 ≠ "__proto__" := by
      intro proto
      rw [proto, setOwn_proto] at full later
      omega
    have appended : object.setOwn entry.1 entry.2 = object ++ [entry] := by
      rw [setOwn, if_neg own, assign]
      split
      · next old =>
        rw [setOwn, if_neg own, assign, if_pos old] at full later
        rw [List.length_map] at later
        omega
      · rfl
    obtain ⟨whole, free⟩ := @ih (object.setOwn entry.1 entry.2) (by rw [appended] at full ⊢; simp at full ⊢; omega)
    rw [setAll_cons, whole, appended]
    exact ⟨by simp, by simpa using ⟨Ne.symm own, by simpa using free⟩⟩

/-- As many assignments as there are properties make the object just when they are those. -/
theorem setAll_eq_self {entries' : Properties V} (length : entries'.length = entries.length)
    (distinct : (entries.map (·.1)).Nodup) :
    setAll [] entries' = entries ↔ entries' = entries ∧ "__proto__" ∉ entries.map (·.1) := by
  constructor
  · intro same
    obtain ⟨whole, own⟩ := @setAll_full V [] entries'
      (by rw [same, length, List.length_nil, Nat.zero_add])
    have each : entries' = entries := whole.symm.trans same
    exact ⟨each, each ▸ own⟩
  · rintro ⟨rfl, own⟩
    exact setAll_self distinct own

end

/-! ## The values changed -/

section
variable {W : Type} (f : V → W)

def onValues (object : Properties V) : Properties W := object.map fun property => (property.1, f property.2)

@[simp] theorem onValues_nil : onValues f [] = [] := rfl

@[simp] theorem onValues_cons (key : String) (value : V) (object : Properties V) :
    onValues f ((key, value) :: object) = (key, f value) :: onValues f object := rfl

@[simp] theorem keys_onValues (object : Properties V) : (onValues f object).map (·.1) = object.map (·.1) := by
  simp [onValues]

theorem onValues_setOwn (object : Properties V) (key : String) (value : V) :
    (object.setOwn key value).onValues f = (object.onValues f).setOwn key (f value) := by
  unfold setOwn
  split
  · rfl
  · unfold assign
    rw [any_key, any_key]
    have same : ((object.onValues f).lookup key).isSome = (object.lookup key).isSome := by
      rw [← any_key, ← any_key, onValues, List.any_map]
      rfl
    rw [same]
    split
    · rw [onValues, onValues, List.map_map, List.map_map]
      refine List.map_congr_left fun property _ => ?_
      simp only [Function.comp]
      split <;> rfl
    · simp [onValues]

theorem onValues_setAll (object entries : Properties V) :
    (object.setAll entries).onValues f = (object.onValues f).setAll (entries.onValues f) := by
  induction entries generalizing object with
  | nil => rfl
  | cons entry entries ih => rw [setAll_cons, ih, onValues_setOwn]; rfl

end

/-! ## Every value replaced -/

section
variable {W ε : Type} {g : V → Except ε W}

/-- `object` with every value replaced by what `g` makes of it; the first failure ends it. -/
def mapValues (g : V → Except ε W) : Properties V → Except ε (Properties W)
  | [] => .ok []
  | (key, value) :: object => do
    let w ← g value
    let ws ← mapValues g object
    return (key, w) :: ws

theorem mapValues_cons {key : String} {value : V} {object : Properties V} {ws : Properties W} :
    mapValues g ((key, value) :: object) = .ok ws ↔
      ∃ w rest, g value = .ok w ∧ mapValues g object = .ok rest ∧ ws = (key, w) :: rest := by
  simp only [mapValues, bind, Except.bind, pure, Except.pure]
  cases g value with
  | error e => simp
  | ok w =>
    cases mapValues g object with
    | error e => simp
    | ok rest => simp [eq_comm]

theorem lookup_mapValues {object : Properties V} {ws : Properties W} (mapped : mapValues g object = .ok ws)
    (key : String) : (object.lookup key).map g = (ws.lookup key).map .ok := by
  induction object generalizing ws with
  | nil => cases mapped; rfl
  | cons property object ih =>
    obtain ⟨k, value⟩ := property
    obtain ⟨w, rest, first, later, rfl⟩ := mapValues_cons.1 mapped
    simp only [List.lookup_cons]
    split
    · simp [first]
    · exact ih later

theorem mem_mapValues {object : Properties V} {ws : Properties W} (mapped : mapValues g object = .ok ws)
    {key : String} {w : W} (there : (key, w) ∈ ws) : ∃ value, (key, value) ∈ object ∧ g value = .ok w := by
  induction object generalizing ws with
  | nil => cases mapped; cases there
  | cons property object ih =>
    obtain ⟨w', rest, first, later, rfl⟩ := mapValues_cons.1 mapped
    rcases List.mem_cons.1 there with same | there
    · cases same
      exact ⟨property.2, List.mem_cons_self, first⟩
    · obtain ⟨value, member, made⟩ := ih later there
      exact ⟨value, List.mem_cons_of_mem _ member, made⟩

theorem keys_mapValues {object : Properties V} {ws : Properties W} (mapped : mapValues g object = .ok ws) :
    ws.map (·.1) = object.map (·.1) := by
  induction object generalizing ws with
  | nil => cases mapped; rfl
  | cons property object ih =>
    obtain ⟨w, rest, -, later, rfl⟩ := mapValues_cons.1 mapped
    simp [ih later]

/-- It succeeds exactly when `g` does on every value. -/
theorem exists_mapValues {object : Properties V} :
    (∃ ws, mapValues g object = .ok ws) ↔ ∀ property ∈ object, ∃ w, g property.2 = .ok w := by
  induction object with
  | nil => simp [mapValues]
  | cons property object ih =>
    obtain ⟨key, value⟩ := property
    simp only [mapValues_cons, List.mem_cons, forall_eq_or_imp, ← ih]
    constructor
    · rintro ⟨_, w, rest, first, mapped, rfl⟩
      exact ⟨⟨w, first⟩, rest, mapped⟩
    · rintro ⟨⟨w, first⟩, rest, mapped⟩
      exact ⟨_, w, rest, first, mapped, rfl⟩

end

end Properties

end Lib
