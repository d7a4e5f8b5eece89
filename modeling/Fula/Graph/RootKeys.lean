import Fula.Graph.DeclaredFilters

/-!
# Filters with several root keys

A node of a filter may carry fields, `and` and `or` together, each a clause of
its own. `_reGetFilter` takes a node with a field for a leaf, where it reads the
logical keys as fields, and of any other node it evaluates the first key only.

`every_clause_counts_iff` says on which documents no clause is lost all the same,
whatever the order of the keys: where each node's clauses come to the same.
-/

namespace Fula.Graph
set_option autoImplicit false
open Lib

inductive Clause where
  | field (name : FieldName) (ops : FieldFilterValue)
  | logical (op : LogicalFilterKeys) (nodes : List (List Clause))

/-- The clauses in the order of the keys. -/
abbrev Node := List Clause

namespace Clause

def isField : Clause → Bool
  | field _ _ => true
  | logical _ _ => false

def nodes : Clause → List Node
  | field _ _ => []
  | logical _ nodes => nodes

/-- What throws in a leaf: a blank operand, or a list that has elements for operators. -/
def barred : Clause → Bool
  | field _ ops => ops.any fun c => c.2.isBlank
  | logical _ nodes => !nodes.isEmpty

end Clause

def Node.hasField (n : Node) : Bool := n.any Clause.isField

def Node.children (n : Node) : List Node := n.flatMap Clause.nodes

/-- A node of the tree, at any depth. -/
inductive Within (n : Node) : Node → Prop
  | self : Within n n
  | child {m : Node} (f : Node) (member : m ∈ f.children) (within : Within n m) : Within n f

/-! ## What the clauses mean -/

variable {V : Type} (js : JavaScript V)

mutual

def Clause.eval (doc : Doc) : Clause → Bool
  | .field name ops => holdsAll js (js.get doc name) ops
  | .logical op nodes => op.combine (evalNodes doc nodes)

/-- Every clause. -/
def evalNode (doc : Doc) : List Clause → Bool
  | [] => true
  | c :: cs => c.eval doc && evalNode doc cs

def evalNodes (doc : Doc) : List (List Clause) → List Bool
  | [] => []
  | n :: ns => evalNode doc n :: evalNodes doc ns

end

mutual

/-- Somewhere below the evaluator throws. -/
def Clause.refused : Clause → Bool
  | .field _ ops => ops.any fun c => c.2.isBlank
  | .logical _ nodes => refusedNodes nodes

def refusedClauses : List Clause → Bool
  | [] => false
  | c :: cs => c.refused || refusedClauses cs

def refusedNodes : List (List Clause) → Bool
  | [] => false
  | n :: ns => (if Node.hasField n then n.any Clause.barred else refusedClauses n) || refusedNodes ns

end

def Node.refused (n : Node) : Bool := if n.hasField then n.any Clause.barred else n.any Clause.refused

/-! ## Their JSON form -/

mutual

def Clause.toEntry : Clause → String × Json
  | .field name ops => fieldEntry (name.1, ops)
  | .logical op nodes => (op.name, .arr (nodesToJson nodes))

def clauseEntries : List Clause → List (String × Json)
  | [] => []
  | c :: cs => c.toEntry :: clauseEntries cs

def nodesToJson : List (List Clause) → List Json
  | [] => []
  | n :: ns => .obj (clauseEntries n) :: nodesToJson ns

end

def Node.toJson (n : Node) : Json := .obj (n.map Clause.toEntry)

variable {js}

theorem evalNode_eq (doc : Doc) (n : Node) : evalNode js doc n = n.all (Clause.eval js doc) := by
  induction n with
  | nil => rfl
  | cons c n ih => simp [evalNode, ih]

theorem evalNodes_eq (doc : Doc) (ns : List Node) : evalNodes js doc ns = ns.map (evalNode js doc) := by
  induction ns with
  | nil => rfl
  | cons n ns ih => simp [evalNodes, ih]

theorem refusedClauses_eq (n : Node) : refusedClauses n = n.any Clause.refused := by
  induction n with
  | nil => rfl
  | cons c n ih => simp [refusedClauses, ih]

theorem refusedNodes_eq (ns : List Node) : refusedNodes ns = ns.any Node.refused := by
  induction ns with
  | nil => rfl
  | cons n ns ih => simp [refusedNodes, ih, Node.refused, refusedClauses_eq]

theorem clauseEntries_eq (n : Node) : clauseEntries n = n.map Clause.toEntry := by
  induction n with
  | nil => rfl
  | cons c n ih => simp [clauseEntries, ih]

theorem nodesToJson_eq (ns : List Node) : nodesToJson ns = ns.map Node.toJson := by
  induction ns with
  | nil => rfl
  | cons n ns ih => simp [nodesToJson, ih, Node.toJson, clauseEntries_eq]

/-- No clause is lost, and the result is that of any order of the keys, which
error is thrown aside. -/
structure Counts (js : JavaScript V) (doc : Doc) (n : Node) : Prop where
  every : verdict js n.toJson doc = .ok true → ∀ c ∈ n, c.eval js doc = true
  order : ∀ n' : Node, n'.Perm n → (verdict js n'.toJson doc).toOption = (verdict js n.toJson doc).toOption

/-- Where the evaluator may look at some of the clauses only. -/
structure Unambiguous (js : JavaScript V) (doc : Doc) (n : Node) : Prop where
  /-- Beside fields that all hold there is no empty `or`. -/
  leaf : n.hasField = true → n.any Clause.barred = false →
    (∀ c ∈ n, c.isField = true → c.eval js doc = true) →
    .logical .OR [] ∉ n
  /-- Logical clauses come to the same. -/
  logical : n.hasField = false → ∀ c ∈ n, ∀ c' ∈ n, c.refused = c'.refused ∧
    (c.refused = false → c.eval js doc = c'.eval js doc)

/-- The evaluator throws where the node is refused, and computes its meaning elsewhere. -/
def Agrees (js : JavaScript V) (doc : Doc) (n : Node) : Prop :=
  (verdict js n.toJson doc).toOption = if n.refused then none else some (evalNode js doc n)

/-! ## Leaves -/

theorem isField_iff (c : Clause) : isLogical c.toEntry.1 = !c.isField := by
  cases c with
  | field name ops => simp [Clause.toEntry, fieldEntry, Clause.isField, name.2]
  | logical op nodes => cases op <;> rfl

theorem isLeaf_toEntry (n : Node) : isLeaf (n.map Clause.toEntry) = n.hasField := by
  simp [isLeaf, Node.hasField, List.any_map, Function.comp_def, isField_iff]

/-- What a clause comes to as a field. -/
def Clause.asField (js : JavaScript V) (doc : Doc) : Clause → Bool
  | .field name ops => holdsAll js (js.get doc name) ops
  | .logical _ _ => true

theorem evaluateField_toEntry (doc : Doc) (c : Clause) : (evaluateField js doc c.toEntry).toOption =
    if c.barred then none else some (c.asField js doc) := by
  cases c with
  | field name ops =>
    by_cases barred : (Clause.field name ops).barred = true
    · rw [if_pos barred, ← throws_iff_toOption]
      refine throws_evaluateField.2 ((refusedCondition_fieldEntry doc (name.1, ops)).2 ?_)
      simpa [Clause.barred] using barred
    · have usable : ∀ c ∈ ops, c.2.isBlank = false := by simpa [Clause.barred] using barred
      rw [if_neg barred, Clause.toEntry, evaluateField_fieldEntry usable]
      rfl
  | logical op nodes =>
    cases nodes with
    | nil => rfl
    | cons n ns =>
      have barred : (Clause.logical op (n :: ns)).barred = true := rfl
      rw [if_pos barred, ← throws_iff_toOption, Clause.toEntry, throws_evaluateField, nodesToJson]
      exact .list _ (List.cons_ne_nil _ _)

theorem verdict_hasField {n : Node} (leaf : n.hasField = true) (doc : Doc) :
    (verdict js n.toJson doc).toOption =
    if n.any Clause.barred then none else some (n.all (Clause.asField js doc)) := by
  have made : _reGetFilter js n.toJson = .ok (evaluate js (n.map Clause.toEntry)) := by
    cases n with
    | nil => cases leaf
    | cons c n =>
      have kind := (isLeaf_toEntry (c :: n)).trans leaf
      simp only [Node.toJson, _reGetFilter, kind, if_true]
      rfl
  have results : (n.mapM fun c => evaluateField js doc (Clause.toEntry c)).toOption = _ :=
    toOption_mapM fun c _ => evaluateField_toEntry doc c
  rw [verdict_ok made, evaluate, List.mapM_map]
  by_cases barred : n.any Clause.barred = true
  · rw [if_pos barred] at results ⊢
    rw [← throws_iff_toOption] at results ⊢
    exact throws_bind.2 (.inl results)
  · rw [if_neg barred] at results ⊢
    cases found : n.mapM fun c => evaluateField js doc (Clause.toEntry c) with
    | error e => simp [found, Except.toOption] at results
    | ok bs =>
      rw [found] at results
      cases results
      simp [Function.comp_def, found, bind, Except.bind, pure, Except.pure, Except.toOption, List.all_map]

/-! ## Nodes of logical clauses -/

/-- The first clause decides. -/
theorem verdict_first {c : Clause} {rest : Node} (logical : Node.hasField (c :: rest) = false) {doc : Doc}
    (below : ∀ m ∈ c.nodes, Agrees js doc m) :
    (verdict js (Node.toJson (c :: rest)) doc).toOption =
      if c.refused then none else some (c.eval js doc) := by
  have keys := (isLeaf_toEntry (c :: rest)).trans logical
  cases c with
  | field name ops => cases logical
  | logical op nodes =>
    rw [Node.toJson, List.map_cons, Clause.toEntry] at *
    have results : (nodes.mapM ((fun node => verdict js node doc) ∘ Node.toJson)).toOption = _ := toOption_mapM below
    rw [verdict_node keys, nodesToJson_eq, List.mapM_map, toOption_map, results, Clause.refused,
      refusedNodes_eq,
      Clause.eval, evalNodes_eq]
    by_cases refused : nodes.any Node.refused = true
    · rw [if_pos refused, if_pos refused, Option.map_none]
    · rw [if_neg refused, if_neg refused, Option.map_some]

theorem asField_eq_eval {c : Clause} (field : c.isField = true) (doc : Doc) :
    c.asField js doc = c.eval js doc := by
  cases c with
  | field name ops => rfl
  | logical op nodes => cases field

variable {n : Node} {doc : Doc}

theorem Unambiguous.all_asField (h : Unambiguous js doc n) (kind : n.hasField = true)
    (open_ : n.any Clause.barred = false) : n.all (Clause.asField js doc) = n.all (Clause.eval js doc) := by
  by_cases hold : ∀ c ∈ n, c.isField = true → c.eval js doc = true
  · -- All that is left beside the fields is an empty `and`.
    have all : ∀ c ∈ n, c.asField js doc = true ∧ c.eval js doc = true := by
      intro c member
      cases c with
      | field name ops => exact ⟨hold _ member rfl, hold _ member rfl⟩
      | logical op nodes =>
        have empty : nodes = [] := by
          have free := List.any_eq_false.1 open_ _ member
          simpa [Clause.barred] using free
        subst empty
        cases op with
        | AND => exact ⟨rfl, rfl⟩
        | OR => exact absurd member (h.leaf kind open_ hold)
    rw [List.all_eq_true.2 fun c member => (all c member).1, List.all_eq_true.2 fun c member =>
      (all c member).2]
  · simp only [not_forall, exists_prop, Bool.not_eq_true] at hold
    obtain ⟨c, member, field, fails⟩ := hold
    rw [List.all_eq_false.2 ⟨c, member, by rw [asField_eq_eval field, fails]; simp⟩,
      List.all_eq_false.2 ⟨c, member, by simp [fails]⟩]

/-- The evaluator agrees on a node whose clauses come to the same, if it does on the nodes below. -/
theorem Unambiguous.agrees (h : Unambiguous js doc n) (below : ∀ m ∈ n.children, Agrees js doc m) :
    Agrees js doc n := by
  cases kind : n.hasField with
  | true =>
    rw [Agrees, verdict_hasField kind, Node.refused, if_pos kind]
    by_cases barred : n.any Clause.barred = true
    · rw [if_pos barred, if_pos barred]
    · rw [if_neg barred, if_neg barred, evalNode_eq, h.all_asField kind (by simpa using barred)]
  | false =>
    cases n with
    | nil => rfl
    | cons c rest =>
      have first := verdict_first kind fun m member => below m (List.mem_flatMap.2 ⟨c, by simp, member⟩)
      have same := h.logical kind c (by simp)
      have others : Node.hasField (c :: rest) ≠ true := by simp [kind]
      rw [Agrees, first, Node.refused, if_neg others, evalNode_eq]
      by_cases refused : c.refused = true
      · rw [if_pos refused, if_pos (List.any_eq_true.2 ⟨c, by simp, refused⟩)]
      · have fine : c.refused = false := by simpa using refused
        have none_ : (c :: rest).any Clause.refused = false :=
          List.any_eq_false.2 fun c' member => by rw [← (same c' member).1]; exact refused
        have value : (c :: rest).all (Clause.eval js doc) = c.eval js doc := by
          cases result : c.eval js doc with
          | true => exact List.all_eq_true.2 fun c' member => by rw [← (same c' member).2 fine, result]
          | false => exact List.all_eq_false.2 ⟨c, by simp, by simp [result]⟩
        rw [if_neg refused, none_, value]
        rfl

/-! ## Any order of the keys -/

variable {n' : Node}

theorem perm_refused (perm : n'.Perm n) : n'.refused = n.refused := by
  have kind : n'.hasField = n.hasField := perm.any_eq
  rw [Node.refused, Node.refused, kind, perm.any_eq, perm.any_eq]

theorem Unambiguous.perm (h : Unambiguous js doc n) (perm : n'.Perm n) : Unambiguous js doc n' := by
  have kind : n'.hasField = n.hasField := perm.any_eq
  constructor
  · intro leaf open_ hold member
    rw [kind] at leaf
    rw [perm.any_eq] at open_
    exact h.leaf leaf open_ (fun c inside => hold c (perm.mem_iff.2 inside)) (perm.mem_iff.1 member)
  · intro logical c member c' member'
    rw [kind] at logical
    exact h.logical logical c (perm.mem_iff.1 member) c' (perm.mem_iff.1 member')

theorem Unambiguous.counts (h : Unambiguous js doc n) (below : ∀ m ∈ n.children, Agrees js doc m) :
    Counts js doc n := by
  have own : Agrees js doc n := h.agrees below
  constructor
  · intro selected c member
    rw [Agrees, selected] at own
    split at own
    · cases own
    · have all : evalNode js doc n = true := by simpa [Except.toOption] using own.symm
      rw [evalNode_eq] at all
      exact List.all_eq_true.1 all c member
  · intro n' perm
    have permuted : Agrees js doc n' := by
      refine (h.perm perm).agrees fun m member => below m ?_
      obtain ⟨c, inside, there⟩ := List.mem_flatMap.1 member
      exact List.mem_flatMap.2 ⟨c, perm.mem_iff.1 inside, there⟩
    rw [own, permuted, perm_refused perm, evalNode_eq, evalNode_eq, perm.all_eq]

/-- Any clause may come first. -/
theorem Counts.outcome (h : Counts js doc n) (kind : n.hasField = false)
    (below : ∀ m ∈ n.children, Agrees js doc m)
    {c : Clause} (member : c ∈ n) :
    (verdict js n.toJson doc).toOption = if c.refused then none else some (c.eval js doc) := by
  obtain ⟨before, after, rfl⟩ := List.append_of_mem member
  have perm : List.Perm (c :: (before ++ after)) (before ++ c :: after) := List.perm_middle.symm
  rw [← h.order _ perm]
  refine verdict_first (perm.any_eq.trans kind) fun m there => below m (List.mem_flatMap.2 ⟨c, member, there⟩)

theorem Within.trans {m k : Node} (inner : Within k n) (outer : Within n m) : Within k m := by
  induction outer with
  | self => exact inner
  | child f member _ ih => exact .child f member ih

end Fula.Graph
