import ClassScript.Program.Tree
import Mathlib.Data.List.Basic

/-! # Places in a program

A program as a tree of nodes.  A place says which child to take at each level on the way down from
the root, and places are ordered as the text is.  The names that are declared are nodes of their
own: the name of a variable stands in front of its initial value, the name of a function or a class
in front of its body, and parameters in front of the body that they belong to.  Only the step of a
`for` has moved, from the front of the loop's body to a block behind it; the body of a loop is no
declaration, so what is declared there is declared in a scope of its own and not around the step.
-/
namespace ClassScript

/-- Which child to take at each level, from the root down. -/
abbrev Place := List Nat

namespace Place

/-- The order of the text; a node comes before the nodes inside it. -/
def Before : Place → Place → Prop
  | _, [] => False
  | [], _ :: _ => True
  | i :: p, j :: q => i < j ∨ i = j ∧ Before p q

/-- Inside one of the children of `p` from the `i`-th on and in front of the `k`-th. -/
def Between (p : Place) (i k : Nat) (q : Place) : Prop := ∃ j, i ≤ j ∧ j < k ∧ p ++ [j] <+: q

theorem before_next (p : Place) (i : Nat) (q : Place) :
    Before q (p ++ [i + 1]) ↔ Before q (p ++ [i]) ∨ p ++ [i] <+: q := by
  induction p generalizing q with
  | nil =>
    cases q with
    | nil => simp [Before]
    | cons j q =>
      have hlt : j < i + 1 ↔ j < i ∨ i = j := by omega
      cases q <;> simp [Before, hlt]
  | cons k p ih =>
    cases q with
    | nil => simp [Before]
    | cons j q =>
      simp only [List.cons_append, Before, ih, List.cons_prefix_cons]
      grind

theorem before_first (p q : Place) : Before q (p ++ [0]) ↔ Before q p ∨ q = p := by
  induction p generalizing q with
  | nil => cases q <;> simp [Before]
  | cons k p ih =>
    cases q with
    | nil => simp [Before]
    | cons j q =>
      simp only [List.cons_append, Before, ih, List.cons.injEq]
      grind

/-- What comes before the `k`-th child: what comes before the node, the node, and the children in
front. -/
theorem before_child (p : Place) (k : Nat) (q : Place) :
    Before q (p ++ [k]) ↔ Before q p ∨ q = p ∨ Between p 0 k q := by
  induction k with
  | zero =>
    rw [before_first]
    simp [Between]
  | succ k ih =>
    rw [before_next, ih]
    constructor
    · rintro ((h | h | ⟨j, -, hj, h⟩) | h)
      · exact .inl h
      · exact .inr (.inl h)
      · exact .inr (.inr ⟨j, by omega, by omega, h⟩)
      · exact .inr (.inr ⟨k, by omega, by omega, h⟩)
    · rintro (h | h | ⟨j, -, hj, h⟩)
      · exact .inl (.inl h)
      · exact .inl (.inr (.inl h))
      · by_cases hjk : j = k
        · exact .inr (hjk ▸ h)
        · exact .inl (.inr (.inr ⟨j, by omega, by omega, h⟩))

/-- Nothing inside a node comes before it. -/
theorem not_before_of_prefix {p q : Place} (h : p <+: q) : ¬ Before q p := by
  induction p generalizing q with
  | nil => cases q <;> simp [Before]
  | cons i p ih =>
    obtain ⟨j, q, rfl⟩ := List.exists_cons_of_ne_nil (l := q) (by rintro rfl; simp at h)
    obtain ⟨rfl, hrest⟩ := List.cons_prefix_cons.1 h
    simpa [Before] using ih hrest

/-- Two children of a node have nothing in common. -/
theorem child_unique {p q : Place} {i j : Nat} (hi : p ++ [i] <+: q) (hj : p ++ [j] <+: q) :
    i = j := by
  have hlength : (p ++ [i]).length = (p ++ [j]).length := by simp
  rcases List.prefix_or_prefix_of_prefix hi hj with h | h
  · simpa using h.eq_of_length hlength
  · simpa using (h.eq_of_length hlength.symm).symm

theorem between_one (p : Place) (i : Nat) (q : Place) :
    Between p i (i + 1) q ↔ p ++ [i] <+: q := by
  constructor
  · rintro ⟨j, hi, hj, h⟩
    obtain rfl : j = i := by omega
    exact h
  · intro h
    exact ⟨i, by omega, by omega, h⟩

theorem between_or {p : Place} {i j k : Nat} (hij : i ≤ j) (hjk : j ≤ k) (q : Place) :
    Between p i k q ↔ Between p i j q ∨ Between p j k q := by
  constructor
  · rintro ⟨m, hi, hk, h⟩
    by_cases hm : m < j
    · exact .inl ⟨m, hi, hm, h⟩
    · exact .inr ⟨m, by omega, hk, h⟩
  · rintro (⟨m, hi, hj, h⟩ | ⟨m, hj, hk, h⟩)
    · exact ⟨m, hi, by omega, h⟩
    · exact ⟨m, by omega, hk, h⟩

theorem between_disjoint {p q : Place} {i j k l : Nat} (hjk : j ≤ k) (h : Between p i j q)
    (h' : Between p k l q) : False := by
  obtain ⟨m, -, hm, h⟩ := h
  obtain ⟨n, hn, -, h'⟩ := h'
  have := child_unique h h'
  omega

theorem not_between_self (p : Place) (i k : Nat) : ¬ Between p i k p := by
  rintro ⟨j, -, -, h⟩
  have hlength := h.length_le
  simp only [List.length_append, List.length_singleton] at hlength
  omega

end Place

/-- The parts of a program, each of which has a place. -/
inductive Node where
  | program (body : List Stmt)
  | statement (s : Stmt)
  | expression (e : Expr)
  /-- The name of a variable, function, class or parameter where it is declared. -/
  | declaration (name : Token)
  /-- The superclass that is given for the class `name`. -/
  | superclass (ref : Reference) (name : Token)
  | function (d : FunctionDecl)
  | method (d : FunctionDecl)
  /-- The methods of a class, which share the scope of `this`. -/
  | members (methods : List FunctionDecl)
  /-- The methods of a class with a superclass, inside the scope of `super`. -/
  | derived (methods : List FunctionDecl)

def Expr.parts : Expr → List Expr
  | .constant _ | .variable _ | .this _ | .super _ _ => []
  | .grouping e | .unary _ e | .assign _ e | .get e _ => [e]
  | .binary l _ r | .logical l _ r | .set l _ r => [l, r]
  | .call f _ es => f :: es

def FunctionDecl.nodes (d : FunctionDecl) : List Node :=
  d.parameters.map .declaration ++ d.body.map .statement

def Stmt.nodes : Stmt → List Node
  | .expression e | .print e => [.expression e]
  | .var name initial => .declaration name :: initial.toList.map .expression
  | .block body => body.map .statement
  | .branch c s negative => .expression c :: .statement s :: negative.toList.map .statement
  | .loop c s => [.expression c, .statement s]
  | .function d => [.declaration d.name, .function d]
  | .cls name none methods => [.declaration name, .members methods]
  | .cls name (some ref) methods => [.declaration name, .superclass ref name, .derived methods]
  | .ret _ value => value.toList.map .expression

namespace Node

/-- The parts of a node in the order of the text. -/
def children : Node → List Node
  | program body => body.map statement
  | statement s => s.nodes
  | expression e => e.parts.map expression
  | declaration _ | superclass _ _ => []
  | function d | method d => d.nodes
  | members methods => methods.map method
  | derived methods => [members methods]

/-- The node at a place below this one. -/
def at? : Node → Place → Option Node
  | n, [] => some n
  | n, i :: p => n.children[i]?.bind fun child => child.at? p

variable {root n m : Node} {p q : Place} {i : Nat}

theorem at?_append (n : Node) (p q : Place) : n.at? (p ++ q) = (n.at? p).bind (·.at? q) := by
  induction p generalizing n with
  | nil => rfl
  | cons i p ih => simp only [List.cons_append, at?, ih, Option.bind_assoc]

theorem at?_child (h : root.at? p = some n) (i : Nat) : root.at? (p ++ [i]) = n.children[i]? := by
  simp [at?_append, h, at?]

/-- The places of the children that come from a list, between some others. -/
theorem at?_children {α : Type} {f : α → Node} {xs : List α} (front back : List Node)
    (h : root.at? p = some n) (hchildren : n.children = front ++ xs.map f ++ back) (j : Nat) (x : α)
    (hx : xs[j]? = some x) : root.at? (p ++ [front.length + j]) = some (f x) := by
  have hj : j < (xs.map f).length := by
    rw [List.length_map]
    exact (List.getElem?_eq_some_iff.1 hx).1
  rw [at?_child h, hchildren, List.append_assoc, List.getElem?_append_right (by omega),
    Nat.add_sub_cancel_left, List.getElem?_append_left hj, List.getElem?_map, hx]
  rfl

theorem at?_tail {α : Type} {f : α → Node} {x : α} {xs : List α}
    (h : ∀ j y, (x :: xs)[j]? = some y → root.at? (p ++ [i + j]) = some (f y)) (j : Nat) (y : α)
    (hy : xs[j]? = some y) : root.at? (p ++ [i + 1 + j]) = some (f y) := by
  have hj := h (j + 1) y hy
  rwa [← Nat.add_assoc, Nat.add_right_comm] at hj

/-- A node inside another is that one or inside one of its children. -/
theorem prefix_iff (hp : root.at? p = some n) (hq : root.at? q = some m) :
    p <+: q ↔ q = p ∨ Place.Between p 0 n.children.length q := by
  constructor
  · rintro ⟨r, rfl⟩
    cases r with
    | nil => exact .inl (List.append_nil p)
    | cons i r =>
      rw [at?_append, hp] at hq
      have hi : i < n.children.length := by
        apply Nat.lt_of_not_le
        intro hge
        simp [at?, List.getElem?_eq_none hge] at hq
      exact .inr ⟨i, by omega, hi, r, by simp⟩
  · rintro (rfl | ⟨j, -, -, h⟩)
    · exact List.prefix_rfl
    · exact (List.prefix_append p [j]).trans h

/-- The nodes around a place, the nearest first. -/
def around (root : Node) (p : Place) : List (Place × Node) :=
  (List.range p.length).reverse.filterMap fun k => (root.at? (p.take k)).map (p.take k, ·)

theorem around_child (h : root.at? p = some n) (i : Nat) :
    root.around (p ++ [i]) = (p, n) :: root.around p := by
  have hrest (k : Nat) (hk : k ∈ (List.range p.length).reverse) :
      (p ++ [i]).take k = p.take k := by
    simp only [List.mem_reverse, List.mem_range] at hk
    exact List.take_append_of_le_length (by omega)
  rw [around, List.length_append, List.length_singleton, List.range_succ, List.reverse_append,
    List.reverse_singleton, List.singleton_append, List.filterMap_cons, List.take_left, h]
  simp only [Option.map_some, List.cons.injEq, true_and]
  apply List.filterMap_congr
  intro k hk
  rw [hrest k hk]

theorem mem_around (h : (q, n) ∈ root.around p) : q <+: p ∧ q ≠ p ∧ root.at? q = some n := by
  obtain ⟨k, hk, hq⟩ := List.mem_filterMap.1 h
  simp only [List.mem_reverse, List.mem_range] at hk
  obtain ⟨m, hm, heq⟩ := Option.map_eq_some_iff.1 hq
  obtain ⟨rfl, rfl⟩ := Prod.mk.inj heq
  refine ⟨List.take_prefix k p, ?_, hm⟩
  intro htake
  have hlength := congrArg List.length htake
  rw [List.length_take] at hlength
  omega

end Node

end ClassScript
