import ClassScript.Proofs.Scoping.Bound
import ClassScript.Proofs.Tree.Places
import Mathlib.Data.List.Induction

/-! # Scopes and static rules by place

Which scopes stand around a place, which names they have there, and which rules are broken there,
said of the finished tree alone.  Blocks, functions and methods are scopes; the methods of a class
stand in a scope that has `this`, and those of a class with a superclass in one more scope outside
of it that has `super`.  A scope has a name from the place on at which the name is declared in it.
-/
namespace ClassScript

namespace Node

def isScope : Node → Bool
  | function _ | method _ | members _ | derived _ | statement (.block _) => true
  | _ => false

def isFunction : Node → Bool
  | function _ | method _ => true
  | _ => false

def isClass : Node → Bool
  | statement (.cls _ _ _) => true
  | _ => false

/-- The name that a scope has from the start. -/
def implicit? : Node → Option String
  | members _ => some "this"
  | derived _ => some "super"
  | _ => none

def declared? : Node → Option Token
  | declaration name => some name
  | _ => none

def reference? : Node → Option Reference
  | expression (.variable ref) | expression (.assign ref _) => some ref
  | expression (.this ref) | expression (.super ref _) => some ref
  | superclass ref _ => some ref
  | _ => none

section Rules

variable (root : Node)

/-- The scopes around a place, the innermost first. -/
def scopes (p : Place) : List Place := ((root.around p).filter (·.2.isScope)).map Prod.fst

/-- The innermost function or method around a place. -/
def function? (p : Place) : Option Node := ((root.around p).map Prod.snd).find? isFunction

/-- The innermost class around a place. -/
def class? (p : Place) : Option Node := ((root.around p).map Prod.snd).find? isClass

/-- The name is declared in the scope at `q`, and that before the place `p`. -/
def Declares (q : Place) (name : String) (p : Place) : Prop :=
  ∃ r t, root.at? r = some (.declaration t) ∧ t.lexeme = name ∧ (root.scopes r).head? = some q ∧
    r.Before p

/-- The scope at `q` has the name at the place `p`. -/
def Holds (q : Place) (name : String) (p : Place) : Prop :=
  (∃ n, root.at? q = some n ∧ n.implicit? = some name) ∨ root.Declares q name p

/-- The innermost scope around the place that has the name lies `d` scopes out. -/
def Lexical (p : Place) (name : String) (d : Nat) : Prop :=
  (∃ q, (root.scopes p)[d]? = some q ∧ root.Holds q name p) ∧
    ∀ i q, i < d → (root.scopes p)[i]? = some q → ¬ root.Holds q name p

/-- A declaration in a scope that has an earlier one of the same name. -/
def Redeclares (p : Place) : Prop :=
  ∃ t q, root.at? p = some (.declaration t) ∧ (root.scopes p).head? = some q ∧
    root.Declares q t.lexeme p

/-- Inside the first value of a local variable of this name, which is not declared twice. -/
def InInitial (name : String) (p : Place) : Prop :=
  ∃ q t e, root.at? q = some (.statement (.var t (some e))) ∧ q ++ [1] <+: p ∧ t.lexeme = name ∧
    root.scopes q ≠ [] ∧ ¬ root.Redeclares (q ++ [0])

/-- Which rule is broken at a place, with the token that is blamed. -/
inductive Breaks : Place → StaticError → Prop where
  | redeclared {p : Place} {t : Token} (h : root.at? p = some (.declaration t))
      (hearlier : root.Redeclares p) : Breaks p ⟨t, .redeclared⟩
  | ownInitial {p : Place} {ref : Reference} (h : root.at? p = some (.expression (.variable ref)))
      (hinitial : root.InInitial ref.name.lexeme p) : Breaks p ⟨ref.name, .ownInitial⟩
  | returnOutside {p : Place} {keyword : Token} {value : Option Expr}
      (h : root.at? p = some (.statement (.ret keyword value)))
      (hfunction : root.function? p = none) : Breaks p ⟨keyword, .returnOutside⟩
  | returnFromInitializer {p : Place} {keyword : Token} {e : Expr} {d : FunctionDecl}
      (h : root.at? p = some (.statement (.ret keyword (some e))))
      (hfunction : root.function? p = some (.method d)) (hname : d.name.lexeme = initializerName) :
      Breaks p ⟨keyword, .returnFromInitializer⟩
  | inheritsItself {p : Place} {ref : Reference} {name : Token}
      (h : root.at? p = some (.superclass ref name)) (hname : ref.name.lexeme = name.lexeme) :
      Breaks p ⟨ref.name, .inheritsItself⟩
  | thisOutside {p : Place} {ref : Reference} (h : root.at? p = some (.expression (.this ref)))
      (hclass : root.class? p = none) : Breaks p ⟨ref.name, .thisOutside⟩
  | superOutside {p : Place} {ref : Reference} {method : Token}
      (h : root.at? p = some (.expression (.super ref method)))
      (hclass : root.class? p = none) : Breaks p ⟨ref.name, .superOutside⟩
  | superUnderived {p : Place} {ref : Reference} {method name : Token}
      {methods : List FunctionDecl} (h : root.at? p = some (.expression (.super ref method)))
      (hclass : root.class? p = some (.statement (.cls name none methods))) :
      Breaks p ⟨ref.name, .superUnderived⟩

/-- The reference stands at the place. -/
def Refers (p : Place) (ref : Reference) : Prop :=
  ∃ n, root.at? p = some n ∧ n.reference? = some ref

end Rules

variable {root n : Node} {p q : Place} {name : String} {i k : Nat}

theorem Breaks.exists_at {e : StaticError} (h : root.Breaks p e) : ∃ n, root.at? p = some n := by
  cases h <;> exact ⟨_, by assumption⟩

/-- The rules that can be broken at a node, by what the node is. -/
def BrokenAt (root : Node) (p : Place) : Node → StaticError → Prop
  | declaration t, e => root.Redeclares p ∧ e = ⟨t, .redeclared⟩
  | superclass ref name, e => ref.name.lexeme = name.lexeme ∧ e = ⟨ref.name, .inheritsItself⟩
  | expression (.variable ref), e =>
    root.InInitial ref.name.lexeme p ∧ e = ⟨ref.name, .ownInitial⟩
  | expression (.this ref), e => root.class? p = none ∧ e = ⟨ref.name, .thisOutside⟩
  | expression (.super ref _), e =>
    root.class? p = none ∧ e = ⟨ref.name, .superOutside⟩ ∨
      (∃ name methods, root.class? p = some (.statement (.cls name none methods))) ∧
        e = ⟨ref.name, .superUnderived⟩
  | statement (.ret keyword value), e =>
    root.function? p = none ∧ e = ⟨keyword, .returnOutside⟩ ∨
      (value.isSome = true ∧
        ∃ d, root.function? p = some (.method d) ∧ d.name.lexeme = initializerName) ∧
          e = ⟨keyword, .returnFromInitializer⟩
  | _, _ => False

theorem breaks_iff (h : root.at? p = some n) (e : StaticError) :
    root.Breaks p e ↔ root.BrokenAt p n e := by
  constructor
  · intro hbreaks
    cases hbreaks with
    | redeclared h' hearlier =>
      obtain rfl := Option.some.inj (h.symm.trans h')
      exact ⟨hearlier, rfl⟩
    | ownInitial h' hinitial =>
      obtain rfl := Option.some.inj (h.symm.trans h')
      exact ⟨hinitial, rfl⟩
    | returnOutside h' hfunction =>
      obtain rfl := Option.some.inj (h.symm.trans h')
      exact .inl ⟨hfunction, rfl⟩
    | returnFromInitializer h' hfunction hname =>
      obtain rfl := Option.some.inj (h.symm.trans h')
      exact .inr ⟨⟨rfl, _, hfunction, hname⟩, rfl⟩
    | inheritsItself h' hname =>
      obtain rfl := Option.some.inj (h.symm.trans h')
      exact ⟨hname, rfl⟩
    | thisOutside h' hclass =>
      obtain rfl := Option.some.inj (h.symm.trans h')
      exact ⟨hclass, rfl⟩
    | superOutside h' hclass =>
      obtain rfl := Option.some.inj (h.symm.trans h')
      exact .inl ⟨hclass, rfl⟩
    | superUnderived h' hclass =>
      obtain rfl := Option.some.inj (h.symm.trans h')
      exact .inr ⟨⟨_, _, hclass⟩, rfl⟩
  · intro hbroken
    unfold BrokenAt at hbroken
    split at hbroken
    · obtain ⟨hearlier, rfl⟩ := hbroken
      exact .redeclared h hearlier
    · obtain ⟨hname, rfl⟩ := hbroken
      exact .inheritsItself h hname
    · obtain ⟨hinitial, rfl⟩ := hbroken
      exact .ownInitial h hinitial
    · obtain ⟨hclass, rfl⟩ := hbroken
      exact .thisOutside h hclass
    · obtain ⟨hclass, rfl⟩ | ⟨⟨name, methods, hclass⟩, rfl⟩ := hbroken
      · exact .superOutside h hclass
      · exact .superUnderived h hclass
    · obtain ⟨hfunction, rfl⟩ | ⟨⟨hvalue, d, hfunction, hname⟩, rfl⟩ := hbroken
      · exact .returnOutside h hfunction
      · obtain ⟨value, rfl⟩ := Option.isSome_iff_exists.1 hvalue
        exact .returnFromInitializer h hfunction hname
    · exact hbroken.elim

/-- At most one rule is broken at a place. -/
theorem Breaks.unique {e e' : StaticError} (h : root.Breaks p e) (h' : root.Breaks p e') :
    e = e' := by
  obtain ⟨n, hn⟩ := h.exists_at
  rw [breaks_iff hn] at h h'
  unfold BrokenAt at h h'
  split at h
  case h_5 =>
    obtain ⟨hclass, rfl⟩ | ⟨⟨name, methods, hclass⟩, rfl⟩ := h
    · simp only [hclass, reduceCtorEq, exists_const, false_and, or_false, true_and] at h'
      exact h'.symm
    · simp only [hclass, reduceCtorEq, false_and, false_or] at h'
      exact h'.2.symm
  case h_6 =>
    obtain ⟨hfunction, rfl⟩ | ⟨⟨-, d, hfunction, -⟩, rfl⟩ := h
    · simp only [hfunction, reduceCtorEq, false_and, exists_const, and_false, or_false,
        true_and] at h'
      exact h'.symm
    · simp only [hfunction, reduceCtorEq, false_and, false_or] at h'
      exact h'.2.symm
  case h_7 => exact h.elim
  all_goals exact h.2.trans h'.2.symm

theorem scopes_child (h : root.at? p = some n) (i : Nat) :
    root.scopes (p ++ [i]) = if n.isScope then p :: root.scopes p else root.scopes p := by
  rw [scopes, around_child h, List.filter_cons]
  split <;> rfl

theorem function?_child (h : root.at? p = some n) (i : Nat) :
    root.function? (p ++ [i]) = if n.isFunction then some n else root.function? p := by
  rw [function?, around_child h, List.map_cons, List.find?_cons]
  cases n.isFunction <;> rfl

theorem class?_child (h : root.at? p = some n) (i : Nat) :
    root.class? (p ++ [i]) = if n.isClass then some n else root.class? p := by
  rw [class?, around_child h, List.map_cons, List.find?_cons]
  cases n.isClass <;> rfl

theorem mem_scopes (h : q ∈ root.scopes p) : q <+: p ∧ q ≠ p := by
  obtain ⟨⟨q', n⟩, hmem, rfl⟩ := List.mem_map.1 h
  obtain ⟨hinside, hne, -⟩ := mem_around (List.mem_filter.1 hmem).1
  exact ⟨hinside, hne⟩

/-- No scope stands around a place twice. -/
theorem scopes_nodup (root : Node) (p : Place) : (root.scopes p).Nodup := by
  have hdecreasing : (root.around p).Pairwise fun x y => y.1.length < x.1.length := by
    rw [around, List.pairwise_filterMap, List.pairwise_reverse]
    refine List.Pairwise.imp_of_mem ?_ (@List.pairwise_lt_range p.length)
    intro j k hj hk hjk x hx y hy
    obtain ⟨_, -, rfl⟩ := Option.map_eq_some_iff.1 hx
    obtain ⟨_, -, rfl⟩ := Option.map_eq_some_iff.1 hy
    simp only [List.mem_range] at hj hk
    simp only [List.length_take]
    omega
  rw [scopes, List.Nodup, List.pairwise_map]
  refine (hdecreasing.filter _).imp ?_
  intro x y hlength heq
  rw [heq] at hlength
  exact Nat.lt_irrefl _ hlength

/-- Only declarations that come before one place and not before the other matter. -/
theorem declares_congr {p' : Place}
    (h : ∀ r t, root.at? r = some (.declaration t) → (r.Before p ↔ r.Before p')) :
    root.Declares q name p ↔ root.Declares q name p' := by
  constructor
  · rintro ⟨r, t, hr, hname, hscope, hbefore⟩
    exact ⟨r, t, hr, hname, hscope, (h r t hr).1 hbefore⟩
  · rintro ⟨r, t, hr, hname, hscope, hbefore⟩
    exact ⟨r, t, hr, hname, hscope, (h r t hr).2 hbefore⟩

theorem declares_first (h : root.at? p = some n) (hn : n.declared? = none) :
    root.Declares q name (p ++ [0]) ↔ root.Declares q name p := by
  apply declares_congr
  intro r t hr
  rw [Place.before_first]
  constructor
  · rintro (hbefore | rfl)
    · exact hbefore
    · obtain rfl : n = .declaration t := by simpa [hr] using h.symm
      cases hn
  · exact .inl

/-- Behind a node the same names are declared as behind the last of its children. -/
theorem declares_next (h : root.at? (p ++ [i]) = some n) (hk : n.children.length = k) :
    root.Declares q name (p ++ [i + 1]) ↔ root.Declares q name (p ++ [i] ++ [k]) := by
  apply declares_congr
  intro r t hr
  rw [Place.before_next, Place.before_child (p ++ [i]) k, prefix_iff h hr, hk]

theorem declares_declaration {t : Token} (h : root.at? (p ++ [i]) = some (.declaration t)) :
    root.Declares q name (p ++ [i + 1]) ↔
      root.Declares q name (p ++ [i]) ∨
        (root.scopes (p ++ [i])).head? = some q ∧ t.lexeme = name := by
  constructor
  · rintro ⟨r, t', hr, hname, hscope, hbefore⟩
    rcases (Place.before_next p i r).1 hbefore with hbefore | hinside
    · exact .inl ⟨r, t', hr, hname, hscope, hbefore⟩
    · rcases (prefix_iff h hr).1 hinside with rfl | ⟨j, -, hj, -⟩
      · obtain rfl : t = t' := by simpa [h] using hr
        exact .inr ⟨hscope, hname⟩
      · simp [children] at hj
  · rintro (⟨r, t', hr, hname, hscope, hbefore⟩ | ⟨hscope, hname⟩)
    · exact ⟨r, t', hr, hname, hscope, (Place.before_next p i r).2 (.inl hbefore)⟩
    · exact ⟨p ++ [i], t, h, hname, hscope, (Place.before_next p i _).2 (.inr List.prefix_rfl)⟩

theorem expression_at? (e : Expr) (r : Place) (h : (expression e).at? r = some n) :
    ∃ e', n = .expression e' := by
  induction r generalizing e with
  | nil => exact ⟨e, by simpa [at?] using h.symm⟩
  | cons i r ih =>
    obtain ⟨child, hchild, hr⟩ := Option.bind_eq_some_iff.1 h
    obtain ⟨e', he, rfl⟩ := List.mem_map.1 (List.mem_of_getElem? hchild)
    exact ih e' hr

/-- Only expressions stand inside an expression. -/
theorem expression_of_prefix {e : Expr} (h : root.at? p = some (.expression e)) (hp : p <+: q)
    (hq : root.at? q = some n) : ∃ e', n = .expression e' := by
  obtain ⟨r, rfl⟩ := hp
  rw [at?_append, h] at hq
  exact expression_at? e r hq

/-- Nothing is declared in an expression. -/
theorem declares_expression {e : Expr} (h : root.at? p = some (.expression e)) (i : Nat) :
    root.Declares q name (p ++ [i]) ↔ root.Declares q name p := by
  apply declares_congr
  intro r t hr
  rw [Place.before_child]
  constructor
  · have hinside (hp : p <+: r) : False := by
      obtain ⟨e', he⟩ := expression_of_prefix h hp hr
      cases he
    rintro (hbefore | rfl | ⟨j, -, -, hj⟩)
    · exact hbefore
    · exact (hinside List.prefix_rfl).elim
    · exact (hinside ((List.prefix_append p [j]).trans hj)).elim
  · exact .inl

/-- All places inside a first value are places of expressions. -/
theorem InInitial.expression (h : root.InInitial name p) (hp : root.at? p = some n) :
    ∃ e, n = .expression e := by
  obtain ⟨q, t, e, hq, hinside, -⟩ := h
  exact expression_of_prefix (at?_child hq 1) hinside hp

/-- A child is inside a first value if its parent is or if it is that value. -/
theorem inInitial_child (hp : root.at? p = some n) (i : Nat) :
    root.InInitial name (p ++ [i]) ↔ root.InInitial name p ∨
      i = 1 ∧ ∃ t e, n = .statement (.var t (some e)) ∧ t.lexeme = name ∧ root.scopes p ≠ [] ∧
        ¬ root.Redeclares (p ++ [0]) := by
  constructor
  · rintro ⟨q, t, e, hq, hinside, hname, hlocal, honce⟩
    rcases List.prefix_concat_iff.1 hinside with heq | hinside
    · obtain ⟨rfl, hi⟩ := List.append_inj' heq rfl
      obtain rfl : 1 = i := by simpa using hi
      obtain rfl := Option.some.inj (hp.symm.trans hq)
      exact .inr ⟨rfl, t, e, rfl, hname, hlocal, honce⟩
    · exact .inl ⟨q, t, e, hq, hinside, hname, hlocal, honce⟩
  · rintro (⟨q, t, e, hq, hinside, hrest⟩ | ⟨rfl, t, e, rfl, hrest⟩)
    · exact ⟨q, t, e, hq, hinside.trans (List.prefix_append p [i]), hrest⟩
    · exact ⟨p, t, e, hp, List.prefix_rfl, hrest⟩

theorem inInitial_expression {e : Expr} (hp : root.at? p = some (.expression e)) (i : Nat) :
    root.InInitial name (p ++ [i]) ↔ root.InInitial name p := by
  rw [inInitial_child hp]
  simp

/-- A scope is empty at first but for its implicit name. -/
theorem not_declares_first (p : Place) : ¬ root.Declares p name (p ++ [0]) := by
  rintro ⟨r, t, -, -, hscope, hbefore⟩
  obtain ⟨hinside, hne⟩ := mem_scopes (List.mem_of_head? hscope)
  rcases (Place.before_first p r).1 hbefore with hbefore | heq
  · exact Place.not_before_of_prefix hinside hbefore
  · exact hne heq.symm

/-- Right inside of an implicit scope stand only methods, or all methods of a class. -/
theorem explicit_scope {m : Node} (hp : root.at? p = some n) (hmethod : ∀ d, n ≠ .method d)
    (hmembers : ∀ ds, n ≠ .members ds) (hscope : (root.scopes p).head? = some q)
    (hq : root.at? q = some m) : m.implicit? = none := by
  induction p using List.reverseRecOn generalizing n with
  | nil => simp [scopes, around] at hscope
  | append_singleton p i ih =>
    obtain ⟨parent, hparent, -⟩ := Option.bind_eq_some_iff.1 ((at?_append root p [i]).symm.trans hp)
    rw [at?_child hparent] at hp
    have hn : n ∈ parent.children := List.mem_of_getElem? hp
    rw [scopes_child hparent] at hscope
    cases hparentScope : parent.isScope with
    | true =>
      obtain rfl : p = q := by simpa [hparentScope] using hscope
      obtain rfl : parent = m := by simpa [hparent] using hq
      cases parent with
      | members ds =>
        obtain ⟨d, -, rfl⟩ := List.mem_map.1 hn
        exact absurd rfl (hmethod d)
      | derived ds => exact absurd (List.mem_singleton.1 hn) (hmembers ds)
      | _ => rfl
    | false =>
      rw [hparentScope] at hscope
      refine ih hparent ?_ ?_ hscope
      · rintro d rfl
        cases hparentScope
      · rintro ds rfl
        cases hparentScope

end Node

end ClassScript
