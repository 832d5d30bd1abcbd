import ClassScript.Proofs.Scoping.Completeness
import ClassScript.Proofs.Scoping.Soundness
import ClassScript.Proofs.Scoping.Survey
import Mathlib.Data.List.Nodup

/-! # The errors of the analysis

The walk over statements and declarations.  The analysis of a program reports every occurrence of a
broken rule, each one once, and nothing else, whatever stands around the occurrence and whatever was
reported before.
-/
namespace ClassScript

namespace Node

variable {root n : Node} {p q : Place} {name : String} {i j k : Nat}

section Siblings

variable (h : root.at? (p ++ [i]) = some n) (j : Nat)
include h

theorem exists_parent : ∃ m, root.at? p = some m := by
  rw [at?_append] at h
  obtain ⟨m, hm, -⟩ := Option.bind_eq_some_iff.1 h
  exact ⟨m, hm⟩

theorem scopes_sibling : root.scopes (p ++ [j]) = root.scopes (p ++ [i]) := by
  obtain ⟨m, hm⟩ := exists_parent h
  rw [scopes_child hm, scopes_child hm]

theorem functionContext_sibling :
    root.functionContext (p ++ [j]) = root.functionContext (p ++ [i]) := by
  obtain ⟨m, hm⟩ := exists_parent h
  rw [functionContext_child hm, functionContext_child hm]

theorem classContext_sibling : root.classContext (p ++ [j]) = root.classContext (p ++ [i]) := by
  obtain ⟨m, hm⟩ := exists_parent h
  rw [classContext_child hm, classContext_child hm]

end Siblings

/-- The names that a scope has before anything is declared in it. -/
def firstNames (n : Node) : Bindings Bool :=
  match n.implicit? with
  | none => .empty
  | some name => implicitScope name

theorem contains_firstNames (n : Node) (name : String) :
    n.firstNames.contains name = true ↔ n.implicit? = some name := by
  unfold firstNames
  cases n.implicit? with
  | none => simp [Bindings.contains]
  | some other =>
    by_cases h : name = other <;> simp [implicitScope, Bindings.contains, h, Ne.symm]

theorem settled_firstNames (n : Node) (name : String) (readable : Bool)
    (h : n.firstNames.get? name = some readable) : readable = true := by
  unfold firstNames at h
  cases hn : n.implicit? with
  | none => simp [hn] at h
  | some other =>
    simp only [hn, implicitScope, Bindings.get?_insert] at h
    split at h
    · simpa using h.symm
    · cases h

theorem scopes_enter (n : Node) (a : Analysis) :
    (n.enter a).scopes = if n.isScope then n.firstNames :: a.scopes else a.scopes := by
  unfold enter firstNames
  split
  · cases n.implicit? with
    | none => rfl
    | some name => exact (a.moves_open name).scopes
  · rfl

theorem Shows.first {Γ : Scopes} (h : root.Shows p Γ) (hp : root.at? p = some n)
    (hn : n.declared? = none) :
    root.Shows (p ++ [0]) (if n.isScope then n.firstNames :: Γ else Γ) := by
  have hsame (q : Place) (name : String) :
      root.Holds q name (p ++ [0]) ↔ root.Holds q name p := by
    rw [Holds, Holds, declares_first hp hn]
  unfold Shows at *
  rw [scopes_child hp]
  cases n.isScope with
  | false => exact h.imp fun q scope hscope name => (hscope name).trans (hsame q name).symm
  | true =>
    refine .cons (fun name => ?_) (h.imp fun q scope hscope name =>
      (hscope name).trans (hsame q name).symm)
    rw [contains_firstNames, Holds]
    simp [hp, not_declares_first]

/-- Behind a node the scopes are those in front of it, with the names declared inside. -/
theorem Shows.next {Γ : Scopes} (hp : root.at? (p ++ [i]) = some n) (hk : n.children.length = k)
    (h : root.Shows (p ++ [i] ++ [k]) Γ) :
    root.Shows (p ++ [i + 1]) (if n.isScope then Γ.tail else Γ) := by
  have hsame (q : Place) (name : String) :
      root.Holds q name (p ++ [i + 1]) ↔ root.Holds q name (p ++ [i] ++ [k]) := by
    rw [Holds, Holds, declares_next hp hk]
  unfold Shows at *
  rw [scopes_child hp] at h
  rw [scopes_sibling hp]
  cases hscope : n.isScope with
  | false =>
    rw [hscope] at h
    exact h.imp fun q scope hscope name => (hscope name).trans (hsame q name).symm
  | true =>
    rw [hscope] at h
    cases h with
    | cons hhead htail =>
      exact htail.imp fun q scope hscope name => (hscope name).trans (hsame q name).symm

/-- A declaration adds its name to the innermost scope. -/
theorem Shows.declare {Γ : Scopes} {t : Token} (hp : root.at? (p ++ [i]) = some (.declaration t))
    (h : root.Shows (p ++ [i]) Γ) (readable : Bool) :
    root.Shows (p ++ [i + 1]) (Γ.mark t.lexeme readable) := by
  have hholds (q : Place) (name : String) : root.Holds q name (p ++ [i + 1]) ↔
      root.Holds q name (p ++ [i]) ∨
        (root.scopes (p ++ [i])).head? = some q ∧ t.lexeme = name := by
    rw [Holds, Holds, declares_declaration hp, or_assoc]
  have hnodup := scopes_nodup root (p ++ [i])
  unfold Shows at *
  rw [scopes_sibling hp]
  cases hlist : root.scopes (p ++ [i]) with
  | nil =>
    rw [hlist] at h
    cases h
    exact .nil
  | cons q qs =>
    rw [hlist] at h hnodup hholds
    obtain ⟨hq, -⟩ := List.nodup_cons.1 hnodup
    cases h with
    | @cons _ _ _ Γ' hhead htail =>
      refine .cons (fun name => ?_) ?_
      · rw [hholds, ← hhead name]
        by_cases hname : name = t.lexeme
        · simp [Bindings.contains, hname]
        · simp [Bindings.contains, hname, Ne.symm hname]
      · have hothers : ∀ q' ∈ qs, q ≠ q' := by
          rintro q' hq' rfl
          exact hq hq'
        refine ((List.forall₂_and_left qs Γ').2 ⟨hothers, htail⟩).imp ?_
        rintro q' scope ⟨hne, hscope⟩ name
        rw [hholds, hscope]
        simp [hne]

/-- Outside of first values nothing is inside one. -/
theorem not_inInitial {s : Stmt} (hp : root.at? p = some (.statement s))
    (hs : ∀ t e, s ≠ .var t (some e)) (i : Nat) : ¬ root.InInitial name (p ++ [i]) := by
  rw [inInitial_child hp]
  rintro (hinitial | ⟨-, t, e, heq, -⟩)
  · obtain ⟨e, he⟩ := hinitial.expression hp
    cases he
  · exact hs t e (Node.statement.inj heq)

/-- The analysis knows which declarations are repeated. -/
theorem Shows.redeclares {Γ : Scopes} {t : Token} (hp : root.at? p = some (.declaration t))
    (h : root.Shows p Γ) : root.Redeclares p ↔ (Γ.innermost? t.lexeme).isSome = true := by
  rw [h.innermost]
  constructor
  · rintro ⟨t', q, hp', hscope, hdeclares⟩
    obtain rfl : t = t' := by simpa [hp] using hp'
    exact ⟨q, hscope, .inr hdeclares⟩
  · rintro ⟨q, hscope, ⟨m, hq, himplicit⟩ | hdeclares⟩
    · rw [explicit_scope hp (by simp) (by simp) hscope hq] at himplicit
      cases himplicit
    · exact ⟨t, q, hp, hscope, hdeclares⟩

/-- A name that is declared again is in its scope already. -/
theorem Shows.redeclared {Γ : Scopes} {t : Token}
    (hp : root.at? (p ++ [i]) = some (.declaration t)) (h : root.Shows (p ++ [i]) Γ)
    (hearlier : root.Redeclares (p ++ [i])) : root.Shows (p ++ [i + 1]) Γ := by
  obtain ⟨t', q, hp', hscope, hdeclares⟩ := hearlier
  obtain rfl : t = t' := by simpa [hp] using hp'
  refine h.congr (scopes_sibling hp _) fun q' name => ?_
  rw [declares_declaration hp, or_iff_left_iff_imp]
  rintro ⟨hscope', rfl⟩
  obtain rfl : q = q' := by simpa [hscope] using hscope'
  exact hdeclares

end Node

namespace Analysis

variable {root n : Node} {p : Place} {i j k : Nat} {fn fn' : FunctionContext}
  {cls cls' : ClassContext} {a a' a'' : Analysis}

theorem errors_declare (a : Analysis) (t : Token) :
    (a.declare t).errors =
      (a.failIf (a.innermost? t.lexeme).isSome t .redeclared).errors := by
  unfold declare failIf
  split
  · rfl
  · exact a.errors_mark _ _

namespace Covers

/-- An occurrence that may break one rule and is no reference. -/
theorem fail {t : Token} (broken : Bool) (cause : StaticCause) (hp : root.at? p = some n)
    (href : n.reference? = none)
    (hbroken : ∀ e, root.BrokenAt p n e ↔ broken = true ∧ e = ⟨t, cause⟩) :
    Covers root (· = p) a (a.failIf broken t cause) := by
  refine own (if broken then some ⟨t, cause⟩ else none) none (fun e => ?_)
    (Node.no_records hp href) ?_ (a.distances_failIf _ _ _)
  · rw [Node.breaks_iff hp, hbroken]
    cases broken <;> simp [eq_comm]
  · cases broken <;> simp [failIf, Analysis.fail]

/-- A leaf of the tree. -/
theorem leaf (hp : root.at? (p ++ [i]) = some n) (hk : n.children.length = 0)
    (h : Covers root (· = p ++ [i]) a a') : Covers root (Place.Between p i (i + 1)) a a' :=
  (node hp hk h (.nothing root (p ++ [i]) 0 a')).child

theorem declare {t : Token} (hp : root.at? (p ++ [i]) = some (.declaration t))
    (hshows : root.Shows (p ++ [i]) a.scopes) :
    Covers root (Place.Between p i (i + 1)) a (a.declare t) := by
  refine leaf hp rfl ((fail (a.innermost? t.lexeme).isSome .redeclared hp rfl fun e => ?_).of_eq rfl
    rfl (a.errors_declare t) ?_)
  · rw [Node.BrokenAt, hshows.redeclares hp]
    rfl
  · rw [distances_declare, distances_failIf]

end Covers

/-- Between statements the state shows the contexts and the scopes of the place, and all names may
be read. -/
structure Fits (root : Node) (p : Place) (fn : FunctionContext) (cls : ClassContext)
    (a : Analysis) : Prop where
  function : root.functionContext p = fn
  cls : root.classContext p = cls
  names : root.Shows p a.scopes
  settled : Scopes.Settled a.scopes

namespace Fits

theorem keep (h : Fits root p fn cls a) (hscopes : a'.scopes = a.scopes) : Fits root p fn cls a' :=
  ⟨h.function, h.cls, hscopes ▸ h.names, hscopes ▸ h.settled⟩

theorem enter (h : Fits root p fn cls a) (hp : root.at? p = some n) (hn : n.declared? = none) :
    Fits root (p ++ [0]) (n.functionIn fn) (n.classIn cls) (n.enter a) where
  function := by rw [Node.functionContext_child hp, h.function]
  cls := by rw [Node.classContext_child hp, h.cls]
  names := by
    rw [Node.scopes_enter]
    exact h.names.first hp hn
  settled := by
    rw [Node.scopes_enter]
    split
    · exact .cons (fun name readable => n.settled_firstNames name readable) h.settled
    · exact h.settled

theorem leave (h : Fits root (p ++ [i]) fn cls a) (hp : root.at? (p ++ [i]) = some n)
    (hk : n.children.length = k) (h' : Fits root (p ++ [i] ++ [k]) fn' cls' a') :
    Fits root (p ++ [i + 1]) fn cls (n.leave a') := by
  have hscopes : (n.leave a').scopes = if n.isScope then a'.scopes.tail else a'.scopes := by
    unfold Node.leave
    split <;> rfl
  refine ⟨?_, ?_, ?_, ?_⟩
  · rw [Node.functionContext_sibling hp, h.function]
  · rw [Node.classContext_sibling hp, h.cls]
  · rw [hscopes]
    exact h'.names.next hp hk
  · rw [hscopes]
    split
    · exact h'.settled.tail
    · exact h'.settled

theorem introduce {t : Token} (h : Fits root (p ++ [i]) fn cls a)
    (hp : root.at? (p ++ [i]) = some (.declaration t)) :
    Fits root (p ++ [i + 1]) fn cls (a.introduce t) where
  function := by rw [Node.functionContext_sibling hp, h.function]
  cls := by rw [Node.classContext_sibling hp, h.cls]
  names := by
    rw [scopes_introduce]
    exact h.names.declare hp true
  settled := by
    rw [scopes_introduce]
    exact h.settled.markTrue _

/-- An expression leaves the scopes as they are. -/
theorem expression {e : Expr} (h : Fits root (p ++ [i]) fn cls a)
    (hp : root.at? (p ++ [i]) = some (.expression e)) (hscopes : a'.scopes = a.scopes) :
    Fits root (p ++ [i + 1]) fn cls a' where
  function := by rw [Node.functionContext_sibling hp, h.function]
  cls := by rw [Node.classContext_sibling hp, h.cls]
  names := by
    rw [hscopes]
    refine h.names.congr (Node.scopes_sibling hp _) fun q name => ?_
    rw [Node.declares_next hp rfl, Node.declares_expression hp]
  settled := hscopes ▸ h.settled

theorem stands (h : Fits root p fn cls a) (hnot : ∀ name, ¬ root.InInitial name p) :
    Stands root p cls a where
  cls := h.cls
  names := h.names
  pending := by
    intro name
    constructor
    · intro hfalse
      exact absurd hfalse (h.settled.readable name).innermost
    · intro hinitial
      exact absurd hinitial (hnot name)

end Fits

/-- The way of the analysis over the children of the node at `p` from the `i`-th to the `k`-th. -/
structure Passes (root : Node) (p : Place) (i k : Nat) (fn : FunctionContext) (cls : ClassContext)
    (a a' : Analysis) : Prop where
  covers : Covers root (Place.Between p i k) a a'
  fits : Fits root (p ++ [k]) fn cls a'

namespace Passes

theorem refl (h : Fits root (p ++ [i]) fn cls a) : Passes root p i i fn cls a a :=
  ⟨.nothing root p i a, h⟩

theorem trans (h : Passes root p i j fn cls a a') (h' : Passes root p j k fn cls a' a'')
    (hij : i ≤ j) (hjk : j ≤ k) : Passes root p i k fn cls a a'' :=
  ⟨h.covers.between h'.covers hij hjk, h'.fits⟩

/-- A node with its children: the contexts and the scopes are those of the node inside, and behind
it they are as they were. -/
theorem node (h : Fits root (p ++ [i]) fn cls a) (hp : root.at? (p ++ [i]) = some n)
    (hk : n.children.length = k) (hown : Covers root (· = p ++ [i]) a a')
    (hinner : Passes root (p ++ [i]) 0 k fn' cls' (n.enter a') a'') :
    Passes root p i (i + 1) fn cls a (n.leave a'') where
  covers := by
    have hchildren := hinner.covers.of_eq (n.errors_enter a').symm (n.distances_enter a').symm
      rfl rfl
    have hall := Covers.node hp hk hown hchildren
    exact (hall.of_eq rfl rfl (n.errors_leave a'') (n.distances_leave a'')).child
  fits := h.leave hp hk hinner.fits

theorem introduce {t : Token} (h : Fits root (p ++ [i]) fn cls a)
    (hp : root.at? (p ++ [i]) = some (.declaration t)) :
    Passes root p i (i + 1) fn cls a (a.introduce t) where
  covers := (Covers.declare hp h.names).of_eq rfl rfl ((a.declare t).errors_mark _ _)
    ((a.declare t).distances_mark _ _)
  fits := h.introduce hp

theorem expression {s : Stmt} {e : Expr} (h : Fits root (p ++ [i]) fn cls a)
    (hparent : root.at? p = some (.statement s)) (hs : ∀ t e, s ≠ .var t (some e))
    (hp : root.at? (p ++ [i]) = some (.expression e)) :
    Passes root p i (i + 1) fn cls a (e.analyze cls a) where
  covers :=
    (e.covers_analyze hp (h.stands fun _ => Node.not_inInitial hparent hs i)).child
  fits := h.expression hp (e.moves_analyze cls a).scopes

end Passes

/-- While its first value is computed a variable has its name but may not be read, unless it is
declared twice. -/
theorem Fits.initial {t : Token} {e : Expr} (h : Fits root p fn cls a)
    (hp : root.at? p = some (.statement (.var t (some e)))) :
    Stands root (p ++ [1]) cls (a.declare t) := by
  have hname : root.at? (p ++ [0]) = some (.declaration t) := Node.at?_child hp 0
  have hfirst : Fits root (p ++ [0]) fn cls a := h.enter hp rfl
  have hearlier : root.Redeclares (p ++ [0]) ↔ (a.innermost? t.lexeme).isSome = true :=
    hfirst.names.redeclares hname
  have hlocal : root.scopes p = [] ↔ a.scopes = [] := by
    rw [← List.length_eq_zero_iff, h.names.length_eq, List.length_eq_zero_iff]
  have hinitial (name : String) : root.InInitial name (p ++ [1]) ↔
      t.lexeme = name ∧ a.scopes ≠ [] ∧ a.innermost? t.lexeme = none := by
    rw [Node.inInitial_child hp, hearlier, Ne, hlocal]
    constructor
    · rintro (houter | ⟨-, t', e', heq, hrest⟩)
      · obtain ⟨e, he⟩ := houter.expression hp
        cases he
      · cases heq
        simpa using hrest
    · rintro ⟨hname, hlocal, hnone⟩
      exact .inr ⟨rfl, t, e, rfl, hname, hlocal, by simp [hnone]⟩
  have hreadable (name : String) : a.innermost? name ≠ some false :=
    (h.settled.readable name).innermost
  refine ⟨(hfirst.introduce hname).cls, ?_, fun name => ?_⟩
  · unfold declare
    split
    next hsome => exact hfirst.names.redeclared hname (hearlier.2 hsome)
    next =>
      rw [scopes_mark]
      exact hfirst.names.declare hname false
  · rw [hinitial]
    unfold declare
    split
    next hsome =>
      have hne : a.innermost? t.lexeme ≠ none := Option.isSome_iff_ne_none.1 hsome
      have hsame : (a.fail t .redeclared).innermost? name = a.innermost? name := rfl
      simpa [hne, hsame] using hreadable name
    next hnone =>
      have hnone : a.innermost? t.lexeme = none := by simpa using hnone
      rw [innermost?_eq, scopes_mark]
      cases hscopes : a.scopes with
      | nil => simp [Scopes.mark, Scopes.innermost?]
      | cons scope Γ =>
        have hother := hreadable name
        rw [innermost?_eq, hscopes] at hother
        by_cases heq : name = t.lexeme
        · simp [Scopes.innermost?, heq, hnone]
        · simpa [Scopes.innermost?, heq, Ne.symm heq] using hother

namespace Passes

theorem «variable» {t : Token} {initial : Option Expr} (h : Fits root (p ++ [i]) fn cls a)
    (hp : root.at? (p ++ [i]) = some (.statement (.var t initial))) :
    Passes root p i (i + 1) fn cls a
      ((Expr.analyzeOption cls initial (a.declare t)).define t) := by
  have hname : root.at? (p ++ [i] ++ [0]) = some (.declaration t) := Node.at?_child hp 0
  have hfirst : Fits root (p ++ [i] ++ [0]) fn cls a := h.enter hp rfl
  have hidle : Covers root (· = p ++ [i]) a a := .idle hp (fun _ => id) rfl a
  cases initial with
  | none => exact .node h hp rfl hidle (.introduce hfirst hname)
  | some e =>
    have he : root.at? (p ++ [i] ++ [1]) = some (.expression e) := Node.at?_child hp 1
    have hscopes := (e.moves_analyze cls (a.declare t)).scopes
    have hcovers := (Covers.declare hname hfirst.names).between
      (e.covers_analyze he (h.initial hp)).child (by omega) (by omega)
    have hdefined : ((e.analyze cls (a.declare t)).define t).scopes = (a.introduce t).scopes := by
      rw [define, scopes_mark, hscopes, mark_declare, scopes_introduce]
    have hinner : Passes root (p ++ [i]) 0 2 fn cls a
        ((e.analyze cls (a.declare t)).define t) :=
      ⟨hcovers.of_eq rfl rfl (errors_mark _ _ _) (distances_mark _ _ _),
        (hfirst.introduce hname).expression he hdefined⟩
    exact .node h hp rfl hidle hinner

theorem parameters {ts : List Token} (h : Fits root (p ++ [i]) fn cls a)
    (hp : ∀ j t, ts[j]? = some t → root.at? (p ++ [i + j]) = some (.declaration t)) :
    Passes root p i (i + ts.length) fn cls a (ts.foldl Analysis.introduce a) := by
  induction ts generalizing i a with
  | nil => exact .refl h
  | cons t ts ih =>
    have ht := introduce h (hp 0 t rfl)
    have hts := ih ht.fits (Node.at?_tail hp)
    rw [Nat.add_right_comm] at hts
    exact ht.trans hts (by omega) (by simp only [List.length_cons]; omega)

theorem superclass {ref : Reference} {name : Token} (h : Fits root (p ++ [i]) fn cls a)
    (hp : root.at? (p ++ [i]) = some (.superclass ref name)) :
    Passes root p i (i + 1) fn cls a
      ((a.failIf (ref.name.lexeme == name.lexeme) ref.name .inheritsItself).record ref) where
  covers := .leaf hp rfl (.fail_record _ _ hp rfl h.names (by simp) fun e => by
    simp [Node.BrokenAt])
  fits := by
    have hnext : Fits root (p ++ [i + 1]) fn cls a := h.leave hp rfl (h.enter hp rfl)
    exact hnext.keep (by rw [scopes_record, scopes_failIf])

/-- The methods of a class, once it is known how the analysis gets over a list of methods. -/
theorem members {ds : List FunctionDecl} (h : Fits root (p ++ [i]) fn cls a)
    (hp : root.at? (p ++ [i]) = some (.members ds))
    (hds : (∀ j d, ds[j]? = some d → root.at? (p ++ [i] ++ [0 + j]) = some (.method d)) →
      Fits root (p ++ [i] ++ [0]) fn cls (a.openScope.mark "this" true) →
        Passes root (p ++ [i]) 0 (0 + ds.length) fn cls (a.openScope.mark "this" true) a') :
    Passes root p i (i + 1) fn cls a a'.closeScope := by
  have hchildren : (Node.members ds).children = [] ++ ds.map .method ++ [] := by
    simp [Node.children]
  have hinner := hds (Node.at?_children _ _ hp hchildren) (h.enter hp rfl)
  exact .node h hp (by simp [hchildren]) (.idle hp (fun _ => id) rfl a) hinner

end Passes

/-- The two rules about `return`. -/
theorem Covers.returned {keyword : Token} {value : Option Expr}
    (hp : root.at? p = some (.statement (.ret keyword value)))
    (hfunction : root.functionContext p = fn) (a : Analysis) :
    Covers root (· = p) a ((a.failIf (fn == .outside) keyword .returnOutside).failIf
      (value.isSome && fn == .initializer) keyword .returnFromInitializer) := by
  have hbroken (e : StaticError) : root.BrokenAt p (.statement (.ret keyword value)) e ↔
      fn = .outside ∧ e = ⟨keyword, .returnOutside⟩ ∨
        (value.isSome = true ∧ fn = .initializer) ∧ e = ⟨keyword, .returnFromInitializer⟩ := by
    rw [Node.BrokenAt, ← Node.functionContext_outside, ← Node.functionContext_initializer,
      hfunction]
  by_cases houtside : fn = .outside
  · have hinitializer : (value.isSome && fn == .initializer) = false := by simp [houtside]
    rw [hinitializer]
    exact .fail _ .returnOutside hp rfl (by simpa [houtside] using hbroken)
  · have hinside : (fn == .outside) = false := by simpa using houtside
    rw [hinside]
    exact .fail _ .returnFromInitializer hp rfl (by simpa [houtside] using hbroken)

end Analysis

open Analysis (Fits Passes)

section Walk

variable {root : Node}

mutual

theorem Stmt.passes_analyze {fn : FunctionContext} {cls : ClassContext} (s : Stmt) {p : Place}
    {i : Nat} {a : Analysis} (hp : root.at? (p ++ [i]) = some (.statement s))
    (h : Fits root (p ++ [i]) fn cls a) :
    Passes root p i (i + 1) fn cls a (s.analyze fn cls a) := by
  cases s with
  | expression e | print e =>
    have hfirst : Fits root (p ++ [i] ++ [0]) fn cls a := h.enter hp rfl
    have he := Passes.expression hfirst hp (by simp) (Node.at?_child hp 0)
    exact .node h hp rfl (.idle hp (fun _ => id) rfl a) he
  | var name initial => exact .variable h hp
  | block body =>
    have hfirst : Fits root (p ++ [i] ++ [0]) fn cls a.openScope := h.enter hp rfl
    have hchildren : (Node.statement (.block body)).children = [] ++ body.map .statement ++ [] := by
      simp [Node.children, Stmt.nodes]
    have hbody := Stmt.passes_analyzeAll body (Node.at?_children _ _ hp hchildren) hfirst
    exact .node h hp (by simp [hchildren]) (.idle hp (fun _ => id) rfl a) hbody
  | branch c s negative =>
    have hfirst : Fits root (p ++ [i] ++ [0]) fn cls a := h.enter hp rfl
    have hc := Passes.expression hfirst hp (by simp) (Node.at?_child hp 0)
    have hs := Stmt.passes_analyze s (Node.at?_child hp 1) hc.fits
    have hboth := hc.trans hs (by omega) (by omega)
    cases negative with
    | none => exact .node h hp rfl (.idle hp (fun _ => id) rfl a) hboth
    | some t =>
      have ht := Stmt.passes_analyze t (Node.at?_child hp 2) hs.fits
      have hall := hboth.trans ht (by omega) (by omega)
      exact .node h hp rfl (.idle hp (fun _ => id) rfl a) hall
  | loop c s =>
    have hfirst : Fits root (p ++ [i] ++ [0]) fn cls a := h.enter hp rfl
    have hc := Passes.expression hfirst hp (by simp) (Node.at?_child hp 0)
    have hs := Stmt.passes_analyze s (Node.at?_child hp 1) hc.fits
    have hboth := hc.trans hs (by omega) (by omega)
    exact .node h hp rfl (.idle hp (fun _ => id) rfl a) hboth
  | function d =>
    have hfirst : Fits root (p ++ [i] ++ [0]) fn cls a := h.enter hp rfl
    have hname := Passes.introduce hfirst (Node.at?_child hp 0)
    have hd := FunctionDecl.passes_analyze d (.inl rfl) (Node.at?_child hp 1) hname.fits
    have hboth := hname.trans hd (by omega) (by omega)
    exact .node h hp rfl (.idle hp (fun _ => id) rfl a) hboth
  | cls name superclass methods =>
    cases superclass with
    | none =>
      have hfirst : Fits root (p ++ [i] ++ [0]) fn .plain a := h.enter hp rfl
      have hname := Passes.introduce hfirst (Node.at?_child hp 0)
      have hmembers := Passes.members hname.fits (Node.at?_child hp 1)
        (FunctionDecl.passes_analyzeAll methods)
      have hboth := hname.trans hmembers (by omega) (by omega)
      exact .node h hp rfl (.idle hp (fun _ => id) rfl a) hboth
    | some ref =>
      have hfirst : Fits root (p ++ [i] ++ [0]) fn .derived a := h.enter hp rfl
      have hname := Passes.introduce hfirst (Node.at?_child hp 0)
      have hsuper := Passes.superclass hname.fits (Node.at?_child hp 1)
      have hderived : root.at? (p ++ [i] ++ [2]) = some (.derived methods) := Node.at?_child hp 2
      have hmembers := Passes.members (hsuper.fits.enter hderived rfl) (Node.at?_child hderived 0)
        (FunctionDecl.passes_analyzeAll methods)
      have hinner := Passes.node hsuper.fits hderived rfl
        (.idle hderived (fun _ => id) rfl _) hmembers
      have hall := (hname.trans hsuper (by omega) (by omega)).trans hinner (by omega) (by omega)
      exact .node h hp rfl (.idle hp (fun _ => id) rfl a) hall
  | ret keyword value =>
    have hown := Analysis.Covers.returned hp h.function a
    have hscopes : ((a.failIf (fn == .outside) keyword .returnOutside).failIf
        (value.isSome && fn == .initializer) keyword .returnFromInitializer).scopes = a.scopes := by
      rw [Analysis.scopes_failIf, Analysis.scopes_failIf]
    have hfirst := (h.keep hscopes).enter hp rfl
    cases value with
    | none => exact .node h hp rfl hown (.refl hfirst)
    | some e =>
      have he := Passes.expression hfirst hp (by simp) (Node.at?_child hp 0)
      exact .node h hp rfl hown he

theorem Stmt.passes_analyzeAll {fn : FunctionContext} {cls : ClassContext} (ss : List Stmt)
    {p : Place} {i : Nat} {a : Analysis}
    (hp : ∀ j s, ss[j]? = some s → root.at? (p ++ [i + j]) = some (.statement s))
    (h : Fits root (p ++ [i]) fn cls a) :
    Passes root p i (i + ss.length) fn cls a (Stmt.analyzeAll fn cls ss a) := by
  cases ss with
  | nil => exact .refl h
  | cons s ss =>
    have hs := Stmt.passes_analyze s (hp 0 s rfl) h
    have hss := Stmt.passes_analyzeAll ss (Node.at?_tail hp) hs.fits
    rw [Nat.add_right_comm] at hss
    exact hs.trans hss (by omega) (by simp only [List.length_cons]; omega)

/-- Functions and methods differ in the context of their bodies only. -/
theorem FunctionDecl.passes_analyze {fn : FunctionContext} {cls : ClassContext} {n : Node}
    (d : FunctionDecl) {p : Place} {i : Nat} {a : Analysis}
    (hn : n = .function d ∨ n = .method d) (hp : root.at? (p ++ [i]) = some n)
    (h : Fits root (p ++ [i]) fn cls a) :
    Passes root p i (i + 1) fn cls a (d.analyze (n.functionIn fn) cls a) := by
  cases d with
  | mk name parameters body =>
    have hfirst : Fits root (p ++ [i] ++ [0]) (n.functionIn fn) cls a.openScope := by
      rcases hn with rfl | rfl <;> exact h.enter hp rfl
    have hchildren : n.children = parameters.map .declaration ++ body.map .statement := by
      rcases hn with rfl | rfl <;> rfl
    have hparameters := Passes.parameters hfirst
      (Node.at?_children [] _ hp (by simpa using hchildren))
    have hbody := Stmt.passes_analyzeAll body
      (Node.at?_children (parameters.map .declaration) [] hp (by simpa using hchildren))
      (by simpa using hparameters.fits)
    rw [List.length_map] at hbody
    have hboth := hparameters.trans (by simpa using hbody) (by omega) (Nat.le_add_right _ _)
    have hk : n.children.length = 0 + parameters.length + body.length := by simp [hchildren]
    rcases hn with rfl | rfl
    · exact .node h hp hk (.idle hp (fun _ => id) rfl a) hboth
    · exact .node h hp hk (.idle hp (fun _ => id) rfl a) hboth

theorem FunctionDecl.passes_analyzeAll {fn : FunctionContext} {cls : ClassContext}
    (ds : List FunctionDecl) {p : Place} {i : Nat} {a : Analysis}
    (hp : ∀ j d, ds[j]? = some d → root.at? (p ++ [i + j]) = some (.method d))
    (h : Fits root (p ++ [i]) fn cls a) :
    Passes root p i (i + ds.length) fn cls a (FunctionDecl.analyzeAll cls ds a) := by
  cases ds with
  | nil => exact .refl h
  | cons d ds =>
    have hd := FunctionDecl.passes_analyze d (.inr rfl) (hp 0 d rfl) h
    have hds := FunctionDecl.passes_analyzeAll ds (Node.at?_tail hp) hd.fits
    rw [Nat.add_right_comm] at hds
    exact hd.trans hds (by omega) (by simp only [List.length_cons]; omega)

end

end Walk

namespace Program

/-- The analysis of a whole program finds what is to be found in it, wherever it stands. -/
theorem covers_analyze (program : Program) (distances : Distances) :
    Analysis.Covers (.program program) (fun _ => True) { distances }
      (program.analyze distances) := by
  have hroot : (Node.program program).at? [] = some (.program program) := rfl
  have hchildren : (Node.program program).children = [] ++ program.map .statement ++ [] := by
    simp [Node.children]
  have hfits : Fits (.program program) [] .outside .outside { distances } :=
    ⟨rfl, rfl, .nil, .nil⟩
  have hbody := Stmt.passes_analyzeAll program (Node.at?_children _ _ hroot hchildren)
    (hfits.enter hroot rfl)
  have hall := Analysis.Covers.node hroot (by simp [hchildren])
    (.idle hroot (fun _ => id) rfl _) hbody.covers
  exact hall.congr fun p n hp => by simp

/-- One error for each place at which a rule is broken. -/
theorem exists_found (program : Program) (distances : Distances) :
    ∃ found : List (Place × StaticError), (found.map Prod.fst).Nodup ∧
      (∀ p e, (p, e) ∈ found ↔ (Node.program program).Breaks p e) ∧
        (program.analyze distances).errors.toList = found.map Prod.snd := by
  obtain ⟨found, hnodup, hfound, herrors⟩ := (program.covers_analyze distances).errors
  simp only [true_and] at hfound
  refine ⟨found, ?_, hfound, by simpa using herrors⟩
  refine List.Nodup.map_on ?_ hnodup
  rintro ⟨p, e⟩ hmem ⟨_, e'⟩ hmem' rfl
  have heq := ((hfound _ _).1 hmem).unique ((hfound _ _).1 hmem')
  rw [heq]

theorem errors_eq_empty (program : Program) (distances : Distances) :
    (program.analyze distances).errors = #[] ↔ ∀ p e, ¬ (Node.program program).Breaks p e := by
  obtain ⟨found, -, hfound, herrors⟩ := program.exists_found distances
  rw [← Array.toList_eq_nil_iff, herrors, List.map_eq_nil_iff, List.eq_nil_iff_forall_not_mem]
  simp only [Prod.forall, hfound]

/-- The analysis reports one error for each place at which a rule is broken and no other, so that
the programs without an error are those in which no rule is broken. -/
theorem errors_exact (program : Program) (distances : Distances) :
    (∃ found : List (Place × StaticError), (found.map Prod.fst).Nodup ∧
      (∀ p e, (p, e) ∈ found ↔ (Node.program program).Breaks p e) ∧
        (program.analyze distances).errors.toList = found.map Prod.snd) ∧
      ((program.analyze distances).errors = #[] ↔
        ∀ p e, ¬ (Node.program program).Breaks p e) :=
  ⟨program.exists_found distances, program.errors_eq_empty distances⟩

end Program

end ClassScript
