import ClassScript.Proofs.Scoping.Lexical
import ClassScript.Proofs.Scoping.Resolution
import Mathlib.Data.List.Forall2

/-! # The analysis place by place

The analysis walks over the tree in the order of the text.  Wherever it is, its state says what the
place itself says: the open scopes are the scopes around the place and have the names declared
before it, and the contexts are those of the function and the class around it.  So on its way over a
part of the tree it finds what is broken in that part, each occurrence once, and records the
distances of the references in it.
-/
namespace ClassScript

namespace Node

variable {root n : Node} {p q : Place} {name : String} {i j k : Nat}

def functionContext (root : Node) (p : Place) : FunctionContext :=
  match root.function? p with
  | none => .outside
  | some (.method d) => methodContext d
  | some _ => .function

def classContext (root : Node) (p : Place) : ClassContext :=
  match root.class? p with
  | none => .outside
  | some (.statement (.cls _ (some _) _)) => .derived
  | some _ => .plain

/-- The context inside of a node in a context. -/
def functionIn (fn : FunctionContext) : Node → FunctionContext
  | function _ => .function
  | method d => methodContext d
  | _ => fn

def classIn (cls : ClassContext) : Node → ClassContext
  | statement (.cls _ none _) => .plain
  | statement (.cls _ (some _) _) => .derived
  | _ => cls

theorem functionContext_child (h : root.at? p = some n) (i : Nat) :
    root.functionContext (p ++ [i]) = n.functionIn (root.functionContext p) := by
  unfold functionContext
  rw [function?_child h]
  cases n <;> rfl

theorem classContext_child (h : root.at? p = some n) (i : Nat) :
    root.classContext (p ++ [i]) = n.classIn (root.classContext p) := by
  unfold classContext
  rw [class?_child h]
  cases n with
  | statement s =>
    cases s with
    | cls name superclass methods => cases superclass <;> rfl
    | _ => rfl
  | _ => rfl

/-- What each class context says of the innermost class. -/
theorem class?_cases (root : Node) (p : Place) :
    match root.classContext p with
    | .outside => root.class? p = none
    | .plain => ∃ name methods, root.class? p = some (.statement (.cls name none methods))
    | .derived =>
      ∃ name ref methods, root.class? p = some (.statement (.cls name (some ref) methods)) := by
  unfold classContext
  cases hclass : root.class? p with
  | none => rfl
  | some n =>
    have hn : n.isClass = true := List.find?_some hclass
    unfold isClass at hn
    split at hn
    next name superclass methods =>
      cases superclass with
      | none => exact ⟨name, methods, rfl⟩
      | some ref => exact ⟨name, ref, methods, rfl⟩
    next => cases hn

theorem functionContext_outside :
    root.functionContext p = .outside ↔ root.function? p = none := by
  unfold functionContext
  cases root.function? p with
  | none => simp
  | some n =>
    cases n with
    | method d => by_cases h : d.name.lexeme = initializerName <;> simp [methodContext, h]
    | _ => simp

theorem functionContext_initializer : root.functionContext p = .initializer ↔
    ∃ d, root.function? p = some (.method d) ∧ d.name.lexeme = initializerName := by
  unfold functionContext
  cases root.function? p with
  | none => simp
  | some n => cases n <;> simp [methodContext]

/-- The state of the analysis inside of a node. -/
def enter (n : Node) (a : Analysis) : Analysis :=
  if n.isScope then
    match n.implicit? with
    | none => a.openScope
    | some name => a.openScope.mark name true
  else a

def leave (n : Node) (a : Analysis) : Analysis := if n.isScope then a.closeScope else a

@[simp] theorem errors_enter (n : Node) (a : Analysis) : (n.enter a).errors = a.errors := by
  unfold enter
  split
  · split
    · rfl
    · rw [Analysis.errors_mark]
      rfl
  · rfl

@[simp] theorem distances_enter (n : Node) (a : Analysis) :
    (n.enter a).distances = a.distances := by
  unfold enter
  split
  · split
    · rfl
    · rw [Analysis.distances_mark]
      rfl
  · rfl

@[simp] theorem errors_leave (n : Node) (a : Analysis) : (n.leave a).errors = a.errors := by
  unfold leave
  split <;> rfl

@[simp] theorem distances_leave (n : Node) (a : Analysis) :
    (n.leave a).distances = a.distances := by
  unfold leave
  split <;> rfl

/-- The scopes around a place with the names that they have there. -/
def Shows (root : Node) (p : Place) (Γ : Scopes) : Prop :=
  List.Forall₂ (fun q scope => ∀ name, scope.contains name = true ↔ root.Holds q name p)
    (root.scopes p) Γ

theorem Shows.congr {p' : Place} {Γ : Scopes} (h : root.Shows p Γ)
    (hscopes : root.scopes p' = root.scopes p)
    (hdeclares : ∀ q name, root.Declares q name p' ↔ root.Declares q name p) :
    root.Shows p' Γ := by
  unfold Shows
  rw [hscopes]
  refine h.imp fun q scope hscope name => ?_
  rw [hscope name, Holds, Holds, hdeclares]

/-- The analysis finds the name in the scope where it is lexically. -/
theorem Shows.distance {Γ : Scopes} (h : root.Shows p Γ) (name : String) (d : Nat) :
    Γ.distance? name = some d ↔ root.Lexical p name d := by
  have hlength := h.length_eq
  have hget (j : Nat) (hj : j < Γ.length) :
      (Γ[j].contains name = true ↔ root.Holds (root.scopes p)[j] name p) :=
    h.get (by omega) hj name
  unfold Scopes.distance? Lexical
  rw [List.findIdx?_eq_some_iff_getElem]
  constructor
  · rintro ⟨hd, hcontains, hnot⟩
    refine ⟨⟨(root.scopes p)[d], List.getElem?_eq_getElem _, (hget d hd).1 hcontains⟩, ?_⟩
    intro j q hj hq hholds
    obtain ⟨hj', rfl⟩ := List.getElem?_eq_some_iff.1 hq
    exact hnot j hj ((hget j (by omega)).2 hholds)
  · rintro ⟨⟨q, hq, hholds⟩, hnot⟩
    obtain ⟨hd, rfl⟩ := List.getElem?_eq_some_iff.1 hq
    refine ⟨by omega, (hget d (by omega)).2 hholds, ?_⟩
    intro j hj hcontains
    exact hnot j _ hj (List.getElem?_eq_getElem (by omega)) ((hget j (by omega)).1 hcontains)

/-- What the analysis knows of the innermost scope. -/
theorem Shows.innermost {Γ : Scopes} (h : root.Shows p Γ) (name : String) :
    (Γ.innermost? name).isSome = true ↔
      ∃ q, (root.scopes p).head? = some q ∧ root.Holds q name p := by
  unfold Shows at h
  cases hscopes : root.scopes p with
  | nil =>
    rw [hscopes] at h
    cases h
    simp [Scopes.innermost?]
  | cons q qs =>
    rw [hscopes] at h
    cases h with
    | cons hscope hrest =>
      simpa [Scopes.innermost?, Bindings.contains] using hscope name

/-- The distance of the reference at a place, unless it is a `this` that belongs to no class. -/
def Records (root : Node) (p : Place) (ref : Reference) (d : Nat) : Prop :=
  root.Refers p ref ∧ root.Lexical p ref.name.lexeme d ∧ ∀ t, ¬ root.Breaks p ⟨t, .thisOutside⟩

theorem no_records (hp : root.at? p = some n) (href : n.reference? = none) (id d : Nat) :
    (∃ ref, root.Records p ref d ∧ ref.id = id) ↔ none = some (id, d) := by
  constructor
  · rintro ⟨ref, ⟨⟨m, hm, hmref⟩, -⟩, -⟩
    obtain rfl := Option.some.inj (hp.symm.trans hm)
    rw [href] at hmref
    cases hmref
  · intro h
    cases h

theorem records_iff {Γ : Scopes} {ref : Reference} (hp : root.at? p = some n)
    (href : n.reference? = some ref) (hshows : root.Shows p Γ)
    (hthis : ∀ t, ¬ root.Breaks p ⟨t, .thisOutside⟩) (id d : Nat) :
    (∃ ref, root.Records p ref d ∧ ref.id = id) ↔
      (Γ.distance? ref.name.lexeme).map (ref.id, ·) = some (id, d) := by
  simp only [Option.map_eq_some_iff, Prod.mk.injEq]
  constructor
  · rintro ⟨ref', ⟨⟨m, hm, hmref⟩, hlexical, -⟩, rfl⟩
    obtain rfl := Option.some.inj (hp.symm.trans hm)
    obtain rfl := Option.some.inj (href.symm.trans hmref)
    exact ⟨d, (hshows.distance _ d).2 hlexical, rfl, rfl⟩
  · rintro ⟨d, hd, rfl, rfl⟩
    exact ⟨ref, ⟨⟨n, hp, href⟩, (hshows.distance _ d).1 hd, hthis⟩, rfl⟩

end Node

/-- Distances with more entries, the later ones on top. -/
def Distances.insertAll (distances : Distances) (entries : List (Nat × Nat)) : Distances :=
  entries.foldl (fun distances entry => distances.insert entry.1 entry.2) distances

namespace Analysis

theorem distances_record (a : Analysis) (ref : Reference) :
    (a.record ref).distances =
      a.distances.insertAll ((a.distance? ref.name.lexeme).map (ref.id, ·)).toList := by
  unfold record
  split
  next hnone => rw [hnone]; rfl
  next d hsome => rw [hsome]; rfl

/-- On the way from one state to the other the analysis finds every rule that is broken at the given
places and every distance to be recorded there, and nothing else. -/
structure Covers (root : Node) (P : Place → Prop) (a a' : Analysis) : Prop where
  errors : ∃ found : List (Place × StaticError), found.Nodup ∧
    (∀ p e, (p, e) ∈ found ↔ P p ∧ root.Breaks p e) ∧
      a'.errors.toList = a.errors.toList ++ found.map Prod.snd
  distances : ∃ found : List (Nat × Nat),
    (∀ id d, (id, d) ∈ found ↔ ∃ p ref, P p ∧ root.Records p ref d ∧ ref.id = id) ∧
      a'.distances = a.distances.insertAll found

namespace Covers

variable {root n : Node} {P Q : Place → Prop} {a a' a'' : Analysis} {p : Place} {i j k : Nat}

/-- Only the errors and the distances of the two states matter. -/
theorem of_eq {b b' : Analysis} (h : Covers root P a a') (herrors : b.errors = a.errors)
    (hdistances : b.distances = a.distances) (herrors' : b'.errors = a'.errors)
    (hdistances' : b'.distances = a'.distances) : Covers root P b b' := by
  constructor
  · rw [herrors, herrors']
    exact h.errors
  · rw [hdistances, hdistances']
    exact h.distances

theorem union (h : Covers root P a a') (h' : Covers root Q a' a'') (hdisjoint : ∀ p, P p → ¬ Q p) :
    Covers root (fun p => P p ∨ Q p) a a'' where
  errors := by
    obtain ⟨found, hnodup, hfound, herrors⟩ := h.errors
    obtain ⟨found', hnodup', hfound', herrors'⟩ := h'.errors
    refine ⟨found ++ found', ?_, fun p e => ?_, ?_⟩
    · refine List.nodup_append.2 ⟨hnodup, hnodup', ?_⟩
      rintro ⟨p, e⟩ hmem ⟨p', e'⟩ hmem' heq
      obtain ⟨rfl, rfl⟩ := Prod.mk.inj heq
      exact hdisjoint p ((hfound p e).1 hmem).1 ((hfound' p e).1 hmem').1
    · rw [List.mem_append, hfound, hfound', or_and_right]
    · rw [herrors', herrors, List.map_append, List.append_assoc]
  distances := by
    obtain ⟨found, hfound, hdistances⟩ := h.distances
    obtain ⟨found', hfound', hdistances'⟩ := h'.distances
    refine ⟨found ++ found', fun id d => ?_, ?_⟩
    · rw [List.mem_append, hfound, hfound']
      simp only [or_and_right, exists_or]
    · rw [hdistances', hdistances, Distances.insertAll, Distances.insertAll, Distances.insertAll,
        List.foldl_append]

/-- Only places at which there is a node matter. -/
theorem congr (h : Covers root P a a') (hiff : ∀ p n, root.at? p = some n → (P p ↔ Q p)) :
    Covers root Q a a' where
  errors := by
    obtain ⟨found, hnodup, hfound, herrors⟩ := h.errors
    refine ⟨found, hnodup, fun p e => ?_, herrors⟩
    rw [hfound]
    apply and_congr_left
    intro hbreaks
    obtain ⟨n, hn⟩ := hbreaks.exists_at
    exact hiff p n hn
  distances := by
    obtain ⟨found, hfound, hdistances⟩ := h.distances
    refine ⟨found, fun id d => ?_, hdistances⟩
    rw [hfound]
    apply exists_congr
    intro p
    apply exists_congr
    intro ref
    apply and_congr_left
    rintro ⟨⟨⟨n, hn, -⟩, -⟩, -⟩
    exact hiff p n hn

/-- Nothing is found at no place. -/
theorem nothing (root : Node) (p : Place) (i : Nat) (a : Analysis) :
    Covers root (Place.Between p i i) a a := by
  have hnot (q : Place) : ¬ Place.Between p i i q := by
    rintro ⟨j, hi, hj, -⟩
    omega
  exact ⟨⟨[], List.nodup_nil, by simp [hnot], by simp⟩, ⟨[], by simp [hnot], rfl⟩⟩

theorem between (h : Covers root (Place.Between p i j) a a')
    (h' : Covers root (Place.Between p j k) a' a'') (hij : i ≤ j) (hjk : j ≤ k) :
    Covers root (Place.Between p i k) a a'' := by
  have hunion := h.union h' fun q hq hq' => Place.between_disjoint (Nat.le_refl j) hq hq'
  exact hunion.congr fun q n hn => (Place.between_or hij hjk q).symm

/-- What is found at a node and at its children is what is found inside of the node. -/
theorem node (hp : root.at? p = some n) (hk : n.children.length = k)
    (hown : Covers root (· = p) a a') (hchildren : Covers root (Place.Between p 0 k) a' a'') :
    Covers root (p <+: ·) a a'' := by
  subst hk
  have hunion := hown.union hchildren fun q hq hbetween => by
    subst hq
    exact Place.not_between_self _ _ _ hbetween
  exact hunion.congr fun q m hq => (Node.prefix_iff hp hq).symm

/-- At a single place there is at most one error and at most one distance. -/
theorem own (fault? : Option StaticError) (pair? : Option (Nat × Nat))
    (hfault : ∀ e, root.Breaks p e ↔ fault? = some e)
    (hpair : ∀ id d, (∃ ref, root.Records p ref d ∧ ref.id = id) ↔ pair? = some (id, d))
    (herrors : a'.errors.toList = a.errors.toList ++ fault?.toList)
    (hdistances : a'.distances = a.distances.insertAll pair?.toList) :
    Covers root (· = p) a a' where
  errors := by
    refine ⟨fault?.toList.map (p, ·), ?_, fun q e => ?_, ?_⟩
    · cases fault? <;> simp
    · simp only [List.mem_map, Option.mem_toList, Prod.mk.injEq]
      constructor
      · rintro ⟨e, he, rfl, rfl⟩
        exact ⟨rfl, (hfault e).2 he⟩
      · rintro ⟨rfl, hbreaks⟩
        exact ⟨e, (hfault e).1 hbreaks, rfl, rfl⟩
    · simp [herrors, Function.comp_def]
  distances := by
    refine ⟨pair?.toList, fun id d => ?_, hdistances⟩
    rw [Option.mem_toList, ← hpair]
    constructor
    · rintro ⟨ref, hrecords⟩
      exact ⟨p, ref, rfl, hrecords⟩
    · rintro ⟨_, ref, rfl, hrecords⟩
      exact ⟨ref, hrecords⟩

/-- The state may change without a trace where no rule can be broken and no reference stands. -/
theorem idle (hp : root.at? p = some n) (hbroken : ∀ e, ¬ root.BrokenAt p n e)
    (href : n.reference? = none) (a : Analysis) : Covers root (· = p) a a := by
  refine own none none (fun e => ?_) (fun id d => ?_) (by simp) rfl
  · rw [Node.breaks_iff hp]
    simp [hbroken e]
  · exact Node.no_records hp href id d

/-- The node itself may also be looked at behind its children. -/
theorem node_after (hp : root.at? p = some n) (hk : n.children.length = k)
    (hchildren : Covers root (Place.Between p 0 k) a a') (hown : Covers root (· = p) a' a'') :
    Covers root (p <+: ·) a a'' := by
  subst hk
  have hunion := hchildren.union hown fun q hbetween hq => by
    subst hq
    exact Place.not_between_self _ _ _ hbetween
  exact hunion.congr fun q m hq => (or_comm.trans (Node.prefix_iff hp hq).symm)

theorem child (h : Covers root (p ++ [i] <+: ·) a a') :
    Covers root (Place.Between p i (i + 1)) a a' :=
  h.congr fun q _ _ => (Place.between_one p i q).symm

/-- A reference at which no rule can be broken is recorded. -/
theorem record {ref : Reference} (hp : root.at? p = some n) (href : n.reference? = some ref)
    (hshows : root.Shows p a.scopes) (hbroken : ∀ e, ¬ root.BrokenAt p n e) :
    Covers root (· = p) a (a.record ref) := by
  have hbreaks (e : StaticError) : ¬ root.Breaks p e := by
    rw [Node.breaks_iff hp]
    exact hbroken e
  refine own none _ (fun e => ?_) (Node.records_iff hp href hshows fun t => hbreaks _) (by simp)
    (a.distances_record ref)
  simp [hbreaks e]

/-- A reference at which a rule is broken, if it is not a `this`, is recorded all the same. -/
theorem fail_record {ref : Reference} (broken : Bool) (cause : StaticCause)
    (hp : root.at? p = some n) (href : n.reference? = some ref) (hshows : root.Shows p a.scopes)
    (hcause : cause ≠ .thisOutside)
    (hbroken : ∀ e, root.BrokenAt p n e ↔ broken = true ∧ e = ⟨ref.name, cause⟩) :
    Covers root (· = p) a ((a.failIf broken ref.name cause).record ref) := by
  have hbreaks (e : StaticError) : root.Breaks p e ↔ broken = true ∧ e = ⟨ref.name, cause⟩ := by
    rw [Node.breaks_iff hp, hbroken]
  refine own (if broken then some ⟨ref.name, cause⟩ else none) _ (fun e => ?_)
    (Node.records_iff hp href hshows fun t ht => ?_) ?_ ?_
  · rw [hbreaks]
    cases broken <;> simp [eq_comm]
  · have heq := ((hbreaks _).1 ht).2
    exact hcause (StaticError.mk.inj heq).2.symm
  · rw [errors_record]
    cases broken <;> simp [failIf, fail]
  · rw [distances_record, distances_failIf, distance?_eq, scopes_failIf]

end Covers

/-- Inside of an expression the state shows the scopes, and the name that may not be read yet is the
one that is given its first value. -/
structure Stands (root : Node) (p : Place) (cls : ClassContext) (a : Analysis) : Prop where
  cls : root.classContext p = cls
  names : root.Shows p a.scopes
  pending : ∀ name, a.innermost? name = some false ↔ root.InInitial name p

namespace Stands

variable {root : Node} {p : Place} {cls : ClassContext} {a a' : Analysis}

theorem keep (h : Stands root p cls a) (hscopes : a'.scopes = a.scopes) : Stands root p cls a' where
  cls := h.cls
  names := hscopes ▸ h.names
  pending := by
    intro name
    rw [innermost?_eq, hscopes, ← innermost?_eq]
    exact h.pending name

theorem child {e : Expr} (h : Stands root p cls a) (hp : root.at? p = some (.expression e))
    (i : Nat) : Stands root (p ++ [i]) cls a where
  cls := (Node.classContext_child hp i).trans h.cls
  names := h.names.congr (Node.scopes_child hp i) fun q name => Node.declares_expression hp i
  pending := by
    intro name
    rw [h.pending]
    exact (Node.inInitial_expression hp i).symm

end Stands

end Analysis

open Analysis (Covers Stands)

section Walk

variable {root : Node}

mutual

theorem Expr.covers_analyze {cls : ClassContext} (e : Expr) {p : Place} {a : Analysis}
    (hp : root.at? p = some (.expression e)) (h : Stands root p cls a) :
    Covers root (p <+: ·) a (e.analyze cls a) := by
  have hchild (i : Nat) := h.child hp i
  cases e with
  | constant value =>
    exact .node hp rfl (.idle hp (fun _ => id) rfl a) (.nothing root p 0 a)
  | grouping e | unary _ e | get e _ =>
    have he := Expr.covers_analyze e (Node.at?_child hp 0) (hchild 0)
    exact .node hp rfl (.idle hp (fun _ => id) rfl a) he.child
  | binary l _ r | logical l _ r =>
    have hl := Expr.covers_analyze l (Node.at?_child hp 0) (hchild 0)
    have hr := Expr.covers_analyze r (Node.at?_child hp 1)
      ((hchild 1).keep (l.moves_analyze cls a).scopes)
    have hboth := hl.child.between hr.child (by omega) (by omega)
    exact .node hp rfl (.idle hp (fun _ => id) rfl a) hboth
  | «variable» ref =>
    refine .node hp rfl (.fail_record _ _ hp rfl h.names (by simp) ?_) (.nothing root p 0 _)
    intro e
    simp [Node.BrokenAt, h.pending]
  | assign target e =>
    have he := Expr.covers_analyze e (Node.at?_child hp 0) (hchild 0)
    have hscopes := (e.moves_analyze cls a).scopes
    exact .node_after hp rfl he.child (.record hp rfl (hscopes ▸ h.names) fun _ => id)
  | call f paren es =>
    have hf := Expr.covers_analyze f (Node.at?_child hp 0) (hchild 0)
    have hchildren : (Node.expression (.call f paren es)).children =
        [.expression f] ++ es.map .expression ++ [] := by simp [Node.children, Expr.parts]
    have hes := Expr.covers_analyzeAll es hp (Node.at?_children _ _ hp hchildren)
      (h.keep (f.moves_analyze cls a).scopes)
    have hboth := hf.child.between hes (by omega) (Nat.le_add_right _ _)
    exact .node hp (by simp [hchildren, Nat.add_comm]) (.idle hp (fun _ => id) rfl a) hboth
  | set e _ v =>
    have hv := Expr.covers_analyze v (Node.at?_child hp 1) (hchild 1)
    have he := Expr.covers_analyze e (Node.at?_child hp 0)
      ((hchild 0).keep (v.moves_analyze cls a).scopes)
    -- the value is looked at before the object
    have hboth := hv.child.union he.child fun q hq hq' =>
      Place.between_disjoint (Nat.le_refl 1) hq' hq
    have hsame (q : Place) : Place.Between p 1 2 q ∨ Place.Between p 0 1 q ↔
        Place.Between p 0 2 q :=
      or_comm.trans (Place.between_or (by omega) (by omega) q).symm
    exact .node hp rfl (.idle hp (fun _ => id) rfl a) (hboth.congr fun q _ _ => hsame q)
  | this ref =>
    refine .node_after hp rfl (.nothing root p 0 a) ?_
    have hclass := root.class?_cases p
    rw [h.cls] at hclass
    rw [Expr.analyze]
    split
    next houtside =>
      subst houtside
      have hbreaks (e : StaticError) :
          root.Breaks p e ↔ some ⟨ref.name, .thisOutside⟩ = some e := by
        rw [Node.breaks_iff hp]
        simp [Node.BrokenAt, show root.class? p = none from hclass, eq_comm]
      refine .own _ none hbreaks (fun id d => ?_) (by simp [Analysis.fail]) rfl
      constructor
      · rintro ⟨ref', ⟨-, -, hthis⟩, -⟩
        exact absurd ((hbreaks _).2 rfl) (hthis ref.name)
      · intro heq
        cases heq
    next hinside =>
      refine .record hp rfl h.names ?_
      rintro e ⟨hnone, -⟩
      cases cls <;> simp_all
  | super ref method =>
    refine .node_after hp rfl (.nothing root p 0 a) ?_
    have hclass := root.class?_cases p
    rw [h.cls] at hclass
    cases cls with
    | outside =>
      refine .fail_record true .superOutside hp rfl h.names (by simp) ?_
      intro e
      simp [Node.BrokenAt, show root.class? p = none from hclass]
    | plain =>
      obtain ⟨name, methods, hclass⟩ := hclass
      refine .fail_record true .superUnderived hp rfl h.names (by simp) ?_
      intro e
      simp [Node.BrokenAt, hclass]
    | derived =>
      obtain ⟨name, superclass, methods, hclass⟩ := hclass
      refine .record hp rfl h.names ?_
      intro e
      simp [Node.BrokenAt, hclass]

theorem Expr.covers_analyzeAll {cls : ClassContext} (es : List Expr) {p : Place} {i : Nat}
    {a : Analysis} {parent : Expr} (hparent : root.at? p = some (.expression parent))
    (hp : ∀ j e, es[j]? = some e → root.at? (p ++ [i + j]) = some (.expression e))
    (h : Stands root p cls a) :
    Covers root (Place.Between p i (i + es.length)) a (Expr.analyzeAll cls es a) := by
  cases es with
  | nil => exact .nothing root p i a
  | cons e es =>
    have he := Expr.covers_analyze e (hp 0 e rfl) (h.child hparent i)
    have hes := Expr.covers_analyzeAll es hparent (Node.at?_tail hp)
      (h.keep (e.moves_analyze cls a).scopes)
    rw [Nat.add_right_comm] at hes
    exact he.child.between hes (by omega) (by simp only [List.length_cons]; omega)

end

end Walk

end ClassScript
