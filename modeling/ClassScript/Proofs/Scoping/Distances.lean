import ClassScript.Proofs.Reading.Program
import ClassScript.Proofs.Scoping.Violations
import ClassScript.Source.Item
import Mathlib.Data.Nat.Find

/-! # The recorded distances

In a program that was read, no two references have the same identity.  So what the analysis records
under the identity of a reference was found at the place of that reference, and in a program without
errors the recorded distances are those that the places themselves give.
-/
namespace ClassScript

/-- What two members of a list yield differs if all that the members yield does. -/
theorem index_unique_of_nodup {α β : Type} {f : α → List β} {xs : List α}
    (h : (xs.flatMap f).Nodup) {i j : Nat} {x y : α} (hi : xs[i]? = some x) (hj : xs[j]? = some y)
    {b : β} (hx : b ∈ f x) (hy : b ∈ f y) : i = j := by
  obtain ⟨hilt, rfl⟩ := List.getElem?_eq_some_iff.1 hi
  obtain ⟨hjlt, rfl⟩ := List.getElem?_eq_some_iff.1 hj
  have hapart := List.pairwise_iff_getElem.1 (List.nodup_flatMap.1 h).2
  rcases Nat.lt_trichotomy i j with hlt | heq | hgt
  · exact (hapart i j hilt hjlt hlt hx hy).elim
  · exact heq
  · exact (hapart j i hjlt hilt hgt hy hx).elim

namespace Node

variable {root n : Node} {p q : Place} {name : String} {ref ref' : Reference}

/-- The identities of the references inside a node. -/
def ids : Node → List Nat
  | program body => Stmt.idsAll body
  | statement s => s.ids
  | expression e => e.ids
  | declaration _ => []
  | superclass ref _ => [ref.id]
  | function d | method d => d.ids
  | members methods | derived methods => FunctionDecl.idsAll methods

theorem flatMap_expressions (es : List Expr) :
    (es.map expression).flatMap ids = Expr.idsAll es := by
  induction es with
  | nil => rfl
  | cons e es ih => simp [Expr.idsAll, ids, ← ih]

theorem flatMap_statements (ss : List Stmt) :
    (ss.map statement).flatMap ids = Stmt.idsAll ss := by
  induction ss with
  | nil => rfl
  | cons s ss ih => simp [Stmt.idsAll, ids, ← ih]

theorem flatMap_methods (ds : List FunctionDecl) :
    (ds.map method).flatMap ids = FunctionDecl.idsAll ds := by
  induction ds with
  | nil => rfl
  | cons d ds ih => simp [FunctionDecl.idsAll, ids, ← ih]

theorem flatMap_nodes (d : FunctionDecl) : d.nodes.flatMap ids = d.ids := by
  cases d with
  | mk name parameters body =>
    have hparameters : (parameters.map declaration).flatMap ids = [] := by simp [ids]
    simp [FunctionDecl.nodes, FunctionDecl.parameters, FunctionDecl.body, List.flatMap_append,
      hparameters, flatMap_statements, FunctionDecl.ids]

theorem perm_expression (e : Expr) :
    e.ids.Perm (((expression e).reference?.map Reference.id).toList ++
      (expression e).children.flatMap ids) := by
  cases e with
  | call f paren es =>
    simp [Expr.ids, reference?, children, Expr.parts, ids, ← flatMap_expressions]
  | _ => simp [Expr.ids, reference?, children, Expr.parts, ids]

theorem perm_statement (s : Stmt) : s.ids.Perm ((statement s).children.flatMap ids) := by
  cases s with
  | var name initial => cases initial <;> simp [Stmt.ids, Expr.idsOption, children, Stmt.nodes, ids]
  | block body => simp [Stmt.ids, children, Stmt.nodes, flatMap_statements]
  | branch c s negative => cases negative <;> simp [Stmt.ids, children, Stmt.nodes, ids]
  | cls name superclass methods =>
    cases superclass <;> simp [Stmt.ids, children, Stmt.nodes, ids]
  | ret keyword value => cases value <;> simp [Stmt.ids, Expr.idsOption, children, Stmt.nodes, ids]
  | _ => simp [Stmt.ids, children, Stmt.nodes, ids]

/-- The identities inside a node are its own and those inside its children. -/
theorem perm_ids (n : Node) :
    n.ids.Perm ((n.reference?.map Reference.id).toList ++ n.children.flatMap ids) := by
  cases n with
  | expression e => exact perm_expression e
  | statement s => exact perm_statement s
  | program body => simp [ids, reference?, children, flatMap_statements]
  | function d | method d => simp [ids, reference?, children, flatMap_nodes]
  | members methods => simp [ids, reference?, children, flatMap_methods]
  | _ => simp [ids, reference?, children]

theorem refers_nil : root.Refers [] ref ↔ root.reference? = some ref := by
  simp [Refers, at?]

theorem refers_cons {i : Nat} (h : root.Refers (i :: p) ref) :
    ∃ child, root.children[i]? = some child ∧ child.Refers p ref := by
  obtain ⟨n, hn, href⟩ := h
  obtain ⟨child, hchild, hrest⟩ := Option.bind_eq_some_iff.1 hn
  exact ⟨child, hchild, n, hrest, href⟩

theorem Refers.mem_ids (h : root.Refers p ref) : ref.id ∈ root.ids := by
  induction p generalizing root with
  | nil =>
    rw [(perm_ids root).mem_iff, refers_nil.1 h]
    simp
  | cons i p ih =>
    obtain ⟨child, hchild, hrefers⟩ := refers_cons h
    rw [(perm_ids root).mem_iff, List.mem_append, List.mem_flatMap]
    exact .inr ⟨child, List.mem_of_getElem? hchild, ih hrefers⟩

theorem Refers.unique (h : root.Refers p ref) (h' : root.Refers p ref') : ref = ref' := by
  obtain ⟨n, hn, href⟩ := h
  obtain ⟨n', hn', href'⟩ := h'
  obtain rfl : n = n' := by simpa [hn] using hn'
  simpa [href] using href'

/-- The identity of a node is not used inside of it. -/
theorem Refers.not_below {i : Nat} (hnodup : root.ids.Nodup) (h : root.Refers [] ref)
    (h' : root.Refers (i :: q) ref') : ref.id ≠ ref'.id := by
  rw [(perm_ids root).nodup_iff, List.nodup_append, refers_nil.1 h] at hnodup
  obtain ⟨child, hchild, hrefers⟩ := refers_cons h'
  apply hnodup.2.2
  · simp
  · exact List.mem_flatMap.2 ⟨child, List.mem_of_getElem? hchild, hrefers.mem_ids⟩

/-- Where all identities differ, an identity has one place. -/
theorem Refers.place_unique (hnodup : root.ids.Nodup) (h : root.Refers p ref)
    (h' : root.Refers q ref') (hid : ref.id = ref'.id) : p = q := by
  induction p generalizing root q with
  | nil =>
    cases q with
    | nil => rfl
    | cons j q => exact absurd hid (h.not_below hnodup h')
  | cons i p ih =>
    cases q with
    | nil => exact absurd hid.symm (h'.not_below hnodup h)
    | cons j q =>
      obtain ⟨child, hchild, hrefers⟩ := refers_cons h
      obtain ⟨child', hchild', hrefers'⟩ := refers_cons h'
      rw [(perm_ids root).nodup_iff, List.nodup_append] at hnodup
      have hmem := hrefers.mem_ids
      have hmem' := hid ▸ hrefers'.mem_ids
      obtain rfl := index_unique_of_nodup hnodup.2.1 hchild hchild' hmem hmem'
      obtain rfl : child = child' := by simpa [hchild] using hchild'
      have hinner := (List.nodup_flatMap.1 hnodup.2.1).1 child (List.mem_of_getElem? hchild)
      rw [ih hinner hrefers hrefers']

theorem Lexical.unique {d d' : Nat} (h : root.Lexical p name d) (h' : root.Lexical p name d') :
    d = d' := by
  obtain ⟨⟨q, hq, hholds⟩, hnot⟩ := h
  obtain ⟨⟨q', hq', hholds'⟩, hnot'⟩ := h'
  rcases Nat.lt_trichotomy d d' with hlt | heq | hgt
  · exact (hnot' d q hlt hq hholds).elim
  · exact heq
  · exact (hnot d' q' hgt hq' hholds').elim

open Classical in
/-- Some distance is the lexical one as soon as one of the scopes has the name. -/
theorem exists_lexical :
    (∃ d, root.Lexical p name d) ↔ ∃ q ∈ root.scopes p, root.Holds q name p := by
  constructor
  · rintro ⟨d, ⟨q, hq, hholds⟩, -⟩
    exact ⟨q, List.mem_of_getElem? hq, hholds⟩
  · rintro ⟨q, hmem, hholds⟩
    have hsome : ∃ (d : Nat) (q : Place), (root.scopes p)[d]? = some q ∧ root.Holds q name p := by
      obtain ⟨d, hd⟩ := List.mem_iff_getElem?.1 hmem
      exact ⟨d, q, hd, hholds⟩
    refine ⟨Nat.find hsome, Nat.find_spec hsome, ?_⟩
    intro i q hi hq hholds
    exact Nat.find_min hsome hi ⟨q, hq, hholds⟩

end Node

/-- What stands under an identity after more entries: one of them, or what stood there before. -/
theorem Distances.insertAll_cases (distances : Distances) (entries : List (Nat × Nat)) (id : Nat) :
    (∃ d, (id, d) ∈ entries ∧ (distances.insertAll entries)[id]? = some d) ∨
      (∀ d, (id, d) ∉ entries) ∧ (distances.insertAll entries)[id]? = distances[id]? := by
  induction entries generalizing distances with
  | nil => exact .inr ⟨by simp, rfl⟩
  | cons entry entries ih =>
    have hcons : distances.insertAll (entry :: entries) =
        Distances.insertAll (distances.insert entry.1 entry.2) entries := rfl
    rw [hcons]
    rcases ih (distances.insert entry.1 entry.2) with ⟨d, hmem, hd⟩ | ⟨hnone, hsame⟩
    · exact .inl ⟨d, List.mem_cons_of_mem _ hmem, hd⟩
    · rw [Std.TreeMap.getElem?_insert] at hsame
      by_cases hid : entry.1 = id
      · subst hid
        exact .inl ⟨entry.2, List.mem_cons_self, by simpa using hsame⟩
      · refine .inr ⟨?_, by simpa [hid] using hsame⟩
        intro d hmem
        rcases List.mem_cons.1 hmem with rfl | hmem
        · exact hid rfl
        · exact hnone d hmem

namespace Program

variable {program : Program} {distances : Distances}

/-- Under an identity stands the distance of a reference that has it, or what stood there before. -/
theorem distances_analyze (program : Program) (distances : Distances) (id : Nat) :
    (∃ p ref d, (Node.program program).Records p ref d ∧ ref.id = id ∧
      (program.analyze distances).distances[id]? = some d) ∨
    (∀ p ref d, (Node.program program).Records p ref d → ref.id ≠ id) ∧
      (program.analyze distances).distances[id]? = distances[id]? := by
  obtain ⟨found, hfound, hdistances⟩ := (program.covers_analyze distances).distances
  rw [hdistances]
  rcases Distances.insertAll_cases distances found id with ⟨d, hmem, hd⟩ | ⟨hnone, hsame⟩
  · obtain ⟨p, ref, -, hrecords, hid⟩ := (hfound id d).1 hmem
    exact .inl ⟨p, ref, d, hrecords, hid, hd⟩
  · refine .inr ⟨?_, hsame⟩
    intro p ref d hrecords hid
    exact hnone d ((hfound id d).2 ⟨p, ref, trivial, hrecords, hid⟩)

/-- In a program without errors every lexical distance is recorded. -/
theorem recorded (herrors : (program.analyze distances).errors = #[]) (id : Nat) :
    (∃ p ref d, (Node.program program).Refers p ref ∧ ref.id = id ∧
      (Node.program program).Lexical p ref.name.lexeme d ∧
        (program.analyze distances).distances[id]? = some d) ∨
    (∀ p ref d, (Node.program program).Refers p ref → ref.id = id →
      ¬ (Node.program program).Lexical p ref.name.lexeme d) ∧
        (program.analyze distances).distances[id]? = distances[id]? := by
  have hvalid := (program.errors_eq_empty distances).1 herrors
  rcases program.distances_analyze distances id with
    ⟨p, ref, d, ⟨hrefers, hlexical, -⟩, hid, hd⟩ | ⟨hnone, hsame⟩
  · exact .inl ⟨p, ref, d, hrefers, hid, hlexical, hd⟩
  · refine .inr ⟨?_, hsame⟩
    intro p ref d hrefers hid hlexical
    exact hnone p ref d ⟨hrefers, hlexical, fun t => hvalid p _⟩ hid

/-- In a program that was read, without errors and whose identities are new, each reference is
recorded with the distance to the innermost scope around it that has its name, and with none if
there is no such scope; nothing else is recorded. -/
theorem distances_lexical {nextId : Nat} {tokens : List Token}
    (hread : (ofTokens nextId tokens).outcome = .ok program)
    (hnew : ∀ p ref, (Node.program program).Refers p ref → distances[ref.id]? = none)
    (herrors : (program.analyze distances).errors = #[]) :
    (∀ p ref, (Node.program program).Refers p ref →
      (∀ d, (program.analyze distances).distances[ref.id]? = some d ↔
        (Node.program program).Lexical p ref.name.lexeme d) ∧
      ((program.analyze distances).distances[ref.id]? = none ↔
        ∀ q ∈ (Node.program program).scopes p,
          ¬ (Node.program program).Holds q ref.name.lexeme p)) ∧
    ∀ id, (∀ p ref, (Node.program program).Refers p ref → ref.id ≠ id) →
      (program.analyze distances).distances[id]? = distances[id]? := by
  have hspec := (ofTokens_spec nextId tokens).2
  rw [hread] at hspec
  have hnodup : (Node.program program).ids.Nodup := hspec.2.nodup
  refine ⟨fun p ref hrefers => ?_, fun id hother => ?_⟩
  · rcases recorded herrors ref.id with ⟨p', ref', d, hrefers', hid, hlexical, hd⟩ | ⟨hnone, hsame⟩
    · obtain rfl := hrefers.place_unique hnodup hrefers' hid.symm
      obtain rfl := hrefers.unique hrefers'
      have hheld := Node.exists_lexical.1 ⟨d, hlexical⟩
      rw [hd]
      refine ⟨fun d' => ?_, by simpa using hheld⟩
      rw [Option.some.injEq]
      constructor
      · rintro rfl
        exact hlexical
      · exact hlexical.unique
    · have hheld : ¬ ∃ d, (Node.program program).Lexical p ref.name.lexeme d := by
        rintro ⟨d, hlexical⟩
        exact hnone p ref d hrefers rfl hlexical
      rw [hsame, hnew p ref hrefers]
      refine ⟨fun d => ?_, ?_⟩
      · simpa using fun hlexical => hheld ⟨d, hlexical⟩
      · rw [Node.exists_lexical] at hheld
        simpa using hheld
  · rcases recorded herrors id with ⟨p, ref, d, hrefers, hid, -⟩ | ⟨-, hsame⟩
    · exact absurd hid (hother p ref hrefers)
    · exact hsame

/-- In a local class with a superclass, `super` is two scopes out of the scope of a method, and the
superclass is a global name. -/
theorem distances_lexical_derived :
    let tokens := Source.tokens "{class A<B{m(){super.m;}}}"
    let distances : Distances := (∅ : Distances).insert 9 4
    ∃ program, (ofTokens 0 tokens).outcome = .ok program ∧
      (program.analyze distances).errors = #[] ∧
      (Node.program program).Lexical [0, 0, 2, 0, 0, 0, 0] "super" 2 ∧
      (∀ q ∈ (Node.program program).scopes [0, 0, 1],
        ¬ (Node.program program).Holds q "B" [0, 0, 1]) ∧
      (program.analyze distances).distances[9]? = some 4 := by
  intro tokens distances
  have hfacts : ((ofTokens 0 tokens).outcome.toOption.any fun (program : Program) => decide
      ((program.analyze distances).errors = #[] ∧ Stmt.idsAll program = [0, 1] ∧
        ((Node.program program).at? [0, 0, 2, 0, 0, 0, 0]).bind Node.reference? =
          some ⟨⟨.superWord, "super", none, 1⟩, 1⟩ ∧
        ((Node.program program).at? [0, 0, 1]).bind Node.reference? =
          some ⟨⟨.identifier, "B", none, 1⟩, 0⟩ ∧
        (program.analyze distances).distances[1]? = some 2 ∧
        (program.analyze distances).distances[0]? = none)) = true := by
    decide +kernel
  obtain ⟨program, hoption, hall⟩ := (Option.any_eq_true _ _).1 hfacts
  obtain ⟨herrors, hids, hsuper, hsuperclass, htwo, hnone⟩ := of_decide_eq_true hall
  have hread : (ofTokens 0 tokens).outcome = .ok program := by
    cases houtcome : (ofTokens 0 tokens).outcome with
    | error reports => simp [houtcome, Except.toOption] at hoption
    | ok p => simpa [houtcome, Except.toOption] using hoption
  have hown (p : Place) (ref : Reference) (h : (Node.program program).Refers p ref) :
      ref.id = 0 ∨ ref.id = 1 := by
    have hmem : ref.id ∈ Stmt.idsAll program := h.mem_ids
    simpa [hids] using hmem
  have hnew (p : Place) (ref : Reference) (h : (Node.program program).Refers p ref) :
      distances[ref.id]? = none := by
    rcases hown p ref h with hid | hid <;> rw [hid] <;> decide +kernel
  obtain ⟨hrecorded, hothers⟩ := distances_lexical hread hnew herrors
  refine ⟨program, hread, herrors, ?_, ?_, ?_⟩
  · exact ((hrecorded _ _ (Option.bind_eq_some_iff.1 hsuper)).1 2).1 htwo
  · exact (hrecorded _ _ (Option.bind_eq_some_iff.1 hsuperclass)).2.1 hnone
  · rw [hothers 9 fun p ref h => by rcases hown p ref h with hid | hid <;> omega]
    decide +kernel

end Program

end ClassScript
