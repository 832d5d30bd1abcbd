import ClassScript.Proofs.Grammar.Derivable

/-! # Derivable token lists build trees

A token list that derives from the rules builds a tree, if every number and string carries its
literal.  The rules leave open which `if` an `else` belongs to; an open statement takes the `else`
in (`Builds.takeElse`), so that some tree is built whatever the derivation says.
-/
namespace ClassScript.Grammar

open Ebnf

/-- An open statement takes an `else` and a statement behind it. -/
theorem Builds.takeElse {p : Phrase} {w v : List Token} {s : p.Tree} {t : Stmt} {o : Bool}
    {otherwise : Token} (h : Builds p w s) (hp : p = .statement true)
    (hotherwise : otherwise.kind = .elseWord) (ht : Builds (.statement o) v t) :
    ∃ b r, Builds (.statement b) (w ++ otherwise :: v) r := by
  induction h with
  | @ifThen b _ _ _ _ _ _ _ hkeyword hleft hu hright hv _ ih =>
    cases b with
    | false =>
      have hall := Builds.ifElse hkeyword hleft hu hright hv hotherwise ht
      exact ⟨_, _, by simpa using hall⟩
    | true =>
      obtain ⟨b, r, hr⟩ := ih rfl
      have hall := Builds.ifThen hkeyword hleft hu hright hr
      exact ⟨_, _, by simpa using hall⟩
  | ifElse hkeyword hleft hu hright hv hother _ _ _ ih =>
    obtain ⟨b, r, hr⟩ := ih hp
    have hall := Builds.ifElse hkeyword hleft hu hright hv hother hr
    exact ⟨_, _, by simpa using hall⟩
  | loop hkeyword hleft hu hright _ _ ih =>
    obtain ⟨b, r, hr⟩ := ih hp
    have hall := Builds.loop hkeyword hleft hu hright hr
    exact ⟨_, _, by simpa using hall⟩
  | forLoop hkeyword hleft hu hv hsemicolon hw hright _ _ _ _ ih =>
    obtain ⟨b, r, hr⟩ := ih hp
    have hall := Builds.forLoop hkeyword hleft hu hv hsemicolon hw hright hr
    exact ⟨_, _, by simpa using hall⟩
  | _ => simp at hp

/-- Numbers and strings carry the literals they are read as. -/
def HasLiteral (t : Token) : Prop := t.kind = .number ∨ t.kind = .string → t.literal.isSome

/-- Numbers and strings in a phrase have literals. -/
theorem Builds.hasLiteral {p : Phrase} {w : List Token} {t : p.Tree} (h : Builds p w t) :
    ∀ t ∈ w, HasLiteral t := by
  have hoperators (l : Level) :
      Token.Kind.number ∉ l.operators ∧ Token.Kind.string ∉ l.operators := by
    cases l <;> decide
  induction h with
  | literal _ hvalue => simp [HasLiteral, hvalue]
  | @operand l operator _ _ _ _ hop _ _ ihu ihv =>
    have hoperator : HasLiteral operator := by
      rintro (h | h) <;> rw [h] at hop
      · exact absurd hop (hoperators l).1
      · exact absurd hop (hoperators l).2
    simp only [List.mem_cons, List.mem_append]
    rintro t (rfl | ht | ht)
    · exact hoperator
    · exact ihu t ht
    · exact ihv t ht
  | unary hop _ ih => rcases hop with hop | hop <;> simpa [HasLiteral, hop] using ih
  | _ => simp_all [HasLiteral, or_imp, forall_and]

/-- The rule's tokens build a tree. -/
def Rule.Built : Rule → List Token → Prop
  | .program, w => ∃ u last ss, w = u ++ [last] ∧ last.kind = .endOfInput ∧
      Builds .declarations u ss
  | .declaration, w | .classDecl, w | .funDecl, w => ∃ s, Builds .declaration w s
  | .function, w => ∃ d, Builds .function w d
  | .parameters, w => ∃ ts, Builds .parameters w ts ∧ ts.length ≤ maxArity
  | .varDecl, w => ∃ s, Builds .varDecl w s
  | .statement, w | .forStmt, w | .ifStmt, w | .printStmt, w | .returnStmt, w | .whileStmt, w =>
    ∃ o s, Builds (.statement o) w s
  | .exprStmt, w => ∃ s, Builds .exprStmt w s
  | .block, w => ∃ left u right body, w = left :: (u ++ [right]) ∧ left.kind = .leftBrace ∧
      right.kind = .rightBrace ∧ Builds .declarations u body
  | .expression, w | .assignment, w => ∃ e, Builds .expression w e
  | .logicOr, w => ∃ e, Builds (.tier (some .disjunction)) w e
  | .logicAnd, w => ∃ e, Builds (.tier (some .conjunction)) w e
  | .equality, w => ∃ e, Builds (.tier (some .equality)) w e
  | .comparison, w => ∃ e, Builds (.tier (some .comparison)) w e
  | .term, w => ∃ e, Builds (.tier (some .term)) w e
  | .factor, w => ∃ e, Builds (.tier (some .factor)) w e
  | .unary, w => ∃ e, Builds .unary w e
  | .call, w => ∃ e, Builds .call w e
  | .arguments, w => ∃ es, Builds .arguments w es ∧ es.length ≤ maxArity
  | .primary, w => ∃ e, Builds .primary w e

/-- The same for rules whose tokens carry their literals. -/
def Rule.Buildable (r : Rule) (w : List Token) : Prop := (∀ t ∈ w, HasLiteral t) → r.Built w

section Closure

variable {w : List Token} {parts : List (List Token)}

theorem built_declarations (h : ∀ u ∈ parts, Rule.declaration.Buildable u)
    (hlit : ∀ t ∈ parts.flatten, HasLiteral t) : ∃ ss, Builds .declarations parts.flatten ss := by
  induction parts with
  | nil => exact ⟨_, .noDeclaration⟩
  | cons u parts ih =>
    simp only [List.flatten_cons, List.forall_mem_append] at hlit
    obtain ⟨s, hs⟩ := h u (by simp) hlit.1
    obtain ⟨ss, hss⟩ := ih (fun u hu => h u (by simp [hu])) hlit.2
    exact ⟨_, .declarations hs hss⟩

theorem built_methods (h : ∀ u ∈ parts, Rule.function.Buildable u)
    (hlit : ∀ t ∈ parts.flatten, HasLiteral t) : ∃ ds, Builds .methods parts.flatten ds := by
  induction parts with
  | nil => exact ⟨_, .noMethod⟩
  | cons u parts ih =>
    simp only [List.flatten_cons, List.forall_mem_append] at hlit
    obtain ⟨d, hd⟩ := h u (by simp) hlit.1
    obtain ⟨ds, hds⟩ := ih (fun u hu => h u (by simp [hu])) hlit.2
    exact ⟨_, .methods hd hds⟩

theorem built_operands {l : Level}
    (operand : ∀ u, (∀ t ∈ u, HasLiteral t) → (tierRule l.next).Buildable u →
      ∃ e, Builds (.tier l.next) u e)
    (h : ∀ u ∈ parts, (all [l.choice, .rule (tierRule l.next)]).Matches Rule.Buildable u)
    (hlit : ∀ t ∈ parts.flatten, HasLiteral t) :
    ∃ others, Builds (.operands l) parts.flatten others := by
  induction parts with
  | nil => exact ⟨_, .noOperand⟩
  | cons u parts ih =>
    obtain ⟨_, _, rfl, hchoice, v, _, rfl, hv, rfl⟩ := h u (by simp)
    obtain ⟨operator, hop, rfl⟩ := Level.matches_choice hchoice
    simp only [List.flatten_cons, List.forall_mem_append, List.append_nil] at hlit ⊢
    obtain ⟨e, he⟩ := operand v hlit.1.2 hv
    obtain ⟨others, hothers⟩ := ih (fun u hu => h u (by simp [hu])) hlit.2
    exact ⟨_, by simpa using Builds.operand hop he hothers⟩

theorem built_tier (l : Level)
    (operand : ∀ u, (∀ t ∈ u, HasLiteral t) → (tierRule l.next).Buildable u →
      ∃ e, Builds (.tier l.next) u e)
    (h : (rules l.rule).Matches Rule.Buildable w) (hlit : ∀ t ∈ w, HasLiteral t) :
    ∃ e, Builds (.tier (some l)) w e := by
  rw [rules_level] at h
  obtain ⟨u, _, rfl, hu, _, _, rfl, ⟨parts, rfl, hparts⟩, rfl⟩ := h
  simp only [List.forall_mem_append, List.append_nil] at hlit ⊢
  obtain ⟨e, he⟩ := operand u hlit.1 hu
  obtain ⟨others, hothers⟩ := built_operands operand hparts hlit.2
  exact ⟨_, .tier he hothers⟩

theorem built_suffixes (h : ∀ u ∈ parts, suffix.Matches Rule.Buildable u)
    (hlit : ∀ t ∈ parts.flatten, HasLiteral t) :
    ∃ suffixes, Builds .suffixes parts.flatten suffixes := by
  induction parts with
  | nil => exact ⟨_, .noSuffix⟩
  | cons u parts ih =>
    simp only [List.flatten_cons, List.forall_mem_append] at hlit ⊢
    obtain ⟨ss, hss⟩ := ih (fun u hu => h u (by simp [hu])) hlit.2
    rcases h u (by simp) with hcall | hproperty
    · obtain ⟨_, _, rfl, ⟨left, hleft, rfl⟩, v, _, rfl, hv, _, _, rfl, ⟨paren, hparen, rfl⟩,
        rfl⟩ := hcall
      rcases hv with rfl | hv
      · exact ⟨_, .callSuffix hleft hparen hss⟩
      · obtain ⟨es, hes, hlen⟩ := hv fun t ht => hlit.1 t (by simp [ht])
        exact ⟨_, by simpa using Builds.argumentsSuffix hleft hes hlen hparen hss⟩
    · obtain ⟨_, _, rfl, ⟨dot, hdot, rfl⟩, _, _, rfl, ⟨name, hname, rfl⟩, rfl⟩ := hproperty
      exact ⟨_, .propertySuffix hdot hname hss⟩

theorem built_arguments {u : List Token} (hu : Rule.expression.Buildable u)
    (h : ∀ u ∈ parts, (all [.token .comma, .rule .expression]).Matches Rule.Buildable u)
    (hlit : ∀ t ∈ u ++ parts.flatten, HasLiteral t) :
    ∃ es, Builds .arguments (u ++ parts.flatten) es ∧ es.length = parts.length + 1 := by
  induction parts generalizing u with
  | nil =>
    obtain ⟨e, he⟩ := hu (by simpa using hlit)
    exact ⟨[e], by simpa using Builds.lastArgument he, rfl⟩
  | cons v parts ih =>
    obtain ⟨_, _, rfl, ⟨comma, hcomma, rfl⟩, v, _, rfl, hv, rfl⟩ := h v (by simp)
    simp only [List.flatten_cons, List.forall_mem_append] at hlit
    obtain ⟨e, he⟩ := hu hlit.1
    obtain ⟨es, hes, hlen⟩ := ih hv (fun u hu => h u (by simp [hu]))
      (List.forall_mem_append.2 ⟨hlit.2.1.2.1, hlit.2.2⟩)
    exact ⟨e :: es, by simpa using Builds.argument he hcomma hes, by simp [hlen]⟩

theorem built_parameters {t : Token} (ht : t.kind = .identifier)
    (h : ∀ u ∈ parts, (all [.token .comma, .token .identifier]).Matches Rule.Buildable u) :
    ∃ ts, Builds .parameters (t :: parts.flatten) ts ∧ ts.length = parts.length + 1 := by
  induction parts generalizing t with
  | nil => exact ⟨[t], .lastParameter ht, rfl⟩
  | cons v parts ih =>
    obtain ⟨_, _, rfl, ⟨comma, hcomma, rfl⟩, _, _, rfl, ⟨t', ht', rfl⟩, rfl⟩ := h v (by simp)
    obtain ⟨ts, hts, hlen⟩ := ih ht' fun u hu => h u (by simp [hu])
    exact ⟨t :: ts, .parameter ht hcomma hts, by simp [hlen]⟩

theorem built_optional (h : (Ebnf.optional (.rule .expression)).Matches Rule.Buildable w)
    (hlit : ∀ t ∈ w, HasLiteral t) : ∃ e, Builds .optional w e := by
  rcases h with rfl | h
  · exact ⟨_, .absent⟩
  · obtain ⟨e, he⟩ := h hlit
    exact ⟨_, .present he⟩

theorem built_class (h : (rules .classDecl).Matches Rule.Buildable w)
    (hlit : ∀ t ∈ w, HasLiteral t) : ∃ s, Builds .declaration w s := by
  obtain ⟨_, _, rfl, ⟨keyword, hkeyword, rfl⟩, _, _, rfl, ⟨name, hname, rfl⟩, v, _, rfl, hv,
    _, _, rfl, ⟨left, hleft, rfl⟩, _, _, rfl, ⟨parts, rfl, hparts⟩, _, _, rfl,
    ⟨right, hright, rfl⟩, rfl⟩ := h
  obtain ⟨ds, hds⟩ := built_methods hparts fun t ht => hlit t (by simp [List.mem_flatten.1 ht])
  rcases hv with rfl | hv
  · exact ⟨_, .classDecl hkeyword hname hleft hds hright⟩
  · obtain ⟨_, _, rfl, ⟨less, hless, rfl⟩, _, _, rfl, ⟨superclass, hsuperclass, rfl⟩, rfl⟩ := hv
    exact ⟨_, .subclassDecl 0 hkeyword hname hless hsuperclass hleft hds hright⟩

theorem built_function (h : (rules .function).Matches Rule.Buildable w)
    (hlit : ∀ t ∈ w, HasLiteral t) : ∃ d, Builds .function w d := by
  obtain ⟨_, _, rfl, ⟨name, hname, rfl⟩, _, _, rfl, ⟨left, hleft, rfl⟩, v, _, rfl, hv,
    _, _, rfl, ⟨right, hright, rfl⟩, _, _, rfl, hbody, rfl⟩ := h
  obtain ⟨first, u, last, body, rfl, hfirst, hlast, hbody⟩ :=
    hbody fun t ht => hlit t (by simp [ht])
  rcases hv with rfl | hv
  · exact ⟨_, by simpa using Builds.plainFunction hname hleft hright hfirst hbody hlast⟩
  · obtain ⟨ts, hts, hlen⟩ := hv fun t ht => hlit t (by simp [ht])
    exact ⟨_, by simpa using Builds.function hname hleft hts hlen hright hfirst hbody hlast⟩

theorem built_var (h : (rules .varDecl).Matches Rule.Buildable w)
    (hlit : ∀ t ∈ w, HasLiteral t) : ∃ s, Builds .varDecl w s := by
  obtain ⟨_, _, rfl, ⟨keyword, hkeyword, rfl⟩, _, _, rfl, ⟨name, hname, rfl⟩, v, _, rfl, hv,
    _, _, rfl, ⟨semicolon, hsemicolon, rfl⟩, rfl⟩ := h
  rcases hv with rfl | hv
  · exact ⟨_, .plainVariable hkeyword hname hsemicolon⟩
  · obtain ⟨_, _, rfl, ⟨equals, hequals, rfl⟩, u, _, rfl, hu, rfl⟩ := hv
    obtain ⟨e, he⟩ := hu fun t ht => hlit t (by simp [ht])
    exact ⟨_, by simpa using Builds.initialized hkeyword hname hequals he hsemicolon⟩

theorem built_for (h : (rules .forStmt).Matches Rule.Buildable w)
    (hlit : ∀ t ∈ w, HasLiteral t) : ∃ o s, Builds (.statement o) w s := by
  obtain ⟨_, _, rfl, ⟨keyword, hkeyword, rfl⟩, _, _, rfl, ⟨left, hleft, rfl⟩, u, _, rfl, hu,
    v, _, rfl, hv, _, _, rfl, ⟨semicolon, hsemicolon, rfl⟩, x, _, rfl, hx, _, _, rfl,
    ⟨right, hright, rfl⟩, y, _, rfl, hy, rfl⟩ := h
  have hinitial : ∃ initial, Builds .forInitial u initial := by
    rcases hu with hu | hu | ⟨t, ht, rfl⟩
    · obtain ⟨s, hs⟩ := hu fun t ht => hlit t (by simp [ht])
      exact ⟨_, .variableInitial hs⟩
    · obtain ⟨s, hs⟩ := hu fun t ht => hlit t (by simp [ht])
      exact ⟨_, .expressionInitial hs⟩
    · exact ⟨_, .noInitial ht⟩
  obtain ⟨initial, hu⟩ := hinitial
  obtain ⟨c, hv⟩ := built_optional hv fun t ht => hlit t (by simp [ht])
  obtain ⟨i, hx⟩ := built_optional hx fun t ht => hlit t (by simp [ht])
  obtain ⟨o, s, hy⟩ := hy fun t ht => hlit t (by simp [ht])
  have hall := Builds.forLoop hkeyword hleft hu hv hsemicolon hx hright hy
  exact ⟨_, _, by simpa using hall⟩

theorem built_if (h : (rules .ifStmt).Matches Rule.Buildable w)
    (hlit : ∀ t ∈ w, HasLiteral t) : ∃ o s, Builds (.statement o) w s := by
  obtain ⟨_, _, rfl, ⟨keyword, hkeyword, rfl⟩, _, _, rfl, ⟨left, hleft, rfl⟩, u, _, rfl, hu,
    _, _, rfl, ⟨right, hright, rfl⟩, v, _, rfl, hv, x, _, rfl, hx, rfl⟩ := h
  obtain ⟨c, hu⟩ := hu fun t ht => hlit t (by simp [ht])
  obtain ⟨o, s, hv⟩ := hv fun t ht => hlit t (by simp [ht])
  rcases hx with rfl | hx
  · exact ⟨_, _, by simpa using Builds.ifThen hkeyword hleft hu hright hv⟩
  obtain ⟨_, _, rfl, ⟨otherwise, hotherwise, rfl⟩, y, _, rfl, hy, rfl⟩ := hx
  obtain ⟨b, t, hy⟩ := hy fun t ht => hlit t (by simp [ht])
  -- an `else` behind an open statement goes to the `if` inside it
  cases o with
  | false =>
    exact ⟨_, _, by simpa using Builds.ifElse hkeyword hleft hu hright hv hotherwise hy⟩
  | true =>
    obtain ⟨b, r, hr⟩ := hv.takeElse rfl hotherwise hy
    exact ⟨_, _, by simpa using Builds.ifThen hkeyword hleft hu hright hr⟩

theorem built_assignment (h : (rules .assignment).Matches Rule.Buildable w)
    (hlit : ∀ t ∈ w, HasLiteral t) : ∃ e, Builds .expression w e := by
  rcases h with h | h
  · obtain ⟨v, _, rfl, hv, _, _, rfl, ⟨name, hname, rfl⟩, _, _, rfl, ⟨equals, hequals, rfl⟩,
      u, _, rfl, hu, rfl⟩ := h
    obtain ⟨e, he⟩ := hu fun t ht => hlit t (by simp [ht])
    rcases hv with rfl | hv
    · exact ⟨_, by simpa using Builds.assignVariable 0 hname hequals he⟩
    · obtain ⟨x, _, rfl, hx, _, _, rfl, ⟨dot, hdot, rfl⟩, rfl⟩ := hv
      obtain ⟨object, hx⟩ := hx fun t ht => hlit t (by simp [ht])
      exact ⟨_, by simpa using Builds.assignProperty hx hdot hname hequals he⟩
  · obtain ⟨e, he⟩ := h hlit
    exact ⟨_, .unassigned he⟩

theorem built_primary (h : (rules .primary).Matches Rule.Buildable w)
    (hlit : ∀ t ∈ w, HasLiteral t) : ∃ e, Builds .primary w e := by
  rcases h with ⟨t, ht, rfl⟩ | ⟨t, ht, rfl⟩ | ⟨t, ht, rfl⟩ | ⟨t, ht, rfl⟩ | ⟨t, ht, rfl⟩ |
    ⟨t, ht, rfl⟩ | ⟨t, ht, rfl⟩ | h | h
  · obtain ⟨value, hvalue⟩ := Option.isSome_iff_exists.1 (hlit t (by simp) (.inl ht))
    exact ⟨_, .literal (.inl ht) hvalue⟩
  · obtain ⟨value, hvalue⟩ := Option.isSome_iff_exists.1 (hlit t (by simp) (.inr ht))
    exact ⟨_, .literal (.inr ht) hvalue⟩
  · exact ⟨_, .trueWord ht⟩
  · exact ⟨_, .falseWord ht⟩
  · exact ⟨_, .nilWord ht⟩
  · exact ⟨_, .thisWord 0 ht⟩
  · exact ⟨_, .name 0 ht⟩
  · obtain ⟨_, _, rfl, ⟨left, hleft, rfl⟩, u, _, rfl, hu, _, _, rfl, ⟨right, hright, rfl⟩,
      rfl⟩ := h
    obtain ⟨e, he⟩ := hu fun t ht => hlit t (by simp [ht])
    exact ⟨_, .grouping hleft he hright⟩
  · obtain ⟨_, _, rfl, ⟨t, ht, rfl⟩, _, _, rfl, ⟨dot, hdot, rfl⟩, _, _, rfl,
      ⟨method, hmethod, rfl⟩, rfl⟩ := h
    exact ⟨_, .superWord 0 ht hdot hmethod⟩

end Closure

/-- What can be built is closed under the rules. -/
theorem buildable_closed (r : Rule) (w : List Token) (h : (rules r).Matches Rule.Buildable w) :
    r.Buildable w := by
  intro hlit
  cases r with
  | program =>
    obtain ⟨_, _, rfl, ⟨parts, rfl, hparts⟩, _, _, rfl, ⟨last, hlast, rfl⟩, rfl⟩ := h
    obtain ⟨ss, hss⟩ := built_declarations hparts fun t ht =>
      hlit t (by simp [List.mem_flatten.1 ht])
    exact ⟨_, last, ss, by simp, hlast, hss⟩
  | declaration =>
    rcases h with h | h | h | h
    · exact h hlit
    · exact h hlit
    · obtain ⟨s, hs⟩ := h hlit
      exact ⟨s, .variableDecl hs⟩
    · obtain ⟨o, s, hs⟩ := h hlit
      exact ⟨s, .statement hs⟩
  | classDecl => exact built_class h hlit
  | funDecl =>
    obtain ⟨_, _, rfl, ⟨keyword, hkeyword, rfl⟩, v, _, rfl, hv, rfl⟩ := h
    obtain ⟨d, hd⟩ := hv fun t ht => hlit t (by simp [ht])
    exact ⟨_, by simpa using Builds.funDecl hkeyword hd⟩
  | function => exact built_function h hlit
  | parameters =>
    obtain ⟨_, _, rfl, ⟨t, ht, rfl⟩, _, _, rfl, ⟨parts, hlen, rfl, hparts⟩, rfl⟩ := h
    obtain ⟨ts, hts, hts_len⟩ := built_parameters ht hparts
    exact ⟨ts, by simpa using hts, by simp only [maxArity] at hlen ⊢; omega⟩
  | varDecl => exact built_var h hlit
  | statement =>
    rcases h with h | h | h | h | h | h | h
    · obtain ⟨s, hs⟩ := h hlit
      exact ⟨_, s, .expression hs⟩
    · exact h hlit
    · exact h hlit
    · exact h hlit
    · exact h hlit
    · exact h hlit
    · obtain ⟨left, u, right, body, rfl, hleft, hright, hbody⟩ := h hlit
      exact ⟨_, _, .block hleft hbody hright⟩
  | exprStmt =>
    obtain ⟨u, _, rfl, hu, _, _, rfl, ⟨semicolon, hsemicolon, rfl⟩, rfl⟩ := h
    obtain ⟨e, he⟩ := hu fun t ht => hlit t (by simp [ht])
    exact ⟨_, .exprStmt he hsemicolon⟩
  | forStmt => exact built_for h hlit
  | ifStmt => exact built_if h hlit
  | printStmt =>
    obtain ⟨_, _, rfl, ⟨keyword, hkeyword, rfl⟩, u, _, rfl, hu, _, _, rfl,
      ⟨semicolon, hsemicolon, rfl⟩, rfl⟩ := h
    obtain ⟨e, he⟩ := hu fun t ht => hlit t (by simp [ht])
    exact ⟨_, _, .print hkeyword he hsemicolon⟩
  | returnStmt =>
    obtain ⟨_, _, rfl, ⟨keyword, hkeyword, rfl⟩, u, _, rfl, hu, _, _, rfl,
      ⟨semicolon, hsemicolon, rfl⟩, rfl⟩ := h
    obtain ⟨e, he⟩ := built_optional hu fun t ht => hlit t (by simp [ht])
    exact ⟨_, _, .ret hkeyword he hsemicolon⟩
  | whileStmt =>
    obtain ⟨_, _, rfl, ⟨keyword, hkeyword, rfl⟩, _, _, rfl, ⟨left, hleft, rfl⟩, u, _, rfl, hu,
      _, _, rfl, ⟨right, hright, rfl⟩, v, _, rfl, hv, rfl⟩ := h
    obtain ⟨c, hu⟩ := hu fun t ht => hlit t (by simp [ht])
    obtain ⟨o, s, hv⟩ := hv fun t ht => hlit t (by simp [ht])
    exact ⟨_, _, by simpa using Builds.loop hkeyword hleft hu hright hv⟩
  | block =>
    obtain ⟨_, _, rfl, ⟨left, hleft, rfl⟩, _, _, rfl, ⟨parts, rfl, hparts⟩, _, _, rfl,
      ⟨right, hright, rfl⟩, rfl⟩ := h
    obtain ⟨ss, hss⟩ := built_declarations hparts fun t ht =>
      hlit t (by simp [List.mem_flatten.1 ht])
    exact ⟨left, _, right, ss, by simp, hleft, hright, hss⟩
  | expression => exact h hlit
  | assignment => exact built_assignment h hlit
  | logicOr => exact built_tier .disjunction (fun _ hlit h => h hlit) h hlit
  | logicAnd => exact built_tier .conjunction (fun _ hlit h => h hlit) h hlit
  | equality => exact built_tier .equality (fun _ hlit h => h hlit) h hlit
  | comparison => exact built_tier .comparison (fun _ hlit h => h hlit) h hlit
  | term => exact built_tier .term (fun _ hlit h => h hlit) h hlit
  | factor =>
    refine built_tier .factor (fun _ hlit h => ?_) h hlit
    obtain ⟨e, he⟩ := h hlit
    exact ⟨e, .tightest he⟩
  | unary =>
    rcases h with h | h
    · obtain ⟨_, _, rfl, hop, u, _, rfl, hu, rfl⟩ := h
      obtain ⟨e, he⟩ := hu fun t ht => hlit t (by simp [ht])
      rcases hop with ⟨operator, hop, rfl⟩ | ⟨operator, hop, rfl⟩
      · exact ⟨_, by simpa using Builds.unary (.inl hop) he⟩
      · exact ⟨_, by simpa using Builds.unary (.inr hop) he⟩
    · obtain ⟨e, he⟩ := h hlit
      exact ⟨e, .call he⟩
  | call =>
    obtain ⟨u, _, rfl, hu, _, _, rfl, ⟨parts, rfl, hparts⟩, rfl⟩ := h
    obtain ⟨e, he⟩ := hu fun t ht => hlit t (by simp [ht])
    obtain ⟨ss, hss⟩ := built_suffixes hparts fun t ht => hlit t (by simp [List.mem_flatten.1 ht])
    exact ⟨_, by simpa using Builds.suffixed he hss⟩
  | arguments =>
    obtain ⟨u, _, rfl, hu, _, _, rfl, ⟨parts, hlen, rfl, hparts⟩, rfl⟩ := h
    rw [List.append_nil] at hlit ⊢
    obtain ⟨es, hes, hes_len⟩ := built_arguments hu hparts hlit
    exact ⟨es, hes, by simp only [maxArity] at hlen ⊢; omega⟩
  | primary => exact built_primary h hlit

end ClassScript.Grammar
