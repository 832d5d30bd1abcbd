import ClassScript.Proofs.Grammar.Phrase
import ClassScript.Proofs.Reading.Basic
import ClassScript.Proofs.Tree.References

/-! # Reading expressions yields phrases

The readers of expressions never run out of depth, use up at least one token if they yield
something, number its references in order, and yield the tree of a phrase unless they recorded an
error.  The depth needed is sixteen for each token left and a few for the readers that take no token
themselves.
-/
namespace ClassScript.Read

open Grammar Rules

/-- A level as the readers know it. -/
def levelTier (l : Level) : Tier := ⟨l.operators, l.join⟩

/-- The tiers from a level on. -/
def tiersFrom : Option Level → List Tier
  | none => []
  | some .disjunction => tiers
  | some .conjunction => tiers.drop 1
  | some .equality => tiers.drop 2
  | some .comparison => tiers.drop 3
  | some .term => tiers.drop 4
  | some .factor => tiers.drop 5

theorem tiersFrom_some (l : Level) : tiersFrom (some l) = levelTier l :: tiersFrom l.next := by
  cases l <;> rfl

theorem length_tiersFrom (l : Option Level) : (tiersFrom l).length ≤ 6 := by
  cases l with
  | none => decide
  | some l => cases l <;> decide

/-- What a reader of phrases yields: progress, numbered references, and a phrase unless an error was
recorded. -/
structure Yields (p : Phrase) (ids : List Nat) (c : Cursor) (used : List Token) (t : p.Tree)
    (c' : Cursor) : Prop where
  progress : used ≠ []
  numbered : Numbered c.nextId ids c'.nextId
  builds : c'.errors = c.errors → Builds p used t

/-- What a reader yields that goes on from an expression: `new` are the added references. -/
structure Extends (p : Phrase) (before after : Expr) (build : Expr → p.Tree → Expr) (c : Cursor)
    (used : List Token) (c' : Cursor) : Prop where
  numbered : ∃ new, after.ids = before.ids ++ new ∧ Numbered c.nextId new c'.nextId
  builds : ∃ t : p.Tree, after = build before t ∧ (c'.errors = c.errors → Builds p used t)

/-- All readers of expressions with a depth meet their promises. -/
structure ExpressionReaders (n : Nat) : Prop where
  expression : ∀ last c, 16 * c.rest.length + 10 ≤ n →
    Meets (expression n) last c fun used e c' => Yields .expression e.ids c used e c'
  tier : ∀ last c l, 16 * c.rest.length + 3 + (tiersFrom l).length ≤ n →
    Meets (tier n (tiersFrom l)) last c fun used e c' => Yields (.tier l) e.ids c used e c'
  tierRest : ∀ last c l left, 16 * c.rest.length + 1 ≤ n →
    Meets (tierRest n (levelTier l) (tiersFrom l.next) left) last c fun used e c' =>
      Extends (.operands l) left e l.joinAll c used c'
  unary : ∀ last c, 16 * c.rest.length + 2 ≤ n →
    Meets (unary n) last c fun used e c' => Yields .unary e.ids c used e c'
  suffixes : ∀ last c left, 16 * c.rest.length + 1 ≤ n →
    Meets (suffixes n left) last c fun used e c' =>
      Extends .suffixes left e Suffix.applyAll c used c'
  argumentsFrom : ∀ last c count, 16 * c.rest.length + 11 ≤ n →
    Meets (argumentsFrom n count) last c fun used es c' =>
      Yields .arguments (Expr.idsAll es) c used es c' ∧
        (c'.errors = c.errors → count + es.length ≤ maxArity)
  primary : ∀ last c, 16 * c.rest.length + 1 ≤ n →
    Meets (primary n) last c fun used e c' => Yields .primary e.ids c used e c'

theorem ids_join (l : Level) (left right : Expr) (operator : Token) :
    (l.join left operator right).ids = left.ids ++ right.ids := by
  cases l <;> simp [Level.join, Expr.ids]

/-- What `target = value` means, when both have been read. -/
theorem assignment_meets {last equals : Token} {c c₁ c₂ : Cursor} {u v ts : List Token}
    {target value : Expr} (hadv : Advances c u c₁)
    (htarget : Yields (.tier (some .disjunction)) target.ids c u target c₁)
    (hrest : c₁.rest = equals :: ts) (hequals : equals.kind = .equal)
    (hadv' : Advances { c₁ with rest := ts } v c₂)
    (hvalue : Yields .expression value.ids { c₁ with rest := ts } v value c₂) :
    Meets (assignment target equals value) last c₂ fun used e c' =>
      Yields .expression e.ids c (u ++ equals :: (v ++ used)) e c' := by
  have hadv₂ := hadv'.skip hrest
  have hbuilds (hq : c₂.errors = c.errors) (ht : isTarget target = true) :
      Builds .call u target ∧ Builds .expression v value := by
    obtain ⟨hq₁, hq₂⟩ := hadv.quiet hadv₂ hq
    exact ⟨(htarget.builds hq₁).targetIsCall ht, hvalue.builds hq₂⟩
  unfold assignment
  split
  next ref =>
    refine Meets.bindFreshId (Meets.pure ⟨by simp, ?_, fun hq => ?_⟩)
    · have hvalue := hvalue.numbered.append (.single _) hadv'.nextId (Nat.le_succ _)
      exact hvalue.mono hadv.nextId (Nat.le_refl _)
    · obtain ⟨hcall, he⟩ := hbuilds hq rfl
      obtain ⟨rfl, hname⟩ := hcall.call_variable
      rw [List.append_nil]
      exact .assignVariable _ hname hequals he
  next object name =>
    refine Meets.pure ⟨by simp, ?_, fun hq => ?_⟩
    · exact htarget.numbered.append hvalue.numbered hadv.nextId hadv'.nextId
    · obtain ⟨hcall, he⟩ := hbuilds hq rfl
      obtain ⟨w, dot, rfl, hdot, hname, hobject⟩ := hcall.call_get
      have hset := Builds.assignProperty hobject hdot hname hequals he
      simpa using hset
  next =>
    refine Meets.bindNote (Meets.pure ⟨by simp, ?_, fun hq => ?_⟩)
    · exact htarget.numbered.mono (Nat.le_refl _) hadv'.nextId
    · exact absurd hq ((hadv.trans hadv₂).push_ne _)

/-- A number or string without its literal is refused. -/
theorem literal_meets {last t : Token} {c : Cursor} {ts : List Token}
    (h : t.kind = .number ∨ t.kind = .string) :
    Meets (match t.literal with
      | some literal => pure (.constant (.ofLiteral literal))
      | none => fail t .malformedLiteral) last { c with rest := ts } fun used e c' =>
      Yields .primary e.ids c (t :: used) e c' := by
  cases hvalue : t.literal with
  | none => exact Meets.fail
  | some value => exact Meets.pure ⟨by simp, .nil, fun _ => .literal h hvalue⟩

section Step

variable {n : Nat} {last : Token} {c : Cursor} (ih : ExpressionReaders n)

include ih

theorem tier_meets (l : Option Level) (hn : 16 * c.rest.length + 3 + (tiersFrom l).length ≤ n + 1) :
    Meets (tier (n + 1) (tiersFrom l)) last c fun used e c' =>
      Yields (.tier l) e.ids c used e c' := by
  cases l with
  | none =>
    rw [tiersFrom, tier]
    refine (ih.unary last c (by omega)).mono fun used e c' _ he => ?_
    exact ⟨he.progress, he.numbered, fun hq => .tightest (he.builds hq)⟩
  | some l =>
    rw [tiersFrom_some, tier]
    rw [tiersFrom_some, List.length_cons] at hn
    refine Meets.bind (ih.tier last c l.next (by omega)) fun u e c₁ hadv he => ?_
    have hlen := hadv.length
    have hpos := List.length_pos_iff.2 he.progress
    refine (ih.tierRest last c₁ l e (by omega)).mono fun v e' c₂ hadv' he' => ?_
    obtain ⟨new, hids, hnew⟩ := he'.numbered
    obtain ⟨others, rfl, hothers⟩ := he'.builds
    refine ⟨by simp [he.progress], ?_, fun hq => ?_⟩
    · rw [hids]
      exact he.numbered.append hnew hadv.nextId hadv'.nextId
    · obtain ⟨hq₁, hq₂⟩ := hadv.quiet hadv' hq
      exact .tier (he.builds hq₁) (hothers hq₂)

theorem tierRest_meets (l : Level) (left : Expr) (hn : 16 * c.rest.length + 1 ≤ n + 1) :
    Meets (tierRest (n + 1) (levelTier l) (tiersFrom l.next) left) last c fun used e c' =>
      Extends (.operands l) left e l.joinAll c used c' := by
  rw [tierRest]
  refine Meets.bindAcceptAny (fun t ts hrest ht => ?_) fun _ => Meets.pure ?_
  · have hlen := congrArg List.length hrest
    rw [List.length_cons] at hlen
    have htiers := length_tiersFrom l.next
    refine Meets.bind (ih.tier last _ l.next (by simp only; omega)) fun u e c₁ hadv he => ?_
    have hlen₁ := hadv.length
    simp only at hlen₁
    refine (ih.tierRest last c₁ l _ (by omega)).mono fun v e' c₂ hadv' he' => ?_
    obtain ⟨new, hids, hnew⟩ := he'.numbered
    obtain ⟨others, heq, hothers⟩ := he'.builds
    refine ⟨⟨e.ids ++ new, ?_, he.numbered.append hnew hadv.nextId hadv'.nextId⟩,
      ⟨(t, e) :: others, heq, fun hq => ?_⟩⟩
    · rw [hids, show (levelTier l).join = l.join from rfl, ids_join, List.append_assoc]
    · obtain ⟨hq₁, hq₂⟩ := hadv.quiet hadv' hq
      exact .operand ht (he.builds hq₁) (hothers hq₂)
  · exact ⟨⟨[], by simp, .nil⟩, [], rfl, fun _ => .noOperand⟩

theorem unary_meets (hn : 16 * c.rest.length + 2 ≤ n + 1) :
    Meets (unary (n + 1)) last c fun used e c' => Yields .unary e.ids c used e c' := by
  rw [unary]
  refine Meets.bindAcceptAny (fun t ts hrest ht => ?_) fun _ => ?_
  · have hlen := congrArg List.length hrest
    rw [List.length_cons] at hlen
    refine Meets.bind (ih.unary last _ (by simp only; omega)) fun u e c₁ hadv he => Meets.pure ?_
    refine ⟨by simp, by simpa [Expr.ids] using he.numbered, fun hq => ?_⟩
    rw [List.append_nil]
    exact .unary (by simpa using ht) (he.builds hq)
  · refine Meets.bind (ih.primary last c (by omega)) fun u e c₁ hadv he => ?_
    have hlen := hadv.length
    have hpos := List.length_pos_iff.2 he.progress
    refine (ih.suffixes last c₁ e (by omega)).mono fun v e' c₂ hadv' he' => ?_
    obtain ⟨new, hids, hnew⟩ := he'.numbered
    obtain ⟨ss, rfl, hss⟩ := he'.builds
    refine ⟨by simp [he.progress], ?_, fun hq => ?_⟩
    · rw [hids]
      exact he.numbered.append hnew hadv.nextId hadv'.nextId
    · obtain ⟨hq₁, hq₂⟩ := hadv.quiet hadv' hq
      exact .call (.suffixed (he.builds hq₁) (hss hq₂))

/-- What is left of a call suffix behind its arguments. -/
theorem callSuffix_meets (left : Expr) {t : Token} {ts u : List Token} {es : List Expr}
    {c₁ : Cursor} (hrest : c.rest = t :: ts) (ht : t.kind = .leftParen)
    (hadv : Advances { c with rest := ts } u c₁)
    (hids : Numbered c.nextId (Expr.idsAll es) c₁.nextId)
    (hes : c₁.errors = c.errors →
      (u = [] ∧ es = []) ∨ (Builds .arguments u es ∧ es.length ≤ maxArity))
    (hn : 16 * c.rest.length + 1 ≤ n + 1) :
    Meets (expect .rightParen .argumentsEnd >>= fun paren => suffixes n (.call left paren es))
      last c₁ fun used e c' =>
      Extends .suffixes left e Suffix.applyAll c (t :: (u ++ used)) c' := by
  have hlen := congrArg List.length hrest
  have hlen₁ := hadv.length
  rw [List.length_cons] at hlen
  simp only at hlen₁
  refine Meets.bindExpect fun paren ts' hrest' hparen => ?_
  have hlen₂ := congrArg List.length hrest'
  rw [List.length_cons] at hlen₂
  refine (ih.suffixes last _ _ (by simp only; omega)).mono fun v e c₂ hadv' he => ?_
  obtain ⟨new, hnew, hnumbered⟩ := he.numbered
  obtain ⟨ss, heq, hss⟩ := he.builds
  refine ⟨⟨Expr.idsAll es ++ new, ?_, hids.append hnumbered hadv.nextId hadv'.nextId⟩,
    .call paren es :: ss, heq, fun hq => ?_⟩
  · rw [hnew, Expr.ids, List.append_assoc]
  · obtain ⟨hq₁, hq₂⟩ := hadv.quiet (hadv'.skip hrest') hq
    rcases hes hq₁ with ⟨rfl, rfl⟩ | ⟨hu, hmax⟩
    · exact .callSuffix ht hparen (hss hq₂)
    · exact .argumentsSuffix ht hu hmax hparen (hss hq₂)

theorem suffixes_meets (left : Expr) (hn : 16 * c.rest.length + 1 ≤ n + 1) :
    Meets (suffixes (n + 1) left) last c fun used e c' =>
      Extends .suffixes left e Suffix.applyAll c used c' := by
  rw [suffixes]
  refine Meets.bindAcceptAny (fun t ts hrest ht => ?_) fun _ => Meets.pure ?_
  · have hlen := congrArg List.length hrest
    rw [List.length_cons] at hlen
    by_cases hparen : t.kind = .leftParen
    · simp only [hparen, if_true]
      refine Meets.bindSees ?_
      split
      · exact Meets.bindPure (callSuffix_meets ih left hrest hparen (.refl _) .nil
          (fun _ => .inl ⟨rfl, rfl⟩) hn)
      · refine Meets.bind (ih.argumentsFrom last _ 0 (by simp only; omega)) ?_
        rintro u es c₁ hadv ⟨hes, hmax⟩
        refine callSuffix_meets ih left hrest hparen hadv hes.numbered (fun hq => .inr ?_) hn
        exact ⟨hes.builds hq, by simpa using hmax hq⟩
    · simp only [hparen, if_false]
      refine Meets.bindExpect fun name ts' hrest' hname => ?_
      have hlen' := congrArg List.length hrest'
      simp only [List.length_cons] at hlen'
      refine (ih.suffixes last _ _ (by simp only; omega)).mono fun v e c₁ _ he => ?_
      obtain ⟨new, hnew, hnumbered⟩ := he.numbered
      obtain ⟨ss, heq, hss⟩ := he.builds
      have hdot : t.kind = .dot := by simpa [hparen] using ht
      exact ⟨⟨new, by simpa [Expr.ids] using hnew, hnumbered⟩, .property name :: ss, heq,
        fun hq => .propertySuffix hdot hname (hss hq)⟩
  · exact ⟨⟨[], by simp, .nil⟩, [], rfl, fun _ => .noSuffix⟩

/-- One argument and those behind it. -/
theorem argumentsTail_meets (count : Nat) (hn : 16 * c.rest.length + 11 ≤ n + 1) :
    Meets (do
        let first ← expression n
        match ← accept .comma with
        | none => return [first]
        | some _ => return first :: (← argumentsFrom n (count + 1))) last c fun used es c' =>
      Yields .arguments (Expr.idsAll es) c used es c' ∧
        (c'.errors = c.errors → count < maxArity → count + es.length ≤ maxArity) := by
  refine Meets.bind (ih.expression last c (by omega)) fun u e c₁ hadv he => ?_
  have hlen := hadv.length
  have hpos := List.length_pos_iff.2 he.progress
  refine Meets.bindAccept (fun comma ts hrest hcomma => ?_) fun _ => Meets.pure ?_
  · have hlen₁ := congrArg List.length hrest
    rw [List.length_cons] at hlen₁
    refine Meets.bind (ih.argumentsFrom last _ (count + 1) (by simp only; omega)) ?_
    rintro v es c₂ hadv' ⟨hes, hmax⟩
    refine Meets.pure ⟨⟨by simp, ?_, fun hq => ?_⟩, fun hq _ => ?_⟩
    · exact he.numbered.append hes.numbered hadv.nextId hadv'.nextId
    · obtain ⟨hq₁, hq₂⟩ := hadv.quiet (hadv'.skip hrest) hq
      rw [List.append_nil]
      exact .argument (he.builds hq₁) hcomma (hes.builds hq₂)
    · obtain ⟨_, hq₂⟩ := hadv.quiet (hadv'.skip hrest) hq
      have := hmax hq₂
      rw [List.length_cons]
      omega
  · rw [List.append_nil]
    refine ⟨⟨he.progress, ?_, fun hq => .lastArgument (he.builds hq)⟩, fun _ hlt => hlt⟩
    simpa [Expr.idsAll] using he.numbered

theorem argumentsFrom_meets (count : Nat) (hn : 16 * c.rest.length + 11 ≤ n + 1) :
    Meets (argumentsFrom (n + 1) count) last c fun used es c' =>
      Yields .arguments (Expr.idsAll es) c used es c' ∧
        (c'.errors = c.errors → count + es.length ≤ maxArity) := by
  rw [argumentsFrom]
  split
  · refine Meets.bindPeek (Meets.bindNote ?_)
    refine (argumentsTail_meets ih count (by simpa using hn)).mono ?_
    rintro used es c' hadv ⟨hes, _⟩
    exact ⟨⟨hes.progress, hes.numbered, fun hq => absurd hq hadv.loud⟩,
      fun hq => absurd hq hadv.loud⟩
  · refine (argumentsTail_meets ih count hn).mono ?_
    rintro used es c' _ ⟨hes, hmax⟩
    exact ⟨hes, fun hq => hmax hq (by omega)⟩

theorem primary_meets (hn : 16 * c.rest.length + 1 ≤ n + 1) :
    Meets (primary (n + 1)) last c fun used e c' => Yields .primary e.ids c used e c' := by
  rw [primary]
  refine Meets.bindAcceptAny (fun t ts hrest ht => ?_) fun _ => Meets.bindPeek Meets.fail
  have hlen := congrArg List.length hrest
  rw [List.length_cons] at hlen
  simp only [List.mem_cons, List.not_mem_nil, or_false] at ht
  rcases ht with h | h | h | h | h | h | h | h | h <;> simp only [h]
  · exact Meets.pure ⟨by simp, .nil, fun _ => .falseWord h⟩
  · exact Meets.pure ⟨by simp, .nil, fun _ => .trueWord h⟩
  · exact Meets.pure ⟨by simp, .nil, fun _ => .nilWord h⟩
  · exact literal_meets (.inl h)
  · exact literal_meets (.inr h)
  · exact Meets.bindFreshId (Meets.pure ⟨by simp, .single _, fun _ => .name _ h⟩)
  · exact Meets.bindFreshId (Meets.pure ⟨by simp, .single _, fun _ => .thisWord _ h⟩)
  · refine Meets.bindExpect fun dot _ _ hdot => Meets.bindExpect fun method _ _ hmethod => ?_
    exact Meets.bindFreshId (Meets.pure ⟨by simp, .single _,
      fun _ => .superWord _ h hdot hmethod⟩)
  · refine Meets.bind (ih.expression last _ (by simp only; omega)) fun u e c₁ hadv he => ?_
    refine Meets.bindExpect fun right _ _ hright => Meets.pure ?_
    exact ⟨by simp, he.numbered, fun hq => .grouping h (he.builds hq) hright⟩

theorem expression_meets (hn : 16 * c.rest.length + 10 ≤ n + 1) :
    Meets (expression (n + 1)) last c fun used e c' => Yields .expression e.ids c used e c' := by
  rw [expression]
  refine Meets.bind (ih.tier last c (some .disjunction) (by simp [tiersFrom, tiers]; omega))
    fun u target c₁ hadv htarget => ?_
  have hlen := hadv.length
  have hpos := List.length_pos_iff.2 htarget.progress
  refine Meets.bindAccept (fun equals ts hrest hequals => ?_) fun _ => Meets.pure ?_
  · have hlen₁ := congrArg List.length hrest
    rw [List.length_cons] at hlen₁
    refine Meets.bind (ih.expression last _ (by simp only; omega)) fun v value c₂ hadv' hvalue => ?_
    exact assignment_meets hadv htarget hrest hequals hadv' hvalue
  · rw [List.append_nil]
    exact ⟨htarget.progress, htarget.numbered, fun hq => .unassigned (htarget.builds hq)⟩

end Step

/-- The readers of expressions meet their promises at every depth. -/
theorem expressionReaders (n : Nat) : ExpressionReaders n := by
  induction n with
  | zero =>
    constructor <;> intros <;> omega
  | succ n ih =>
    exact
      { expression := fun _ _ => expression_meets ih
        tier := fun _ _ => tier_meets ih
        tierRest := fun _ _ => tierRest_meets ih
        unary := fun _ _ => unary_meets ih
        suffixes := fun _ _ => suffixes_meets ih
        argumentsFrom := fun _ _ => argumentsFrom_meets ih
        primary := fun _ _ => primary_meets ih }

end ClassScript.Read
