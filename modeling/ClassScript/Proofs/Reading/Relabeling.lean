import ClassScript.Program.Source
import ClassScript.Proofs.Tree.Relabeling

/-! # Reading relabelled tokens

No reader looks at a line or compares identities.  So on tokens with other lines, or with a counter
that starts elsewhere, it does the same and yields the same, relabelled.
-/
namespace ClassScript

/-- Counting from `lo` on is counting after the relabelling too. -/
def Relabeling.CountsFrom (ρ : Relabeling) (lo : Nat) : Prop :=
  ∀ i, lo ≤ i → ρ.number (i + 1) = ρ.number i + 1

namespace Relabeling

/-- Identities from `lo` on are moved by `k`. -/
def shift (lo k : Nat) : Relabeling := { number := fun i => if i < lo then i else i + k }

theorem shift_of_lt {lo k i : Nat} (h : i < lo) : (shift lo k).number i = i := if_pos h

theorem shift_of_ge {lo k i : Nat} (h : lo ≤ i) : (shift lo k).number i = i + k :=
  if_neg (Nat.not_lt.2 h)

theorem keepsLines_shift (lo k : Nat) : (shift lo k).KeepsLines := fun _ => rfl

theorem countsFrom_shift (lo k : Nat) : (shift lo k).CountsFrom lo := by
  intro i hi
  rw [shift_of_ge hi, shift_of_ge (Nat.le_succ_of_le hi)]
  omega

theorem injective_shift (lo k : Nat) : Function.Injective (shift lo k).number := by
  intro i j h
  rcases Nat.lt_or_ge i lo with hi | hi <;> rcases Nat.lt_or_ge j lo with hj | hj <;>
    simp only [shift_of_lt, shift_of_ge, hi, hj] at h <;> omega

end Relabeling

section Relabel

variable (ρ : Relabeling)

def GrammarError.relabel (e : GrammarError) : GrammarError := ⟨e.token.relabel ρ, e.cause⟩

def Cursor.relabel (c : Cursor) : Cursor :=
  ⟨c.rest.map (Token.relabel ρ), c.errors.map (GrammarError.relabel ρ), ρ.number c.nextId⟩

end Relabel

theorem GrammarError.map_relabel_eq_self {ρ : Relabeling} (hline : ρ.KeepsLines)
    (errors : List GrammarError) : errors.map (GrammarError.relabel ρ) = errors := by
  have hid : GrammarError.relabel ρ = id := by
    funext e
    rw [GrammarError.relabel, Token.relabel_eq_self hline]
    rfl
  rw [hid, List.map_id]

namespace Read

open Rules

variable {α β γ δ : Type} {ρ : Relabeling} {lo : Nat}

/-- A result of reading with other labels. -/
def relabelResult (ρ : Relabeling) (f : α → β) :
    Except GrammarError α × Cursor → Except GrammarError β × Cursor
  | (.ok a, c) => (.ok (f a), c.relabel ρ)
  | (.error e, c) => (.error (e.relabel ρ), c.relabel ρ)

/-- The second reader does on relabelled tokens what the first one does, as long as the counter has
reached `lo`; the counter never goes back behind it. -/
structure Follows (ρ : Relabeling) (lo : Nat) (f : α → β) (r : Read α) (r' : Read β) : Prop where
  relabels : ∀ last c, lo ≤ c.nextId →
    r' (last.relabel ρ) (c.relabel ρ) = (r last c).map (relabelResult ρ f)
  counts : ∀ last c result c', lo ≤ c.nextId → r last c = some (result, c') → lo ≤ c'.nextId

namespace Follows

theorem pure (f : α → β) {a : α} {b : β} (h : b = f a) :
    Follows ρ lo f (Pure.pure a) (Pure.pure b) where
  relabels last c _ := by
    subst h
    rfl
  counts last c result c' hlo hc := by
    obtain ⟨-, rfl⟩ := Prod.mk.inj (Option.some.inj hc)
    exact hlo

theorem bind {f : α → β} {g : γ → δ} {r : Read α} {r' : Read β} {k : α → Read γ} {k' : β → Read δ}
    (h : Follows ρ lo f r r') (hk : ∀ a, Follows ρ lo g (k a) (k' (f a))) :
    Follows ρ lo g (r >>= k) (r' >>= k') where
  relabels last c hlo := by
    have hr := h.relabels last c hlo
    have hcounts := h.counts last c
    simp only [Bind.bind, Read.bind, hr]
    cases hread : r last c with
    | none => rfl
    | some result =>
      obtain ⟨_ | a, c'⟩ := result
      · rfl
      · exact (hk a).relabels last c' (hcounts _ _ hlo hread)
  counts last c result c' hlo hc := by
    simp only [Bind.bind, Read.bind] at hc
    cases hread : r last c with
    | none => simp [hread] at hc
    | some first =>
      obtain ⟨e | a, c₁⟩ := first
      · obtain ⟨-, rfl⟩ := Prod.mk.inj (Option.some.inj (by simpa [hread] using hc))
        exact h.counts last c _ _ hlo hread
      · exact (hk a).counts last c₁ _ _ (h.counts last c _ _ hlo hread) (by simpa [hread] using hc)

theorem map {f : α → β} {g : γ → δ} {r : Read α} {r' : Read β} {k : α → γ} {k' : β → δ}
    (h : Follows ρ lo f r r') (hk : ∀ a, k' (f a) = g (k a)) :
    Follows ρ lo g (k <$> r) (k' <$> r') :=
  h.bind fun a => pure g (hk a)

theorem ite {f : α → β} {p q : Prop} [Decidable p] [Decidable q] {r s : Read α} {r' s' : Read β}
    (hpq : p ↔ q) (hr : Follows ρ lo f r r') (hs : Follows ρ lo f s s') :
    Follows ρ lo f (if p then r else s) (if q then r' else s') := by
  by_cases hp : p
  · rwa [if_pos hp, if_pos (hpq.1 hp)]
  · rwa [if_neg hp, if_neg fun hq => hp (hpq.2 hq)]

theorem exhausted (f : α → β) : Follows ρ lo f Read.exhausted Read.exhausted :=
  ⟨fun _ _ _ => rfl, fun _ _ _ _ _ hc => nomatch hc⟩

/-- A reader that yields at once and leaves the counter alone. -/
theorem ofStill {f : α → β} {r : Read α} {r' : Read β}
    (h : ∀ last c, ∃ result c', r last c = some (result, c') ∧ c'.nextId = c.nextId ∧
      r' (last.relabel ρ) (c.relabel ρ) = some (relabelResult ρ f (result, c'))) :
    Follows ρ lo f r r' where
  relabels last c _ := by
    obtain ⟨result, c', hr, -, hr'⟩ := h last c
    rw [hr, hr']
    rfl
  counts last c result c' hlo hc := by
    obtain ⟨result₁, c₁, hr, hid, -⟩ := h last c
    obtain ⟨-, rfl⟩ := Prod.mk.inj (Option.some.inj (hr.symm.trans hc))
    rwa [hid]

theorem fail (f : α → β) (t : Token) (cause : GrammarCause) :
    Follows ρ lo f (Read.fail t cause) (Read.fail (t.relabel ρ) cause) :=
  ofStill fun _ c => ⟨_, c, rfl, rfl, rfl⟩

theorem note (t : Token) (cause : GrammarCause) :
    Follows ρ lo id (Read.note t cause) (Read.note (t.relabel ρ) cause) := by
  refine ofStill fun _ c => ⟨_, _, rfl, rfl, ?_⟩
  simp [Read.note, Cursor.relabel, GrammarError.relabel, relabelResult]

theorem peek : Follows ρ lo (Token.relabel ρ) Read.peek Read.peek := by
  refine ofStill fun last c => ⟨_, c, rfl, rfl, ?_⟩
  cases hrest : c.rest <;> simp [Read.peek, Cursor.relabel, relabelResult, hrest]

/-- An error at the next token may be recorded first. -/
theorem noteIf {f : α → β} {p : Prop} [Decidable p] {cause : GrammarCause} {r : Read α}
    {r' : Read β} (h : Follows ρ lo f r r') :
    Follows ρ lo f (if p then Read.peek >>= fun t => Read.note t cause >>= fun _ => r else r)
      (if p then Read.peek >>= fun t => Read.note t cause >>= fun _ => r' else r') :=
  .ite Iff.rfl (peek.bind fun t => (note t cause).bind fun _ => h) h

theorem sees (kind : Token.Kind) : Follows ρ lo id (Read.sees kind) (Read.sees kind) := by
  refine ofStill fun last c => ⟨_, c, rfl, rfl, ?_⟩
  cases hrest : c.rest <;> simp [Read.sees, Cursor.relabel, relabelResult, hrest]

theorem atEnd : Follows ρ lo id Read.atEnd Read.atEnd := by
  refine ofStill fun last c => ⟨_, c, rfl, rfl, ?_⟩
  simp [Read.atEnd, Cursor.relabel, relabelResult]

theorem acceptIf {p : Token → Bool} (hp : ∀ t, p (t.relabel ρ) = p t) :
    Follows ρ lo (Option.map (Token.relabel ρ)) (Read.acceptIf p) (Read.acceptIf p) := by
  apply ofStill
  intro last c
  cases hrest : c.rest with
  | nil =>
    refine ⟨.ok none, c, by simp [Read.acceptIf, hrest], rfl, ?_⟩
    simp [Read.acceptIf, Cursor.relabel, relabelResult, hrest]
  | cons t ts =>
    by_cases ht : p t = true
    · refine ⟨.ok (some t), { c with rest := ts }, by simp [Read.acceptIf, hrest, ht], rfl, ?_⟩
      simp [Read.acceptIf, Cursor.relabel, relabelResult, hrest, hp, ht]
    · refine ⟨.ok none, c, by simp [Read.acceptIf, hrest, ht], rfl, ?_⟩
      simp [Read.acceptIf, Cursor.relabel, relabelResult, hrest, hp, ht]

theorem accept (kind : Token.Kind) :
    Follows ρ lo (Option.map (Token.relabel ρ)) (Rules.accept kind) (Rules.accept kind) :=
  acceptIf fun _ => rfl

theorem acceptAny (kinds : List Token.Kind) :
    Follows ρ lo (Option.map (Token.relabel ρ)) (Rules.acceptAny kinds) (Rules.acceptAny kinds) :=
  acceptIf fun _ => rfl

theorem expect (kind : Token.Kind) (cause : GrammarCause) :
    Follows ρ lo (Token.relabel ρ) (Rules.expect kind cause) (Rules.expect kind cause) := by
  apply (accept kind).bind
  intro t
  cases t with
  | none => exact peek.bind fun t => fail _ t cause
  | some t => exact pure _ rfl

theorem freshId (hρ : ρ.CountsFrom lo) : Follows ρ lo ρ.number Read.freshId Read.freshId where
  relabels last c hlo := by
    simp [Read.freshId, Cursor.relabel, relabelResult, hρ c.nextId hlo]
  counts last c result c' hlo hc := by
    obtain ⟨-, rfl⟩ := Prod.mk.inj (Option.some.inj hc)
    exact Nat.le_succ_of_le hlo

theorem resume_map (ts : List Token) :
    resume (ts.map (Token.relabel ρ)) = (resume ts).map (Token.relabel ρ) := by
  induction ts with
  | nil => rfl
  | cons t ts ih =>
    have hhead : ((ts.map (Token.relabel ρ)).head?.map Token.beginsStatement) =
        ts.head?.map Token.beginsStatement := by
      cases ts <;> rfl
    rw [List.map_cons, resume, resume, hhead, Token.relabel_kind, ih]
    split <;> rfl

theorem recovering {f : α → β} {r : Read α} {r' : Read β} (h : Follows ρ lo f r r') :
    Follows ρ lo (Option.map f) (Read.recovering r) (Read.recovering r') where
  relabels last c hlo := by
    simp only [Read.recovering, h.relabels last c hlo]
    cases r last c with
    | none => rfl
    | some result =>
      obtain ⟨e | a, c'⟩ := result
      · simp [relabelResult, Cursor.relabel, resume_map]
      · rfl
  counts last c result c' hlo hc := by
    simp only [Read.recovering] at hc
    cases hread : r last c with
    | none => simp [hread] at hc
    | some first =>
      have hcounts := h.counts last c _ _ hlo hread
      obtain ⟨e | a, c₁⟩ := first
      · obtain ⟨-, rfl⟩ := Prod.mk.inj (Option.some.inj (by simpa [hread] using hc))
        exact hcounts
      · obtain ⟨-, rfl⟩ := Prod.mk.inj (Option.some.inj (by simpa [hread] using hc))
        exact hcounts

end Follows

/-! ### Expressions -/

theorem tiers_relabel {t : Tier} (ht : t ∈ tiers) (l r : Expr) (op : Token) :
    (t.join l op r).relabel ρ = t.join (l.relabel ρ) (op.relabel ρ) (r.relabel ρ) := by
  simp only [tiers, List.mem_cons, List.not_mem_nil, or_false] at ht
  rcases ht with rfl | rfl | rfl | rfl | rfl | rfl <;> rfl

/-- The readers of expressions with a depth follow themselves. -/
structure FollowingExpressions (ρ : Relabeling) (lo n : Nat) : Prop where
  expression : Follows ρ lo (Expr.relabel ρ) (expression n) (expression n)
  tier : ∀ ts, (∀ t ∈ ts, t ∈ tiers) → Follows ρ lo (Expr.relabel ρ) (tier n ts) (tier n ts)
  tierRest : ∀ t ts left, t ∈ tiers → (∀ t ∈ ts, t ∈ tiers) →
    Follows ρ lo (Expr.relabel ρ) (tierRest n t ts left) (tierRest n t ts (left.relabel ρ))
  unary : Follows ρ lo (Expr.relabel ρ) (unary n) (unary n)
  suffixes : ∀ e, Follows ρ lo (Expr.relabel ρ) (suffixes n e) (suffixes n (e.relabel ρ))
  argumentsFrom : ∀ count,
    Follows ρ lo (Expr.relabelAll ρ) (argumentsFrom n count) (argumentsFrom n count)
  primary : Follows ρ lo (Expr.relabel ρ) (primary n) (primary n)

theorem assignment_follows (hρ : ρ.CountsFrom lo) (target value : Expr) (equals : Token) :
    Follows ρ lo (Expr.relabel ρ) (assignment target equals value)
      (assignment (target.relabel ρ) (equals.relabel ρ) (value.relabel ρ)) := by
  cases target with
  | «variable» ref => exact (Follows.freshId hρ).bind fun i => .pure _ rfl
  | get object name => exact .pure _ rfl
  | _ => exact (Follows.note _ _).bind fun _ => .pure _ rfl

section Step

variable {n : Nat} (hρ : ρ.CountsFrom lo) (ih : FollowingExpressions ρ lo n)

include ih

theorem tier_follows {ts : List Tier} (hts : ∀ t ∈ ts, t ∈ tiers) :
    Follows ρ lo (Expr.relabel ρ) (tier (n + 1) ts) (tier (n + 1) ts) := by
  cases ts with
  | nil =>
    rw [tier]
    exact ih.unary
  | cons t ts =>
    obtain ⟨ht, hts⟩ := List.forall_mem_cons.1 hts
    rw [tier]
    exact (ih.tier ts hts).bind fun e => ih.tierRest t ts e ht hts

theorem tierRest_follows {t : Tier} {ts : List Tier} (left : Expr) (ht : t ∈ tiers)
    (hts : ∀ t ∈ ts, t ∈ tiers) :
    Follows ρ lo (Expr.relabel ρ) (tierRest (n + 1) t ts left)
      (tierRest (n + 1) t ts (left.relabel ρ)) := by
  rw [tierRest, tierRest]
  apply (Follows.acceptAny _).bind
  intro operator
  cases operator with
  | none => exact .pure _ rfl
  | some operator =>
    apply (ih.tier ts hts).bind
    intro right
    rw [← tiers_relabel ht]
    exact ih.tierRest t ts _ ht hts

theorem unary_follows : Follows ρ lo (Expr.relabel ρ) (unary (n + 1)) (unary (n + 1)) := by
  rw [unary]
  apply (Follows.acceptAny _).bind
  intro operator
  cases operator with
  | none => exact ih.primary.bind fun e => ih.suffixes e
  | some operator => exact ih.unary.bind fun e => .pure _ rfl

theorem suffixes_follows (e : Expr) :
    Follows ρ lo (Expr.relabel ρ) (suffixes (n + 1) e) (suffixes (n + 1) (e.relabel ρ)) := by
  rw [suffixes, suffixes]
  apply (Follows.acceptAny _).bind
  intro t
  cases t with
  | none => exact .pure _ rfl
  | some t =>
    have hcall (es : List Expr) : Follows ρ lo (Expr.relabel ρ)
        (expect .rightParen .argumentsEnd >>= fun paren => suffixes n (.call e paren es))
        (expect .rightParen .argumentsEnd >>= fun paren =>
          suffixes n (.call (e.relabel ρ) paren (Expr.relabelAll ρ es))) :=
      (Follows.expect _ _).bind fun paren => ih.suffixes (.call e paren es)
    refine .ite Iff.rfl ?_ ?_
    · apply (Follows.sees .rightParen).bind
      intro empty
      cases empty with
      | true => exact hcall []
      | false => exact (ih.argumentsFrom 0).bind hcall
    · exact (Follows.expect _ _).bind fun name => ih.suffixes (.get e name)

theorem argumentsFrom_follows (count : Nat) :
    Follows ρ lo (Expr.relabelAll ρ) (argumentsFrom (n + 1) count)
      (argumentsFrom (n + 1) count) := by
  rw [argumentsFrom]
  apply Follows.noteIf
  apply ih.expression.bind
  intro first
  apply (Follows.accept _).bind
  intro comma
  cases comma with
  | none => exact .pure _ rfl
  | some comma => exact (ih.argumentsFrom (count + 1)).bind fun es => .pure _ rfl

include hρ

theorem primary_follows : Follows ρ lo (Expr.relabel ρ) (primary (n + 1)) (primary (n + 1)) := by
  rw [primary]
  apply (Follows.acceptAny _).bind
  intro t
  cases t with
  | none => exact Follows.peek.bind fun t => .fail _ t _
  | some t =>
    dsimp only [Option.map_some, Token.relabel_kind, Token.relabel_literal]
    split
    · exact .pure _ rfl
    · exact .pure _ rfl
    · exact .pure _ rfl
    · exact (Follows.freshId hρ).bind fun i => .pure _ rfl
    · exact (Follows.freshId hρ).bind fun i => .pure _ rfl
    · apply (Follows.expect _ _).bind
      intro dot
      apply (Follows.expect _ _).bind
      intro method
      exact (Follows.freshId hρ).bind fun i => .pure _ rfl
    · apply ih.expression.bind
      intro inner
      exact (Follows.expect _ _).bind fun _ => .pure _ rfl
    · cases t.literal with
      | none => exact .fail _ t _
      | some literal => exact .pure _ rfl

theorem expression_follows :
    Follows ρ lo (Expr.relabel ρ) (expression (n + 1)) (expression (n + 1)) := by
  rw [expression]
  apply (ih.tier tiers fun _ ht => ht).bind
  intro target
  apply (Follows.accept _).bind
  intro equals
  cases equals with
  | none => exact .pure _ rfl
  | some equals => exact ih.expression.bind fun value => assignment_follows hρ target value equals

end Step

theorem followingExpressions (hρ : ρ.CountsFrom lo) (n : Nat) : FollowingExpressions ρ lo n := by
  induction n with
  | zero =>
    constructor
    all_goals
      intros
      exact Follows.exhausted _
  | succ n ih =>
    exact ⟨expression_follows hρ ih, fun _ => tier_follows ih,
      fun _ _ left => tierRest_follows ih left, unary_follows ih, suffixes_follows ih,
      argumentsFrom_follows ih, primary_follows hρ ih⟩

/-! ### Statements -/

theorem exprStmt_follows (hρ : ρ.CountsFrom lo) (n : Nat) :
    Follows ρ lo (Stmt.relabel ρ) (exprStmt n) (exprStmt n) := by
  apply (followingExpressions hρ n).expression.bind
  intro e
  exact (Follows.expect _ _).bind fun _ => .pure _ rfl

theorem printStmt_follows (hρ : ρ.CountsFrom lo) (n : Nat) :
    Follows ρ lo (Stmt.relabel ρ) (printStmt n) (printStmt n) := by
  apply (followingExpressions hρ n).expression.bind
  intro e
  exact (Follows.expect _ _).bind fun _ => .pure _ rfl

theorem someExpression_follows (hρ : ρ.CountsFrom lo) (n : Nat) :
    Follows ρ lo (Option.map (Expr.relabel ρ)) (some <$> expression n) (some <$> expression n) :=
  (followingExpressions hρ n).expression.map fun _ => rfl

theorem returnStmt_follows (hρ : ρ.CountsFrom lo) (n : Nat) (keyword : Token) :
    Follows ρ lo (Stmt.relabel ρ) (returnStmt n keyword) (returnStmt n (keyword.relabel ρ)) := by
  have hend (value : Option Expr) : Follows ρ lo (Stmt.relabel ρ)
      (expect .semicolon .returnEnd >>= fun _ => Pure.pure (.ret keyword value))
      (expect .semicolon .returnEnd >>= fun _ =>
        Pure.pure (.ret (keyword.relabel ρ) (value.map (Expr.relabel ρ)))) :=
    (Follows.expect _ _).bind fun _ => .pure _ rfl
  apply (Follows.sees _).bind
  intro empty
  cases empty with
  | true => exact hend none
  | false => exact (someExpression_follows hρ n).bind hend

theorem varStmt_follows (hρ : ρ.CountsFrom lo) (n : Nat) :
    Follows ρ lo (Stmt.relabel ρ) (varStmt n) (varStmt n) := by
  apply (Follows.expect _ _).bind
  intro name
  have hend (value : Option Expr) : Follows ρ lo (Stmt.relabel ρ)
      (expect .semicolon .variableEnd >>= fun _ => Pure.pure (.var name value))
      (expect .semicolon .variableEnd >>= fun _ =>
        Pure.pure (.var (name.relabel ρ) (value.map (Expr.relabel ρ)))) :=
    (Follows.expect _ _).bind fun _ => .pure _ rfl
  apply (Follows.accept _).bind
  intro equals
  cases equals with
  | none => exact hend none
  | some equals => exact (someExpression_follows hρ n).bind hend

theorem forInitial_follows (hρ : ρ.CountsFrom lo) (n : Nat) :
    Follows ρ lo (Option.map (Stmt.relabel ρ)) (forInitial n) (forInitial n) := by
  apply (Follows.acceptAny _).bind
  intro t
  cases t with
  | none => exact (exprStmt_follows hρ n).map fun _ => rfl
  | some t =>
    exact .ite Iff.rfl (.pure _ rfl) ((varStmt_follows hρ n).map fun _ => rfl)

theorem expressionUnless_follows (hρ : ρ.CountsFrom lo) (n : Nat) (kind : Token.Kind) :
    Follows ρ lo (Option.map (Expr.relabel ρ)) (expressionUnless n kind)
      (expressionUnless n kind) := by
  apply (Follows.sees _).bind
  intro absent
  cases absent with
  | true => exact .pure _ rfl
  | false => exact someExpression_follows hρ n

theorem parametersFrom_follows (n : Nat) : ∀ count,
    Follows ρ lo (List.map (Token.relabel ρ)) (parametersFrom n count)
      (parametersFrom n count) := by
  induction n with
  | zero => exact fun _ => .exhausted _
  | succ n ih =>
    intro count
    rw [parametersFrom]
    apply Follows.noteIf
    apply (Follows.expect _ _).bind
    intro first
    apply (Follows.accept _).bind
    intro comma
    cases comma with
    | none => exact .pure _ rfl
    | some comma => exact (ih (count + 1)).bind fun ps => .pure _ rfl

theorem functionHead_follows (n : Nat) (role : FunctionRole) :
    Follows ρ lo (Prod.map (Token.relabel ρ) (List.map (Token.relabel ρ))) (functionHead n role)
      (functionHead n role) := by
  apply (Follows.expect _ _).bind
  intro name
  apply (Follows.expect _ _).bind
  intro left
  have hend (ps : List Token) :
      Follows ρ lo (Prod.map (Token.relabel ρ) (List.map (Token.relabel ρ)))
        (expect .rightParen .parametersEnd >>= fun _ =>
          expect .leftBrace (.functionBodyStart role) >>= fun _ => Pure.pure (name, ps))
        (expect .rightParen .parametersEnd >>= fun _ =>
          expect .leftBrace (.functionBodyStart role) >>= fun _ =>
            Pure.pure (name.relabel ρ, ps.map (Token.relabel ρ))) :=
    (Follows.expect _ _).bind fun _ => (Follows.expect _ _).bind fun _ => .pure _ rfl
  apply (Follows.sees _).bind
  intro empty
  cases empty with
  | true => exact hend []
  | false => exact (parametersFrom_follows n 0).bind hend

theorem forLoop_relabel (initial : Option Stmt) (condition increment : Option Expr) (body : Stmt) :
    (Stmt.forLoop initial condition increment body).relabel ρ =
      Stmt.forLoop (initial.map (Stmt.relabel ρ)) (condition.map (Expr.relabel ρ))
        (increment.map (Expr.relabel ρ)) (body.relabel ρ) := by
  cases initial <;> cases condition <;> cases increment <;> rfl

/-- The readers of statements with a depth follow themselves. -/
structure FollowingStatements (ρ : Relabeling) (lo n : Nat) : Prop where
  statements : ∀ inBlock,
    Follows ρ lo (Stmt.relabelAll ρ) (statements n inBlock) (statements n inBlock)
  declaration : Follows ρ lo (Stmt.relabel ρ) (declaration n) (declaration n)
  classStmt : Follows ρ lo (Stmt.relabel ρ) (classStmt n) (classStmt n)
  methods : Follows ρ lo (FunctionDecl.relabelAll ρ) (methods n) (methods n)
  function : ∀ role, Follows ρ lo (FunctionDecl.relabel ρ) (function n role) (function n role)
  block : Follows ρ lo (Stmt.relabelAll ρ) (block n) (block n)
  statement : Follows ρ lo (Stmt.relabel ρ) (statement n) (statement n)

section Step

variable {n : Nat} (hρ : ρ.CountsFrom lo) (ih : FollowingStatements ρ lo n)

include ih

theorem statements_follows (inBlock : Bool) :
    Follows ρ lo (Stmt.relabelAll ρ) (statements (n + 1) inBlock) (statements (n + 1) inBlock) := by
  rw [statements]
  apply Follows.atEnd.bind
  intro atEnd
  apply (Follows.sees _).bind
  intro closing
  dsimp only [id_eq]
  split
  · exact .pure _ rfl
  · apply ih.declaration.recovering.bind
    intro first
    apply (ih.statements inBlock).bind
    intro others
    refine .pure _ ?_
    cases first <;> simp [Stmt.relabelAll]

theorem methods_follows :
    Follows ρ lo (FunctionDecl.relabelAll ρ) (methods (n + 1)) (methods (n + 1)) := by
  rw [methods]
  apply Follows.atEnd.bind
  intro atEnd
  apply (Follows.sees _).bind
  intro closing
  dsimp only [id_eq]
  split
  · exact .pure _ rfl
  · apply (ih.function .method).bind
    intro first
    exact ih.methods.bind fun others => .pure _ rfl

theorem function_follows (role : FunctionRole) :
    Follows ρ lo (FunctionDecl.relabel ρ) (function (n + 1) role) (function (n + 1) role) := by
  rw [function]
  apply (functionHead_follows n role).bind
  intro head
  exact ih.block.bind fun body => .pure _ rfl

theorem block_follows : Follows ρ lo (Stmt.relabelAll ρ) (block (n + 1)) (block (n + 1)) := by
  rw [block]
  apply (ih.statements true).bind
  intro body
  exact (Follows.expect _ _).bind fun _ => .pure _ rfl

include hρ

theorem declaration_follows :
    Follows ρ lo (Stmt.relabel ρ) (declaration (n + 1)) (declaration (n + 1)) := by
  rw [declaration]
  apply (Follows.acceptAny _).bind
  intro t
  cases t with
  | none => exact ih.statement
  | some t =>
    dsimp only [Option.map_some, Token.relabel_kind]
    split
    · exact ih.classStmt
    · exact (ih.function .function).bind fun d => .pure _ rfl
    · exact varStmt_follows hρ n

theorem classStmt_follows :
    Follows ρ lo (Stmt.relabel ρ) (classStmt (n + 1)) (classStmt (n + 1)) := by
  rw [classStmt]
  apply (Follows.expect _ _).bind
  intro name
  have hbody (superclass : Option Reference) : Follows ρ lo (Stmt.relabel ρ)
      (expect .leftBrace .classBodyStart >>= fun _ => methods n >>= fun ds =>
        expect .rightBrace .classBodyEnd >>= fun _ => Pure.pure (.cls name superclass ds))
      (expect .leftBrace .classBodyStart >>= fun _ => methods n >>= fun ds =>
        expect .rightBrace .classBodyEnd >>= fun _ =>
          Pure.pure (.cls (name.relabel ρ) (superclass.map (Reference.relabel ρ)) ds)) := by
    apply (Follows.expect _ _).bind
    intro left
    apply ih.methods.bind
    intro ds
    exact (Follows.expect _ _).bind fun _ => .pure _ rfl
  apply (Follows.accept _).bind
  intro less
  cases less with
  | none => exact hbody none
  | some less =>
    apply (Follows.expect _ _).bind
    intro superclass
    exact (Follows.freshId hρ).bind fun i => hbody (some ⟨superclass, i⟩)

theorem statement_follows :
    Follows ρ lo (Stmt.relabel ρ) (statement (n + 1)) (statement (n + 1)) := by
  rw [statement]
  apply (Follows.acceptAny _).bind
  intro t
  cases t with
  | none => exact exprStmt_follows hρ n
  | some t =>
    dsimp only [Option.map_some, Token.relabel_kind]
    split
    · apply (Follows.expect _ _).bind
      intro left
      apply (forInitial_follows hρ n).bind
      intro initial
      apply (expressionUnless_follows hρ n _).bind
      intro condition
      apply (Follows.expect _ _).bind
      intro semicolon
      apply (expressionUnless_follows hρ n _).bind
      intro increment
      apply (Follows.expect _ _).bind
      intro right
      apply ih.statement.bind
      intro body
      exact .pure _ (forLoop_relabel initial condition increment body).symm
    · apply (Follows.expect _ _).bind
      intro left
      apply (followingExpressions hρ n).expression.bind
      intro condition
      apply (Follows.expect _ _).bind
      intro right
      apply ih.statement.bind
      intro positive
      apply (Follows.accept _).bind
      intro otherwise
      cases otherwise with
      | none => exact .pure _ rfl
      | some otherwise =>
        apply (ih.statement.map (g := Option.map (Stmt.relabel ρ)) fun _ => rfl).bind
        intro negative
        refine .pure _ ?_
        cases negative <;> rfl
    · apply (Follows.expect _ _).bind
      intro left
      apply (followingExpressions hρ n).expression.bind
      intro condition
      apply (Follows.expect _ _).bind
      intro right
      exact ih.statement.bind fun body => .pure _ rfl
    · exact returnStmt_follows hρ n t
    · exact ih.block.bind fun body => .pure _ rfl
    · exact printStmt_follows hρ n

end Step

theorem followingStatements (hρ : ρ.CountsFrom lo) (n : Nat) : FollowingStatements ρ lo n := by
  induction n with
  | zero =>
    constructor
    all_goals
      intros
      exact Follows.exhausted _
  | succ n ih =>
    exact ⟨statements_follows ih, declaration_follows hρ ih, classStmt_follows hρ ih,
      methods_follows ih, function_follows ih, block_follows ih, statement_follows hρ ih⟩

end Read

namespace Program

variable {ρ : Relabeling} {nextId : Nat}

theorem body_map_relabel (tokens : List Token) :
    body (tokens.map (Token.relabel ρ)) = (body tokens).map (Token.relabel ρ) := by
  rw [body, List.takeWhile_map]
  rfl

/-- Reading a program whose tokens and counter are relabelled yields the program relabelled, or the
errors at the relabelled tokens. -/
theorem ofTokens_relabel (hρ : ρ.CountsFrom nextId) {tokens : List Token}
    (hlast : lastToken (tokens.map (Token.relabel ρ)) = (lastToken tokens).relabel ρ) :
    (ofTokens (ρ.number nextId) (tokens.map (Token.relabel ρ))).outcome =
        (match (ofTokens nextId tokens).outcome with
          | .ok program => .ok (Stmt.relabelAll ρ program)
          | .error errors => .error (errors.map (GrammarError.relabel ρ))) ∧
      (ofTokens (ρ.number nextId) (tokens.map (Token.relabel ρ))).nextId =
        ρ.number (ofTokens nextId tokens).nextId := by
  have hread := ((Read.followingStatements hρ (depthBound tokens)).statements false).relabels
    (lastToken tokens) ⟨body tokens, #[], nextId⟩ (Nat.le_refl _)
  rw [← hlast, Cursor.relabel, ← body_map_relabel, Array.map_empty] at hread
  have hdepth : depthBound (tokens.map (Token.relabel ρ)) = depthBound tokens := by
    rw [depthBound, List.length_map, depthBound]
  rw [ofTokens, ofTokens, hdepth, hread]
  cases Rules.statements (m := Read) (depthBound tokens) false (lastToken tokens)
      ⟨body tokens, #[], nextId⟩ with
  | none => exact ⟨rfl, rfl⟩
  | some result =>
    obtain ⟨e | program, c⟩ := result
    · simp [Read.relabelResult, Cursor.relabel]
    · by_cases hempty : c.errors.isEmpty = true
      · simp [Read.relabelResult, Cursor.relabel, Array.isEmpty_iff.1 hempty]
      · have hne : c.errors ≠ #[] := by simpa using hempty
        simp [Read.relabelResult, Cursor.relabel, hne]

/-- A source text is read alike wherever the counter of references starts: the reports are the same,
and the program has its references numbered from there. -/
theorem ofSource_relabel (hρ : ρ.CountsFrom nextId) (hline : ρ.KeepsLines) (source : String) :
    ofSource (ρ.number nextId) source =
      ((ofSource nextId source).1.map (Stmt.relabelAll ρ),
        ρ.number (ofSource nextId source).2) := by
  have htokens := Token.map_relabel_eq_self hline (Source.tokens source)
  obtain ⟨houtcome, hnext⟩ := @ofTokens_relabel ρ nextId hρ (Source.tokens source)
    (by rw [htokens, Token.relabel_eq_self hline])
  have herrors := GrammarError.map_relabel_eq_self hline
  rw [htokens] at houtcome hnext
  simp only [ofSource, houtcome, hnext]
  cases (ofTokens nextId (Source.tokens source)).outcome with
  | error errors => simp [herrors, Except.map]
  | ok program =>
    by_cases hlexical : (Source.lexicalReports source).isEmpty = true <;>
      simp [hlexical, Except.map]

end Program

end ClassScript
