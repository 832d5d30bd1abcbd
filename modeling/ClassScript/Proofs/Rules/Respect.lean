import ClassScript.Program.Statement

/-! # Relations that the rules respect

Two readers are compared by a relation between what one does and what the other does.  If the
relation is respected by every operation and by doing one thing after another, it is respected by
the rules, and the second reader may go deeper than the first one.  The rules of expressions never
take a semicolon, so for them the relation need not be respected there; a statement that ends in a
semicolon may be compared by another relation than the expressions before it.
-/
namespace ClassScript.Rules

open TokenReader

variable {m m' : Type → Type} [TokenReader m] [TokenReader m']

/-- The relation is respected by all that the rules of expressions do.  A reader whose depth is used
up is related to anything. -/
structure RespectsExpressions (R : ∀ α : Type, m α → m' α → Prop) : Prop where
  pure : ∀ {α : Type} (a : α), R α (pure a) (pure a)
  bind : ∀ {α β : Type} {r : m α} {r' : m' α} {f : α → m β} {f' : α → m' β},
    R α r r' → (∀ a, R β (f a) (f' a)) → R β (r >>= f) (r' >>= f')
  map : ∀ {α β : Type} {r : m α} {r' : m' α} (f : α → β), R α r r' → R β (f <$> r) (f <$> r')
  exhausted : ∀ {α : Type} (r' : m' α), R α exhausted r'
  fail : ∀ {α : Type} t cause, R α (fail t cause) (fail t cause)
  note : ∀ t cause, R Unit (note t cause) (note t cause)
  freshId : R Nat freshId freshId
  peek : R Token peek peek
  sees : ∀ kind, R Bool (sees kind) (sees kind)
  acceptOther : ∀ p : Token → Bool, (∀ t, t.kind = .semicolon → p t = false) →
    R (Option Token) (acceptIf p) (acceptIf p)

variable {R : ∀ α : Type, m α → m' α → Prop} {n n' : Nat}

/-! ### Expressions -/

/-- The rules of expressions of the two depths are related. -/
structure ExpressionsRelated (R : ∀ α : Type, m α → m' α → Prop) (n n' : Nat) : Prop where
  expression : R Expr (expression n) (expression n')
  tier : ∀ ts, (∀ t ∈ ts, t ∈ tiers) → R Expr (tier n ts) (tier n' ts)
  tierRest : ∀ t ts left, t ∈ tiers → (∀ t ∈ ts, t ∈ tiers) →
    R Expr (tierRest n t ts left) (tierRest n' t ts left)
  unary : R Expr (unary n) (unary n')
  suffixes : ∀ e, R Expr (suffixes n e) (suffixes n' e)
  argumentsFrom : ∀ count, R (List Expr) (argumentsFrom n count) (argumentsFrom n' count)
  primary : R Expr (primary n) (primary n')

namespace RespectsExpressions

variable (hR : RespectsExpressions R)

include hR

theorem accept {kind : Token.Kind} (hkind : kind ≠ .semicolon) :
    R (Option Token) (accept kind) (accept kind) := by
  apply hR.acceptOther
  intro t ht
  simpa [ht] using hkind.symm

theorem acceptAny {kinds : List Token.Kind} (hkinds : .semicolon ∉ kinds) :
    R (Option Token) (acceptAny kinds) (acceptAny kinds) := by
  apply hR.acceptOther
  intro t ht
  simpa [ht] using hkinds

/-- What stands in the way of a token that has to be there is looked at and reported. -/
theorem expectOf {kind : Token.Kind} (cause : GrammarCause)
    (h : R (Option Token) (Rules.accept kind) (Rules.accept kind)) :
    R Token (expect kind cause) (expect kind cause) := by
  apply hR.bind h
  intro t
  cases t with
  | none => exact hR.bind hR.peek fun t => hR.fail t cause
  | some t => exact hR.pure t

theorem expect {kind : Token.Kind} (hkind : kind ≠ .semicolon) (cause : GrammarCause) :
    R Token (expect kind cause) (expect kind cause) :=
  hR.expectOf cause (hR.accept hkind)

/-- An error at the next token may be recorded first. -/
theorem noteIf {α : Type} (p : Prop) [Decidable p] (cause : GrammarCause) {r : m α} {r' : m' α}
    (h : R α r r') :
    R α
      (if p then TokenReader.peek >>= fun t => TokenReader.note t cause >>= fun _ => r else r)
      (if p then TokenReader.peek >>= fun t => TokenReader.note t cause >>= fun _ => r'
        else r') := by
  split
  · exact hR.bind hR.peek fun t => hR.bind (hR.note t cause) fun _ => h
  · exact h

theorem assignment (target value : Expr) (equals : Token) :
    R Expr (assignment target equals value) (assignment target equals value) := by
  cases target with
  | «variable» ref => exact hR.bind hR.freshId fun id => hR.pure _
  | get object name => exact hR.pure _
  | _ => exact hR.bind (hR.note _ _) fun _ => hR.pure _

section Step

variable (ih : ExpressionsRelated R n n')

include ih

theorem tier {ts : List Tier} (hts : ∀ t ∈ ts, t ∈ tiers) :
    R Expr (tier (n + 1) ts) (tier (n' + 1) ts) := by
  cases ts with
  | nil =>
    rw [Rules.tier, Rules.tier]
    exact ih.unary
  | cons t ts =>
    obtain ⟨ht, hts⟩ := List.forall_mem_cons.1 hts
    rw [Rules.tier, Rules.tier]
    exact hR.bind (ih.tier ts hts) fun left => ih.tierRest t ts left ht hts

theorem tierRest {t : Tier} {ts : List Tier} (left : Expr) (ht : t ∈ tiers)
    (hts : ∀ t ∈ ts, t ∈ tiers) :
    R Expr (tierRest (n + 1) t ts left) (tierRest (n' + 1) t ts left) := by
  have hoperators : ∀ t ∈ tiers, .semicolon ∉ t.operators := by decide
  rw [Rules.tierRest, Rules.tierRest]
  apply hR.bind (hR.acceptAny (hoperators t ht))
  intro operator
  cases operator with
  | none => exact hR.pure left
  | some operator => exact hR.bind (ih.tier ts hts) fun right => ih.tierRest t ts _ ht hts

theorem unary : R Expr (unary (n + 1)) (unary (n' + 1)) := by
  rw [Rules.unary, Rules.unary]
  apply hR.bind (hR.acceptAny (by decide))
  intro operator
  cases operator with
  | none => exact hR.bind ih.primary ih.suffixes
  | some operator => exact hR.bind ih.unary fun right => hR.pure _

theorem suffixes (e : Expr) : R Expr (suffixes (n + 1) e) (suffixes (n' + 1) e) := by
  rw [Rules.suffixes, Rules.suffixes]
  apply hR.bind (hR.acceptAny (by decide))
  intro t
  cases t with
  | none => exact hR.pure e
  | some t =>
    have hcall (es : List Expr) : R Expr
        (Rules.expect .rightParen .argumentsEnd >>= fun paren =>
          Rules.suffixes n (.call e paren es))
        (Rules.expect .rightParen .argumentsEnd >>= fun paren =>
          Rules.suffixes n' (.call e paren es)) :=
      hR.bind (hR.expect (by decide) _) fun paren => ih.suffixes _
    dsimp only
    split
    · apply hR.bind (hR.sees _)
      intro empty
      cases empty with
      | true => exact hR.bind (hR.pure []) hcall
      | false => exact hR.bind (ih.argumentsFrom 0) hcall
    · exact hR.bind (hR.expect (by decide) _) fun name => ih.suffixes _

theorem argumentsFrom (count : Nat) :
    R (List Expr) (argumentsFrom (n + 1) count) (argumentsFrom (n' + 1) count) := by
  rw [Rules.argumentsFrom, Rules.argumentsFrom]
  apply hR.noteIf
  apply hR.bind ih.expression
  intro first
  apply hR.bind (hR.accept (by decide))
  intro comma
  cases comma with
  | none => exact hR.pure [first]
  | some comma => exact hR.bind (ih.argumentsFrom (count + 1)) fun others => hR.pure _

theorem primary : R Expr (primary (n + 1)) (primary (n' + 1)) := by
  rw [Rules.primary, Rules.primary]
  apply hR.bind (hR.acceptAny (by decide))
  intro t
  cases t with
  | none => exact hR.bind hR.peek fun t => hR.fail t _
  | some t =>
    dsimp only
    split
    · exact hR.pure _
    · exact hR.pure _
    · exact hR.pure _
    · exact hR.bind hR.freshId fun id => hR.pure _
    · exact hR.bind hR.freshId fun id => hR.pure _
    · apply hR.bind (hR.expect (by decide) _)
      intro dot
      apply hR.bind (hR.expect (by decide) _)
      intro method
      exact hR.bind hR.freshId fun id => hR.pure _
    · apply hR.bind ih.expression
      intro inner
      exact hR.bind (hR.expect (by decide) _) fun _ => hR.pure _
    · cases t.literal with
      | none => exact hR.fail t _
      | some literal => exact hR.pure _

theorem expression : R Expr (expression (n + 1)) (expression (n' + 1)) := by
  rw [Rules.expression, Rules.expression]
  apply hR.bind (ih.tier tiers fun _ ht => ht)
  intro target
  apply hR.bind (hR.accept (by decide))
  intro equals
  cases equals with
  | none => exact hR.pure target
  | some equals => exact hR.bind ih.expression fun value => hR.assignment target value equals

end Step

/-- A relation that is respected by what the rules of expressions do is respected by these rules,
whatever more the second reader has of depth. -/
theorem expressions (h : n ≤ n') : ExpressionsRelated R n n' := by
  induction n generalizing n' with
  | zero =>
    constructor
    all_goals
      intros
      exact hR.exhausted _
  | succ n ih =>
    obtain ⟨n', rfl⟩ : ∃ k, n' = k + 1 := ⟨n' - 1, by omega⟩
    have ih := ih (Nat.le_of_succ_le_succ h)
    exact ⟨hR.expression ih, fun _ => hR.tier ih, fun _ _ left => hR.tierRest ih left,
      hR.unary ih, hR.suffixes ih, hR.argumentsFrom ih, hR.primary ih⟩

end RespectsExpressions

/-! ### Statements that end in a semicolon -/

/-- One relation is respected by what the rules of expressions do, and another one by an expression
and the semicolon that ends the statement. -/
structure RespectsClosing (R R' : ∀ α : Type, m α → m' α → Prop) : Prop
    extends RespectsExpressions R where
  before : ∀ {α β : Type} {r : m α} {r' : m' α} {f : α → m β} {f' : α → m' β},
    R α r r' → (∀ a, R' β (f a) (f' a)) → R' β (r >>= f) (r' >>= f')
  closed : ∀ {α : Type} cause (a : α),
    R' α (Rules.expect .semicolon cause >>= fun _ => Pure.pure a)
      (Rules.expect .semicolon cause >>= fun _ => Pure.pure a)

namespace RespectsClosing

variable {R' : ∀ α : Type, m α → m' α → Prop} (hR : RespectsClosing R R') (hn : n ≤ n')

include hR hn

theorem someExpression : R (Option Expr) (some <$> expression n) (some <$> expression n') :=
  hR.map some (hR.expressions hn).expression

theorem exprStmt : R' Stmt (exprStmt n) (exprStmt n') :=
  hR.before (hR.expressions hn).expression fun _ => hR.closed _ _

theorem printStmt : R' Stmt (printStmt n) (printStmt n') :=
  hR.before (hR.expressions hn).expression fun _ => hR.closed _ _

theorem returnStmt (keyword : Token) : R' Stmt (returnStmt n keyword) (returnStmt n' keyword) := by
  apply hR.before (hR.sees _)
  intro empty
  cases empty with
  | true => exact hR.before (hR.pure none) fun value => hR.closed _ _
  | false => exact hR.before (hR.someExpression hn) fun value => hR.closed _ _

theorem varStmt : R' Stmt (varStmt n) (varStmt n') := by
  apply hR.before (hR.expect (by decide) _)
  intro name
  apply hR.before (hR.accept (by decide))
  intro equals
  cases equals with
  | none => exact hR.before (hR.pure none) fun value => hR.closed _ _
  | some equals => exact hR.before (hR.someExpression hn) fun value => hR.closed _ _

end RespectsClosing

/-! ### Statements -/

/-- The relation is respected by all that the rules do. -/
structure Respects (R : ∀ α : Type, m α → m' α → Prop) : Prop extends RespectsExpressions R where
  atEnd : R Bool atEnd atEnd
  acceptIf : ∀ p, R (Option Token) (acceptIf p) (acceptIf p)
  recovering : ∀ n n', R Stmt (declaration n) (declaration n') →
    R (Option Stmt) (recovering (declaration n)) (recovering (declaration n'))

/-- The rules of statements of the two depths are related. -/
structure StatementsRelated (R : ∀ α : Type, m α → m' α → Prop) (n n' : Nat) : Prop where
  statements : ∀ inBlock, R (List Stmt) (statements n inBlock) (statements n' inBlock)
  declaration : R Stmt (declaration n) (declaration n')
  classStmt : R Stmt (classStmt n) (classStmt n')
  methods : R (List FunctionDecl) (methods n) (methods n')
  function : ∀ role, R FunctionDecl (function n role) (function n' role)
  block : R (List Stmt) (block n) (block n')
  statement : R Stmt (statement n) (statement n')

namespace Respects

variable (hR : Respects R)

include hR

theorem acceptAny (kinds : List Token.Kind) :
    R (Option Token) (acceptAny kinds) (acceptAny kinds) :=
  hR.acceptIf _

theorem expect (kind : Token.Kind) (cause : GrammarCause) :
    R Token (expect kind cause) (expect kind cause) :=
  hR.expectOf cause (hR.acceptIf _)

/-- The token that ends a phrase. -/
theorem closed {α : Type} (kind : Token.Kind) (cause : GrammarCause) (a : α) :
    R α (Rules.expect kind cause >>= fun _ => Pure.pure a)
      (Rules.expect kind cause >>= fun _ => Pure.pure a) :=
  hR.bind (hR.expect kind cause) fun _ => hR.pure a

/-- To end a statement is one more thing to do. -/
theorem closing : RespectsClosing R R where
  toRespectsExpressions := hR.toRespectsExpressions
  before := hR.bind
  closed cause a := hR.closed .semicolon cause a

section Clauses

variable (hn : n ≤ n')

include hn

theorem forInitial : R (Option Stmt) (forInitial n) (forInitial n') := by
  apply hR.bind (hR.acceptAny _)
  intro t
  cases t with
  | none => exact hR.map some (hR.closing.exprStmt hn)
  | some t =>
    dsimp only
    split
    · exact hR.pure none
    · exact hR.map some (hR.closing.varStmt hn)

theorem expressionUnless (kind : Token.Kind) :
    R (Option Expr) (expressionUnless n kind) (expressionUnless n' kind) := by
  apply hR.bind (hR.sees _)
  intro absent
  cases absent with
  | true => exact hR.pure none
  | false => exact hR.closing.someExpression hn

theorem parametersFrom (count : Nat) :
    R (List Token) (parametersFrom n count) (parametersFrom n' count) := by
  induction n generalizing n' count with
  | zero => exact hR.exhausted _
  | succ n ih =>
    obtain ⟨n', rfl⟩ : ∃ k, n' = k + 1 := ⟨n' - 1, by omega⟩
    rw [Rules.parametersFrom, Rules.parametersFrom]
    apply hR.noteIf
    apply hR.bind (hR.expect _ _)
    intro first
    apply hR.bind (hR.acceptIf _)
    intro comma
    cases comma with
    | none => exact hR.pure [first]
    | some comma =>
      exact hR.bind (ih (Nat.le_of_succ_le_succ hn) (count + 1)) fun others => hR.pure _

theorem functionHead (role : FunctionRole) :
    R (Token × List Token) (functionHead n role) (functionHead n' role) := by
  apply hR.bind (hR.expect _ _)
  intro name
  apply hR.bind (hR.expect _ _)
  intro left
  have hend (ps : List Token) : R (Token × List Token)
      (Rules.expect .rightParen .parametersEnd >>= fun _ =>
        Rules.expect .leftBrace (.functionBodyStart role) >>= fun _ => Pure.pure (name, ps))
      (Rules.expect .rightParen .parametersEnd >>= fun _ =>
        Rules.expect .leftBrace (.functionBodyStart role) >>= fun _ => Pure.pure (name, ps)) :=
    hR.bind (hR.expect _ _) fun _ => hR.closed _ _ _
  apply hR.bind (hR.sees _)
  intro empty
  cases empty with
  | true => exact hR.bind (hR.pure []) hend
  | false => exact hR.bind (hR.parametersFrom hn 0) hend

end Clauses

section Step

variable (hn : n ≤ n') (ih : StatementsRelated R n n')

include ih

theorem statements (inBlock : Bool) :
    R (List Stmt) (statements (n + 1) inBlock) (statements (n' + 1) inBlock) := by
  rw [Rules.statements, Rules.statements]
  apply hR.bind hR.atEnd
  intro atEnd
  apply hR.bind (hR.sees _)
  intro closing
  split
  · exact hR.pure []
  · apply hR.bind (hR.recovering n n' ih.declaration)
    intro first
    exact hR.bind (ih.statements inBlock) fun others => hR.pure _

theorem methods : R (List FunctionDecl) (methods (n + 1)) (methods (n' + 1)) := by
  rw [Rules.methods, Rules.methods]
  apply hR.bind hR.atEnd
  intro atEnd
  apply hR.bind (hR.sees _)
  intro closing
  split
  · exact hR.pure []
  · apply hR.bind (ih.function .method)
    intro first
    exact hR.bind ih.methods fun others => hR.pure _

theorem block : R (List Stmt) (block (n + 1)) (block (n' + 1)) := by
  rw [Rules.block, Rules.block]
  apply hR.bind (ih.statements true)
  intro body
  exact hR.closed _ _ _

theorem classStmt : R Stmt (classStmt (n + 1)) (classStmt (n' + 1)) := by
  rw [Rules.classStmt, Rules.classStmt]
  apply hR.bind (hR.expect _ _)
  intro name
  have hbody (superclass : Option Reference) : R Stmt
      (Rules.expect .leftBrace .classBodyStart >>= fun _ => Rules.methods n >>= fun ds =>
        Rules.expect .rightBrace .classBodyEnd >>= fun _ => Pure.pure (.cls name superclass ds))
      (Rules.expect .leftBrace .classBodyStart >>= fun _ => Rules.methods n' >>= fun ds =>
        Rules.expect .rightBrace .classBodyEnd >>= fun _ =>
          Pure.pure (.cls name superclass ds)) := by
    apply hR.bind (hR.expect _ _)
    intro left
    apply hR.bind ih.methods
    intro ds
    exact hR.closed _ _ _
  apply hR.bind (hR.acceptIf _)
  intro less
  cases less with
  | none => exact hR.bind (hR.pure none) hbody
  | some less =>
    apply hR.bind (hR.expect _ _)
    intro superclass
    apply hR.bind hR.freshId
    intro id
    exact hR.bind (hR.pure _) hbody

include hn

theorem declaration : R Stmt (declaration (n + 1)) (declaration (n' + 1)) := by
  rw [Rules.declaration, Rules.declaration]
  apply hR.bind (hR.acceptAny _)
  intro t
  cases t with
  | none => exact ih.statement
  | some t =>
    dsimp only
    split
    · exact ih.classStmt
    · exact hR.bind (ih.function .function) fun d => hR.pure _
    · exact hR.closing.varStmt hn

theorem function (role : FunctionRole) :
    R FunctionDecl (function (n + 1) role) (function (n' + 1) role) := by
  rw [Rules.function, Rules.function]
  apply hR.bind (hR.functionHead hn role)
  intro head
  exact hR.bind ih.block fun body => hR.pure _

theorem statement : R Stmt (statement (n + 1)) (statement (n' + 1)) := by
  rw [Rules.statement, Rules.statement]
  apply hR.bind (hR.acceptAny _)
  intro t
  cases t with
  | none => exact hR.closing.exprStmt hn
  | some t =>
    dsimp only
    split
    · apply hR.bind (hR.expect _ _)
      intro left
      apply hR.bind (hR.forInitial hn)
      intro initial
      apply hR.bind (hR.expressionUnless hn _)
      intro condition
      apply hR.bind (hR.expect _ _)
      intro semicolon
      apply hR.bind (hR.expressionUnless hn _)
      intro increment
      apply hR.bind (hR.expect _ _)
      intro right
      exact hR.bind ih.statement fun body => hR.pure _
    · apply hR.bind (hR.expect _ _)
      intro left
      apply hR.bind (hR.expressions hn).expression
      intro condition
      apply hR.bind (hR.expect _ _)
      intro right
      apply hR.bind ih.statement
      intro positive
      apply hR.bind (hR.acceptIf _)
      intro otherwise
      cases otherwise with
      | none => exact hR.bind (hR.pure none) fun negative => hR.pure _
      | some otherwise =>
        exact hR.bind (hR.map some ih.statement) fun negative => hR.pure _
    · apply hR.bind (hR.expect _ _)
      intro left
      apply hR.bind (hR.expressions hn).expression
      intro condition
      apply hR.bind (hR.expect _ _)
      intro right
      exact hR.bind ih.statement fun body => hR.pure _
    · exact hR.closing.returnStmt hn t
    · exact hR.bind ih.block fun body => hR.pure _
    · exact hR.closing.printStmt hn

end Step

/-- A relation that is respected by what the rules do is respected by the rules, whatever more the
second reader has of depth. -/
theorem all (h : n ≤ n') : StatementsRelated R n n' := by
  induction n generalizing n' with
  | zero =>
    constructor
    all_goals
      intros
      exact hR.exhausted _
  | succ n ih =>
    obtain ⟨n', rfl⟩ : ∃ k, n' = k + 1 := ⟨n' - 1, by omega⟩
    have hn := Nat.le_of_succ_le_succ h
    have ih := ih hn
    exact ⟨hR.statements ih, hR.declaration hn ih, hR.classStmt ih, hR.methods ih,
      hR.function hn ih, hR.block ih, hR.statement hn ih⟩

end Respects

end ClassScript.Rules
