import ClassScript.Proofs.Grammar.Phrase

/-! # What phrases begin with

The kinds of the first tokens of phrases.  They tell a reader with one token of lookahead which rule
applies.
-/
namespace ClassScript.Grammar

def primaryFirst : List Token.Kind :=
  [.falseWord, .trueWord, .nilWord, .number, .string, .identifier, .thisWord, .superWord,
    .leftParen]

def expressionFirst : List Token.Kind := .bang :: .minus :: primaryFirst

def statementFirst : List Token.Kind :=
  [.forWord, .ifWord, .whileWord, .returnWord, .leftBrace, .printWord] ++ expressionFirst

def declarationFirst : List Token.Kind := [.classWord, .funWord, .varWord] ++ statementFirst

/-- There is a first token, and it is of one of the kinds. -/
def Begins (kinds : List Token.Kind) (w : List Token) : Prop :=
  ∃ t ts, w = t :: ts ∧ t.kind ∈ kinds

theorem Begins.mono {kinds kinds' : List Token.Kind} {w : List Token} (h : Begins kinds w)
    (hsub : kinds ⊆ kinds') : Begins kinds' w := by
  obtain ⟨t, ts, rfl, ht⟩ := h
  exact ⟨t, ts, rfl, hsub ht⟩

theorem Begins.append {kinds : List Token.Kind} {u : List Token} (h : Begins kinds u)
    (v : List Token) : Begins kinds (u ++ v) := by
  obtain ⟨t, ts, rfl, ht⟩ := h
  exact ⟨t, ts ++ v, rfl, ht⟩

theorem Begins.ne_nil {kinds : List Token.Kind} {w : List Token} (h : Begins kinds w) : w ≠ [] := by
  obtain ⟨t, ts, rfl, _⟩ := h
  exact List.cons_ne_nil t ts

/-- What phrases of a kind begin with; some kinds have the empty phrase. -/
def Phrase.First : Phrase → List Token → Prop
  | .expression, w | .tier _, w | .unary, w | .arguments, w | .exprStmt, w =>
    Begins expressionFirst w
  | .call, w | .primary, w => Begins primaryFirst w
  | .operands l, w => w = [] ∨ Begins l.operators w
  | .declarations, w => w = [] ∨ Begins declarationFirst w
  | .declaration, w => Begins declarationFirst w
  | .function, w | .parameters, w => Begins [.identifier] w
  | .varDecl, w => Begins [.varWord] w
  | .forInitial, w => Begins (.semicolon :: .varWord :: expressionFirst) w
  | .statement _, w => Begins statementFirst w
  | .optional, _ | .suffixes, _ | .methods, _ => True

theorem Builds.first {p : Phrase} {w : List Token} {t : p.Tree} (h : Builds p w t) : p.First w := by
  have hexpression : primaryFirst ⊆ expressionFirst := by decide
  have hstatement : expressionFirst ⊆ statementFirst := by decide
  have hdeclaration : statementFirst ⊆ declarationFirst := by decide
  induction h with
  | absent | present | noSuffix | callSuffix | argumentsSuffix | propertySuffix | noMethod
  | methods => trivial
  | noOperand | noDeclaration => exact .inl rfl
  | assignVariable _ hname => exact ⟨_, _, rfl, by simp [hname, expressionFirst, primaryFirst]⟩
  | assignProperty _ _ _ _ _ ih => exact (ih.mono hexpression).append _
  | unassigned _ ih | tightest _ ih | lastArgument _ ih => exact ih
  | tier _ _ ih | argument _ _ _ ih | exprStmt _ _ ih | suffixed _ _ ih => exact ih.append _
  | operand hop => exact .inr ⟨_, _, rfl, hop⟩
  | unary hop =>
    rcases hop with hop | hop <;> exact ⟨_, _, rfl, by simp [hop, expressionFirst]⟩
  | call _ ih => exact ih.mono hexpression
  | falseWord h | trueWord h | nilWord h | name _ h | thisWord _ h | superWord _ h | grouping h =>
    exact ⟨_, _, rfl, by simp [h, primaryFirst]⟩
  | literal h => rcases h with h | h <;> exact ⟨_, _, rfl, by simp [h, primaryFirst]⟩
  | declarations _ _ ih => exact .inr (ih.append _)
  | classDecl h | subclassDecl _ h | funDecl h =>
    exact ⟨_, _, rfl, by simp [h, declarationFirst]⟩
  | variableDecl _ ih => exact ih.mono (by decide)
  | statement _ ih => exact ih.mono hdeclaration
  | plainFunction h | function h | lastParameter h | parameter h | plainVariable h
  | initialized h => exact ⟨_, _, rfl, by simp [h]⟩
  | noInitial h => exact ⟨_, _, rfl, by simp [h]⟩
  | variableInitial _ ih => exact ih.mono (by decide)
  | expressionInitial _ ih => exact ih.mono (by decide)
  | expression _ ih => exact ih.mono hstatement
  | print h | ret h | block h | ifThen h | ifElse h | loop h | forLoop h =>
    exact ⟨_, _, rfl, by simp [h, statementFirst]⟩

end ClassScript.Grammar
