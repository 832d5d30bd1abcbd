import ClassScript.Program.Expression

/-! # The grammar as a table of rules

The grammar of programs in extended Backus-Naur form, one right-hand side for each rule, and what it
means for a token list to derive from a right-hand side.  Derivations say nothing about trees: two
derivations of one list may group its tokens differently.
-/
namespace ClassScript.Grammar

inductive Rule where
  | program
  | declaration
  | classDecl
  | funDecl
  | function
  | parameters
  | varDecl
  | statement
  | exprStmt
  | forStmt
  | ifStmt
  | printStmt
  | returnStmt
  | whileStmt
  | block
  | expression
  | assignment
  | logicOr
  | logicAnd
  | equality
  | comparison
  | term
  | factor
  | unary
  | call
  | arguments
  | primary

/-- Right-hand sides.  `upTo n e` is at most `n` times `e`. -/
inductive Ebnf where
  | empty
  | token (kind : Token.Kind)
  | rule (name : Rule)
  | seq (first second : Ebnf)
  | either (left right : Ebnf)
  | optional (e : Ebnf)
  | many (e : Ebnf)
  | upTo (n : Nat) (e : Ebnf)

namespace Ebnf

/-- One after the other. -/
def all : List Ebnf → Ebnf
  | [] => empty
  | e :: es => seq e (all es)

/-- One of two or more. -/
def any (first : Ebnf) : List Ebnf → Ebnf
  | [] => first
  | e :: es => either first (any e es)

end Ebnf

open Ebnf in
/-- The rules, from programs to primary expressions.  Argument and parameter lists have at most
`maxArity` entries. -/
def rules : Rule → Ebnf
  | .program => all [many (rule .declaration), token .endOfInput]
  | .declaration => any (rule .classDecl) [rule .funDecl, rule .varDecl, rule .statement]
  | .classDecl =>
    all [token .classWord, token .identifier, optional (all [token .less, token .identifier]),
      token .leftBrace, many (rule .function), token .rightBrace]
  | .funDecl => all [token .funWord, rule .function]
  | .function =>
    all [token .identifier, token .leftParen, optional (rule .parameters), token .rightParen,
      rule .block]
  | .parameters =>
    all [token .identifier, upTo (maxArity - 1) (all [token .comma, token .identifier])]
  | .varDecl =>
    all [token .varWord, token .identifier, optional (all [token .equal, rule .expression]),
      token .semicolon]
  | .statement =>
    any (rule .exprStmt) [rule .forStmt, rule .ifStmt, rule .printStmt, rule .returnStmt,
      rule .whileStmt, rule .block]
  | .exprStmt => all [rule .expression, token .semicolon]
  | .forStmt =>
    all [token .forWord, token .leftParen,
      any (rule .varDecl) [rule .exprStmt, token .semicolon],
      optional (rule .expression), token .semicolon, optional (rule .expression),
      token .rightParen, rule .statement]
  | .ifStmt =>
    all [token .ifWord, token .leftParen, rule .expression, token .rightParen, rule .statement,
      optional (all [token .elseWord, rule .statement])]
  | .printStmt => all [token .printWord, rule .expression, token .semicolon]
  | .returnStmt => all [token .returnWord, optional (rule .expression), token .semicolon]
  | .whileStmt =>
    all [token .whileWord, token .leftParen, rule .expression, token .rightParen, rule .statement]
  | .block => all [token .leftBrace, many (rule .declaration), token .rightBrace]
  | .expression => rule .assignment
  | .assignment =>
    any (all [optional (all [rule .call, token .dot]), token .identifier, token .equal,
      rule .assignment]) [rule .logicOr]
  | .logicOr => all [rule .logicAnd, many (all [token .orWord, rule .logicAnd])]
  | .logicAnd => all [rule .equality, many (all [token .andWord, rule .equality])]
  | .equality =>
    all [rule .comparison,
      many (all [any (token .bangEqual) [token .equalEqual], rule .comparison])]
  | .comparison =>
    all [rule .term,
      many (all [any (token .greater) [token .greaterEqual, token .less, token .lessEqual],
        rule .term])]
  | .term => all [rule .factor, many (all [any (token .minus) [token .plus], rule .factor])]
  | .factor => all [rule .unary, many (all [any (token .slash) [token .star], rule .unary])]
  | .unary => any (all [any (token .bang) [token .minus], rule .unary]) [rule .call]
  | .call =>
    all [rule .primary,
      many (any (all [token .leftParen, optional (rule .arguments), token .rightParen])
        [all [token .dot, token .identifier]])]
  | .arguments => all [rule .expression, upTo (maxArity - 1) (all [token .comma, rule .expression])]
  | .primary =>
    any (token .number) [token .string, token .trueWord, token .falseWord, token .nilWord,
      token .thisWord, token .identifier, all [token .leftParen, rule .expression,
      token .rightParen], all [token .superWord, token .dot, token .identifier]]

/-- The tokens derive from the right-hand side. -/
inductive Derives : Ebnf → List Token → Prop where
  | empty : Derives .empty []
  | token {kind : Token.Kind} {t : Token} (h : t.kind = kind) : Derives (.token kind) [t]
  | rule {name : Rule} {w : List Token} (h : Derives (rules name) w) : Derives (.rule name) w
  | seq {a b : Ebnf} {u v : List Token} (ha : Derives a u) (hb : Derives b v) :
      Derives (.seq a b) (u ++ v)
  | left {a b : Ebnf} {w : List Token} (h : Derives a w) : Derives (.either a b) w
  | right {a b : Ebnf} {w : List Token} (h : Derives b w) : Derives (.either a b) w
  | absent {e : Ebnf} : Derives (.optional e) []
  | present {e : Ebnf} {w : List Token} (h : Derives e w) : Derives (.optional e) w
  | manyNil {e : Ebnf} : Derives (.many e) []
  | manyCons {e : Ebnf} {u v : List Token} (hu : Derives e u) (hv : Derives (.many e) v) :
      Derives (.many e) (u ++ v)
  | upToNil {n : Nat} {e : Ebnf} : Derives (.upTo n e) []
  | upToCons {n : Nat} {e : Ebnf} {u v : List Token} (hu : Derives e u)
      (hv : Derives (.upTo n e) v) : Derives (.upTo (n + 1) e) (u ++ v)

/-- What a right-hand side means when each rule stands for a set of token lists. -/
def Ebnf.Matches (L : Rule → List Token → Prop) : Ebnf → List Token → Prop
  | .empty, w => w = []
  | .token kind, w => ∃ t : Token, t.kind = kind ∧ w = [t]
  | .rule name, w => L name w
  | .seq a b, w => ∃ u v, w = u ++ v ∧ a.Matches L u ∧ b.Matches L v
  | .either a b, w => a.Matches L w ∨ b.Matches L w
  | .optional e, w => w = [] ∨ e.Matches L w
  | .many e, w => ∃ parts : List (List Token), w = parts.flatten ∧ ∀ u ∈ parts, e.Matches L u
  | .upTo n e, w =>
    ∃ parts : List (List Token), parts.length ≤ n ∧ w = parts.flatten ∧ ∀ u ∈ parts, e.Matches L u

/-- Derivable lists are the least that the rules ask for: whatever is closed under the rules has
them all. -/
theorem Derives.matches {L : Rule → List Token → Prop}
    (closed : ∀ name w, (rules name).Matches L w → L name w) {e : Ebnf} {w : List Token}
    (h : Derives e w) : e.Matches L w := by
  induction h with
  | empty => rfl
  | token h => exact ⟨_, h, rfl⟩
  | rule _ ih => exact closed _ _ ih
  | seq _ _ iha ihb => exact ⟨_, _, rfl, iha, ihb⟩
  | left _ ih => exact Or.inl ih
  | right _ ih => exact Or.inr ih
  | absent => exact Or.inl rfl
  | present _ ih => exact Or.inr ih
  | manyNil => exact ⟨[], rfl, by simp⟩
  | manyCons _ _ ihu ihv =>
    obtain ⟨parts, rfl, hparts⟩ := ihv
    exact ⟨_ :: parts, rfl, List.forall_mem_cons.2 ⟨ihu, hparts⟩⟩
  | upToNil => exact ⟨[], Nat.zero_le _, rfl, by simp⟩
  | upToCons _ _ ihu ihv =>
    obtain ⟨parts, hlen, rfl, hparts⟩ := ihv
    exact ⟨_ :: parts, Nat.succ_le_succ hlen, rfl, List.forall_mem_cons.2 ⟨ihu, hparts⟩⟩

/-- A rule's right-hand side that starts with a token. -/
theorem Derives.consToken {kind : Token.Kind} {es : List Ebnf} {t : Token} {w : List Token}
    (ht : t.kind = kind) (hw : Derives (.all es) w) :
    Derives (.all (.token kind :: es)) (t :: w) :=
  .seq (.token ht) hw

theorem Derives.cons {e : Ebnf} {es : List Ebnf} {u v : List Token} (hu : Derives e u)
    (hv : Derives (.all es) v) : Derives (.all (e :: es)) (u ++ v) :=
  .seq hu hv

theorem Derives.last {e : Ebnf} {w : List Token} (h : Derives e w) : Derives (.all [e]) w := by
  simpa using h.cons (show Derives (.all []) [] from .empty)

end ClassScript.Grammar
