import ClassScript.Proofs.Grammar.Ebnf

/-! # Phrases and their trees

Which token lists are phrases of which kind, and the tree that each phrase builds.  Operators of one
level group to the left, assignment groups to the right, an `else` belongs to the nearest `if` that
has none, and a counting loop is the loop and blocks it stands for.  The identities of references
are left open.
-/
namespace ClassScript.Grammar

/-- The levels of operators between operands, loosest first. -/
inductive Level where
  | disjunction
  | conjunction
  | equality
  | comparison
  | term
  | factor

namespace Level

def operators : Level → List Token.Kind
  | disjunction => [.orWord]
  | conjunction => [.andWord]
  | equality => [.bangEqual, .equalEqual]
  | comparison => [.greater, .greaterEqual, .less, .lessEqual]
  | term => [.minus, .plus]
  | factor => [.star, .slash]

def join : Level → Expr → Token → Expr → Expr
  | disjunction | conjunction => .logical
  | equality | comparison | term | factor => .binary

/-- The level of the operands of a level; the operands of the tightest level are unary. -/
def next : Level → Option Level
  | disjunction => some conjunction
  | conjunction => some equality
  | equality => some comparison
  | comparison => some term
  | term => some factor
  | factor => none

/-- Operands joined one by one, each to everything before it. -/
def joinAll (l : Level) (first : Expr) (others : List (Token × Expr)) : Expr :=
  others.foldl (fun e other => l.join e other.1 other.2) first

end Level

/-- A call or a property access behind an expression. -/
inductive Suffix where
  | call (paren : Token) (arguments : List Expr)
  | property (name : Token)

namespace Suffix

def apply (e : Expr) : Suffix → Expr
  | call paren arguments => .call e paren arguments
  | property name => .get e name

def applyAll (e : Expr) (suffixes : List Suffix) : Expr := suffixes.foldl apply e

end Suffix

/-- The body of a counting loop, with its increment behind it. -/
def withIncrement (body : Stmt) : Option Expr → Stmt
  | none => body
  | some e => .block [body, .expression e]

/-- A loop in a block of its own, with its initial clause before it. -/
def withInitial (loop : Stmt) : Option Stmt → Stmt
  | none => loop
  | some s => .block [s, loop]

/-- Kinds of phrases.  A statement is open if an `else` behind it would belong to an `if` in it. -/
inductive Phrase where
  | expression
  | optional
  | tier (level : Option Level)
  | operands (level : Level)
  | unary
  | call
  | suffixes
  | arguments
  | primary
  | declarations
  | declaration
  | methods
  | function
  | parameters
  | varDecl
  | exprStmt
  | forInitial
  | statement (isOpen : Bool)

/-- What phrases of a kind build. -/
@[reducible] def Phrase.Tree : Phrase → Type
  | expression | tier _ | unary | call | primary => Expr
  | optional => Option Expr
  | operands _ => List (Token × Expr)
  | suffixes => List Suffix
  | arguments => List Expr
  | declarations => List Stmt
  | declaration | varDecl | exprStmt | statement _ => Stmt
  | methods => List FunctionDecl
  | function => FunctionDecl
  | parameters => List Token
  | forInitial => Option Stmt

/-- The tokens are a phrase of the kind, and they build the tree. -/
inductive Builds : (p : Phrase) → List Token → p.Tree → Prop where
  | assignVariable {name equals : Token} {w : List Token} {e : Expr} (id : Nat)
      (hname : name.kind = .identifier) (hequals : equals.kind = .equal)
      (h : Builds .expression w e) :
      Builds .expression (name :: equals :: w) (.assign ⟨name, id⟩ e)
  | assignProperty {dot name equals : Token} {u w : List Token} {object e : Expr}
      (ho : Builds .call u object) (hdot : dot.kind = .dot) (hname : name.kind = .identifier)
      (hequals : equals.kind = .equal) (h : Builds .expression w e) :
      Builds .expression (u ++ dot :: name :: equals :: w) (.set object name e)
  | unassigned {w : List Token} {e : Expr} (h : Builds (.tier (some .disjunction)) w e) :
      Builds .expression w e
  | absent : Builds .optional [] none
  | present {w : List Token} {e : Expr} (h : Builds .expression w e) : Builds .optional w (some e)
  | tightest {w : List Token} {e : Expr} (h : Builds .unary w e) : Builds (.tier none) w e
  | tier {l : Level} {u v : List Token} {e : Expr} {others : List (Token × Expr)}
      (hu : Builds (.tier l.next) u e) (hv : Builds (.operands l) v others) :
      Builds (.tier (some l)) (u ++ v) (l.joinAll e others)
  | noOperand {l : Level} : Builds (.operands l) [] []
  | operand {l : Level} {operator : Token} {u v : List Token} {e : Expr}
      {others : List (Token × Expr)} (hop : operator.kind ∈ l.operators)
      (hu : Builds (.tier l.next) u e) (hv : Builds (.operands l) v others) :
      Builds (.operands l) (operator :: (u ++ v)) ((operator, e) :: others)
  | unary {operator : Token} {w : List Token} {e : Expr}
      (hop : operator.kind = .bang ∨ operator.kind = .minus) (h : Builds .unary w e) :
      Builds .unary (operator :: w) (.unary operator e)
  | call {w : List Token} {e : Expr} (h : Builds .call w e) : Builds .unary w e
  | suffixed {u v : List Token} {e : Expr} {suffixes : List Suffix} (hu : Builds .primary u e)
      (hv : Builds .suffixes v suffixes) : Builds .call (u ++ v) (Suffix.applyAll e suffixes)
  | noSuffix : Builds .suffixes [] []
  | callSuffix {left paren : Token} {v : List Token} {suffixes : List Suffix}
      (hleft : left.kind = .leftParen) (hparen : paren.kind = .rightParen)
      (hv : Builds .suffixes v suffixes) :
      Builds .suffixes (left :: paren :: v) (.call paren [] :: suffixes)
  | argumentsSuffix {left paren : Token} {u v : List Token} {arguments : List Expr}
      {suffixes : List Suffix} (hleft : left.kind = .leftParen) (hu : Builds .arguments u arguments)
      (hlen : arguments.length ≤ maxArity) (hparen : paren.kind = .rightParen)
      (hv : Builds .suffixes v suffixes) :
      Builds .suffixes (left :: (u ++ paren :: v)) (.call paren arguments :: suffixes)
  | propertySuffix {dot name : Token} {v : List Token} {suffixes : List Suffix}
      (hdot : dot.kind = .dot) (hname : name.kind = .identifier)
      (hv : Builds .suffixes v suffixes) :
      Builds .suffixes (dot :: name :: v) (.property name :: suffixes)
  | lastArgument {w : List Token} {e : Expr} (h : Builds .expression w e) :
      Builds .arguments w [e]
  | argument {comma : Token} {u v : List Token} {e : Expr} {arguments : List Expr}
      (hu : Builds .expression u e) (hcomma : comma.kind = .comma)
      (hv : Builds .arguments v arguments) :
      Builds .arguments (u ++ comma :: v) (e :: arguments)
  | falseWord {t : Token} (h : t.kind = .falseWord) : Builds .primary [t] (.constant (.bool false))
  | trueWord {t : Token} (h : t.kind = .trueWord) : Builds .primary [t] (.constant (.bool true))
  | nilWord {t : Token} (h : t.kind = .nilWord) : Builds .primary [t] (.constant .nil)
  | literal {t : Token} {value : Token.Literal} (h : t.kind = .number ∨ t.kind = .string)
      (hvalue : t.literal = some value) : Builds .primary [t] (.constant (.ofLiteral value))
  | name {t : Token} (id : Nat) (h : t.kind = .identifier) :
      Builds .primary [t] (.variable ⟨t, id⟩)
  | thisWord {t : Token} (id : Nat) (h : t.kind = .thisWord) : Builds .primary [t] (.this ⟨t, id⟩)
  | superWord {t dot method : Token} (id : Nat) (h : t.kind = .superWord) (hdot : dot.kind = .dot)
      (hmethod : method.kind = .identifier) :
      Builds .primary [t, dot, method] (.super ⟨t, id⟩ method)
  | grouping {left right : Token} {w : List Token} {e : Expr} (hleft : left.kind = .leftParen)
      (h : Builds .expression w e) (hright : right.kind = .rightParen) :
      Builds .primary (left :: (w ++ [right])) (.grouping e)
  | noDeclaration : Builds .declarations [] []
  | declarations {u v : List Token} {s : Stmt} {ss : List Stmt} (hu : Builds .declaration u s)
      (hv : Builds .declarations v ss) : Builds .declarations (u ++ v) (s :: ss)
  | classDecl {keyword name left right : Token} {w : List Token} {methods : List FunctionDecl}
      (hkeyword : keyword.kind = .classWord) (hname : name.kind = .identifier)
      (hleft : left.kind = .leftBrace) (h : Builds .methods w methods)
      (hright : right.kind = .rightBrace) :
      Builds .declaration (keyword :: name :: left :: (w ++ [right])) (.cls name none methods)
  | subclassDecl {keyword name less superclass left right : Token} {w : List Token}
      {methods : List FunctionDecl} (id : Nat) (hkeyword : keyword.kind = .classWord)
      (hname : name.kind = .identifier) (hless : less.kind = .less)
      (hsuperclass : superclass.kind = .identifier) (hleft : left.kind = .leftBrace)
      (h : Builds .methods w methods) (hright : right.kind = .rightBrace) :
      Builds .declaration (keyword :: name :: less :: superclass :: left :: (w ++ [right]))
        (.cls name (some ⟨superclass, id⟩) methods)
  | funDecl {keyword : Token} {w : List Token} {d : FunctionDecl}
      (hkeyword : keyword.kind = .funWord) (h : Builds .function w d) :
      Builds .declaration (keyword :: w) (.function d)
  | variableDecl {w : List Token} {s : Stmt} (h : Builds .varDecl w s) : Builds .declaration w s
  | statement {o : Bool} {w : List Token} {s : Stmt} (h : Builds (.statement o) w s) :
      Builds .declaration w s
  | noMethod : Builds .methods [] []
  | methods {u v : List Token} {d : FunctionDecl} {ds : List FunctionDecl}
      (hu : Builds .function u d) (hv : Builds .methods v ds) : Builds .methods (u ++ v) (d :: ds)
  | plainFunction {name left right first last : Token} {w : List Token} {body : List Stmt}
      (hname : name.kind = .identifier) (hleft : left.kind = .leftParen)
      (hright : right.kind = .rightParen) (hfirst : first.kind = .leftBrace)
      (h : Builds .declarations w body) (hlast : last.kind = .rightBrace) :
      Builds .function (name :: left :: right :: first :: (w ++ [last])) (.mk name [] body)
  | function {name left right first last : Token} {u w : List Token} {parameters : List Token}
      {body : List Stmt} (hname : name.kind = .identifier) (hleft : left.kind = .leftParen)
      (hu : Builds .parameters u parameters) (hlen : parameters.length ≤ maxArity)
      (hright : right.kind = .rightParen) (hfirst : first.kind = .leftBrace)
      (h : Builds .declarations w body) (hlast : last.kind = .rightBrace) :
      Builds .function (name :: left :: (u ++ right :: first :: (w ++ [last])))
        (.mk name parameters body)
  | lastParameter {t : Token} (h : t.kind = .identifier) : Builds .parameters [t] [t]
  | parameter {t comma : Token} {w : List Token} {parameters : List Token}
      (h : t.kind = .identifier) (hcomma : comma.kind = .comma)
      (hw : Builds .parameters w parameters) :
      Builds .parameters (t :: comma :: w) (t :: parameters)
  | plainVariable {keyword name semicolon : Token} (hkeyword : keyword.kind = .varWord)
      (hname : name.kind = .identifier) (hsemicolon : semicolon.kind = .semicolon) :
      Builds .varDecl [keyword, name, semicolon] (.var name none)
  | initialized {keyword name equals semicolon : Token} {w : List Token} {e : Expr}
      (hkeyword : keyword.kind = .varWord) (hname : name.kind = .identifier)
      (hequals : equals.kind = .equal) (h : Builds .expression w e)
      (hsemicolon : semicolon.kind = .semicolon) :
      Builds .varDecl (keyword :: name :: equals :: (w ++ [semicolon])) (.var name (some e))
  | exprStmt {semicolon : Token} {w : List Token} {e : Expr} (h : Builds .expression w e)
      (hsemicolon : semicolon.kind = .semicolon) :
      Builds .exprStmt (w ++ [semicolon]) (.expression e)
  | noInitial {semicolon : Token} (h : semicolon.kind = .semicolon) :
      Builds .forInitial [semicolon] none
  | variableInitial {w : List Token} {s : Stmt} (h : Builds .varDecl w s) :
      Builds .forInitial w (some s)
  | expressionInitial {w : List Token} {s : Stmt} (h : Builds .exprStmt w s) :
      Builds .forInitial w (some s)
  | expression {w : List Token} {s : Stmt} (h : Builds .exprStmt w s) :
      Builds (.statement false) w s
  | print {keyword semicolon : Token} {w : List Token} {e : Expr}
      (hkeyword : keyword.kind = .printWord) (h : Builds .expression w e)
      (hsemicolon : semicolon.kind = .semicolon) :
      Builds (.statement false) (keyword :: (w ++ [semicolon])) (.print e)
  | ret {keyword semicolon : Token} {w : List Token} {e : Option Expr}
      (hkeyword : keyword.kind = .returnWord) (h : Builds .optional w e)
      (hsemicolon : semicolon.kind = .semicolon) :
      Builds (.statement false) (keyword :: (w ++ [semicolon])) (.ret keyword e)
  | block {left right : Token} {w : List Token} {body : List Stmt} (hleft : left.kind = .leftBrace)
      (h : Builds .declarations w body) (hright : right.kind = .rightBrace) :
      Builds (.statement false) (left :: (w ++ [right])) (.block body)
  | ifThen {o : Bool} {keyword left right : Token} {u v : List Token} {c : Expr} {s : Stmt}
      (hkeyword : keyword.kind = .ifWord) (hleft : left.kind = .leftParen)
      (hu : Builds .expression u c) (hright : right.kind = .rightParen)
      (hv : Builds (.statement o) v s) :
      Builds (.statement true) (keyword :: left :: (u ++ right :: v)) (.branch c s none)
  | ifElse {o : Bool} {keyword left right otherwise : Token} {u v w : List Token} {c : Expr}
      {s t : Stmt} (hkeyword : keyword.kind = .ifWord) (hleft : left.kind = .leftParen)
      (hu : Builds .expression u c) (hright : right.kind = .rightParen)
      (hv : Builds (.statement false) v s) (hotherwise : otherwise.kind = .elseWord)
      (hw : Builds (.statement o) w t) :
      Builds (.statement o) (keyword :: left :: (u ++ right :: (v ++ otherwise :: w)))
        (.branch c s (some t))
  | loop {o : Bool} {keyword left right : Token} {u v : List Token} {c : Expr} {s : Stmt}
      (hkeyword : keyword.kind = .whileWord) (hleft : left.kind = .leftParen)
      (hu : Builds .expression u c) (hright : right.kind = .rightParen)
      (hv : Builds (.statement o) v s) :
      Builds (.statement o) (keyword :: left :: (u ++ right :: v)) (.loop c s)
  | forLoop {o : Bool} {keyword left semicolon right : Token} {u v w x : List Token}
      {initial : Option Stmt} {condition increment : Option Expr} {s : Stmt}
      (hkeyword : keyword.kind = .forWord) (hleft : left.kind = .leftParen)
      (hu : Builds .forInitial u initial) (hv : Builds .optional v condition)
      (hsemicolon : semicolon.kind = .semicolon) (hw : Builds .optional w increment)
      (hright : right.kind = .rightParen) (hx : Builds (.statement o) x s) :
      Builds (.statement o)
        (keyword :: left :: (u ++ (v ++ semicolon :: (w ++ right :: x))))
        (withInitial
          (.loop (condition.getD (.constant (.bool true))) (withIncrement s increment)) initial)

/-! What stands before an equals sign is read as an operand first.  An operand that may be assigned
to is a call phrase: a name, or a call phrase with a property behind it. -/

/-- Variables and properties may be assigned to. -/
def isTarget : Expr → Bool
  | .variable _ | .get .. => true
  | _ => false

theorem Level.others_nil {l : Level} {e : Expr} {others : List (Token × Expr)}
    (h : isTarget (l.joinAll e others) = true) : others = [] := by
  rcases List.eq_nil_or_concat others with rfl | ⟨init, last, rfl⟩
  · rfl
  · rw [joinAll, List.concat_eq_append, List.foldl_append] at h
    cases l <;> simp [join, isTarget] at h

/-- For phrases of operands: if the tree may be assigned to, the phrase is a call phrase. -/
def Phrase.TargetIsCall : (p : Phrase) → List Token → p.Tree → Prop
  | .tier _, w, e | .unary, w, e => isTarget e = true → Builds .call w e
  | _, _, _ => True

theorem Builds.targetIsCall {p : Phrase} {w : List Token} {t : p.Tree} (h : Builds p w t) :
    p.TargetIsCall w t := by
  induction h with
  | tightest _ ih => exact ih
  | tier _ hv ihu _ =>
    intro ht
    obtain rfl := Level.others_nil ht
    cases hv
    rw [List.append_nil]
    exact ihu ht
  | unary _ _ _ => exact fun ht => by simp [isTarget] at ht
  | call h _ => exact fun _ => h
  | _ => trivial

theorem Builds.suffixes_concat {w : List Token} {init : List Suffix} {name : Token}
    (h : Builds .suffixes w (init ++ [.property name])) :
    ∃ u dot, w = u ++ [dot, name] ∧ dot.kind = .dot ∧ name.kind = .identifier ∧
      Builds .suffixes u init := by
  induction init generalizing w with
  | nil =>
    cases h with
    | propertySuffix hdot hname hv =>
      cases hv
      exact ⟨[], _, rfl, hdot, hname, .noSuffix⟩
  | cons s init ih =>
    cases h with
    | callSuffix hleft hparen hv =>
      obtain ⟨u, dot, rfl, hdot, hname, hu⟩ := ih hv
      exact ⟨_, dot, rfl, hdot, hname, .callSuffix hleft hparen hu⟩
    | argumentsSuffix hleft hargs hlen hparen hv =>
      obtain ⟨u, dot, rfl, hdot, hname, hu⟩ := ih hv
      exact ⟨_, dot, by simp, hdot, hname, .argumentsSuffix hleft hargs hlen hparen hu⟩
    | propertySuffix hd hn hv =>
      obtain ⟨u, dot, rfl, hdot, hname, hu⟩ := ih hv
      exact ⟨_, dot, rfl, hdot, hname, .propertySuffix hd hn hu⟩

theorem Builds.call_cases {w : List Token} {e : Expr} (h : Builds .call w e) :
    ∃ u v first ss, w = u ++ v ∧ e = Suffix.applyAll first ss ∧ Builds .primary u first ∧
      Builds .suffixes v ss := by
  cases h with
  | suffixed hu hv => exact ⟨_, _, _, _, rfl, rfl, hu, hv⟩

/-- The only call phrase that builds a variable is its name. -/
theorem Builds.call_variable {w : List Token} {ref : Reference}
    (h : Builds .call w (.variable ref)) : w = [ref.name] ∧ ref.name.kind = .identifier := by
  obtain ⟨u, v, first, ss, rfl, he, hu, hv⟩ := h.call_cases
  rcases List.eq_nil_or_concat ss with rfl | ⟨init, last, rfl⟩
  · obtain rfl : Expr.variable ref = first := he
    cases hu with
    | name id hname =>
      cases hv
      exact ⟨rfl, hname⟩
  · rw [Suffix.applyAll, List.concat_eq_append, List.foldl_append] at he
    cases last <;> simp [Suffix.apply] at he

/-- A call phrase that builds a property is a call phrase with the property behind it. -/
theorem Builds.call_get {w : List Token} {object : Expr} {name : Token}
    (h : Builds .call w (.get object name)) :
    ∃ u dot, w = u ++ [dot, name] ∧ dot.kind = .dot ∧ name.kind = .identifier ∧
      Builds .call u object := by
  obtain ⟨u, v, first, ss, rfl, he, hu, hv⟩ := h.call_cases
  rcases List.eq_nil_or_concat ss with rfl | ⟨init, last, rfl⟩
  · obtain rfl : Expr.get object name = first := he
    cases hu
  · rw [List.concat_eq_append] at he hv
    rw [Suffix.applyAll, List.foldl_append] at he
    cases last with
    | call paren arguments => simp [Suffix.apply] at he
    | property other =>
      simp only [List.foldl_cons, List.foldl_nil, Suffix.apply, Expr.get.injEq] at he
      obtain ⟨rfl, rfl⟩ := he
      obtain ⟨v, dot, rfl, hdot, hname, hv⟩ := hv.suffixes_concat
      exact ⟨u ++ v, dot, by simp, hdot, hname, .suffixed hu hv⟩

end ClassScript.Grammar
