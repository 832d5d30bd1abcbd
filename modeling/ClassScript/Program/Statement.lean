import ClassScript.Program.Expression
import ClassScript.Program.Read

/-! # Reading statements and programs

A declaration that fails is recorded, and reading resumes at the next statement, so one reading
finds the errors of all statements.  A counting loop is read as the loop and blocks it stands for.
-/
namespace ClassScript

/-- The loop that `for (initial; condition; increment) body` stands for: a block around the loop
only if there is an initial clause, and one around its body only if there is an increment. -/
def Stmt.forLoop (initial : Option Stmt) (condition increment : Option Expr) (body : Stmt) : Stmt :=
  let body :=
    match increment with
    | none => body
    | some e => .block [body, .expression e]
  let loop := .loop (condition.getD (.constant (.bool true))) body
  match initial with
  | none => loop
  | some s => .block [s, loop]

namespace Rules

open TokenReader

variable {m : Type → Type} [TokenReader m]

def exprStmt (n : Nat) : m Stmt := do
  let e ← expression n
  let _ ← expect .semicolon .expressionEnd
  return .expression e

def printStmt (n : Nat) : m Stmt := do
  let e ← expression n
  let _ ← expect .semicolon .printEnd
  return .print e

def returnStmt (n : Nat) (keyword : Token) : m Stmt := do
  let value ← if ← sees .semicolon then pure none else some <$> expression n
  let _ ← expect .semicolon .returnEnd
  return .ret keyword value

def varStmt (n : Nat) : m Stmt := do
  let name ← expect .identifier .variableName
  let initial ←
    match ← accept .equal with
    | none => pure none
    | some _ => some <$> expression n
  let _ ← expect .semicolon .variableEnd
  return .var name initial

/-- The first clause of a counting loop, with the semicolon that ends it. -/
def forInitial (n : Nat) : m (Option Stmt) := do
  match ← acceptAny [.semicolon, .varWord] with
  | none => some <$> exprStmt n
  | some t => if t.kind = .semicolon then return none else some <$> varStmt n

/-- An expression, unless a token of the given kind stands there. -/
def expressionUnless (n : Nat) (kind : Token.Kind) : m (Option Expr) := do
  if ← sees kind then return none else some <$> expression n

/-- One parameter or more, with `count` before them. -/
def parametersFrom : Nat → Nat → m (List Token)
  | 0, _ => exhausted
  | n + 1, count => do
    if maxArity ≤ count then note (← peek) .tooManyParameters
    let first ← expect .identifier .parameterName
    match ← accept .comma with
    | none => return [first]
    | some _ => return first :: (← parametersFrom n (count + 1))

/-- A name and parameters, up to the brace that opens the body. -/
def functionHead (n : Nat) (role : FunctionRole) : m (Token × List Token) := do
  let name ← expect .identifier (.functionName role)
  let _ ← expect .leftParen (.parametersStart role)
  let parameters ← if ← sees .rightParen then pure [] else parametersFrom n 0
  let _ ← expect .rightParen .parametersEnd
  let _ ← expect .leftBrace (.functionBodyStart role)
  return (name, parameters)

mutual

/-- Statements up to the end, or up to a closing brace inside a block. -/
def statements : Nat → (inBlock : Bool) → m (List Stmt)
  | 0, _ => exhausted
  | n + 1, inBlock => do
    if (← atEnd) || (inBlock && (← sees .rightBrace)) then return []
    let first ← recovering (declaration n)
    let others ← statements n inBlock
    return first.toList ++ others

def declaration : Nat → m Stmt
  | 0 => exhausted
  | n + 1 => do
    match ← acceptAny [.classWord, .funWord, .varWord] with
    | none => statement n
    | some t =>
      match t.kind with
      | .classWord => classStmt n
      | .funWord => return .function (← function n .function)
      | _ => varStmt n

def classStmt : Nat → m Stmt
  | 0 => exhausted
  | n + 1 => do
    let name ← expect .identifier .className
    let superclass ←
      match ← accept .less with
      | none => pure none
      | some _ => do
        let superclass ← expect .identifier .superclassName
        pure (some ⟨superclass, ← freshId⟩)
    let _ ← expect .leftBrace .classBodyStart
    let methods ← methods n
    let _ ← expect .rightBrace .classBodyEnd
    return .cls name superclass methods

def methods : Nat → m (List FunctionDecl)
  | 0 => exhausted
  | n + 1 => do
    if (← atEnd) || (← sees .rightBrace) then return []
    let first ← function n .method
    return first :: (← methods n)

def function : Nat → FunctionRole → m FunctionDecl
  | 0, _ => exhausted
  | n + 1, role => do
    let (name, parameters) ← functionHead n role
    return .mk name parameters (← block n)

/-- The statements of a block whose opening brace has been taken. -/
def block : Nat → m (List Stmt)
  | 0 => exhausted
  | n + 1 => do
    let body ← statements n true
    let _ ← expect .rightBrace .blockEnd
    return body

def statement : Nat → m Stmt
  | 0 => exhausted
  | n + 1 => do
    match ← acceptAny [.forWord, .ifWord, .whileWord, .returnWord, .leftBrace, .printWord] with
    | none => exprStmt n
    | some t =>
      match t.kind with
      | .forWord =>
        let _ ← expect .leftParen .forStart
        let initial ← forInitial n
        let condition ← expressionUnless n .semicolon
        let _ ← expect .semicolon .forConditionEnd
        let increment ← expressionUnless n .rightParen
        let _ ← expect .rightParen .forEnd
        return .forLoop initial condition increment (← statement n)
      | .ifWord =>
        let _ ← expect .leftParen .ifStart
        let condition ← expression n
        let _ ← expect .rightParen .ifEnd
        let positive ← statement n
        let negative ←
          match ← accept .elseWord with
          | none => pure none
          | some _ => some <$> statement n
        return .branch condition positive negative
      | .whileWord =>
        let _ ← expect .leftParen .whileStart
        let condition ← expression n
        let _ ← expect .rightParen .whileEnd
        return .loop condition (← statement n)
      | .returnWord => returnStmt n t
      | .leftBrace => return .block (← block n)
      | _ => printStmt n

end

end Rules

namespace Program

/-- The tokens before the first end token. -/
def body (tokens : List Token) : List Token := tokens.takeWhile fun t => t.kind != .endOfInput

/-- The first end token; one on the line of the last token if there is none. -/
def lastToken (tokens : List Token) : Token :=
  (tokens.find? fun t => t.kind == .endOfInput).getD
    (Token.endOfInput ((tokens.getLast?.map Token.line).getD 1))

/-- A depth that no reading of so many tokens exceeds. -/
def depthBound (tokens : List Token) : Nat := 16 * (tokens.length + 2)

/-- The result of reading a program: the program or all errors, and the identity of the next
reference. -/
structure Reading where
  outcome : Except (List GrammarError) Program
  nextId : Nat

/-- Reads a whole program, its references numbered from `nextId`. -/
def ofTokens (nextId : Nat) (tokens : List Token) : Reading :=
  match (Rules.statements (depthBound tokens) false : Read Program) (lastToken tokens)
      ⟨body tokens, #[], nextId⟩ with
  | some (.ok program, c) =>
    ⟨if c.errors.isEmpty then .ok program else .error c.errors.toList, c.nextId⟩
  | some (.error e, c) => ⟨.error (c.errors.push e).toList, c.nextId⟩
  | none => ⟨.error [], nextId⟩

end Program

end ClassScript
