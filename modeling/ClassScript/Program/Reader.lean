import ClassScript.Program.Tree
import ClassScript.Report

/-! # Readers of tokens

What the rules of the grammar need: to take the next token if it passes a test, to look at it, to
record errors, to fail, to resume after a failure, and to draw identities for references.  The rules
are written for anything that can do this.
-/
namespace ClassScript

/-- What a function declaration declares. -/
inductive FunctionRole where
  | function
  | method
deriving DecidableEq

def FunctionRole.word : FunctionRole → String
  | function => "function"
  | method => "method"

/-- What the grammar asks for at a token, or forbids there. -/
inductive GrammarCause where
  | className
  | superclassName
  | classBodyStart
  | classBodyEnd
  | functionName (role : FunctionRole)
  | parametersStart (role : FunctionRole)
  | tooManyParameters
  | parameterName
  | parametersEnd
  | functionBodyStart (role : FunctionRole)
  | variableName
  | variableEnd
  | forStart
  | forConditionEnd
  | forEnd
  | printEnd
  | expressionEnd
  | ifStart
  | ifEnd
  | whileStart
  | whileEnd
  | returnEnd
  | blockEnd
  | assignmentTarget
  | propertyName
  | tooManyArguments
  | argumentsEnd
  | malformedLiteral
  | superDot
  | superMethodName
  | groupingEnd
  | expression
deriving DecidableEq

def GrammarCause.message : GrammarCause → String
  | className => "Expect class name."
  | superclassName => "Expect superclass name."
  | classBodyStart => "Expect '\x7b' before class body."
  | classBodyEnd => "Expect '\x7d' after class body."
  | functionName role => "Expect " ++ role.word ++ " name."
  | parametersStart role => "Expect '(' after " ++ role.word ++ " name."
  | tooManyParameters => "Can't have more than 255 parameters."
  | parameterName => "Expect parameter name."
  | parametersEnd => "Expect ')' after parameters."
  | functionBodyStart role => "Expect '\x7b' before " ++ role.word ++ " body."
  | variableName => "Expect variable name."
  | variableEnd => "Expect ';' after variable declaration."
  | forStart => "Expect '(' after 'for'."
  | forConditionEnd => "Expect ';' after loop condition."
  | forEnd => "Expect ')' after for clauses."
  | printEnd => "Expect ';' after value."
  | expressionEnd => "Expect ';' after expression."
  | ifStart => "Expect '(' after 'if'."
  | ifEnd => "Expect ')' after if condition."
  | whileStart => "Expect '(' after 'while'."
  | whileEnd => "Expect ')' after condition."
  | returnEnd => "Expect ';' after return value."
  | blockEnd => "Expect '\x7d' after block."
  | assignmentTarget => "Invalid assignment target."
  | propertyName => "Expect property name after '.'."
  | tooManyArguments => "Can't have more than 255 arguments."
  | argumentsEnd => "Expect ')' after arguments."
  | malformedLiteral => "Malformed literal."
  | superDot => "Expect '.' after 'super'."
  | superMethodName => "Expect superclass method name."
  | groupingEnd => "Expect ')' after expression."
  | expression => "Expect expression."

structure GrammarError where
  token : Token
  cause : GrammarCause
deriving DecidableEq

def GrammarError.report (e : GrammarError) : Report := .grammar e.token e.cause.message

/-- Readers that the rules can be run with. -/
class TokenReader (m : Type → Type) extends Monad m where
  /-- The bound on the depth is used up. -/
  exhausted {α : Type} : m α
  fail {α : Type} : Token → GrammarCause → m α
  /-- Records an error and goes on. -/
  note : Token → GrammarCause → m Unit
  freshId : m Nat
  /-- The next token, which is not taken; the end token if none is left. -/
  peek : m Token
  /-- Takes the next token if it passes the test. -/
  acceptIf : (Token → Bool) → m (Option Token)
  /-- Is a token of this kind next? -/
  sees : Token.Kind → m Bool
  /-- Is no token left? -/
  atEnd : m Bool
  /-- Turns a failure into a recorded error, after which reading resumes at a statement. -/
  recovering {α : Type} : m α → m (Option α)

/-- Kinds that begin a statement by a word of their own. -/
def Token.beginsStatement (t : Token) : Bool :=
  [.classWord, .funWord, .varWord, .forWord, .ifWord, .whileWord, .printWord,
    .returnWord].contains t.kind

namespace Rules

open TokenReader

variable {m : Type → Type} [TokenReader m]

def accept (kind : Token.Kind) : m (Option Token) := acceptIf fun t => t.kind == kind

def acceptAny (kinds : List Token.Kind) : m (Option Token) :=
  acceptIf fun t => kinds.contains t.kind

/-- Takes a token of this kind or fails at whatever stands there. -/
def expect (kind : Token.Kind) (cause : GrammarCause) : m Token := do
  match ← accept kind with
  | some t => pure t
  | none => fail (← peek) cause

end Rules

end ClassScript
