import ClassScript.Number.Basic

/-! # Tokens

A token is a kind with the text it was read from, the literal it carries and its line.
-/
namespace ClassScript

namespace Token

/-- What a token is, its text and literal apart. -/
inductive Kind where
  | leftParen
  | rightParen
  | leftBrace
  | rightBrace
  | comma
  | dot
  | minus
  | plus
  | semicolon
  | slash
  | star
  | bang
  | bangEqual
  | equal
  | equalEqual
  | greater
  | greaterEqual
  | less
  | lessEqual
  | identifier
  | string
  | number
  | andWord
  | classWord
  | elseWord
  | falseWord
  | funWord
  | forWord
  | ifWord
  | nilWord
  | orWord
  | printWord
  | returnWord
  | superWord
  | thisWord
  | trueWord
  | varWord
  | whileWord
  | endOfInput
deriving DecidableEq, Inhabited

/-- The name under which a kind is shown. -/
def Kind.name : Kind → String
  | .leftParen => "LEFT_PAREN"
  | .rightParen => "RIGHT_PAREN"
  | .leftBrace => "LEFT_BRACE"
  | .rightBrace => "RIGHT_BRACE"
  | .comma => "COMMA"
  | .dot => "DOT"
  | .minus => "MINUS"
  | .plus => "PLUS"
  | .semicolon => "SEMICOLON"
  | .slash => "SLASH"
  | .star => "STAR"
  | .bang => "BANG"
  | .bangEqual => "BANG_EQUAL"
  | .equal => "EQUAL"
  | .equalEqual => "EQUAL_EQUAL"
  | .greater => "GREATER"
  | .greaterEqual => "GREATER_EQUAL"
  | .less => "LESS"
  | .lessEqual => "LESS_EQUAL"
  | .identifier => "IDENTIFIER"
  | .string => "STRING"
  | .number => "NUMBER"
  | .andWord => "AND"
  | .classWord => "CLASS"
  | .elseWord => "ELSE"
  | .falseWord => "FALSE"
  | .funWord => "FUN"
  | .forWord => "FOR"
  | .ifWord => "IF"
  | .nilWord => "NIL"
  | .orWord => "OR"
  | .printWord => "PRINT"
  | .returnWord => "RETURN"
  | .superWord => "SUPER"
  | .thisWord => "THIS"
  | .trueWord => "TRUE"
  | .varWord => "VAR"
  | .whileWord => "WHILE"
  | .endOfInput => "EOF"

def Kind.all : List Kind :=
  [.leftParen, .rightParen, .leftBrace, .rightBrace, .comma, .dot, .minus, .plus, .semicolon,
    .slash, .star, .bang, .bangEqual, .equal, .equalEqual, .greater, .greaterEqual, .less,
    .lessEqual, .identifier, .string, .number, .andWord, .classWord, .elseWord, .falseWord,
    .funWord, .forWord, .ifWord, .nilWord, .orWord, .printWord, .returnWord, .superWord,
    .thisWord, .trueWord, .varWord, .whileWord, .endOfInput]

def Kind.ofName? (name : String) : Option Kind := Kind.all.find? fun k => k.name = name

/-- The reserved words. -/
def reservedWords : List (String × Kind) :=
  [("and", .andWord), ("class", .classWord), ("else", .elseWord), ("false", .falseWord),
    ("fun", .funWord), ("for", .forWord), ("if", .ifWord), ("nil", .nilWord), ("or", .orWord),
    ("print", .printWord), ("return", .returnWord), ("super", .superWord), ("this", .thisWord),
    ("true", .trueWord), ("var", .varWord), ("while", .whileWord)]

/-- A word is a reserved word or else an identifier. -/
def Kind.ofWord (word : String) : Kind := (reservedWords.lookup word).getD .identifier

/-- The value written by a number or string token. -/
inductive Literal where
  | number (value : Number)
  | string (text : String)
deriving DecidableEq

end Token

structure Token where
  kind : Token.Kind
  lexeme : String := ""
  literal : Option Token.Literal := none
  line : Nat := 1
deriving DecidableEq, Inhabited

namespace Token

/-- The token that ends every token list. -/
def endOfInput (line : Nat) : Token := { kind := .endOfInput, line }

/-- An identifier that stands in no source text. -/
def named (name : String) (line : Nat) : Token := { kind := .identifier, lexeme := name, line }

end Token

end ClassScript
