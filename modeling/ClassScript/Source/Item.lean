import ClassScript.Number.Decimal
import ClassScript.Report
import ClassScript.Source.Piece

/-! # Items of a source text

Reading a source text yields tokens and lexical errors in the order of the text, and the end token
last.  The line of an item is one more than the number of line ends before the item's end.
-/
namespace ClassScript.Source

inductive LexicalError where
  | unterminated
  | unexpected (c : Char)
deriving DecidableEq

def LexicalError.message : LexicalError → String
  | unterminated => "Unterminated string."
  | unexpected c => "Unexpected character: " ++ c.toString

inductive Item where
  | token (t : Token)
  | error (line : Nat) (cause : LexicalError)
deriving DecidableEq

/-- The decimal written by digits with an optional fraction. -/
def decimalOf (text : List Char) : Decimal :=
  Decimal.ofDigits (text.takeWhile isDigit) ((text.dropWhile isDigit).drop 1)

/-- The text between the two quotes. -/
def quotedText (text : List Char) : String := String.ofList ((text.drop 1).dropLast)

namespace Piece

def newlines (p : Piece) : Nat := p.text.count '\n'

/-- The item of a piece that ends on the given line; blanks and comments have none. -/
def item? (p : Piece) (line : Nat) : Option Item :=
  let lexeme := String.ofList p.text
  match p.shape with
  | .blank | .comment => none
  | .symbol kind => some (.token { kind, lexeme, line })
  | .word => some (.token { kind := Token.Kind.ofWord lexeme, lexeme, line })
  | .number =>
    let literal := Token.Literal.number (decimalOf p.text).toNumber
    some (.token { kind := .number, lexeme, literal := some literal, line })
  | .string =>
    let literal := Token.Literal.string (quotedText p.text)
    some (.token { kind := .string, lexeme, literal := some literal, line })
  | .unclosed => some (.error line .unterminated)
  | .stray => some (.error line (.unexpected (p.text.headD ' ')))

end Piece

/-- The items of pieces that start on the given line. -/
def itemsFrom (line : Nat) : List Piece → List Item
  | [] => [.token (Token.endOfInput line)]
  | p :: ps =>
    let line := line + p.newlines
    match p.item? line with
    | none => itemsFrom line ps
    | some i => i :: itemsFrom line ps

def items (source : String) : List Item := itemsFrom 1 (pieces source.toList)

def Item.token? : Item → Option Token
  | token t => some t
  | error .. => none

def Item.report? : Item → Option Report
  | token _ => none
  | error line cause => some (.lexical line cause.message)

def tokens (source : String) : List Token := (items source).filterMap Item.token?

def lexicalReports (source : String) : List Report := (items source).filterMap Item.report?

end ClassScript.Source
