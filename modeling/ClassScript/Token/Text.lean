import ClassScript.Number.Text
import ClassScript.Text.Quoted
import ClassScript.Token.Basic

/-! # Texts of tokens

A token is shown as kind, lexeme and literal, or as one JSON object.
-/
namespace ClassScript.Token

def Literal.text : Literal → String
  | .number x => x.literalText
  | .string s => s

def Literal.json : Literal → String
  | .number x => "\x7b\"Number\":" ++ x.jsonText ++ "\x7d"
  | .string s => "\x7b\"Str\":" ++ Text.jsonString s ++ "\x7d"

/-- Kind, lexeme and literal with one blank between them. -/
def text (t : Token) : String :=
  t.kind.name ++ " " ++ t.lexeme ++ " " ++ (t.literal.map Literal.text).getD "null"

/-- An object with the four fields in this order and no blanks. -/
def json (t : Token) : String :=
  "\x7b\"token_type\":\"" ++ t.kind.name
    ++ "\",\"lexeme\":" ++ Text.jsonString t.lexeme
    ++ ",\"literal\":" ++ (t.literal.map Literal.json).getD "null"
    ++ ",\"line\":" ++ toString t.line ++ "\x7d"

end ClassScript.Token
