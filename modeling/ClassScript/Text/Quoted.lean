import ClassScript.Text.Visible

/-! # Quoted text

Two ways of quoting, both of which escape quotes and backslashes.  In a JSON string control
characters below the blank have a short escape or a four-digit one, and every other character stands
for itself.  In a quoted name every character that does not show has a short escape or is written by
its number.
-/
namespace ClassScript.Text

def hexDigit (n : Nat) : Char := Nat.digitChar (n % 16)

/-- How one character is written between the quotes. -/
def jsonChar (c : Char) : List Char :=
  if c = '"' then ['\\', '"']
  else if c = '\\' then ['\\', '\\']
  else if c = '\x08' then ['\\', 'b']
  else if c = '\t' then ['\\', 't']
  else if c = '\n' then ['\\', 'n']
  else if c = '\x0c' then ['\\', 'f']
  else if c = '\r' then ['\\', 'r']
  else if c.toNat < 32 then ['\\', 'u', '0', '0', hexDigit (c.toNat / 16), hexDigit c.toNat]
  else [c]

def jsonString (s : String) : String :=
  String.ofList ('"' :: s.toList.flatMap jsonChar ++ ['"'])

/-- How one character of a name is written between the quotes. -/
def nameChar (c : Char) : List Char :=
  if c = '\x00' then ['\\', '0']
  else if c = '\t' then ['\\', 't']
  else if c = '\r' then ['\\', 'r']
  else if c = '\n' then ['\\', 'n']
  else if c = '"' ∨ c = '\\' then ['\\', c]
  else if isVisible c then [c]
  else '\\' :: 'u' :: '\x7b' :: Nat.toDigits 16 c.toNat ++ ['\x7d']

def quotedName (s : String) : String :=
  String.ofList ('"' :: s.toList.flatMap nameChar ++ ['"'])

end ClassScript.Text
