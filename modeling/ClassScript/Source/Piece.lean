import ClassScript.Token.Basic

/-! # Pieces of a source text

A source text is cut into pieces without losing a character: blanks, comments, the texts of tokens,
and the two kinds of text that are no token.  Each piece is the longest of its kind, and the pieces
make up the text (`flatMap_pieces`).
-/
namespace ClassScript.Source

inductive Shape where
  | blank
  | comment
  | symbol (kind : Token.Kind)
  | number
  | word
  | string
  /-- A quote that is never closed. -/
  | unclosed
  /-- A character that starts no token. -/
  | stray
deriving DecidableEq

structure Piece where
  shape : Shape
  text : List Char
deriving DecidableEq

def isBlank (c : Char) : Bool := c == ' ' || c == '\t' || c == '\r' || c == '\n'

def isDigit (c : Char) : Bool := decide ('0' ≤ c ∧ c ≤ '9')

def isWordStart (c : Char) : Bool :=
  decide ('a' ≤ c ∧ c ≤ 'z') || decide ('A' ≤ c ∧ c ≤ 'Z') || c == '_'

def isWordChar (c : Char) : Bool := isWordStart c || isDigit c

/-- The symbol that a character forms alone and the one that it forms with an equals sign. -/
def symbolOf? : Char → Option (Token.Kind × Option Token.Kind)
  | '(' => some (.leftParen, none)
  | ')' => some (.rightParen, none)
  | '\x7b' => some (.leftBrace, none)
  | '\x7d' => some (.rightBrace, none)
  | ',' => some (.comma, none)
  | '.' => some (.dot, none)
  | '-' => some (.minus, none)
  | '+' => some (.plus, none)
  | ';' => some (.semicolon, none)
  | '/' => some (.slash, none)
  | '*' => some (.star, none)
  | '!' => some (.bang, some .bangEqual)
  | '=' => some (.equal, some .equalEqual)
  | '>' => some (.greater, some .greaterEqual)
  | '<' => some (.less, some .lessEqual)
  | _ => none

/-- The longest run of characters of a class, behind a first character that is already taken. -/
def cutWhile (shape : Shape) (p : Char → Bool) (taken cs : List Char) : Piece × List Char :=
  (⟨shape, taken ++ cs.takeWhile p⟩, cs.dropWhile p)

/-- Digits, and a fraction if a digit follows the point. -/
def cutNumber (c : Char) (cs : List Char) : Piece × List Char :=
  let whole := c :: cs.takeWhile isDigit
  match cs.dropWhile isDigit with
  | '.' :: d :: rest =>
    if isDigit d then cutWhile .number isDigit (whole ++ ['.', d]) rest
    else (⟨.number, whole⟩, '.' :: d :: rest)
  | rest => (⟨.number, whole⟩, rest)

/-- Everything up to the closing quote, or the whole rest if there is none. -/
def cutString (quote : Char) (cs : List Char) : Piece × List Char :=
  let body := cs.takeWhile (· != '"')
  match cs.dropWhile (· != '"') with
  | [] => (⟨.unclosed, quote :: body⟩, [])
  | close :: rest => (⟨.string, quote :: body ++ [close]⟩, rest)

/-- A character that forms a symbol, together with a following equals sign where that is one too. -/
def cutSymbol (c : Char) (cs : List Char) : Piece × List Char :=
  match symbolOf? c, cs with
  | some (_, some kind), '=' :: rest => (⟨.symbol kind, [c, '=']⟩, rest)
  | some (kind, _), rest => (⟨.symbol kind, [c]⟩, rest)
  | none, rest => (⟨.stray, [c]⟩, rest)

/-- Cuts the first piece off a text that starts with `c`. -/
def cut (c : Char) (cs : List Char) : Piece × List Char :=
  if isBlank c then cutWhile .blank isBlank [c] cs
  else if isDigit c then cutNumber c cs
  else if isWordStart c then cutWhile .word isWordChar [c] cs
  else if c = '"' then cutString c cs
  else if c = '/' ∧ cs.head? = some '/' then cutWhile .comment (· != '\n') [c] cs
  else cutSymbol c cs

/-- The first `n` pieces. -/
def piecesWithin : Nat → List Char → List Piece
  | 0, _ => []
  | _ + 1, [] => []
  | n + 1, c :: cs =>
    let (piece, rest) := cut c cs
    piece :: piecesWithin n rest

/-- All pieces; there are at most as many as characters. -/
def pieces (cs : List Char) : List Piece := piecesWithin cs.length cs

theorem cutWhile_append (shape : Shape) (p : Char → Bool) (taken cs : List Char) :
    (cutWhile shape p taken cs).1.text ++ (cutWhile shape p taken cs).2 = taken ++ cs := by
  simp [cutWhile, List.takeWhile_append_dropWhile]

theorem cutNumber_append (c : Char) (cs : List Char) :
    (cutNumber c cs).1.text ++ (cutNumber c cs).2 = c :: cs := by
  have h : cs.takeWhile isDigit ++ cs.dropWhile isDigit = cs := List.takeWhile_append_dropWhile
  unfold cutNumber
  split
  next d rest hrest =>
    rw [hrest] at h
    split
    · rw [cutWhile_append]
      simpa using h
    · simpa using h
  next => simp

theorem cutString_append (c : Char) (cs : List Char) :
    (cutString c cs).1.text ++ (cutString c cs).2 = c :: cs := by
  have h : cs.takeWhile (· != '"') ++ cs.dropWhile (· != '"') = cs :=
    List.takeWhile_append_dropWhile
  unfold cutString
  split
  next hrest =>
    rw [hrest] at h
    simpa using h
  next close rest hrest =>
    rw [hrest] at h
    simpa using h

theorem cutSymbol_append (c : Char) (cs : List Char) :
    (cutSymbol c cs).1.text ++ (cutSymbol c cs).2 = c :: cs := by
  unfold cutSymbol
  split <;> rfl

/-- A piece and what is left of the text make up the text. -/
theorem cut_append (c : Char) (cs : List Char) :
    (cut c cs).1.text ++ (cut c cs).2 = c :: cs := by
  unfold cut
  split
  · exact cutWhile_append _ _ _ _
  split
  · exact cutNumber_append c cs
  split
  · exact cutWhile_append _ _ _ _
  split
  · exact cutString_append c cs
  split
  · exact cutWhile_append _ _ _ _
  · exact cutSymbol_append c cs

/-- No piece is empty. -/
theorem cut_length (c : Char) (cs : List Char) : (cut c cs).2.length ≤ cs.length := by
  have h := congrArg List.length (cut_append c cs)
  have hpos : 0 < (cut c cs).1.text.length := by
    unfold cut cutWhile cutNumber cutString cutSymbol
    repeat' split
    all_goals simp [cutWhile]
  simp only [List.length_append, List.length_cons] at h
  omega

theorem flatMap_piecesWithin (n : Nat) (cs : List Char) (h : cs.length ≤ n) :
    (piecesWithin n cs).flatMap Piece.text = cs := by
  induction n generalizing cs with
  | zero =>
    cases cs with
    | nil => rfl
    | cons c cs => simp at h
  | succ n ih =>
    cases cs with
    | nil => rfl
    | cons c cs =>
      have hlen := cut_length c cs
      simp only [List.length_cons] at h
      rw [piecesWithin, List.flatMap_cons, ih _ (by omega), cut_append]

/-- The pieces of a text make up the text. -/
theorem flatMap_pieces (cs : List Char) : (pieces cs).flatMap Piece.text = cs :=
  flatMap_piecesWithin cs.length cs (Nat.le_refl _)

end ClassScript.Source
