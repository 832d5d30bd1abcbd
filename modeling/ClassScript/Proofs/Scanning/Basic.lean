import ClassScript.Source.Item

/-! # Scanning bytes

Here the source text stays as it is, and a position moves over its bytes.  Every byte is read at an
index and every text is cut out between two offsets.  A read behind the last byte fails, and so does
a cut whose offsets are not in order, lie behind the end or, where a text is wanted, split a
character.  Every cut is written down, and so is the extent of each item that is yielded.
-/
namespace ClassScript

open Source

/-- The bytes from one offset up to another. -/
structure Extent where
  start : Nat
  stop : Nat
deriving DecidableEq

/-- Where the current text starts, the position behind the last byte taken, the line, the kind and
the literal of a token that was recognised but not yet yielded, and what was written down, the
latest first. -/
structure Scanner where
  start : Nat := 0
  position : Nat := 0
  line : Nat := 1
  pending : Option (Token.Kind × Option Token.Literal) := none
  cuts : List Extent := []
  yields : List Extent := []

/-- A scan of a source text.  `none` means that a read or a cut has failed, or that a bound was too
small. -/
def Scan (α : Type) : Type := String → Scanner → Option (α × Scanner)

namespace Scan

variable {α β : Type}

protected def pure (a : α) : Scan α := fun _ s => some (a, s)

protected def bind (r : Scan α) (f : α → Scan β) : Scan β := fun source s =>
  match r source s with
  | none => none
  | some (a, s) => f a source s

instance : Monad Scan where
  pure := Scan.pure
  bind := Scan.bind

def exhausted : Scan α := fun _ _ => none

def scanner : Scan Scanner := fun _ s => some (s, s)

def size : Scan Nat := fun source s => some (source.utf8ByteSize, s)

def moveTo (position : Nat) : Scan Unit := fun _ s => some ((), { s with position })

def countLine : Scan Unit := fun _ s => some ((), { s with line := s.line + 1 })

/-- The byte at an index. -/
def byte (index : Nat) : Scan UInt8 := fun source s =>
  source.toUTF8.data[index]?.map fun b => (b, s)

/-- The bytes between two offsets. -/
def cutBytes (start stop : Nat) : Scan (List UInt8) := fun source s =>
  if start ≤ stop ∧ stop ≤ source.utf8ByteSize then
    some ((source.toUTF8.data.extract start stop).toList,
      { s with cuts := ⟨start, stop⟩ :: s.cuts })
  else none

/-- The text between two offsets, at each of which a character starts or the source text ends. -/
def cutText (start stop : Nat) : Scan String := fun source s => do
  let slice ← source.slice? (← source.pos? ⟨start⟩) (← source.pos? ⟨stop⟩)
  return (slice.copy, { s with cuts := ⟨start, stop⟩ :: s.cuts })

def atEnd : Scan Bool := do return (← size) ≤ (← scanner).position

/-- Takes a byte. -/
def advance : Scan UInt8 := do
  let s ← scanner
  let b ← byte s.position
  moveTo (s.position + 1)
  return b

/-- The byte at the position, or zero behind the last byte. -/
def peek : Scan UInt8 := do
  if ← atEnd then return 0 else byte (← scanner).position

/-- The byte behind the position, or zero. -/
def peekNext : Scan UInt8 := do
  let s ← scanner
  if (← size) ≤ s.position + 1 then return 0 else byte (s.position + 1)

/-- Takes a byte if it is the expected one. -/
def matchByte (expected : UInt8) : Scan Bool := do
  if ← atEnd then return false
  else if (← peek) == expected then
    let _ ← advance
    return true
  else return false

def emit (kind : Token.Kind) (literal : Option Token.Literal) : Scan Unit := fun _ s =>
  some ((), { s with pending := some (kind, literal) })

/-- One of two symbols, by the byte that follows. -/
def emitEither (second : UInt8) (double single : Token.Kind) : Scan Unit := do
  if ← matchByte second then emit double none else emit single none

/-- The character that a byte is on its own. -/
def ascii (b : UInt8) : Char := Char.ofNat b.toNat

/-- Takes bytes as long as they are of a class. -/
def skipWhile (p : Char → Bool) : Nat → Scan Unit
  | 0 => exhausted
  | n + 1 => do
    if p (ascii (← peek)) then
      let _ ← advance
      skipWhile p n
    else return ()

/-- Moves to the end of the line. -/
def skipLine : Scan Unit := do
  let s ← scanner
  let size ← size
  match (← cutBytes s.position size).findIdx? (ascii · == '\n') with
  | some offset => moveTo (s.position + offset)
  | none => moveTo size

/-- Takes bytes up to a quote, and counts the lines. -/
def skipQuoted : Nat → Scan Unit
  | 0 => exhausted
  | n + 1 => do
    if ← atEnd then return ()
    else if ascii (← peek) == '"' then return ()
    else
      if ascii (← advance) == '\n' then countLine
      skipQuoted n

/-- The rest of a string; the error if it is never closed. -/
def string (n : Nat) : Scan (Option Item) := do
  skipQuoted n
  if ← atEnd then return some (.error (← scanner).line .unterminated)
  else
    let _ ← advance
    let s ← scanner
    let text ← cutText (s.start + 1) (s.position - 1)
    emit .string (some (.string text))
    return none

/-- A point and places behind it, if they are there. -/
def fraction (n : Nat) : Scan Unit := do
  if ascii (← peek) == '.' then
    if isDigit (ascii (← peekNext)) then
      let _ ← advance
      skipWhile isDigit n
    else return ()
  else return ()

/-- The rest of a number. -/
def number (n : Nat) : Scan Unit := do
  skipWhile isDigit n
  fraction n
  let s ← scanner
  let text ← cutText s.start s.position
  emit .number (some (.number (decimalOf text.toList).toNumber))

/-- The reserved words by their bytes. -/
def keywords : List (List UInt8 × Token.Kind) :=
  Token.reservedWords.map fun entry => (entry.1.toUTF8.data.toList, entry.2)

/-- The rest of a word. -/
def word (n : Nat) : Scan Unit := do
  skipWhile isWordChar n
  let s ← scanner
  let bytes ← cutBytes s.start s.position
  emit ((keywords.lookup bytes).getD .identifier) none

/-- The whole of a character that starts no token. -/
def stray : Scan (Option Item) := do
  let s ← scanner
  let text ← cutText s.start (← size)
  let c := text.toList.headD '\uFFFD'
  moveTo (s.start + c.utf8Size)
  return some (.error s.line (.unexpected c))

/-- What starts with a slash. -/
def slash : Scan Unit := do
  if ← matchByte '/'.toUInt8 then skipLine else emit .slash none

/-- The rest of what a character starts; the error if there is one. -/
def takeRest (n : Nat) (c : Char) : Scan (Option Item) := do
  if c = '/' then
    slash
    return none
  else if c = '"' then string n
  else if c = '\n' then
    countLine
    return none
  else if isBlank c then return none
  else if isDigit c then
    number n
    return none
  else if isWordStart c then
    word n
    return none
  else
    match symbolOf? c with
    | some (kind, none) =>
      emit kind none
      return none
    | some (single, some double) =>
      emitEither '='.toUInt8 double single
      return none
    | none => stray

/-- Takes a token, a blank or a comment, or finds an error. -/
def token (n : Nat) : Scan (Option Item) := do
  takeRest n (ascii (← advance))

/-- From here on a new text is taken. -/
def begin : Scan Unit := fun _ s => some ((), { s with start := s.position, pending := none })

def takePending : Scan (Option (Token.Kind × Option Token.Literal)) := fun _ s =>
  some (s.pending, { s with pending := none })

/-- Yields an item and writes down its extent. -/
def yield (start stop : Nat) (item : Item) : Scan (Option Item) := fun _ s =>
  some (some item, { s with yields := ⟨start, stop⟩ :: s.yields })

/-- Yields the error that was found, or the token that is pending if there is one. -/
def deliver : Option Item → Scan (Option Item)
  | some error => do
    let s ← scanner
    yield s.start s.position error
  | none => do
    match ← takePending with
    | some (kind, literal) =>
      let s ← scanner
      let lexeme ← cutText s.start s.position
      yield s.start s.position (.token ⟨kind, lexeme, literal, s.line⟩)
    | none => return none

/-- The next item.  The end token is yielded at the end, and behind the end there is nothing. -/
def next : Nat → Scan (Option Item)
  | 0 => exhausted
  | n + 1 => do
    let i := (← scanner).position
    if (← size) < i then return none
    else if i = (← size) then
      moveTo (i + 1)
      yield i i (.token (.endOfInput (← scanner).line))
    else
      begin
      match ← deliver (← token n) with
      | some item => return some item
      | none => next n

/-- The items up to the end. -/
def all : Nat → Scan (List Item)
  | 0 => exhausted
  | n + 1 => do
    match ← next n with
    | none => return []
    | some item => return item :: (← all n)

end Scan

/-- The items that a scanner yields, and the scanner when it has yielded them. -/
def Source.scan (bound : Nat) (source : String) : Option (List Item × Scanner) :=
  Scan.all bound source {}

end ClassScript
