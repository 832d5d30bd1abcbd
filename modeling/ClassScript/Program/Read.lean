import ClassScript.Program.Reader

/-! # Reading token lists

A reader takes tokens off the front of a list that has no end token; the end token is kept apart,
because reports point at it when the list runs out.  A reader yields a value or a grammar error and,
in both cases, a cursor; it may record errors on the way without stopping.  `none` means that the
bound on the depth of the reading was too small.
-/
namespace ClassScript

/-- The tokens that are left, the errors so far, and the identity of the next reference. -/
structure Cursor where
  rest : List Token
  errors : Array GrammarError := #[]
  nextId : Nat

/-- A reader, given the end token. -/
def Read (α : Type) : Type := Token → Cursor → Option (Except GrammarError α × Cursor)

namespace Read

variable {α β : Type}

protected def pure (a : α) : Read α := fun _ c => some (.ok a, c)

protected def bind (r : Read α) (f : α → Read β) : Read β := fun last c =>
  match r last c with
  | none => none
  | some (.error e, c) => some (.error e, c)
  | some (.ok a, c) => f a last c

/-- The bound on the depth is used up. -/
def exhausted : Read α := fun _ _ => none

def fail (token : Token) (cause : GrammarCause) : Read α := fun _ c =>
  some (.error ⟨token, cause⟩, c)

/-- Records an error and goes on. -/
def note (token : Token) (cause : GrammarCause) : Read Unit := fun _ c =>
  some (.ok (), { c with errors := c.errors.push ⟨token, cause⟩ })

def freshId : Read Nat := fun _ c => some (.ok c.nextId, { c with nextId := c.nextId + 1 })

/-- The next token, which is not taken; the end token if none is left. -/
def peek : Read Token := fun last c => some (.ok (c.rest.headD last), c)

/-- Takes the next token if it satisfies the test. -/
def acceptIf (p : Token → Bool) : Read (Option Token) := fun _ c =>
  match c.rest with
  | [] => some (.ok none, c)
  | t :: ts => if p t then some (.ok (some t), { c with rest := ts }) else some (.ok none, c)

/-- Is a token of this kind next? -/
def sees (kind : Token.Kind) : Read Bool := fun _ c =>
  some (.ok ((c.rest.head?.map Token.kind) == some kind), c)

/-- Is no token left? -/
def atEnd : Read Bool := fun _ c => some (.ok c.rest.isEmpty, c)

/-- Where reading resumes after an error: at least one token is dropped, and then all up to a
semicolon or before a word that begins a statement. -/
def resume : List Token → List Token
  | [] => []
  | t :: ts =>
    if t.kind == .semicolon || (ts.head?.map Token.beginsStatement).getD false then ts
    else resume ts

/-- Turns a failure into a recorded error, after which reading resumes at a statement. -/
def recovering (r : Read α) : Read (Option α) := fun last c =>
  match r last c with
  | none => none
  | some (.ok a, c) => some (.ok (some a), c)
  | some (.error e, c) =>
    some (.ok none, { c with rest := resume c.rest, errors := c.errors.push e })

instance : TokenReader Read where
  pure := Read.pure
  bind := Read.bind
  exhausted := exhausted
  fail := fail
  note := note
  freshId := freshId
  peek := peek
  acceptIf := acceptIf
  sees := sees
  atEnd := atEnd
  recovering := recovering

end Read

end ClassScript
