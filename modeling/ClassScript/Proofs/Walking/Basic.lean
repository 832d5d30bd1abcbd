import ClassScript.Program.Statement

/-! # Walking over a token list

Here the token list stays as it is, and a position moves over it.  All that the rules learn about
the tokens comes from looking at an index, which fails where the list has none.  Every look is
written down, and so is the stretch that each call of the rule for declarations walks.
-/
namespace ClassScript

/-- A look at an index, from a position. -/
structure Look where
  position : Nat
  index : Nat
deriving DecidableEq

/-- Where a call of the rule for declarations starts, and where it is done. -/
structure Stretch where
  start : Nat
  stop : Nat
deriving DecidableEq

/-- The position, the errors so far, the identity of the next reference, and what was written down,
the latest first. -/
structure Walker where
  position : Nat := 0
  errors : Array GrammarError := #[]
  nextId : Nat
  looks : List Look := []
  stretches : List Stretch := []

/-- A walk over a token list.  `none` means that a look went behind the end of the list, or that a
bound was too small. -/
def Walk (α : Type) : Type := List Token → Walker → Option (Except GrammarError α × Walker)

namespace Walk

variable {α β : Type}

protected def pure (a : α) : Walk α := fun _ w => some (.ok a, w)

protected def bind (r : Walk α) (f : α → Walk β) : Walk β := fun tokens w =>
  match r tokens w with
  | none => none
  | some (.error e, w) => some (.error e, w)
  | some (.ok a, w) => f a tokens w

instance : Monad Walk where
  pure := Walk.pure
  bind := Walk.bind

def exhausted : Walk α := fun _ _ => none

def fail (token : Token) (cause : GrammarCause) : Walk α := fun _ w =>
  some (.error ⟨token, cause⟩, w)

def note (token : Token) (cause : GrammarCause) : Walk Unit := fun _ w =>
  some (.ok (), { w with errors := w.errors.push ⟨token, cause⟩ })

def freshId : Walk Nat := fun _ w => some (.ok w.nextId, { w with nextId := w.nextId + 1 })

def position : Walk Nat := fun _ w => some (.ok w.position, w)

def step : Walk Unit := fun _ w => some (.ok (), { w with position := w.position + 1 })

/-- The token at an index. -/
def look (index : Nat) : Walk Token := fun tokens w =>
  match tokens[index]? with
  | none => none
  | some t => some (.ok t, { w with looks := ⟨w.position, index⟩ :: w.looks })

def peek : Walk Token := do look (← position)

/-- The token in front of the position; at the start, the first one. -/
def previous : Walk Token := do look ((← position) - 1)

def atEnd : Walk Bool := do return (← peek).kind == .endOfInput

/-- Steps over a token, but not over an end token. -/
def advance : Walk Token := do
  if ← atEnd then previous
  else
    step
    previous

def check (p : Token → Bool) : Walk Bool := do
  if ← atEnd then return false else return p (← peek)

def acceptIf (p : Token → Bool) : Walk (Option Token) := do
  if ← check p then some <$> advance else return none

/-- Steps on to where a statement may begin. -/
def skip : Nat → Walk Unit
  | 0 => exhausted
  | n + 1 => do
    if ← atEnd then return ()
    else if (← previous).kind == .semicolon then return ()
    else if (← peek).beginsStatement then return ()
    else
      let _ ← advance
      skip n

/-- Steps over the token of the failure and on to where a statement may begin. -/
def synchronize : Walk Unit := fun tokens => (advance >>= fun _ => skip tokens.length) tokens

/-- A failure is a value too. -/
def attempt (r : Walk α) : Walk (Except GrammarError α) := fun tokens w =>
  (r tokens w).map fun (result, w) => (.ok result, w)

/-- Writes down the stretch that ends here. -/
def finish (start : Nat) : Walk Unit := fun _ w =>
  some (.ok (), { w with stretches := ⟨start, w.position⟩ :: w.stretches })

def recovering (r : Walk α) : Walk (Option α) := do
  let start ← position
  match ← attempt r with
  | .ok a =>
    finish start
    return some a
  | .error e =>
    note e.token e.cause
    synchronize
    finish start
    return none

instance : TokenReader Walk where
  exhausted := exhausted
  fail := fail
  note := note
  freshId := freshId
  peek := peek
  acceptIf := acceptIf
  sees kind := check fun t => t.kind == kind
  atEnd := atEnd
  recovering := recovering

end Walk

namespace Program

/-- The tokens with an end token at their end, on the line of the last one. -/
def closed (tokens : List Token) : List Token :=
  if tokens.getLast?.map Token.kind = some .endOfInput then tokens
  else tokens ++ [.endOfInput ((tokens.getLast?.map Token.line).getD 1)]

/-- Where the first end token stands. -/
def endIndex (tokens : List Token) : Nat :=
  (closed tokens).findIdx fun t => t.kind == .endOfInput

/-- Walks over a whole program, its references numbered from `nextId`. -/
def walk (depth nextId : Nat) (tokens : List Token) : Option (Reading × Walker) :=
  match (Rules.statements depth false : Walk (List Stmt)) (closed tokens) { nextId } with
  | some (.ok program, w) =>
    some (⟨if w.errors.isEmpty then .ok program else .error w.errors.toList, w.nextId⟩, w)
  | some (.error e, w) => some (⟨.error (w.errors.push e).toList, w.nextId⟩, w)
  | none => none

end Program

end ClassScript
