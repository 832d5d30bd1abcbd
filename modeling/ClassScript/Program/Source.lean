import ClassScript.Program.Statement
import ClassScript.Source.Item

/-! # Programs from source texts

A source text is a program if it has neither lexical nor grammar errors.  Otherwise all of them are
reported, the lexical ones first.
-/
namespace ClassScript.Program

/-- The program of a source text, or its reports; and the identity of the next reference. -/
def ofSource (nextId : Nat) (source : String) : Except (List Report) Program × Nat :=
  let reading := ofTokens nextId (Source.tokens source)
  let lexical := Source.lexicalReports source
  match reading.outcome with
  | .ok program => (if lexical.isEmpty then .ok program else .error lexical, reading.nextId)
  | .error errors => (.error (lexical ++ errors.map GrammarError.report), reading.nextId)

end ClassScript.Program
