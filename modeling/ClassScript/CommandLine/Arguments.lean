/-! # Command line arguments

`[--log] [SCRIPT]`, or one of the commands `run FILE`, `repl`, `tokenize FILE [--json]` and
`parse FILE`, each of which also takes `--log`.  The first argument alone decides whether there is a
command.  After `--` every argument is a name.  Arguments are read from left to right, and the first
that settles the matter ends the reading.
-/
namespace ClassScript.CommandLine

/-- What is to be done. -/
inductive Command where
  | run (path : String)
  | interactive
  | tokenize (path : String) (json : Bool)
  | outline (path : String)
deriving DecidableEq

/-- What a command line asks for. -/
inductive Request where
  | perform (command : Command) (log : Bool)
  | version
  | help
  /-- The arguments are not understood. -/
  | misuse
deriving DecidableEq

/-- The options and the name read so far. -/
structure Options where
  log : Bool := false
  json : Bool := false
  path : Option String := none

/-- What may follow a command. -/
structure Form where
  takesPath : Bool := true
  takesJson : Bool := false
  takesVersion : Bool := false

/-- Takes an argument that is a name. -/
def Options.withPath (o : Options) (form : Form) (path : String) : Except Request Options :=
  if form.takesPath && o.path.isNone && !path.isEmpty then .ok { o with path := some path }
  else .error .misuse

/-- Takes an argument of two dashes and a word.  No option may be given twice. -/
def Options.withLong (o : Options) (form : Form) (word : String) : Except Request Options :=
  match word with
  | "log" => if o.log then .error .misuse else .ok { o with log := true }
  | "json" => if form.takesJson && !o.json then .ok { o with json := true } else .error .misuse
  | "version" => .error (if form.takesVersion then .version else .misuse)
  | "help" => .error .help
  | _ => .error .misuse

/-- What an argument of one dash and letters asks for: its first letter decides. -/
def shortRequest (form : Form) : List Char → Request
  | 'V' :: _ => if form.takesVersion then .version else .misuse
  | 'h' :: _ => .help
  | _ => .misuse

/-- Reads arguments; `named` once `--` has been seen. -/
def Options.read (form : Form) (named : Bool) (o : Options) : List String → Except Request Options
  | [] => .ok o
  | a :: rest => do
    if named then (← o.withPath form a).read form true rest
    else
      match a.toList with
      | ['-', '-'] => o.read form true rest
      | '-' :: '-' :: word => (← o.withLong form (String.ofList word)).read form false rest
      | '-' :: c :: letters => .error (shortRequest form (c :: letters))
      | _ => (← o.withPath form a).read form false rest

/-- Reads what follows a command. -/
def request (form : Form) (arguments : List String) (command? : Options → Option Command) :
    Request :=
  match ({} : Options).read form false arguments with
  | .error r => r
  | .ok o =>
    match command? o with
    | some command => .perform command o.log
    | none => .misuse

/-- The commands about which help can be asked. -/
def commandNames : List String := ["run", "repl", "tokenize", "parse", "help"]

def helpRequest : List String → Request
  | [] => .help
  | [name] => if commandNames.contains name then .help else .misuse
  | _ => .misuse

/-- What a list of arguments asks for. -/
def Request.ofArguments : List String → Request
  | "run" :: rest => request {} rest fun o => o.path.map .run
  | "repl" :: rest => request { takesPath := false } rest fun _ => some .interactive
  | "tokenize" :: rest =>
    request { takesJson := true } rest fun o => o.path.map fun path => .tokenize path o.json
  | "parse" :: rest => request {} rest fun o => o.path.map .outline
  | "help" :: rest => helpRequest rest
  | arguments =>
    request { takesVersion := true } arguments fun o =>
      some (match o.path with
        | some path => .run path
        | none => .interactive)

end ClassScript.CommandLine
