import RequireInjection.Text

namespace RequireInjection

structure Command where
  files : List Text := []
  query : Option Text := none
  project : Option Text := none
  outDir : Option Text := none
  init : Bool := false
  deriving DecidableEq, Repr

inductive Invocation where
  | version | help
  | misused
  | run (command : Command)
  deriving DecidableEq, Repr

inductive OptionName where
  | query | project | outDir
  deriving DecidableEq, Repr

namespace Command

/-- Sets an option that was not set before. Only a query may be empty. -/
def setOption (c : Command) (name : OptionName) (value : Text) : Option Command :=
  match name with
  | .query => if c.query.isSome then none else some { c with query := some value }
  | .project =>
    if c.project.isSome || value.isEmpty then none else some { c with project := some value }
  | .outDir =>
    if c.outDir.isSome || value.isEmpty then none else some { c with outDir := some value }

def addFile (c : Command) (path : Text) : Option Command :=
  if path.isEmpty then none else some { c with files := c.files ++ [path] }

end Command

namespace Invocation

inductive Opening where
  | option (name : OptionName) (value : Option Text)
  | init | version | help | misused
  deriving DecidableEq, Repr

def longOpening (argument : Text) : Opening :=
  let (name, value) := match Text.splitOnce '=' argument with
    | some (name, value) => (name, some value)
    | none => (argument, none)
  let alone (o : Opening) : Opening := if value.isNone then o else .misused
  match String.ofList name with
  | "query" => .option .query value
  | "project" => .option .project value
  | "out-dir" => .option .outDir value
  | "init" => alone .init
  | "version" => alone .version
  | "help" => alone .help
  | _ => .misused

def shortOpening (argument : Text) : Opening :=
  let value (rest : Text) : Option Text :=
    match rest with
    | [] => none
    | '=' :: value => some value
    | value => some value
  match argument with
  | 'q' :: rest => .option .query (value rest)
  | 'p' :: rest => .option .project (value rest)
  | 'V' :: _ => .version
  | 'h' :: _ => .help
  | _ => .misused

def looksLikeOption : Text → Bool
  | '-' :: _ :: _ => true
  | _ => false

def ofCommand (c : Option Command) (go : Command → Invocation) : Invocation :=
  match c with
  | some c => go c
  | none => misused

def readFiles (c : Command) : List Text → Invocation
  | [] => run c
  | path :: rest => ofCommand (c.addFile path) fun c => readFiles c rest

def readArguments (c : Command) : List Text → Invocation
  | [] => run c
  | argument :: rest =>
    if argument = ['-', '-'] then readFiles c rest
    else if !looksLikeOption argument then
      ofCommand (c.addFile argument) fun c => readArguments c rest
    else
      let opening := match argument with
        | '-' :: '-' :: long => longOpening long
        | '-' :: short => shortOpening short
        | _ => .misused
      match opening, rest with
      | .option name (some value), rest =>
        ofCommand (c.setOption name value) fun c => readArguments c rest
      | .option name none, value :: rest =>
        if looksLikeOption value then misused
        else ofCommand (c.setOption name value) fun c => readArguments c rest
      | .option _ none, [] => misused
      | .init, rest => if c.init then misused else readArguments { c with init := true } rest
      | .version, _ => version
      | .help, _ => help
      | .misused, _ => misused

def ofArguments (arguments : List Text) : Invocation := readArguments {} arguments

end Invocation
end RequireInjection
