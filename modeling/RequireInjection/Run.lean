import RequireInjection.CommandLine
import RequireInjection.Config.Load
import RequireInjection.Injection.Records

/-!
Runs of the program. A run loads its configuration, collects the modules that its paths name, and
writes the injectable form of each below the output directory, or of a single one to the output. A
module that fails does not keep the others from being written.
-/
namespace RequireInjection

/-- What failed, and why: the nearest cause first. -/
structure Failure where
  context : Text
  causes : List Text
  deriving DecidableEq, Repr

namespace Failure

def causeText (number : Option Nat) (cause : Text) : Text :=
  let lead : Text := match number with
    | some n => List.replicate (5 - (Text.ofNat n).length) ' ' ++ Text.ofNat n ++ [':', ' ']
    | none => List.replicate 4 ' '
  let indent : Text := '\n' :: List.replicate (if number.isSome then 7 else 4) ' '
  lead ++ Text.join indent (Text.splitBy (· = '\n') cause)

def report (f : Failure) : Text :=
  let causes := match f.causes with
    | [cause] => [causeText none cause]
    | causes => causes.zipIdx.map fun (cause, n) => causeText (some n) cause
  ("Error: " : Text) ++ f.context ++
    (if causes.isEmpty then [] else ("\n\nCaused by:" : Text) ++ causes.flatMap ('\n' :: ·))

def line (f : Failure) : Text := Text.join [':', ' '] (f.context :: f.causes)

end Failure

inductive Report where
  | record (r : LogRecord)
  | text (t : Text)
  deriving Repr

structure Outcome where
  code : Nat
  output : Text := []
  reports : List Report := []
  deriving Repr

structure ModuleFile where
  path : Text
  relative : Location
  deriving DecidableEq, Repr

namespace Run

def logTarget : String := "inject_loader"

def say (level : LogLevel) (message : Text) : Report := .record ⟨level, logTarget, message⟩

def versionText : Text := "inject-loader 0.1.0\n"

def usageText : Text :=
  Text.join ['\n'] (["Make a module's require() calls overridable at runtime", "",
    "Usage: inject-loader [OPTIONS] [FILE]...", "", "Arguments:",
    "  [FILE]...  Input files or directories to rewrite", "", "Options:",
    "  -q, --query <QUERY>   Loader query selecting the dependencies to wrap " ++
      "(e.g. \"?./dep&./other\")",
    "  -p, --project <FILE>  Path to injectconfig.yaml configuration file",
    "      --out-dir <DIR>   Output directory for rewritten modules",
    "      --init            Write a default injectconfig.yaml in the current directory",
    "  -h, --help            Print help", "  -V, --version         Print version",
    ""].map String.toList)

variable {m : Type → Type} [Monad m]

/-- The configuration of a run: the file named or the usual one if there is one, with the query and
the output directory of the command in place of its own. -/
def config (host : Host m) (c : Command) : m (Except Failure Config) := do
  let loaded ← match c.project with
    | some path =>
      let loaded ← Config.load host path
      pure (loaded.mapError fun f =>
        (⟨("Failed to load config file " : Text) ++ path, f.messages⟩ : Failure))
    | none =>
      if ← host.has Config.fileName then
        let loaded ← Config.load host Config.fileName
        pure (loaded.mapError fun f => ⟨("Failed to load " : Text) ++ Config.fileName, f.messages⟩)
      else pure (.ok Config.default)
  return do
    let config ← loaded
    let filters ← match c.query with
      | none => .ok none
      | some q =>
        match FilterSet.ofQuery q with
        | .ok filters => .ok (some filters)
        | .error f => .error ⟨"Invalid --query", [("Configuration error: " : Text) ++ f.message]⟩
    return config.merge filters c.outDir

def skippedDirectory : Text := "node_modules"

/-- The modules among the files below a directory: those with a configured extension that do not lie
in a directory of installed packages. -/
def modulesAmong (config : Config) (directory : Text) (files : List Location) : List ModuleFile :=
  let file (l : Location) : ModuleFile := ⟨FilePath.join directory (Text.join ['/'] l), l⟩
  (files.map file).filter fun i =>
    config.matchesExtension i.path && !(FilePath.names i.path).contains skippedDirectory

def inputsAt (host : Host m) (config : Config) (path : Text) :
    m (Except Failure (List ModuleFile)) := do
  if ← host.isDirectory path then
    match ← host.filesBelow path with
    | .ok files => return .ok (modulesAmong config path files)
    | .error f => return .error ⟨("Failed to walk " : Text) ++ path, [f.message]⟩
  else return .ok [⟨path, (FilePath.fileName? path).toList⟩]

def inputs (host : Host m) (config : Config) : List Text → m (Except Failure (List ModuleFile))
  | [] => return .ok []
  | path :: rest => do
    match ← inputsAt host config path with
    | .error f => return .error f
    | .ok first => return (← inputs host config rest).map (first ++ ·)

def transformFile (host : Host m) (filters : FilterSet) (path : Text) :
    m (Except Failure Text × List Report) := do
  match ← host.readText path with
  | .error f => return (.error ⟨("Failed to read " : Text) ++ path, [f.message]⟩, [])
  | .ok source =>
    let result := (transform filters source).mapError fun f =>
      (⟨("Failed to rewrite " : Text) ++ path, [f.message]⟩ : Failure)
    return (result, (transformRecords filters source).map Report.record)

def outputPath (outDir : Text) (i : ModuleFile) : Text :=
  FilePath.join outDir (Text.join ['/'] i.relative)

def store (host : Host m) (path content : Text) : m (Except Failure Unit) := do
  let made ← match FilePath.parent? path with
    | none => pure (.ok ())
    | some parent =>
      let made ← host.makeDirectories parent
      pure (made.mapError fun f =>
        (⟨("Failed to create " : Text) ++ parent, [f.message]⟩ : Failure))
  match made with
  | .error f => return .error f
  | .ok () =>
    return (← host.write path (Utf8.encode content)).mapError fun f =>
      ⟨("Failed to write " : Text) ++ path, [f.message]⟩

/-- Writes one module's injectable form below the output directory and tells whether it failed. -/
def transformInto (host : Host m) (filters : FilterSet) (outDir : Text) (i : ModuleFile) :
    m (Bool × List Report) := do
  let path := outputPath outDir i
  let (injectable, records) ← transformFile host filters i.path
  let stored ← match injectable with
    | .error f => pure (.error f)
    | .ok content => store host path content
  match stored with
  | .ok () => return (false, records ++ [say .debug (i.path ++ (" -> " : Text) ++ path)])
  | .error f => return (true, records ++ [say .error f.line])

def transformAll (host : Host m) (filters : FilterSet) (outDir : Text) (inputs : List ModuleFile) :
    m (Nat × List Report) := do
  let results ← host.each (inputs.map (transformInto host filters outDir))
  return (results.countP Prod.fst, results.flatMap Prod.snd)

def failed (f : Failure) (reports : List Report) : Outcome :=
  { code := 1, reports := reports ++ [.text f.report] }

def noInputs : Text := "Error: No input files specified. Use --help for usage information."

def noOutDir : Text := "Error: --out-dir is required when rewriting more than one file."

/-- The pattern is recorded twice: where it is made and where it is used. -/
def patternReports (filters : FilterSet) : List Report :=
  let p := CallPattern.ofFilters filters
  [.record p.record, say .debug (("Require pattern: " : Text) ++ p.regex)]

def transformInputs (host : Host m) (config : Config) (inputs : List ModuleFile) : m Outcome := do
  let start := patternReports config.filters
  match config.outDir, inputs with
  | some outDir, inputs =>
    let (failures, reports) ← transformAll host config.filters outDir inputs
    let count := Text.ofNat inputs.length
    if failures = 0 then
      let done := ("Rewrote " : Text) ++ count ++ (" file(s) into " : Text) ++ outDir
      return { code := 0, reports := start ++ reports ++ [say .info done] }
    else
      let done := Text.ofNat failures ++ (" of " : Text) ++ count ++ (" file(s) failed" : Text)
      return { code := 1, reports := start ++ reports ++ [say .error done] }
  | none, [i] =>
    match ← transformFile host config.filters i.path with
    | (.ok output, records) => return { code := 0, output, reports := start ++ records }
    | (.error f, records) => return failed f (start ++ records)
  | none, _ => return { code := 1, reports := start ++ [.text noOutDir] }

def command (host : Host m) (c : Command) : m Outcome := do
  if c.init then
    match ← Config.writeDefault host Config.fileName with
    | .ok () =>
      return { code := 0, output := ("Created " : Text) ++ Config.fileName ++ ['\n'] }
    | .error f => return failed ⟨("Failed to write " : Text) ++ Config.fileName, f.messages⟩ []
  else
    match ← config host c with
    | .error f => return failed f []
    | .ok config =>
      match ← inputs host config c.files with
      | .error f => return failed f []
      | .ok [] => return { code := 1, reports := [.text noInputs] }
      | .ok inputs => transformInputs host config inputs

end Run

def run {m : Type → Type} [Monad m] (host : Host m) (arguments : List Text) : m Outcome :=
  match Invocation.ofArguments arguments with
  | .version => return { code := 0, output := Run.versionText }
  | .help => return { code := 0, output := Run.usageText }
  | .misused => return { code := 2, reports := [.text Run.usageText] }
  | .run c => Run.command host c

end RequireInjection
