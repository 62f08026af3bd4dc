import RequireInjection.Run

namespace RequireInjection.CommandLine

/-- The number of a fault, which some operations give with a minus sign. -/
def faultNumber (code : UInt32) : Nat := min code.toNat (Nat.pow 2 32 - code.toNat)

def fileFault (e : IO.Error) : FileFault :=
  match e with
  | .noFileOrDirectory _ _ _ => .notFound
  | .alreadyExists _ _ _ => .occupied
  | .inappropriateType _ code _ =>
    if faultNumber code = 20 then .notDirectory
    else if faultNumber code = 21 then .isDirectory
    else .other (toString e).toList
  | e => .other (toString e).toList

def attempt {α : Type} (action : IO α) : IO (Except FileFault α) := do
  match ← action.toBaseIO with
  | .ok a => return .ok a
  | .error e => return .error (fileFault e)

def entry (directory : Text) (name : String) : IO.FS.DirEntry := ⟨String.ofList directory, name⟩

def typeOf? (path : Text) : IO (Option IO.FS.FileType) := do
  match ← (entry path ".").root.metadata.toBaseIO with
  | .ok data => return some data.type
  | .error _ => return none

partial def filesFrom (directory : Text) : IO (List Location) := do
  let entries ← (entry directory ".").root.readDir
  let names := (entries.toList.map (·.fileName.toList)).mergeSort FileTree.nameLe
  let found ← names.mapM fun name => do
    let data ← (entry directory (String.ofList name)).path.symlinkMetadata
    match data.type with
    | .file => return [[name]]
    | .dir => return (← filesFrom (FilePath.join directory name)).map (name :: ·)
    | _ => return []
  return found.flatten

def host : Host IO where
  has path := return (← typeOf? path).isSome
  isDirectory path := return match ← typeOf? path with
    | some .dir => true
    | _ => false
  filesBelow path := attempt (filesFrom path)
  read path := attempt do return (← IO.FS.readBinFile (String.ofList path)).toList
  makeDirectory path := attempt (IO.FS.createDir (String.ofList path))
  write path content := attempt (IO.FS.writeBinFile (String.ofList path) content.toByteArray)
  each jobs := jobs.mapM id

def print (filter : LogFilter) (outcome : Outcome) : IO Unit := do
  for report in outcome.reports do
    match report with
    | .text t => IO.eprintln (String.ofList t)
    | .record r => if filter.shows r then IO.eprintln (String.ofList r.text)
  IO.print (String.ofList outcome.output)

end RequireInjection.CommandLine

open RequireInjection in
def main (arguments : List String) : IO UInt32 := do
  let filter := LogFilter.ofText (((← IO.getEnv "RUST_LOG").getD "").toList)
  let outcome ← run CommandLine.host (arguments.map String.toList)
  CommandLine.print filter outcome
  return outcome.code.toUInt32
