import RequireInjection.FileTree
import RequireInjection.Utf8

namespace RequireInjection

structure Host (m : Type → Type) where
  has : Text → m Bool
  isDirectory : Text → m Bool
  filesBelow : Text → m (Except FileFault (List Location))
  read : Text → m (Except FileFault (List UInt8))
  makeDirectory : Text → m (Except FileFault Unit)
  write : Text → List UInt8 → m (Except FileFault Unit)
  /-- Does several things, whose actions may come in any order. -/
  each : {α : Type} → List (m α) → m (List α)

namespace FileTree

def update (operation : FileTree → Except FileFault FileTree) :
    StateM FileTree (Except FileFault Unit) := do
  match operation (← get) with
  | .ok t => set t; return .ok ()
  | .error f => return .error f

def host : Host (StateM FileTree) where
  has path := return (← get).has path
  isDirectory path := return (← get).isDirectory path
  filesBelow path := return .ok ((← get).filesBelow path)
  read path := return (← get).read path
  makeDirectory path := update fun t => t.makeDirectory path
  write path content := update fun t => t.write path content
  each jobs := jobs.mapM id

end FileTree

namespace Host

variable {m : Type → Type} [Monad m]

def readText (host : Host m) (path : Text) : m (Except FileFault Text) := do
  match ← host.read path with
  | .error f => return .error f
  | .ok bytes => return (Utf8.decode bytes).mapError fun _ => FileFault.notText

/-- Makes a directory and those above it that are missing, no more than the given number. Another
job may make the directory first. -/
def makeWithParents (host : Host m) : Nat → Text → m (Except FileFault Unit)
  | 0, path => host.makeDirectory path
  | n + 1, path => do
    if path.isEmpty then return .ok ()
    match ← host.makeDirectory path with
    | .ok () => return .ok ()
    | .error .notFound =>
      match FilePath.parent? path with
      | none => return .error .notFound
      | some parent =>
        match ← makeWithParents host n parent with
        | .error f => return .error f
        | .ok () => made (← host.makeDirectory path) path
    | .error f => made (.error f) path
where
  made (result : Except FileFault Unit) (path : Text) : m (Except FileFault Unit) := do
    match result with
    | .ok () => return .ok ()
    | .error f => return if ← host.isDirectory path then .ok () else .error f

def makeDirectories (host : Host m) (path : Text) : m (Except FileFault Unit) :=
  host.makeWithParents (path.length + 1) path

end Host
end RequireInjection
