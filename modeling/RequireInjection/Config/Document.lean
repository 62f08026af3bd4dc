import RequireInjection.Config
import RequireInjection.Yaml.Value

namespace RequireInjection.Config

open Yaml

def depthLimit : Nat := 128

structure Draft where
  filters : Option FilterSet := none
  extensions : Option (List Text) := none
  outDir : Option (Option Text) := none

def Draft.config (d : Draft) : Config where
  filters := d.filters.getD FilterSet.empty
  extensions := d.extensions.getD moduleExtensions
  outDir := d.outDir.getD none

def readFilters (root : Node) (path : Path) (n : Node) : Read FilterSet := do
  match ← Node.followed root n with
  | .mapping _ _ _ entries =>
    entries.foldlM (fun (s : FilterSet) (k, v) => do
      let key ← Node.readText root path "a string" k
      return s.insert key (← Node.readJson root (depthLimit - 2) (path ++ [k.step]) v))
      FilterSet.empty
  | n => if n.isNothing then return FilterSet.empty else throw (n.misfit path "a map")

def readExtensions (root : Node) (path : Path) (n : Node) : Read (List Text) := do
  match ← Node.followed root n with
  | .sequence _ _ _ items =>
    items.zipIdx.mapM fun (n, i) => Node.readText root (path ++ [.item i]) "a string" n
  | n => if n.isNothing then return [] else throw (n.misfit path "a sequence")

/-- A text, or nothing for a plain scalar that stands for null. A tag for null admits no other
scalar; the fault is then one of the mapping around it. -/
def readOutDir (root : Node) (outer : Place) (path : Path) (n : Node) : Read (Option Text) := do
  match ← Node.followed root n with
  | .scalar _ _ none value true =>
    return if value.isEmpty || Scalar.isNullWord value then none else some value
  | .scalar _ _ (some tag) value true =>
    if tag = Scalar.nullTag then
      if Scalar.isNullWord value then return none else throw (.wrongValue outer value "null")
    else return some value
  | .scalar _ _ _ value false => return some value
  | n => throw (n.misfit path "a string")

def readEntry (root : Node) (outer : Place) (d : Draft) (entry : Node × Node) : Read Draft := do
  let (k, v) := entry
  let key ← Node.readText root [] "field identifier" k
  let path : Path := [k.step]
  if key = "filters".toList then
    if d.filters.isSome then throw (.repeated outer "filters")
    return { d with filters := some (← readFilters root path v) }
  else if key = "extensions".toList then
    if d.extensions.isSome then throw (.repeated outer "extensions")
    return { d with extensions := some (← readExtensions root path v) }
  else if key = "outDir".toList then
    if d.outDir.isSome then throw (.repeated outer "outDir")
    return { d with outDir := some (← readOutDir root outer path v) }
  else return d

def readRoot (root : Node) : Read Config := do
  match ← Node.followed root root with
  | .mapping m _ _ entries =>
    return (← entries.foldlM (readEntry root ⟨[], m⟩) {}).config
  | n => if n.isNothing then return default else throw (n.misfit [] "struct InjectConfig")

/-- The configuration that a document gives. A value of the wrong kind is the fault even if the text
breaks a rule further on. -/
def ofYaml (t : Text) : Except Fault Config := do
  let document := Document.ofText t
  let config ← match document.root with
    | none => .ok default
    | some root => (readRoot root).run' 0
  if document.sound then return config else throw .unsound

def defaultYaml : Text :=
  Text.join ['\n'] (["filters: \x7b\x7d", "extensions:"].map String.toList ++
    moduleExtensions.map (("- " : Text) ++ ·) ++ ["outDir: null", ""].map String.toList)

end RequireInjection.Config
