import RequireInjection.Yaml.Node
import RequireInjection.Yaml.CoreSchema
import RequireInjection.Json.Value
import RequireInjection.Text.Quoted
import RequireInjection.Decimal.Positional

namespace RequireInjection.Yaml

inductive Step where
  | member (key : Text)
  | item (index : Nat)
  | unnamed
  deriving DecidableEq, Repr

abbrev Path := List Step

def Path.text (p : Path) : Text :=
  p.foldl (fun t step =>
    let dotted := if t.isEmpty then t else t ++ ['.']
    match step with
    | .member key => dotted ++ key
    | .item i => t ++ ['['] ++ Text.ofNat i ++ [']']
    | .unnamed => dotted ++ ['?']) []

structure Place where
  path : Path
  mark : Mark
  deriving Repr

inductive Found where
  | sequence | mapping
  /-- A node with a tag of the application. -/
  | tagged
  | scalar (s : Scalar)

def between (t : Text) : Text := '`' :: (t ++ ['`'])

def Found.text : Found → Text
  | sequence => "sequence"
  | mapping => "map"
  | tagged => "enum"
  | scalar .null => "unit value"
  | scalar (.bool b) => ("boolean " : Text) ++ between (if b then "true" else "false")
  | scalar (.int n) =>
    ("integer " : Text) ++ between (Text.ofInt n) ++
      (if (Nat.pow 2 64 : Int) ≤ n then " as u128"
      else if n < -(Nat.pow 2 63 : Int) then " as i128" else "" : Text)
  | scalar (.double x) => ("floating point " : Text) ++ between (Decimal.positional x)
  | scalar (.text t) => ("string " : Text) ++ Text.quotation t

inductive Fault where
  | unsound
  | tooDeep
  | tooManyAliases
  | tooLarge
  | wrongType (place : Place) (found : Found) (wanted : String)
  | wrongValue (place : Place) (value : Text) (wanted : String)
  | repeated (place : Place) (field : String)

/-- A complaint with its place. The start of the text is not worth naming, nor is the root. -/
def Place.locate (p : Place) (complaint : Text) : Text :=
  (if p.path.isEmpty then complaint else p.path.text ++ (": " : Text) ++ complaint) ++
    (if p.mark.line = 0 && p.mark.column = 0 then []
    else (" at line " : Text) ++ Text.ofNat (p.mark.line + 1) ++ (" column " : Text) ++
      Text.ofNat (p.mark.column + 1))

/-- Complaints about kinds and fields have texts; those about the form of the text have none. -/
def Fault.message? : Fault → Option Text
  | unsound | tooDeep | tooManyAliases | tooLarge => none
  | wrongType p found wanted =>
    some (p.locate (("invalid type: " : Text) ++ found.text ++ (", expected " : Text) ++
      wanted.toList))
  | wrongValue p value wanted =>
    some (p.locate (("invalid value: string " : Text) ++ Text.quotation value ++
      (", expected " : Text) ++ wanted.toList))
  | repeated p field => some (p.locate (("duplicate field " : Text) ++ between field.toList))

abbrev Read (α : Type) := StateT Nat (Except Fault) α

namespace Node

/-- Plain and without a character: it may stand for an empty collection. -/
def isNothing : Node → Bool
  | scalar _ _ _ [] true => true
  | _ => false

/-- The node meant by a node. In all a hundred aliases may be followed for each part of the
document. -/
def followed (root : Node) (n : Node) : Read Node :=
  match n with
  | missing => throw .unsound
  | aliasTo _ k => do
    let count ← get
    set (count + 1)
    if 100 * root.extent < count + 1 then throw .tooManyAliases
    match root.target? k with
    | some n => return n
    | none => throw .unsound
  | n => return n

def misfit (n : Node) (path : Path) (wanted : String) : Fault :=
  match n with
  | missing | aliasTo _ _ => .unsound
  | sequence m _ _ _ => .wrongType ⟨path, m⟩ .sequence wanted
  | mapping m _ _ _ => .wrongType ⟨path, m⟩ .mapping wanted
  | scalar m _ tag value plain =>
    match Scalar.resolve tag value plain with
    | .ok s => .wrongType ⟨path, m⟩ (.scalar s) wanted
    | .error e => .wrongValue ⟨path, m⟩ e.value e.kind

def readText (root : Node) (path : Path) (wanted : String) (n : Node) : Read Text := do
  match ← followed root n with
  | scalar _ _ _ value _ => return value
  | n => throw (n.misfit path wanted)

def step : Node → Step
  | scalar _ _ _ value _ => .member value
  | _ => .unnamed

def hasOwnTag : Node → Bool
  | scalar _ _ (some ('!' :: _)) _ _ | sequence _ _ (some ('!' :: _)) _
  | mapping _ _ (some ('!' :: _)) _ => true
  | _ => false

def jsonOfScalar : Scalar → Read Json
  | .null => return .null
  | .bool b => return .bool b
  | .int n =>
    if -(Nat.pow 2 63 : Int) ≤ n ∧ n < (Nat.pow 2 64 : Int) then return .int n else throw .tooLarge
  | .double x => return if x.isFinite then .double x else .null
  | .text t => return .string t

def anyJson : String := "any valid JSON value"

def readJson (root : Node) : Nat → Path → Node → Read Json
  | depth, path, n => do
    let n ← followed root n
    if n.hasOwnTag then throw (.wrongType ⟨path, n.start⟩ .tagged anyJson)
    match n, depth with
    | scalar m _ tag value plain, _ =>
      match Scalar.resolve tag value plain with
      | .ok s => jsonOfScalar s
      | .error e => throw (.wrongValue ⟨path, m⟩ e.value e.kind)
    | sequence _ _ _ _, 0 | mapping _ _ _ _, 0 => throw .tooDeep
    | sequence _ _ _ items, depth + 1 =>
      return .array (← items.zipIdx.mapM fun (n, i) => readJson root depth (path ++ [.item i]) n)
    | mapping _ _ _ entries, depth + 1 =>
      let members ← entries.foldlM (fun (ms : Entries Text Json) (k, v) => do
        let key ← readText root path (if ms.isEmpty then "a string key" else "a string") k
        return ms.put key (← readJson root depth (path ++ [k.step]) v)) []
      return .object members
    | _, _ => throw .unsound

end Node
end RequireInjection.Yaml
