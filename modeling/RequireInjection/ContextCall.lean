import RequireInjection.Edit
import RequireInjection.Wrapping
import RequireInjection.Script.Parse
import RequireInjection.Script.Cursor

/-!
Calls through context loaders. A name that is declared with the value of `require.context(base, …)`
loads modules below its base path, so a call of that name is replaced by a look-up of base path and
argument joined by `+`. Calls inside the argument of such a call are left alone.
-/
namespace RequireInjection

open Script

structure ContextLoader where
  name : Text
  base : Text
  start : Nat
  stop : Nat
  deriving DecidableEq, Repr

structure ContextCall where
  start : Nat
  stop : Nat
  base : Text
  name : Text
  call : Text
  deriving DecidableEq, Repr

namespace ContextCall

def replacement (c : ContextCall) : Text :=
  lookup (c.base ++ (" + " : Text) ++ c.name) c.call

def edit (c : ContextCall) : Edit := ⟨c.start, c.stop, c.replacement⟩

end ContextCall

def loadsContext (call : Tree) : Bool :=
  match call.callee? with
  | some callee =>
    callee.kind = .memberExpression &&
      match callee.firstChild?, callee.lastChild? with
      | some object, some property =>
        object.kind = .identifier && object.text = "require".toList &&
          property.text = "context".toList
      | _, _ => false
  | none => false

def declaredValue? (declarator : Tree) : Option Tree :=
  if declarator.children.any fun c => c.kind = .punctuation then declarator.lastChild? else none

def ContextLoader.ofNode? (p : Placed) : Option ContextLoader := do
  guard (p.tree.kind = .variableDeclarator)
  let name ← p.tree.firstChild?
  guard (name.kind = .identifier)
  let value ← declaredValue? p.tree
  guard (loadsContext value)
  let base ← value.firstArgument?
  return ⟨name.text, base.text, p.start, p.stop⟩

def contextLoaders (root : Tree) : List ContextLoader :=
  root.walk.filterMap ContextLoader.ofNode?

def ContextCall.ofNode? (b : ContextLoader) (p : Placed) : Option ContextCall := do
  let callee ← p.tree.callee?
  guard (callee.kind = .identifier && callee.text = b.name)
  let argument ← p.tree.firstArgument?
  return ⟨p.start, p.stop, b.base, argument.text, p.tree.text⟩

def contextCalls (root : Tree) (b : ContextLoader) : List ContextCall :=
  root.walk.filterMap (ContextCall.ofNode? b)

/-- The calls of all declared names by their start; calls that start together stay in the order of
their declarations. -/
def allContextCalls (root : Tree) : List ContextCall :=
  ((contextLoaders root).flatMap (contextCalls root)).mergeSort fun a b => a.start ≤ b.start

/-- The calls that start where all calls kept before them have ended. -/
def outermost (covered : Nat) : List ContextCall → List ContextCall
  | [] => []
  | c :: cs =>
    if c.start < covered then outermost covered cs else c :: outermost c.stop cs

inductive TransformFault where
  | parse (line column : Nat)
  | edit (fault : EditFault)
  deriving DecidableEq, Repr

def TransformFault.message : TransformFault → Text
  | .parse line column =>
    ("Parse error at line " : Text) ++ Text.ofNat line ++ (", column " : Text) ++ Text.ofNat column
  | .edit fault => ("Source replacement failed: " : Text) ++ fault.message

def parseScript (source : Text) : Except TransformFault (SyntaxTree source) :=
  (Script.parse source).mapError fun f =>
    let (line, column) := source.place f.offset
    .parse line (column + 1)

def resolveContextCalls (source : Text) : Except TransformFault Text := do
  let tree ← parseScript source
  let edits := (outermost 0 (allContextCalls tree.root)).map ContextCall.edit
  let cursor ← ((EditCursor.start source).replaceAll edits).mapError TransformFault.edit
  return cursor.text

end RequireInjection
