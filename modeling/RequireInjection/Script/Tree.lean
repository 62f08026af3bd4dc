import RequireInjection.Text

/-!
Syntax trees that keep every character: the leaves of a tree, read from left to right, spell the
text it stands for, blanks and comments included. The place of a node is therefore computed from
what stands before it and is never stored.
-/
namespace RequireInjection.Script

inductive Kind where
  -- what may stand between any two tokens
  | blank | comment
  -- leaves
  | punctuation | identifier | undefinedName | thisName | superName | importName
  | trueLiteral | falseLiteral | nullLiteral | number | string | regex
  | propertyName | privateName | templateText | jsxText | hashBang | label
  -- expressions
  | parenthesizedExpression | sequenceExpression | arrayLiteral | objectLiteral
  | pair | shorthand | shorthandDefault | spreadElement | computedName | methodDefinition
  | functionExpression | arrowFunction | formalParameters | classExpression | classBody
  | classHeritage | fieldDefinition | staticBlock | decorator | templateString
  | templateSubstitution | callExpression | arguments | memberExpression | subscriptExpression
  | newExpression | metaProperty | unaryExpression | updateExpression | awaitExpression
  | yieldExpression | binaryExpression | ternaryExpression | assignmentExpression
  | augmentedAssignment | jsxElement | jsxTag | jsxAttribute | jsxExpression
  -- statements
  | program | statementBlock | emptyStatement | expressionStatement | variableDeclaration
  | lexicalDeclaration | variableDeclarator | functionDeclaration | classDeclaration
  | ifStatement | elseClause | switchStatement | switchBody | switchCase | forStatement
  | forInStatement | whileStatement | doStatement | tryStatement | catchClause | finallyClause
  | withStatement | breakStatement | continueStatement | debuggerStatement | returnStatement
  | throwStatement | labeledStatement | importStatement | exportStatement
  deriving DecidableEq, Repr

def Kind.isTrivia : Kind → Bool
  | .blank | .comment => true
  | _ => false

def Kind.isNamed : Kind → Bool
  | .blank | .comment | .punctuation => false
  | _ => true

inductive Tree where
  | leaf (kind : Kind) (text : Text)
  | node (kind : Kind) (children : List Tree)
  deriving Repr

namespace Tree

def kind : Tree → Kind
  | leaf k _ => k
  | node k _ => k

def children : Tree → List Tree
  | leaf _ _ => []
  | node _ cs => cs

def isTrivia (t : Tree) : Bool := t.kind.isTrivia

mutual
def text : Tree → Text
  | leaf _ t => t
  | node _ cs => textOfAll cs
def textOfAll : List Tree → Text
  | [] => []
  | t :: ts => t.text ++ textOfAll ts
end

@[simp] theorem text_leaf (k : Kind) (t : Text) : (leaf k t).text = t := by simp [text]

@[simp] theorem text_node (k : Kind) (cs : List Tree) : (node k cs).text = textOfAll cs := by
  simp [text]

@[simp] theorem textOfAll_nil : textOfAll [] = [] := by simp [textOfAll]

@[simp] theorem textOfAll_cons (t : Tree) (ts : List Tree) :
    textOfAll (t :: ts) = t.text ++ textOfAll ts := by simp [textOfAll]

@[simp] theorem textOfAll_append (ts us : List Tree) :
    textOfAll (ts ++ us) = textOfAll ts ++ textOfAll us := by
  induction ts with
  | nil => simp
  | cons t ts ih => simp [ih]

def size (t : Tree) : Nat := t.text.size

mutual
/-- No leaf is empty, no inner node is without children, and a name is always a leaf. -/
def Solid : Tree → Prop
  | leaf _ t => t ≠ []
  | node k cs => (k ≠ .identifier ∧ cs ≠ []) ∧ AllSolid cs
def AllSolid : List Tree → Prop
  | [] => True
  | t :: ts => t.Solid ∧ AllSolid ts
end

@[simp] theorem solid_leaf (k : Kind) (t : Text) : (leaf k t).Solid ↔ t ≠ [] := by simp [Solid]

@[simp] theorem solid_node (k : Kind) (cs : List Tree) :
    (node k cs).Solid ↔ (k ≠ .identifier ∧ cs ≠ []) ∧ AllSolid cs := by simp [Solid]

@[simp] theorem allSolid_nil : AllSolid [] := by simp [AllSolid]

@[simp] theorem allSolid_cons (t : Tree) (ts : List Tree) :
    AllSolid (t :: ts) ↔ t.Solid ∧ AllSolid ts := by simp [AllSolid]

theorem allSolid_iff (ts : List Tree) : AllSolid ts ↔ ∀ t ∈ ts, t.Solid := by
  induction ts with
  | nil => simp
  | cons t ts ih => simp [ih]

theorem Solid.text_ne_nil {t : Tree} (h : t.Solid) : t.text ≠ [] := by
  match t, h with
  | leaf k s, h => simpa using h
  | node k [], h => simp at h
  | node k (c :: cs), h =>
    have hc : c.Solid := (allSolid_cons c cs).1 ((solid_node k _).1 h).2 |>.1
    have := Solid.text_ne_nil hc
    simp [this]

mutual
/-- No inner node begins with a blank or a comment. -/
def Trim : Tree → Prop
  | leaf _ _ => True
  | node _ cs => (∀ c ∈ cs.head?, c.isTrivia = false) ∧ AllTrim cs
def AllTrim : List Tree → Prop
  | [] => True
  | t :: ts => t.Trim ∧ AllTrim ts
end

@[simp] theorem trim_leaf (k : Kind) (t : Text) : (leaf k t).Trim := by simp [Trim]

@[simp] theorem trim_node (k : Kind) (cs : List Tree) :
    (node k cs).Trim ↔ (∀ c ∈ cs.head?, c.isTrivia = false) ∧ AllTrim cs := by simp [Trim]

@[simp] theorem allTrim_nil : AllTrim [] := by simp [AllTrim]

@[simp] theorem allTrim_cons (t : Tree) (ts : List Tree) :
    AllTrim (t :: ts) ↔ t.Trim ∧ AllTrim ts := by simp [AllTrim]

theorem allTrim_iff (ts : List Tree) : AllTrim ts ↔ ∀ t ∈ ts, t.Trim := by
  induction ts with
  | nil => simp
  | cons t ts ih => simp [ih]

def firstChild? (t : Tree) : Option Tree := t.children.find? fun c => !c.isTrivia

def lastChild? (t : Tree) : Option Tree := t.children.reverse.find? fun c => !c.isTrivia

def firstNamed? (t : Tree) : Option Tree := t.children.find? fun c => c.kind.isNamed

def callee? : Tree → Option Tree
  | node .callExpression (c :: _) => some c
  | _ => none

/-- The bracketed arguments of a call; a template called as a tag has none. -/
def callArguments? (t : Tree) : Option Tree :=
  match t.kind, t.lastChild? with
  | .callExpression, some args => if args.kind = .arguments then some args else none
  | _, _ => none

def firstArgument? (t : Tree) : Option Tree := t.callArguments?.bind firstNamed?

end Tree

structure Placed where
  start : Nat
  tree : Tree
  deriving Repr

namespace Placed

def stop (p : Placed) : Nat := p.start + p.tree.size

def text (p : Placed) : Text := p.tree.text

end Placed

mutual
def Tree.preorder (start : Nat) : Tree → List Placed
  | .leaf k t => [⟨start, .leaf k t⟩]
  | .node k cs => ⟨start, .node k cs⟩ :: Tree.preorderOfAll start cs
def Tree.preorderOfAll (start : Nat) : List Tree → List Placed
  | [] => []
  | t :: ts => t.preorder start ++ Tree.preorderOfAll (start + t.size) ts
end

/-- The syntax tree of a text: it spells the text, and nothing in it is empty except the whole. -/
structure SyntaxTree (source : Text) where
  items : List Tree
  text_eq : Tree.textOfAll items = source
  solid : Tree.AllSolid items

def SyntaxTree.root {source : Text} (t : SyntaxTree source) : Tree := .node .program t.items

theorem SyntaxTree.text_root {source : Text} (t : SyntaxTree source) : t.root.text = source := by
  simp [SyntaxTree.root, t.text_eq]

end RequireInjection.Script
