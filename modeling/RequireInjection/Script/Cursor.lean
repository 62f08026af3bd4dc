import RequireInjection.Script.Tree

namespace RequireInjection.Script

structure Cursor where
  focus : Placed
  following : List Tree
  ancestors : List (Placed × List Tree)

namespace Cursor

def ofTree (t : Tree) : Cursor := ⟨⟨0, t⟩, [], []⟩

def firstChild? (c : Cursor) : Option Cursor :=
  match c.focus.tree.children with
  | [] => none
  | t :: ts => some ⟨⟨c.focus.start, t⟩, ts, (c.focus, c.following) :: c.ancestors⟩

def nextSibling? (c : Cursor) : Option Cursor :=
  match c.following with
  | [] => none
  | t :: ts => some ⟨⟨c.focus.stop, t⟩, ts, c.ancestors⟩

def parent? (c : Cursor) : Option Cursor :=
  match c.ancestors with
  | [] => none
  | (p, following) :: rest => some ⟨p, following, rest⟩

/-- Goes up at most the given number of times until there is a next sibling. -/
def leave? : Nat → Cursor → Option Cursor
  | 0, c => c.nextSibling?
  | n + 1, c =>
    match c.nextSibling? with
    | some next => some next
    | none => match c.parent? with
      | some up => leave? n up
      | none => none

def next? (c : Cursor) : Option Cursor :=
  match c.firstChild? with
  | some child => some child
  | none => leave? c.ancestors.length c

def walk : Nat → Cursor → List Placed
  | 0, _ => []
  | n + 1, c =>
    c.focus :: match c.next? with
      | some next => walk n next
      | none => []

end Cursor

mutual
def Tree.count : Tree → Nat
  | .leaf _ _ => 1
  | .node _ cs => Tree.countAll cs + 1
def Tree.countAll : List Tree → Nat
  | [] => 0
  | t :: ts => t.count + Tree.countAll ts
end

def Tree.walk (t : Tree) : List Placed := (Cursor.ofTree t).walk t.count

end RequireInjection.Script
