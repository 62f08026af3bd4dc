import RequireInjection.FilterSet

namespace RequireInjection

inductive CallPattern where
  | anyArgument (excluded : List Text)
  /-- One of the paths between quotes; of several that fit the first counts. -/
  | quotedPath (paths : List Text)
  deriving DecidableEq, Repr

inductive Piece where
  | plain (c : Char)
  | call (argument : Text)
  deriving DecidableEq, Repr

namespace Piece

def opening : Text := "require("

def text : Piece → Text
  | plain c => [c]
  | call a => opening ++ a ++ [')']

end Piece

def isQuote (c : Char) : Bool := c = '\'' || c = '"'

namespace CallPattern

def ofFilters (filters : FilterSet) : CallPattern :=
  match filters.mode with
  | .all => anyArgument []
  | .allExcept => anyArgument filters.paths
  | .only => quotedPath filters.paths

def anyArgument? (t : Text) : Option Text :=
  let argument := t.takeWhile (· ≠ ')')
  if argument = [] || argument.length = t.length then none else some argument

def quoted? (t path : Text) : Option Text :=
  match t with
  | [] => none
  | q :: rest =>
    if isQuote q then
      match Text.stripPrefix? path rest with
      | some (q' :: ')' :: _) => if isQuote q' then some (q :: path ++ [q']) else none
      | _ => none
    else none

def isExcluded (excluded : List Text) (argument : Text) : Bool :=
  match argument with
  | [] => false
  | q :: rest => isQuote q && excluded.any fun path => Text.startsWith rest path

def argumentAt? (p : CallPattern) (t : Text) : Option Text :=
  match Text.stripPrefix? Piece.opening t with
  | none => none
  | some inner =>
    match p with
    | anyArgument excluded => (anyArgument? inner).filter fun a => !isExcluded excluded a
    | quotedPath paths => paths.findSome? (quoted? inner)

/-- The pieces of a text after the given number of characters, which belong to a call already
found. -/
def scan (p : CallPattern) : Nat → Text → List Piece
  | _, [] => []
  | n + 1, _ :: cs => scan p n cs
  | 0, c :: cs =>
    match p.argumentAt? (c :: cs) with
    | some a => .call a :: scan p ((Piece.call a).text.length - 1) cs
    | none => .plain c :: scan p 0 cs

def pieces (p : CallPattern) (t : Text) : List Piece := p.scan 0 t

structure Match where
  start : Nat
  argument : Text
  deriving DecidableEq, Repr

def Match.text (m : Match) : Text := (Piece.call m.argument).text

def Match.stop (m : Match) : Nat := m.start + m.text.size

def matchesFrom (offset : Nat) : List Piece → List Match
  | [] => []
  | .plain c :: ps => matchesFrom (offset + c.utf8Size) ps
  | .call a :: ps => ⟨offset, a⟩ :: matchesFrom (offset + (Piece.call a).text.size) ps

def calls (p : CallPattern) (t : Text) : List Match := matchesFrom 0 (p.pieces t)

def isMeta (c : Char) : Bool := "\\.+*?()|[]\x7b\x7d^$#&-~".toList.contains c

def escaped (t : Text) : Text := t.flatMap fun c => if isMeta c then ['\\', c] else [c]

/-- The pattern as a regular expression, which says nothing of excluded paths. -/
def regex (p : CallPattern) : Text :=
  let capture : Text := match p with
    | anyArgument _ => "([^)]+)"
    | quotedPath paths =>
      ("(['\"](?:" : Text) ++ Text.join ['|'] (paths.map escaped) ++ (")['\"])" : Text)
  ("require\\(" : Text) ++ capture ++ ("\\)" : Text)

end CallPattern
end RequireInjection
