import RequireInjection.Script.Reader
import RequireInjection.Script.Pattern

/-!
What a rule of the grammar may ask to be read next. Rules are not recursive: they take a way to read
the goals below them, which is supplied when the grammar is closed.
-/
namespace RequireInjection.Script.Grammar

inductive Goal where
  | statements (inSwitch : Bool)
  | statement
  | block
  | declarators
  | switchCases
  | expressions
  | expression
  | moreExpressions
  | operand
  | primary
  | binaryTail (mark level : Nat)
  | chain (mark : Nat) (onlyMembers : Bool)
  | newExpression
  | items
  | members
  | classMembers
  | decorators
  | templateParts
  | elementNames (mark : Nat)
  | element
  | attributes
  | children
  deriving Repr

abbrev Go (source : Text) := Goal → Reader source Unit

variable {source : Text}

open Reader

def condition (go : Go source) : Reader source Unit := do
  let m ← mark
  opening "("
  bracketed (go .expressions)
  opening ")"
  gather m .parenthesizedExpression

def parameters (go : Go source) : Reader source Unit := do
  let m ← mark
  opening "("
  let inner ← mark
  bracketed (go .items)
  unless Tree.areParameters (← since inner) do fail
  closing ")"
  gather m .formalParameters

def arguments (go : Go source) : Reader source Unit := do
  let m ← mark
  opening "("
  bracketed (go .items)
  closing ")"
  gather m .arguments

def beginsName (t : Text) : Bool :=
  word t != 0 || string t != 0 || number t != 0 || privateName t != 0 || t.head? == some '['

def memberName (go : Go source) : Reader source Unit := do
  let t ← ahead
  if t.head? == some '[' then
    let m ← mark
    opening "["
    bracketed (go .expression)
    closing "]"
    gather m .computedName
  else if word t != 0 then take .propertyName (word t) true
  else if string t != 0 then take .string (string t) true
  else if number t != 0 then take .number (number t) true
  else take .privateName (privateName t) true

/-- Length of `static get` with the line break after it, which are one token in a class. -/
def staticGetterLine (t : Text) : Nat :=
  if wordText t != "static" then 0
  else
    let rest := (t.drop 6).dropWhile isAsciiBlank
    let line := (rest.drop 3).takeWhile isAsciiBlank
    if rest.length + 6 < t.length && Text.startsWith rest "get" && line.contains '\n' then
      t.length - rest.length + 3 + (line.reverse.dropWhile (· != '\n')).length
    else 0

/-- Reads the words that may stand before the name of a method, and says whether one of them asks
for a method. In a class such a word is a field by itself where a statement may end after it. -/
def modifiers (inClass : Bool) : Reader source Bool := do
  let follows (w : Text) (starToo : Bool) : Reader source Bool := do
    let t ← ahead
    if wordText t != w then return false
    let after := t.drop w.length
    if inClass && endsHere false after then return false
    let rest := skipTrivia false after
    return beginsName rest || (starToo && rest.head? == some '*')
  let t ← ahead
  let line := if inClass then staticGetterLine t else 0
  if line != 0 then take .punctuation line false
  else if ← follows "static" true then discard <| acceptWord "static"
  let isAsync ← follows "async" true
  if isAsync then discard <| acceptWord "async"
  if ← follows "get" false then acceptWord "get"
  else if ← follows "set" false then acceptWord "set"
  else if ← accept "*" then return true
  else return isAsync

def functionRest (go : Go source) : Reader source Unit := do
  parameters go
  go .block

end RequireInjection.Script.Grammar
