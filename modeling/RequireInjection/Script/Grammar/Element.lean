import RequireInjection.Script.Grammar.Expression

namespace RequireInjection.Script.Grammar

open Reader

variable {source : Text}

def tagName (go : Go source) : Reader source Unit := do
  let m ← mark
  take .identifier (jsxName (← ahead)) true
  if ← seesText ":" then
    opening ":"
    take .identifier (jsxName (← ahead)) true
  else go (.elementNames m)

def bracedExpression (go : Go source) : Reader source Unit := do
  let m ← mark
  opening "\x7b"
  if ← seesText "..." then
    let inner ← mark
    opening "..."
    bracketed (go .expression)
    gather inner .spreadElement
  else unless ← seesText "\x7d" do bracketed (go .expressions)
  closing "\x7d"
  gather m .jsxExpression

def tagAttribute (go : Go source) : Reader source Unit := do
  if ← seesText "\x7b" then bracedExpression go
  else
    let m ← mark
    take .propertyName (jsxName (← ahead)) true
    if ← seesText ":" then
      opening ":"
      take .propertyName (jsxName (← ahead)) true
    if ← seesText "=" then
      opening "="
      let t ← ahead
      if t.head? == some '{' then bracedExpression go
      else if t.head? == some '<' then go .element
      else take .string (jsxString t) true
    gather m .jsxAttribute

def attributes (go : Go source) : Reader source Unit := do
  let next := (← ahead).head?
  unless next == some '>' || next == some '/' do
    tagAttribute go
    go .attributes

def children (go : Go source) : Reader source Unit := do
  let t := (← get).unread
  let (shown, n) := jsxChars false false t
  if shown then
    shift .jsxText n
    go .children
  else
    modify fun s => { s with afterOperator := true }
    let t ← ahead
    if Text.startsWith t "</" then
      let m ← mark
      opening "</"
      unless ← seesText ">" do tagName go
      closing ">"
      gather m .jsxTag
    else if t.head? == some '<' then
      go .element
      go .children
    else if t.head? == some '{' then
      bracedExpression go
      go .children
    else
      take .jsxText (characterReference t) false
      go .children

def element (go : Go source) : Reader source Unit := do
  let m ← mark
  opening "<"
  if ← seesText ">" then
    opening ">"
    gather m .jsxTag
    go .children
  else
    tagName go
    go .attributes
    if ← seesText "/>" then closing "/>"
    else
      opening ">"
      gather m .jsxTag
      go .children
  gather m .jsxElement

end RequireInjection.Script.Grammar
