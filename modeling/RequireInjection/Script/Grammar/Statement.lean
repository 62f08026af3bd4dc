import RequireInjection.Script.Grammar.Expression

namespace RequireInjection.Script.Grammar

open Reader

variable {source : Text}

def statementWords : List Text :=
  ["var", "const", "if", "for", "while", "do", "try", "with", "switch", "return", "throw", "break",
    "continue", "debugger", "import", "export", "function", "class"].map String.toList

def statements (go : Go source) (inSwitch : Bool) : Reader source Unit := do
  let t ← ahead
  let w := wordText t
  let stops := t == [] || t.head? == some '}' ||
    (inSwitch && (w == "case" || w == "default"))
  unless stops do
    go .statement
    go (.statements inSwitch)

def block (go : Go source) : Reader source Unit := do
  let m ← mark
  opening "\x7b"
  Reader.block (go (.statements false))
  closing "\x7d"
  gather m .statementBlock

def binding (go : Go source) : Reader source Unit := do
  let t ← ahead
  if word t != 0 then anyWord .identifier
  else if t.head? == some '[' || t.head? == some '{' then
    go .primary
    unless ((← latest?).map Tree.isPattern).getD false do fail
  else fail

def declarators (go : Go source) : Reader source Unit := do
  let m ← mark
  binding go
  if ← sees "=" then
    opening "="
    go .expression
  gather m .variableDeclarator
  if ← sees "," then
    opening ","
    go .declarators

def declaration (go : Go source) (keyword : Text) (kind : Kind) : Reader source Unit := do
  let m ← mark
  expectWord keyword
  go .declarators
  let valued := ((← latest?).map fun t => decide (1 < t.children.length)).getD false
  semicolon valued
  gather m kind

def declaresWithLet : Reader source Bool := do
  let t ← ahead
  if wordText t != "let" then return false
  let rest := t.drop 3
  if endsHere true rest then return false
  let next := skipTrivia false rest
  let w := wordText next
  return next.head? == some '[' || next.head? == some '{' ||
    (w != [] && w != "in" && w != "instanceof" && w != "of") ||
    (w == "of" && wordText (skipTrivia false (next.drop 2)) == "of")

def expressionStatement (go : Go source) : Reader source Unit := do
  let m ← mark
  go .expressions
  semicolon true
  gather m .expressionStatement

/-- A block, or a statement that begins with an object where a block cannot be read. -/
def braced (go : Go source) : Reader source Unit := do
  let inside := skipTrivia true ((← ahead).drop 1)
  if statementWords.contains (wordText inside) then go .block
  else orElse (go .block) (expressionStatement go)

def ifStatement (go : Go source) : Reader source Unit := do
  let m ← mark
  expectWord "if"
  condition go
  go .statement
  if ← seesWord "else" then
    let e ← mark
    expectWord "else"
    go .statement
    gather e .elseClause
  gather m .ifStatement

def collectionHeader (go : Go source) : Reader source Unit := do
  let w := wordText (← ahead)
  let declares := w == "var" || w == "const" || (← declaresWithLet)
  if declares then
    expectWord w
    binding go
    if w == "var" && (← sees "=") then
      opening "="
      within (fun _ => ⟨false, false⟩) (go .expression)
  else
    let m ← mark
    go .primary
    go (.chain m false)
    unless ((← latest?).map Tree.isTarget).getD false do fail
  unless ← acceptWord "in" do expectWord "of"
  bracketed (go .expressions)

def countedHeader (go : Go source) : Reader source Unit := do
  let w := wordText (← ahead)
  if w == "var" then Reader.block (declaration go w .variableDeclaration)
  else if w == "const" || (← declaresWithLet) then
    Reader.block (declaration go w .lexicalDeclaration)
  else
    unless ← sees ";" do bracketed (go .expressions)
    opening ";"
  unless ← sees ";" do bracketed (go .expressions)
  opening ";"
  unless ← sees ")" do bracketed (go .expressions)

def forStatement (go : Go source) : Reader source Unit := do
  let m ← mark
  expectWord "for"
  let waits ← acceptWord "await"
  opening "("
  let overCollection : Reader source Bool := do
    collectionHeader go
    return true
  let counted : Reader source Bool := do
    if waits then fail
    countedHeader go
    return false
  let isCollection ← orElse overCollection counted
  opening ")"
  go .statement
  gather m (if isCollection then .forInStatement else .forStatement)

def loopStatement (go : Go source) (keyword : Text) (kind : Kind) : Reader source Unit := do
  let m ← mark
  expectWord keyword
  condition go
  go .statement
  gather m kind

def doStatement (go : Go source) : Reader source Unit := do
  let m ← mark
  expectWord "do"
  go .statement
  expectWord "while"
  condition go
  discard <| accept ";"
  gather m .doStatement

def switchCases (go : Go source) : Reader source Unit := do
  let m ← mark
  let isCase ← acceptWord "case"
  if isCase then bracketed (go .expressions)
  if isCase || (← acceptWord "default") then
    opening ":"
    go (.statements true)
    gather m .switchCase
    go .switchCases

def switchStatement (go : Go source) : Reader source Unit := do
  let m ← mark
  expectWord "switch"
  condition go
  let b ← mark
  opening "\x7b"
  go .switchCases
  closing "\x7d"
  gather b .switchBody
  gather m .switchStatement

def tryStatement (go : Go source) : Reader source Unit := do
  let m ← mark
  expectWord "try"
  go .block
  if ← seesWord "catch" then
    let c ← mark
    expectWord "catch"
    if ← sees "(" then
      opening "("
      bracketed (binding go)
      opening ")"
    go .block
    gather c .catchClause
  if ← seesWord "finally" then
    let f ← mark
    expectWord "finally"
    go .block
    gather f .finallyClause
  gather m .tryStatement

def optionally (content : Reader source Unit) (afterOperand : Bool) : Reader source Unit := do
  if endsHere false (← get).unread then
    modify fun s => { s with afterOperator := true }
  else if ← sees ";" then opening ";"
  else
    content
    semicolon afterOperand

def returnStatement (go : Go source) : Reader source Unit := do
  let m ← mark
  expectWord "return"
  optionally (go .expressions) true
  gather m .returnStatement

def throwStatement (go : Go source) : Reader source Unit := do
  let m ← mark
  expectWord "throw"
  go .expressions
  semicolon true
  gather m .throwStatement

def jumpStatement (keyword : Text) (kind : Kind) : Reader source Unit := do
  let m ← mark
  expectWord keyword
  optionally (anyWord .label) false
  gather m kind

def debuggerStatement : Reader source Unit := do
  let m ← mark
  expectWord "debugger"
  semicolon false
  gather m .debuggerStatement

def functionDeclaration (go : Go source) : Reader source Unit := do
  let m ← mark
  discard <| acceptWord "async"
  expectWord "function"
  discard <| accept "*"
  anyWord .identifier
  functionRest go
  gather m .functionDeclaration

def declaresFunction : Reader source Bool := do
  let t ← ahead
  let afterAsync := t.drop 5
  let t := if wordText t == "async" && !endsHere true afterAsync then skipTrivia false afterAsync
    else t
  if wordText t != "function" then return false
  let next := skipTrivia true (t.drop 8)
  let next := if next.head? == some '*' then skipTrivia true (next.drop 1) else next
  return word next != 0

def declaresClass : Reader source Bool := do
  let t ← ahead
  if wordText t != "class" then return false
  let next := skipTrivia true (t.drop 5)
  return word next != 0 && wordText next != "extends"

def fromClause : Reader source Unit := do
  expectWord "from"
  take .string (string (← ahead)) true

def nameOrString : Reader source Unit := do
  let t ← ahead
  if word t != 0 then anyWord .identifier else take .string (string t) true

/-- Names between braces, each of which may be given another name. What is imported under a string
must be given one. -/
def nameList (imported : Bool) : Nat → Reader source Unit
  | 0 => fail
  | n + 1 => do
    if ← sees "\x7d" then return ()
    let needsName := imported && word (← ahead) == 0
    nameOrString
    if ← acceptWord "as" then
      if imported then anyWord .identifier else nameOrString
    else if needsName then fail
    if ← sees "," then
      opening ","
      nameList imported n

def bracedNames (imported : Bool) : Reader source Unit := do
  opening "\x7b"
  nameList imported ((← ahead).length + 1)
  closing "\x7d"

def namespaceName (imported : Bool) : Reader source Unit := do
  opening "*"
  expectWord "as"
  if imported then anyWord .identifier else nameOrString

def importStatement (go : Go source) : Reader source Unit := do
  let m ← mark
  expectWord "import"
  let t ← ahead
  if string t != 0 then take .string (string t) true
  else
    if t.head? == some '{' then bracedNames true
    else if t.head? == some '*' then namespaceName true
    else
      anyWord .identifier
      if ← sees "," then
        opening ","
        if ← sees "\x7b" then bracedNames true else namespaceName true
    fromClause
  if ← acceptWord "with" then
    unless (← ahead).head? == some '{' do fail
    go .primary
  semicolon false
  gather m .importStatement

def anyDeclaration (go : Go source) : Reader source Unit := do
  let w := wordText (← ahead)
  if w == "var" then declaration go w .variableDeclaration
  else if w == "const" || (← declaresWithLet) then declaration go w .lexicalDeclaration
  else if ← declaresFunction then functionDeclaration go
  else
    let m ← mark
    go .decorators
    unless ← declaresClass do fail
    classFrom go m .classDeclaration

/-- Whether something follows `export` that can be exported; otherwise the word is a name. -/
def exports : Reader source Bool := do
  let next := skipTrivia true ((← ahead).drop 6)
  let w := wordText next
  let c := next.head?
  return c == some '*' || c == some '{' || c == some '@' || w == "default" || w == "var" ||
    w == "const" || w == "let" || w == "function" || w == "class" || w == "async"

def exportStatement (go : Go source) : Reader source Unit := do
  let m ← mark
  go .decorators
  expectWord "export"
  if ← sees "*" then
    if wordText (skipTrivia true ((← ahead).drop 1)) == "as" then namespaceName false
    else opening "*"
    fromClause
    semicolon false
  else if (← ahead).head? == some '{' then
    bracedNames false
    if ← seesWord "from" then fromClause
    semicolon false
  else if ← acceptWord "default" then
    let value : Reader source Unit := do
      go .expression
      semicolon true
    orElse (anyDeclaration go) value
  else anyDeclaration go
  gather m .exportStatement

def labeledStatement (go : Go source) : Reader source Unit := do
  let m ← mark
  anyWord .label
  opening ":"
  go .statement
  gather m .labeledStatement

def decorated (go : Go source) : Reader source Unit := do
  let exported : Reader source Unit := exportStatement go
  let declared : Reader source Unit := do
    let m ← mark
    go .decorators
    unless ← declaresClass do fail
    classFrom go m .classDeclaration
  orElse exported (orElse declared (expressionStatement go))

def operandWords : List Text :=
  ["function", "class", "new", "typeof", "void", "delete", "await", "yield", "this", "super",
    "true", "false", "null", "undefined", "import"].map String.toList

def wordStatement (go : Go source) (t : Text) : Reader source Unit := do
  let w := wordText t
  let next := skipTrivia false (t.drop (word t))
  if w == "var" then declaration go w .variableDeclaration
  else if w == "const" then declaration go w .lexicalDeclaration
  else if w == "if" then ifStatement go
  else if w == "for" then forStatement go
  else if w == "while" then loopStatement go w .whileStatement
  else if w == "do" then doStatement go
  else if w == "try" then tryStatement go
  else if w == "with" then loopStatement go w .withStatement
  else if w == "switch" then switchStatement go
  else if w == "return" then returnStatement go
  else if w == "throw" then throwStatement go
  else if w == "break" then jumpStatement w .breakStatement
  else if w == "continue" then jumpStatement w .continueStatement
  else if w == "debugger" then debuggerStatement
  else if w == "import" && next.head? != some '(' && next.head? != some '.' then
    importStatement go
  else if w == "export" && (← exports) then exportStatement go
  else if ← declaresWithLet then declaration go w .lexicalDeclaration
  else if ← declaresFunction then functionDeclaration go
  else if ← declaresClass then classFrom go (← mark) .classDeclaration
  else if next.head? == some ':' && !operandWords.contains w then labeledStatement go
  else expressionStatement go

def statement (go : Go source) : Reader source Unit := do
  let t ← ahead
  if word t != 0 then wordStatement go t
  else if t.head? == some '{' then braced go
  else if t.head? == some ';' then take .emptyStatement 1 false
  else if t.head? == some '@' then decorated go
  else expressionStatement go

end RequireInjection.Script.Grammar
