import RequireInjection.Script.Grammar.Goal

namespace RequireInjection.Script.Grammar

open Reader

variable {source : Text}

def arrow (go : Go source) (m : Nat) : Reader source Unit := do
  opening "=>"
  if (← ahead).head? == some '{' then
    orElse (go .block) (go .expression)
  else go .expression
  gather m .arrowFunction

def arrowAfterBracket : Reader source Bool :=
  return Text.startsWith (skipTrivia false ((← ahead).drop 1)) "=>"

def parenthesized (go : Go source) : Reader source Unit := do
  let m ← mark
  opening "("
  let inner ← mark
  bracketed (go .items)
  let content ← since inner
  if ← arrowAfterBracket then
    unless Tree.areParameters content do fail
    closing ")"
    gather m .formalParameters
    arrow go m
  else
    unless Tree.areExpressions content do fail
    if content.length > 1 then gather inner .sequenceExpression
    closing ")"
    gather m .parenthesizedExpression

def array (go : Go source) : Reader source Unit := do
  let m ← mark
  opening "["
  bracketed (go .items)
  closing "]"
  gather m .arrayLiteral

def object (go : Go source) : Reader source Unit := do
  let m ← mark
  opening "\x7b"
  bracketed (go .members)
  closing "\x7d"
  gather m .objectLiteral

def items (go : Go source) : Reader source Unit := do
  let t ← ahead
  match t with
  | [] => fail
  | c :: _ =>
    if c == ')' || c == ']' then return ()
    if c == ',' then
      opening ","
      go .items
    else
      if Text.startsWith t "..." then
        let m ← mark
        opening "..."
        go .expression
        gather m .spreadElement
      else go .expression
      if ← sees "," then
        opening ","
        go .items

/-- One member of an object: a spread, a method, a key with its value, or a bare name, which may
have a default if the object turns out to be a pattern. -/
def member (go : Go source) : Reader source Unit := do
  let m ← mark
  if ← seesText "..." then
    opening "..."
    go .expression
    gather m .spreadElement
  else
    go .decorators
    let isMethod ← modifiers false
    let t ← ahead
    let after := (skipTrivia false (t.drop (word t))).head?
    if word t != 0 && !isMethod && after != some '(' && after != some ':' then
      take .shorthand (word t) true
      if ← sees "=" then
        opening "="
        go .expression
        gather m .shorthandDefault
    else
      memberName go
      if !isMethod && (← sees ":") then
        opening ":"
        go .expression
        gather m .pair
      else
        functionRest go
        gather m .methodDefinition

def members (go : Go source) : Reader source Unit := do
  if ← seesText "\x7d" then return ()
  if ← sees "," then
    opening ","
    go .members
  else
    member go
    if ← sees "," then
      opening ","
      go .members

def templateParts (go : Go source) : Reader source Unit := do
  let t := (← get).unread
  match templateChars t.length t with
  | none => fail
  | some n =>
    if n != 0 then shift .templateText n
    let rest := (← get).unread
    match rest with
    | '`' :: _ =>
      shift .punctuation 1
      modify fun s => { s with afterOperator := false }
    | '$' :: '{' :: _ =>
      let m ← mark
      shift .punctuation 2
      modify fun s => { s with afterOperator := true }
      bracketed (go .expressions)
      closing "\x7d"
      gather m .templateSubstitution
      go .templateParts
    | _ => fail

def template (go : Go source) : Reader source Unit := do
  let m ← mark
  opening "`"
  go .templateParts
  gather m .templateString

def functionExpression (go : Go source) : Reader source Unit := do
  let m ← mark
  discard <| acceptWord "async"
  expectWord "function"
  discard <| accept "*"
  if word (← ahead) != 0 then anyWord .identifier
  functionRest go
  gather m .functionExpression

def classMember (go : Go source) : Reader source Unit := do
  let m ← mark
  go .decorators
  let t ← ahead
  let isBlock := wordText t == "static"
    && (skipTrivia true (t.drop 6)).head? == some '{'
  if isBlock then
    expectWord "static"
    go .block
    gather m .staticBlock
  else
    let isMethod ← modifiers true
    memberName go
    if isMethod || (← sees "(") then
      functionRest go
      gather m .methodDefinition
      discard <| accept ";"
    else
      let hasValue ← sees "="
      if hasValue then
        opening "="
        Reader.block (go .expression)
      gather m .fieldDefinition
      semicolon hasValue

def classMembers (go : Go source) : Reader source Unit := do
  if ← seesText "\x7d" then return ()
  if ← sees ";" then opening ";"
  else classMember go
  go .classMembers

/-- A class from its keyword on; what stands since the mark belongs to it. -/
def classFrom (go : Go source) (m : Nat) (kind : Kind) : Reader source Unit := do
  expectWord "class"
  let t ← ahead
  if word t != 0 && wordText t != "extends" then anyWord .identifier
  if ← seesWord "extends" then
    let h ← mark
    expectWord "extends"
    go .expression
    gather h .classHeritage
  let b ← mark
  opening "\x7b"
  go .classMembers
  closing "\x7d"
  gather b .classBody
  gather m kind

def decorators (go : Go source) : Reader source Unit := do
  if ← seesText "@" then
    let m ← mark
    opening "@"
    let callee ← mark
    anyWord .identifier
    go (.elementNames callee)
    if ← sees "(" then
      arguments go
      gather callee .callExpression
    gather m .decorator
    go .decorators

def elementNames (go : Go source) (m : Nat) : Reader source Unit := do
  if ← sees "." then
    opening "."
    anyWord .propertyName
    gather m .memberExpression
    go (.elementNames m)

def propertyAfterDot : Reader source Unit := do
  let t ← ahead
  if word t != 0 then take .propertyName (word t) true
  else take .privateName (privateName t) true

def subscript (go : Go source) (m : Nat) : Reader source Unit := do
  opening "["
  bracketed (go .expressions)
  closing "]"
  gather m .subscriptExpression

def call (go : Go source) (m : Nat) : Reader source Unit := do
  arguments go
  gather m .callExpression

def chain (go : Go source) (m : Nat) (onlyMembers : Bool) : Reader source Unit := do
  let t ← ahead
  let next := punctuator t
  if next == "." then
    opening "."
    propertyAfterDot
    gather m .memberExpression
    go (.chain m onlyMembers)
  else if next == "?." then
    let called := ((← latest?).map Tree.isCalledOptionally).getD false
    opening "?."
    let after := (← ahead).head?
    if after == some '(' then
      unless called do fail
      call go m
    else if after == some '[' then subscript go m
    else
      propertyAfterDot
      gather m .memberExpression
    go (.chain m onlyMembers)
  else if next == "[" then
    subscript go m
    go (.chain m onlyMembers)
  else if next == "`" then
    unless ((← latest?).map Tree.isTag).getD false do fail
    template go
    gather m .callExpression
    go (.chain m onlyMembers)
  else if onlyMembers then return ()
  else if next == "(" then
    call go m
    go (.chain m false)
  else if next == "++" || next == "--" then
    unless ← mayEndStatement true do
      closing next
      gather m .updateExpression
      go (.chain m false)

def newExpression (go : Go source) : Reader source Unit := do
  let m ← mark
  expectWord "new"
  if ← sees "." then
    opening "."
    unless ← seesWord "target" do fail
    anyWord .propertyName
    gather m .metaProperty
  else
    let c ← mark
    if ← seesWord "new" then go .newExpression else go .primary
    go (.chain c true)
    if ← sees "(" then arguments go
    gather m .newExpression

def importExpression : Reader source Unit := do
  let m ← mark
  anyWord .importName
  if ← sees "." then
    if wordText (skipTrivia false ((← ahead).drop 1)) == "meta" then
      opening "."
      anyWord .propertyName
      gather m .metaProperty
  else unless ← sees "(" do fail

def name (go : Go source) : Reader source Unit := do
  let m ← mark
  anyWord .identifier
  if ← sees "=>" then arrow go m

def asyncExpression (go : Go source) : Reader source Unit := do
  let m ← mark
  let s ← get
  let rest := (← ahead).drop 5
  let next := skipTrivia false rest
  let apart := s.setting.endsStatement && endsHere true rest
  let w := word next
  if !apart && wordText next == "function" then functionExpression go
  else if !apart && w != 0 && Text.startsWith (skipTrivia false (next.drop w)) "=>" then
    anyWord .identifier
    anyWord .identifier
    arrow go m
  else
    anyWord .identifier
    if ← sees "=>" then arrow go m
    else if ← sees "(" then
      let a ← mark
      opening "("
      let inner ← mark
      bracketed (go .items)
      if ← arrowAfterBracket then
        unless Tree.areParameters (← since inner) do fail
        closing ")"
        gather a .formalParameters
        arrow go m
      else
        closing ")"
        gather a .arguments
        gather m .callExpression

def primaryWord (go : Go source) (w : Text) : Reader source Unit := do
  if w == "function" then functionExpression go
  else if w == "class" then classFrom go (← mark) .classExpression
  else if w == "new" then newExpression go
  else if w == "this" then anyWord .thisName
  else if w == "super" then anyWord .superName
  else if w == "true" then anyWord .trueLiteral
  else if w == "false" then anyWord .falseLiteral
  else if w == "null" then anyWord .nullLiteral
  else if w == "undefined" then anyWord .undefinedName
  else if w == "import" then importExpression
  else if w == "async" then asyncExpression go
  else name go

def primary (go : Go source) : Reader source Unit := do
  let t ← ahead
  match t with
  | [] => fail
  | c :: _ =>
    if word t != 0 then primaryWord go (wordText t)
    else if number t != 0 then take .number (number t) true
    else if string t != 0 then take .string (string t) true
    else if c == '(' then parenthesized go
    else if c == '[' then array go
    else if c == '{' then object go
    else if c == '`' then template go
    else if c == '/' then take .regex (regex t) true
    else if c == '<' then go .element
    else if c == '@' then
      let m ← mark
      go .decorators
      classFrom go m .classExpression
    else
      take .privateName (privateName t) true
      unless ← seesWord "in" do fail

def augmentedMarks : List Text :=
  ["+=", "-=", "*=", "/=", "%=", "^=", "&=", "|=", ">>=", ">>>=", "<<=", "**=", "&&=", "||=",
    "??="].map String.toList

def target (go : Go source) : Reader source Unit := do
  let m ← mark
  go .primary
  go (.chain m false)
  let next := punctuator (← ahead)
  if next == "=" then
    unless ((← latest?).map Tree.isTarget).getD false do fail
    opening "="
    go .expression
    gather m .assignmentExpression
  else if augmentedMarks.contains next then
    unless ((← latest?).map Tree.isAugmentedTarget).getD false do fail
    opening next
    go .expression
    gather m .augmentedAssignment

def beginsOperand (t : Text) : Bool :=
  match t with
  | [] => false
  | c :: _ =>
    let w := wordText t
    if w != [] then w != "in" && w != "instanceof"
    else number t != 0 || "'\"`([\x7b/<@#+-!~".toList.contains c && !t.startsWith "!="

def yieldExpression (go : Go source) : Reader source Unit := do
  let m ← mark
  expectWord "yield"
  if ← accept "*" then go .expression
  else if beginsOperand (← ahead) then
    unless ← mayEndStatement true do go .expression
  modify fun s => { s with afterOperator := false }
  gather m .yieldExpression

def operand (go : Go source) : Reader source Unit := do
  let t ← ahead
  let w := wordText t
  let next := punctuator t
  let m ← mark
  if w == "typeof" || w == "void" || w == "delete" then
    expectWord w
    go .operand
    gather m .unaryExpression
  else if w == "await" then
    expectWord "await"
    go .operand
    gather m .awaitExpression
  else if w == "yield" then yieldExpression go
  else if next == "!" || next == "~" || next == "+" || next == "-" then
    opening next
    go .operand
    gather m .unaryExpression
  else if next == "++" || next == "--" then
    opening next
    go .operand
    gather m .updateExpression
  else target go

/-- The operators between two operands, by levels of which later ones bind tighter. -/
def levels : List (List Text) :=
  [["??"], ["||"], ["&&"], ["|"], ["^"], ["&"], ["==", "!=", "===", "!=="],
    ["<", ">", "<=", ">=", "in", "instanceof"], ["<<", ">>", ">>>"], ["+", "-"], ["*", "/", "%"],
    ["**"]].map (List.map String.toList)

def level (op : Text) : Nat :=
  match levels.findIdx? fun ops => ops.contains op with
  | some n => n + 1
  | none => 0

/-- Further operators of at least the given level with their right operands. -/
def binaryTail (go : Go source) (m least : Nat) : Reader source Unit := do
  let t ← ahead
  let w := wordText t
  let op := if w == [] then punctuator t else w
  let l := level op
  let allowed := op != "in" || (← get).setting.inOperator
  if l != 0 && least ≤ l && allowed then
    opening op
    let right ← mark
    go .operand
    go (.binaryTail right (if op == "**" then l else l + 1))
    gather m .binaryExpression
    go (.binaryTail m least)

def expression (go : Go source) : Reader source Unit := do
  let m ← mark
  go .operand
  go (.binaryTail m 1)
  if ← sees "?" then
    opening "?"
    bracketed (go .expression)
    opening ":"
    go .expression
    gather m .ternaryExpression

def moreExpressions (go : Go source) : Reader source Unit := do
  if ← sees "," then
    opening ","
    go .expression
    go .moreExpressions

def expressions (go : Go source) : Reader source Unit := do
  let m ← mark
  go .expression
  if ← sees "," then
    go .moreExpressions
    gather m .sequenceExpression

end RequireInjection.Script.Grammar
