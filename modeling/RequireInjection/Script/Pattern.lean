import RequireInjection.Script.Tree

namespace RequireInjection.Script.Tree

mutual
def isPattern : Tree → Bool
  | leaf k _ => k = .identifier || k = .undefinedName
  | node k cs =>
    match k with
    | .memberExpression | .subscriptExpression => true
    | .arrayLiteral | .objectLiteral => allElements cs
    | _ => false
def isElement : Tree → Bool
  | leaf k _ =>
    k.isTrivia || k = .punctuation || k = .identifier || k = .undefinedName || k = .shorthand
  | node k cs =>
    match k with
    | .memberExpression | .subscriptExpression | .shorthandDefault => true
    | .arrayLiteral | .objectLiteral => allElements cs
    | .assignmentExpression => headIsPattern cs
    | .spreadElement => lastIsPattern cs
    | .pair => lastIsElement cs
    | _ => false
def allElements : List Tree → Bool
  | [] => true
  | t :: ts => isElement t && allElements ts
def headIsPattern : List Tree → Bool
  | [] => false
  | t :: _ => isPattern t
def lastIsPattern : List Tree → Bool
  | [] => false
  | [t] => isPattern t
  | _ :: ts => lastIsPattern ts
def lastIsElement : List Tree → Bool
  | [] => false
  | [t] => isElement t
  | _ :: ts => lastIsElement ts
end

def isComma : Tree → Bool
  | leaf .punctuation [','] => true
  | _ => false

def isTarget (t : Tree) : Bool := t.isPattern || t.kind = .parenthesizedExpression

def isAugmentedTarget (t : Tree) : Bool :=
  match t.kind with
  | .identifier | .memberExpression | .subscriptExpression | .parenthesizedExpression => true
  | _ => false

def isTag (t : Tree) : Bool :=
  match t.kind with
  | .updateExpression | .jsxElement => false
  | _ => true

def isCalledOptionally (t : Tree) : Bool := t.isTag && t.kind ≠ .newExpression

def isParameter (t : Tree) : Bool := t.kind ≠ .punctuation && t.isElement

def areParameters : List Tree → Bool
  | [] => true
  | [p] => p.isParameter
  | p :: c :: rest => p.isParameter && c.isComma && areParameters rest

def areExpressions : List Tree → Bool
  | [] => false
  | [e] => e.kind ≠ .punctuation && e.kind ≠ .spreadElement
  | e :: c :: rest =>
    e.kind ≠ .punctuation && e.kind ≠ .spreadElement && c.isComma && areExpressions rest

mutual
/-- Whether a name with a default, such as `{a = 1}`, stands somewhere outside of a pattern. -/
def misplacesDefault (inPattern : Bool) : Tree → Bool
  | leaf _ _ => false
  | node k cs =>
    match k with
    | .objectLiteral | .arrayLiteral | .spreadElement => anyMisplaces inPattern cs
    | .shorthandDefault => !inPattern || anyMisplaces false cs
    | .pair => lastMisplaces inPattern cs
    | .assignmentExpression | .variableDeclarator => headMisplaces cs
    | .formalParameters | .catchClause => anyMisplaces true cs
    | .forInStatement => headersMisplace cs
    | _ => anyMisplaces false cs
def anyMisplaces (inPattern : Bool) : List Tree → Bool
  | [] => false
  | t :: ts => misplacesDefault inPattern t || anyMisplaces inPattern ts
def headMisplaces : List Tree → Bool
  | [] => false
  | t :: ts => misplacesDefault true t || anyMisplaces false ts
def headersMisplace : List Tree → Bool
  | [] => false
  | t :: ts =>
    match t with
    | leaf .punctuation ['i', 'n'] | leaf .punctuation ['o', 'f'] => anyMisplaces false ts
    | t => misplacesDefault true t || headersMisplace ts
def lastMisplaces (inPattern : Bool) : List Tree → Bool
  | [] => false
  | [t] => misplacesDefault inPattern t
  | t :: ts => misplacesDefault false t || lastMisplaces inPattern ts
end

end RequireInjection.Script.Tree
