import RequireInjection.Script.Lexeme

/-!
Where a statement may end without a semicolon: at the end of the text, before a closing brace, and
at a line break unless the next line goes on with the statement. Comments on the way count as
blanks, but a statement is looked at again after each of them.
-/
namespace RequireInjection.Script

inductive Passage where
  | blocked
  | sameLine (rest : Text)
  | passed (rest : Text)

def afterBlockComment (sawBreak : Bool) : Text → Option (Bool × Text)
  | [] => none
  | '*' :: '/' :: cs => some (sawBreak, cs)
  | c :: cs => if c.toNat == 0 then none else afterBlockComment (sawBreak || isLineBreak c) cs

/-- Passes blanks and comments; unless all are wanted, stops after a bracketed comment that no
slash follows. -/
def pass (all : Bool) : Nat → Bool → Text → Passage
  | 0, _, t => .passed t
  | n + 1, sawBreak, t =>
    let t := t.dropWhile isAsciiBlank
    match t with
    | '/' :: '/' :: cs =>
      pass all n sawBreak (cs.dropWhile fun c => !(isLineBreak c || c.toNat == 0))
    | '/' :: '*' :: cs =>
      match afterBlockComment sawBreak cs with
      | none => .passed []
      | some (sawBreak, rest) =>
        if !all && rest.head? != some '/' then
          if sawBreak then .passed rest else .sameLine rest
        else pass all n sawBreak rest
    | '/' :: _ => .blocked
    | _ => .passed t

def beginsStatement : Text → Bool
  | [] => true
  | c :: cs =>
    if "`,:;*%><=[(?^|&/".toList.contains c then false
    else if c == '.' then (cs.head?.map isDigit).getD false
    else if c == '+' then cs.head? == some '+'
    else if c == '-' then cs.head? == some '-'
    else if c == '!' then cs.head? != some '='
    else if c == 'i' then
      match cs with
      | 'n' :: rest =>
        let goesOn (t : Text) : Bool := (t.head?.map isLetter).getD false
        if !goesOn rest then false
        else
          match Text.stripPrefix? "stanceof" rest with
          | some after => goesOn after
          | none => true
      | _ => true
    else true

/-- Looks for the end of a statement at the head of a text. After an operand a comment does not end
the statement by itself. -/
def endsHereWithin (afterOperand : Bool) : Nat → Text → Bool
  | 0, _ => false
  | _ + 1, [] => true
  | n + 1, c :: cs =>
    let onward (t : Text) : Bool :=
      match t with
      | [] => false
      | d :: ds =>
        if d == '}' then true
        else if isLineBreak d then
          match pass true ds.length false ds with
          | .blocked => false
          | .sameLine rest | .passed rest => beginsStatement rest
        else if isAsciiBlank d then endsHereWithin afterOperand n ds
        else false
    if c.toNat == 0 then true
    else if c == '/' then
      match pass false (c :: cs).length false (c :: cs) with
      | .blocked => false
      | .sameLine rest => onward rest
      | .passed rest =>
        if !afterOperand && rest.head? != some ',' && rest.head? != some '=' then true
        else onward rest
    else onward (c :: cs)

def endsHereOrAfterComment (afterOperand : Bool) : Nat → Text → Bool
  | 0, t => endsHereWithin afterOperand (t.length + 1) t
  | n + 1, t =>
    if endsHereWithin afterOperand (t.length + 1) t then true
    else
      let rest := t.dropWhile isBlank
      match comment false rest with
      | 0 => false
      | k => endsHereOrAfterComment afterOperand n (rest.drop k)

def endsHere (afterOperand : Bool) (t : Text) : Bool :=
  endsHereOrAfterComment afterOperand t.length t

end RequireInjection.Script
