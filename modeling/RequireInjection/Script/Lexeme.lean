import RequireInjection.Script.Tree

/-!
Lexemes at the head of a text. Each function says how many characters a lexeme of its kind takes
there, zero if there is none, so that cutting a text at a lexeme never loses a character. The null
character belongs to no lexeme.
-/
namespace RequireInjection.Script

def isSpaceSeparator (c : Char) : Bool :=
  let n := c.toNat
  n == 0x20 || n == 0xA0 || n == 0x1680 || (0x2000 ≤ n && n ≤ 0x200A) || n == 0x202F ||
    n == 0x205F || n == 0x3000

def isAsciiBlank (c : Char) : Bool :=
  let n := c.toNat
  n == 0x20 || (0x09 ≤ n && n ≤ 0x0D)

def isBlank (c : Char) : Bool :=
  let n := c.toNat
  isAsciiBlank c || isSpaceSeparator c || n == 0xFEFF || n == 0x2028 || n == 0x2029 ||
    n == 0x2060 || n == 0x200B

def isLineBreak (c : Char) : Bool :=
  c == '\n' || c.toNat == 0x2028 || c.toNat == 0x2029

def isDigit (c : Char) : Bool := '0' ≤ c && c ≤ '9'

def isOctalDigit (c : Char) : Bool := '0' ≤ c && c ≤ '7'

def isBinaryDigit (c : Char) : Bool := c == '0' || c == '1'

def isHexDigit (c : Char) : Bool :=
  isDigit c || ('a' ≤ c && c ≤ 'f') || ('A' ≤ c && c ≤ 'F')

def isLetter (c : Char) : Bool := ('a' ≤ c && c ≤ 'z') || ('A' ≤ c && c ≤ 'Z')

/-- Characters of a name: everything but control characters, blanks, and the marks that other
tokens are made of. -/
def isNamePart (c : Char) : Bool :=
  !(c.toNat ≤ 0x1F || isBlank c ||
    ":;`\"'@#.,|^&<=>+-*/\\%?!~()[]\x7b\x7d".toList.contains c)

def isNameStart (c : Char) : Bool := isNamePart c && !isDigit c

def countWhile (p : Char → Bool) : Text → Nat
  | [] => 0
  | c :: cs => if p c then countWhile p cs + 1 else 0

def unicodeEscape : Text → Nat
  | '\\' :: 'u' :: '{' :: cs =>
    let n := countWhile isHexDigit cs
    if n != 0 && (cs.drop n).head? == some '}' then n + 4 else 0
  | '\\' :: 'u' :: cs => if countWhile isHexDigit (cs.take 4) == 4 then 6 else 0
  | _ => 0

def nameTail : Nat → Text → Nat
  | 0, _ => 0
  | _ + 1, [] => 0
  | n + 1, c :: cs =>
    if isNamePart c then nameTail n cs + 1
    else
      let k := unicodeEscape (c :: cs)
      if k == 0 then 0 else nameTail n ((c :: cs).drop k) + k

def word (t : Text) : Nat :=
  match t with
  | [] => 0
  | c :: cs =>
    if isNameStart c then nameTail cs.length cs + 1
    else
      let k := unicodeEscape t
      if k == 0 then 0 else nameTail t.length (t.drop k) + k

def wordText (t : Text) : Text := t.take (word t)

def privateName : Text → Nat
  | '#' :: cs => match word cs with
    | 0 => 0
    | n => n + 1
  | _ => 0

def moreDigits (p : Char → Bool) : Text → Nat
  | '_' :: c :: cs => if p c then moreDigits p cs + 2 else 0
  | c :: cs => if p c then moreDigits p cs + 1 else 0
  | [] => 0

def digits (p : Char → Bool) : Text → Nat
  | [] => 0
  | c :: cs => if p c then moreDigits p cs + 1 else 0

def exponent : Text → Nat
  | e :: cs =>
    if e == 'e' || e == 'E' then
      match cs with
      | s :: ds =>
        if s == '+' || s == '-' then
          match digits isDigit ds with
          | 0 => 0
          | n => n + 2
        else
          match digits isDigit cs with
          | 0 => 0
          | n => n + 1
      | [] => 0
    else 0
  | [] => 0

/-- The part of a decimal number before its point: `0`, or digits of which the first or, after
a zero, the second is not `0`. -/
def wholePart : Text → Nat
  | '0' :: c :: cs => if isDigit c && c != '0' then moreDigits isDigit cs + 2 else 1
  | '0' :: [] => 1
  | c :: cs => if isDigit c then moreDigits isDigit cs + 1 else 0
  | [] => 0

def fraction (t : Text) : Nat :=
  let n := digits isDigit t
  n + exponent (t.drop n)

def decimalNumber (t : Text) : Nat :=
  let whole := wholePart t
  let plain := digits isDigit t
  let afterWhole := t.drop whole
  let pointed :=
    if whole == 0 then
      match t with
      | '.' :: cs => if digits isDigit cs == 0 then 0 else fraction cs + 1
      | _ => 0
    else
      match afterWhole with
      | '.' :: cs => whole + 1 + fraction cs
      | _ =>
        let e := exponent afterWhole
        if e == 0 then 0 else whole + e
  let big := if plain != 0 && (t.drop plain).head? == some 'n' then plain + 1 else 0
  max (max plain pointed) big

def markedNumber (p : Char → Bool) (mark : Char) : Text → Nat
  | '0' :: m :: cs =>
    if m.toLower == mark then
      match digits p cs with
      | 0 => 0
      | n => if (cs.drop n).head? == some 'n' then n + 3 else n + 2
    else 0
  | _ => 0

def number (t : Text) : Nat :=
  max (decimalNumber t)
    (max (markedNumber isHexDigit 'x' t)
      (max (markedNumber isOctalDigit 'o' t) (markedNumber isBinaryDigit 'b' t)))

def escapeBody : Text → Nat
  | [] => 0
  | c :: cs =>
    if c.toNat == 0 then 0
    else if c == 'x' then (if countWhile isHexDigit (cs.take 2) == 2 then 3 else 0)
    else if c == 'u' then unicodeEscape ('\\' :: c :: cs) - 1
    else if isOctalDigit c then countWhile isOctalDigit (cs.take 2) + 1
    else if (c == '\r' || c == '?') && (cs.head?.map isLineBreak).getD false then 2
    else 1

def stringTail (quote : Char) : Nat → Text → Option Nat
  | 0, _ => none
  | _ + 1, [] => none
  | n + 1, c :: cs =>
    if c == quote then some 1
    else if c == '\\' then
      match escapeBody cs with
      | 0 => none
      | k => (stringTail quote n (cs.drop k)).map (· + (k + 1))
    else if c == '\n' || c == '\r' || c.toNat == 0 then none
    else (stringTail quote n cs).map (· + 1)

def string : Text → Nat
  | c :: cs =>
    if c == '"' || c == '\'' then ((stringTail c cs.length cs).map (· + 1)).getD 0 else 0
  | [] => 0

/-- The text of a template up to a substitution or its end; none if an escape is malformed. -/
def templateChars : Nat → Text → Option Nat
  | 0, _ => some 0
  | _ + 1, [] => some 0
  | n + 1, c :: cs =>
    if c == '`' || c.toNat == 0 || (c == '$' && cs.head? == some '{') then some 0
    else if c == '\\' then
      match escapeBody cs with
      | 0 => none
      | k => (templateChars n (cs.drop k)).map (· + (k + 1))
    else (templateChars n cs).map (· + 1)

def regexClass : Text → Nat
  | [] => 0
  | '\\' :: c :: cs =>
    if c == '\n' || c.toNat == 0 then 0
    else match regexClass cs with
      | 0 => 0
      | n => n + 2
  | c :: cs =>
    if c == ']' then 1
    else if c == '\n' || c == '\\' || c.toNat == 0 then 0
    else match regexClass cs with
      | 0 => 0
      | n => n + 1

def regexTail : Nat → Text → Option Nat
  | 0, _ => none
  | _ + 1, [] => none
  | n + 1, c :: cs =>
    if c == '/' then some 1
    else if c == '[' then
      match regexClass cs with
      | 0 => none
      | k => (regexTail n (cs.drop k)).map (· + (k + 1))
    else if c == '\\' then
      match cs with
      | d :: ds => if d == '\n' || d.toNat == 0 then none else (regexTail n ds).map (· + 2)
      | [] => none
    else if c == '\n' || c.toNat == 0 then none
    else (regexTail n cs).map (· + 1)

def regex : Text → Nat
  | '/' :: cs =>
    match regexTail cs.length cs with
    | none => 0
    | some n =>
      if n ≤ 1 then 0 else n + 1 + countWhile (fun c => 'a' ≤ c && c ≤ 'z') (cs.drop n)
  | _ => 0

def blockCommentTail : Text → Option Nat
  | [] => none
  | '*' :: '/' :: _ => some 2
  | c :: cs => if c.toNat == 0 then none else (blockCommentTail cs).map (· + 1)

/-- A comment. The forms `<!--` and `-->` count only where no operand has just ended. -/
def comment (afterOperator : Bool) (t : Text) : Nat :=
  let toLineEnd := countWhile fun c => !(isLineBreak c || c.toNat == 0)
  match t with
  | '/' :: '/' :: cs =>
    countWhile (fun c => !(isLineBreak c || c == '\r' || c.toNat == 0)) cs + 2
  | '/' :: '*' :: cs => ((blockCommentTail cs).map (· + 2)).getD 0
  | '<' :: '!' :: '-' :: '-' :: cs => if afterOperator then toLineEnd cs + 4 else 0
  | '-' :: '-' :: '>' :: cs => if afterOperator then toLineEnd cs + 3 else 0
  | _ => 0

def triviaWithin (afterOperator : Bool) : Nat → Text → List (Kind × Nat)
  | 0, _ => []
  | n + 1, t =>
    match countWhile isBlank t with
    | 0 =>
      match comment afterOperator t with
      | 0 => []
      | k => (.comment, k) :: triviaWithin afterOperator n (t.drop k)
    | k => (.blank, k) :: triviaWithin afterOperator n (t.drop k)

def trivia (afterOperator : Bool) (t : Text) : List (Kind × Nat) :=
  triviaWithin afterOperator t.length t

def skipTrivia (afterOperator : Bool) (t : Text) : Text :=
  (trivia afterOperator t).foldl (fun rest piece => rest.drop piece.2) t

def throughLastComment : List (Kind × Nat) → Nat
  | [] => 0
  | (k, n) :: rest =>
    match throughLastComment rest with
    | 0 => if k = .comment then n else 0
    | m => n + m

def longPunctuators : List Text :=
  [">>>=", "...", "===", "!==", "**=", "<<=", ">>=", ">>>", "&&=", "||=", "??=", "=>", "==", "!=",
    "<=", ">=", "&&", "||", "??", "?.", "++", "--", "+=", "-=", "*=", "/=", "%=", "&=", "|=",
    "^=", "<<", ">>", "**"].map String.toList

/-- The longest operator or bracket at the head of a text. A `?` before a decimal fraction is the
mark of a conditional. -/
def punctuator (t : Text) : Text :=
  match longPunctuators.find? fun m => t.startsWith m with
  | some m =>
    if m == ['?', '.'] && ((t.drop 2).head?.map isDigit).getD false then ['?'] else m
  | none => t.take 1

/-- Text of an element up to a bracket or an entity; the flag says whether it shows anything, which
blanks do only before the first line break. -/
def jsxChars (shown atBreak : Bool) : Text → Bool × Nat
  | [] => (shown, 0)
  | c :: cs =>
    if "<>\x7b\x7d&".toList.contains c || c.toNat == 0 then (shown, 0)
    else
      let atBreak := if c == '\n' then true else atBreak && isAsciiBlank c
      let (shown, n) := jsxChars (shown || !atBreak) atBreak cs
      (shown, n + 1)

def characterReference : Text → Nat
  | '&' :: '#' :: x :: cs =>
    if x == 'x' || x == 'X' then
      let n := countWhile isHexDigit cs
      if 1 ≤ n && n ≤ 6 && (cs.drop n).head? == some ';' then n + 4 else 0
    else
      let n := countWhile isDigit (x :: cs)
      if 1 ≤ n && n ≤ 5 && ((x :: cs).drop n).head? == some ';' then n + 3 else 0
  | '&' :: cs =>
    let n := countWhile isLetter cs
    if 1 ≤ n && n ≤ 30 && (cs.drop n).head? == some ';' then n + 2 else 0
  | _ => 0

def jsxStringTail (quote : Char) : Nat → Text → Option Nat
  | 0, _ => none
  | _ + 1, [] => none
  | n + 1, c :: cs =>
    if c == quote then some 1
    else if c.toNat == 0 then none
    else if c == '&' then
      match characterReference (c :: cs) with
      | 0 =>
        match cs with
        | [] => none
        | d :: ds =>
          if d == '#' || isLetter d || d.toNat == 0 then none
          else (jsxStringTail quote n ds).map (· + 2)
      | k => (jsxStringTail quote n ((c :: cs).drop k)).map (· + k)
    else (jsxStringTail quote n cs).map (· + 1)

def jsxString : Text → Nat
  | c :: cs =>
    if c == '"' || c == '\'' then ((jsxStringTail c cs.length cs).map (· + 1)).getD 0 else 0
  | [] => 0

def jsxName (t : Text) : Nat :=
  let isPart (c : Char) := isLetter c || isDigit c || c == '_' || c == '$'
  match t with
  | c :: cs =>
    let hyphened :=
      if isLetter c || c == '_' || c == '$' then
        let n := countWhile isPart cs
        if (cs.drop n).head? == some '-' then 1 + countWhile (fun c => isPart c || c == '-') cs
        else 0
      else 0
    max hyphened (word t)
  | [] => 0

end RequireInjection.Script
