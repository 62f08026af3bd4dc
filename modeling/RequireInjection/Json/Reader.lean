import RequireInjection.Json.Value

/-!
Reading JSON texts. Every complaint names the place where reading stopped, either after the last
character read or, if a character was only looked at, after that one. Arrays and objects may be
nested less deep than a limit that the caller sets.
-/
namespace RequireInjection.Json

inductive Complaint where
  | keyNotString | expectedValue | expectedColon | expectedObjectEnd | expectedListEnd
  | trailingComma | trailingCharacters | expectedIdent | invalidNumber | numberOutOfRange
  | invalidEscape | unpairedEscape | loneSurrogate | controlCharacter
  | endInString | endInValue | endInObject | endInList | tooDeep
  deriving DecidableEq, Repr

def Complaint.message : Complaint → Text
  | .keyNotString => "key must be a string"
  | .expectedValue => "expected value"
  | .expectedColon => "expected `:`"
  | .expectedObjectEnd => "expected `,` or `\x7d`"
  | .expectedListEnd => "expected `,` or `]`"
  | .trailingComma => "trailing comma"
  | .trailingCharacters => "trailing characters"
  | .expectedIdent => "expected ident"
  | .invalidNumber => "invalid number"
  | .numberOutOfRange => "number out of range"
  | .invalidEscape => "invalid escape"
  | .unpairedEscape => "unexpected end of hex escape"
  | .loneSurrogate => "lone leading surrogate in hex escape"
  | .controlCharacter => "control character (\\u0000-\\u001F) found while parsing a string"
  | .endInString => "EOF while parsing a string"
  | .endInValue => "EOF while parsing a value"
  | .endInObject => "EOF while parsing an object"
  | .endInList => "EOF while parsing a list"
  | .tooDeep => "recursion limit exceeded"

/-- A complaint with the number of bytes that were left. -/
structure Stop where
  complaint : Complaint
  left : Nat
  deriving DecidableEq, Repr

def stop {α : Type} (c : Complaint) (rest : Text) : Except Stop α := .error ⟨c, rest.size⟩

def stopAhead {α : Type} (c : Complaint) (rest : Text) : Except Stop α :=
  .error ⟨c, rest.size - 1⟩

def isSpace (c : Char) : Bool := c == ' ' || c == '\n' || c == '\t' || c == '\r'

def skipSpace (t : Text) : Text := t.dropWhile isSpace

def hexEscape (t : Text) : Except Stop (Nat × Text) :=
  let digit? (c : Char) : Option Nat :=
    if '0' ≤ c && c ≤ '9' then some (c.toNat - 48)
    else if 'a' ≤ c && c ≤ 'f' then some (c.toNat - 87)
    else if 'A' ≤ c && c ≤ 'F' then some (c.toNat - 55)
    else none
  if t.size < 4 then .error ⟨.endInString, 0⟩
  else
    match t with
    | a :: b :: c :: d :: rest =>
      match digit? a, digit? b, digit? c, digit? d with
      | some a, some b, some c, some d => .ok (((a * 16 + b) * 16 + c) * 16 + d, rest)
      | _, _, _, _ => .error ⟨.invalidEscape, t.size - 4⟩
    | _ => .error ⟨.invalidEscape, t.size - 4⟩

/-- The character that the digits after `\u` stand for; two halves of a surrogate pair are written
one after the other. -/
def unicodeEscape (t : Text) : Except Stop (Char × Text) := do
  let (high, t) ← hexEscape t
  if 0xDC00 ≤ high && high ≤ 0xDFFF then stop .loneSurrogate t
  else if 0xD800 ≤ high && high ≤ 0xDBFF then
    match t with
    | [] => stop .endInString t
    | '\\' :: t =>
      match t with
      | [] => stop .endInString t
      | 'u' :: t => do
        let (low, t) ← hexEscape t
        if low < 0xDC00 || 0xDFFF < low then stop .loneSurrogate t
        else return (Char.ofNat (0x10000 + (high - 0xD800) * 1024 + (low - 0xDC00)), t)
      | _ => stopAhead .unpairedEscape t
    | _ => stopAhead .unpairedEscape t
  else return (Char.ofNat high, t)

def escape (t : Text) : Except Stop (Char × Text) :=
  match t with
  | [] => stop .endInString t
  | c :: rest =>
    if c == '"' || c == '\\' || c == '/' then .ok (c, rest)
    else if c == 'b' then .ok (Char.ofNat 8, rest)
    else if c == 'f' then .ok (Char.ofNat 12, rest)
    else if c == 'n' then .ok ('\n', rest)
    else if c == 'r' then .ok ('\r', rest)
    else if c == 't' then .ok ('\t', rest)
    else if c == 'u' then unicodeEscape rest
    else stopAhead .invalidEscape t

def stringTail : Nat → Text → Except Stop (Text × Text)
  | 0, t => stop .endInString t
  | _ + 1, [] => stop .endInString []
  | n + 1, c :: rest =>
    if c == '"' then .ok ([], rest)
    else if c == '\\' then do
      let (d, rest) ← escape rest
      let (s, rest) ← stringTail n rest
      return (d :: s, rest)
    else if c.toNat < 32 then stop .controlCharacter rest
    else do
      let (s, rest) ← stringTail n rest
      return (c :: s, rest)

def readString (t : Text) : Except Stop (Text × Text) := stringTail (t.length + 1) t

def isDigit (c : Char) : Bool := '0' ≤ c && c ≤ '9'

def startsWithDigit : Text → Bool
  | c :: _ => isDigit c
  | [] => false

def maxWord : Nat := Nat.pow 2 64 - 1

/-- A significand scaled by a power of ten in double arithmetic: one multiplication or division by a
power up to 10^308, after divisions by 10^308 for smaller exponents; none if the product is
infinite. -/
def scale (significand : Nat) (exponent : Int) : Option Float :=
  let f := (UInt64.ofNat significand).toFloat
  let power (n : Nat) : Float := Float.ofScientific 1 false n
  if significand = 0 then some f
  else if 308 < exponent then none
  else if 0 ≤ exponent then
    let g := f * power exponent.toNat
    if g.isInf then none else some g
  else
    let down := (-exponent).toNat
    let steps := min (down / 308) 3
    let f := (List.replicate steps (power 308)).foldl (· / ·) f
    if 3 * 308 ≤ down then some 0.0 else some (f / power (down - steps * 308))

def signed (positive : Bool) (f : Float) : Json := double (if positive then f else -f)

def finish (positive : Bool) (significand : Nat) (exponent : Int) (rest : Text) :
    Except Stop (Json × Text) :=
  match scale significand exponent with
  | some f => .ok (signed positive f, rest)
  | none => stop .numberOutOfRange rest

/-- Digits of an exponent, added to what they are so far. Beyond 2^31 - 1 a number is too large or
zero. -/
def exponentDigits (positive negativeExponent : Bool) (significand : Nat) (start : Int)
    (sofar : Nat) : Text → Except Stop (Json × Text)
  | c :: rest =>
    if isDigit c then
      let next := sofar * 10 + (c.toNat - 48)
      if next < Nat.pow 2 31 then
        exponentDigits positive negativeExponent significand start next rest
      else if significand != 0 && !negativeExponent then stop .numberOutOfRange rest
      else .ok (signed positive 0.0, rest.dropWhile isDigit)
    else
      finish positive significand
        (if negativeExponent then start - sofar else start + sofar) (c :: rest)
  | [] =>
    finish positive significand (if negativeExponent then start - sofar else start + sofar) []

def readExponent (positive : Bool) (significand : Nat) (start : Int) (t : Text) :
    Except Stop (Json × Text) :=
  let (negative, t) := match t with
    | '+' :: rest => (false, rest)
    | '-' :: rest => (true, rest)
    | _ => (false, t)
  match t with
  | [] => stop .endInValue t
  | c :: rest =>
    if isDigit c then exponentDigits positive negative significand start (c.toNat - 48) rest
    else stopAhead .invalidNumber t

def afterDigits (positive : Bool) (significand : Nat) (exponent : Int) (t : Text) :
    Except Stop (Json × Text) :=
  match t with
  | c :: rest =>
    if c == 'e' || c == 'E' then readExponent positive significand exponent rest
    else finish positive significand exponent t
  | [] => finish positive significand exponent t

/-- Digits after the point; once the significand would not fit a word, further digits are
dropped. -/
def fractionDigits (positive : Bool) (significand : Nat) (before : Int) (count : Nat) :
    Text → Except Stop (Json × Text)
  | c :: rest =>
    if isDigit c then
      let next := significand * 10 + (c.toNat - 48)
      if next ≤ maxWord then fractionDigits positive next before (count + 1) rest
      else afterDigits positive significand (before - count) (rest.dropWhile isDigit)
    else if count = 0 then stopAhead .invalidNumber (c :: rest)
    else afterDigits positive significand (before - count) (c :: rest)
  | [] =>
    if count = 0 then stopAhead .endInValue []
    else afterDigits positive significand (before - count) []

def longInteger (positive : Bool) (significand : Nat) (exponent : Nat) :
    Text → Except Stop (Json × Text)
  | c :: rest =>
    if isDigit c then longInteger positive significand (exponent + 1) rest
    else if c == '.' then fractionDigits positive significand exponent 0 rest
    else afterDigits positive significand exponent (c :: rest)
  | [] => finish positive significand exponent []

def afterInteger (positive : Bool) (significand : Nat) (t : Text) : Except Stop (Json × Text) :=
  match t with
  | '.' :: rest => fractionDigits positive significand 0 0 rest
  | _ =>
    if (t.head?.map fun c => c == 'e' || c == 'E').getD false then
      readExponent positive significand 0 (t.drop 1)
    else if positive then .ok (int significand, t)
    else if significand = 0 || Nat.pow 2 63 < significand then
      .ok (double (-(UInt64.ofNat significand).toFloat), t)
    else .ok (int (-significand), t)

def integerDigits (positive : Bool) (significand : Nat) : Text → Except Stop (Json × Text)
  | c :: rest =>
    if isDigit c then
      let next := significand * 10 + (c.toNat - 48)
      if next ≤ maxWord then integerDigits positive next rest
      else longInteger positive significand 1 rest
    else afterInteger positive significand (c :: rest)
  | [] => afterInteger positive significand []

def readNumber (positive : Bool) (t : Text) : Except Stop (Json × Text) :=
  match t with
  | [] => stop .endInValue t
  | c :: rest =>
    if c == '0' then
      if startsWithDigit rest then stopAhead .invalidNumber rest
      else afterInteger positive 0 rest
    else if isDigit c then integerDigits positive (c.toNat - 48) rest
    else stopAhead .invalidNumber t

def readIdent (v : Json) : Text → Text → Except Stop (Json × Text)
  | [], t => .ok (v, t)
  | _ :: _, [] => stop .endInValue []
  | e :: es, c :: rest =>
    if e = c then readIdent v es rest
    else .error ⟨.expectedIdent, Text.size rest + (c.utf8Size - 1)⟩

mutual
def value : Nat → Nat → Text → Except Stop (Json × Text)
  | 0, _, t => stopAhead .tooDeep t
  | n + 1, depth, t =>
    let t := skipSpace t
    match t with
    | [] => stopAhead .endInValue t
    | c :: rest =>
      if c == 'n' then readIdent null "ull" rest
      else if c == 't' then readIdent (bool true) "rue" rest
      else if c == 'f' then readIdent (bool false) "alse" rest
      else if c == '-' then readNumber false rest
      else if isDigit c then readNumber true t
      else if c == '"' then do
        let (s, rest) ← readString rest
        return (string s, rest)
      else if c == '[' then
        match depth with
        | 0 | 1 => stopAhead .tooDeep t
        | depth + 1 => do
          let (vs, rest) ← items n depth true [] rest
          return (array vs, rest)
      else if c == '{' then
        match depth with
        | 0 | 1 => stopAhead .tooDeep t
        | depth + 1 => do
          let (ms, rest) ← members n depth true [] rest
          return (object ms, rest)
      else stopAhead .expectedValue t
def items : Nat → Nat → Bool → List Json → Text → Except Stop (List Json × Text)
  | 0, _, _, _, t => stopAhead .tooDeep t
  | n + 1, depth, first, sofar, t =>
    let t := skipSpace t
    match t with
    | [] => stopAhead .endInList t
    | c :: rest =>
      if c == ']' then .ok (sofar, rest)
      else if first then do
        let (v, rest) ← value n depth t
        items n depth false (sofar ++ [v]) rest
      else if c == ',' then
        let rest := skipSpace rest
        match rest with
        | [] => stopAhead .endInValue rest
        | d :: _ =>
          if d == ']' then stopAhead .trailingComma rest
          else do
            let (v, rest) ← value n depth rest
            items n depth false (sofar ++ [v]) rest
      else stopAhead .expectedListEnd t
def members : Nat → Nat → Bool → Entries Text Json → Text → Except Stop (Entries Text Json × Text)
  | 0, _, _, _, t => stopAhead .tooDeep t
  | n + 1, depth, first, sofar, t =>
    let t := skipSpace t
    match t with
    | [] => stopAhead .endInObject t
    | c :: rest =>
      if c == '}' then .ok (sofar, rest)
      else if first then
        if c == '"' then member n depth sofar rest else stopAhead .keyNotString t
      else if c == ',' then
        let rest := skipSpace rest
        match rest with
        | [] => stopAhead .endInValue rest
        | d :: rest' =>
          if d == '"' then member n depth sofar rest'
          else if d == '}' then stopAhead .trailingComma rest
          else stopAhead .keyNotString rest
      else stopAhead .expectedObjectEnd t
def member : Nat → Nat → Entries Text Json → Text → Except Stop (Entries Text Json × Text)
  | 0, _, _, t => stopAhead .tooDeep t
  | n + 1, depth, sofar, t => do
    let (k, t) ← readString t
    let t := skipSpace t
    match t with
    | [] => stopAhead .endInObject t
    | c :: rest =>
      if c == ':' then
        let (v, rest) ← value n depth rest
        members n depth false (sofar.put k v) rest
      else stopAhead .expectedColon t
end

structure Fault where
  complaint : Complaint
  line : Nat
  column : Nat
  deriving DecidableEq, Repr

def Fault.message (f : Fault) : Text :=
  f.complaint.message ++ (" at line " : Text) ++ Text.ofNat f.line ++ (" column " : Text) ++
    Text.ofNat f.column

def Stop.fault (s : Stop) (t : Text) : Fault :=
  let (line, column) := t.place (t.size - s.left)
  ⟨s.complaint, line, column⟩

/-- Nested arrays and objects that are refused, counted with the outermost. -/
def depthLimit : Nat := 128

def readWith (limit : Nat) (t : Text) : Except Fault Json :=
  let whole : Except Stop Json := do
    let (v, rest) ← value (4 * t.length + 4) limit t
    let rest := skipSpace rest
    if rest.isEmpty then return v else stopAhead .trailingCharacters rest
  whole.mapError (Stop.fault · t)

def read (t : Text) : Except Fault Json := readWith depthLimit t

end RequireInjection.Json
