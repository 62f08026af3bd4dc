import RequireInjection.Text

namespace RequireInjection.Yaml

structure Mark where
  index : Nat
  line : Nat
  column : Nat
  deriving DecidableEq, Repr

structure Input where
  rest : Text
  mark : Mark
  deriving Repr

def isPrintable (c : Char) : Bool :=
  let n := c.toNat
  n == 0x09 || n == 0x0A || n == 0x0D || (0x20 ≤ n && n ≤ 0x7E) || n == 0x85 ||
    (0xA0 ≤ n && n ≤ 0xD7FF) || (0xE000 ≤ n && n ≤ 0xFFFD) || 0x10000 ≤ n

def isSpace (c : Char) : Bool := c == ' '

def isTab (c : Char) : Bool := c == '\t'

def isBlank (c : Char) : Bool := isSpace c || isTab c

def isBreak (c : Char) : Bool :=
  c == '\n' || c == '\r' || c.toNat == 0x85 || c.toNat == 0x2028 || c.toNat == 0x2029

def isDigit (c : Char) : Bool := '0' ≤ c && c ≤ '9'

def isNameChar (c : Char) : Bool :=
  isDigit c || ('a' ≤ c && c ≤ 'z') || ('A' ≤ c && c ≤ 'Z') || c == '_' || c == '-'

namespace Input

def ofText (t : Text) : Input := ⟨t, ⟨0, 0, 0⟩⟩

def atEnd (i : Input) : Bool := i.rest.isEmpty

def test (i : Input) (distance : Nat) (p : Char → Bool) : Bool :=
  match i.rest[distance]? with
  | some c => p c
  | none => false

def sees (i : Input) (c : Char) : Bool := i.test 0 (· == c)

def blankOrEnd (i : Input) (distance : Nat) : Bool :=
  match i.rest[distance]? with
  | some c => isBlank c || isBreak c
  | none => true

def breakOrEnd (i : Input) : Bool :=
  match i.rest with
  | [] => true
  | c :: _ => isBreak c

def skip (i : Input) : Input :=
  match i.rest with
  | [] => i
  | _ :: cs => ⟨cs, ⟨i.mark.index + 1, i.mark.line, i.mark.column + 1⟩⟩

def skipMany : Nat → Input → Input
  | 0, i => i
  | n + 1, i => skipMany n i.skip

def readBreak (i : Input) : Text × Input :=
  let next (n : Nat) (cs : Text) : Input := ⟨cs, ⟨i.mark.index + n, i.mark.line + 1, 0⟩⟩
  match i.rest with
  | '\r' :: '\n' :: cs => (['\n'], next 2 cs)
  | c :: cs =>
    if c == '\n' || c == '\r' || c.toNat == 0x85 then (['\n'], next 1 cs)
    else if isBreak c then ([c], next 1 cs)
    else ([], i)
  | [] => ([], i)

def skipBreak (i : Input) : Input := i.readBreak.2

def takeWhile (i : Input) (p : Char → Bool) : Text × Input :=
  let taken := i.rest.takeWhile p
  (taken, skipMany taken.length i)

def skipWhile (i : Input) (p : Char → Bool) : Input := (i.takeWhile p).2

def skipComment (i : Input) : Input := if i.sees '#' then i.skipWhile (!isBreak ·) else i

def seesDocumentMark (i : Input) (c : Char) : Bool :=
  i.mark.column == 0 && i.test 0 (· == c) && i.test 1 (· == c) && i.test 2 (· == c) &&
    i.blankOrEnd 3

def seesAnyDocumentMark (i : Input) : Bool := i.seesDocumentMark '-' || i.seesDocumentMark '.'

end Input
end RequireInjection.Yaml
