import RequireInjection.Yaml.Input

namespace RequireInjection.Yaml

def fold (first further : Text) : Text :=
  if first = ['\n'] then (if further.isEmpty then [' '] else further) else first ++ further

structure Gap where
  blanks : Text := []
  first : Text := []
  further : Text := []
  broken : Bool := false

def Gap.text (g : Gap) : Text := if g.broken then fold g.first g.further else g.blanks

/-- Passes blanks and line breaks. In a line of its own a tab left of the indent is an error. -/
def readGap (indent : Option Nat) : Nat → Gap → Input → Option (Gap × Input)
  | 0, g, i => some (g, i)
  | n + 1, g, i =>
    match i.rest with
    | [] => some (g, i)
    | c :: _ =>
      if isBlank c then
        if g.broken then
          if isTab c && (indent.map fun k => decide (i.mark.column < k)).getD false then none
          else readGap indent n g i.skip
        else readGap indent n { g with blanks := g.blanks ++ [c] } i.skip
      else if isBreak c then
        let (b, i) := i.readBreak
        if g.broken then readGap indent n { g with further := g.further ++ b } i
        else readGap indent n { g with blanks := [], first := b, broken := true } i
      else some (g, i)

/-- The part of a plain scalar up to a blank or an indicator that ends it. In flow collections a
colon before a bracket or comma is an error. -/
def plainPart (inFlow : Bool) : Nat → Input → Option (Text × Input)
  | 0, i => some ([], i)
  | n + 1, i =>
    match i.rest with
    | [] => some ([], i)
    | c :: _ =>
      if isBlank c || isBreak c then some ([], i)
      else if inFlow && c == ':' && i.test 1 fun d => ",?[]\x7b\x7d".toList.contains d then none
      else if (c == ':' && i.blankOrEnd 1) || (inFlow && ",[]\x7b\x7d".toList.contains c) then
        some ([], i)
      else (plainPart inFlow n i.skip).map fun (t, i) => (c :: t, i)

def plainTail (inFlow : Bool) (indent : Nat) : Nat → Gap → Text → Input →
    Option (Text × Bool × Input)
  | 0, g, value, i => some (value, g.broken, i)
  | n + 1, g, value, i =>
    if i.seesAnyDocumentMark || i.sees '#' then some (value, g.broken, i)
    else do
      let (part, after) ← plainPart inFlow i.rest.length i
      if part.isEmpty then return (value, g.broken, after)
      let value := value ++ g.text ++ part
      if !(after.test 0 fun c => isBlank c || isBreak c) then return (value, false, after)
      let (g, next) ← readGap (some indent) after.rest.length {} after
      if !inFlow && next.mark.column < indent then return (value, g.broken, next)
      plainTail inFlow indent n g value next

def readPlain (inFlow : Bool) (indent : Nat) (i : Input) : Option (Text × Bool × Input) :=
  plainTail inFlow indent (i.rest.length + 1) {} [] i

def hexValue? (c : Char) : Option Nat :=
  if '0' ≤ c && c ≤ '9' then some (c.toNat - 48)
  else if 'a' ≤ c && c ≤ 'f' then some (c.toNat - 87)
  else if 'A' ≤ c && c ≤ 'F' then some (c.toNat - 55)
  else none

def hexNumber? (digits : Text) (count : Nat) : Option Nat :=
  if digits.length < count then none
  else (digits.take count).foldlM (fun n c => (hexValue? c).map (16 * n + ·)) 0

def simpleEscapes : List (Char × Nat) :=
  [('0', 0), ('a', 7), ('b', 8), ('t', 9), ('\t', 9), ('n', 10), ('v', 11), ('f', 12), ('r', 13),
    ('e', 27), (' ', 32), ('"', 34), ('/', 47), ('\\', 92), ('N', 0x85), ('_', 0xA0),
    ('L', 0x2028), ('P', 0x2029)]

def readEscape (i : Input) : Option (Char × Input) :=
  match i.rest with
  | [] => none
  | c :: cs =>
    match simpleEscapes.lookup c with
    | some n => some (Char.ofNat n, i.skip)
    | none =>
      let count := if c == 'x' then 2 else if c == 'u' then 4 else if c == 'U' then 8 else 0
      if count = 0 then none
      else do
        let n ← hexNumber? cs count
        if (0xD800 ≤ n && n ≤ 0xDFFF) || 0x10FFFF < n then none
        else some (Char.ofNat n, Input.skipMany (count + 1) i)

/-- The part of a quoted scalar up to a blank, a line break or the closing quote; the flag says that
an escaped line break ended it. -/
def quotedPart (single : Bool) : Nat → Input → Option (Text × Bool × Input)
  | 0, i => some ([], false, i)
  | n + 1, i =>
    match i.rest with
    | [] => some ([], false, i)
    | c :: _ =>
      let more (d : Char) (i : Input) :=
        (quotedPart single n i).map fun (t, b, i) => (d :: t, b, i)
      if isBlank c || isBreak c then some ([], false, i)
      else if single && c == '\'' && i.test 1 (· == '\'') then more '\'' i.skip.skip
      else if c == (if single then '\'' else '"') then some ([], false, i)
      else if !single && c == '\\' then
        if i.test 1 isBreak then some ([], true, i.skip.skipBreak)
        else do
          let (d, i) ← readEscape i.skip
          more d i
      else more c i.skip

def quotedTail (single : Bool) : Nat → Text → Input → Option (Text × Input)
  | 0, _, _ => none
  | n + 1, value, i =>
    if i.seesAnyDocumentMark || i.atEnd then none
    else do
      let (part, escapedBreak, i) ← quotedPart single i.rest.length i
      let value := value ++ part
      if i.sees (if single then '\'' else '"') then return (value, i.skip)
      let (g, i) ← readGap none i.rest.length { broken := escapedBreak } i
      quotedTail single n (value ++ g.text) i

def readQuoted (single : Bool) (i : Input) : Option (Text × Input) :=
  quotedTail single (i.rest.length + 1) [] i.skip

inductive Chomping where
  | strip | clip | keep
  deriving DecidableEq, Repr

/-- Passes indentation and empty lines of a block scalar whose indent may not be known yet, and
keeps the largest column seen. -/
def blockBreaks (indent : Option Nat) : Nat → Nat → Text → Input → Option (Nat × Text × Input)
  | 0, widest, breaks, i => some (widest, breaks, i)
  | n + 1, widest, breaks, i =>
    match i.rest with
    | [] => some (max widest i.mark.column, breaks, i)
    | c :: _ =>
      let inside := (indent.map fun k => decide (i.mark.column < k)).getD true
      if inside && isSpace c then blockBreaks indent n widest breaks i.skip
      else
        let widest := max widest i.mark.column
        if inside && isTab c then none
        else if isBreak c then
          let (b, i) := i.readBreak
          blockBreaks indent n widest (breaks ++ b) i
        else some (widest, breaks, i)

/-- The lines of a block scalar: its text so far, the break that ended the last line, and the empty
lines after it. -/
def blockLines (literal : Bool) (indent : Nat) : Nat → Text → Text → Text → Bool → Input →
    Option (Text × Text × Text × Input)
  | 0, _, _, _, _, _ => none
  | n + 1, value, lastBreak, breaks, lastBlank, i =>
    if i.mark.column != indent || i.atEnd then some (value, lastBreak, breaks, i)
    else
      let blank := i.test 0 isBlank
      let joint :=
        if !literal && lastBreak == ['\n'] && !lastBlank && !blank then
          (if breaks.isEmpty then [' '] else [])
        else lastBreak
      let (line, i) := i.takeWhile (!isBreak ·)
      let (b, i) := i.readBreak
      match blockBreaks (some indent) (i.rest.length + 1) 0 [] i with
      | none => none
      | some (_, next, i) =>
        blockLines literal indent n (value ++ joint ++ breaks ++ line) b next blank i

def blockHeader (i : Input) : Option (Chomping × Nat × Input) :=
  let chomping? (i : Input) : Option Chomping :=
    if i.sees '+' then some .keep else if i.sees '-' then some .strip else none
  let digit? (i : Input) : Option (Option Nat) :=
    match i.rest with
    | c :: _ =>
      if c == '0' then none else if isDigit c then some (some (c.toNat - 48)) else some none
    | [] => some none
  match chomping? i with
  | some ch =>
    match digit? i.skip with
    | none => none
    | some none => some (ch, 0, i.skip)
    | some (some d) => some (ch, d, i.skip.skip)
  | none =>
    match digit? i with
    | none => none
    | some none => some (.clip, 0, i)
    | some (some d) =>
      match chomping? i.skip with
      | some ch => some (ch, d, i.skip.skip)
      | none => some (.clip, d, i.skip)

def readBlock (literal : Bool) (parent : Int) (i : Input) : Option (Text × Input) := do
  let (chomping, increment, i) ← blockHeader i.skip
  let i := (i.skipWhile isBlank).skipComment
  if !i.breakOrEnd then none
  let i := i.skipBreak
  let given : Option Nat :=
    if increment = 0 then none
    else some (if 0 ≤ parent then parent.toNat + increment else increment)
  let (widest, breaks, i) ← blockBreaks given (i.rest.length + 1) 0 [] i
  let indent := given.getD (max widest (max (parent + 1).toNat 1))
  let (value, lastBreak, breaks, i) ←
    blockLines literal indent (i.rest.length + 1) [] [] breaks false i
  let value := if chomping = .strip then value else value ++ lastBreak
  return (if chomping = .keep then value ++ breaks else value, i)

end RequireInjection.Yaml
