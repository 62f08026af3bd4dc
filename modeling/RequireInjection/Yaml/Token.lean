import RequireInjection.Yaml.ScalarForm

/-!
Tokens of a document. A key that is written without a mark of its own is known as a key only at the
colon after it; until then the tokens from it on are held back, since the token that announces the
key has to come before them.
-/
namespace RequireInjection.Yaml

inductive TokenKind where
  | streamStart | streamEnd
  | versionDirective (major minor : Nat)
  | tagDirective (handle expansion : Text)
  | documentStart | documentEnd
  | blockSequenceStart | blockMappingStart | blockEnd
  | flowSequenceStart | flowSequenceEnd | flowMappingStart | flowMappingEnd
  | blockEntry | flowEntry | key | value
  | aliasTo (name : Text) | anchor (name : Text)
  | tag (handle suffix : Text)
  | scalar (value : Text) (plain : Bool)
  deriving DecidableEq, Repr

structure Token where
  kind : TokenKind
  start : Mark
  stop : Mark
  deriving Repr

structure KeyCandidate where
  required : Bool
  place : Nat
  mark : Mark
  deriving Repr

structure Scanner where
  input : Input
  queue : List Token := []
  taken : Nat := 0
  started : Bool := false
  flowLevel : Nat := 0
  indent : Int := -1
  /-- Indents of the enclosing block collections, innermost first. -/
  indents : List Int := []
  keyAllowed : Bool := false
  /-- The candidate of each flow level, innermost first. -/
  candidates : List (Option KeyCandidate) := []
  deriving Repr

namespace Scanner

def inFlow (s : Scanner) : Bool := s.flowLevel != 0

def mark (s : Scanner) : Mark := s.input.mark

def push (s : Scanner) (kind : TokenKind) (start : Mark) (input : Input) : Scanner :=
  { s with queue := s.queue ++ [⟨kind, start, input.mark⟩], input }

def pushChars (s : Scanner) (kind : TokenKind) (count : Nat) : Scanner :=
  s.push kind s.mark (Input.skipMany count s.input)

def insertAt (s : Scanner) (place : Nat) (token : Token) : Scanner :=
  let n := place - s.taken
  { s with queue := s.queue.take n ++ token :: s.queue.drop n }

def unroll (s : Scanner) (column : Int) : Scanner :=
  if s.inFlow then s
  else
    let rec close (indent : Int) (indents : List Int) (s : Scanner) : Scanner :=
      if indent ≤ column then { s with indent, indents }
      else
        let s := { s with queue := s.queue ++ [⟨.blockEnd, s.mark, s.mark⟩] }
        match indents with
        | [] => { s with indent := -1, indents := [] }
        | i :: rest => close i rest s
    close s.indent s.indents s

def roll (s : Scanner) (column : Nat) (place : Option Nat) (kind : TokenKind) (mark : Mark) :
    Scanner :=
  if s.inFlow || (column : Int) ≤ s.indent then s
  else
    let s := { s with indents := s.indent :: s.indents, indent := column }
    s.insertAt (place.getD (s.taken + s.queue.length)) ⟨kind, mark, mark⟩

def dropCandidate (s : Scanner) : Option Scanner :=
  match s.candidates with
  | some c :: rest => if c.required then none else some { s with candidates := none :: rest }
  | _ => some s

def saveCandidate (s : Scanner) : Option Scanner :=
  if s.keyAllowed then do
    let s ← s.dropCandidate
    let c : KeyCandidate := {
      required := !s.inFlow && s.indent == (s.mark.column : Int)
      place := s.taken + s.queue.length
      mark := s.mark }
    return { s with candidates := some c :: s.candidates.drop 1 }
  else some s

/-- Gives up candidates that lie on an earlier line or more than 1024 characters back. -/
def dropStale (s : Scanner) : Option Scanner := do
  let isStale (c : KeyCandidate) : Bool :=
    c.mark.line < s.mark.line || c.mark.index + 1024 < s.mark.index
  if s.candidates.any fun c => (c.map fun c => isStale c && c.required).getD false then none
  else some { s with candidates := s.candidates.map fun c => c.filter fun c => !isStale c }

def toNextToken : Nat → Scanner → Scanner
  | 0, s => s
  | n + 1, s =>
    let i := s.input
    let i := if i.mark.column == 0 && i.test 0 (fun c => c.toNat == 0xFEFF) then i.skip else i
    let i := i.skipWhile fun c => isSpace c || ((s.inFlow || !s.keyAllowed) && isTab c)
    let i := i.skipComment
    if i.test 0 isBreak then
      toNextToken n { s with input := i.skipBreak, keyAllowed := s.keyAllowed || !s.inFlow }
    else { s with input := i }

def fetchStreamEnd (s : Scanner) : Option Scanner := do
  let m := s.mark
  let s := if m.column == 0 then s
    else { s with input := { s.input with mark := ⟨m.index, m.line + 1, 0⟩ } }
  let s ← (s.unroll (-1)).dropCandidate
  return { s with keyAllowed := false }.pushChars .streamEnd 0

def fetchDocumentMark (s : Scanner) (kind : TokenKind) : Option Scanner := do
  let s ← (s.unroll (-1)).dropCandidate
  return { s with keyAllowed := false }.pushChars kind 3

def fetchFlowStart (s : Scanner) (kind : TokenKind) : Option Scanner := do
  let s ← s.saveCandidate
  return { s with candidates := none :: s.candidates, flowLevel := s.flowLevel + 1,
                  keyAllowed := true }.pushChars kind 1

def fetchFlowEnd (s : Scanner) (kind : TokenKind) : Option Scanner := do
  let s ← s.dropCandidate
  let s := if s.inFlow then
      { s with flowLevel := s.flowLevel - 1, candidates := s.candidates.drop 1 }
    else s
  return { s with keyAllowed := false }.pushChars kind 1

def fetchFlowEntry (s : Scanner) : Option Scanner := do
  let s ← s.dropCandidate
  return { s with keyAllowed := true }.pushChars .flowEntry 1

def fetchBlockEntry (s : Scanner) : Option Scanner := do
  let s ←
    if s.inFlow then some s
    else if s.keyAllowed then some (s.roll s.mark.column none .blockSequenceStart s.mark)
    else none
  let s ← s.dropCandidate
  return { s with keyAllowed := true }.pushChars .blockEntry 1

def fetchKey (s : Scanner) : Option Scanner := do
  let s ←
    if s.inFlow then some s
    else if s.keyAllowed then some (s.roll s.mark.column none .blockMappingStart s.mark)
    else none
  let s ← s.dropCandidate
  return { s with keyAllowed := !s.inFlow }.pushChars .key 1

def fetchValue (s : Scanner) : Option Scanner :=
  match s.candidates with
  | some c :: rest =>
    let s := s.insertAt c.place ⟨.key, c.mark, c.mark⟩
    let s := s.roll c.mark.column (some c.place) .blockMappingStart c.mark
    some ({ s with candidates := none :: rest, keyAllowed := false }.pushChars .value 1)
  | _ =>
    if s.inFlow then some ({ s with keyAllowed := false }.pushChars .value 1)
    else if s.keyAllowed then
      let s := s.roll s.mark.column none .blockMappingStart s.mark
      some ({ s with keyAllowed := true }.pushChars .value 1)
    else none

def fetchName (s : Scanner) (kind : Text → TokenKind) : Option Scanner := do
  let s ← s.saveCandidate
  let start := s.mark
  let (name, i) := s.input.skip.takeWhile isNameChar
  let ends := i.blankOrEnd 0 || i.test 0 fun c => "?:,]\x7d%@`".toList.contains c
  if name.isEmpty || !ends then none
  else some ({ s with keyAllowed := false }.push (kind name) start i)

/-- The bytes of an escaped character in a tag, and how many there must be. -/
def uriEscape (i : Input) : Option (Char × Input) := do
  let byte (i : Input) : Option Nat :=
    if i.sees '%' then hexNumber? i.skip.rest 2 else none
  let a ← byte i
  let count ←
    if a < 0x80 then some 1
    else if a / 32 == 6 then some 2
    else if a / 16 == 14 then some 3
    else if a / 8 == 30 then some 4
    else none
  let low : Nat := if count = 1 then a else if count = 2 then a % 32 else if count = 3 then a % 16
    else a % 8
  let rec more : Nat → Nat → Input → Option (Nat × Input)
    | 0, n, i => some (n, i)
    | k + 1, n, i => do
      let b ← byte i
      if b / 64 == 2 then more k (n * 64 + b % 64) (Input.skipMany 3 i) else none
  let (n, i) ← more (count - 1) low (Input.skipMany 3 i)
  return (Char.ofNat n, i)

def uriTail (verbatim : Bool) : Nat → Input → Option (Text × Input)
  | 0, i => some ([], i)
  | n + 1, i =>
    match i.rest with
    | [] => some ([], i)
    | c :: _ =>
      if c == '%' then do
        let (d, i) ← uriEscape i
        let (t, i) ← uriTail verbatim n i
        return (d :: t, i)
      else if isNameChar c || ";/?:@&=+$.!~*'()".toList.contains c ||
          (verbatim && ",[]".toList.contains c) then
        (uriTail verbatim n i.skip).map fun (t, i) => (c :: t, i)
      else some ([], i)

def readUri (verbatim : Bool) (i : Input) : Option (Text × Input) :=
  uriTail verbatim i.rest.length i

def readHandle (i : Input) : Text × Input :=
  let (name, i) := i.skip.takeWhile isNameChar
  if i.sees '!' then ('!' :: name ++ ['!'], i.skip) else ('!' :: name, i)

def readTag (i : Input) : Option (Text × Text × Input) :=
  if i.test 1 (· == '<') then do
    let (suffix, i) ← readUri true i.skip.skip
    if suffix.isEmpty || !i.sees '>' then none else some ([], suffix, i.skip)
  else
    let (handle, i) := readHandle i
    if 2 ≤ handle.length && handle.getLast? == some '!' then do
      let (suffix, i) ← readUri false i
      if suffix.isEmpty then none else some (handle, suffix, i)
    else do
      let (rest, i) ← readUri false i
      let suffix := handle.drop 1 ++ rest
      if suffix.isEmpty then some ([], ['!'], i) else some (['!'], suffix, i)

def fetchTag (s : Scanner) : Option Scanner := do
  let s ← s.saveCandidate
  let start := s.mark
  let (handle, suffix, i) ← readTag s.input
  if i.blankOrEnd 0 || (s.inFlow && i.sees ',') then
    some ({ s with keyAllowed := false }.push (.tag handle suffix) start i)
  else none

def fetchBlockScalar (s : Scanner) (literal : Bool) : Option Scanner := do
  let s ← s.dropCandidate
  let (value, i) ← readBlock literal s.indent s.input
  some ({ s with keyAllowed := true }.push (.scalar value false) s.mark i)

def fetchQuoted (s : Scanner) (single : Bool) : Option Scanner := do
  let s ← s.saveCandidate
  let (value, i) ← readQuoted single s.input
  some ({ s with keyAllowed := false }.push (.scalar value false) s.mark i)

def fetchPlain (s : Scanner) : Option Scanner := do
  let s ← s.saveCandidate
  let (value, ended, i) ← readPlain s.inFlow (s.indent + 1).toNat s.input
  some ({ s with keyAllowed := ended }.push (.scalar value true) s.mark i)

def readVersion (i : Input) : Option (Nat × Nat × Input) := do
  let number (i : Input) : Option (Nat × Input) :=
    let (digits, i) := i.takeWhile isDigit
    if digits.isEmpty || 9 < digits.length then none
    else some (digits.foldl (fun n c => 10 * n + (c.toNat - 48)) 0, i)
  let (major, i) ← number (i.skipWhile isBlank)
  if !i.sees '.' then none
  let (minor, i) ← number i.skip
  return (major, minor, i)

def readTagDirective (i : Input) : Option (Text × Text × Input) := do
  let i := i.skipWhile isBlank
  if !i.sees '!' then none
  let (handle, i) := readHandle i
  if handle.getLast? != some '!' || !i.test 0 isBlank then none
  let (expansion, i) ← readUri true (i.skipWhile isBlank)
  if expansion.isEmpty || !i.blankOrEnd 0 then none
  return (handle, expansion, i)

def fetchDirective (s : Scanner) : Option Scanner := do
  let s ← (s.unroll (-1)).dropCandidate
  let start := s.mark
  let (name, i) := s.input.skip.takeWhile isNameChar
  if !i.blankOrEnd 0 then none
  let (kind, i) ←
    if name == "YAML".toList then
      (readVersion i).map fun (major, minor, i) => (TokenKind.versionDirective major minor, i)
    else if name == "TAG".toList then
      (readTagDirective i).map fun (handle, expansion, i) =>
        (TokenKind.tagDirective handle expansion, i)
    else none
  let s := { s with keyAllowed := false }.push kind start i
  let i := (i.skipWhile isBlank).skipComment
  if !i.breakOrEnd then none
  return { s with input := i.skipBreak }

/-- Characters that begin no plain scalar, unless more than a blank follows the first three. -/
def isIndicator (c : Char) : Bool := "-?:,[]\x7b\x7d#&*!|>'\"%@`".toList.contains c

def fetch (s : Scanner) : Option Scanner :=
  if !s.started then
    some ({ s with started := true, keyAllowed := true, candidates := [none] }.pushChars
      .streamStart 0)
  else do
    let s ← (toNextToken (s.input.rest.length + 1) s).dropStale
    let s := s.unroll s.mark.column
    let i := s.input
    match i.rest with
    | [] => s.fetchStreamEnd
    | c :: _ =>
      if i.mark.column == 0 && c == '%' then s.fetchDirective
      else if i.seesDocumentMark '-' then s.fetchDocumentMark .documentStart
      else if i.seesDocumentMark '.' then s.fetchDocumentMark .documentEnd
      else if c == '[' then s.fetchFlowStart .flowSequenceStart
      else if c == '{' then s.fetchFlowStart .flowMappingStart
      else if c == ']' then s.fetchFlowEnd .flowSequenceEnd
      else if c == '}' then s.fetchFlowEnd .flowMappingEnd
      else if c == ',' then s.fetchFlowEntry
      else if c == '-' && i.blankOrEnd 1 then s.fetchBlockEntry
      else if c == '?' && (s.inFlow || i.blankOrEnd 1) then s.fetchKey
      else if c == ':' && (s.inFlow || i.blankOrEnd 1) then s.fetchValue
      else if c == '*' then s.fetchName .aliasTo
      else if c == '&' then s.fetchName .anchor
      else if c == '!' then s.fetchTag
      else if c == '|' && !s.inFlow then s.fetchBlockScalar true
      else if c == '>' && !s.inFlow then s.fetchBlockScalar false
      else if c == '\'' then s.fetchQuoted true
      else if c == '"' then s.fetchQuoted false
      else if !(isIndicator c || isBlank c) || (c == '-' && !i.test 1 isBlank) ||
          (!s.inFlow && (c == '?' || c == ':') && !i.blankOrEnd 1) then s.fetchPlain
      else none

def ready : Nat → Scanner → Option Scanner
  | 0, _ => none
  | n + 1, s =>
    if s.queue.isEmpty then s.fetch.bind (ready n)
    else do
      let s ← s.dropStale
      let waits := s.candidates.any fun c => (c.map fun c => c.place == s.taken).getD false
      if waits then s.fetch.bind (ready n) else return s

def ofText (t : Text) : Scanner := { input := Input.ofText t }

def remaining : Nat → Scanner → List Token
  | 0, _ => []
  | n + 1, s =>
    match s.ready (s.input.rest.length + 3) with
    | none => []
    | some s =>
      match s.queue with
      | [] => []
      | token :: queue =>
        if token.kind = .streamEnd then [token]
        else token :: remaining n { s with queue, taken := s.taken + 1 }

end Scanner

/-- The tokens of a text: none if it holds a character that may not stand in one. The last is the
end of the stream unless the text breaks a rule; no character gives rise to more than five. -/
def tokens (t : Text) : List Token :=
  if t.all isPrintable then (Scanner.ofText t).remaining (5 * t.length + 8) else []

end RequireInjection.Yaml
