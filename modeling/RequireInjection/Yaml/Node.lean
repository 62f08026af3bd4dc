import RequireInjection.Yaml.Token
import RequireInjection.Entries

namespace RequireInjection.Yaml

inductive Node where
  | missing
  | aliasTo (start : Mark) (target : Nat)
  | scalar (start : Mark) (anchor : Option Nat) (tag : Option Text) (value : Text) (plain : Bool)
  | sequence (start : Mark) (anchor : Option Nat) (tag : Option Text) (items : List Node)
  | mapping (start : Mark) (anchor : Option Nat) (tag : Option Text) (entries : List (Node × Node))

namespace Node

def nothing (start : Mark) : Node := scalar start none none [] true

def start : Node → Mark
  | missing => ⟨0, 0, 0⟩
  | aliasTo m _ | scalar m _ _ _ _ | sequence m _ _ _ | mapping m _ _ _ => m

def anchor : Node → Option Nat
  | scalar _ a _ _ _ | sequence _ a _ _ | mapping _ a _ _ => a
  | _ => none

mutual
def preorder : Node → List Node
  | missing => [missing]
  | aliasTo m k => [aliasTo m k]
  | scalar m a t v p => [scalar m a t v p]
  | sequence m a t items => sequence m a t items :: preorderItems items
  | mapping m a t entries => mapping m a t entries :: preorderEntries entries
def preorderItems : List Node → List Node
  | [] => []
  | n :: ns => preorder n ++ preorderItems ns
def preorderEntries : List (Node × Node) → List Node
  | [] => []
  | (k, v) :: es => preorder k ++ (preorder v ++ preorderEntries es)
end

/-- Marks in the text that a node takes, without those of its parts: two for a collection and one
for any other. -/
def marks : Node → Nat
  | sequence .. | mapping .. => 2
  | missing => 0
  | _ => 1

def extent (n : Node) : Nat := n.preorder.foldl (fun count m => count + m.marks) 0

def target? (root : Node) (k : Nat) : Option Node :=
  (root.preorder.filter fun n => n.anchor == some k).getLast?

end Node

/-- What may stand at a place: collections in brackets only, any node, or also a sequence whose
entries are indented no deeper than the key before them. -/
inductive Slot where
  | flow | block | blockEntry
  deriving DecidableEq, Repr

/-- What is left to read, and the names known so far. Nothing is left where a rule was broken. -/
structure Reading where
  tokens : List Token
  handles : Entries Text Text
  /-- Numbers of anchors; a new one is the number of names before it. -/
  anchors : Entries Text Nat := []

namespace Reading

def next? (r : Reading) : Option TokenKind := r.tokens.head?.map Token.kind

def skip (r : Reading) : Reading := { r with tokens := r.tokens.drop 1 }

def broken (r : Reading) : Reading := { r with tokens := [] }

def missing (r : Reading) : Node × Reading := (.missing, r.broken)

def enter (r : Reading) (name : Option Text) : Option Nat × Reading :=
  match name with
  | none => (none, r)
  | some name =>
    let k := r.anchors.length
    (some k, { r with anchors := r.anchors.put name k })

structure Properties where
  start : Mark
  anchor : Option Text := none
  tag : Option (Text × Text) := none

def properties (t : Token) (r : Reading) : Properties × Reading :=
  let anchorNext (p : Properties) (r : Reading) : Properties × Reading :=
    match r.next? with
    | some (.anchor name) => ({ p with anchor := some name }, r.skip)
    | _ => (p, r)
  let tagNext (p : Properties) (r : Reading) : Properties × Reading :=
    match r.next? with
    | some (.tag handle suffix) => ({ p with tag := some (handle, suffix) }, r.skip)
    | _ => (p, r)
  match t.kind with
  | .anchor name => tagNext { start := t.start, anchor := some name } r.skip
  | .tag handle suffix => anchorNext { start := t.start, tag := some (handle, suffix) } r.skip
  | _ => ({ start := t.start }, r)

def fullTag (r : Reading) : Option (Text × Text) → Option (Option Text)
  | none => some none
  | some ([], suffix) => some (some suffix)
  | some (handle, suffix) => (r.handles.get? handle).map fun expansion => some (expansion ++ suffix)

def isIn (kinds : List TokenKind) (r : Reading) : Bool :=
  match r.next? with
  | some k => kinds.contains k
  | none => false

def nothingHere (r : Reading) : Node × Reading :=
  match r.tokens with
  | [] => r.missing
  | t :: _ => (.nothing t.start, r)

mutual
def node : Nat → Slot → Reading → Node × Reading
  | 0, _, r => r.missing
  | n + 1, slot, r =>
    match r.tokens with
    | [] => r.missing
    | ⟨.aliasTo name, start, _⟩ :: _ =>
      match r.anchors.get? name with
      | some k => (.aliasTo start k, r.skip)
      | none => r.missing
    | t :: _ =>
      let (p, r) := r.properties t
      match r.fullTag p.tag, r.next? with
      | none, _ => r.missing
      | _, none => r.missing
      | some tag, some kind =>
        let (anchor, entered) := r.enter p.anchor
        match kind, slot with
        | .blockEntry, .blockEntry =>
          let (items, r) := dashedItems n entered
          (.sequence p.start anchor tag items, r)
        | .scalar value plain, _ => (.scalar p.start anchor tag value plain, entered.skip)
        | .flowSequenceStart, _ =>
          let (items, r) := flowItems n true entered.skip
          (.sequence p.start anchor tag items, r)
        | .flowMappingStart, _ =>
          let (entries, r) := flowEntries n true entered.skip
          (.mapping p.start anchor tag entries, r)
        | .blockSequenceStart, .block | .blockSequenceStart, .blockEntry =>
          let (items, r) := blockItems n entered.skip
          (.sequence p.start anchor tag items, r)
        | .blockMappingStart, .block | .blockMappingStart, .blockEntry =>
          let (entries, r) := blockEntries n entered.skip
          (.mapping p.start anchor tag entries, r)
        | _, _ =>
          if p.anchor.isSome || tag.isSome then (.scalar p.start anchor tag [] true, entered)
          else r.missing

def nodeUnless : Nat → Slot → List TokenKind → Mark → Reading → Node × Reading
  | 0, _, _, _, r => r.missing
  | n + 1, slot, kinds, mark, r => if r.isIn kinds then (.nothing mark, r) else node n slot r

def blockItems : Nat → Reading → List Node × Reading
  | 0, r => ([.missing], r.broken)
  | n + 1, r =>
    match r.tokens with
    | ⟨.blockEntry, _, stop⟩ :: _ =>
      let (item, r) := nodeUnless n .block [.blockEntry, .blockEnd] stop r.skip
      let (items, r) := blockItems n r
      (item :: items, r)
    | ⟨.blockEnd, _, _⟩ :: _ => ([], r.skip)
    | _ => ([.missing], r.broken)

def dashedItems : Nat → Reading → List Node × Reading
  | 0, r => ([.missing], r.broken)
  | n + 1, r =>
    match r.tokens with
    | ⟨.blockEntry, _, stop⟩ :: _ =>
      let (item, r) := nodeUnless n .block [.blockEntry, .key, .value, .blockEnd] stop r.skip
      let (items, r) := dashedItems n r
      (item :: items, r)
    | [] => ([.missing], r)
    | _ => ([], r)

def blockEntries : Nat → Reading → List (Node × Node) × Reading
  | 0, r => ([(.missing, .missing)], r.broken)
  | n + 1, r =>
    match r.tokens with
    | ⟨.key, _, stop⟩ :: _ =>
      let ends := [TokenKind.key, .value, .blockEnd]
      let (key, r) := nodeUnless n .blockEntry ends stop r.skip
      let (value, r) :=
        match r.tokens with
        | ⟨.value, _, stop⟩ :: _ => nodeUnless n .blockEntry ends stop r.skip
        | _ => r.nothingHere
      let (entries, r) := blockEntries n r
      ((key, value) :: entries, r)
    | ⟨.blockEnd, _, _⟩ :: _ => ([], r.skip)
    | _ => ([(.missing, .missing)], r.broken)

def flowValue : Nat → TokenKind → Reading → Node × Reading
  | 0, _, r => r.missing
  | n + 1, close, r =>
    if r.next? = some .value then
      if r.skip.isIn [.flowEntry, close] then r.skip.nothingHere else node n .flow r.skip
    else r.nothingHere

/-- Items up to the closing bracket; a key between them makes an entry of its own. -/
def flowItems : Nat → Bool → Reading → List Node × Reading
  | 0, _, r => ([.missing], r.broken)
  | n + 1, first, r =>
    if r.next? = some .flowSequenceEnd then ([], r.skip)
    else if !first && r.next? != some .flowEntry then ([.missing], r.broken)
    else
      let r := if first then r else r.skip
      match r.tokens with
      | [] => ([.missing], r)
      | ⟨.flowSequenceEnd, _, _⟩ :: _ => ([], r.skip)
      | ⟨.key, start, _⟩ :: rest =>
        let r := r.skip
        let (key, r) :=
          match rest with
          | ⟨kind, _, stop⟩ :: _ =>
            if [TokenKind.value, .flowEntry, .flowSequenceEnd].contains kind then
              (.nothing stop, r.skip)
            else node n .flow r
          | [] => r.missing
        let (value, r) := flowValue n .flowSequenceEnd r
        let (items, r) := flowItems n false r
        (.mapping start none none [(key, value)] :: items, r)
      | _ =>
        let (item, r) := node n .flow r
        let (items, r) := flowItems n false r
        (item :: items, r)

def flowEntries : Nat → Bool → Reading → List (Node × Node) × Reading
  | 0, _, r => ([(.missing, .missing)], r.broken)
  | n + 1, first, r =>
    if r.next? = some .flowMappingEnd then ([], r.skip)
    else if !first && r.next? != some .flowEntry then ([(.missing, .missing)], r.broken)
    else
      let r := if first then r else r.skip
      match r.tokens with
      | [] => ([(.missing, .missing)], r)
      | ⟨.flowMappingEnd, _, _⟩ :: _ => ([], r.skip)
      | ⟨.key, _, _⟩ :: _ =>
        let r := r.skip
        let (key, r) :=
          if r.isIn [.value, .flowEntry, .flowMappingEnd] then r.nothingHere else node n .flow r
        let (value, r) := flowValue n .flowMappingEnd r
        let (entries, r) := flowEntries n false r
        ((key, value) :: entries, r)
      | _ =>
        let (key, r) := node n .flow r
        let (value, r) := r.nothingHere
        let (entries, r) := flowEntries n false r
        ((key, value) :: entries, r)
end

end Reading

structure Document where
  root : Option Node
  sound : Bool

namespace Document

def directives : List Token → Entries Text Text → Bool → Option (Entries Text Text × List Token)
  | ⟨.versionDirective major minor, _, _⟩ :: rest, handles, given =>
    if given || major != 1 || (minor != 1 && minor != 2) then none
    else directives rest handles true
  | ⟨.tagDirective handle expansion, _, _⟩ :: rest, handles, given =>
    if (handles.get? handle).isSome then none
    else directives rest (handles ++ [(handle, expansion)]) given
  | rest, handles, _ => some (handles, rest)

def commonHandles : Entries Text Text :=
  [("!".toList, "!".toList), ("!!".toList, "tag:yaml.org,2002:".toList)]

def broken : Document := ⟨some .missing, false⟩

def endsHere (r : Reading) : Bool :=
  (r.tokens.dropWhile fun t => t.kind == .documentEnd).head?.map Token.kind == some .streamEnd

def ofRoot (root : Node × Reading) : Document := ⟨some root.1, endsHere root.2⟩

def ofTokens (tokens : List Token) : Document :=
  let fuel := 4 * tokens.length + 4
  match tokens with
  | [] => broken
  | ⟨.streamEnd, _, _⟩ :: _ => ⟨none, true⟩
  | ⟨.versionDirective _ _, _, _⟩ :: _ | ⟨.tagDirective _ _, _, _⟩ :: _
  | ⟨.documentStart, _, _⟩ :: _ =>
    match directives tokens [] false with
    | some (handles, ⟨.documentStart, _, _⟩ :: rest) =>
      let r : Reading := { tokens := rest, handles := handles ++ commonHandles }
      match r.next? with
      | some (.versionDirective _ _) | some (.tagDirective _ _) | some .documentStart
      | some .documentEnd | some .streamEnd => ofRoot r.nothingHere
      | _ => ofRoot (r.node fuel .block)
    | _ => broken
  | _ => ofRoot (Reading.node fuel .block { tokens, handles := commonHandles })

def ofText (t : Text) : Document :=
  match tokens t with
  | [] => broken
  | _ :: rest => ofTokens rest

end Document
end RequireInjection.Yaml
