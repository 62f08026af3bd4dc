import RequireInjection.Script.Semicolon

/-!
The reader of scripts: a state that holds the trees made so far and the text not yet read, and the
few steps by which it changes. A step either moves characters from the unread text into a leaf or
gathers the latest trees under one node, so in every state the trees and the unread text spell the
source. Grammar rules are written over these steps alone and cannot lose or invent a character.
-/
namespace RequireInjection.Script

/-- Where reading failed: the end of the last token before the place, in bytes. -/
structure Fault where
  offset : Nat
  deriving DecidableEq, Repr

structure Setting where
  endsStatement : Bool := true
  inOperator : Bool := true

structure State (source : Text) where
  /-- Trees made so far, latest first. -/
  made : List Tree
  unread : Text
  offset : Nat
  setting : Setting
  /-- The last token was no operand, so an operand may follow. -/
  afterOperator : Bool
  text_eq : Tree.textOfAll made.reverse ++ unread = source
  solid : Tree.AllSolid made
  trim : Tree.AllTrim made

abbrev Reader (source : Text) := StateT (State source) (Except Fault)

namespace State

variable {source : Text}

def start (source : Text) : State source where
  made := []
  unread := source
  offset := 0
  setting := {}
  afterOperator := true
  text_eq := by simp
  solid := by simp
  trim := by simp

def shift (s : State source) (kind : Kind) (count : Nat) : Option (State source) :=
  if h : s.unread.take count = [] then none
  else some { s with
    made := .leaf kind (s.unread.take count) :: s.made
    unread := s.unread.drop count
    offset := s.offset + Text.size (s.unread.take count)
    text_eq := by
      have := s.text_eq
      simp only [List.reverse_cons, Tree.textOfAll_append, Tree.textOfAll_cons, Tree.text_leaf,
        Tree.textOfAll_nil, List.append_nil, List.append_assoc, List.take_append_drop]
      exact this
    solid := by
      have := s.solid
      simp [h, this]
    trim := by
      have := s.trim
      simp [this] }

theorem allSolid_drop {ts : List Tree} (h : Tree.AllSolid ts) (n : Nat) :
    Tree.AllSolid (ts.drop n) :=
  (Tree.allSolid_iff _).2 fun t m => (Tree.allSolid_iff ts).1 h t (List.mem_of_mem_drop m)

theorem allSolid_take {ts : List Tree} (h : Tree.AllSolid ts) (n : Nat) :
    Tree.AllSolid (ts.take n) :=
  (Tree.allSolid_iff _).2 fun t m => (Tree.allSolid_iff ts).1 h t (List.mem_of_mem_take m)

theorem allSolid_reverse {ts : List Tree} (h : Tree.AllSolid ts) : Tree.AllSolid ts.reverse :=
  (Tree.allSolid_iff _).2 fun t m => (Tree.allSolid_iff ts).1 h t (by simpa using m)

theorem allSolid_append {ts us : List Tree} (h : Tree.AllSolid ts) (k : Tree.AllSolid us) :
    Tree.AllSolid (ts ++ us) :=
  (Tree.allSolid_iff _).2 fun t m => (List.mem_append.1 m).elim
    ((Tree.allSolid_iff ts).1 h t) ((Tree.allSolid_iff us).1 k t)

/-- Gathers all but the first `count` trees under one node, which is no name; blanks and comments
before the first other tree stay outside. -/
def gather (s : State source) (kind : Kind) (count : Nat) : Option (State source) :=
  let keep := s.made.length - count
  let fresh := (s.made.take keep).reverse
  let lead := fresh.takeWhile Tree.isTrivia
  let body := fresh.dropWhile Tree.isTrivia
  if h : kind = .identifier ∨ body = [] then none
  else some { s with
    made := .node kind body :: (lead.reverse ++ s.made.drop keep)
    text_eq := by
      have whole : (s.made.drop keep).reverse ++ (lead ++ body) = s.made.reverse := by
        rw [List.takeWhile_append_dropWhile, ← List.reverse_append, List.take_append_drop]
      have := s.text_eq
      rw [← whole] at this
      simpa [Tree.textOfAll_append, List.append_assoc] using this
    solid := by
      have hfresh : Tree.AllSolid (lead ++ body) := by
        rw [List.takeWhile_append_dropWhile]
        exact allSolid_reverse (allSolid_take s.solid _)
      have hall := (Tree.allSolid_iff _).1 hfresh
      have hbody : Tree.AllSolid body :=
        (Tree.allSolid_iff _).2 fun t m => hall t (List.mem_append_right _ m)
      have hlead : Tree.AllSolid lead :=
        (Tree.allSolid_iff _).2 fun t m => hall t (List.mem_append_left _ m)
      simp only [Tree.allSolid_cons, Tree.solid_node]
      exact ⟨⟨not_or.1 h, hbody⟩, allSolid_append (allSolid_reverse hlead) (allSolid_drop s.solid _)⟩
    trim := by
      have hall := (Tree.allTrim_iff _).1 s.trim
      have hfresh : ∀ t ∈ lead ++ body, t.Trim := by
        intro t m
        rw [List.takeWhile_append_dropWhile, List.mem_reverse] at m
        exact hall t (List.mem_of_mem_take m)
      have hfirst : ∀ c ∈ body.head?, c.isTrivia = false := by
        intro c first
        have stops := List.head?_dropWhile_not Tree.isTrivia fresh
        rw [Option.mem_def.1 first] at stops
        simpa using stops
      simp only [Tree.allTrim_cons, Tree.trim_node]
      refine ⟨⟨hfirst, (Tree.allTrim_iff _).2 fun t m => hfresh t (List.mem_append_right _ m)⟩,
        (Tree.allTrim_iff _).2 fun t m => ?_⟩
      rcases List.mem_append.1 m with m | m
      · exact hfresh t (List.mem_append_left _ (List.mem_reverse.1 m))
      · exact hall t (List.mem_of_mem_drop m) }

def trivia (s : State source) : List (Kind × Nat) := Script.trivia s.afterOperator s.unread

def ahead (s : State source) : Text := skipTrivia s.afterOperator s.unread

def fault (s : State source) : Fault :=
  ⟨s.offset + Text.size (s.unread.take (throughLastComment s.trivia))⟩

end State

namespace Reader

variable {source : Text}

def fail {α : Type} : Reader source α := fun s => .error s.fault

def ahead : Reader source Text := return (← get).ahead

def mark : Reader source Nat := return (← get).made.length

def since (mark : Nat) : Reader source (List Tree) := do
  let s ← get
  return ((s.made.take (s.made.length - mark)).filter fun t => !t.isTrivia).reverse

def latest? : Reader source (Option Tree) :=
  return (← get).made.find? fun t => !t.isTrivia

def shift (kind : Kind) (count : Nat) : Reader source Unit := fun s =>
  match s.shift kind count with
  | none => .error s.fault
  | some s => .ok ((), s)

def passTrivia : Reader source Unit := do
  for (kind, count) in (← get).trivia do
    shift kind count

def take (kind : Kind) (count : Nat) (endsOperand : Bool) : Reader source Unit := do
  if count = 0 then fail
  passTrivia
  shift kind count
  modify fun s => { s with afterOperator := !endsOperand }

def gather (mark : Nat) (kind : Kind) : Reader source Unit := fun s =>
  match s.gather kind mark with
  | none => .error s.fault
  | some s => .ok ((), s)

/-- Tries a second reader where the first fails; if both fail, the failure that got further
counts. -/
def orElse {α : Type} (p q : Reader source α) : Reader source α := fun s =>
  match p s with
  | .ok r => .ok r
  | .error e =>
    match q s with
    | .ok r => .ok r
    | .error e' => .error (if e.offset < e'.offset then e' else e)

def within {α : Type} (setting : Setting → Setting) (p : Reader source α) : Reader source α := do
  let before := (← get).setting
  modify fun s => { s with setting := setting before }
  let r ← p
  modify fun s => { s with setting := before }
  return r

def bracketed {α : Type} (p : Reader source α) : Reader source α :=
  within (fun _ => ⟨false, true⟩) p

def block {α : Type} (p : Reader source α) : Reader source α :=
  within (fun _ => ⟨true, true⟩) p

def sees (m : Text) : Reader source Bool := return punctuator (← ahead) == m

def seesWord (w : Text) : Reader source Bool := return wordText (← ahead) == w

def seesText (w : Text) : Reader source Bool := return Text.startsWith (← ahead) w

def expectText (w : Text) (endsOperand : Bool) : Reader source Unit := do
  if ← seesText w then take .punctuation w.length endsOperand else fail

def opening (m : Text) : Reader source Unit := expectText m false

def closing (m : Text) : Reader source Unit := expectText m true

def accept (m : Text) : Reader source Bool := do
  if ← sees m then
    take .punctuation m.length false
    return true
  return false

def acceptWord (w : Text) : Reader source Bool := do
  if ← seesWord w then
    take .punctuation w.length false
    return true
  return false

def expectWord (w : Text) : Reader source Unit := do
  if ← acceptWord w then return () else fail

def anyWord (kind : Kind) : Reader source Unit := do
  take kind (word (← ahead)) true

def mayEndStatement (afterOperand : Bool) : Reader source Bool := do
  let s ← get
  return s.setting.endsStatement && endsHere afterOperand s.unread

/-- Reads the end of a statement: a semicolon, or nothing where a line break or bracket allows. -/
def semicolon (afterOperand : Bool) : Reader source Unit := do
  if endsHere afterOperand (← get).unread then
    modify fun s => { s with afterOperator := true }
  else opening ";"

end Reader

end RequireInjection.Script
