import RequireInjection.Script.Grammar.Element
import RequireInjection.Script.Grammar.Statement

/-!
Reading a script as a whole. The grammar is closed by letting every rule read its parts by the same
rules one step further down; a step limit that no script exhausts keeps this finite. What is read
without fault is a syntax tree that spells the script character for character.
-/
namespace RequireInjection.Script

open Grammar Reader

variable {source : Text}

def rule (go : Go source) : Goal → Reader source Unit
  | .statements inSwitch => Grammar.statements go inSwitch
  | .statement => Grammar.statement go
  | .block => Grammar.block go
  | .declarators => Grammar.declarators go
  | .switchCases => Grammar.switchCases go
  | .expressions => Grammar.expressions go
  | .expression => Grammar.expression go
  | .moreExpressions => Grammar.moreExpressions go
  | .operand => Grammar.operand go
  | .primary => Grammar.primary go
  | .binaryTail m least => Grammar.binaryTail go m least
  | .chain m onlyMembers => Grammar.chain go m onlyMembers
  | .newExpression => Grammar.newExpression go
  | .items => Grammar.items go
  | .members => Grammar.members go
  | .classMembers => Grammar.classMembers go
  | .decorators => Grammar.decorators go
  | .templateParts => Grammar.templateParts go
  | .elementNames m => Grammar.elementNames go m
  | .element => Grammar.element go
  | .attributes => Grammar.attributes go
  | .children => Grammar.children go

def derive : Nat → Go source
  | 0, _ => fail
  | n + 1, goal => rule (derive n) goal

def script (steps : Nat) : Reader source Unit := do
  passTrivia
  let t := (← get).unread
  if Text.startsWith t "#!" then
    shift .hashBang (countWhile (fun c => c != '\n' && c.toNat != 0) t)
  derive steps (.statements false)
  passTrivia
  unless (← get).unread == [] do fail

/-- Rules that pass on to others without reading anything are nested less deep than this for each
character. -/
def stepsPerCharacter : Nat := 16

def parse (source : Text) : Except Fault (SyntaxTree source) :=
  match script (stepsPerCharacter * (source.length + 2)) (State.start source) with
  | .error e => .error e
  | .ok ((), s) =>
    if h : s.unread = [] then
      if Tree.anyMisplaces false s.made.reverse then .error ⟨s.offset⟩
      else .ok {
        items := s.made.reverse
        text_eq := by have := s.text_eq; rw [h, List.append_nil] at this; exact this
        solid := State.allSolid_reverse s.solid }
    else .error s.fault

end RequireInjection.Script
