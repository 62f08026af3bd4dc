import RequireInjection.Proofs.Script.Steps

namespace RequireInjection.Script

open Std.Do Grammar Reader Keeping

set_option mvcgen.warning false

variable {source : Text} {ground : Ground}

def Grammar.Goal.Above (count : Nat) : Goal → Prop
  | .chain mark _ | .elementNames mark => count ≤ mark
  | .binaryTail _ _ => False
  | _ => True

theorem keeps_modifiers (inClass : Bool) :
    Keeps ground (modifiers inClass : Reader source Bool) := by
  unfold modifiers
  extract_lets follows
  have looked : ∀ w starToo, Keeps ground (follows w starToo) := by
    intro w starToo
    simp only [follows]
    mvcgen <;> grind
  clear_value follows
  mvcgen [looked] <;> grind

@[spec] theorem arrowAfterBracket_looks (before : State source) : ⦃fun s => ⌜s = before⌝⦄
    (arrowAfterBracket : Reader source Bool) ⦃⇓? _ s => ⌜s = before⌝⦄ := by
  mvcgen [arrowAfterBracket]
  simp_all

theorem keeps_propertyAfterDot : Keeps ground (propertyAfterDot : Reader source Unit) := by
  unfold propertyAfterDot
  mvcgen <;> grind

section

variable {go : Go source} (reads : ∀ (goal : Goal) (ground : Ground),
  goal.Above ground.older.length → Keeps ground (go goal))

include reads

theorem keeps_parameters : Keeps ground (parameters go) := by
  unfold parameters
  mvcgen [reads] <;> grind [Goal.Above]

theorem arguments_closes (before : State source) :
    ⦃fun s => ⌜s = before⌝⦄ arguments go
    ⦃⇓? _ s => ⌜∀ ground, Steady ground before → Steady ground s ∧ s.EndsInToken⌝⦄ := by
  have inside := relation_of_keeps fun ground =>
    keeps_bracketed fun inner _ => reads .items inner trivial
  clear reads
  unfold arguments
  mvcgen [-mark_looks, -keeps_gather, -keeps_opening, -keeps_closing, -keeps_bracketed,
    -keeps_expectText, mark, opening, closing, expectText_took, gather_gathered, inside]
  rename_i start _ o opened _ i kept _ c closed _ s
  subst start
  rintro ⟨lead, body, gathered⟩ ground steady
  obtain ⟨c_steady, enclosed⟩ := enclosed_between steady opened kept closed
  exact ⟨gathered.steady c_steady steady.length_le (gathered.bracketed enclosed),
    gathered.endsInToken rfl⟩

theorem keeps_arguments : Keeps ground (arguments go) :=
  keeps_of_relation (arguments_closes reads) fun _ _ kept steady => (kept ground steady).1

theorem keeps_memberName : Keeps ground (memberName go) := by
  unfold memberName
  mvcgen [reads] <;> grind [Goal.Above]

theorem keeps_functionRest : Keeps ground (functionRest go) := by
  unfold functionRest
  mvcgen [keeps_parameters, reads] <;> grind [Goal.Above]

theorem keeps_items : Keeps ground (items go) := by
  unfold items
  mvcgen [reads] <;> grind [Goal.Above]

theorem keeps_member : Keeps ground (member go) := by
  unfold member
  mvcgen [keeps_memberName, keeps_modifiers, keeps_functionRest,
    reads] <;> grind [Goal.Above]

theorem keeps_members : Keeps ground (members go) := by
  unfold members
  mvcgen [keeps_member, reads] <;> grind [Goal.Above]

theorem keeps_templateParts : Keeps ground (templateParts go) := by
  unfold templateParts
  mvcgen [reads] <;> grind [Goal.Above]

theorem keeps_classMember : Keeps ground (classMember go) := by
  unfold classMember
  mvcgen [keeps_modifiers, keeps_memberName, keeps_functionRest,
    reads] <;> grind [Goal.Above]

theorem keeps_classMembers : Keeps ground (classMembers go) := by
  unfold classMembers
  mvcgen [keeps_classMember, reads] <;> grind [Goal.Above]

theorem keeps_classFrom (m : Nat) (kind : Kind) (above : ground.older.length ≤ m)
    (free : kind.isFree) :
    Keeps ground (classFrom go m kind) := by
  unfold classFrom
  mvcgen [reads] <;> grind [Goal.Above]

theorem keeps_decorators : Keeps ground (decorators go) := by
  unfold decorators
  mvcgen [-keeps_gather, gather_yields, arguments_closes, reads] <;> grind [Goal.Above]

theorem keeps_elementNames (m : Nat) (above : ground.older.length ≤ m) :
    Keeps ground (elementNames go m) := by
  unfold elementNames
  mvcgen [reads] <;> grind [Goal.Above]

theorem keeps_subscript (m : Nat) (above : ground.older.length ≤ m) :
    Keeps ground (subscript go m) := by
  unfold subscript
  mvcgen [reads] <;> grind [Goal.Above]

theorem keeps_call (m : Nat) (above : ground.older.length ≤ m) : Keeps ground (call go m) := by
  have onArguments := arguments_closes reads
  clear reads
  unfold call
  mvcgen [-keeps_gather, gather_yields, onArguments]
  grind

theorem keeps_moreExpressions : Keeps ground (moreExpressions go) := by
  unfold moreExpressions
  mvcgen [reads] <;> grind [Goal.Above]

theorem keeps_expressions : Keeps ground (expressions go) := by
  unfold expressions
  mvcgen [reads] <;> grind [Goal.Above]

theorem keeps_tagName : Keeps ground (tagName go) := by
  unfold tagName
  mvcgen [reads] <;> grind [Goal.Above]

theorem keeps_bracedExpression : Keeps ground (bracedExpression go) := by
  unfold bracedExpression
  mvcgen [reads] <;> grind [Goal.Above]

theorem keeps_tagAttribute : Keeps ground (tagAttribute go) := by
  unfold tagAttribute
  mvcgen [keeps_bracedExpression, reads] <;> grind [Goal.Above]

theorem keeps_attributes : Keeps ground (attributes go) := by
  unfold attributes
  mvcgen [keeps_tagAttribute, reads] <;> grind [Goal.Above]

theorem keeps_children : Keeps ground (children go) := by
  unfold children
  mvcgen [keeps_tagName, keeps_bracedExpression,
    reads] <;> grind [Goal.Above]

end

end RequireInjection.Script
