import RequireInjection.Proofs.Script.Statements

namespace RequireInjection.Script

open Std.Do Grammar Reader Keeping

set_option mvcgen.warning false

variable {source : Text} {ground : Ground}

/-- One tree that holds together without operators has been made on the ground. -/
def Operand (ground : Ground) (s : State source) : Prop :=
  ∃ x, Stands ground.older x s ∧ x.rank = Tree.tightest

abbrev MakesOperand (ground : Ground) (p : Reader source Unit) : Prop :=
  ⦃fun s => ⌜s.made = ground.older ∧ Steady ground s⌝⦄ p
  ⦃⇓? _ s => ⌜Steady ground s ∧ Operand ground s⌝⦄

abbrev ClosesOperand (ground : Ground) (p : Reader source Unit) : Prop :=
  ⦃fun s => ⌜Steady ground s⌝⦄ p ⦃⇓? _ s => ⌜Steady ground s ∧ Operand ground s⌝⦄

abbrev ExtendsOperand (ground : Ground) (p : Reader source Unit) : Prop :=
  ⦃fun s => ⌜Steady ground s ∧ Operand ground s⌝⦄ p
  ⦃⇓? _ s => ⌜Steady ground s ∧ Operand ground s⌝⦄

theorem Stands.latest {older : List Tree} {x : Tree} {s : State source}
    (stands : Stands older x s) : s.made.head? = some x := by
  obtain ⟨-, lead, made, -⟩ := stands
  simp [made]

theorem Stands.endsInToken {older : List Tree} {x : Tree} {s : State source}
    (stands : Stands older x s) : s.EndsInToken := by
  intro t latest
  obtain rfl : x = t := Option.some.inj (stands.latest.symm.trans latest)
  exact stands.1

theorem operand_closes {p : Reader source Unit} (h : ∀ ground, MakesOperand ground p)
    (before : State source) :
    ⦃fun s => ⌜s = before⌝⦄ p
    ⦃⇓? _ s => ⌜∀ ground, Steady ground before → Steady ground s ∧ s.EndsInToken⌝⦄ := by
  rw [triple_iff]
  rintro s u s' rfl run ground steady
  obtain ⟨kept, x, stands, -⟩ :=
    triple_iff.mp (h s.here) s u s' ⟨rfl, steady_here steady.formed⟩ run
  exact ⟨steady.trans kept, stands.endsInToken⟩

theorem keeps_of_operand {p : Reader source Unit} (h : ∀ ground, MakesOperand ground p) :
    Keeps ground p :=
  keeps_of_relation (operand_closes h) fun _ _ kept steady => (kept ground steady).1

/-- Kinds of trees that need no brackets as operands and are no operators. -/
def Kind.isWhole : Kind → Bool
  | .binaryExpression | .ternaryExpression | .sequenceExpression | .spreadElement => false
  | .punctuation | .blank | .comment => false
  | _ => true

theorem rank_whole {x : Tree} (h : x.kind.isWhole) : x.rank = Tree.tightest := by
  cases x with
  | leaf kind text => cases kind <;> first | rfl | simp [Tree.kind, Kind.isWhole] at h
  | node kind cs => cases kind <;> first | rfl | simp [Tree.kind, Kind.isWhole] at h

theorem whole_not_trivia {x : Tree} (h : x.kind.isWhole) : x.isTrivia = false := by
  simp only [Tree.isTrivia]
  cases hkind : x.kind <;> simp_all [Kind.isWhole, Kind.isTrivia]

theorem drop_older {older new : List Tree} :
    (new ++ older).drop ((new ++ older).length - older.length) = older := by
  rw [List.length_append, Nat.add_sub_cancel, List.drop_left]

theorem take_newer {older new : List Tree} :
    (new ++ older).take ((new ++ older).length - older.length) = new := by
  rw [List.length_append, Nat.add_sub_cancel, List.take_left]

theorem Gathered.stands {before s : State source} {kind : Kind} {lead body : List Tree}
    (gathered : Gathered before ground.older.length kind lead body s) (steady : Steady ground before)
    (token : kind.isTrivia = false) : Stands ground.older (.node kind body) s := by
  obtain ⟨new, hnew⟩ := steady.older
  refine ⟨token, lead.reverse, ?_, ?_⟩
  · rw [gathered.made, ← hnew, drop_older]
  · intro t member
    exact gathered.trivia t (List.mem_reverse.mp member)

theorem gather_operand (before : State source) (mark : Nat) (kind : Kind) :
    ⦃fun s => ⌜s = before⌝⦄ (gather mark kind : Reader source Unit)
    ⦃⇓? _ s => ⌜before.Yields mark kind → ∀ ground, Steady ground before →
      ground.older.length ≤ mark → Steady ground s ∧ (kind.isWhole → s.EndsInToken) ∧
        (mark = ground.older.length → kind.isWhole → Operand ground s)⌝⦄ := by
  rw [triple_iff]
  rintro s u s' rfl h yields ground steady below
  obtain ⟨lead, body, gathered⟩ := gather_ok h
  refine ⟨gathered.steady steady below (gathered.form yields),
    fun whole => gathered.endsInToken (whole_not_trivia (x := .node kind []) whole), ?_⟩
  rintro rfl operand
  have tight : (Tree.node kind body).kind.isWhole := operand
  exact ⟨_, gathered.stands steady (whole_not_trivia tight), rank_whole tight⟩

@[grind →] theorem Took.operand {before s : State source} {kind : Kind} {text : Text}
    (took : Took before kind text s) (fresh : before.made = ground.older)
    (whole : kind.isWhole) : Operand ground s := by
  have tight : (Tree.leaf kind text).kind.isWhole := whole
  exact ⟨_, fresh ▸ took.stands (whole_not_trivia tight), rank_whole tight⟩

theorem anyWord_took (before : State source) (kind : Kind) :
    ⦃fun s => ⌜s = before⌝⦄ (anyWord kind : Reader source Unit)
    ⦃⇓? _ s => ⌜Took before kind (before.ahead.take (word before.ahead)) s⌝⦄ := by
  unfold anyWord
  mvcgen [-keeps_take, -ahead_looks, ahead, take_took]
  simp_all

theorem operand_anyWord (kind : Kind) (whole : kind.isWhole) :
    MakesOperand ground (anyWord kind : Reader source Unit) := by
  mvcgen [-keeps_anyWord, anyWord_took]
  grind

theorem operand_take (kind : Kind) (count : Nat) (endsOperand : Bool) (whole : kind.isWhole) :
    MakesOperand ground (take kind count endsOperand : Reader source Unit) := by
  mvcgen [-keeps_take, take_took]
  grind

theorem operand_importExpression : MakesOperand ground (importExpression : Reader source Unit) := by
  have onMark : ∀ w, Keeps ground (opening w : Reader source Unit) := keeps_opening
  have onName : ∀ kind, Keeps ground (anyWord kind : Reader source Unit) := keeps_anyWord
  unfold importExpression
  mvcgen [-keeps_gather, -keeps_opening, -keeps_anyWord, gather_operand, anyWord_took, onMark]
    <;> grind [Kind.isWhole]

section

variable {go : Go source} (reads : ∀ (goal : Goal) (ground : Ground),
  goal.Above ground.older.length → Keeps ground (go goal))

include reads

theorem operand_arrow (m : Nat) (here : m = ground.older.length) :
    ClosesOperand ground (arrow go m) := by
  unfold arrow
  mvcgen [-keeps_gather, gather_operand, reads] <;> grind [Goal.Above, Kind.isWhole]

theorem operand_parenthesized : MakesOperand ground (parenthesized go) := by
  unfold parenthesized
  mvcgen [-keeps_gather, gather_operand, operand_arrow, reads]
    <;> grind [Goal.Above, Kind.isWhole]

theorem operand_array : MakesOperand ground (array go) := by
  unfold array
  mvcgen [-keeps_gather, gather_operand, reads]
    <;> grind [Goal.Above, Kind.isWhole]

theorem operand_object : MakesOperand ground (object go) := by
  unfold object
  mvcgen [-keeps_gather, gather_operand, reads]
    <;> grind [Goal.Above, Kind.isWhole]

theorem operand_template : MakesOperand ground (template go) := by
  unfold template
  mvcgen [-keeps_gather, gather_operand, reads]
    <;> grind [Goal.Above, Kind.isWhole]

theorem operand_functionExpression : MakesOperand ground (functionExpression go) := by
  unfold functionExpression
  mvcgen [-keeps_gather, gather_operand, keeps_functionRest, reads]
    <;> grind [Goal.Above, Kind.isWhole]

theorem operand_newExpression : MakesOperand ground (newExpression go) := by
  unfold newExpression
  mvcgen [-keeps_gather, gather_operand, keeps_arguments, reads]
    <;> grind [Goal.Above, Kind.isWhole]

theorem operand_name : MakesOperand ground (name go) := by
  unfold name
  mvcgen [-keeps_anyWord, anyWord_took, operand_arrow, reads]
    <;> grind [Goal.Above, Kind.isWhole]

theorem operand_asyncExpression : MakesOperand ground (asyncExpression go) := by
  have inside := relation_of_keeps fun ground =>
    keeps_bracketed fun inner _ => reads .items inner trivial
  have onFunction : MakesOperand ground (functionExpression go) :=
    operand_functionExpression reads
  have onArrow : ∀ m, m = ground.older.length → ClosesOperand ground (arrow go m) :=
    operand_arrow reads
  clear reads
  unfold asyncExpression
  mvcgen [-keeps_gather, -keeps_anyWord, -keeps_opening, -keeps_closing, -keeps_bracketed,
    -keeps_expectText, opening, closing, expectText_took, gather_operand, anyWord_took, inside,
    onArrow, onFunction]
    <;> grind [Kind.isWhole, → enclosed_between]

theorem operand_yieldExpression : MakesOperand ground (yieldExpression go) := by
  unfold yieldExpression
  mvcgen [-keeps_gather, gather_operand, reads]
    <;> grind [Goal.Above, Kind.isWhole]

theorem operand_element : MakesOperand ground (element go) := by
  unfold element
  mvcgen [-keeps_gather, gather_operand, keeps_tagName, reads]
    <;> grind [Goal.Above, Kind.isWhole]

theorem operand_classFrom (m : Nat) (kind : Kind) (here : m = ground.older.length)
    (whole : kind.isWhole) (free : kind.isFree) : ClosesOperand ground (classFrom go m kind) := by
  unfold classFrom
  mvcgen [-keeps_gather, gather_operand, reads]
    <;> grind [Goal.Above, Kind.isWhole]

theorem keeps_chain (m : Nat) (onlyMembers : Bool) (above : ground.older.length ≤ m) :
    Keeps ground (chain go m onlyMembers) := by
  have onTemplate := operand_closes fun _ => operand_template reads
  unfold chain
  mvcgen [-keeps_gather, gather_yields, keeps_subscript, keeps_call, onTemplate,
    keeps_propertyAfterDot, reads]
    <;> grind [Goal.Above]

theorem operand_subscript (m : Nat) (here : m = ground.older.length) :
    ClosesOperand ground (subscript go m) := by
  unfold subscript
  mvcgen [-keeps_gather, gather_operand, reads]
    <;> grind [Goal.Above, Kind.isWhole]

theorem operand_call (m : Nat) (here : m = ground.older.length) :
    ClosesOperand ground (call go m) := by
  have onArguments := arguments_closes reads
  clear reads
  unfold call
  mvcgen [-keeps_gather, gather_operand, onArguments]
  grind [Kind.isWhole]

theorem operand_chain (m : Nat) (onlyMembers : Bool) (here : m = ground.older.length)
    (chains : ∀ onlyMembers : Bool, ExtendsOperand ground (go (.chain m onlyMembers))) :
    ExtendsOperand ground (chain go m onlyMembers) := by
  have onSubscript := operand_subscript reads m here
  have onCall := operand_call reads m here
  have onTemplate := operand_closes fun _ => operand_template reads
  have onProperty : Keeps ground (propertyAfterDot : Reader source Unit) := keeps_propertyAfterDot
  clear reads
  unfold chain
  mvcgen [-keeps_gather, gather_operand, onSubscript, onCall, onTemplate, onProperty, chains]
    <;> grind [Kind.isWhole]

theorem operand_primaryWord (w : Text) : MakesOperand ground (primaryWord go w) := by
  have ofClass : MakesOperand ground (do classFrom go (← mark) .classExpression) := by
    mvcgen [operand_classFrom, reads] <;> grind [Kind.isWhole]
  unfold primaryWord
  refine triple_ite (operand_functionExpression reads) (triple_ite ofClass ?_)
  refine triple_ite (operand_newExpression reads) ?_
  refine triple_ite (operand_anyWord _ rfl) (triple_ite (operand_anyWord _ rfl) ?_)
  refine triple_ite (operand_anyWord _ rfl) (triple_ite (operand_anyWord _ rfl) ?_)
  refine triple_ite (operand_anyWord _ rfl) (triple_ite (operand_anyWord _ rfl) ?_)
  refine triple_ite operand_importExpression ?_
  exact triple_ite (operand_asyncExpression reads) (operand_name reads)

theorem operand_primary (elements : MakesOperand ground (go .element)) :
    MakesOperand ground (primary go) := by
  have onDecorators : Keeps ground (go .decorators) := reads .decorators ground trivial
  have onClass : ∀ m, m = ground.older.length →
      ClosesOperand ground (classFrom go m .classExpression) :=
    fun m here => operand_classFrom reads m .classExpression here rfl rfl
  have onTake : ∀ kind count endsOperand, kind.isWhole →
      MakesOperand ground (take kind count endsOperand : Reader source Unit) := operand_take
  have decorated : MakesOperand ground (do
      let m ← mark
      go .decorators
      classFrom go m .classExpression) := by
    mvcgen [onDecorators, onClass] <;> grind
  have privateOperand : ∀ text, MakesOperand ground (do
      take .privateName (privateName text) true
      unless ← seesWord "in" do fail : Reader source Unit) := by
    intro text
    mvcgen [-keeps_take, onTake] <;> grind [Kind.isWhole]
  unfold primary
  refine triple_looks ahead_looks fun text => ?_
  cases text with
  | nil => exact triple_fail
  | cons c cs =>
    refine triple_ite (operand_primaryWord reads _) (triple_ite (onTake _ _ _ rfl) ?_)
    refine triple_ite (onTake _ _ _ rfl) (triple_ite (operand_parenthesized reads) ?_)
    refine triple_ite (operand_array reads) (triple_ite (operand_object reads) ?_)
    refine triple_ite (operand_template reads) (triple_ite (onTake _ _ _ rfl) ?_)
    exact triple_ite elements (triple_ite decorated (privateOperand _))

theorem operand_target (primaries : MakesOperand ground (go .primary))
    (chains : ∀ m onlyMembers, m = ground.older.length →
      ExtendsOperand ground (go (.chain m onlyMembers))) :
    MakesOperand ground (target go) := by
  have onExpression : Keeps ground (go .expression) := reads .expression ground trivial
  clear reads
  unfold target
  mvcgen -elimLets [-keeps_gather, gather_operand, primaries, chains, onExpression]
    <;> grind [Kind.isWhole]

theorem operand_operand (primaries : MakesOperand ground (go .primary))
    (chains : ∀ m onlyMembers, m = ground.older.length →
      ExtendsOperand ground (go (.chain m onlyMembers))) :
    MakesOperand ground (operand go) := by
  have onYield : MakesOperand ground (yieldExpression go) := operand_yieldExpression reads
  have onTarget : MakesOperand ground (target go) := operand_target reads primaries chains
  have onOperand : Keeps ground (go .operand) := reads .operand ground trivial
  clear reads
  unfold operand
  mvcgen [-keeps_gather, gather_operand, onYield, onTarget, onOperand]
    <;> grind [Kind.isWhole]

end

end RequireInjection.Script
