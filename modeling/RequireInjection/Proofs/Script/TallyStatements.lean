import RequireInjection.Proofs.Script.TallyRules

namespace RequireInjection.Script

open Std.Do Grammar Reader Counting

set_option mvcgen.warning false

variable {source : Text} {t : Tally}

/-- Kinds of statements that hold other statements outside of brackets. -/
@[grind] def Kind.isCompound : Kind → Bool
  | .ifStatement | .forStatement | .forInStatement | .whileStatement | .doStatement
  | .withStatement | .labeledStatement | .exportStatement => true
  | _ => false

/-- A statement has been read, and unless it holds others, at most one semicolon outside of
brackets. -/
@[grind] def Counted (t : Tally) (s : State source) : Prop :=
  Settled t s ∧ ∀ kind ∈ s.latestKind?, kind.isCompound = false → s.tally.ends ≤ t.ends + 1

abbrev Counts {α : Type} (t : Tally) (p : Reader source α) : Prop :=
  ⦃fun s => ⌜s.tally = t⌝⦄ p ⦃⇓? _ s => ⌜Counted t s⌝⦄

theorem even_fromClause : Even t (fromClause : Reader source Unit) := by
  unfold fromClause
  mvcgen <;> grind

theorem even_nameOrString : Even t (nameOrString : Reader source Unit) := by
  unfold nameOrString
  mvcgen <;> grind

theorem even_nameList (imported : Bool) (n : Nat) :
    Even t (nameList imported n : Reader source Unit) := by
  induction n with
  | zero => exact triple_fail
  | succ n ih =>
    unfold nameList
    mvcgen [even_nameOrString, ih] <;> grind

theorem even_bracedNames (imported : Bool) :
    Even t (bracedNames imported : Reader source Unit) := by
  unfold bracedNames
  mvcgen [even_nameList]
  grind

theorem even_namespaceName (imported : Bool) :
    Even t (namespaceName imported : Reader source Unit) := by
  unfold namespaceName
  mvcgen [even_nameOrString] <;> grind

theorem optionally_tally {content : Reader source Unit} (afterOperand : Bool)
    (silent : ∀ t, Even t content) :
    ⦃fun s => ⌜s.tally = t⌝⦄ optionally content afterOperand
    ⦃⇓? _ s => ⌜s.tally = t ∨ s.tally = t.ended⌝⦄ := by
  unfold optionally
  mvcgen [silent] <;> grind

theorem counts_jumpStatement (keyword : Text) (kind : Kind) :
    Counts t (jumpStatement keyword kind : Reader source Unit) := by
  unfold jumpStatement
  mvcgen [optionally_tally] <;> grind

theorem counts_debuggerStatement : Counts t (debuggerStatement : Reader source Unit) := by
  unfold debuggerStatement
  mvcgen
  grind

theorem counts_emptyStatement :
    ⦃fun s => ⌜s.tally = t ∧ s.ahead.head? = some ';'⌝⦄
    (take .emptyStatement 1 false : Reader source Unit) ⦃⇓? _ s => ⌜Counted t s⌝⦄ := by
  rw [triple_iff]
  rintro s u s' ⟨rfl, first⟩ run
  have taken := triple_iff.mp (take_tally s .emptyStatement 1 false) s u s' rfl run
  have text : s.ahead.take 1 = [';'] := by
    rw [List.take_one, first]
    rfl
  have ended : s'.tally = s.tally.ended := by
    simpa [text, Kind.isMark, Tally.after] using taken
  grind

theorem counts_orElse {α : Type} {p q : Reader source α}
    (first : Counts t p)
    (second : Counts t q) :
    Counts t (orElse p q) :=
  triple_orElse first second

theorem settles_orElse {α : Type} {p q : Reader source α}
    (first : Settles t p)
    (second : Settles t q) :
    Settles t (orElse p q) :=
  triple_orElse first second

section

variable {go : Go source} (reads : ∀ (goal : Goal) (t : Tally),
  ⦃fun s => ⌜s.tally = t⌝⦄ go goal ⦃⇓? _ s => ⌜Leaves goal t s⌝⦄)

include reads

theorem even_condition : Even t (condition go) := by
  unfold condition
  mvcgen [reads] <;> grind

theorem settles_statements (inSwitch : Bool) : Settles t (statements go inSwitch) := by
  unfold statements
  mvcgen [reads] <;> grind [Tally.AtTop]

theorem even_binding : Even t (binding go) := by
  unfold binding
  mvcgen [reads] <;> grind

theorem even_declarators : Even t (declarators go) := by
  unfold declarators
  mvcgen [even_binding, reads] <;> grind

theorem counts_declaration (keyword : Text) (kind : Kind) :
    Counts t (declaration go keyword kind) := by
  unfold declaration
  mvcgen [reads]
  grind [Tally.AtTop]

theorem counts_expressionStatement : Counts t (expressionStatement go) := by
  unfold expressionStatement
  mvcgen [reads]
  grind [Tally.AtTop]

theorem counts_braced : Counts t (braced go) := by
  unfold braced
  mvcgen [counts_expressionStatement, counts_orElse, reads] <;> grind [Tally.AtTop]

theorem counts_ifStatement : Counts t (ifStatement go) := by
  unfold ifStatement
  mvcgen [even_condition, reads] <;> grind [Tally.AtTop]

theorem even_collectionHeader : Even t (collectionHeader go) := by
  unfold collectionHeader
  mvcgen [even_binding, reads] <;> grind

theorem settles_countedHeader : Settles t (countedHeader go) := by
  unfold countedHeader
  mvcgen [-even_block, counts_declaration, settles_block, reads] <;> grind [Tally.AtTop]

theorem counts_forStatement : Counts t (forStatement go) := by
  unfold forStatement
  mvcgen [even_collectionHeader, settles_countedHeader, settles_orElse, reads] <;>
    grind [Tally.AtTop]

theorem counts_loopStatement (keyword : Text) {kind : Kind} (compound : kind.isCompound) :
    Counts t (loopStatement go keyword kind) := by
  unfold loopStatement
  mvcgen [even_condition, reads]
  grind [Tally.AtTop]

theorem counts_doStatement : Counts t (doStatement go) := by
  unfold doStatement
  mvcgen [-even_discard, acceptSemicolon_tally, even_condition, reads]
  grind [Tally.AtTop]

theorem settles_switchCases : Settles t (switchCases go) := by
  unfold switchCases
  mvcgen [reads] <;> grind [Tally.AtTop]

theorem counts_switchStatement : Counts t (switchStatement go) := by
  unfold switchStatement
  mvcgen [even_condition, reads]
  grind [Tally.AtTop]

theorem counts_tryStatement : Counts t (tryStatement go) := by
  unfold tryStatement
  mvcgen [even_binding, reads] <;> grind [Tally.AtTop]

theorem counts_returnStatement : Counts t (returnStatement go) := by
  unfold returnStatement
  mvcgen [optionally_tally, reads] <;> grind [Tally.AtTop]

theorem counts_throwStatement : Counts t (throwStatement go) := by
  unfold throwStatement
  mvcgen [reads]
  grind [Tally.AtTop]

theorem counts_functionDeclaration : Counts t (functionDeclaration go) := by
  unfold functionDeclaration
  mvcgen [even_functionRest, reads] <;> grind [Tally.AtTop]

theorem counts_importStatement : Counts t (importStatement go) := by
  unfold importStatement
  mvcgen [even_bracedNames, even_namespaceName, even_fromClause, reads] <;> grind [Tally.AtTop]

theorem counts_anyDeclaration : Counts t (anyDeclaration go) := by
  unfold anyDeclaration
  mvcgen [counts_declaration, counts_functionDeclaration, even_classFrom, reads] <;>
    grind [Tally.AtTop]

theorem counts_exportStatement : Counts t (exportStatement go) := by
  unfold exportStatement
  mvcgen [even_namespaceName, even_fromClause, even_bracedNames, counts_anyDeclaration,
    counts_orElse, reads] <;> grind [Tally.AtTop]

theorem counts_labeledStatement : Counts t (labeledStatement go) := by
  unfold labeledStatement
  mvcgen [reads]
  grind [Tally.AtTop]

theorem counts_decorated : Counts t (decorated go) := by
  unfold decorated
  mvcgen [counts_exportStatement, even_classFrom, counts_expressionStatement, counts_orElse, reads]
  grind [Tally.AtTop]

theorem counts_wordStatement (text : Text) : Counts t (wordStatement go text) := by
  unfold wordStatement
  refine triple_ite (counts_declaration reads _ _) ?_
  refine triple_ite (counts_declaration reads _ _) ?_
  refine triple_ite (counts_ifStatement reads) (triple_ite (counts_forStatement reads) ?_)
  refine triple_ite (counts_loopStatement reads _ rfl) ?_
  refine triple_ite (counts_doStatement reads) (triple_ite (counts_tryStatement reads) ?_)
  refine triple_ite (counts_loopStatement reads _ rfl) ?_
  refine triple_ite (counts_switchStatement reads) ?_
  refine triple_ite (counts_returnStatement reads) ?_
  refine triple_ite (counts_throwStatement reads) ?_
  refine triple_ite (counts_jumpStatement _ _) (triple_ite (counts_jumpStatement _ _) ?_)
  refine triple_ite counts_debuggerStatement (triple_ite (counts_importStatement reads) ?_)
  have onExport := fun t => counts_exportStatement (t := t) reads
  have onDeclaration := fun t keyword kind => counts_declaration (t := t) reads keyword kind
  have onFunction := fun t => counts_functionDeclaration (t := t) reads
  have onClass := fun t m kind => even_classFrom (t := t) reads m kind
  have onLabel := fun t => counts_labeledStatement (t := t) reads
  have onExpression := fun t => counts_expressionStatement (t := t) reads
  clear reads
  mvcgen [onExport, onDeclaration, onFunction, onClass, onLabel, onExpression] <;> grind

theorem counts_statement : Counts t (statement go) := by
  unfold statement
  have onWord := fun t text => counts_wordStatement (t := t) reads text
  have onBrace := fun t => counts_braced (t := t) reads
  have onDecorated := fun t => counts_decorated (t := t) reads
  have onExpression := fun t => counts_expressionStatement (t := t) reads
  clear reads
  mvcgen [-ahead_looks, -even_take, ahead, counts_emptyStatement, onWord, onBrace, onDecorated,
    onExpression]
  grind

end

end RequireInjection.Script
