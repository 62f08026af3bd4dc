import RequireInjection.Proofs.Script.Expressions

namespace RequireInjection.Script

open Std.Do Grammar Reader Keeping

set_option mvcgen.warning false

variable {source : Text} {ground : Ground}

section Looking

variable (before : State source)

@[spec] theorem declaresWithLet_looks : ⦃fun s => ⌜s = before⌝⦄
    (declaresWithLet : Reader source Bool) ⦃⇓? _ s => ⌜s = before⌝⦄ := by
  unfold declaresWithLet
  mvcgen <;> grind

@[spec] theorem declaresFunction_looks : ⦃fun s => ⌜s = before⌝⦄
    (declaresFunction : Reader source Bool) ⦃⇓? _ s => ⌜s = before⌝⦄ := by
  unfold declaresFunction
  mvcgen <;> grind

@[spec] theorem declaresClass_looks : ⦃fun s => ⌜s = before⌝⦄
    (declaresClass : Reader source Bool) ⦃⇓? _ s => ⌜s = before⌝⦄ := by
  unfold declaresClass
  mvcgen <;> grind

@[spec] theorem exports_looks : ⦃fun s => ⌜s = before⌝⦄
    (exports : Reader source Bool) ⦃⇓? _ s => ⌜s = before⌝⦄ := by
  unfold exports
  mvcgen
  grind

end Looking

theorem keeps_fromClause : Keeps ground (fromClause : Reader source Unit) := by
  unfold fromClause
  mvcgen
  grind

theorem keeps_nameOrString : Keeps ground (nameOrString : Reader source Unit) := by
  unfold nameOrString
  mvcgen <;> grind

theorem keeps_nameList (imported : Bool) (n : Nat) :
    Keeps ground (nameList imported n : Reader source Unit) := by
  induction n with
  | zero => exact triple_fail
  | succ n ih =>
    unfold nameList
    mvcgen [keeps_nameOrString, ih] <;> grind

theorem keeps_bracedNames (imported : Bool) :
    Keeps ground (bracedNames imported : Reader source Unit) := by
  unfold bracedNames
  mvcgen [keeps_nameList]
  grind

theorem keeps_namespaceName (imported : Bool) :
    Keeps ground (namespaceName imported : Reader source Unit) := by
  unfold namespaceName
  mvcgen [keeps_nameOrString]

theorem keeps_optionally {content : Reader source Unit} (afterOperand : Bool)
    (kept : Keeps ground content) : Keeps ground (optionally content afterOperand) := by
  unfold optionally
  mvcgen [kept] <;> grind

theorem keeps_jumpStatement (keyword : Text) (kind : Kind) (free : kind.isFree) :
    Keeps ground (jumpStatement keyword kind : Reader source Unit) := by
  unfold jumpStatement
  mvcgen [keeps_optionally] <;> grind [Goal.Above]

theorem keeps_debuggerStatement : Keeps ground (debuggerStatement : Reader source Unit) := by
  unfold debuggerStatement
  mvcgen <;> grind [Goal.Above]

section

variable {go : Go source} (reads : ∀ (goal : Goal) (ground : Ground),
  goal.Above ground.older.length → Keeps ground (go goal))

include reads

theorem keeps_condition : Keeps ground (condition go) := by
  unfold condition
  mvcgen [reads] <;> grind [Goal.Above]

theorem keeps_statements (inSwitch : Bool) : Keeps ground (statements go inSwitch) := by
  unfold statements
  mvcgen [reads] <;> grind [Goal.Above]

theorem keeps_statementBlock : Keeps ground (Grammar.block go) := by
  unfold Grammar.block
  mvcgen [reads] <;> grind [Goal.Above]

theorem keeps_binding : Keeps ground (binding go) := by
  unfold binding
  mvcgen [reads] <;> grind [Goal.Above]

theorem keeps_declarators : Keeps ground (declarators go) := by
  unfold declarators
  mvcgen [keeps_binding, reads] <;> grind [Goal.Above]

theorem keeps_declaration (keyword : Text) (kind : Kind) (free : kind.isFree) :
    Keeps ground (declaration go keyword kind) := by
  unfold declaration
  mvcgen [reads] <;> grind [Goal.Above]

theorem keeps_expressionStatement : Keeps ground (expressionStatement go) := by
  unfold expressionStatement
  mvcgen [reads] <;> grind [Goal.Above]

theorem keeps_braced : Keeps ground (braced go) := by
  unfold braced
  mvcgen [keeps_expressionStatement, reads] <;> grind [Goal.Above]

theorem keeps_ifStatement : Keeps ground (ifStatement go) := by
  unfold ifStatement
  mvcgen [keeps_condition, reads] <;> grind [Goal.Above]

theorem keeps_collectionHeader : Keeps ground (collectionHeader go) := by
  unfold collectionHeader
  mvcgen [keeps_binding, reads] <;> grind [Goal.Above]

theorem keeps_countedHeader : Keeps ground (countedHeader go) := by
  unfold countedHeader
  mvcgen [keeps_declaration,
    reads] <;> grind [Goal.Above]

theorem keeps_forStatement : Keeps ground (forStatement go) := by
  unfold forStatement
  mvcgen [keeps_collectionHeader, keeps_countedHeader,
    reads] <;> grind [Goal.Above]

theorem keeps_loopStatement (keyword : Text) (kind : Kind) (free : kind.isFree) :
    Keeps ground (loopStatement go keyword kind) := by
  unfold loopStatement
  mvcgen [keeps_condition, reads] <;> grind [Goal.Above]

theorem keeps_doStatement : Keeps ground (doStatement go) := by
  unfold doStatement
  mvcgen [keeps_condition, reads] <;> grind [Goal.Above]

theorem keeps_switchCases : Keeps ground (switchCases go) := by
  unfold switchCases
  mvcgen [reads] <;> grind [Goal.Above]

theorem keeps_switchStatement : Keeps ground (switchStatement go) := by
  unfold switchStatement
  mvcgen [keeps_condition, reads] <;> grind [Goal.Above]

theorem keeps_tryStatement : Keeps ground (tryStatement go) := by
  unfold tryStatement
  mvcgen [keeps_binding, reads] <;> grind [Goal.Above]

theorem keeps_returnStatement : Keeps ground (returnStatement go) := by
  unfold returnStatement
  mvcgen [keeps_optionally, reads] <;> grind [Goal.Above]

theorem keeps_throwStatement : Keeps ground (throwStatement go) := by
  unfold throwStatement
  mvcgen [reads] <;> grind [Goal.Above]

theorem keeps_functionDeclaration : Keeps ground (functionDeclaration go) := by
  unfold functionDeclaration
  mvcgen [keeps_functionRest, reads] <;> grind [Goal.Above]

theorem keeps_importStatement : Keeps ground (importStatement go) := by
  unfold importStatement
  mvcgen [keeps_bracedNames, keeps_namespaceName, keeps_fromClause,
    reads] <;> grind [Goal.Above]

theorem keeps_anyDeclaration : Keeps ground (anyDeclaration go) := by
  unfold anyDeclaration
  mvcgen [keeps_declaration, keeps_functionDeclaration, keeps_classFrom, reads] <;> grind [Goal.Above]

theorem keeps_exportStatement : Keeps ground (exportStatement go) := by
  unfold exportStatement
  mvcgen [keeps_namespaceName, keeps_fromClause, keeps_bracedNames, keeps_anyDeclaration,
    reads] <;> grind [Goal.Above]

theorem keeps_labeledStatement : Keeps ground (labeledStatement go) := by
  unfold labeledStatement
  mvcgen [reads] <;> grind [Goal.Above]

theorem keeps_decorated : Keeps ground (decorated go) := by
  unfold decorated
  mvcgen [keeps_exportStatement, keeps_classFrom, keeps_expressionStatement,
    reads] <;> grind [Goal.Above]

theorem keeps_wordStatement (t : Text) : Keeps ground (wordStatement go t) := by
  have ofClass : Keeps ground (do classFrom go (← mark) .classDeclaration) := by
    mvcgen [keeps_classFrom, reads] <;> grind
  have ofVar (w : Text) : Keeps ground (declaration go w .variableDeclaration) :=
    keeps_declaration reads w _ (by decide)
  have ofConst (w : Text) : Keeps ground (declaration go w .lexicalDeclaration) :=
    keeps_declaration reads w _ (by decide)
  unfold wordStatement
  refine triple_ite (ofVar _) (triple_ite (ofConst _) ?_)
  refine triple_ite (keeps_ifStatement reads) (triple_ite (keeps_forStatement reads) ?_)
  refine triple_ite (keeps_loopStatement reads _ .whileStatement (by decide)) ?_
  refine triple_ite (keeps_doStatement reads) (triple_ite (keeps_tryStatement reads) ?_)
  refine triple_ite (keeps_loopStatement reads _ .withStatement (by decide)) ?_
  refine triple_ite (keeps_switchStatement reads) (triple_ite (keeps_returnStatement reads) ?_)
  refine triple_ite (keeps_throwStatement reads) ?_
  refine triple_ite (keeps_jumpStatement _ .breakStatement (by decide)) ?_
  refine triple_ite (keeps_jumpStatement _ .continueStatement (by decide)) ?_
  refine triple_ite keeps_debuggerStatement (triple_ite (keeps_importStatement reads) ?_)
  mvcgen [keeps_exportStatement, ofConst, keeps_functionDeclaration, keeps_classFrom,
    keeps_labeledStatement, keeps_expressionStatement, reads] <;> grind

theorem keeps_statement : Keeps ground (statement go) := by
  unfold statement
  mvcgen [keeps_wordStatement, keeps_braced, keeps_decorated, keeps_expressionStatement,
    reads] <;> grind [Goal.Above]

end

end RequireInjection.Script
