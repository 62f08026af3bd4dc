import RequireInjection.Proofs.Script.StatementEnds

namespace RequireInjection.Script

open Std.Do Grammar Reader Keeping Ending

set_option mvcgen.warning false

variable {source : Text} {ground : Ground}

theorem statement_empty :
    ⦃fun s => ⌜(s.made = ground.older ∧ Steady ground s) ∧ s.ahead.head? = some ';'⌝⦄
    (take .emptyStatement 1 false : Reader source Unit)
    ⦃⇓? _ s => ⌜Steady ground s ∧ Concludes ground s⌝⦄ := by
  rw [triple_iff]
  rintro s u s' ⟨⟨fresh, steady⟩, first⟩ run
  have took := triple_iff.mp (take_took s .emptyStatement 1 false) s u s' rfl run
  have stands := took.stands rfl
  have text : s.ahead.take 1 = [';'] := by
    cases rest : s.ahead with
    | nil => simp [rest] at first
    | cons c t => simpa [rest] using first
  refine ⟨took.steady steady, Or.inl ⟨_, stands.latest, by simp [Tree.closes], ?_⟩, _, fresh ▸ stands⟩
  rw [text]
  rfl

theorem take_of_semicolon {t : Text} (h : punctuator t = [';']) : t.take 1 = [';'] := by
  have long : ∀ m ∈ longPunctuators, m ≠ [';'] := by decide
  unfold punctuator at h
  split at h
  · rename_i m found
    split at h
    · cases h
    · exact absurd h (long m (List.mem_of_find?_eq_some found))
  · exact h

theorem shut_accept : ⦃fun s => ⌜Steady ground s ∧ Shut s⌝⦄
    (discard (accept ";") : Reader source Unit) ⦃⇓? _ s => ⌜Steady ground s ∧ Shut s⌝⦄ := by
  refine triple_discard ?_
  mvcgen [-sees_looks, -ahead_looks, -keeps_accept, -keeps_take, accept, sees, ahead, take_took]
  rename_i before kept sees _ s took
  have text : before.ahead.take [';'].length = [';'] := take_of_semicolon (by simpa using sees)
  rw [text] at took
  exact ⟨took.steady kept.1, took.shut rfl⟩

theorem statement_debuggerStatement :
    MakesStatement ground (debuggerStatement : Reader source Unit) := by
  unfold debuggerStatement
  mvcgen [-keeps_gather, -keeps_semicolon] <;> grind

theorem statement_jumpStatement (keyword : Text) (kind : Kind) (ending : kind.endsWithPart)
    (free : kind.isFree) : MakesStatement ground (jumpStatement keyword kind : Reader source Unit) := by
  unfold jumpStatement
  mvcgen [-keeps_gather] <;> grind

section

variable {go : Go source} (reads : ∀ (goal : Goal) (ground : Ground),
  goal.Above ground.older.length → Keeps ground (go goal))

include reads

theorem statement_block : MakesStatement ground (Grammar.block go) := by
  unfold Grammar.block
  mvcgen [-keeps_gather, -keeps_closing, reads] <;> grind [Goal.Above]

theorem readsShut_block : ReadsShut ground (Grammar.block go) := by
  unfold Grammar.block
  mvcgen [-keeps_gather, -keeps_closing, reads] <;> grind [Goal.Above]

theorem readsShut_condition : ReadsShut ground (condition go) := by
  have onOpening : Keeps ground (opening "(" : Reader source Unit) := keeps_opening _
  have onClosing : ReadsShut ground (opening ")" : Reader source Unit) := readsShut_expectText rfl
  unfold condition
  mvcgen [-keeps_gather, -keeps_opening, reads, onOpening, onClosing] <;> grind [Goal.Above]

theorem statement_declaration (keyword : Text) (kind : Kind) (ending : kind.endsWithPart)
    (free : kind.isFree) : MakesStatement ground (declaration go keyword kind) := by
  unfold declaration
  mvcgen [-keeps_gather, -keeps_semicolon, reads]
    <;> grind [Goal.Above]

theorem statement_expressionStatement : MakesStatement ground (expressionStatement go) := by
  unfold expressionStatement
  mvcgen [-keeps_gather, -keeps_semicolon, reads]
    <;> grind [Goal.Above]

theorem statement_doStatement : MakesStatement ground (doStatement go) := by
  have onCondition : ReadsShut ground (condition go) := readsShut_condition reads
  unfold doStatement
  mvcgen [-keeps_gather, -keeps_discard, onCondition, shut_accept, reads] <;> grind [Goal.Above]

theorem statement_switchStatement : MakesStatement ground (switchStatement go) := by
  unfold switchStatement
  mvcgen [-keeps_gather, -keeps_closing, keeps_condition, reads] <;> grind [Goal.Above]

theorem statement_tryStatement (braces : ∀ ground, ReadsShut ground (go .block)) :
    MakesStatement ground (tryStatement go) := by
  have onBinding : ∀ ground, Keeps ground (binding go) := fun _ => keeps_binding reads
  -- of the goals below, blocks have to end with their brace, and no more is needed
  clear reads
  unfold tryStatement
  mvcgen [-keeps_gather, onBinding, braces] <;> grind

theorem statement_returnStatement : MakesStatement ground (returnStatement go) := by
  have onContent : Keeps ground (go .expressions) := reads .expressions ground trivial
  unfold returnStatement
  mvcgen [-keeps_gather, onContent] <;> grind

theorem statement_throwStatement : MakesStatement ground (throwStatement go) := by
  unfold throwStatement
  mvcgen [-keeps_gather, -keeps_semicolon, reads]
    <;> grind [Goal.Above]

theorem statement_functionDeclaration (braces : ∀ ground, ReadsShut ground (go .block)) :
    MakesStatement ground (functionDeclaration go) := by
  have onParameters : Keeps ground (parameters go) := keeps_parameters reads
  clear reads
  unfold functionDeclaration functionRest
  mvcgen [-keeps_gather, onParameters, braces] <;> grind

theorem statement_classFrom (m : Nat) (kind : Kind) (here : m = ground.older.length)
    (closed : kind.isClosed) (free : kind.isFree) : ClosesStatement ground (classFrom go m kind) := by
  unfold classFrom
  mvcgen [-keeps_gather, -keeps_closing, reads] <;> grind [Goal.Above]

theorem statement_importStatement : MakesStatement ground (importStatement go) := by
  unfold importStatement
  mvcgen [-keeps_gather, -keeps_semicolon, keeps_bracedNames,
    keeps_namespaceName, keeps_fromClause, reads] <;> grind [Goal.Above]

theorem statement_ifStatement (statements : ∀ ground, MakesStatement ground (go .statement)) :
    MakesStatement ground (ifStatement go) := by
  have onCondition : Keeps ground (condition go) := keeps_condition reads
  have onStatement : ReadsEnd ground (go .statement) := readsEnd_of_statement statements
  clear reads
  unfold ifStatement
  mvcgen [-keeps_gather, onCondition, onStatement] <;> grind

theorem statement_loopStatement (statements : ∀ ground, MakesStatement ground (go .statement))
    (keyword : Text) (kind : Kind) (ending : kind.endsWithPart) (free : kind.isFree) :
    MakesStatement ground (loopStatement go keyword kind) := by
  have onCondition : Keeps ground (condition go) := keeps_condition reads
  have onStatement : ReadsEnd ground (go .statement) := readsEnd_of_statement statements
  clear reads
  unfold loopStatement
  mvcgen [-keeps_gather, onCondition, onStatement] <;> grind

theorem statement_forStatement (statements : ∀ ground, MakesStatement ground (go .statement)) :
    MakesStatement ground (forStatement go) := by
  have onCollection : Keeps ground (collectionHeader go) := keeps_collectionHeader reads
  have onCounted : Keeps ground (countedHeader go) := keeps_countedHeader reads
  have onStatement : ReadsEnd ground (go .statement) := readsEnd_of_statement statements
  clear reads
  unfold forStatement
  mvcgen [-keeps_gather, onCollection, onCounted, onStatement] <;> grind

omit reads in
theorem statement_labeledStatement (statements : ∀ ground, MakesStatement ground (go .statement)) :
    MakesStatement ground (labeledStatement go) := by
  have onStatement : ReadsEnd ground (go .statement) := readsEnd_of_statement statements
  unfold labeledStatement
  mvcgen [-keeps_gather, onStatement] <;> grind

theorem statement_braced (blocks : ∀ ground, MakesStatement ground (go .block)) :
    MakesStatement ground (braced go) := by
  have onEither : MakesStatement ground (orElse (go .block) (expressionStatement go)) :=
    triple_orElse (blocks ground) (statement_expressionStatement reads)
  clear reads
  unfold braced
  mvcgen [-keeps_orElse, blocks, onEither] <;> grind

theorem statement_anyDeclaration (braces : ∀ ground, ReadsShut ground (go .block)) :
    MakesStatement ground (anyDeclaration go) := by
  have onVar : ∀ w, MakesStatement ground (declaration go w .variableDeclaration) :=
    fun w => statement_declaration reads w _ rfl rfl
  have onConst : ∀ w, MakesStatement ground (declaration go w .lexicalDeclaration) :=
    fun w => statement_declaration reads w _ rfl rfl
  have onFunction : MakesStatement ground (functionDeclaration go) :=
    statement_functionDeclaration reads braces
  have onClass : ∀ m, m = ground.older.length →
      ClosesStatement ground (classFrom go m .classDeclaration) :=
    fun m here => statement_classFrom reads m _ here rfl rfl
  have onDecorators : Keeps ground (go .decorators) := reads .decorators ground trivial
  clear reads
  unfold anyDeclaration
  mvcgen [onVar, onConst, onFunction, onClass, onDecorators] <;> grind

theorem statement_exportStatement (braces : ∀ ground, ReadsShut ground (go .block)) :
    MakesStatement ground (exportStatement go) := by
  have onDecorators : Keeps ground (go .decorators) := reads .decorators ground trivial
  have onDeclaration : ReadsEnd ground (anyDeclaration go) :=
    readsEnd_of_statement fun _ => statement_anyDeclaration reads braces
  have onValue : ReadsEnd ground (do go .expression; semicolon true) := by
    mvcgen [-keeps_semicolon, reads]
  have onDefault := triple_orElse onDeclaration onValue
  clear reads
  unfold exportStatement
  mvcgen [-keeps_gather, -keeps_semicolon, -keeps_orElse,
    keeps_namespaceName, keeps_fromClause, keeps_bracedNames, onDecorators, onDeclaration, onDefault]
    <;> grind

theorem statement_decorated (braces : ∀ ground, ReadsShut ground (go .block)) :
    MakesStatement ground (decorated go) := by
  have onClass : ∀ m, m = ground.older.length →
      ClosesStatement ground (classFrom go m .classDeclaration) :=
    fun m here => statement_classFrom reads m _ here rfl rfl
  have onDecorators : Keeps ground (go .decorators) := reads .decorators ground trivial
  have onDeclared : MakesStatement ground (do
      let m ← mark
      go .decorators
      unless ← declaresClass do fail
      classFrom go m .classDeclaration) := by
    clear reads
    mvcgen [onDecorators, onClass] <;> grind
  exact triple_orElse (statement_exportStatement reads braces)
    (triple_orElse onDeclared (statement_expressionStatement reads))

theorem statement_wordStatement (statements : ∀ ground, MakesStatement ground (go .statement))
    (braces : ∀ ground, ReadsShut ground (go .block)) (t : Text) :
    MakesStatement ground (wordStatement go t) := by
  have ofVar (w : Text) : MakesStatement ground (declaration go w .variableDeclaration) :=
    statement_declaration reads w _ rfl rfl
  have ofConst (w : Text) : MakesStatement ground (declaration go w .lexicalDeclaration) :=
    statement_declaration reads w _ rfl rfl
  unfold wordStatement
  refine triple_ite (ofVar _) (triple_ite (ofConst _) ?_)
  refine triple_ite (statement_ifStatement reads statements) ?_
  refine triple_ite (statement_forStatement reads statements) ?_
  refine triple_ite (statement_loopStatement reads statements _ .whileStatement rfl rfl) ?_
  refine triple_ite (statement_doStatement reads) (triple_ite (statement_tryStatement reads braces) ?_)
  refine triple_ite (statement_loopStatement reads statements _ .withStatement rfl rfl) ?_
  refine triple_ite (statement_switchStatement reads) ?_
  refine triple_ite (statement_returnStatement reads) (triple_ite (statement_throwStatement reads) ?_)
  refine triple_ite (statement_jumpStatement _ .breakStatement rfl rfl) ?_
  refine triple_ite (statement_jumpStatement _ .continueStatement rfl rfl) ?_
  refine triple_ite statement_debuggerStatement (triple_ite (statement_importStatement reads) ?_)
  have onExport : MakesStatement ground (exportStatement go) :=
    statement_exportStatement reads braces
  have onFunction : MakesStatement ground (functionDeclaration go) :=
    statement_functionDeclaration reads braces
  have onClass : ∀ m, m = ground.older.length →
      ClosesStatement ground (classFrom go m .classDeclaration) :=
    fun m here => statement_classFrom reads m _ here rfl rfl
  have onLabel : MakesStatement ground (labeledStatement go) :=
    statement_labeledStatement statements
  have onExpression : MakesStatement ground (expressionStatement go) :=
    statement_expressionStatement reads
  clear reads
  mvcgen [onExport, ofConst, onFunction, onClass, onLabel, onExpression] <;> grind

theorem statement_statement (statements : ∀ ground, MakesStatement ground (go .statement))
    (blocks : ∀ ground, MakesStatement ground (go .block))
    (braces : ∀ ground, ReadsShut ground (go .block)) : MakesStatement ground (statement go) := by
  have onWord : ∀ t, MakesStatement ground (wordStatement go t) :=
    statement_wordStatement reads statements braces
  have onBrace : MakesStatement ground (braced go) := statement_braced reads blocks
  have onDecorated : MakesStatement ground (decorated go) := statement_decorated reads braces
  have onExpression : MakesStatement ground (expressionStatement go) :=
    statement_expressionStatement reads
  clear reads
  unfold statement
  mvcgen [-ahead_looks, -keeps_take, ahead, statement_empty, onWord, onBrace, onDecorated, onExpression]
  grind

end

end RequireInjection.Script
