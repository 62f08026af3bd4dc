import RequireInjection.Proofs.Script.StatementRun
import RequireInjection.Proofs.Script.TallyStatements

/-!
The brackets of a script close in the order in which they open, and between two of its statements
none is open. So its semicolons outside of all brackets tell its statements apart: each statement
that ends with a semicolon has one, and a statement that holds no other has no more.
-/
namespace RequireInjection.Script

open Std.Do Grammar Reader

set_option mvcgen.warning false

variable {source : Text} {t : Tally}

section

variable {go : Go source} (reads : ∀ (goal : Goal) (t : Tally),
  ⦃fun s => ⌜s.tally = t⌝⦄ go goal ⦃⇓? _ s => ⌜Leaves goal t s⌝⦄)

include reads

theorem leaves_rule (goal : Goal) (t : Tally) :
    ⦃fun s => ⌜s.tally = t⌝⦄ rule go goal ⦃⇓? _ s => ⌜Leaves goal t s⌝⦄ := by
  have silent : ∀ p : Reader source Unit, Even t p →
      ⦃fun s => ⌜s.tally = t⌝⦄ p ⦃⇓? _ s => ⌜Leaves goal t s⌝⦄ := by
    intro p even
    mvcgen [even]
    grind
  -- Of all goals only those that read statements or members of classes count semicolons.
  cases goal with
  | statements inSwitch => exact settles_statements reads inSwitch
  | statement =>
    rw [triple_iff]
    intro s u s' same run
    exact (triple_iff.mp (counts_statement reads) s u s' same run).1
  | block => exact silent _ (even_statementBlock reads)
  | declarators => exact silent _ (even_declarators reads)
  | switchCases => exact settles_switchCases reads
  | expressions => exact silent _ (even_expressions reads)
  | expression => exact silent _ (even_expression reads)
  | moreExpressions => exact silent _ (even_moreExpressions reads)
  | operand => exact silent _ (even_operand reads)
  | primary => exact silent _ (even_primary reads)
  | binaryTail m least => exact silent _ (even_binaryTail reads m least)
  | chain m onlyMembers => exact silent _ (even_chain reads m onlyMembers)
  | newExpression => exact silent _ (even_newExpression reads)
  | items => exact silent _ (even_items reads)
  | members => exact silent _ (even_members reads)
  | classMembers => exact settles_classMembers reads
  | decorators => exact silent _ (even_decorators reads)
  | templateParts => exact silent _ (even_templateParts reads)
  | elementNames m => exact silent _ (even_elementNames reads m)
  | element => exact silent _ (even_element reads)
  | attributes => exact silent _ (even_attributes reads)
  | children => exact silent _ (even_children reads)

end

theorem leaves_derive (n : Nat) (goal : Goal) (t : Tally) :
    ⦃fun s => ⌜s.tally = t⌝⦄ (derive n goal : Reader source Unit)
    ⦃⇓? _ s => ⌜Leaves goal t s⌝⦄ := by
  induction n generalizing goal t with
  | zero => exact triple_fail
  | succ n ih => exact leaves_rule ih goal t

theorem counts_derive (n : Nat) (t : Tally) :
    Counts t (derive n .statement : Reader source Unit) := by
  cases n with
  | zero => exact triple_fail
  | succ n => exact counts_statement (leaves_derive n)

namespace Tree

theorem marks_of_not_statement {x : Tree} (formed : x.Formed) (other : x.isStatement = false) :
    x.marks = [] := by
  refine marks_of_single formed ?_
  revert other
  rw [isStatement, isTrivia]
  cases x.kind <;> simp [Kind.isTrivia]

/-- All brackets are closed behind each statement among the trees, latest first, and unless it holds
other statements, it holds at most one semicolon outside of brackets. All else has no marks. -/
def Rounded : List Tree → Prop
  | [] => True
  | x :: older => (if x.isStatement then (tallyOf (x :: older)).AtTop ∧
      (x.kind.isCompound = false → (tallyOf (x :: older)).ends ≤ (tallyOf older).ends + 1)
      else x.marks = []) ∧ Rounded older

theorem Rounded.push {new older : List Tree} (rounded : Rounded older)
    (silent : ∀ t ∈ new, t.isStatement = false ∧ t.marks = []) : Rounded (new ++ older) := by
  induction new with
  | nil => exact rounded
  | cons t ts ih =>
    refine ⟨?_, ih fun u member => silent u (List.mem_cons_of_mem t member)⟩
    obtain ⟨other, nothing⟩ := silent t List.mem_cons_self
    simpa [other] using nothing

end Tree

/-- What has been read of a script where its statements stand. -/
structure Census (s : State source) : Prop where
  formed : Tree.AllFormed s.made
  atTop : s.tally.AtTop
  rounded : Tree.Rounded s.made

theorem Census.push {before s : State source} (census : Census before) {new : List Tree}
    (made : s.made = new ++ before.made) (formed : Tree.AllFormed s.made)
    (others : ∀ t ∈ new, t.isStatement = false) : Census s := by
  have silent : ∀ t ∈ new, t.isStatement = false ∧ t.marks = [] := by
    intro t member
    have there : t ∈ s.made := by simp [made, member]
    exact ⟨others t member,
      Tree.marks_of_not_statement ((Tree.allFormed_iff _).mp formed t there) (others t member)⟩
  refine ⟨formed, ?_, made ▸ census.rounded.push silent⟩
  have same : s.tally = before.tally := by
    exact (congrArg Tree.tallyOf made).trans
      (Tree.tallyOf_silent before.made fun t member => (silent t member).2)
  exact same ▸ census.atTop

theorem Census.statement {before s : State source} (census : Census before)
    (formed : Tree.AllFormed s.made) {x : Tree} (stands : Stands before.made x s)
    (counted : Counted before.tally s) : Census s := by
  have latest := stands.latest
  obtain ⟨-, lead, made, trivia⟩ := stands
  by_cases statement : x.isStatement
  · have all := (Tree.allFormed_iff _).mp formed
    have silent : ∀ t ∈ lead, t.isStatement = false ∧ t.marks = [] := by
      intro t member
      have there : t ∈ s.made := by simp [made, member]
      have other : t.isStatement = false := by simp [Tree.isStatement, trivia t member]
      exact ⟨other, Tree.marks_of_not_statement (all t there) other⟩
    obtain ⟨⟨due, -⟩, few⟩ := counted
    have atTop : s.tally.AtTop := due.trans census.atTop
    -- Blanks and comments between the statements hold no marks.
    have older : Tree.tallyOf (lead ++ before.made) = before.tally :=
      Tree.tallyOf_silent before.made fun t member => (silent t member).2
    refine ⟨formed, atTop, ?_⟩
    rw [made]
    refine ⟨?_, census.rounded.push silent⟩
    rw [if_pos statement, ← made, older]
    exact ⟨atTop, fun single => few x.kind (by simp [State.latestKind?, latest]) single⟩
  · have added : s.made = (x :: lead) ++ before.made := made
    refine census.push added formed fun t member => ?_
    rcases List.mem_cons.mp member with rfl | blank
    · simpa using statement
    · simp [Tree.isStatement, trivia t blank]

abbrev KeepsCensus (p : Reader source Unit) : Prop :=
  ⦃fun s => ⌜Census s⌝⦄ p ⦃⇓? _ s => ⌜Census s⌝⦄

theorem keepsCensus_statement (n : Nat) :
    KeepsCensus (derive n .statement : Reader source Unit) := by
  refine triple_iff.mpr ?_
  intro s u s' census run
  obtain ⟨steady, -, x, stands⟩ := triple_iff.mp ((makesStatements_derive n).statement s.here) s u s'
    ⟨rfl, steady_here census.formed⟩ run
  exact census.statement steady.formed stands
    (triple_iff.mp (counts_derive n s.tally) s u s' rfl run)

theorem keepsCensus_statements (n : Nat) (inSwitch : Bool) :
    KeepsCensus (derive n (.statements inSwitch) : Reader source Unit) := by
  induction n with
  | zero => exact triple_fail
  | succ n ih =>
    have first : KeepsCensus (derive n .statement : Reader source Unit) := keepsCensus_statement n
    rw [derive, rule]
    unfold Grammar.statements
    mvcgen [first, ih] <;> grind

theorem keepsCensus_passTrivia : KeepsCensus (passTrivia : Reader source Unit) := by
  refine triple_iff.mpr ?_
  intro s u s' census run
  have steady := triple_iff.mp keeps_passTrivia s u s' (steady_here census.formed) run
  obtain ⟨⟨lead, made, trivia⟩, -⟩ := (triple_iff.mp (passTrivia_passed s) s u s' rfl run).1
  exact census.push made steady.formed fun t member => by
    simp [Tree.isStatement, (trivia t member).1]

theorem keepsCensus_hashBang (count : Nat) :
    KeepsCensus (Reader.shift .hashBang count : Reader source Unit) := by
  refine triple_iff.mpr ?_
  intro s u s' census run
  have steady := triple_iff.mp (keeps_shift .hashBang count) s u s' (steady_here census.formed) run
  have made : s'.made = [.leaf .hashBang (s.unread.take count)] ++ s.made := (shift_ok run).1
  exact census.push made steady.formed (by simp [Tree.isStatement, Tree.kind])

theorem keepsCensus_script (steps : Nat) : KeepsCensus (script steps : Reader source Unit) := by
  unfold script
  mvcgen [keepsCensus_passTrivia, keepsCensus_hashBang, keepsCensus_statements] <;> grind

theorem parse_census {tree : SyntaxTree source} (parsed : parse source = .ok tree) :
    ∃ s : State source, Census s ∧ tree.items = s.made.reverse := by
  obtain ⟨steps, s, run, -, items⟩ := parse_run parsed
  have start : Census (State.start source) := ⟨trivial, rfl, trivial⟩
  exact ⟨s, triple_iff.mp (keepsCensus_script steps) _ _ _ start run, items⟩

namespace Tree

mutual
def quiet : Tree → Text
  | leaf k t => if k.isMark then [] else t
  | node _ cs => quietOfAll cs
def quietOfAll : List Tree → Text
  | [] => []
  | t :: ts => t.quiet ++ quietOfAll ts
end

mutual
theorem afterAll_text (t : Tally) :
    ∀ x : Tree, (∀ c ∈ x.quiet, Tally.isPlain c) → t.afterAll x.text = t.afterAll x.marks
  | leaf k text, plain => by
    by_cases mark : k.isMark
    · simp [mark]
    · have all : ∀ c ∈ text, Tally.isPlain c := by simpa [quiet, mark] using plain
      simpa [mark] using Tally.afterAll_plain all t
  | node k cs, plain => by
    rw [text_node, marks_node]
    exact afterAll_textOfAll t cs (by simpa [quiet] using plain)
theorem afterAll_textOfAll (t : Tally) :
    ∀ ts : List Tree, (∀ c ∈ quietOfAll ts, Tally.isPlain c) →
      t.afterAll (textOfAll ts) = t.afterAll (marksOfAll ts)
  | [], _ => by simp
  | x :: xs, plain => by
    simp only [quietOfAll, List.forall_mem_append] at plain
    rw [textOfAll_cons, marksOfAll_cons, Tally.afterAll_append, Tally.afterAll_append,
      afterAll_text t x plain.1, afterAll_textOfAll _ xs plain.2]
end

theorem plain_of_mem {ts : List Tree} (plain : ∀ c ∈ quietOfAll ts, Tally.isPlain c) :
    ∀ x ∈ ts, ∀ c ∈ x.quiet, Tally.isPlain c := by
  induction ts with
  | nil => simp
  | cons t ts ih =>
    simp only [quietOfAll, List.forall_mem_append] at plain
    exact List.forall_mem_cons.mpr ⟨plain.1, ih plain.2⟩

def isEnded (x : Tree) : Bool := x.isStatement && x.text.getLast? == some ';'

theorem Rounded.ends_le {made : List Tree} (rounded : Rounded made)
    (single : ∀ x ∈ made, x.isStatement → x.kind.isCompound = false) :
    (tallyOf made).ends ≤ (made.filter isStatement).length := by
  induction made with
  | nil => exact Nat.le_refl 0
  | cons x older ih =>
    obtain ⟨here, rounded⟩ := rounded
    have before := ih rounded fun y member => single y (List.mem_cons_of_mem x member)
    by_cases statement : x.isStatement
    · rw [if_pos statement] at here
      have few := here.2 (single x List.mem_cons_self statement)
      rw [List.filter_cons_of_pos statement, List.length_cons]
      omega
    · rw [if_neg statement] at here
      rw [List.filter_cons_of_neg statement, tallyOf_cons, here]
      exact before

theorem Rounded.le_ends {made : List Tree} (rounded : Rounded made)
    (plain : ∀ x ∈ made, ∀ c ∈ x.quiet, Tally.isPlain c) :
    (made.filter isEnded).length ≤ (tallyOf made).ends := by
  induction made with
  | nil => exact Nat.le_refl 0
  | cons x older ih =>
    obtain ⟨here, rounded⟩ := rounded
    have before := ih rounded fun y member => plain y (List.mem_cons_of_mem x member)
    have more := (tallyOf older).ends_le_afterAll x.marks
    rw [← tallyOf_cons] at more
    by_cases ended : x.isEnded
    · obtain ⟨statement, last⟩ := Bool.and_eq_true_iff.mp ended
      rw [if_pos statement] at here
      have atTop := here.1
      obtain ⟨front, text⟩ := List.getLast?_eq_some_iff.mp (beq_iff_eq.mp last)
      -- the brackets are closed behind the semicolon, and so they are before it
      have close : tallyOf (x :: older) = ((tallyOf older).afterAll front).ended := by
        rw [tallyOf_cons, ← afterAll_text _ x (plain x List.mem_cons_self), text,
          Tally.afterAll_append]
        simp [Tally.after]
      have open_before := (tallyOf older).ends_le_afterAll front
      rw [close, Tally.AtTop, Tally.due_ended] at atTop
      have one : (tallyOf (x :: older)).ends = ((tallyOf older).afterAll front).ends + 1 := by
        simp [close, Tally.ended, Tally.AtTop, atTop]
      rw [List.filter_cons_of_pos ended, List.length_cons]
      omega
    · rw [List.filter_cons_of_neg ended]
      omega

end Tree

def SyntaxTree.quiet (tree : SyntaxTree source) : Text := Tree.quietOfAll tree.items

/-- Brackets and semicolons stand in the script as tokens only. -/
def SyntaxTree.Bare (tree : SyntaxTree source) : Prop := ∀ c ∈ tree.quiet, Tally.isPlain c

variable {tree : SyntaxTree source}

theorem parse_marks_atTop (parsed : parse source = .ok tree) :
    (Tally.start.afterAll (Tree.marksOfAll tree.items)).AtTop := by
  obtain ⟨s, census, items⟩ := parse_census parsed
  rw [items]
  exact census.atTop

theorem parse_atTop (parsed : parse source = .ok tree) (bare : tree.Bare) :
    (Tally.start.afterAll source).AtTop := by
  rw [← tree.text_eq, Tree.afterAll_textOfAll _ _ bare]
  exact parse_marks_atTop parsed

/-- A statement that holds no other has at most one semicolon outside of brackets. -/
theorem ends_le_statements (parsed : parse source = .ok tree) (bare : tree.Bare)
    (single : ∀ x ∈ tree.statements, x.kind.isCompound = false) :
    (Tally.start.afterAll source).ends ≤ tree.statements.length := by
  obtain ⟨s, census, items⟩ := parse_census parsed
  have bound := census.rounded.ends_le fun x member statement =>
    single x (List.mem_filter.mpr ⟨by simp [items, member], statement⟩)
  rw [SyntaxTree.statements, items, List.filter_reverse, List.length_reverse]
  conv_lhs => rw [← tree.text_eq, Tree.afterAll_textOfAll _ _ bare, items]
  exact bound

def SyntaxTree.ended (tree : SyntaxTree source) : List Tree := tree.items.filter Tree.isEnded

theorem ended_le_ends (parsed : parse source = .ok tree) (bare : tree.Bare) :
    tree.ended.length ≤ (Tally.start.afterAll source).ends := by
  obtain ⟨s, census, items⟩ := parse_census parsed
  have plain : ∀ x ∈ s.made, ∀ c ∈ x.quiet, Tally.isPlain c := fun x member =>
    Tree.plain_of_mem bare x (by simp [items, member])
  have bound := census.rounded.le_ends plain
  rw [SyntaxTree.ended, items, List.filter_reverse, List.length_reverse]
  conv_rhs => rw [← tree.text_eq, Tree.afterAll_textOfAll _ _ bare, items]
  exact bound

/-- Each of two scripts has as many statements as the other has statements that end with a
semicolon, or more, unless some of them hold others. -/
def SyntaxTree.SharesEnds {other : Text} (tree : SyntaxTree source) (changed : SyntaxTree other) :
    Prop :=
  ((∀ x ∈ changed.statements, x.kind.isCompound = false) →
    tree.ended.length ≤ changed.statements.length) ∧
  ((∀ x ∈ tree.statements, x.kind.isCompound = false) →
    changed.ended.length ≤ tree.statements.length)

theorem sharesEnds {other : Text} {changed : SyntaxTree other} (parsed : parse source = .ok tree)
    (bare : tree.Bare) (parsed' : parse other = .ok changed) (bare' : changed.Bare)
    (same : Tally.start.afterAll other = Tally.start.afterAll source) : tree.SharesEnds changed := by
  refine ⟨fun single => ?_, fun single => ?_⟩
  · have few := ends_le_statements parsed' bare' single
    rw [same] at few
    exact (ended_le_ends parsed bare).trans few
  · have many := ended_le_ends parsed' bare'
    rw [same] at many
    exact many.trans (ends_le_statements parsed bare single)

end RequireInjection.Script
