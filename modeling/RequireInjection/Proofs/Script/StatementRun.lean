import RequireInjection.Proofs.Script.StatementRules

/-!
The statements of a script. Reading a statement makes one tree that has ended before what is unread
then, and what is read later is that same text. So in the tree of a script every statement that does
not close by itself stands before a text where a statement may end; an opening bracket, even behind
blanks, is none.
-/
namespace RequireInjection.Script

open Std.Do Grammar Reader Keeping Ending

set_option mvcgen.warning false

variable {source : Text} {ground : Ground}

def Tree.isStatement (t : Tree) : Bool := !t.isTrivia && t.kind ≠ .hashBang

/-- The statements of a script that lie in no other. -/
def SyntaxTree.statements (tree : SyntaxTree source) : List Tree :=
  tree.items.filter Tree.isStatement

structure MakesStatements (go : Go source) : Prop where
  statement : ∀ ground, MakesStatement ground (go .statement)
  block : ∀ ground, MakesStatement ground (go .block)
  braces : ∀ ground, ReadsShut ground (go .block)

theorem makesStatements_derive (n : Nat) : MakesStatements (derive n : Go source) := by
  induction n with
  | zero => exact ⟨fun _ => triple_fail, fun _ => triple_fail, fun _ => triple_fail⟩
  | succ n ih =>
    have reads := (reads_derive n : Reads (derive n : Go source)).keeps
    exact ⟨fun _ => statement_statement reads ih.statement ih.block ih.braces,
      fun _ => statement_block reads, fun _ => readsShut_block reads⟩

/-- Each of the trees, latest first, is no statement, closes, or stands before a text where a
statement may end. The text is what follows the trees. -/
def Parted (rest : Text) : List Tree → Prop
  | [] => True
  | t :: older => (t.isTrivia ∨ t.kind = .hashBang ∨ (t.closes ∧ t.shuts) ∨
      ∃ afterOperand, endsHere afterOperand rest) ∧ Parted (t.text ++ rest) older

theorem parted_append {rest : Text} {new older : List Tree} : Parted rest (new ++ older) ↔
    Parted rest new ∧ Parted (Tree.textOfAll new.reverse ++ rest) older := by
  induction new generalizing rest with
  | nil => simp [Parted]
  | cons t ts ih =>
    simp only [List.cons_append, Parted, ih, List.reverse_cons, Tree.textOfAll_append,
      Tree.textOfAll_cons, Tree.textOfAll_nil, List.append_nil, List.append_assoc, and_assoc]

theorem parted_trivia {rest : Text} {ts : List Tree} (trivia : ∀ t ∈ ts, t.isTrivia) :
    Parted rest ts := by
  induction ts generalizing rest with
  | nil => trivial
  | cons t ts ih =>
    exact ⟨Or.inl (trivia t List.mem_cons_self),
      ih fun u member => trivia u (List.mem_cons_of_mem t member)⟩

def State.Parted (s : State source) : Prop := Script.Parted s.unread s.made

theorem unread_of_made {before s : State source} {new : List Tree}
    (made : s.made = new ++ before.made) :
    before.unread = Tree.textOfAll new.reverse ++ s.unread := by
  have whole := before.text_eq.trans s.text_eq.symm
  rw [made, List.reverse_append, Tree.textOfAll_append, List.append_assoc] at whole
  exact List.append_cancel_left whole

theorem State.Parted.push {before s : State source} {new : List Tree} (parted : before.Parted)
    (made : s.made = new ++ before.made) (fine : Script.Parted s.unread new) : s.Parted := by
  rw [State.Parted, made, parted_append, ← unread_of_made made]
  exact ⟨fine, parted⟩

theorem State.Parted.statement {before s : State source} (parted : before.Parted)
    (concludes : Concludes before.here s) : s.Parted := by
  obtain ⟨ends, x, stands⟩ := concludes
  have latest := stands.latest
  obtain ⟨-, lead, made, trivia⟩ := stands
  have added : s.made = (x :: lead) ++ before.made := made
  refine parted.push added ⟨?_, parted_trivia trivia⟩
  rcases ends with ⟨y, hy, closes⟩ | may
  · obtain rfl : x = y := Option.some.inj (latest.symm.trans hy)
    exact Or.inr (Or.inr (Or.inl closes))
  · exact Or.inr (Or.inr (Or.inr may))

theorem State.Parted.passed {before s : State source} (parted : before.Parted)
    (passed : Passed before s) : s.Parted := by
  obtain ⟨⟨lead, made, trivia⟩, -⟩ := passed
  exact parted.push made (parted_trivia fun t member => (trivia t member).1)

abbrev KeepsParted (p : Reader source Unit) : Prop :=
  ⦃fun s => ⌜Tree.AllFormed s.made ∧ s.Parted⌝⦄ p ⦃⇓? _ s => ⌜Tree.AllFormed s.made ∧ s.Parted⌝⦄

theorem keepsParted_statement {p : Reader source Unit} (h : ∀ ground, MakesStatement ground p) :
    KeepsParted p := by
  refine triple_iff.mpr ?_
  rintro s u s' ⟨formed, parted⟩ run
  -- the statement begins on the ground that the state itself is
  obtain ⟨steady, concludes⟩ :=
    triple_iff.mp (h s.here) s u s' ⟨rfl, steady_here formed⟩ run
  exact ⟨steady.formed, parted.statement concludes⟩

theorem keepsParted_statements (n : Nat) (inSwitch : Bool) :
    KeepsParted (derive n (.statements inSwitch) : Reader source Unit) := by
  induction n with
  | zero => exact triple_fail
  | succ n ih =>
    have first : KeepsParted (derive n .statement : Reader source Unit) :=
      keepsParted_statement (makesStatements_derive n).statement
    rw [derive, rule]
    unfold Grammar.statements
    mvcgen [first, ih] <;> grind

theorem keepsParted_passTrivia : KeepsParted (passTrivia : Reader source Unit) := by
  refine triple_iff.mpr ?_
  rintro s u s' ⟨formed, parted⟩ run
  have passed := (triple_iff.mp (passTrivia_passed s) s u s' rfl run).1
  have steady := triple_iff.mp keeps_passTrivia s u s' (steady_here formed) run
  exact ⟨steady.formed, parted.passed passed⟩

theorem keepsParted_hashBang (count : Nat) :
    KeepsParted (Reader.shift .hashBang count : Reader source Unit) := by
  refine triple_iff.mpr ?_
  rintro s u s' ⟨formed, parted⟩ run
  have steady := triple_iff.mp (keeps_shift .hashBang count) s u s' (steady_here formed) run
  have added : s'.made = [.leaf .hashBang (s.unread.take count)] ++ s.made := (shift_ok run).1
  exact ⟨steady.formed, parted.push added ⟨Or.inr (Or.inl rfl), trivial⟩⟩

theorem keepsParted_script (steps : Nat) : KeepsParted (script steps : Reader source Unit) := by
  unfold script
  mvcgen [-keeps_passTrivia, -keeps_shift, keepsParted_passTrivia, keepsParted_hashBang,
    keepsParted_statements] <;> grind

theorem parse_parted {tree : SyntaxTree source} (h : parse source = .ok tree) :
    Parted [] tree.items.reverse := by
  obtain ⟨steps, s, run, nothing, items⟩ := parse_run h
  have start : Tree.AllFormed (State.start source).made ∧ (State.start source).Parted :=
    ⟨trivial, trivial⟩
  have parted := (triple_iff.mp (keepsParted_script steps) _ _ _ start run).2
  rw [State.Parted, nothing] at parted
  rw [items, List.reverse_reverse]
  exact parted

/-- Behind every statement of a script that does not close, a statement may end. What closes ends
with a semicolon or a closing bracket. -/
theorem closes_or_endsHere {tree : SyntaxTree source} (parsed : parse source = .ok tree)
    {front behind : List Tree} {x : Tree} (items : tree.items = front ++ x :: behind)
    (token : x.isTrivia = false) (statement : x.kind ≠ .hashBang) :
    (x.closes ∧ x.shuts) ∨ ∃ afterOperand, endsHere afterOperand (Tree.textOfAll behind) := by
  have parted := parse_parted parsed
  rw [items, List.reverse_append, List.reverse_cons, List.append_assoc, parted_append] at parted
  -- the statement is the latest of what stands before `behind`
  have here := parted.2.1
  simpa [token, statement] using here

end RequireInjection.Script
