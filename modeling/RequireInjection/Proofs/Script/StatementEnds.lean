import RequireInjection.Proofs.Script.Precedence

/-!
Where statements end. A statement that is read closes by itself, with a bracket or a semicolon, or
the text behind it is one where a statement may end without a semicolon. So behind every statement
of a script that does not close stands such a text.
-/
namespace RequireInjection.Script

open Std.Do Grammar Reader Keeping

set_option mvcgen.warning false

variable {source : Text} {ground : Ground}

@[grind] def Kind.isClosed : Kind → Bool
  | .statementBlock | .functionDeclaration | .classDeclaration | .switchStatement | .tryStatement
  | .doStatement => true
  | _ => false

@[grind] def Kind.endsWithPart : Kind → Bool
  | .expressionStatement | .variableDeclaration | .lexicalDeclaration | .returnStatement
  | .throwStatement | .breakStatement | .continueStatement | .debuggerStatement | .importStatement
  | .exportStatement | .ifStatement | .elseClause | .forStatement | .forInStatement
  | .whileStatement | .withStatement | .labeledStatement => true
  | _ => false

/-- What the text of a statement that needs no semicolon behind it can end with. -/
def isClosingSign (c : Char) : Bool := c == ';' || c == '\x7d' || c == ')'

namespace Tree

mutual
def closes : Tree → Bool
  | leaf .emptyStatement _ => true
  | leaf .punctuation t => t == [';']
  | leaf _ _ => false
  | node k cs => k.isClosed || (k.endsWithPart && lastCloses cs)
def lastCloses : List Tree → Bool
  | [] => false
  | [t] => closes t
  | _ :: ts => lastCloses ts
end

def shuts (t : Tree) : Bool := t.text.getLast?.any isClosingSign

theorem shuts_of_last {k : Kind} {cs : List Tree} {t : Tree} (last : t ∈ cs.getLast?)
    (shut : t.shuts) : (node k cs).shuts := by
  have parts := List.dropLast_append_getLast? t last
  have text : (node k cs).text = textOfAll cs.dropLast ++ t.text := by
    rw [text_node, ← parts]
    simp
  cases own : t.text.getLast? with
  | none => simp [shuts, own] at shut
  | some c => simpa [shuts, text, own] using shut

theorem lastCloses_eq {cs : List Tree} {t : Tree} (last : cs.getLast? = some t) :
    lastCloses cs = t.closes := by
  induction cs with
  | nil => cases last
  | cons c cs ih =>
    cases cs with
    | nil =>
      obtain rfl : c = t := by simpa using last
      rw [lastCloses]
    | cons d ds =>
      rw [List.getLast?_cons_cons] at last
      rw [lastCloses, ih last]
      simp

end Tree

def Shut (s : State source) : Prop := ∃ x, s.made.head? = some x ∧ x.shuts

/-- What has been read last closes, or a statement may end before what is unread. -/
def Ends (s : State source) : Prop :=
  (∃ x, s.made.head? = some x ∧ x.closes ∧ x.shuts) ∨ ∃ afterOperand, endsHere afterOperand s.unread

/-- One statement has been made on the ground, and it has ended. -/
def Concludes (ground : Ground) (s : State source) : Prop :=
  Ends s ∧ ∃ x, Stands ground.older x s

abbrev MakesStatement (ground : Ground) (p : Reader source Unit) : Prop :=
  ⦃fun s => ⌜s.made = ground.older ∧ Steady ground s⌝⦄ p
  ⦃⇓? _ s => ⌜Steady ground s ∧ Concludes ground s⌝⦄

abbrev ClosesStatement (ground : Ground) (p : Reader source Unit) : Prop :=
  ⦃fun s => ⌜Steady ground s⌝⦄ p ⦃⇓? _ s => ⌜Steady ground s ∧ Concludes ground s⌝⦄

abbrev ReadsEnd (ground : Ground) (p : Reader source Unit) : Prop :=
  ⦃fun s => ⌜Steady ground s⌝⦄ p ⦃⇓? _ s => ⌜Steady ground s ∧ Ends s⌝⦄

theorem readsEnd_of_statement {p : Reader source Unit} (h : ∀ ground, MakesStatement ground p) :
    ReadsEnd ground p := by
  rw [ReadsEnd, triple_iff]
  intro s u s' steady run
  obtain ⟨kept, ends, -⟩ :=
    triple_iff.mp (h s.here) s u s' ⟨rfl, steady_here steady.formed⟩ run
  exact ⟨steady.trans kept, ends⟩

abbrev ReadsShut (ground : Ground) (p : Reader source Unit) : Prop :=
  ⦃fun s => ⌜Steady ground s⌝⦄ p ⦃⇓? _ s => ⌜Steady ground s ∧ Shut s⌝⦄

theorem Gathered.last {before s : State source} {mark : Nat} {kind : Kind} {lead body : List Tree}
    (gathered : Gathered before mark kind lead body s) {x : Tree}
    (latest : before.made.head? = some x) : x ∈ body.getLast? := by
  obtain ⟨t, last⟩ := Option.isSome_iff_exists.mp (List.getLast?_isSome.mpr gathered.nonempty)
  have same := gathered.latest last
  rw [latest] at same
  obtain rfl : x = t := Option.some.inj same
  exact last

theorem Gathered.shut {before s : State source} {mark : Nat} {kind : Kind} {lead body : List Tree}
    (gathered : Gathered before mark kind lead body s) (shut : Shut before) : Shut s := by
  obtain ⟨x, latest, shuts⟩ := shut
  exact ⟨.node kind body, by simp [gathered.made], Tree.shuts_of_last (gathered.last latest) shuts⟩

theorem Gathered.ends {before s : State source} {mark : Nat} {kind : Kind} {lead body : List Tree}
    (gathered : Gathered before mark kind lead body s)
    (may : (kind.isClosed ∧ Shut before) ∨ (kind.endsWithPart ∧ Ends before)) : Ends s := by
  have latest : s.made.head? = some (.node kind body) := by simp [gathered.made]
  rcases may with ⟨closed, x, made, shut⟩ | ⟨ending, ⟨x, made, closes, shut⟩ | ⟨afterOperand, may⟩⟩
  · exact Or.inl ⟨_, latest, by simp [Tree.closes, closed],
      Tree.shuts_of_last (gathered.last made) shut⟩
  · have last := gathered.last made
    exact Or.inl ⟨_, latest, by simp [Tree.closes, ending, Tree.lastCloses_eq last, closes],
      Tree.shuts_of_last last shut⟩
  · -- gathering reads nothing, so the statement may still end here
    exact Or.inr ⟨afterOperand, by rw [gathered.unread_eq]; exact may⟩

theorem gather_concludes (before : State source) (mark : Nat) (kind : Kind)
    (free : kind.isFree) :
    ⦃fun s => ⌜s = before⌝⦄ (gather mark kind : Reader source Unit)
    ⦃⇓? _ s => ⌜∀ ground, Steady ground before → ground.older.length ≤ mark →
      Steady ground s ∧ (Shut before → Shut s) ∧
        ((kind.isClosed ∧ Shut before) ∨ (kind.endsWithPart ∧ Ends before) →
          Ends s ∧ (mark = ground.older.length → Concludes ground s))⌝⦄ := by
  rw [triple_iff]
  rintro s u s' rfl h ground steady below
  obtain ⟨lead, body, gathered⟩ := gather_ok h
  refine ⟨gathered.steady steady below (Tree.form_of_free free body), gathered.shut, fun may => ?_⟩
  have ends := gathered.ends may
  refine ⟨ends, ?_⟩
  rintro rfl
  have token : kind.isTrivia = false := by
    cases kind <;> simp_all [Kind.isTrivia, Kind.isClosed, Kind.endsWithPart]
  exact ⟨ends, _, gathered.stands steady token⟩

theorem Took.shut {before s : State source} {w : Text} (took : Took before .punctuation w s)
    (shuts : (Tree.leaf .punctuation w).shuts) : Shut s :=
  ⟨_, (took.stands rfl).latest, shuts⟩

theorem readsShut_expectText {w : Text} {endsOperand : Bool}
    (shuts : (Tree.leaf .punctuation w).shuts) :
    ReadsShut ground (expectText w endsOperand : Reader source Unit) := by
  rw [ReadsShut, triple_iff]
  intro s u s' steady run
  have took := triple_iff.mp (expectText_took s w endsOperand) s u s' rfl run
  exact ⟨took.steady steady, took.shut shuts⟩

theorem readsShut_brace : ReadsShut ground (closing "\x7d" : Reader source Unit) :=
  readsShut_expectText rfl

theorem readsEnd_opening : ReadsEnd ground (opening ";" : Reader source Unit) := by
  rw [ReadsEnd, triple_iff]
  intro s u s' steady run
  have took := triple_iff.mp (expectText_took s ";" false) s u s' rfl run
  exact ⟨took.steady steady, Or.inl ⟨_, (took.stands rfl).latest, rfl, rfl⟩⟩

theorem Ends.afterOperator {s : State source} {afterOperand : Bool}
    (may : endsHere afterOperand s.unread) (b : Bool) : Ends { s with afterOperator := b } :=
  Or.inr ⟨afterOperand, may⟩

theorem readsEnd_semicolon (afterOperand : Bool) :
    ReadsEnd ground (semicolon afterOperand : Reader source Unit) := by
  unfold semicolon
  mvcgen [-keeps_opening, readsEnd_opening]
  grind [Ends.afterOperator]

theorem readsEnd_optionally {content : Reader source Unit} (afterOperand : Bool)
    (kept : Keeps ground content) : ReadsEnd ground (optionally content afterOperand) := by
  unfold optionally
  mvcgen [-keeps_opening, -keeps_semicolon, readsEnd_opening, readsEnd_semicolon, kept]
    <;> grind [Ends.afterOperator]

namespace Ending

attribute [scoped spec] gather_concludes readsShut_brace readsEnd_opening readsEnd_semicolon
  readsEnd_optionally

end Ending

end RequireInjection.Script
