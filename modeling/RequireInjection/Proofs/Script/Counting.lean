import RequireInjection.Proofs.Script.Steps
import RequireInjection.Proofs.Script.Tally

namespace RequireInjection.Script

open Std.Do Grammar Reader

set_option mvcgen.warning false

variable {source : Text}

namespace Tree

theorem marks_of_single {x : Tree} (formed : x.Formed)
    (single : x.kind = .blank ∨ x.kind = .comment ∨ x.kind = .hashBang) : x.marks = [] := by
  cases x with
  | leaf k text =>
    have silent : k.isMark = false := by rcases single with rfl | rfl | rfl <;> rfl
    simp [silent]
  | node k cs => rcases single with rfl | rfl | rfl <;> simp [Form] at formed

theorem marks_of_trivia {x : Tree} (formed : x.Formed) (trivia : x.isTrivia) : x.marks = [] := by
  refine marks_of_single formed ?_
  rw [isTrivia] at trivia
  revert trivia
  cases x.kind <;> simp [Kind.isTrivia]

theorem marksOfAll_of_silent {ts : List Tree} (silent : ∀ t ∈ ts, t.marks = []) :
    marksOfAll ts = [] := by
  induction ts with
  | nil => simp
  | cons t ts ih =>
    rw [marksOfAll_cons, silent t List.mem_cons_self, List.nil_append,
      ih fun u member => silent u (List.mem_cons_of_mem t member)]

/-- The tally after trees, latest first. -/
def tallyOf (made : List Tree) : Tally := Tally.start.afterAll (marksOfAll made.reverse)

theorem tallyOf_append (new older : List Tree) :
    tallyOf (new ++ older) = (tallyOf older).afterAll (marksOfAll new.reverse) := by
  simp [tallyOf]

theorem tallyOf_cons (x : Tree) (older : List Tree) :
    tallyOf (x :: older) = (tallyOf older).afterAll x.marks := by
  simpa using tallyOf_append [x] older

theorem tallyOf_silent {new : List Tree} (older : List Tree) (silent : ∀ t ∈ new, t.marks = []) :
    tallyOf (new ++ older) = tallyOf older := by
  rw [tallyOf_append, marksOfAll_of_silent fun t member => silent t (List.mem_reverse.mp member),
    Tally.afterAll_nil]

end Tree

def State.tally (s : State source) : Tally := Tree.tallyOf s.made

@[simp, grind =] theorem State.tally_afterOperator (s : State source) (b : Bool) :
    State.tally { s with afterOperator := b } = s.tally := rfl

abbrev Even {α : Type} (t : Tally) (p : Reader source α) : Prop :=
  ⦃fun s => ⌜s.tally = t⌝⦄ p ⦃⇓? _ s => ⌜s.tally = t⌝⦄

/-- What the rules of statements leave as it is: all brackets close again, and semicolons between
brackets do not count. -/
@[grind] def Settled (t : Tally) (s : State source) : Prop :=
  s.tally.due = t.due ∧ (¬ t.AtTop → s.tally = t)

abbrev Settles {α : Type} (t : Tally) (p : Reader source α) : Prop :=
  ⦃fun s => ⌜s.tally = t⌝⦄ p ⦃⇓? _ s => ⌜Settled t s⌝⦄

@[grind] def Grammar.Goal.ends : Goal → Bool
  | .statements _ | .statement | .switchCases | .classMembers => true
  | _ => false

@[grind] def Leaves (goal : Goal) (t : Tally) (s : State source) : Prop :=
  if goal.ends then Settled t s else s.tally = t

variable {t : Tally}

theorem tally_of_relation {α : Type} {p : Reader source α} {R : State source → State source → Prop}
    {f : Tally → Tally} (related : ∀ before, ⦃fun s => ⌜s = before⌝⦄ p ⦃⇓? _ s => ⌜R before s⌝⦄)
    (counted : ∀ before s, R before s → s.tally = f before.tally) (t : Tally) :
    ⦃fun s => ⌜s.tally = t⌝⦄ p ⦃⇓? _ s => ⌜s.tally = f t⌝⦄ := by
  rw [triple_iff]
  rintro s a s' rfl run
  exact counted s s' (triple_iff.mp (related s) s a s' rfl run)

theorem Took.tally {before s : State source} {kind : Kind} {text : Text}
    (took : Took before kind text s) :
    s.tally = before.tally.afterAll (Tree.leaf kind text).marks := by
  obtain ⟨⟨lead, made, trivia⟩, -⟩ := took
  have silent : Tree.tallyOf (lead ++ before.made) = before.tally :=
    Tree.tallyOf_silent before.made fun x member =>
      Tree.marks_of_trivia (trivia x member).2 (trivia x member).1
  rw [← silent, ← Tree.tallyOf_cons, ← made]
  rfl

theorem shift_tally (before : State source) (kind : Kind) (count : Nat) :
    ⦃fun s => ⌜s = before⌝⦄ (Reader.shift kind count : Reader source Unit)
    ⦃⇓? _ s => ⌜s.tally = before.tally.afterAll (Tree.leaf kind (before.unread.take count)).marks ∧
      s.unread = before.unread.drop count⌝⦄ := by
  rw [triple_iff]
  rintro s u s' rfl run
  obtain ⟨made, unread, -⟩ := shift_ok run
  exact ⟨(congrArg Tree.tallyOf made).trans (Tree.tallyOf_cons _ s.made), unread⟩

theorem even_shift {kind : Kind} (count : Nat) (silent : kind.isMark = false) :
    Even t (Reader.shift kind count : Reader source Unit) := by
  refine tally_of_relation (f := id) (fun before => shift_tally before kind count) ?_ t
  intro before s shifted
  simp [shifted.1, silent]

theorem take_tally (before : State source) (kind : Kind) (count : Nat) (endsOperand : Bool) :
    ⦃fun s => ⌜s = before⌝⦄ (take kind count endsOperand : Reader source Unit)
    ⦃⇓? _ s => ⌜s.tally =
      before.tally.afterAll (Tree.leaf kind (before.ahead.take count)).marks⌝⦄ := by
  rw [triple_iff]
  rintro s u s' rfl run
  exact (triple_iff.mp (take_took s kind count endsOperand) s u s' rfl run).tally

theorem even_take {kind : Kind} (count : Nat) (endsOperand : Bool) (silent : kind.isMark = false) :
    Even t (take kind count endsOperand : Reader source Unit) := by
  refine tally_of_relation (f := id) (fun before => take_tally before kind count endsOperand) ?_ t
  intro before s taken
  simp [taken, silent]

theorem expectText_tally (w : Text) (endsOperand : Bool) :
    ⦃fun s => ⌜s.tally = t⌝⦄ (expectText w endsOperand : Reader source Unit)
    ⦃⇓? _ s => ⌜s.tally = t.afterAll w⌝⦄ := by
  refine tally_of_relation (f := fun t => t.afterAll w)
    (fun before => expectText_took before w endsOperand) ?_ t
  intro before s took
  simp [took.tally, Kind.isMark]

theorem opening_tally (m : Text) : ⦃fun s => ⌜s.tally = t⌝⦄ (opening m : Reader source Unit)
    ⦃⇓? _ s => ⌜s.tally = t.afterAll m⌝⦄ :=
  expectText_tally m false

theorem closing_tally (m : Text) : ⦃fun s => ⌜s.tally = t⌝⦄ (closing m : Reader source Unit)
    ⦃⇓? _ s => ⌜s.tally = t.afterAll m⌝⦄ :=
  expectText_tally m true

theorem punctuator_prefix (text : Text) :
    text.take (punctuator text).length = punctuator text := by
  unfold punctuator
  split
  · rename_i m found
    have begins := take_of_startsWith (List.find?_some found)
    split
    · rename_i optional
      simp only [Bool.and_eq_true, beq_iff_eq] at optional
      have first := congrArg (List.take 1) begins
      rw [optional.1, List.take_take] at first
      exact first
    · exact begins
  · rw [List.length_take, ← List.take_eq_take_min]

theorem accept_tally (m : Text) : ⦃fun s => ⌜s.tally = t⌝⦄ (accept m : Reader source Bool)
    ⦃⇓? taken s => ⌜s.tally = bif taken then t.afterAll m else t⌝⦄ := by
  mvcgen [-ahead_looks, -sees_looks, accept, sees, ahead, take_took]
  case vc1.isTrue.post.success =>
    rename_i before same begins _ s took
    have text : before.ahead.take m.length = m := by
      rw [← beq_iff_eq.mp begins]
      exact punctuator_prefix _
    simp [took.tally, text, Kind.isMark, same]

theorem take_of_wordText {text w : Text} (read : wordText text = w) : text.take w.length = w := by
  rw [← read, wordText, List.length_take, ← List.take_eq_take_min]

/-- No word holds a semicolon, and its braces close again. -/
theorem even_acceptWord (w : Text) : Even t (acceptWord w : Reader source Bool) := by
  mvcgen [-ahead_looks, -seesWord_looks, acceptWord, seesWord, ahead, take_took]
  case vc1.isTrue.post.success =>
    rename_i before same begins _ s took
    have word := beq_iff_eq.mp begins
    rw [took.tally, take_of_wordText word, ← word]
    simp [Kind.isMark, Tally.afterAll_wordText, same]

theorem even_expectWord (w : Text) : Even t (expectWord w : Reader source Unit) := by
  mvcgen [expectWord, even_acceptWord]
  all_goals simp_all

theorem even_anyWord {kind : Kind} (silent : kind.isMark = false) :
    Even t (anyWord kind : Reader source Unit) := by
  mvcgen [anyWord, even_take] <;> simp_all

theorem semicolon_tally (afterOperand : Bool) :
    ⦃fun s => ⌜s.tally = t⌝⦄ (semicolon afterOperand : Reader source Unit)
    ⦃⇓? _ s => ⌜s.tally = t ∨ s.tally = t.ended⌝⦄ := by
  mvcgen [semicolon, opening_tally]
  case vc1.isTrue =>
    rename_i s kept _ _
    exact Or.inl kept
  case vc2.isFalse.post.success =>
    rename_i s kept _ _ s'
    subst kept
    exact fun read => Or.inr (by simpa [Tally.after] using read)

def State.latestKind? (s : State source) : Option Kind := s.made.head?.map Tree.kind

theorem gather_tally (mark : Nat) (kind : Kind) :
    ⦃fun s => ⌜s.tally = t⌝⦄ (gather mark kind : Reader source Unit)
    ⦃⇓? _ s => ⌜s.tally = t ∧ s.latestKind? = some kind⌝⦄ := by
  rw [triple_iff]
  rintro s u s' rfl run
  obtain ⟨lead, body, gathered⟩ := gather_ok run
  refine ⟨?_, by simp [State.latestKind?, gathered.made, Tree.kind]⟩
  let older := s.made.drop (s.made.length - mark)
  calc s'.tally = Tree.tallyOf (.node kind body :: (lead.reverse ++ older)) :=
        congrArg Tree.tallyOf gathered.made
    _ = (Tree.tallyOf older).afterAll (Tree.marksOfAll (lead ++ body)) := by
        simp [Tree.tallyOf_cons, Tree.tallyOf_append]
    _ = Tree.tallyOf s.made := by
        rw [← gathered.whole, ← Tree.tallyOf_append, List.take_append_drop]

theorem even_orElse {α : Type} {p q : Reader source α} (first : Even t p) (second : Even t q) :
    Even t (orElse p q) :=
  triple_orElse first second

theorem even_discard {α : Type} {p : Reader source α} (kept : Even t p) :
    Even t (discard p) :=
  triple_discard kept

theorem even_within {α : Type} {p : Reader source α} {change : Setting → Setting}
    (inner : Even t p) : Even t (within change p) := by
  mvcgen [within, inner]

theorem even_bracketed {α : Type} {p : Reader source α} (inner : Even t p) :
    Even t (bracketed p) :=
  even_within inner

theorem even_block {α : Type} {p : Reader source α} (inner : Even t p) : Even t (Reader.block p) :=
  even_within inner

namespace Counting

attribute [scoped spec] even_shift even_take opening_tally closing_tally accept_tally
  even_acceptWord even_expectWord even_anyWord semicolon_tally gather_tally even_discard even_within
  even_bracketed even_block

end Counting

end RequireInjection.Script
