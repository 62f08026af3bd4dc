import Mathlib
import RequireInjection.Proofs.Script.Form
import RequireInjection.Script.Parse

/-!
What the steps of a reader keep. Every rule leaves the trees alone that were made before it began,
returns to the setting in which it began, and makes trees whose nodes are of their forms. The steps
are treated here, the rules that consist of them elsewhere.
-/
namespace RequireInjection.Script

open Std.Do Grammar Reader

set_option mvcgen.warning false

variable {source : Text}

theorem triple_iff {α : Type} {p : Reader source α} {P : State source → Prop}
    {Q : α → State source → Prop} :
    (⦃fun s => ⌜P s⌝⦄ p ⦃⇓? a s => ⌜Q a s⌝⦄) ↔ ∀ s a s', P s → p s = .ok (a, s') → Q a s' := by
  have unfolded : ∀ s, (wp p).apply (PostCond.mayThrow fun a s => ⌜Q a s⌝) s =
      (wp (p s)).apply (PostCond.mayThrow fun r => ⌜Q r.1 r.2⌝) := fun s => rfl
  constructor
  · intro h s a s' hs hp
    have result := h s hs
    rw [unfolded, hp] at result
    exact result
  · intro h s hs
    rw [unfolded]
    cases hp : p s with
    | error fault => trivial
    | ok r => exact h s r.1 r.2 hs hp

theorem triple_ite {α : Type} {c : Prop} [Decidable c] {p q : Reader source α}
    {P : State source → Prop} {Q : α → State source → Prop}
    (first : ⦃fun s => ⌜P s⌝⦄ p ⦃⇓? a s => ⌜Q a s⌝⦄)
    (second : ⦃fun s => ⌜P s⌝⦄ q ⦃⇓? a s => ⌜Q a s⌝⦄) :
    ⦃fun s => ⌜P s⌝⦄ (if c then p else q) ⦃⇓? a s => ⌜Q a s⌝⦄ := by
  split
  · exact first
  · exact second

theorem triple_looks {α β : Type} {p : Reader source α} {f : α → Reader source β}
    {P : State source → Prop} {Q : β → State source → Prop}
    (looks : ∀ before, ⦃fun s => ⌜s = before⌝⦄ p ⦃⇓? _ s => ⌜s = before⌝⦄)
    (next : ∀ a, ⦃fun s => ⌜P s⌝⦄ f a ⦃⇓? b s => ⌜Q b s⌝⦄) :
    ⦃fun s => ⌜P s⌝⦄ (p >>= f) ⦃⇓? b s => ⌜Q b s⌝⦄ := by
  have same : ⦃fun s => ⌜P s⌝⦄ p ⦃⇓? _ s => ⌜P s⌝⦄ := by
    rw [triple_iff]
    intro s a s' held run
    rw [triple_iff.mp (looks s) s a s' rfl run]
    exact held
  mvcgen [same, next]

theorem triple_orElse {α : Type} {p q : Reader source α} {P : State source → Prop}
    {Q : α → State source → Prop} (first : ⦃fun s => ⌜P s⌝⦄ p ⦃⇓? a s => ⌜Q a s⌝⦄)
    (second : ⦃fun s => ⌜P s⌝⦄ q ⦃⇓? a s => ⌜Q a s⌝⦄) :
    ⦃fun s => ⌜P s⌝⦄ orElse p q ⦃⇓? a s => ⌜Q a s⌝⦄ := by
  rw [triple_iff] at *
  intro s a s' hs h
  simp only [Reader.orElse] at h
  split at h
  · cases h
    exact first _ _ _ hs ‹_›
  · split at h
    · cases h
      exact second _ _ _ hs ‹_›
    · cases h

theorem triple_discard {α : Type} {p : Reader source α} {P Q : State source → Prop}
    (kept : ⦃fun s => ⌜P s⌝⦄ p ⦃⇓? _ s => ⌜Q s⌝⦄) :
    ⦃fun s => ⌜P s⌝⦄ discard p ⦃⇓? _ s => ⌜Q s⌝⦄ := by
  have unfolded : discard p = p >>= fun _ => pure () := rfl
  rw [unfolded]
  mvcgen [kept]

theorem triple_fail {α : Type} {P : State source → Prop} {Q : α → State source → Prop} :
    ⦃fun s => ⌜P s⌝⦄ (fail : Reader source α) ⦃⇓? a s => ⌜Q a s⌝⦄ := by
  rw [triple_iff]
  intro s a s' _ h
  cases h

/-- What a rule must leave as it is: the trees made before it began, and the setting. -/
structure Ground where
  older : List Tree
  setting : Setting

structure Steady (ground : Ground) (s : State source) : Prop where
  older : ground.older <:+ s.made
  formed : Tree.AllFormed s.made
  setting_eq : s.setting = ground.setting

abbrev Keeps {α : Type} (ground : Ground) (p : Reader source α) : Prop :=
  ⦃fun s => ⌜Steady ground s⌝⦄ p ⦃⇓? _ s => ⌜Steady ground s⌝⦄

def Stands (older : List Tree) (x : Tree) (s : State source) : Prop :=
  x.isTrivia = false ∧ ∃ lead, s.made = x :: (lead ++ older) ∧ ∀ t ∈ lead, t.isTrivia

variable {ground : Ground}

theorem shift_ok {kind : Kind} {count : Nat} {s s' : State source} {u : Unit}
    (h : Reader.shift kind count s = .ok (u, s')) :
    s'.made = .leaf kind (s.unread.take count) :: s.made ∧ s'.unread = s.unread.drop count ∧
      s'.setting = s.setting ∧ s'.afterOperator = s.afterOperator := by
  simp only [Reader.shift] at h
  split at h
  · cases h
  · rename_i shifted
    cases h
    simp only [State.shift] at shifted
    split at shifted
    · cases shifted
    · cases shifted
      exact ⟨rfl, rfl, rfl, rfl⟩

/-- The trees since a mark have become the children of one node; trivia before the first other tree
stay outside of it. -/
structure Gathered (before : State source) (mark : Nat) (kind : Kind) (lead body : List Tree)
    (s : State source) : Prop where
  whole : (before.made.take (before.made.length - mark)).reverse = lead ++ body
  trivia : ∀ t ∈ lead, t.isTrivia
  token : ∀ t ∈ body.head?, t.isTrivia = false
  nonempty : body ≠ []
  made : s.made = .node kind body ::
    (lead.reverse ++ before.made.drop (before.made.length - mark))
  unread_eq : s.unread = before.unread
  operator_eq : s.afterOperator = before.afterOperator
  setting_eq : s.setting = before.setting

theorem gather_ok {mark : Nat} {kind : Kind} {s s' : State source} {u : Unit}
    (h : Reader.gather mark kind s = .ok (u, s')) :
    ∃ lead body, Gathered s mark kind lead body s' := by
  simp only [Reader.gather] at h
  split at h
  · cases h
  · rename_i gathered
    cases h
    simp only [State.gather] at gathered
    split at gathered
    · cases gathered
    · rename_i proper
      cases gathered
      refine ⟨_, _, List.takeWhile_append_dropWhile.symm, ?_, ?_, (not_or.mp proper).2, rfl, rfl, rfl,
        rfl⟩
      · intro t member
        exact List.mem_takeWhile_imp member
      · intro t head
        have stops := List.head?_dropWhile_not Tree.isTrivia
          (s.made.take (s.made.length - mark)).reverse
        simp only [Option.mem_def] at head
        simpa [head] using stops

theorem Gathered.ahead {before s : State source} {mark : Nat} {kind : Kind} {lead body : List Tree}
    (gathered : Gathered before mark kind lead body s) : s.ahead = before.ahead := by
  simp [State.ahead, gathered.unread_eq, gathered.operator_eq]

theorem triviaWithin_kinds {afterOperator : Bool} {n : Nat} {t : Text} :
    ∀ x ∈ triviaWithin afterOperator n t, x.1.isTrivia := by
  induction n generalizing t with
  | zero => simp [triviaWithin]
  | succ n ih =>
    intro x member
    simp only [triviaWithin] at member
    split at member
    · split at member
      · simp at member
      · rcases List.mem_cons.mp member with rfl | later
        · rfl
        · exact ih x later
    · rcases List.mem_cons.mp member with rfl | later
      · rfl
      · exact ih x later

structure Passed (before s : State source) : Prop where
  made : ∃ lead, s.made = lead ++ before.made ∧ ∀ t ∈ lead, t.isTrivia ∧ t.Formed
  setting_eq : s.setting = before.setting

structure Took (before : State source) (kind : Kind) (text : Text) (s : State source) : Prop where
  made : ∃ lead, s.made = .leaf kind text :: (lead ++ before.made) ∧
    ∀ t ∈ lead, t.isTrivia ∧ t.Formed
  setting_eq : s.setting = before.setting

theorem shift_leaf (before : State source) (kind : Kind) (count : Nat) :
    ⦃fun s => ⌜s = before⌝⦄ (Reader.shift kind count : Reader source Unit)
    ⦃⇓? _ s => ⌜s.made = .leaf kind (before.unread.take count) :: before.made ∧
      s.unread = before.unread.drop count ∧ s.setting = before.setting⌝⦄ := by
  rw [triple_iff]
  rintro s a s' rfl h
  obtain ⟨hmade, hunread, hsetting, -⟩ := shift_ok h
  exact ⟨hmade, hunread, hsetting⟩

theorem passTrivia_passed (before : State source) :
    ⦃fun s => ⌜s = before⌝⦄ (passTrivia : Reader source Unit)
    ⦃⇓? _ s => ⌜Passed before s ∧ s.unread = before.ahead⌝⦄ := by
  mvcgen [passTrivia, shift_leaf] invariants
  · ⇓? ⟨xs, _⟩ s => ⌜Passed before s ∧
      s.unread =
        (List.foldl (fun rest piece => rest.drop piece.2) before.unread <| List.Cursor.prefix xs)⌝
  case vc1.step.post.success =>
    rename_i s₀ start pref cur suff split _ s₁ passed _ s₂ shifted
    obtain ⟨⟨⟨lead, hmade, trivia⟩, hsetting⟩, hunread⟩ := passed
    obtain ⟨hmade', hunread', hsetting'⟩ := shifted
    have member : cur ∈ s₀.trivia := by simp [split]
    have blank : cur.1.isTrivia := triviaWithin_kinds cur member
    refine ⟨⟨⟨_ :: lead, by rw [hmade', hmade]; rfl, ?_⟩, hsetting'.trans hsetting⟩, ?_⟩
    · simpa [Tree.isTrivia, Tree.kind, blank] using trivia
    · rw [hunread', hunread, List.foldl_append]
      rfl
  case vc3.pre =>
    rename_i s₀ start
    subst start
    exact ⟨⟨⟨[], rfl, by simp⟩, rfl⟩, by simp⟩
  case vc4.post.success =>
    rename_i s₀ start _ s₁ passed
    subst start
    exact passed

theorem take_took (before : State source) (kind : Kind) (count : Nat) (endsOperand : Bool) :
    ⦃fun s => ⌜s = before⌝⦄ (take kind count endsOperand : Reader source Unit)
    ⦃⇓? _ s => ⌜Took before kind (before.ahead.take count) s⌝⦄ := by
  mvcgen [take, passTrivia_passed, shift_leaf]
  rename_i start _ s₁ passed _ s₂ shifted _
  subst start
  obtain ⟨⟨⟨lead, hmade, trivia⟩, hsetting⟩, hunread⟩ := passed
  obtain ⟨hmade', -, hsetting'⟩ := shifted
  exact ⟨⟨lead, by rw [hmade', hmade, hunread], trivia⟩, hsetting'.trans hsetting⟩

theorem take_of_startsWith {t w : Text} (h : Text.startsWith t w) : t.take w.length = w := by
  obtain ⟨rest, stripped⟩ := Option.isSome_iff_exists.mp h
  rw [Text.eq_append_of_stripPrefix? stripped]
  simp

theorem expectText_took (before : State source) (w : Text) (endsOperand : Bool) :
    ⦃fun s => ⌜s = before⌝⦄ (expectText w endsOperand : Reader source Unit)
    ⦃⇓? _ s => ⌜Took before .punctuation w s⌝⦄ := by
  mvcgen [expectText, seesText, ahead, fail, take_took]
  rename_i start begins _ s₁
  subst start
  rw [take_of_startsWith begins]
  exact id

theorem Steady.push {s s' : State source} (steady : Steady ground s) (new : List Tree)
    (made : s'.made = new ++ s.made) (formed : ∀ t ∈ new, t.Formed)
    (same : s'.setting = s.setting) : Steady ground s' := by
  refine ⟨?_, ?_, same.trans steady.setting_eq⟩
  · rw [made]
    exact steady.older.trans (List.suffix_append _ _)
  · rw [made, Tree.allFormed_iff]
    intro t member
    rcases List.mem_append.mp member with added | old
    · exact formed t added
    · exact (Tree.allFormed_iff _).mp steady.formed t old

@[grind →] theorem Took.steady {before s : State source} {kind : Kind} {text : Text}
    (took : Took before kind text s) (steady : Steady ground before) :
    Steady ground s := by
  obtain ⟨⟨lead, made, trivia⟩, same⟩ := took
  refine steady.push (.leaf kind text :: lead) (by simpa using made) ?_ same
  intro t member
  rcases List.mem_cons.mp member with rfl | blank
  · simp
  · exact (trivia t blank).2

theorem Took.stands {before s : State source} {kind : Kind} {text : Text}
    (took : Took before kind text s) (token : kind.isTrivia = false) :
    Stands before.made (.leaf kind text) s := by
  obtain ⟨⟨lead, made, trivia⟩, -⟩ := took
  exact ⟨token, lead, made, fun t member => (trivia t member).1⟩

section Looking

variable (before : State source)

@[spec] theorem ahead_looks : ⦃fun s => ⌜s = before⌝⦄ (ahead : Reader source Text)
    ⦃⇓? _ s => ⌜s = before⌝⦄ := by
  mvcgen [ahead]

@[spec] theorem mark_looks : ⦃fun s => ⌜s = before⌝⦄ (mark : Reader source Nat)
    ⦃⇓? m s => ⌜s = before ∧ m = before.made.length⌝⦄ := by
  mvcgen [mark]
  simp_all

@[spec] theorem since_looks (m : Nat) : ⦃fun s => ⌜s = before⌝⦄
    (since m : Reader source (List Tree)) ⦃⇓? _ s => ⌜s = before⌝⦄ := by
  mvcgen [since]

@[spec] theorem latest_looks : ⦃fun s => ⌜s = before⌝⦄
    (latest? : Reader source (Option Tree)) ⦃⇓? _ s => ⌜s = before⌝⦄ := by
  mvcgen [latest?]

@[spec] theorem sees_looks (m : Text) : ⦃fun s => ⌜s = before⌝⦄
    (sees m : Reader source Bool) ⦃⇓? _ s => ⌜s = before⌝⦄ := by
  mvcgen [sees]
  simp_all

@[spec] theorem seesWord_looks (w : Text) : ⦃fun s => ⌜s = before⌝⦄
    (seesWord w : Reader source Bool) ⦃⇓? _ s => ⌜s = before⌝⦄ := by
  mvcgen [seesWord]
  simp_all

@[spec] theorem seesText_looks (w : Text) : ⦃fun s => ⌜s = before⌝⦄
    (seesText w : Reader source Bool) ⦃⇓? _ s => ⌜s = before⌝⦄ := by
  mvcgen [seesText]
  simp_all

@[spec] theorem mayEndStatement_looks (afterOperand : Bool) : ⦃fun s => ⌜s = before⌝⦄
    (mayEndStatement afterOperand : Reader source Bool) ⦃⇓? _ s => ⌜s = before⌝⦄ := by
  mvcgen [mayEndStatement]

end Looking

theorem keeps_of_relation {α : Type} {p : Reader source α} {R : State source → State source → Prop}
    (related : ∀ before, ⦃fun s => ⌜s = before⌝⦄ p ⦃⇓? _ s => ⌜R before s⌝⦄)
    (kept : ∀ before s, R before s → Steady ground before → Steady ground s) :
    Keeps ground p := by
  refine triple_iff.mpr ?_
  intro s a s' steady h
  exact kept s s' (triple_iff.mp (related s) s a s' rfl h) steady

theorem relation_of_keeps {α : Type} {p : Reader source α} (kept : ∀ ground, Keeps ground p)
    (before : State source) :
    ⦃fun s => ⌜s = before⌝⦄ p ⦃⇓? _ s => ⌜∀ ground, Steady ground before → Steady ground s⌝⦄ := by
  rw [triple_iff]
  rintro s a s' rfl h ground steady
  exact triple_iff.mp (kept ground) s a s' steady h

@[spec] theorem fail_stops {α : Type} :
    ⦃fun _ => ⌜True⌝⦄ (fail : Reader source α) ⦃⇓? _ _ => ⌜False⌝⦄ :=
  triple_fail

theorem keeps_take (kind : Kind) (count : Nat) (endsOperand : Bool) :
    Keeps ground (take kind count endsOperand : Reader source Unit) :=
  keeps_of_relation (fun before => take_took before kind count endsOperand)
    fun _ _ took steady => took.steady steady

theorem keeps_passTrivia : Keeps ground (passTrivia : Reader source Unit) := by
  refine keeps_of_relation passTrivia_passed ?_
  rintro before s ⟨⟨⟨lead, made, trivia⟩, same⟩, -⟩ steady
  exact steady.push lead made (fun t member => (trivia t member).2) same

theorem keeps_shift (kind : Kind) (count : Nat) :
    Keeps ground (Reader.shift kind count : Reader source Unit) := by
  refine keeps_of_relation (fun before => shift_leaf before kind count) ?_
  rintro before s ⟨made, -, same⟩ steady
  exact steady.push [_] made (by simp) same

theorem keeps_expectText (w : Text) (endsOperand : Bool) :
    Keeps ground (expectText w endsOperand : Reader source Unit) :=
  keeps_of_relation (fun before => expectText_took before w endsOperand)
    fun _ _ took steady => took.steady steady

namespace Keeping

attribute [scoped spec] keeps_take keeps_passTrivia keeps_shift keeps_expectText

end Keeping

open Keeping

theorem keeps_accept (w : Text) : Keeps ground (accept w : Reader source Bool) := by
  mvcgen [accept] <;> simp_all

theorem keeps_acceptWord (w : Text) : Keeps ground (acceptWord w : Reader source Bool) := by
  mvcgen [acceptWord] <;> simp_all

theorem keeps_expectWord (w : Text) : Keeps ground (expectWord w : Reader source Unit) := by
  mvcgen [expectWord, keeps_acceptWord]
  exact False.elim

theorem keeps_anyWord (kind : Kind) : Keeps ground (anyWord kind : Reader source Unit) := by
  mvcgen [anyWord]
  simp_all

theorem keeps_semicolon (afterOperand : Bool) :
    Keeps ground (semicolon afterOperand : Reader source Unit) := by
  mvcgen [semicolon, opening]
  rename_i s steady _ _
  exact steady.push [] rfl (by simp) rfl

theorem keeps_orElse {α : Type} {p q : Reader source α} (first : Keeps ground p)
    (second : Keeps ground q) : Keeps ground (orElse p q) :=
  triple_orElse first second

theorem keeps_within {α : Type} {p : Reader source α} {change : Setting → Setting}
    (inner : ∀ inside : Ground, inside.older = ground.older → Keeps inside p) :
    Keeps ground (within change p) := by
  have changed := inner ⟨ground.older, change ground.setting⟩ rfl
  mvcgen [within, changed]
  case vc1.pre =>
    rename_i s steady _ _
    exact ⟨steady.older, steady.formed, congrArg change steady.setting_eq⟩
  case vc2.post.success =>
    rename_i s steady _ _ _ s' kept _
    exact ⟨kept.older, kept.formed, steady.setting_eq⟩

theorem drop_since {older made : List Tree} (h : older <:+ made) {mark : Nat}
    (below : older.length ≤ mark) : older <:+ made.drop (made.length - mark) := by
  have shorter := h.length_le
  refine List.suffix_of_suffix_length_le h (List.drop_suffix _ _) ?_
  rw [List.length_drop]
  omega

theorem gather_gathered (before : State source) (mark : Nat) (kind : Kind) :
    ⦃fun s => ⌜s = before⌝⦄ (gather mark kind : Reader source Unit)
    ⦃⇓? _ s => ⌜∃ lead body, Gathered before mark kind lead body s⌝⦄ := by
  rw [triple_iff]
  rintro s a s' rfl h
  exact gather_ok h

theorem Gathered.steady {before s : State source} {mark : Nat} {kind : Kind} {lead body : List Tree}
    (gathered : Gathered before mark kind lead body s) (steady : Steady ground before)
    (below : ground.older.length ≤ mark) (form : Tree.Form kind body) : Steady ground s := by
  have formed := (Tree.allFormed_iff _).mp steady.formed
  have fresh : ∀ t ∈ lead ++ body, t.Formed := by
    intro t member
    rw [← gathered.whole, List.mem_reverse] at member
    exact formed t (List.mem_of_mem_take member)
  refine ⟨?_, ?_, gathered.setting_eq.trans steady.setting_eq⟩
  · rw [gathered.made]
    exact (drop_since steady.older below).trans
      ((List.suffix_append _ _).trans (List.suffix_cons _ _))
  · rw [gathered.made, Tree.allFormed_iff]
    intro t member
    rcases List.mem_cons.mp member with rfl | member
    · rw [Tree.formed_node, Tree.allFormed_iff]
      exact ⟨form, fun u hu => fresh u (List.mem_append_right _ hu)⟩
    · rcases List.mem_append.mp member with leading | old
      · exact fresh t (List.mem_append_left _ (List.mem_reverse.mp leading))
      · exact formed t (List.mem_of_mem_drop old)

def State.EndsInToken (s : State source) : Prop := ∀ t ∈ s.made.head?, t.isTrivia = false

def State.Enclosed (mark : Nat) (s : State source) : Prop :=
  ∃ older lead inner, older.length = mark ∧ (∀ t ∈ lead, t.isTrivia) ∧
    s.made = .leaf .punctuation [')'] :: (inner ++ .leaf .punctuation ['('] :: (lead ++ older))

/-- What has been read since the mark can become a node of the kind. -/
@[grind] def State.Yields (mark : Nat) (s : State source) : Kind → Prop
  | .binaryExpression => False
  | .arguments => s.Enclosed mark
  | .callExpression => s.EndsInToken
  | .blank | .comment | .hashBang => False
  | _ => True

@[grind ←] theorem State.yields_of_free {mark : Nat} {s : State source} {kind : Kind}
    (free : kind.isFree) : s.Yields mark kind := by
  cases kind <;> trivial

theorem Gathered.endsInToken {before s : State source} {mark : Nat} {kind : Kind}
    {lead body : List Tree} (gathered : Gathered before mark kind lead body s)
    (token : kind.isTrivia = false) : s.EndsInToken := by
  intro t latest
  obtain rfl : .node kind body = t := by simpa [gathered.made] using latest
  exact token

theorem Gathered.latest {before s : State source} {mark : Nat} {kind : Kind} {lead body : List Tree}
    (gathered : Gathered before mark kind lead body s) {t : Tree} (last : t ∈ body.getLast?) :
    t ∈ before.made.head? := by
  have whole : t ∈ (lead ++ body).getLast? := by
    simp only [Option.mem_def] at last ⊢
    simp [last]
  rw [← gathered.whole, List.getLast?_reverse, List.head?_take] at whole
  split at whole
  · cases whole
  · exact whole

theorem Gathered.body_eq {before s : State source} {mark : Nat} {kind : Kind}
    {lead body : List Tree} (gathered : Gathered before mark kind lead body s) :
    body = (before.made.take (before.made.length - mark)).reverse.dropWhile Tree.isTrivia := by
  rw [gathered.whole, List.dropWhile_append_of_pos gathered.trivia]
  cases body with
  | nil => rfl
  | cons t ts =>
    have token := gathered.token t rfl
    simp [token]

theorem Gathered.bracketed {before s : State source} {mark : Nat} {kind : Kind}
    {lead body : List Tree} (gathered : Gathered before mark kind lead body s)
    (enclosed : before.Enclosed mark) : Tree.Bracketed body := by
  obtain ⟨older, leading, inner, length, trivia, made⟩ := enclosed
  refine ⟨inner.reverse, ?_⟩
  have newer : before.made.take (before.made.length - mark) =
      .leaf .punctuation [')'] :: (inner ++ .leaf .punctuation ['('] :: leading) := by
    have split : before.made =
        (.leaf .punctuation [')'] :: (inner ++ .leaf .punctuation ['('] :: leading)) ++ older := by
      rw [made]
      simp
    rw [split, ← length, List.length_append, Nat.add_sub_cancel, List.take_left]
  have lead_trivia : ∀ t ∈ leading.reverse, t.isTrivia :=
    fun t member => trivia t (List.mem_reverse.mp member)
  rw [gathered.body_eq, newer]
  simp only [List.reverse_cons, List.reverse_append, List.append_assoc]
  rw [List.dropWhile_append_of_pos lead_trivia]
  simp [Tree.isTrivia, Tree.kind, Kind.isTrivia]

theorem Gathered.form {before s : State source} {mark : Nat} {kind : Kind} {lead body : List Tree}
    (gathered : Gathered before mark kind lead body s) (yields : before.Yields mark kind) :
    Tree.Form kind body := by
  cases kind with
  | binaryExpression => cases yields
  | arguments => exact gathered.bracketed yields
  | callExpression => exact fun t last => yields t (gathered.latest last)
  | blank | comment | hashBang => cases yields
  | _ => trivial

theorem keeps_gather {mark : Nat} {kind : Kind} (below : ground.older.length ≤ mark)
    (free : kind.isFree) : Keeps ground (gather mark kind : Reader source Unit) := by
  refine keeps_of_relation (fun before => gather_gathered before mark kind) ?_
  rintro before s ⟨lead, body, gathered⟩ steady
  exact gathered.steady steady below (Tree.form_of_free free body)

theorem gather_yields (before : State source) (mark : Nat) (kind : Kind) :
    ⦃fun s => ⌜s = before⌝⦄ (gather mark kind : Reader source Unit)
    ⦃⇓? _ s => ⌜before.Yields mark kind → ∀ ground, Steady ground before →
      ground.older.length ≤ mark → Steady ground s⌝⦄ := by
  rw [triple_iff]
  rintro s u s' rfl h yields ground steady below
  obtain ⟨lead, body, gathered⟩ := gather_ok h
  exact gathered.steady steady below (gathered.form yields)

theorem keeps_discard {α : Type} {p : Reader source α} (kept : Keeps ground p) :
    Keeps ground (discard p) :=
  triple_discard kept

theorem keeps_opening (m : Text) : Keeps ground (opening m : Reader source Unit) :=
  keeps_expectText m false

theorem keeps_closing (m : Text) : Keeps ground (closing m : Reader source Unit) :=
  keeps_expectText m true

theorem keeps_bracketed {α : Type} {p : Reader source α}
    (inner : ∀ inside : Ground, inside.older = ground.older → Keeps inside p) :
    Keeps ground (bracketed p) :=
  keeps_within inner

theorem keeps_block {α : Type} {p : Reader source α}
    (inner : ∀ inside : Ground, inside.older = ground.older → Keeps inside p) :
    Keeps ground (Reader.block p) :=
  keeps_within inner

namespace Keeping

attribute [scoped spec] keeps_accept keeps_acceptWord keeps_expectWord keeps_anyWord
  keeps_semicolon keeps_orElse keeps_within keeps_gather keeps_discard keeps_opening keeps_closing
  keeps_bracketed keeps_block

end Keeping

@[grind →] theorem Steady.length_le {s : State source} (steady : Steady ground s) :
    ground.older.length ≤ s.made.length :=
  steady.older.length_le

@[grind ←] theorem Steady.afterOperator {s : State source} (steady : Steady ground s) (b : Bool) :
    Steady ground { s with afterOperator := b } :=
  steady.push [] rfl (by simp) rfl

def State.here (s : State source) : Ground := ⟨s.made, s.setting⟩

theorem steady_here {s : State source} (formed : Tree.AllFormed s.made) : Steady s.here s :=
  ⟨List.suffix_refl _, formed, rfl⟩

theorem Steady.trans {before s : State source} (steady : Steady ground before)
    (kept : Steady before.here s) : Steady ground s :=
  ⟨steady.older.trans kept.older, kept.formed, kept.setting_eq.trans steady.setting_eq⟩

theorem enclosed_between {before opened inside closed : State source}
    (steady : Steady ground before) (first : Took before .punctuation ['('] opened)
    (within : ∀ ground, Steady ground opened → Steady ground inside)
    (last : Took inside .punctuation [')'] closed) :
    Steady ground closed ∧ closed.Enclosed before.made.length := by
  have o_steady := first.steady steady
  have i_steady := within opened.here (steady_here o_steady.formed)
  refine ⟨last.steady (o_steady.trans i_steady), ?_⟩
  obtain ⟨⟨lead, hopened, trivia⟩, -⟩ := first
  obtain ⟨⟨behind, hclosed, -⟩, -⟩ := last
  obtain ⟨inner, hinside⟩ := i_steady.older
  refine ⟨before.made, lead, behind ++ inner, rfl, fun t member => (trivia t member).1, ?_⟩
  have made : opened.here.older = .leaf .punctuation ['('] :: (lead ++ before.made) := hopened
  rw [hclosed, ← hinside, made, List.append_assoc]

end RequireInjection.Script
