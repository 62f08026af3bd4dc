import Mathlib.Tactic.SplitIfs
import RequireInjection.Script.Lexeme

/-!
Brackets and semicolons, counted along a text: the brackets that are due to close, and how many
semicolons stand outside of all brackets. Of a tree only the leaves count that are signs; what the
others hold closes again or is neither.
-/
namespace RequireInjection.Script

structure Tally where
  /-- The brackets that are due to close, the next one first; none if a wrong one has closed. -/
  due : Option (List Char)
  /-- The semicolons outside of all brackets. -/
  ends : Nat

namespace Tally

def start : Tally := ⟨some [], 0⟩

def AtTop (t : Tally) : Prop := t.due = some []

instance (t : Tally) : Decidable t.AtTop := inferInstanceAs (Decidable (_ = _))

def opened (t : Tally) (closing : Char) : Tally := { t with due := t.due.map (closing :: ·) }

def closed (t : Tally) (closing : Char) : Tally :=
  { t with due := t.due.bind fun waiting =>
      if waiting.head? = some closing then some waiting.tail else none }

def ended (t : Tally) : Tally := if t.AtTop then { t with ends := t.ends + 1 } else t

@[grind =] def after (t : Tally) (c : Char) : Tally :=
  if c = '(' then t.opened ')'
  else if c = '[' then t.opened ']'
  else if c = '\x7b' then t.opened '\x7d'
  else if c = ')' ∨ c = ']' ∨ c = '\x7d' then t.closed c
  else if c = ';' then t.ended
  else t

def afterAll (t : Tally) (text : Text) : Tally := text.foldl after t

@[simp, grind =] theorem afterAll_nil (t : Tally) : t.afterAll [] = t := rfl

@[simp, grind =] theorem afterAll_cons (t : Tally) (c : Char) (text : Text) :
    t.afterAll (c :: text) = (t.after c).afterAll text := rfl

@[simp] theorem afterAll_append (t : Tally) (a b : Text) :
    t.afterAll (a ++ b) = (t.afterAll a).afterAll b := List.foldl_append

@[simp, grind =] theorem closed_opened (t : Tally) (c : Char) : (t.opened c).closed c = t := by
  obtain ⟨due, ends⟩ := t
  cases due <;> simp [opened, closed]

@[simp, grind ←] theorem not_atTop_opened (t : Tally) (c : Char) : ¬ (t.opened c).AtTop := by
  obtain ⟨due, ends⟩ := t
  cases due <;> simp [opened, AtTop]

@[grind =] theorem ended_of_not_atTop {t : Tally} (inside : ¬ t.AtTop) : t.ended = t := if_neg inside

@[simp, grind =] theorem due_ended (t : Tally) : t.ended.due = t.due := by
  simp only [ended]
  split <;> rfl

@[grind ←] theorem ends_ended_le (t : Tally) : t.ended.ends ≤ t.ends + 1 := by
  simp only [ended]
  split <;> simp

theorem ends_le_after (t : Tally) (c : Char) : t.ends ≤ (t.after c).ends := by
  simp only [after, opened, closed, ended]
  split_ifs <;> simp

theorem ends_le_afterAll (t : Tally) (text : Text) : t.ends ≤ (t.afterAll text).ends := by
  induction text generalizing t with
  | nil => exact Nat.le_refl _
  | cons c cs ih => exact Nat.le_trans (t.ends_le_after c) (ih _)

theorem after_of_none {t : Tally} (wrong : t.due = none) (c : Char) : t.after c = t := by
  obtain ⟨due, ends⟩ := t
  obtain rfl : due = none := wrong
  simp [after, opened, closed, ended, AtTop]

theorem afterAll_of_none {t : Tally} (wrong : t.due = none) (text : Text) : t.afterAll text = t := by
  induction text with
  | nil => rfl
  | cons c cs ih => rw [afterAll_cons, after_of_none wrong, ih]

def isPlain (c : Char) : Bool := !(['(', ')', '[', ']', '\x7b', '\x7d', ';'].contains c)

theorem after_plain {c : Char} (plain : isPlain c) (t : Tally) : t.after c = t := by
  simp [isPlain] at plain
  simp [after, plain]

theorem afterAll_plain {text : Text} (plain : ∀ c ∈ text, isPlain c) (t : Tally) :
    t.afterAll text = t := by
  induction text with
  | nil => rfl
  | cons c cs ih =>
    rw [afterAll_cons, after_plain (plain c List.mem_cons_self),
      ih fun d member => plain d (List.mem_cons_of_mem c member)]

theorem plain_of_namePart {c : Char} (part : isNamePart c) : isPlain c := by
  simp only [isNamePart, isPlain, Bool.not_or, Bool.and_eq_true, Bool.not_eq_true',
    List.contains_eq_mem, decide_eq_false_iff_not] at part ⊢
  have other := part.2
  refine fun sign => other ?_
  revert sign
  simp
  grind

theorem plain_of_hexDigit {c : Char} (digit : isHexDigit c) : isPlain c := by
  simp only [isPlain, Bool.not_eq_true', List.contains_eq_mem, decide_eq_false_iff_not]
  intro sign
  simp at sign
  rcases sign with rfl | rfl | rfl | rfl | rfl | rfl | rfl <;> exact absurd digit (by decide)

theorem plain_of_blank {c : Char} (blank : isAsciiBlank c) : isPlain c := by
  simp only [isPlain, Bool.not_eq_true', List.contains_eq_mem, decide_eq_false_iff_not]
  intro sign
  simp at sign
  rcases sign with rfl | rfl | rfl | rfl | rfl | rfl | rfl <;> exact absurd blank (by decide)

theorem of_mem_take_countWhile {p : Char → Bool} {text : Text} :
    ∀ c ∈ text.take (countWhile p text), p c := by
  induction text with
  | nil => simp
  | cons d ds ih =>
    by_cases first : p d
    · simpa [countWhile, first] using ih
    · simp [countWhile, first]

theorem afterAll_unicodeEscape (t : Tally) (text : Text) :
    t.afterAll (text.take (unicodeEscape text)) = t := by
  unfold unicodeEscape
  split
  -- An escape in braces opens and closes its own bracket.
  · rename_i cs
    dsimp only
    split
    · rename_i closes
      simp only [Bool.and_eq_true, beq_iff_eq] at closes
      have digits : (t.opened '\x7d').afterAll (cs.take (countWhile isHexDigit cs)) =
          t.opened '\x7d' :=
        afterAll_plain (fun c member => plain_of_hexDigit (of_mem_take_countWhile c member)) _
      have parts : cs.take (countWhile isHexDigit cs + 1) =
          cs.take (countWhile isHexDigit cs) ++ ['\x7d'] := by
        rw [List.take_add, List.take_one, closes.2]
        rfl
      simp only [List.take_succ_cons, afterAll_cons, parts, afterAll_append]
      simp [after, digits]
    · simp
  · rename_i cs _
    split
    · rename_i four
      simp only [beq_iff_eq] at four
      have digits : t.afterAll (cs.take 4) = t := by
        refine afterAll_plain (fun c member => plain_of_hexDigit ?_) t
        have all : ∀ d ∈ (cs.take 4).take (countWhile isHexDigit (cs.take 4)), isHexDigit d :=
          of_mem_take_countWhile
        rw [four, List.take_take] at all
        exact all c member
      simpa [after] using digits
    · simp
  · simp

theorem afterAll_nameTail (t : Tally) (n : Nat) (text : Text) :
    t.afterAll (text.take (nameTail n text)) = t := by
  induction n, text using nameTail.induct with
  | case1 => simp [nameTail]
  | case2 => simp [nameTail]
  | case3 n c cs part ih =>
    simp [nameTail, part, ih, after_plain (plain_of_namePart part)]
  | case4 n c cs part k none => simp [nameTail, part, k, none]
  | case5 n c cs part k some ih =>
    have length : nameTail (n + 1) (c :: cs) = k + nameTail n ((c :: cs).drop k) := by
      have present : ¬ unicodeEscape (c :: cs) = 0 := by simpa [k] using some
      simp [nameTail, part, present, k, Nat.add_comm]
    rw [length, List.take_add, afterAll_append, afterAll_unicodeEscape, ih]

theorem afterAll_wordText (t : Tally) (text : Text) : t.afterAll (wordText text) = t := by
  cases text with
  | nil => rfl
  | cons c cs =>
    simp only [wordText, word]
    split
    · rename_i first
      have part : isNamePart c := by
        simp only [isNameStart, Bool.and_eq_true] at first
        exact first.1
      rw [List.take_succ_cons, afterAll_cons, after_plain (plain_of_namePart part),
        afterAll_nameTail]
    · split
      · simp
      · rw [Nat.add_comm, List.take_add, afterAll_append, afterAll_unicodeEscape,
          afterAll_nameTail]

end Tally

@[grind] def Kind.isMark : Kind → Bool
  | .punctuation | .emptyStatement => true
  | _ => false

namespace Tree

mutual
def marks : Tree → Text
  | leaf k t => if k.isMark then t else []
  | node _ cs => marksOfAll cs
def marksOfAll : List Tree → Text
  | [] => []
  | t :: ts => t.marks ++ marksOfAll ts
end

@[simp, grind =] theorem marks_leaf (k : Kind) (t : Text) :
    (leaf k t).marks = if k.isMark then t else [] := rfl

@[simp] theorem marks_node (k : Kind) (cs : List Tree) : (node k cs).marks = marksOfAll cs := rfl

@[simp] theorem marksOfAll_nil : marksOfAll [] = [] := rfl

@[simp] theorem marksOfAll_cons (t : Tree) (ts : List Tree) :
    marksOfAll (t :: ts) = t.marks ++ marksOfAll ts := rfl

@[simp] theorem marksOfAll_append (ts us : List Tree) :
    marksOfAll (ts ++ us) = marksOfAll ts ++ marksOfAll us := by
  induction ts with
  | nil => simp
  | cons t ts ih => simp [ih]

end Tree

end RequireInjection.Script
