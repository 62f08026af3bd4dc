import RequireInjection.Proofs.Script.Range
import RequireInjection.Script.Grammar.Expression

namespace RequireInjection.Script

open Grammar

namespace Tree

def parts (cs : List Tree) : List Tree := cs.filter fun t => !t.isTrivia

theorem parts_append (cs ds : List Tree) : parts (cs ++ ds) = parts cs ++ parts ds :=
  List.filter_append cs ds

theorem parts_eq_nil {cs : List Tree} (h : ∀ t ∈ cs, t.isTrivia) : parts cs = [] := by
  simpa [parts, List.filter_eq_nil_iff] using h

def tightest : Nat := levels.length + 1

/-- How tightly a tree holds together as an operand: as its operator does, and not at all if it can
only be an operand between brackets. -/
def rank : Tree → Nat
  | node .binaryExpression cs =>
    match parts cs with
    | [_, leaf .punctuation op, _] => level op
    | _ => 0
  | node .ternaryExpression _ | node .sequenceExpression _ | node .spreadElement _ => 0
  | leaf .punctuation _ => 0
  | _ => tightest

/-- An operator between two operands that hold together more tightly than it does; on the left the
same operator may stand, on the right only one that groups to the right. -/
def Groups (cs : List Tree) : Prop :=
  ∃ left op right, parts cs = [left, leaf .punctuation op, right] ∧ 0 < level op ∧
    level op ≤ left.rank ∧
      if op = "**".toList then level op ≤ right.rank else level op < right.rank

mutual
def Grouped : Tree → Prop
  | leaf _ _ => True
  | node k cs => (k = .binaryExpression → Groups cs) ∧ AllGrouped cs
def AllGrouped : List Tree → Prop
  | [] => True
  | t :: ts => t.Grouped ∧ AllGrouped ts
end

@[simp] theorem grouped_leaf (k : Kind) (t : Text) : (leaf k t).Grouped := by simp [Grouped]

@[simp] theorem grouped_node (k : Kind) (cs : List Tree) :
    (node k cs).Grouped ↔ (k = .binaryExpression → Groups cs) ∧ AllGrouped cs := by simp [Grouped]

theorem allGrouped_iff (ts : List Tree) : AllGrouped ts ↔ ∀ t ∈ ts, t.Grouped := by
  induction ts with
  | nil => simp [AllGrouped]
  | cons t ts ih => simp [AllGrouped, ih]

theorem grouped_of_mem_preorder (start : Nat) (p : Placed) (t : Tree) (grouped : t.Grouped)
    (member : p ∈ t.preorder start) : p.tree.Grouped :=
  inherited (fun k cs held => (allGrouped_iff cs).mp ((grouped_node k cs).mp held).2) start p t
    grouped member

mutual
/-- The operators of an expression that stand in none of its operands, from left to right. -/
def operators : Tree → List Text
  | leaf .punctuation t => [t]
  | node .binaryExpression cs => operatorsOfAll cs
  | _ => []
def operatorsOfAll : List Tree → List Text
  | [] => []
  | t :: ts => t.operators ++ operatorsOfAll ts
end

theorem operators_trivia {t : Tree} (h : t.isTrivia) : t.operators = [] := by
  cases t with
  | leaf k s => cases k <;> simp_all [isTrivia, kind, Kind.isTrivia, operators]
  | node k cs => cases k <;> simp_all [isTrivia, kind, Kind.isTrivia, operators]

theorem operatorsOfAll_parts (cs : List Tree) : operatorsOfAll cs = operatorsOfAll (parts cs) := by
  induction cs with
  | nil => rfl
  | cons t ts ih =>
    rw [operatorsOfAll, ih]
    by_cases trivia : t.isTrivia
    · simp [parts, trivia, operators_trivia trivia]
    · simp [parts, trivia, operatorsOfAll]

theorem mem_of_mem_parts {cs : List Tree} {t : Tree} (h : t ∈ parts cs) : t ∈ cs :=
  (List.mem_filter.mp h).1

theorem rank_binary {cs : List Tree} {left right : Tree} {op : Text}
    (h : parts cs = [left, leaf .punctuation op, right]) :
    (node .binaryExpression cs).rank = level op := by
  simp [rank, h]

theorem operators_binary {cs : List Tree} {left right : Tree} {op : Text}
    (h : parts cs = [left, leaf .punctuation op, right]) :
    (node .binaryExpression cs).operators = left.operators ++ op :: right.operators := by
  rw [operators, operatorsOfAll_parts, h]
  simp [operatorsOfAll, operators]

mutual
theorem rank_le_operators : ∀ t : Tree, t.Grouped → 0 < t.rank →
    ∀ o ∈ t.operators, t.rank ≤ level o
  | leaf k s, _, bound, o, member => by
    cases k <;> simp_all [rank, operators]
  | node k cs, grouped, bound, o, member => by
    by_cases binary : k = .binaryExpression
    · subst k
      obtain ⟨groups, all⟩ := (grouped_node _ cs).mp grouped
      obtain ⟨left, op, right, hparts, positive, hleft, hright⟩ := groups rfl
      have left_rank : level op ≤ left.rank := hleft
      have right_rank : level op ≤ right.rank := by
        split at hright <;> omega
      rw [rank_binary hparts]
      rw [operators_binary hparts, List.mem_append, List.mem_cons] at member
      rcases member with before | here | after
      · have := rank_le_operatorsOfAll cs all left (mem_of_mem_parts (by simp [hparts]))
          (by omega) o before
        omega
      · exact Nat.le_of_eq (by rw [here])
      · have := rank_le_operatorsOfAll cs all right (mem_of_mem_parts (by simp [hparts]))
          (by omega) o after
        omega
    · cases k <;> simp_all [operators]
theorem rank_le_operatorsOfAll : ∀ ts : List Tree, AllGrouped ts → ∀ t ∈ ts, 0 < t.rank →
    ∀ o ∈ t.operators, t.rank ≤ level o
  | [], _, t, member, _, _, _ => by simp at member
  | u :: us, grouped, t, member, bound, o, hmember => by
    simp only [AllGrouped] at grouped
    rcases List.mem_cons.mp member with here | later
    · subst t
      exact rank_le_operators u grouped.1 bound o hmember
    · exact rank_le_operatorsOfAll us grouped.2 t later bound o hmember
end

theorem operators_around_root {cs : List Tree} (h : (node .binaryExpression cs).Grouped) :
    ∃ left op right, parts cs = [left, leaf .punctuation op, right] ∧
      (∀ o ∈ left.operators, level op ≤ level o) ∧
      ∀ o ∈ right.operators,
        if op = "**".toList then level op ≤ level o else level op < level o := by
  obtain ⟨groups, all⟩ := (grouped_node _ cs).mp h
  obtain ⟨left, op, right, hparts, positive, hleft, hright⟩ := groups rfl
  refine ⟨left, op, right, hparts, ?_, ?_⟩
  · intro o member
    have := rank_le_operatorsOfAll cs all left (mem_of_mem_parts (by simp [hparts]))
      (by omega) o member
    omega
  · intro o member
    have bound : 0 < right.rank := by split at hright <;> omega
    have := rank_le_operatorsOfAll cs all right (mem_of_mem_parts (by simp [hparts])) bound o member
    split at hright
    · rename_i power
      rw [if_pos power]
      omega
    · rename_i other
      rw [if_neg other]
      omega

def IsSum (t : Tree) : Prop :=
  ∃ cs left right, t = node .binaryExpression cs ∧
    parts cs = [left, leaf .punctuation ['+'], right]

def additive (t : Tree) : List Text := t.operators.filter fun o => level o = level ['+']

theorem additive_around_root {cs : List Tree} {left right : Tree} {op : Text}
    (hparts : parts cs = [left, leaf .punctuation op, right]) (same : level op = level ['+'])
    (after : ∀ o ∈ right.operators, level op < level o) :
    (node .binaryExpression cs).additive = left.additive ++ [op] := by
  have none_after : right.additive = [] := by
    rw [additive, List.filter_eq_nil_iff]
    intro o member
    have := after o member
    simp only [decide_eq_true_eq]
    omega
  have splits := operators_binary hparts
  simp only [additive] at none_after ⊢
  simp [splits, same, none_after]

/-- An expression is a sum exactly when none of its operators binds less tightly than `+` and the
last one that binds as tightly is a `+`. -/
theorem isSum_iff {k : Kind} {cs : List Tree} (h : (node k cs).Grouped) :
    (node k cs).IsSum ↔ (∀ o ∈ (node k cs).operators, level ['+'] ≤ level o) ∧
      (node k cs).additive.getLast? = some ['+'] := by
  constructor
  · rintro ⟨cs', left, right, whole, hparts⟩
    cases whole
    obtain ⟨left', op, right', hparts', before, after⟩ := operators_around_root h
    rw [hparts] at hparts'
    simp only [List.cons.injEq, leaf.injEq, true_and, and_true] at hparts'
    obtain ⟨rfl, rfl, rfl⟩ := hparts'
    have tighter : ∀ o ∈ right.operators, level ['+'] < level o := by simpa using after
    constructor
    · intro o member
      rw [operators_binary hparts, List.mem_append, List.mem_cons] at member
      rcases member with left_of | rfl | right_of
      · exact before o left_of
      · exact Nat.le_refl _
      · exact Nat.le_of_lt (tighter o right_of)
    · rw [additive_around_root hparts rfl tighter]
      simp
  · rintro ⟨tight, last⟩
    have binary : k = .binaryExpression := by
      refine Decidable.byContradiction fun other => ?_
      have none_here : (node k cs).operators = [] := by
        cases k <;> simp_all [operators]
      simp [additive, none_here] at last
    subst k
    obtain ⟨left, op, right, hparts, before, after⟩ := operators_around_root h
    have splits := operators_binary hparts
    have root : level ['+'] ≤ level op := tight op (by simp [splits])
    -- a `+` stands somewhere, and the operator at the root is no tighter than it
    have plus : ['+'] ∈ left.operators ++ op :: right.operators := by
      rw [← splits]
      exact (List.mem_filter.mp (List.mem_of_getLast? last)).1
    have loosest : level op ≤ level ['+'] := by
      rcases List.mem_append.mp plus with left_of | right_of
      · exact before _ left_of
      · rcases List.mem_cons.mp right_of with rfl | right_of
        · exact Nat.le_refl _
        · have := after _ right_of
          split at this <;> omega
    have same : level op = level ['+'] := by omega
    have no_power : op ≠ "**".toList := by
      rintro rfl
      exact absurd same (by decide)
    have tighter : ∀ o ∈ right.operators, level op < level o := by
      intro o member
      have := after o member
      rwa [if_neg no_power] at this
    rw [additive_around_root hparts same tighter] at last
    have here : op = ['+'] := by simpa using last
    exact ⟨cs, left, right, rfl, by rw [hparts, here]⟩

end Tree
end RequireInjection.Script
