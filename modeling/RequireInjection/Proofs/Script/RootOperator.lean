import RequireInjection.Proofs.Edit.Splice
import RequireInjection.Proofs.Script.Grouping

namespace RequireInjection.Script

open Grammar

namespace Tree

mutual
def operatorsFrom (start : Nat) : Tree → List (Nat × Text)
  | leaf .punctuation t => [(start, t)]
  | node .binaryExpression cs => operatorsOfAllFrom start cs
  | _ => []
def operatorsOfAllFrom (start : Nat) : List Tree → List (Nat × Text)
  | [] => []
  | t :: ts => t.operatorsFrom start ++ operatorsOfAllFrom (start + t.size) ts
end

mutual
theorem operatorsFrom_texts (start : Nat) : ∀ t : Tree,
    (t.operatorsFrom start).map Prod.snd = t.operators
  | leaf k t => by cases k <;> simp [operatorsFrom, operators]
  | node k cs => by
    by_cases binary : k = .binaryExpression
    · subst k
      rw [operatorsFrom, operators]
      exact operatorsOfAllFrom_texts start cs
    · cases k <;> simp_all [operatorsFrom, operators]
theorem operatorsOfAllFrom_texts (start : Nat) : ∀ ts : List Tree,
    (operatorsOfAllFrom start ts).map Prod.snd = operatorsOfAll ts
  | [] => rfl
  | t :: ts => by
    rw [operatorsOfAllFrom, operatorsOfAll, List.map_append, operatorsFrom_texts,
      operatorsOfAllFrom_texts]
end

theorem operatorsOfAllFrom_append (start : Nat) (ts us : List Tree) :
    operatorsOfAllFrom start (ts ++ us) = operatorsOfAllFrom start ts ++
      operatorsOfAllFrom (start + Text.size (textOfAll ts)) us := by
  induction ts generalizing start with
  | nil => simp [operatorsOfAllFrom]
  | cons t ts ih =>
    have place : start + t.size + Text.size (textOfAll ts) =
        start + Text.size (textOfAll (t :: ts)) := by
      simp only [textOfAll_cons, Text.size_append, size]
      omega
    simp only [List.cons_append, operatorsOfAllFrom, ih, place, List.append_assoc]

mutual
theorem operatorsFrom_within (start : Nat) (o : Nat × Text) : ∀ t : Tree, t.Solid →
    o ∈ t.operatorsFrom start → start ≤ o.1 ∧ o.1 < start + t.size
  | leaf k s, solid, member => by
    have wide := solid.size_pos
    by_cases mark : k = .punctuation
    · subst k
      obtain rfl : o = (start, s) := by simpa [operatorsFrom] using member
      exact ⟨Nat.le_refl _, by omega⟩
    · cases k <;> simp_all [operatorsFrom]
  | node k cs, solid, member => by
    by_cases binary : k = .binaryExpression
    · subst k
      rw [operatorsFrom] at member
      rw [size_node]
      exact operatorsOfAllFrom_within start o cs ((solid_node _ cs).mp solid).2 member
    · cases k <;> simp_all [operatorsFrom]
theorem operatorsOfAllFrom_within (start : Nat) (o : Nat × Text) : ∀ ts : List Tree,
    AllSolid ts → o ∈ operatorsOfAllFrom start ts →
      start ≤ o.1 ∧ o.1 < start + Text.size (textOfAll ts)
  | [], _, member => by simp [operatorsOfAllFrom] at member
  | t :: ts, solid, member => by
    obtain ⟨first, others⟩ := (allSolid_cons t ts).mp solid
    simp only [textOfAll_cons, Text.size_append]
    rcases List.mem_append.mp member with here | later
    · have := operatorsFrom_within start o t first here
      simp only [size] at this
      omega
    · have := operatorsOfAllFrom_within (start + t.size) o ts others later
      simp only [size] at this
      omega
end

/-- The operator joins two operands, and on its sides stand the given texts. -/
def Joins (op left right : Text) (t : Tree) : Prop :=
  ∃ front back x y, t = node .binaryExpression (front ++ leaf .punctuation op :: back) ∧
    parts front = [x] ∧ parts back = [y] ∧ textOfAll front = left ∧ textOfAll back = right

theorem parts_around {cs : List Tree} {x y : Tree} {op : Text}
    (h : parts cs = [x, leaf .punctuation op, y]) :
    ∃ front back, cs = front ++ leaf .punctuation op :: back ∧ parts front = [x] ∧
      parts back = [y] := by
  obtain ⟨before, rest, rfl, before_trivia, x_token, hrest⟩ := List.filter_eq_cons_iff.mp h
  obtain ⟨between, back, rfl, between_trivia, op_token, hback⟩ := List.filter_eq_cons_iff.mp hrest
  refine ⟨before ++ x :: between, back, by simp, ?_, hback⟩
  have blank : parts before = [] := List.filter_eq_nil_iff.mpr before_trivia
  have blank' : parts between = [] := List.filter_eq_nil_iff.mpr between_trivia
  have single : parts [x] = [x] := List.filter_cons_of_pos (l := []) x_token
  rw [← List.singleton_append, parts_append, parts_append, blank, single, blank']
  rfl

/-- The operators of a joining node: those on its left are no looser and those on its right are
tighter, unless it groups to the right. -/
theorem operatorsFrom_join {front back : List Tree} {x y : Tree} {op : Text}
    (grouped : (node .binaryExpression (front ++ leaf .punctuation op :: back)).Grouped)
    (solid : (node .binaryExpression (front ++ leaf .punctuation op :: back)).Solid)
    (hfront : parts front = [x]) (hback : parts back = [y]) :
    let place := Text.size (textOfAll front)
    ∃ lefts rights,
      (node .binaryExpression (front ++ leaf .punctuation op :: back)).operatorsFrom 0 =
        lefts ++ (place, op) :: rights ∧
      (∀ o ∈ lefts, o.1 < place ∧ level op ≤ level o.2) ∧
      ∀ o ∈ rights, place < o.1 ∧
        if op = "**".toList then level op ≤ level o.2 else level op < level o.2 := by
  intro place
  obtain ⟨x', op', y', hparts, looser, tighter⟩ := operators_around_root grouped
  have token : parts [leaf .punctuation op] = [leaf .punctuation op] := rfl
  rw [← List.singleton_append, parts_append, parts_append, hfront, hback, token] at hparts
  obtain ⟨rfl, same, rfl⟩ : x = x' ∧ op = op' ∧ y = y' := by simpa using hparts
  subst same
  have pieces := (allSolid_iff _).mp ((solid_node _ _).mp solid).2
  have front_solid : AllSolid front :=
    (allSolid_iff _).mpr fun t member => pieces t (by simp [member])
  have back_solid : AllSolid back :=
    (allSolid_iff _).mpr fun t member => pieces t (by simp [member])
  have op_wide : 0 < (leaf .punctuation op).size :=
    (pieces (leaf .punctuation op) (by simp)).size_pos
  -- Offsets place an operator on a side; that side has the same texts as its only operand.
  refine ⟨operatorsOfAllFrom 0 front,
    operatorsOfAllFrom (place + (leaf .punctuation op).size) back, ?_, ?_, ?_⟩
  · simp only [operatorsFrom, operatorsOfAllFrom_append, operatorsOfAllFrom, Nat.zero_add,
      List.singleton_append, place]
  · intro o member
    have listed := List.mem_map_of_mem (f := Prod.snd) member
    rw [operatorsOfAllFrom_texts, operatorsOfAll_parts, hfront, operatorsOfAll, operatorsOfAll,
      List.append_nil] at listed
    have within := operatorsOfAllFrom_within 0 o front front_solid member
    exact ⟨by omega, looser o.2 listed⟩
  · intro o member
    have listed := List.mem_map_of_mem (f := Prod.snd) member
    rw [operatorsOfAllFrom_texts, operatorsOfAll_parts, hback, operatorsOfAll, operatorsOfAll,
      List.append_nil] at listed
    have within := operatorsOfAllFrom_within _ o back back_solid member
    exact ⟨by omega, tighter o.2 listed⟩

/-- Of the operators of an expression none before the given one is looser and all behind it are
tighter. -/
def LoosestAt (place : Nat) (op : Text) (t : Tree) : Prop :=
  (place, op) ∈ t.operatorsFrom 0 ∧
    (∀ o ∈ t.operatorsFrom 0, o.1 < place → level op ≤ level o.2) ∧
      ∀ o ∈ t.operatorsFrom 0, place < o.1 → level op < level o.2

theorem operatorsFrom_eq_nil {t : Tree} (named : t.kind.isNamed)
    (other : ∀ cs, t ≠ node .binaryExpression cs) (start : Nat) : t.operatorsFrom start = [] := by
  cases t with
  | leaf k s => cases k <;> simp_all [kind, Kind.isNamed, operatorsFrom]
  | node k cs => cases k <;> simp_all [operatorsFrom]

theorem joins_iff {t : Tree} {op left right : Text} (grouped : t.Grouped)
    (solid : t.kind = .binaryExpression → t.Solid) (named : t.kind.isNamed)
    (loose : level op < level "**".toList) (text : t.text = left ++ (op ++ right)) :
    t.Joins op left right ↔ t.LoosestAt left.size op := by
  have no_power : op ≠ "**".toList := fun power => absurd loose (by rw [power]; omega)
  constructor
  · rintro ⟨front, back, x, y, rfl, hfront, hback, rfl, rfl⟩
    obtain ⟨lefts, rights, whole, looser, tighter⟩ :=
      operatorsFrom_join grouped (solid rfl) hfront hback
    simp only [if_neg no_power] at tighter
    rw [LoosestAt, whole]
    refine ⟨by simp, ?_, ?_⟩
    · intro o member early
      rcases List.mem_append.mp member with before | behind
      · exact (looser o before).2
      · rcases List.mem_cons.mp behind with rfl | later
        · exact Nat.le_refl _
        · have := (tighter o later).1
          omega
    · intro o member late
      rcases List.mem_append.mp member with before | behind
      · have := (looser o before).1
        omega
      · rcases List.mem_cons.mp behind with rfl | later
        · exact absurd late (Nat.lt_irrefl _)
        · exact (tighter o later).2
  · rintro ⟨member, before, behind⟩
    by_cases binary : ∃ cs, t = node .binaryExpression cs
    · obtain ⟨cs, rfl⟩ := binary
      obtain ⟨x, root, y, hparts, -, -⟩ := operators_around_root grouped
      obtain ⟨front, back, rfl, hfront, hback⟩ := parts_around hparts
      obtain ⟨lefts, rights, whole, looser, tighter⟩ :=
        operatorsFrom_join grouped (solid rfl) hfront hback
      rw [whole] at member before behind
      rcases List.mem_append.mp member with inside | here
      · -- the root would stand behind the operator and be no tighter
        obtain ⟨early, no_looser⟩ := looser _ inside
        have tight : level op < level root := behind (_, root) (by simp) early
        exact absurd no_looser (by simp only; omega)
      · rcases List.mem_cons.mp here with same | inside
        · obtain ⟨place, rfl⟩ := Prod.mk.inj same
          have halves : textOfAll front ++ (op ++ textOfAll back) = left ++ (op ++ right) := by
            rw [← text]
            simp
          have rest := Text.append_inj_size halves place.symm
          rw [rest] at halves
          exact ⟨front, back, x, y, rfl, hfront, hback, List.append_cancel_right halves,
            List.append_cancel_left rest⟩
        · -- the root would stand before the operator and be looser
          obtain ⟨late, grips⟩ := tighter _ inside
          have no_looser : level op ≤ level root := before (_, root) (by simp) late
          split at grips
          · rename_i power
            rw [power] at grips
            exact absurd grips (by simp only; omega)
          · exact absurd grips (by simp only; omega)
    · rw [operatorsFrom_eq_nil named (not_exists.mp binary)] at member
      cases member

end Tree
end RequireInjection.Script
