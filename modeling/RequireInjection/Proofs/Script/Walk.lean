import RequireInjection.Script.Cursor

/-!
The walk of a cursor and the document order of a tree. What a cursor has yet to visit is its node
with all below it, then what follows the node, then what follows each of its parents. One step of
the walk visits the first of these and leaves the others, so the walk is the document order.
-/
namespace RequireInjection.Script

def Placed.below (p : Placed) : List Placed := Tree.preorderOfAll p.start p.tree.children

theorem preorder_cons_below (p : Placed) : p.tree.preorder p.start = p :: p.below := by
  obtain ⟨start, tree⟩ := p
  cases tree with
  | leaf k t => simp [Tree.preorder, Placed.below, Tree.children, Tree.preorderOfAll]
  | node k cs => simp [Tree.preorder, Placed.below, Tree.children]

namespace Cursor

def afterParents : List (Placed × List Tree) → List Placed
  | [] => []
  | (p, following) :: rest => Tree.preorderOfAll p.stop following ++ afterParents rest

def behind (c : Cursor) : List Placed :=
  Tree.preorderOfAll c.focus.stop c.following ++ afterParents c.ancestors

def remaining (c : Cursor) : List Placed := c.focus :: (c.focus.below ++ c.behind)

theorem behind_of_nextSibling {c next : Cursor} (h : c.nextSibling? = some next) :
    c.behind = next.remaining := by
  simp only [nextSibling?] at h
  split at h
  · cases h
  · rename_i t ts hfollowing
    cases h
    have first := preorder_cons_below ⟨c.focus.stop, t⟩
    simp only [behind, remaining, hfollowing, Tree.preorderOfAll]
    rw [← List.cons_append, ← first]
    simp [Placed.stop]

theorem behind_of_parent {c up : Cursor} (last : c.nextSibling? = none) (h : c.parent? = some up) :
    c.behind = up.behind := by
  simp only [nextSibling?] at last
  split at last
  · rename_i hfollowing
    simp only [parent?] at h
    split at h
    · cases h
    · rename_i p following rest hancestors
      cases h
      simp [behind, hfollowing, hancestors, Tree.preorderOfAll, afterParents]
  · cases last

theorem parent_ancestors {c up : Cursor} (h : c.parent? = some up) :
    c.ancestors.length = up.ancestors.length + 1 := by
  simp only [parent?] at h
  split at h
  · cases h
  · rename_i hancestors
    cases h
    simp [hancestors]

theorem leave_behind {c : Cursor} {n : Nat} (enough : c.ancestors.length ≤ n) :
    c.behind = ((leave? n c).map remaining).getD [] := by
  -- Each turn goes up once, so the number of parents bounds the number of turns.
  induction n generalizing c with
  | zero =>
    have top : c.ancestors = [] := List.length_eq_zero_iff.mp (by omega)
    simp only [leave?]
    cases hnext : c.nextSibling? with
    | some next => exact behind_of_nextSibling hnext
    | none =>
      simp only [nextSibling?] at hnext
      split at hnext
      · rename_i hfollowing
        simp [behind, hfollowing, top, Tree.preorderOfAll, afterParents]
      · cases hnext
  | succ n ih =>
    simp only [leave?]
    cases hnext : c.nextSibling? with
    | some next => exact behind_of_nextSibling hnext
    | none =>
      cases hup : c.parent? with
      | some up =>
        have shorter := parent_ancestors hup
        rw [behind_of_parent hnext hup]
        exact ih (by omega)
      | none =>
        simp only [parent?] at hup
        split at hup
        · rename_i top
          simp only [nextSibling?] at hnext
          split at hnext
          · rename_i hfollowing
            simp [behind, hfollowing, top, Tree.preorderOfAll, afterParents]
          · cases hnext
        · cases hup

/-- A step visits the node and leaves all else that remains. -/
theorem remaining_cons (c : Cursor) :
    c.remaining = c.focus :: (c.next?.map remaining).getD [] := by
  simp only [remaining, next?, firstChild?]
  congr 1
  cases hchildren : c.focus.tree.children with
  | nil =>
    simp only [Placed.below, hchildren, Tree.preorderOfAll, List.nil_append]
    exact leave_behind (Nat.le_refl _)
  | cons t ts =>
    have first := preorder_cons_below ⟨c.focus.start, t⟩
    simp only [Placed.below, hchildren, Tree.preorderOfAll, Option.map_some, Option.getD_some,
      remaining, behind, afterParents]
    simp only [Placed.below] at first
    rw [first]
    simp [Placed.stop]

theorem walk_eq_take (n : Nat) (c : Cursor) : walk n c = c.remaining.take n := by
  induction n generalizing c with
  | zero => rfl
  | succ n ih =>
    rw [walk, remaining_cons]
    cases hnext : c.next? with
    | none => simp
    | some next => simp [ih]

end Cursor

namespace Tree

mutual
theorem preorder_length (start : Nat) : ∀ t : Tree, (t.preorder start).length = t.count
  | leaf k t => by simp [preorder, count]
  | node k cs => by
    have := preorderOfAll_length start cs
    simp [preorder, count, this]
theorem preorderOfAll_length (start : Nat) :
    ∀ ts : List Tree, (preorderOfAll start ts).length = countAll ts
  | [] => by simp [preorderOfAll, countAll]
  | t :: ts => by
    have first := preorder_length start t
    have rest := preorderOfAll_length (start + t.size) ts
    simp [preorderOfAll, countAll, first, rest]
end

theorem walk_eq_preorder (t : Tree) : t.walk = t.preorder 0 := by
  have first := preorder_cons_below ⟨0, t⟩
  have remaining : (Cursor.ofTree t).remaining = t.preorder 0 := by
    simp only [Cursor.remaining, Cursor.behind, Cursor.ofTree, Cursor.afterParents, preorderOfAll,
      List.append_nil]
    exact first.symm
  rw [walk, Cursor.walk_eq_take, remaining, ← preorder_length 0 t, List.take_length]

end Tree
end RequireInjection.Script
