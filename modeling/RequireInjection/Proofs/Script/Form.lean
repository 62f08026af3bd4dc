import RequireInjection.Proofs.Script.Grouping

namespace RequireInjection.Script

@[grind] def Kind.isFree : Kind → Bool
  | .binaryExpression | .arguments | .callExpression | .blank | .comment | .hashBang => false
  | _ => true

namespace Tree

def Bracketed (cs : List Tree) : Prop :=
  ∃ inner, cs = leaf .punctuation ['('] :: (inner ++ [leaf .punctuation [')']])

def EndsInToken (cs : List Tree) : Prop := ∀ t ∈ cs.getLast?, t.isTrivia = false

/-- What the children of a node are like. -/
def Form : Kind → List Tree → Prop
  | .binaryExpression, cs => Groups cs
  | .arguments, cs => Bracketed cs
  | .callExpression, cs => EndsInToken cs
  | .blank, _ | .comment, _ | .hashBang, _ => False
  | _, _ => True

theorem form_of_free {k : Kind} (free : k.isFree) (cs : List Tree) : Form k cs := by
  cases k <;> trivial

mutual
def Formed : Tree → Prop
  | leaf _ _ => True
  | node k cs => Form k cs ∧ AllFormed cs
def AllFormed : List Tree → Prop
  | [] => True
  | t :: ts => t.Formed ∧ AllFormed ts
end

@[simp] theorem formed_leaf (k : Kind) (t : Text) : (leaf k t).Formed := by simp [Formed]

@[simp] theorem formed_node (k : Kind) (cs : List Tree) :
    (node k cs).Formed ↔ Form k cs ∧ AllFormed cs := by simp [Formed]

theorem allFormed_iff (ts : List Tree) : AllFormed ts ↔ ∀ t ∈ ts, t.Formed := by
  induction ts with
  | nil => simp [AllFormed]
  | cons t ts ih => simp [AllFormed, ih]

mutual
theorem Formed.grouped : ∀ t : Tree, t.Formed → t.Grouped
  | leaf k t, _ => grouped_leaf k t
  | node k cs, formed => by
    obtain ⟨form, all⟩ := (formed_node k cs).mp formed
    refine (grouped_node k cs).mpr ⟨?_, AllFormed.grouped cs all⟩
    rintro rfl
    exact form
theorem AllFormed.grouped : ∀ ts : List Tree, AllFormed ts → AllGrouped ts
  | [], _ => trivial
  | t :: ts, formed => by
    simp only [AllFormed] at formed
    exact ⟨Formed.grouped t formed.1, AllFormed.grouped ts formed.2⟩
end

theorem formed_of_mem_preorder (start : Nat) (p : Placed) (t : Tree) (formed : t.Formed)
    (member : p ∈ t.preorder start) : p.tree.Formed :=
  inherited (fun k cs held => (allFormed_iff cs).mp ((formed_node k cs).mp held).2) start p t
    formed member

end Tree
end RequireInjection.Script
