import RequireInjection.Proofs.Script.Walk

namespace RequireInjection.Script

namespace Tree

@[simp] theorem size_node (k : Kind) (cs : List Tree) :
    (node k cs).size = Text.size (textOfAll cs) := by simp [size]

mutual
theorem text_around (start : Nat) (p : Placed) : ∀ t : Tree, p ∈ t.preorder start →
    ∃ pre post, t.text = pre ++ (p.text ++ post) ∧ p.start = start + pre.size
  | leaf k t, member => by
    simp only [preorder, List.mem_singleton] at member
    subst p
    exact ⟨[], [], by simp [Placed.text], by simp⟩
  | node k cs, member => by
    simp only [preorder, List.mem_cons] at member
    rcases member with here | below
    · subst p
      exact ⟨[], [], by simp [Placed.text], by simp⟩
    · obtain ⟨pre, post, htext, hstart⟩ := textOfAll_around start p cs below
      exact ⟨pre, post, by rw [text_node, htext], hstart⟩
theorem textOfAll_around (start : Nat) (p : Placed) :
    ∀ ts : List Tree, p ∈ preorderOfAll start ts →
      ∃ pre post, textOfAll ts = pre ++ (p.text ++ post) ∧ p.start = start + pre.size
  | [], member => by simp [preorderOfAll] at member
  | t :: ts, member => by
    simp only [preorderOfAll, List.mem_append] at member
    rcases member with first | later
    · obtain ⟨pre, post, htext, hstart⟩ := text_around start p t first
      exact ⟨pre, post ++ textOfAll ts, by simp [htext], hstart⟩
    · obtain ⟨pre, post, htext, hstart⟩ := textOfAll_around (start + t.size) p ts later
      refine ⟨t.text ++ pre, post, by simp [htext], ?_⟩
      rw [hstart, Text.size_append, size]
      omega
end

theorem range_within {start : Nat} {p : Placed} {t : Tree} (member : p ∈ t.preorder start) :
    start ≤ p.start ∧ p.stop ≤ start + t.size := by
  obtain ⟨pre, post, htext, hstart⟩ := text_around start p t member
  simp only [Placed.stop, size, htext, Text.size_append, Placed.text]
  omega

theorem range_within_all {start : Nat} {p : Placed} {ts : List Tree}
    (member : p ∈ preorderOfAll start ts) :
    start ≤ p.start ∧ p.stop ≤ start + Text.size (textOfAll ts) := by
  obtain ⟨pre, post, htext, hstart⟩ := textOfAll_around start p ts member
  simp only [Placed.stop, size, htext, Text.size_append, Placed.text]
  omega

mutual
theorem preorder_nested_or_apart (start : Nat) : ∀ t : Tree,
    (t.preorder start).Pairwise fun p q => q ∈ p.below ∨ p.stop ≤ q.start
  | leaf k t => by simp [preorder]
  | node k cs => by
    simp only [preorder, List.pairwise_cons]
    refine ⟨?_, preorderOfAll_nested_or_apart start cs⟩
    intro q member
    exact Or.inl member
theorem preorderOfAll_nested_or_apart (start : Nat) : ∀ ts : List Tree,
    (preorderOfAll start ts).Pairwise fun p q => q ∈ p.below ∨ p.stop ≤ q.start
  | [] => by simp [preorderOfAll]
  | t :: ts => by
    simp only [preorderOfAll, List.pairwise_append]
    refine ⟨preorder_nested_or_apart start t, preorderOfAll_nested_or_apart _ ts, ?_⟩
    intro p hp q hq
    have before := range_within hp
    have behind := range_within_all hq
    exact Or.inr (Nat.le_trans before.2 behind.1)
end

mutual
theorem inherited {P : Tree → Prop} (hands : ∀ k cs, P (node k cs) → ∀ t ∈ cs, P t) (start : Nat)
    (p : Placed) : ∀ t : Tree, P t → p ∈ t.preorder start → P p.tree
  | leaf k t, held, member => by
    simp only [preorder, List.mem_singleton] at member
    subst p
    exact held
  | node k cs, held, member => by
    simp only [preorder, List.mem_cons] at member
    rcases member with here | below
    · subst p
      exact held
    · exact inherited_all hands start p cs (hands k cs held) below
theorem inherited_all {P : Tree → Prop} (hands : ∀ k cs, P (node k cs) → ∀ t ∈ cs, P t)
    (start : Nat) (p : Placed) : ∀ ts : List Tree, (∀ t ∈ ts, P t) →
      p ∈ preorderOfAll start ts → P p.tree
  | [], _, member => by simp [preorderOfAll] at member
  | t :: ts, held, member => by
    simp only [preorderOfAll, List.mem_append] at member
    rcases member with here | later
    · exact inherited hands start p t (held t List.mem_cons_self) here
    · exact inherited_all hands (start + t.size) p ts
        (fun u hu => held u (List.mem_cons_of_mem t hu)) later
end

theorem Solid.size_pos {t : Tree} (h : t.Solid) : 0 < t.size := by
  have nonempty := h.text_ne_nil
  have : t.text.size ≠ 0 := fun none => nonempty (Text.size_eq_zero.mp none)
  simp only [size]
  omega

end Tree

theorem below_within {p q : Placed} (h : q ∈ p.below) : p.start ≤ q.start ∧ q.stop ≤ p.stop := by
  have within := Tree.range_within_all h
  obtain ⟨start, tree⟩ := p
  cases tree with
  | leaf k t => simp [Placed.below, Tree.children, Tree.preorderOfAll] at h
  | node k cs => simpa [Placed.stop, Tree.children] using within

theorem below_behind_leaf {p q : Placed} {kind : Kind} {text : Text} {others : List Tree}
    (first : p.tree.children = .leaf kind text :: others) (h : q ∈ p.below) :
    q.tree = .leaf kind text ∨ p.start + text.size ≤ q.start := by
  simp only [Placed.below, first, Tree.preorderOfAll, Tree.preorder, List.singleton_append,
    List.mem_cons] at h
  rcases h with here | later
  · subst q
    exact Or.inl rfl
  · have within := Tree.range_within_all later
    simp only [Tree.size, Tree.text_leaf] at within
    exact Or.inr within.1

variable {source : Text}

def SyntaxTree.nodes (tree : SyntaxTree source) : List Placed := tree.root.preorder 0

theorem SyntaxTree.source_around (tree : SyntaxTree source) {p : Placed} (member : p ∈ tree.nodes) :
    ∃ pre post, source = pre ++ (p.text ++ post) ∧ p.start = pre.size := by
  obtain ⟨pre, post, htext, hstart⟩ := Tree.text_around 0 p tree.root member
  exact ⟨pre, post, by rw [← tree.text_root, htext], by omega⟩

theorem SyntaxTree.slice_node (tree : SyntaxTree source) {p : Placed} (member : p ∈ tree.nodes) :
    source.slice p.start p.stop = p.text := by
  obtain ⟨pre, post, rfl, hstart⟩ := tree.source_around member
  rw [Placed.stop, hstart]
  exact Text.slice_append pre p.text post

theorem SyntaxTree.node_boundaries (tree : SyntaxTree source) {p : Placed}
    (member : p ∈ tree.nodes) :
    p.start ≤ p.stop ∧ p.stop ≤ source.size ∧ source.IsBoundary p.start ∧
      source.IsBoundary p.stop := by
  obtain ⟨pre, post, rfl, hstart⟩ := tree.source_around member
  have hstop : p.stop = Text.size (pre ++ p.text) := by
    rw [Placed.stop, hstart, Text.size_append]
    rfl
  refine ⟨by simp [Placed.stop], ?_, ?_, ?_⟩
  · rw [hstop]
    simp only [Text.size_append]
    omega
  · exact Text.isBoundary_iff.mpr ⟨pre, p.text ++ post, rfl, hstart.symm⟩
  · exact Text.isBoundary_iff.mpr ⟨pre ++ p.text, post, by simp, hstop.symm⟩

theorem SyntaxTree.inherited_inner {P : Tree → Prop}
    (hands : ∀ k cs, P (.node k cs) → ∀ t ∈ cs, P t) (tree : SyntaxTree source)
    (items : ∀ t ∈ tree.items, P t) {p : Placed} (member : p ∈ tree.nodes)
    (inner : p.tree.kind ≠ .program) : P p.tree := by
  simp only [SyntaxTree.nodes, SyntaxTree.root, Tree.preorder, List.mem_cons] at member
  rcases member with whole | below
  · subst p
    exact False.elim (inner rfl)
  · exact Tree.inherited_all hands 0 p tree.items items below

theorem SyntaxTree.solid_node (tree : SyntaxTree source) {p : Placed} (member : p ∈ tree.nodes)
    (inner : p.tree.kind ≠ .program) : p.tree.Solid := by
  refine tree.inherited_inner ?_ ((Tree.allSolid_iff tree.items).mp tree.solid) member inner
  intro k cs solid
  exact (Tree.allSolid_iff cs).mp ((Tree.solid_node k cs).mp solid).2

end RequireInjection.Script
