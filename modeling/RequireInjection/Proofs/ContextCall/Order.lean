import Mathlib.Data.List.Basic
import Mathlib.Data.Option.Basic
import RequireInjection.ContextCall
import RequireInjection.Proofs.Script.Range

/-!
The order in which context calls are replaced. The calls are collected name by name and sorted by
their start. Since nodes that can be such calls never begin together, this is the order of the nodes
with, for each node, one call for every declaration of its name, the first declaration first.
-/
namespace RequireInjection

open Script

section Sorting

variable {α : Type} (key : α → Nat)

theorem eq_of_sorted_of_filter_eq {l l' : List α} (sorted : l.Pairwise fun a b => key a ≤ key b)
    (sorted' : l'.Pairwise fun a b => key a ≤ key b)
    (agree : ∀ k, l.filter (key · = k) = l'.filter (key · = k)) : l = l' := by
  have mem_of_agree : ∀ {m m' : List α}, (∀ k, m.filter (key · = k) = m'.filter (key · = k)) →
      ∀ a ∈ m, a ∈ m' := by
    intro m m' agree a member
    have : a ∈ m.filter (key · = key a) := by simp [member]
    rw [agree] at this
    exact (List.mem_filter.mp this).1
  induction l generalizing l' with
  | nil =>
    cases l' with
    | nil => rfl
    | cons b bs => exact absurd (mem_of_agree (fun k => (agree k).symm) b (by simp)) (by simp)
  | cons a as ih =>
    cases l' with
    | nil => exact absurd (mem_of_agree agree a (by simp)) (by simp)
    | cons b bs =>
      obtain ⟨first, rest⟩ := List.pairwise_cons.mp sorted
      obtain ⟨first', rest'⟩ := List.pairwise_cons.mp sorted'
      -- The heads have the same least key, and lists that agree on it have the same first member.
      have above : key a ≤ key b := by
        have among := mem_of_agree (fun k => (agree k).symm) b (by simp)
        rcases List.mem_cons.mp among with same | later
        · exact Nat.le_of_eq (by rw [same])
        · exact first b later
      have below : key b ≤ key a := by
        rcases List.mem_cons.mp (mem_of_agree agree a (by simp)) with same | later
        · exact Nat.le_of_eq (by rw [same])
        · exact first' a later
      have heads := agree (key a)
      simp only [List.filter_cons, decide_true, if_true,
        Nat.le_antisymm below above, List.cons.injEq] at heads
      obtain ⟨rfl, _⟩ := heads
      congr 1
      refine ih rest rest' fun k => ?_
      have tails := agree k
      simp only [List.filter_cons] at tails
      split at tails
      · exact (List.cons.inj tails).2
      · exact tails

theorem filter_mergeSort (l : List α) (k : Nat) :
    (l.mergeSort fun a b => key a ≤ key b).filter (key · = k) = l.filter (key · = k) := by
  have alike : (l.filter (key · = k)).Pairwise fun a b => decide (key a ≤ key b) = true := by
    refine List.Pairwise.imp_of_mem ?_ (List.pairwise_of_forall (R := fun _ _ => True) (by simp))
    intro a b ha hb _
    have ka : key a = k := by simpa using (List.mem_filter.mp ha).2
    have kb : key b = k := by simpa using (List.mem_filter.mp hb).2
    simp [ka, kb]
  have stays : (l.filter (key · = k)).Sublist (l.mergeSort fun a b => key a ≤ key b) :=
    List.sublist_mergeSort (by simp; omega) (by simp; omega) alike List.filter_sublist
  have kept := stays.filter fun a => decide (key a = k)
  rw [List.filter_filter] at kept
  simp only [Bool.and_self] at kept
  have sizes := ((List.mergeSort_perm l fun a b => decide (key a ≤ key b)).filter
    fun a => decide (key a = k)).length_eq
  exact (kept.eq_of_length sizes.symm).symm

theorem mergeSort_eq_of_filter_eq {l m : List α} (sorted : m.Pairwise fun a b => key a ≤ key b)
    (agree : ∀ k, l.filter (key · = k) = m.filter (key · = k)) :
    (l.mergeSort fun a b => key a ≤ key b) = m := by
  have ordered : (l.mergeSort fun a b => key a ≤ key b).Pairwise fun a b => key a ≤ key b := by
    have trans : ∀ a b c, decide (key a ≤ key b) → decide (key b ≤ key c) →
        decide (key a ≤ key c) := by simp; omega
    have := List.pairwise_mergeSort trans (by simp; omega) l
    simpa using this
  refine eq_of_sorted_of_filter_eq key ordered sorted fun k => ?_
  rw [filter_mergeSort, agree]

end Sorting

def CallsName (p : Placed) : Prop :=
  ∃ callee argument, p.tree.callee? = some callee ∧ callee.kind = .identifier ∧
    p.tree.firstArgument? = some argument

theorem ofNode_eq_some {b : ContextLoader} {p : Placed} {c : ContextCall} :
    ContextCall.ofNode? b p = some c ↔ ∃ callee argument, p.tree.callee? = some callee ∧
      (callee.kind = .identifier ∧ callee.text = b.name) ∧
        p.tree.firstArgument? = some argument ∧
          c = ⟨p.start, p.stop, b.base, argument.text, p.tree.text⟩ := by
  simp only [ContextCall.ofNode?, Option.bind_eq_bind, Option.bind_eq_some_iff, Bool.and_eq_true,
    decide_eq_true_eq, guard, Option.pure_def, Option.some.injEq]
  constructor
  · rintro ⟨callee, hcallee, named, hnamed, argument, hargument, rfl⟩
    split at hnamed
    · rename_i hnames
      exact ⟨callee, argument, hcallee, hnames, hargument, rfl⟩
    · cases hnamed
  · rintro ⟨callee, argument, hcallee, named, hargument, rfl⟩
    exact ⟨callee, hcallee, (), by rw [if_pos named], argument, hargument, rfl⟩

theorem callee_eq_some {t callee : Tree} (h : t.callee? = some callee) :
    ∃ others, t = .node .callExpression (callee :: others) := by
  simp only [Tree.callee?] at h
  split at h
  · cases h
    exact ⟨_, rfl⟩
  · cases h

variable {source : Text}

theorem callsName_ordered (tree : SyntaxTree source) :
    tree.nodes.Pairwise fun p q => CallsName p → CallsName q →
      p.start < q.start ∧ (q.stop ≤ p.stop ∨ p.stop ≤ q.start) := by
  refine List.Pairwise.imp_of_mem ?_ (Tree.preorder_nested_or_apart 0 tree.root)
  intro p q hp _ placed ⟨callee, _, hcallee, named, _⟩ ⟨callee', _, hcallee', _⟩
  obtain ⟨others, htree⟩ := callee_eq_some hcallee
  have solid : p.tree.Solid := tree.solid_node hp (by rw [htree]; simp [Tree.kind])
  rcases placed with below | behind
  · refine ⟨?_, Or.inl (below_within below).2⟩
    rw [htree, Tree.solid_node, Tree.allSolid_cons] at solid
    have hfirst := solid.2.1
    cases callee with
    | node k cs =>
      simp only [Tree.solid_node] at hfirst
      exact absurd named hfirst.1.1
    | leaf k t =>
      have wide : 0 < t.size := by simpa [Tree.size] using hfirst.size_pos
      rcases below_behind_leaf (by rw [htree, Tree.children]) below with leaf | later
      · rw [leaf] at hcallee'
        simp [Tree.callee?] at hcallee'
      · omega
  · have wide := solid.size_pos
    simp only [Placed.stop] at behind ⊢
    exact ⟨by omega, Or.inr behind⟩

def callsAt (loaders : List ContextLoader) (p : Placed) : List ContextCall :=
  loaders.filterMap fun b => ContextCall.ofNode? b p

theorem mem_callsAt {loaders : List ContextLoader} {p : Placed} {c : ContextCall}
    (h : c ∈ callsAt loaders p) : c.start = p.start ∧ c.stop = p.stop ∧ CallsName p := by
  obtain ⟨b, -, hc⟩ := List.mem_filterMap.mp h
  obtain ⟨callee, argument, hcallee, ⟨named, -⟩, hargument, rfl⟩ := ofNode_eq_some.mp hc
  exact ⟨rfl, rfl, callee, argument, hcallee, named, hargument⟩

theorem callsAt_sorted (tree : SyntaxTree source) (loaders : List ContextLoader) :
    (tree.nodes.flatMap (callsAt loaders)).Pairwise fun c d => c.start ≤ d.start := by
  rw [List.pairwise_flatMap]
  constructor
  · intro p _
    refine List.Pairwise.imp_of_mem ?_ (List.pairwise_of_forall (R := fun _ _ => True) (by simp))
    intro c d hc hd _
    exact Nat.le_of_eq ((mem_callsAt hc).1.trans (mem_callsAt hd).1.symm)
  · refine List.Pairwise.imp ?_ (callsName_ordered tree)
    intro p q ordered c hc d hd
    obtain ⟨hstart, -, called⟩ := mem_callsAt hc
    obtain ⟨hstart', -, called'⟩ := mem_callsAt hd
    have := (ordered called called').1
    omega

theorem callsName_at_offset (tree : SyntaxTree source) (k : Nat) :
    (∀ p ∈ tree.nodes, CallsName p → p.start ≠ k) ∨
      ∃ before p after, tree.nodes = before ++ p :: after ∧ CallsName p ∧ p.start = k ∧
        ∀ q ∈ before ++ after, CallsName q → q.start ≠ k := by
  by_cases some : ∃ p ∈ tree.nodes, CallsName p ∧ p.start = k
  · obtain ⟨p, member, called, here⟩ := some
    obtain ⟨before, after, split⟩ := List.append_of_mem member
    refine Or.inr ⟨before, p, after, split, called, here, ?_⟩
    have ordered := callsName_ordered tree
    rw [split, List.pairwise_append, List.pairwise_cons] at ordered
    intro q hq called'
    rcases List.mem_append.mp hq with earlier | later
    · have := (ordered.2.2 q earlier p (by simp) called' called).1
      omega
    · have := (ordered.2.1.1 q later called called').1
      omega
  · refine Or.inl ?_
    intro p member called here
    exact some ⟨p, member, called, here⟩

theorem callsAt_filter_elsewhere {loaders : List ContextLoader} {p : Placed} {k : Nat}
    (elsewhere : CallsName p → p.start ≠ k) :
    (callsAt loaders p).filter (·.start = k) = [] := by
  rw [List.filter_eq_nil_iff]
  intro c hc
  obtain ⟨hstart, -, called⟩ := mem_callsAt hc
  simpa [hstart] using elsewhere called

theorem callsAt_filter_here {loaders : List ContextLoader} {p : Placed} {k : Nat}
    (here : p.start = k) : (callsAt loaders p).filter (·.start = k) = callsAt loaders p := by
  rw [List.filter_eq_self]
  intro c hc
  simp [(mem_callsAt hc).1, here]

theorem flatMap_callsAt_elsewhere {loaders : List ContextLoader} {nodes : List Placed} {k : Nat}
    (elsewhere : ∀ p ∈ nodes, CallsName p → p.start ≠ k) :
    (nodes.flatMap (callsAt loaders)).filter (·.start = k) = [] := by
  rw [List.filter_flatMap, List.flatMap_eq_nil_iff]
  intro p member
  exact callsAt_filter_elsewhere (elsewhere p member)

theorem flatMap_callsAt_split {loaders : List ContextLoader} {before after : List Placed}
    {p : Placed} {k : Nat} (here : p.start = k)
    (elsewhere : ∀ q ∈ before ++ after, CallsName q → q.start ≠ k) :
    ((before ++ p :: after).flatMap (callsAt loaders)).filter (·.start = k) =
      callsAt loaders p := by
  rw [List.flatMap_append, List.flatMap_cons, List.filter_append, List.filter_append,
    callsAt_filter_here here,
    flatMap_callsAt_elsewhere fun q hq => elsewhere q (List.mem_append_left _ hq),
    flatMap_callsAt_elsewhere fun q hq => elsewhere q (List.mem_append_right _ hq)]
  simp

theorem contextCalls_eq (tree : SyntaxTree source) (b : ContextLoader) :
    contextCalls tree.root b = tree.nodes.flatMap (callsAt [b]) := by
  have single : callsAt [b] = fun p => (ContextCall.ofNode? b p).toList := by
    funext p
    simp only [callsAt, List.filterMap_cons, List.filterMap_nil]
    cases ContextCall.ofNode? b p <;> rfl
  rw [contextCalls, Tree.walk_eq_preorder, List.filterMap_eq_flatMap_toList, single]
  rfl

theorem allContextCalls_eq (tree : SyntaxTree source) :
    allContextCalls tree.root = tree.nodes.flatMap (callsAt (contextLoaders tree.root)) := by
  refine mergeSort_eq_of_filter_eq ContextCall.start (callsAt_sorted tree _) fun k => ?_
  have byName : ∀ b, (contextCalls tree.root b).filter (·.start = k) =
      (tree.nodes.flatMap (callsAt [b])).filter (·.start = k) := by
    intro b
    rw [contextCalls_eq]
  rw [List.filter_flatMap]
  simp only [byName]
  rcases callsName_at_offset tree k with nowhere | ⟨before, p, after, split, -, here, elsewhere⟩
  · simp only [flatMap_callsAt_elsewhere nowhere]
    simp
  · simp only [split, flatMap_callsAt_split here elsewhere]
    simp only [callsAt, List.filterMap_eq_flatMap_toList, List.flatMap_cons, List.flatMap_nil,
      List.append_nil]

end RequireInjection
