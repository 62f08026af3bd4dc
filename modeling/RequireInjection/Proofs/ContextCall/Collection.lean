import RequireInjection.Proofs.ContextCall.Order
import RequireInjection.Proofs.Script.Loop
import RequireInjection.Proofs.Script.Precedence

/-!
What the walk collects. Since the loop of the walk visits every node once, in document order, the
declarations and the calls it collects are one for each node that is one. Such a node begins with a
name, which is a leaf and not empty, so no two of them begin together.
-/
namespace RequireInjection

open Script

/-- A list holds what a query finds in a tree: one member for each node where it finds anything, in
document order. -/
def Lists {α : Type} (t : Tree) (query : Placed → Option α) (found : List α) : Prop :=
  ∃ places : List (List Nat), places.Pairwise (· < ·) ∧
    (∀ a, a ∈ places ↔ ∃ p, Placed.at? ⟨0, t⟩ a = some p ∧ (query p).isSome) ∧
      places.map (fun a => (Placed.at? ⟨0, t⟩ a).bind query) = found.map some

theorem map_filter_isSome {α β : Type} (f : α → Option β) (l : List α) :
    (l.filter fun a => (f a).isSome).map f = (l.filterMap f).map some := by
  induction l with
  | nil => rfl
  | cons a l ih => cases found : f a <;> simp [found, ih]

theorem lists_walk {α : Type} (t : Tree) (query : Placed → Option α) :
    Lists t query (t.walk.filterMap query) := by
  refine ⟨t.addresses.filter fun a => ((Placed.at? ⟨0, t⟩ a).bind query).isSome,
    t.addresses_ascending.filter _, ?_, ?_⟩
  · intro a
    have address : a ∈ t.addresses ↔ (Placed.at? ⟨0, t⟩ a).isSome := Tree.mem_addresses ⟨0, t⟩ a
    rw [List.mem_filter, address]
    cases Placed.at? ⟨0, t⟩ a <;> simp
  · have found : t.addresses.filterMap (fun a => (Placed.at? ⟨0, t⟩ a).bind query) =
        t.walk.filterMap query := by
      have along := congrArg (List.filterMap (Option.bind · query)) t.map_at?_walk
      simpa [List.filterMap_map, Function.comp_def] using along
    rw [map_filter_isSome, found]

def Script.Placed.name? (p : Placed) : Option Tree :=
  (if p.tree.kind = .variableDeclarator then p.tree.firstChild? else p.tree.callee?).filter
    fun n => n.kind = .identifier

/-- Where a node has a name, the node begins with it, and the name is not empty and has no parts. -/
def NamesLead (t : Tree) : Prop :=
  ∀ p ∈ t.preorder 0, ∀ n, p.name? = some n →
    n.text ≠ [] ∧ n.children = [] ∧ p.tree.children.head? = some n

theorem names_ascending {t : Tree} (names : NamesLead t) :
    (t.preorder 0).Pairwise fun p q => p.name?.isSome → q.name?.isSome → p.start < q.start := by
  refine List.Pairwise.imp_of_mem ?_ (Tree.preorder_nested_or_apart 0 t)
  intro p q hp _ placed named named'
  obtain ⟨n, hn⟩ := Option.isSome_iff_exists.mp named
  obtain ⟨nonempty, bare, first⟩ := names p hp n hn
  obtain ⟨others, children⟩ : ∃ others, p.tree.children = n :: others := by
    cases hcs : p.tree.children with
    | nil => simp [hcs] at first
    | cons c cs =>
      rw [hcs, List.head?_cons, Option.some.injEq] at first
      exact ⟨cs, by rw [first]⟩
  obtain ⟨kind, text, rfl⟩ : ∃ kind text, n = .leaf kind text := by
    cases n with
    | leaf kind text => exact ⟨kind, text, rfl⟩
    | node kind cs =>
      rw [Tree.children] at bare
      exact absurd (by simp [bare]) nonempty
  have wide : 0 < Text.size text := by
    have : Text.size text ≠ 0 := fun none => nonempty (by simpa using Text.size_eq_zero.mp none)
    omega
  -- A later node lies below the first, where only the name itself begins so early, or behind it.
  rcases placed with below | behind
  · rcases below_behind_leaf children below with leaf | later
    · simp [Placed.name?, leaf, Tree.firstChild?, Tree.children, Tree.callee?] at named'
    · omega
  · have long : Text.size text ≤ p.tree.size := by
      cases htree : p.tree with
      | leaf k s => simp [htree, Tree.children] at children
      | node k cs =>
        rw [htree, Tree.children] at children
        simp [children]
    simp only [Placed.stop] at behind
    omega

theorem walk_ascending (t : Tree) : t.walk.Pairwise fun p q => p.start ≤ q.start := by
  rw [Tree.walk_eq_preorder]
  refine (Tree.preorder_nested_or_apart 0 t).imp ?_
  intro p q placed
  rcases placed with below | behind
  · exact (below_within below).1
  · simp only [Placed.stop] at behind
    omega

theorem collected_ascending {α : Type} {t : Tree} (names : NamesLead t)
    {query : Placed → Option α} {start : α → Nat}
    (named : ∀ p x, query p = some x → p.name?.isSome ∧ start x = p.start) :
    (t.walk.filterMap query).Pairwise fun x y => start x < start y := by
  rw [Tree.walk_eq_preorder, List.pairwise_filterMap]
  refine (names_ascending names).imp ?_
  intro p q ordered x hx y hy
  obtain ⟨name, here⟩ := named p x hx
  obtain ⟨name', here'⟩ := named q y hy
  rw [here, here']
  exact ordered name name'

theorem loader_named (p : Placed) (b : ContextLoader) (h : ContextLoader.ofNode? p = some b) :
    p.name?.isSome ∧ b.start = p.start := by
  simp only [ContextLoader.ofNode?, Option.bind_eq_bind, Option.bind_eq_some_iff, guard,
    Option.pure_def, Option.some.injEq] at h
  obtain ⟨_, declares, name, first, _, isName, value, -, _, -, base, -, rfl⟩ := h
  have declarator : p.tree.kind = .variableDeclarator := by
    by_contra other
    simp [other] at declares
  have identifier : name.kind = .identifier := by
    by_contra other
    simp [other] at isName
  simp [Placed.name?, declarator, first, Option.filter, identifier]

theorem call_named (b : ContextLoader) (p : Placed) (c : ContextCall)
    (h : ContextCall.ofNode? b p = some c) : p.name?.isSome ∧ c.start = p.start := by
  obtain ⟨callee, argument, called, ⟨identifier, -⟩, -, rfl⟩ := ofNode_eq_some.mp h
  obtain ⟨others, call⟩ := callee_eq_some called
  have kind : p.tree.kind = .callExpression := by
    rw [call]
    rfl
  simp [Placed.name?, kind, called, Option.filter, identifier]

variable {source : Text}

theorem trim_of_parsed {tree : SyntaxTree source} (parsed : parse source = .ok tree) {p : Placed}
    (member : p ∈ tree.nodes) (inner : p.tree.kind ≠ .program) : p.tree.Trim := by
  obtain ⟨steps, s, -, -, items⟩ := parse_run parsed
  refine tree.inherited_inner ?_ ?_ member inner
  · intro k cs trim
    exact (Tree.allTrim_iff cs).mp ((Tree.trim_node k cs).mp trim).2
  · intro t among
    rw [items, List.mem_reverse] at among
    exact (Tree.allTrim_iff s.made).mp s.trim t among

theorem name_leads {p : Placed} {n : Tree} (solid : p.tree.Solid) (trim : p.tree.Trim)
    (named : p.name? = some n) :
    n.text ≠ [] ∧ n.children = [] ∧ p.tree.children.head? = some n := by
  rw [Placed.name?, Option.filter_eq_some_iff, decide_eq_true_eq] at named
  obtain ⟨found, identifier⟩ := named
  cases htree : p.tree with
  | leaf k s => simp [htree, Tree.firstChild?, Tree.children, Tree.callee?] at found
  | node k cs =>
    rw [htree, Tree.solid_node] at solid
    rw [htree, Tree.trim_node] at trim
    have first : cs.head? = some n := by
      cases cs with
      | nil => exact absurd rfl solid.1.2
      | cons c cs =>
        have content : c.isTrivia = false := trim.1 c rfl
        rw [htree] at found
        split at found
        · simpa [Tree.firstChild?, Tree.children, content] using found
        · obtain ⟨others, call⟩ := callee_eq_some found
          cases call
          rfl
    have member : n ∈ cs := List.mem_of_head? first
    have solid_n : n.Solid := (Tree.allSolid_iff cs).mp solid.2 n member
    refine ⟨solid_n.text_ne_nil, ?_, first⟩
    cases n with
    | leaf k' s => rfl
    | node k' cs' => exact absurd identifier ((Tree.solid_node k' cs').mp solid_n).1.1

theorem namesLead_of_parsed {tree : SyntaxTree source} (parsed : parse source = .ok tree) :
    NamesLead tree.root := by
  intro p member n named
  have inner : p.tree.kind ≠ .program := by
    intro whole
    cases htree : p.tree <;>
      simp_all [Placed.name?, Tree.kind, Tree.callee?]
  exact name_leads (tree.solid_node member inner) (trim_of_parsed parsed member inner) named

/-- The walk visits every node once, in document order, and what is collected on it is one for each
node that qualifies. Since children lie within their parent and apart from each other, nodes are
visited by ascending start. No two declarations or calls begin together where nodes begin with their
names, as they do in every script that is read. -/
theorem walk_collects_each_once :
    (∀ t : Tree, t.WalkedOnce ∧
      (∀ p ∈ t.walk, ∀ i c, p.child? i = some c → p.start ≤ c.start ∧ c.stop ≤ p.stop ∧
        ∀ j d, i < j → p.child? j = some d → c.stop ≤ d.start) ∧
      t.walk.Pairwise (fun p q => p.start ≤ q.start) ∧
      Lists t ContextLoader.ofNode? (contextLoaders t) ∧
      (∀ b, Lists t (ContextCall.ofNode? b) (contextCalls t b)) ∧
      (NamesLead t → (contextLoaders t).Pairwise (fun b b' => b.start < b'.start) ∧
        ∀ b, (contextCalls t b).Pairwise fun c c' => c.start < c'.start)) ∧
    ∀ (source : Text) (tree : SyntaxTree source), parseScript source = .ok tree →
      NamesLead tree.root := by
  constructor
  · intro t
    refine ⟨t.walkedOnce, ?_, walk_ascending t, lists_walk t _, fun b => lists_walk t _, ?_⟩
    · intro p _ i c child
      exact Placed.child?_ranges child
    · intro names
      constructor
      · exact collected_ascending names loader_named
      · intro b
        exact collected_ascending names (call_named b)
  · intro source tree parsed
    refine namesLead_of_parsed ?_
    cases read : Script.parse source with
    | error fault => simp [parseScript, read, Except.mapError] at parsed
    | ok tree' =>
      simp only [parseScript, read, Except.mapError, Except.ok.injEq] at parsed
      rw [parsed]

/-- A call inside the argument of another call is collected after it. -/
theorem inner_call_collected : ∃ tree,
    parseScript "var req = require.context('./m/'); req(a); req(req(b));".toList = .ok tree ∧
      NamesLead tree.root ∧ (contextLoaders tree.root).map (·.start) = [4] ∧
        ∀ b ∈ contextLoaders tree.root,
          (contextCalls tree.root b).Pairwise (fun c c' => c.start < c'.start) ∧
            (contextCalls tree.root b).map (·.start) = [35, 43, 47] := by
  have starts : (parseScript "var req = require.context('./m/'); req(a); req(req(b));".toList
      ).toOption.map (fun tree => (contextLoaders tree.root).map fun b =>
        (b.start, (contextCalls tree.root b).map (·.start))) = some [(4, [35, 43, 47])] := by
    decide +kernel
  cases outcome : parseScript
      "var req = require.context('./m/'); req(a); req(req(b));".toList with
  | error fault =>
    rw [outcome] at starts
    cases starts
  | ok tree =>
    rw [outcome] at starts
    have loaders : (contextLoaders tree.root).map (fun b =>
        (b.start, (contextCalls tree.root b).map (·.start))) = [(4, [35, 43, 47])] :=
      Option.some.inj starts
    have names : NamesLead tree.root := walk_collects_each_once.2 _ tree outcome
    have ordered := ((walk_collects_each_once.1 tree.root).2.2.2.2.2 names).2
    refine ⟨tree, rfl, names, ?_, ?_⟩
    · have first := congrArg (List.map Prod.fst) loaders
      rw [List.map_map] at first
      exact first
    · intro b member
      have calls := List.mem_map_of_mem (f := fun b =>
        (b.start, (contextCalls tree.root b).map fun c => c.start)) member
      rw [loaders, List.mem_singleton, Prod.mk.injEq] at calls
      exact ⟨ordered b, calls.2⟩

end RequireInjection
