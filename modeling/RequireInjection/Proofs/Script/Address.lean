import RequireInjection.Script.Cursor

namespace RequireInjection.Script

namespace Placed

def child? (p : Placed) (i : Nat) : Option Placed :=
  p.tree.children[i]?.map fun c =>
    ⟨p.start + Text.size (Tree.textOfAll (p.tree.children.take i)), c⟩

def at? (p : Placed) : List Nat → Option Placed
  | [] => some p
  | i :: is => (p.child? i).bind fun c => c.at? is

theorem child?_append {p : Placed} {before ys : List Tree} {y : Tree}
    (children : p.tree.children = before ++ y :: ys) :
    p.child? before.length = some ⟨p.start + Text.size (Tree.textOfAll before), y⟩ := by
  simp [child?, children]

theorem child?_stop {p c : Placed} {i : Nat} (child : p.child? i = some c) :
    c.stop = p.start + Text.size (Tree.textOfAll (p.tree.children.take (i + 1))) := by
  obtain ⟨t, found, rfl⟩ := Option.map_eq_some_iff.mp child
  rw [List.take_add_one, found]
  simp [stop, Tree.size, Nat.add_assoc]

theorem size_take_le (ts : List Tree) {i j : Nat} (upTo : i ≤ j) :
    Text.size (Tree.textOfAll (ts.take i)) ≤ Text.size (Tree.textOfAll (ts.take j)) := by
  obtain ⟨more, split⟩ := List.take_prefix_take_left (l := ts) upTo
  rw [← split, Tree.textOfAll_append, Text.size_append]
  exact Nat.le_add_right _ _

theorem child?_ranges {p c : Placed} {i : Nat} (child : p.child? i = some c) :
    p.start ≤ c.start ∧ c.stop ≤ p.stop ∧
      ∀ j d, i < j → p.child? j = some d → c.stop ≤ d.start := by
  have stop := child?_stop child
  obtain ⟨t, found, rfl⟩ := Option.map_eq_some_iff.mp child
  refine ⟨Nat.le_add_right _ _, ?_, ?_⟩
  · rw [stop, Placed.stop]
    cases htree : p.tree with
    | leaf k s => simp [htree, Tree.children] at found
    | node k cs =>
      have within := size_take_le cs (Nat.le_max_right cs.length (i + 1))
      rw [List.take_of_length_le (Nat.le_max_left _ _)] at within
      rw [Tree.children, Tree.size, Tree.text_node]
      omega
  · intro j d later child'
    obtain ⟨u, -, rfl⟩ := Option.map_eq_some_iff.mp child'
    have before := size_take_le p.tree.children later
    rw [stop]
    exact Nat.add_le_add_left before p.start

end Placed

namespace Tree

mutual
def addresses : Tree → List (List Nat)
  | leaf _ _ => [[]]
  | node _ cs => [] :: addressesFrom 0 cs
def addressesFrom (i : Nat) : List Tree → List (List Nat)
  | [] => []
  | t :: ts => t.addresses.map (i :: ·) ++ addressesFrom (i + 1) ts
end

theorem addresses_eq (t : Tree) : t.addresses = [] :: addressesFrom 0 t.children := by
  cases t with
  | leaf k s => simp [addresses, children, addressesFrom]
  | node k cs => simp [addresses, children]

theorem mem_addressesFrom {i j : Nat} {a : List Nat} {ts : List Tree} :
    j :: a ∈ addressesFrom i ts ↔ ∃ n t, j = i + n ∧ ts[n]? = some t ∧ a ∈ t.addresses := by
  induction ts generalizing i with
  | nil => simp [addressesFrom]
  | cons t ts ih =>
    simp only [addressesFrom, List.mem_append, List.mem_map, List.cons.injEq, ih]
    constructor
    · rintro (⟨b, member, rfl, rfl⟩ | ⟨n, u, rfl, found, member⟩)
      · exact ⟨0, t, rfl, rfl, member⟩
      · exact ⟨n + 1, u, by omega, found, member⟩
    · rintro ⟨n, u, rfl, found, member⟩
      cases n with
      | zero =>
        cases found
        exact Or.inl ⟨a, member, rfl, rfl⟩
      | succ n => exact Or.inr ⟨n, u, by omega, found, member⟩

theorem nil_notMem_addressesFrom (i : Nat) (ts : List Tree) : [] ∉ addressesFrom i ts := by
  induction ts generalizing i with
  | nil => simp [addressesFrom]
  | cons t ts ih => simp [addressesFrom, ih]

theorem mem_addresses (p : Placed) (a : List Nat) :
    a ∈ p.tree.addresses ↔ (p.at? a).isSome := by
  induction a generalizing p with
  | nil => simp [addresses_eq, Placed.at?]
  | cons i a ih =>
    rw [addresses_eq, List.mem_cons, mem_addressesFrom]
    simp only [reduceCtorEq, false_or, Placed.at?, Placed.child?]
    cases found : p.tree.children[i]? with
    | none =>
      simp only [Option.map_none, Option.bind_none, Option.isSome_none, Bool.false_eq_true,
        iff_false]
      rintro ⟨n, t, rfl, same, -⟩
      rw [Nat.zero_add] at found
      simp [found] at same
    | some t =>
      simp only [Option.map_some, Option.bind_some, ← ih]
      constructor
      · rintro ⟨n, u, rfl, same, member⟩
        rw [Nat.zero_add, same] at found
        cases found
        exact member
      · intro member
        exact ⟨i, t, by omega, found, member⟩

mutual
theorem addresses_ascending : ∀ t : Tree, t.addresses.Pairwise (· < ·)
  | leaf k s => by simp [addresses]
  | node k cs => by
    rw [addresses, List.pairwise_cons]
    refine ⟨?_, addressesFrom_ascending 0 cs⟩
    intro a member
    cases a with
    | nil => exact absurd member (nil_notMem_addressesFrom 0 cs)
    | cons i a => exact List.nil_lt_cons i a
theorem addressesFrom_ascending (i : Nat) :
    ∀ ts : List Tree, (addressesFrom i ts).Pairwise (· < ·)
  | [] => by simp [addressesFrom]
  | t :: ts => by
    rw [addressesFrom, List.pairwise_append]
    refine ⟨?_, addressesFrom_ascending (i + 1) ts, ?_⟩
    · rw [List.pairwise_map]
      refine (addresses_ascending t).imp ?_
      intro a b before
      exact List.cons_lt_cons_iff.mpr (Or.inr ⟨rfl, before⟩)
    · intro a first b later
      obtain ⟨c, -, rfl⟩ := List.mem_map.mp first
      cases b with
      | nil => exact absurd later (nil_notMem_addressesFrom (i + 1) ts)
      | cons j b =>
        obtain ⟨n, -, rfl, -⟩ := mem_addressesFrom.mp later
        exact List.cons_lt_cons_iff.mpr (Or.inl (by omega))
end

mutual
theorem map_at?_addresses (start : Nat) : ∀ t : Tree,
    t.addresses.map (Placed.at? ⟨start, t⟩) = (t.preorder start).map some
  | leaf k s => by simp [addresses, preorder, Placed.at?]
  | node k cs => by
    have below := map_at?_addressesFrom ⟨start, node k cs⟩ [] cs rfl
    simp only [List.length_nil, textOfAll_nil, Text.size_nil, Nat.add_zero] at below
    simp [addresses, preorder, Placed.at?, below]
theorem map_at?_addressesFrom (p : Placed) (before : List Tree) : ∀ ts : List Tree,
    p.tree.children = before ++ ts → (addressesFrom before.length ts).map p.at? =
      (preorderOfAll (p.start + Text.size (textOfAll before)) ts).map some
  | [], _ => by simp [addressesFrom, preorderOfAll]
  | t :: ts, children => by
    have first := map_at?_addresses (p.start + Text.size (textOfAll before)) t
    have rest := map_at?_addressesFrom p (before ++ [t]) ts (by simp [children])
    have down : ∀ a, p.at? (before.length :: a) =
        Placed.at? ⟨p.start + Text.size (textOfAll before), t⟩ a := by
      intro a
      rw [Placed.at?, Placed.child?_append children, Option.bind_some]
    have stop : p.start + Text.size (textOfAll (before ++ [t])) =
        p.start + Text.size (textOfAll before) + t.size := by
      simp [size, Nat.add_assoc]
    rw [stop, List.length_append, List.length_singleton] at rest
    rw [addressesFrom, preorderOfAll, List.map_append, List.map_append, List.map_map, rest, ← first]
    congr 1
    apply List.map_congr_left
    intro a _
    exact down a
end

end Tree
end RequireInjection.Script
