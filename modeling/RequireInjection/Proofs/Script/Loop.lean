import RequireInjection.Proofs.Script.Address
import RequireInjection.Proofs.Script.Walk

/-!
The walk of a cursor as a loop of single moves. A turn of the loop goes down to the first child; a
node without children is left at once. From a node that is left the loop goes on to the next
sibling, or up to the parent and leaves that. It ends where the root is left. What carries the
induction is that the loop, once it has come to a node, leaves that same node after it has visited
all below it.
-/
namespace RequireInjection.Script

/-- Where the loop stands: at a node it visits, or at one whose descendants are all visited. -/
inductive Stage where
  | visiting (c : Cursor)
  | leaving (c : Cursor)

namespace Stage

def next? : Stage → Option Stage
  | visiting c =>
    match c.firstChild? with
    | some child => some (visiting child)
    | none => some (leaving c)
  | leaving c =>
    match c.nextSibling? with
    | some sibling => some (visiting sibling)
    | none => c.parent?.map leaving

def visited : Stage → List Cursor
  | visiting c => [c]
  | leaving _ => []

inductive Passes : Stage → List Cursor → Stage → Prop
  | here (s : Stage) : Passes s [] s
  | move {s next last : Stage} {cursors : List Cursor} :
      s.next? = some next → Passes next cursors last → Passes s (s.visited ++ cursors) last

def Ends (s : Stage) (cursors : List Cursor) : Prop :=
  ∃ last, Passes s cursors (leaving last) ∧ (leaving last).next? = none

theorem Passes.trans {s t u : Stage} {cursors more : List Cursor} (first : Passes s cursors t)
    (second : Passes t more u) : Passes s (cursors ++ more) u := by
  induction first with
  | here s => exact second
  | move moves _ ih =>
    rw [List.append_assoc]
    exact Passes.move moves (ih second)

theorem Passes.one {s next : Stage} (moves : s.next? = some next) : Passes s s.visited next := by
  have passes := Passes.move moves (Passes.here next)
  rwa [List.append_nil] at passes

theorem Ends.unique {s : Stage} {cursors others : List Cursor} (ends : s.Ends cursors)
    (ends' : s.Ends others) : cursors = others := by
  obtain ⟨last, passes, stuck⟩ := ends
  obtain ⟨last', passes', stuck'⟩ := ends'
  generalize hlast : leaving last = l at passes stuck
  induction passes generalizing others with
  | here s =>
    cases passes' with
    | here => rfl
    | move moves _ =>
      rw [moves] at stuck
      cases stuck
  | move moves _ ih =>
    generalize hlast' : leaving last' = l' at passes' stuck'
    cases passes' with
    | here =>
      rw [moves] at stuck'
      cases stuck'
    | move moves' rest =>
      rw [moves] at moves'
      cases moves'
      subst l'
      rw [ih rest hlast stuck]

end Stage

namespace Cursor

/-- Which child of its parent a node is follows from the number of siblings after it. -/
def addressBelow (following : List Tree) : List (Placed × List Tree) → List Nat
  | [] => []
  | (p, after) :: rest =>
    addressBelow after rest ++ [p.tree.children.length - (following.length + 1)]

def address (c : Cursor) : List Nat := addressBelow c.following c.ancestors

theorem address_child {p : Placed} {after following : List Tree} {rest : List (Placed × List Tree)}
    {i : Nat} (q : Placed) (children : p.tree.children.length = i + (following.length + 1)) :
    address ⟨q, following, (p, after) :: rest⟩ = address ⟨p, after, rest⟩ ++ [i] := by
  simp [address, addressBelow, children]

end Cursor

namespace Tree

open Stage

mutual
theorem passes_tree (start : Nat) (following : List Tree) (ancestors : List (Placed × List Tree)) :
    ∀ t : Tree, ∃ cursors, Passes (visiting ⟨⟨start, t⟩, following, ancestors⟩) cursors
      (leaving ⟨⟨start, t⟩, following, ancestors⟩) ∧ cursors.map Cursor.focus = t.preorder start ∧
        cursors.map Cursor.address =
          t.addresses.map (Cursor.address ⟨⟨start, t⟩, following, ancestors⟩ ++ ·)
  | leaf k s =>
    ⟨_, Passes.one rfl, by simp [visited, preorder], by simp [visited, addresses]⟩
  | node k [] =>
    ⟨_, Passes.one rfl, by simp [visited, preorder, preorderOfAll],
      by simp [visited, addresses, addressesFrom]⟩
  | node k (t :: ts) => by
    obtain ⟨first, passes, foci, places⟩ :=
      passes_tree start ts ((⟨start, node k (t :: ts)⟩, following) :: ancestors) t
    obtain ⟨others, passes', foci', places'⟩ :=
      passes_children 1 ⟨start, t⟩ ⟨start, node k (t :: ts)⟩ following ancestors ts
        (by simp [children, Nat.add_comm])
    -- The first child is entered from the node itself, the others from the sibling before.
    have here :
      Cursor.address ⟨⟨start, t⟩, ts, (⟨start, node k (t :: ts)⟩, following) :: ancestors⟩ =
        Cursor.address ⟨⟨start, node k (t :: ts)⟩, following, ancestors⟩ ++ [0] :=
      Cursor.address_child _ (by simp [children])
    refine ⟨_, (Passes.one rfl).trans (passes.trans passes'), ?_, ?_⟩
    · simp only [visited, List.map_append, List.map_cons, foci, foci', preorder,
        preorderOfAll, Placed.stop, List.singleton_append]
    · simp only [visited, List.map_append, List.map_cons, places, places', here,
        addresses, addressesFrom, List.singleton_append, List.append_nil, List.map_map]
      simp [Function.comp_def]
/-- Between leaving a node and leaving its parent the loop visits what lies below the siblings that
follow the node. -/
theorem passes_children (i : Nat) (q p : Placed) (after : List Tree)
    (ancestors : List (Placed × List Tree)) : ∀ ts : List Tree,
    p.tree.children.length = i + ts.length → ∃ cursors,
      Passes (leaving ⟨q, ts, (p, after) :: ancestors⟩) cursors (leaving ⟨p, after, ancestors⟩) ∧
        cursors.map Cursor.focus = preorderOfAll q.stop ts ∧
          cursors.map Cursor.address =
            (addressesFrom i ts).map (Cursor.address ⟨p, after, ancestors⟩ ++ ·)
  | [], _ =>
    ⟨_, Passes.one rfl, by simp [visited, preorderOfAll], by simp [visited, addressesFrom]⟩
  | t :: ts, children => by
    obtain ⟨first, passes, foci, places⟩ := passes_tree q.stop ts ((p, after) :: ancestors) t
    obtain ⟨others, passes', foci', places'⟩ :=
      passes_children (i + 1) ⟨q.stop, t⟩ p after ancestors ts
        (by rw [children, List.length_cons]; omega)
    have here : Cursor.address ⟨⟨q.stop, t⟩, ts, (p, after) :: ancestors⟩ =
        Cursor.address ⟨p, after, ancestors⟩ ++ [i] :=
      Cursor.address_child _ (by rw [children, List.length_cons])
    refine ⟨_, (Passes.one rfl).trans (passes.trans passes'), ?_, ?_⟩
    · simp only [visited, List.map_append, foci, foci', preorderOfAll, Placed.stop,
        List.nil_append]
    · simp only [visited, List.map_append, List.nil_append, places, places', here,
        addressesFrom, List.map_map]
      simp [Function.comp_def]
end

theorem map_at?_walk (t : Tree) : t.addresses.map (Placed.at? ⟨0, t⟩) = t.walk.map some := by
  rw [walk_eq_preorder]
  exact map_at?_addresses 0 t

/-- The loop ends with the visits of the walk and with no others. The visits go to all addresses of
the tree, each visited once and in their order, and at each address the node there is visited. -/
structure WalkedOnce (t : Tree) : Prop where
  ends : ∃ cursors, (∀ others, (visiting (Cursor.ofTree t)).Ends others ↔ others = cursors) ∧
    cursors.map Cursor.focus = t.walk ∧ cursors.map Cursor.address = t.addresses
  ascending : t.addresses.Pairwise (· < ·)
  complete : ∀ a, a ∈ t.addresses ↔ (Placed.at? ⟨0, t⟩ a).isSome
  nodes : t.addresses.map (Placed.at? ⟨0, t⟩) = t.walk.map some

theorem walkedOnce (t : Tree) : t.WalkedOnce where
  ends := by
    obtain ⟨cursors, passes, foci, places⟩ := passes_tree 0 [] [] t
    have ends : (visiting (Cursor.ofTree t)).Ends cursors := ⟨Cursor.ofTree t, passes, rfl⟩
    refine ⟨cursors, ?_, ?_, ?_⟩
    · intro others
      constructor
      · intro ends'
        exact ends'.unique ends
      · rintro rfl
        exact ends
    · rw [foci, walk_eq_preorder]
    · simpa [Cursor.address, Cursor.addressBelow] using places
  ascending := addresses_ascending t
  complete := mem_addresses ⟨0, t⟩
  nodes := map_at?_walk t

end Tree
end RequireInjection.Script
