import RequireInjection.Proofs.ContextCall.Outermost
import RequireInjection.Proofs.Script.Precedence
import RequireInjection.Proofs.Script.RootOperator

/-!
The keys of rewritten calls. Base path and name are pasted around a `+` as they stand in the source,
so whether the key that the rewritten text is read with is their sum hangs on the operators in
them: none of the base path may be looser than the `+`, and all of the name must be tighter.
-/
namespace RequireInjection

open Script Grammar

/-- The key of a look-up among the injections. -/
def Script.Tree.lookupKey? : Tree → Option Tree
  | .node .subscriptExpression cs =>
    match cs.filter fun c => c.kind.isNamed with
    | [object, key] => if object.text = "injections".toList then some key else none
    | _ => none
  | _ => none

/-- The keys of all look-ups in the rewritten text, as it is read again. -/
def rewrittenKeys (source : Text) : List Tree :=
  match resolveContextCalls source with
  | .error _ => []
  | .ok output =>
    match Script.parse output with
    | .error _ => []
    | .ok tree => tree.nodes.filterMap fun p => p.tree.lookupKey?

theorem lookupKey?_eq_some {t key : Tree} (h : t.lookupKey? = some key) :
    key ∈ t.children ∧ key.kind.isNamed := by
  unfold Tree.lookupKey? at h
  split at h
  · rename_i cs
    split at h
    · rename_i object key' named
      split at h
      · cases h
        have member : key ∈ cs.filter fun c => c.kind.isNamed := by simp [named]
        simpa [Tree.children] using List.mem_filter.mp member
      · cases h
    · cases h
  · cases h

theorem grouped_of_mem_children {t c : Tree} (grouped : t.Grouped) (member : c ∈ t.children) :
    c.Grouped := by
  cases t with
  | leaf kind text => simp [Tree.children] at member
  | node kind cs =>
    have all := ((Tree.grouped_node kind cs).mp grouped).2
    exact (Tree.allGrouped_iff cs).mp all c member

theorem grouped_of_parsed {source : Text} {tree : SyntaxTree source}
    (parsed : Script.parse source = .ok tree) {p : Placed} (member : p ∈ tree.nodes) :
    p.tree.Grouped := by
  have root : tree.root.Grouped := by
    rw [SyntaxTree.root, Tree.grouped_node]
    exact ⟨by simp, parse_grouped parsed⟩
  exact Tree.grouped_of_mem_preorder 0 p tree.root root member

theorem rewrittenKeys_grouped {source : Text} {key : Tree} (h : key ∈ rewrittenKeys source) :
    key.Grouped ∧ key.kind.isNamed := by
  unfold rewrittenKeys at h
  split at h
  · simp at h
  · rename_i output rewritten
    split at h
    · simp at h
    · rename_i tree parsed
      obtain ⟨p, member, keyed⟩ := List.mem_filterMap.mp h
      obtain ⟨child, named⟩ := lookupKey?_eq_some keyed
      exact ⟨grouped_of_mem_children (grouped_of_parsed parsed member) child, named⟩

theorem key_isSum_iff {source : Text} {key : Tree} (h : key ∈ rewrittenKeys source) :
    key.IsSum ↔ (∀ o ∈ key.operators, level ['+'] ≤ level o) ∧
      key.additive.getLast? = some ['+'] := by
  obtain ⟨grouped, named⟩ := rewrittenKeys_grouped h
  cases key with
  | leaf kind text =>
    have bare : (Tree.leaf kind text).operators = [] := by
      cases kind <;> simp_all [Tree.kind, Kind.isNamed, Tree.operators]
    simp [Tree.IsSum, Tree.additive, bare]
  | node kind cs => exact Tree.isSum_iff grouped

theorem node_joins_iff {source : Text} {tree : SyntaxTree source}
    (parsed : Script.parse source = .ok tree) {p : Placed} (member : p ∈ tree.nodes)
    (named : p.tree.kind.isNamed) {op left right : Text} (loose : level op < level "**".toList)
    (text : p.text = left ++ (op ++ right)) :
    p.tree.Joins op left right ↔ p.tree.LoosestAt left.size op := by
  refine Tree.joins_iff (grouped_of_parsed parsed member) (fun binary => ?_) named loose text
  exact tree.solid_node member (by rw [binary]; simp)

/-- The inside of the look-up by base path and name, in front of its choice. -/
def keyedAccess (base name : Text) : Text :=
  ("injections[" : Text) ++ base ++ (" + " : Text) ++ name ++ ("] " : Text)

/-- In the rewritten text, a key is a sum exactly when none of its operators binds less tightly than
`+` and the last one that binds as tightly is a `+`. In the place of every outermost call stands the
look-up of its base path and name, with the call behind it. Where base path and name are read as one
expression, it is their sum exactly when no operator of the base path is looser than the `+` between
them and every operator of the name is tighter; and where the inside of the look-up is read as one
expression, it is a choice with the call on its right under the like condition. -/
theorem rewritten_key_isSum_iff (source : Text) :
    (∀ key ∈ rewrittenKeys source, key.IsSum ↔
      (∀ o ∈ key.operators, level ['+'] ≤ level o) ∧ key.additive.getLast? = some ['+']) ∧
    ∀ tree, Script.parse source = .ok tree →
      ∀ before c after, outermostCalls tree = before ++ c :: after →
        let call := source.slice c.start c.stop
        ∃ front behind,
          resolveContextCalls source =
            .ok (front ++ (keyedLookup c.base c.name call ++ behind)) ∧
          (front.size : Int) = c.start + (before.map fun d => d.edit.growth).sum ∧
          ∀ output, Script.parse (front ++ (keyedLookup c.base c.name call ++ behind)) =
            .ok output → ∀ p ∈ output.nodes, p.tree.kind.isNamed →
              (p.text = c.base ++ (" + " : Text) ++ c.name →
                (p.tree.Joins ['+'] (c.base ++ [' ']) (' ' :: c.name) ↔
                  p.tree.LoosestAt (c.base.size + 1) ['+'])) ∧
              (p.text = keyedAccess c.base c.name ++ ("|| " : Text) ++ call →
                (p.tree.Joins ['|', '|'] (keyedAccess c.base c.name) (' ' :: call) ↔
                  p.tree.LoosestAt (keyedAccess c.base c.name).size ['|', '|'])) := by
  constructor
  · intro key member
    exact key_isSum_iff member
  · intro tree parsed before c after calls call
    obtain ⟨front, behind, resolved, place⟩ := resolved_around parsed calls
    rw [replacement_eq tree (by rw [calls]; simp)] at resolved
    refine ⟨front, behind, resolved, place, fun output read p member named => ⟨?_, ?_⟩⟩
    · intro text
      have pasted : (" + " : Text) = [' '] ++ (['+'] ++ [' ']) := by decide
      have sizes : Text.size (c.base ++ [' ']) = c.base.size + 1 := Text.size_append c.base [' ']
      rw [← sizes]
      refine node_joins_iff read member named (by decide) ?_
      rw [text, pasted]
      simp
    · intro text
      have choice : ("|| " : Text) = ['|', '|'] ++ [' '] := by decide
      refine node_joins_iff read member named (by decide) ?_
      rw [text, choice]
      simp

/-- A name that is itself a sum of tighter terms leaves the key a sum, and one that is a product
leaves it the sum of base path and name. -/
theorem sum_key_isSum :
    (∃ key ∈ rewrittenKeys "var req = require.context('./m/'); req(a + b * c);".toList,
      key.IsSum) ∧
    let source : Text := "var req = require.context('./m/'); req(a * b);"
    let output : Text :=
      "var req = require.context('./m/'); (injections['./m/' + a * b] || req(a * b));"
    resolveContextCalls source = .ok output ∧ ∃ tree, Script.parse output = .ok tree ∧
      (∃ p ∈ tree.nodes, p.tree.Joins ['+'] ("'./m/'".toList ++ [' ']) (' ' :: "a * b".toList)) ∧
      ∃ p ∈ tree.nodes, p.tree.Joins ['|', '|'] (keyedAccess "'./m/'" "a * b")
        (' ' :: "req(a * b)".toList) := by
  constructor
  · have operators : (rewrittenKeys
        "var req = require.context('./m/'); req(a + b * c);".toList).map
          Tree.operators = [[['+'], ['+'], ['*']]] := by decide +kernel
    obtain ⟨key, rest, keys, here, _⟩ := List.map_eq_cons_iff.mp operators
    have member : key ∈ rewrittenKeys
        "var req = require.context('./m/'); req(a + b * c);".toList := by
      rw [keys]
      exact List.mem_cons_self
    refine ⟨key, member, ((rewritten_key_isSum_iff _).1 key member).mpr ⟨?_, ?_⟩⟩
    · rw [here]
      decide +kernel
    · rw [Tree.additive, here]
      decide +kernel
  · intro source output
    let c : ContextCall := ⟨35, 45, "'./m/'", "a * b", "req(a * b)"⟩
    have read : (Script.parse source).toOption.map outermostCalls = some [c] := by decide +kernel
    have call : source.slice 35 45 = "req(a * b)".toList := by decide +kernel
    have rewritten : (resolveContextCalls source).toOption = some output := by decide +kernel
    have nodes : (Script.parse output).toOption.map (fun tree =>
        (tree.nodes.filter fun p => p.tree.kind = .binaryExpression).map fun p =>
          (p.text, p.tree.operatorsFrom 0)) = some
        [(keyedAccess "'./m/'" "a * b" ++ ("|| " : Text) ++ "req(a * b)".toList,
            [(27, ['|', '|'])]),
          ("'./m/'".toList ++ (" + " : Text) ++ "a * b".toList, [(7, ['+']), (11, ['*'])]),
          ("a * b".toList, [(2, ['*'])]), ("a * b".toList, [(2, ['*'])])] := by
      decide +kernel
    cases parsed : Script.parse source with
    | error fault => simp [parsed, Except.toOption] at read
    | ok tree =>
      rw [parsed] at read
      have calls : outermostCalls tree = [] ++ c :: [] := Option.some.inj read
      obtain ⟨front, behind, resolved, -, laws⟩ :=
        (rewritten_key_isSum_iff source).2 tree parsed [] c [] calls
      have whole : front ++ (keyedLookup c.base c.name (source.slice c.start c.stop) ++ behind) =
          output := by
        rw [resolved] at rewritten
        exact Option.some.inj rewritten
      rw [whole] at laws resolved
      refine ⟨resolved, ?_⟩
      cases again : Script.parse output with
      | error fault => simp [again, Except.toOption] at nodes
      | ok tree' =>
        rw [again] at nodes
        -- In document order the choice comes before the sum, which stands in its key.
        obtain ⟨choice, _, listed, shape, rest⟩ :=
          List.map_eq_cons_iff.mp (Option.some.inj nodes)
        obtain ⟨sum, _, rfl, shape', -⟩ := List.map_eq_cons_iff.mp rest
        obtain ⟨text, operators⟩ := Prod.mk.inj shape
        obtain ⟨text', operators'⟩ := Prod.mk.inj shape'
        have named : ∀ p ∈ tree'.nodes.filter fun p => p.tree.kind = .binaryExpression,
            p ∈ tree'.nodes ∧ p.tree.kind.isNamed := by
          intro p found
          obtain ⟨among, binary⟩ := List.mem_filter.mp found
          exact ⟨among, by rw [of_decide_eq_true binary]; rfl⟩
        rw [listed] at named
        obtain ⟨choice_member, choice_named⟩ := named choice List.mem_cons_self
        obtain ⟨sum_member, sum_named⟩ := named sum (List.mem_cons_of_mem _ List.mem_cons_self)
        refine ⟨tree', rfl, ⟨sum, sum_member, ?_⟩, choice, choice_member, ?_⟩
        · refine ((laws tree' again sum sum_member sum_named).1 text').mpr ?_
          rw [Tree.LoosestAt, operators']
          decide +kernel
        · refine ((laws tree' again choice choice_member choice_named).2 ?_).mpr ?_
          · rw [text, call]
          · rw [Tree.LoosestAt, operators]
            decide +kernel

/-- The condition takes the whole sum before it as its test. -/
theorem conditional_name_takes_sum : ∃ key ∈ rewrittenKeys
    "var req = require.context('./m/'); req(a ? b : c);".toList,
      key.kind = .ternaryExpression ∧ ¬ key.IsSum := by
  have kinds : (rewrittenKeys "var req = require.context('./m/'); req(a ? b : c);".toList).map
      Tree.kind = [.ternaryExpression] := by decide +kernel
  obtain ⟨key, rest, keys, here, _⟩ := List.map_eq_cons_iff.mp kinds
  refine ⟨key, by rw [keys]; exact List.mem_cons_self, here, ?_⟩
  rintro ⟨cs, left, right, rfl, -⟩
  simp [Tree.kind] at here

/-- Spread arguments can stand in a call but in no key. -/
example : (resolveContextCalls "var req = require.context('./m/'); req(...xs);".toList).toOption.map
    (fun output => (Script.parse output).isOk) = some false := by
  decide +kernel

end RequireInjection
