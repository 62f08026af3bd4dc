import RequireInjection.Proofs.CallPattern.Exclusion
import RequireInjection.Proofs.ContextCall.Outermost
import RequireInjection.Proofs.Script.Precedence
import RequireInjection.Proofs.Text.Splitting

/-!
Wrapped calls and calls of the syntax tree. The pattern knows nothing of tokens: it finds any text
`require(`, wherever it stands. So a call of the name `require` in the tree with no closing bracket
but its last character is wrapped exactly if it is written without anything before its bracket and
no text found before it reaches over its start.
-/
namespace RequireInjection

open Script CallPattern

def Script.Placed.loadArguments? (p : Placed) : Option (List Tree) :=
  match p.tree.callee?, p.tree.callArguments? with
  | some callee, some (.node .arguments cs) =>
    if callee.kind = .identifier ∧ callee.text = "require".toList then some cs else none
  | _, _ => none

def wrappedCalls (source : Text) : List Match := (ofFilters FilterSet.empty).calls source

theorem loadArguments_eq_some {p : Placed} {arguments : List Tree}
    (h : p.loadArguments? = some arguments) : ∃ callee others,
      p.tree = .node .callExpression (callee :: others) ∧ callee.kind = .identifier ∧
        callee.text = "require".toList ∧ p.tree.callArguments? = some (.node .arguments arguments) := by
  unfold Placed.loadArguments? at h
  split at h
  · rename_i callee cs hcallee hargs
    split at h
    · rename_i named
      cases h
      obtain ⟨others, htree⟩ := callee_eq_some hcallee
      exact ⟨callee, others, htree, named.1, named.2, hargs⟩
    · cases h
  · cases h

theorem callArguments_last {cs : List Script.Tree} {args : Script.Tree}
    (token : Tree.EndsInToken cs)
    (h : (Script.Tree.node .callExpression cs).callArguments? = some args) :
    ∃ front, cs = front ++ [args] := by
  rcases List.eq_nil_or_concat cs with rfl | ⟨front, last, rfl⟩
  · simp [Tree.callArguments?, Tree.kind, Tree.lastChild?, Tree.children] at h
  · rw [List.concat_eq_append] at token h ⊢
    have last_token : last.isTrivia = false := token last (by simp)
    have last_child : (Script.Tree.node .callExpression (front ++ [last])).lastChild? =
        some last := by
      simp [Tree.lastChild?, Tree.children, last_token]
    have unfolded : (Script.Tree.node .callExpression (front ++ [last])).callArguments? =
        if last.kind = .arguments then some last else none := by
      simp only [Tree.callArguments?, last_child]
      rfl
    rw [unfolded] at h
    split at h
    · cases h
      exact ⟨front, rfl⟩
    · cases h

theorem loading_call_parts {source : Text} {tree : SyntaxTree source}
    (parsed : Script.parse source = .ok tree) {p : Placed} (member : p ∈ tree.nodes)
    {arguments : List Script.Tree} (loads : p.loadArguments? = some arguments) :
    ∃ callee between inner,
      p.tree.children = callee :: (between ++ [.node .arguments arguments]) ∧
      arguments = .leaf .punctuation ['('] :: (inner ++ [.leaf .punctuation [')']]) ∧
      p.text = "require".toList ++ (Tree.textOfAll between ++
        '(' :: (Tree.textOfAll inner ++ [')'])) := by
  obtain ⟨callee, others, htree, hkind, htext, hargs⟩ := loadArguments_eq_some loads
  have formed := formed_of_parsed parsed member
  rw [htree] at formed hargs
  obtain ⟨token, all⟩ := (Tree.formed_node _ _).mp formed
  obtain ⟨front, split⟩ := callArguments_last token hargs
  cases front with
  | nil =>
    obtain ⟨rfl, -⟩ : callee = .node .arguments arguments ∧ others = [] := by simpa using split
    cases hkind
  | cons c between =>
    obtain ⟨rfl, rfl⟩ : callee = c ∧ others = between ++ [.node .arguments arguments] := by
      simpa using split
    have formed_args := (Tree.allFormed_iff _).mp all (.node .arguments arguments) (by simp)
    obtain ⟨inner, brackets⟩ := ((Tree.formed_node _ _).mp formed_args).1
    refine ⟨callee, between, inner, by rw [htree]; rfl, brackets, ?_⟩
    simp only [Placed.text, htree, Tree.text_node, Tree.textOfAll_cons, Tree.textOfAll_append,
      htext, brackets, Tree.text_leaf, Tree.textOfAll_nil, List.append_nil, List.singleton_append]

/-- No match that begins before the place reaches over it. -/
def ClearAt (source : Text) (place : Nat) : Prop :=
  ∀ m ∈ wrappedCalls source, m.start < place → m.stop ≤ place

/-- The call is wrapped from its start to its end, with the given key. -/
def WrappedWhole (source : Text) (p : Placed) (key : Text) : Prop :=
  ∃ m ∈ wrappedCalls source, m.start = p.start ∧ m.stop = p.stop ∧ m.argument = key

theorem argumentAt_iff {rest key : Text} :
    (ofFilters FilterSet.empty).argumentAt? rest = some key ↔
      key ≠ [] ∧ ')' ∉ key ∧ ∃ after, rest = (Piece.call key).text ++ after := by
  have any : ofFilters FilterSet.empty = anyArgument [] := rfl
  have kept : isExcluded [] key = false := by cases key <;> simp [isExcluded]
  have closes : ∀ after, (Piece.call key).text ++ after =
      Piece.opening ++ (key ++ ')' :: after) := by
    intro after
    simp only [Piece.text, List.append_assoc, List.singleton_append]
  rw [any]
  constructor
  · intro h
    simp only [argumentAt?] at h
    split at h
    · cases h
    · rename_i inner stripped
      obtain ⟨nonempty, no_closing, after, hinner⟩ :=
        anyArgument?_eq_some.mp (Option.filter_eq_some_iff.mp h).1
      refine ⟨nonempty, no_closing, after, ?_⟩
      rw [closes, ← hinner]
      exact Text.eq_append_of_stripPrefix? stripped
  · rintro ⟨nonempty, no_closing, after, rfl⟩
    rw [closes]
    simp only [argumentAt?, Text.stripPrefix?_append]
    refine Option.filter_eq_some_iff.mpr ⟨?_, by simp [kept]⟩
    exact anyArgument?_eq_some.mpr ⟨nonempty, no_closing, after, rfl⟩

theorem found_text {pre rest : Text} {m : Match} (found : m ∈ wrappedCalls (pre ++ rest))
    (here : m.start = pre.size) :
    m.argument ≠ [] ∧ ')' ∉ m.argument ∧ ∃ after, rest = m.text ++ after := by
  obtain ⟨before, after, whole, hstart, argument⟩ :=
    (calls_leftmost (ofFilters FilterSet.empty) (pre ++ rest)).is_match m found
  have same : rest = after := Text.append_inj_size whole (by rw [← here, hstart])
  exact same ▸ argumentAt_iff.mp argument

theorem found_of_text {pre rest key : Text} (nonempty : key ≠ []) (no_closing : ')' ∉ key)
    (clear : ClearAt (pre ++ ((Piece.call key).text ++ rest)) pre.size) :
    (⟨pre.size, key⟩ : Match) ∈ wrappedCalls (pre ++ ((Piece.call key).text ++ rest)) :=
  (calls_leftmost (ofFilters FilterSet.empty) _).mem_of_clear (fun _ _ => Finds.determined)
    ⟨pre, _, rfl, rfl, argumentAt_iff.mpr ⟨nonempty, no_closing, rest, rfl⟩⟩ (Nat.zero_le _) clear

theorem clear_of_found {source : Text} {m : Match} (found : m ∈ wrappedCalls source) :
    ClearAt source m.start := by
  intro m' found' earlier
  exact (calls_leftmost (ofFilters FilterSet.empty) source).apart found' found earlier

theorem wrappedWhole_iff {source : Text} {tree : SyntaxTree source} {p : Placed}
    (member : p ∈ tree.nodes) (key : Text) : WrappedWhole source p key ↔
      (key ≠ [] ∧ ')' ∉ key ∧ p.text = (Piece.call key).text) ∧ ClearAt source p.start := by
  obtain ⟨pre, post, whole, hstart⟩ := tree.source_around member
  constructor
  · rintro ⟨m, found, here, stop, rfl⟩
    have clear := here ▸ clear_of_found found
    rw [whole] at found
    obtain ⟨nonempty, no_closing, after, begins⟩ := found_text found (here.trans hstart)
    have sizes : p.text.size = m.text.size := by
      simp only [Match.stop, Placed.stop, here] at stop
      have : p.text.size = p.tree.size := rfl
      omega
    have rests := Text.append_inj_size begins sizes
    rw [rests] at begins
    exact ⟨⟨nonempty, no_closing, List.append_cancel_right begins⟩, clear⟩
  · rintro ⟨⟨nonempty, no_closing, text⟩, clear⟩
    rw [whole, text, hstart] at clear
    have found := found_of_text nonempty no_closing clear
    refine ⟨⟨pre.size, key⟩, ?_, hstart.symm, ?_, rfl⟩
    · rwa [whole, text]
    · have : p.tree.size = (Piece.call key).text.size := by rw [← text]; rfl
      simp only [Match.stop, Match.text, Placed.stop, hstart, this]

theorem solid_of_mem_arguments {t callee argument : Script.Tree}
    {between arguments : List Script.Tree} (solid : t.Solid)
    (hchildren : t.children = callee :: (between ++ [.node .arguments arguments]))
    (member : argument ∈ arguments) : argument.Solid := by
  cases t with
  | leaf kind text => cases hchildren
  | node kind cs =>
    simp only [Tree.children] at hchildren
    subst hchildren
    have all := (Tree.allSolid_iff _).mp ((Tree.solid_node _ _).mp solid).2
    have bracketed := all (.node .arguments arguments) (by simp)
    exact (Tree.allSolid_iff _).mp ((Tree.solid_node _ _).mp bracketed).2 argument member

theorem single_argument_text {inner : List Script.Tree} {argument : Script.Tree}
    (single : inner.filter (fun t => t.kind.isNamed) = [argument]) :
    ∃ front back, (∀ t ∈ front ++ back, t.kind.isNamed = false) ∧
      Tree.textOfAll inner = Tree.textOfAll front ++ (argument.text ++ Tree.textOfAll back) := by
  obtain ⟨front, back, rfl, front_unnamed, -, behind⟩ := List.filter_eq_cons_iff.mp single
  have back_unnamed := List.filter_eq_nil_iff.mp behind
  refine ⟨front, back, ?_, by simp⟩
  intro t member
  rcases List.mem_append.mp member with before | after
  · simpa using front_unnamed t before
  · simpa using back_unnamed t after

theorem same_of_closing {short long rest rest' : Text}
    (same : (short ++ [')']) ++ rest = (long ++ [')']) ++ rest') (once : ')' ∉ short)
    (once' : ')' ∉ long) : short = long := by
  have front := congrArg (List.takeWhile (· ≠ ')')) same
  rwa [List.append_assoc, List.append_assoc, List.singleton_append, List.singleton_append,
    Text.takeWhile_before once, Text.takeWhile_before once'] at front

/-- A call of `require` in the tree without a closing bracket before its last character is wrapped
exactly if its text is `require(`, a key, and `)`, and no match before it reaches over its start.
Where nothing stands between the name and the bracket, and in the brackets stands one argument, the
key is that argument with what carries no meaning around it. What is wrapped from the start of the
call on ends with it, and whatever is wrapped reads `require(`, a key, and `)`. -/
theorem loading_call_wrapped_iff {source : Text} {tree : SyntaxTree source}
    (parsed : Script.parse source = .ok tree) {p : Placed} (member : p ∈ tree.nodes)
    {arguments : List Script.Tree} (loads : p.loadArguments? = some arguments)
    (closes_once : ')' ∉ p.text.dropLast) :
    (∀ key, WrappedWhole source p key ↔
      (key ≠ [] ∧ p.text = ("require(" : Text) ++ key ++ (")" : Text)) ∧
        ClearAt source p.start) ∧
    (∀ callee argument, p.tree.children = [callee, .node .arguments arguments] →
      arguments.filter (fun t => t.kind.isNamed) = [argument] →
        ∃ front back, (∀ t ∈ front ++ back, t.kind.isNamed = false) ∧
          ∀ key, key = Tree.textOfAll front ++ (argument.text ++ Tree.textOfAll back) →
            (WrappedWhole source p key ↔ ClearAt source p.start)) ∧
    (∀ m ∈ wrappedCalls source, m.start = p.start → m.stop = p.stop) ∧
    ∀ m ∈ wrappedCalls source, m.argument ≠ [] ∧
      source.slice m.start m.stop = ("require(" : Text) ++ m.argument ++ (")" : Text) := by
  obtain ⟨callee, between, inner, hchildren, brackets, htext⟩ :=
    loading_call_parts parsed member loads
  have opened : "require".toList ++ ['('] = Piece.opening := rfl
  have whole_iff : ∀ key, WrappedWhole source p key ↔
      (key ≠ [] ∧ p.text = (Piece.call key).text) ∧ ClearAt source p.start := by
    intro key
    rw [wrappedWhole_iff member]
    refine and_congr_left fun _ => and_congr_right fun _ => and_iff_right_of_imp fun text => ?_
    rw [text, Piece.text, List.dropLast_concat] at closes_once
    exact fun inside => closes_once (List.mem_append_right _ inside)
  refine ⟨whole_iff, ?_, ?_, ?_⟩
  · intro callee' argument adjacent single
    obtain rfl : between = [] := by
      rw [hchildren] at adjacent
      cases between with
      | nil => rfl
      | cons t ts => simp at adjacent
    have inner_single : inner.filter (fun t => t.kind.isNamed) = [argument] := by
      rw [brackets] at single
      simpa [Tree.kind, Kind.isNamed] using single
    obtain ⟨front, back, unnamed, inside⟩ := single_argument_text inner_single
    refine ⟨front, back, unnamed, ?_⟩
    rintro key rfl
    have text : p.text = (Piece.call (Tree.textOfAll front ++ (argument.text ++
        Tree.textOfAll back))).text := by
      rw [Piece.text, ← opened, ← inside, htext]
      simp
    have solid : p.tree.Solid := by
      obtain ⟨_, _, htree, -⟩ := loadArguments_eq_some loads
      exact tree.solid_node member (by rw [htree]; simp [Tree.kind])
    have nonempty := (solid_of_mem_arguments solid hchildren
      (List.mem_filter.mp (single ▸ List.mem_singleton_self argument)).1).text_ne_nil
    rw [whole_iff]
    exact and_iff_right ⟨by simp [nonempty], text⟩
  · intro m found here
    obtain ⟨pre, post, whole, hstart⟩ := tree.source_around member
    rw [whole] at found
    obtain ⟨-, no_closing, after, begins⟩ := found_text found (here.trans hstart)
    have closed : p.text = p.text.dropLast ++ [')'] := by
      rw [htext, ← List.cons_append, ← List.append_assoc, ← List.append_assoc,
        List.dropLast_concat]
    have bracket : ')' ∉ Piece.opening := by decide
    -- the match and the node begin together, and both end at the first closing bracket
    rw [closed, Match.text, Piece.text] at begins
    have same := same_of_closing begins closes_once (by simp [bracket, no_closing])
    have size : p.tree.size = m.text.size := by
      rw [Match.text, Piece.text, ← same, ← closed]
      rfl
    simp only [Match.stop, Placed.stop, here, size]
  · intro m found
    have finds := (calls_leftmost (ofFilters FilterSet.empty) source).is_match m found
    obtain ⟨_, _, _, _, argument⟩ := id finds
    exact ⟨(argumentAt_iff.mp argument).1, finds.slice_text⟩

def loadingCalls (source : Text) : List (Nat × Text) :=
  match Script.parse source with
  | .ok tree =>
    tree.nodes.filterMap fun p => if p.loadArguments?.isSome then some (p.start, p.text) else none
  | .error _ => []

/-- Blanks inside the brackets are part of the key. -/
theorem padded_argument_wrapped : ∃ tree, Script.parse "f(require( 'a' ));".toList = .ok tree ∧
    ∃ p ∈ tree.nodes, ∃ arguments, p.loadArguments? = some arguments ∧
      WrappedWhole "f(require( 'a' ));".toList p " 'a' ".toList := by
  have calls : loadingCalls "f(require( 'a' ));".toList = [(2, "require( 'a' )".toList)] := by
    decide +kernel
  unfold loadingCalls at calls
  split at calls
  · rename_i tree parsed
    obtain ⟨_, p, _, split, -, hp, -⟩ := List.filterMap_eq_cons_iff.mp calls
    have member : p ∈ tree.nodes := by rw [split]; simp
    split at hp
    · rename_i loads
      obtain ⟨arguments, loads⟩ := Option.isSome_iff_exists.mp loads
      obtain ⟨start, text⟩ := Prod.mk.inj (Option.some.inj hp)
      refine ⟨tree, parsed, p, member, arguments, loads, ?_⟩
      have closes_once : ')' ∉ p.text.dropLast := by
        rw [text]
        decide +kernel
      obtain ⟨whole, -⟩ := loading_call_wrapped_iff parsed member loads closes_once
      refine (whole _).mpr ⟨⟨?_, ?_⟩, ?_⟩
      · decide +kernel
      · rw [text]
        decide +kernel
      · rw [ClearAt, start]
        decide +kernel
    · cases hp
  · cases calls

/-- A blank before the bracket hides a call, and a member of another object is taken for one. -/
theorem pattern_misses_tree :
    (loadingCalls "require ('a');".toList = [(0, "require ('a')".toList)] ∧
        wrappedCalls "require ('a');".toList = []) ∧
      loadingCalls "module.require('a');".toList = [] ∧
        wrappedCalls "module.require('a');".toList = [⟨7, "'a'".toList⟩] := by
  decide +kernel

end RequireInjection
