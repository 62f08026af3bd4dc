import Mathlib.Algebra.Order.BigOperators.Group.List
import RequireInjection.Injection
import RequireInjection.Proofs.CallPattern.Pieces
import RequireInjection.Proofs.ContextCall.Outermost
import RequireInjection.Proofs.Text.Occurrence

/-!
The mark by which a source is taken to use context loaders. A generated module holds the mark if its
source does or if a wrapped call stands directly behind `require.context`, and a tree that spells a
loader out stands for a text with the mark. So a source without the mark may be left as it is unless
one of its loaders is written in another way.
-/
namespace RequireInjection

open Script

def loaderName : Text := "require.context"

theorem contextMark_eq : contextMark = loaderName ++ ['('] := by decide

def CallBehindLoaderName (p : CallPattern) (source : Text) : Prop :=
  ∃ before argument after, p.pieces source = before ++ .call argument :: after ∧
    loaderName <:+ before.flatMap Piece.text

theorem regrouped_call {opened between call table fallback : Text}
    (first : opened = '(' :: (table ++ ['['])) (second : between ++ call = ']' :: (fallback ++ ['(']))
    (argument rest : Text) :
    opened ++ argument ++ between ++ (call ++ argument ++ [')']) ++ [')'] ++ rest =
      '(' :: (table ++ '[' :: (argument ++ ']' ::
        ((fallback ++ '(' :: argument) ++ ')' :: ')' :: rest))) := by
  have middle : between ++ (call ++ (argument ++ ')' :: ')' :: rest)) =
      ']' :: (fallback ++ '(' :: (argument ++ ')' :: ')' :: rest)) := by
    rw [← List.append_assoc, second]
    simp
  simp [first, middle]

theorem wrapped_call_eq (argument rest : Text) :
    lookup argument (Piece.call argument).text ++ rest =
      '(' :: ("injections".toList ++ '[' :: (argument ++ ']' ::
        ((" || require".toList ++ '(' :: argument) ++ ')' :: ')' :: rest))) :=
  regrouped_call (by decide) (by decide) argument rest

theorem mark_around_call {front argument rest : Text}
    (h : contextMark <:+: front ++ (lookup argument (Piece.call argument).text ++ rest)) :
    loaderName <:+ front ∨ contextMark <:+: front ∨ contextMark <:+: argument ∨
      contextMark <:+: rest := by
  have no_bracket : '(' ∉ loaderName := by decide
  have others : '[' ∉ contextMark ∧ ']' ∉ contextMark ∧ ')' ∉ contextMark := by decide
  have absent : ¬ contextMark <:+: "injections".toList ∧
      ¬ contextMark <:+: " || require".toList ∧ ¬ contextMark <:+: [] ∧
        ¬ loaderName <:+ " || require".toList := by decide
  rw [wrapped_call_eq, contextMark_eq] at h
  -- no text that wrapping adds holds the mark, so every bracket it adds parts the text
  rcases Text.infix_of_append_last no_bracket h with pasted | before | inside
  · exact Or.inl pasted
  · exact Or.inr (Or.inl (contextMark_eq ▸ before))
  rw [← contextMark_eq] at inside
  rcases Text.infix_of_append_cons others.1 inside with name | inside
  · exact absurd name absent.1
  rcases Text.infix_of_append_cons others.2.1 inside with key | inside
  · exact Or.inr (Or.inr (Or.inl key))
  rcases Text.infix_of_append_cons others.2.2 inside with fallback | inside
  · rw [contextMark_eq] at fallback
    rcases Text.infix_of_append_last no_bracket fallback with pasted | before | key
    · exact absurd pasted absent.2.2.2
    · exact absurd (contextMark_eq ▸ before) absent.2.1
    · exact Or.inr (Or.inr (Or.inl (contextMark_eq ▸ key)))
  · rcases Text.infix_of_append_cons (s := []) others.2.2 inside with nothing | behind
    · exact absurd nothing absent.2.2.1
    · exact Or.inr (Or.inr (Or.inr behind))

theorem mark_of_wrapped_pieces {front : Text} {ps : List Piece}
    (h : contextMark <:+: front ++ ps.flatMap Piece.wrapped) :
    contextMark <:+: front ++ ps.flatMap Piece.text ∨
      ∃ before argument after, ps = before ++ .call argument :: after ∧
        loaderName <:+ front ++ before.flatMap Piece.text := by
  induction ps generalizing front with
  | nil => exact Or.inl h
  | cons piece ps ih =>
    cases piece with
    | plain c =>
      have step : front ++ (Piece.plain c :: ps).flatMap Piece.wrapped =
          (front ++ [c]) ++ ps.flatMap Piece.wrapped := by
        simp [Piece.wrapped]
      rw [step] at h
      rcases ih h with held | ⟨before, argument, after, split, pasted⟩
      · exact Or.inl (by simpa [Piece.text] using held)
      · exact Or.inr ⟨.plain c :: before, argument, after, by rw [split, List.cons_append],
          by simpa [Piece.text] using pasted⟩
    | call argument =>
      rw [List.flatMap_cons, Piece.wrapped] at h
      rw [List.flatMap_cons]
      -- The mark ends with the bracket of the look-up, or one of the three parts holds it whole.
      rcases mark_around_call h with pasted | before | key | rest
      · exact Or.inr ⟨[], argument, ps, rfl, by simpa using pasted⟩
      · exact Or.inl (before.trans (List.infix_append' [] _ _))
      · have inside : contextMark <:+: (Piece.call argument).text :=
          key.trans ⟨Piece.opening, [')'], rfl⟩
        exact Or.inl (inside.trans (List.infix_append' _ _ _))
      · rcases @ih [] (by simpa using rest) with held | ⟨before, a, after, split, pasted⟩
        · rw [← List.append_assoc]
          exact Or.inl ((by simpa using held : contextMark <:+: ps.flatMap Piece.text).trans
            (List.suffix_append _ _).isInfix)
        · refine Or.inr ⟨.call argument :: before, a, after, by rw [split, List.cons_append], ?_⟩
          rw [List.flatMap_cons, ← List.append_assoc]
          exact (by simpa using pasted : loaderName <:+ before.flatMap Piece.text).trans
            (List.suffix_append _ _)

set_option maxRecDepth 2000 in
theorem mark_of_module {wrapped : Text} (h : contextMark <:+: injectableModule wrapped) :
    contextMark <:+: wrapped := by
  have no_break : '\n' ∉ contextMark := by decide
  have parts : injectableModule wrapped =
      Text.join ['\n'] header ++ '\n' :: (wrapped ++ '\n' :: Text.join ['\n'] footer) := by
    simp [injectableModule, Text.join, header, footer]
  rw [parts] at h
  rcases Text.infix_of_append_cons no_break h with before | behind
  · exact absurd before (by rw [← Text.includes_iff]; decide)
  · rcases Text.infix_of_append_cons no_break behind with inside | after
    · exact inside
    · exact absurd after (by decide)

/-- The mark of a generated module comes from its source or stands where wrapping has put its
bracket. -/
theorem mark_of_generated {p : CallPattern} {source : Text}
    (h : contextMark <:+: injectableModule (wrap p source)) :
    contextMark <:+: source ∨ CallBehindLoaderName p source := by
  have wrapped : contextMark <:+: [] ++ (p.pieces source).flatMap Piece.wrapped := mark_of_module h
  rcases mark_of_wrapped_pieces wrapped with held | pasted
  · exact Or.inl (by simpa [CallPattern.pieces_text] using held)
  · exact Or.inr pasted

variable {source : Text}

/-- Every loader that the tree declares is written with the mark. -/
def LoadersSpelledOut (tree : SyntaxTree source) : Prop :=
  ∀ p ∈ tree.nodes, ∀ value, (ContextLoader.ofNode? p).isSome → declaredValue? p.tree = some value →
    contextMark <+: value.text

theorem text_infix_of_mem {t : Tree} {ts : List Tree} (member : t ∈ ts) :
    t.text <:+: Tree.textOfAll ts := by
  obtain ⟨before, after, rfl⟩ := List.append_of_mem member
  refine ⟨Tree.textOfAll before, Tree.textOfAll after, ?_⟩
  simp

theorem declaredValue_mem {t value : Tree} (h : declaredValue? t = some value) :
    value ∈ t.children := by
  unfold declaredValue? at h
  split at h
  · exact List.mem_reverse.mp (List.mem_of_find?_eq_some h)
  · cases h

theorem declaredValue_of_loader {p : Placed} {b : ContextLoader}
    (h : ContextLoader.ofNode? p = some b) : ∃ value, declaredValue? p.tree = some value := by
  simp only [ContextLoader.ofNode?, bind, Option.bind_eq_some_iff] at h
  obtain ⟨_, _, _, _, _, _, value, declared, _⟩ := h
  exact ⟨value, declared⟩

theorem mark_of_spelled_loader {tree : SyntaxTree source} (spelled : LoadersSpelledOut tree)
    {p : Placed} (member : p ∈ tree.nodes) {b : ContextLoader}
    (loader : ContextLoader.ofNode? p = some b) : contextMark <:+: source := by
  obtain ⟨value, declared⟩ := declaredValue_of_loader loader
  have begins := spelled p member value (by rw [loader]; rfl) declared
  have inside : value.text <:+: p.text := by
    have child := text_infix_of_mem (declaredValue_mem declared)
    cases hp : p.tree with
    | leaf kind text =>
      have none_here := declaredValue_mem declared
      simp [hp, Tree.children] at none_here
    | node kind cs => simpa [Placed.text, hp, Tree.children] using child
  obtain ⟨before, after, whole, -⟩ := tree.source_around member
  have placed : p.text <:+: source := ⟨before, after, by rw [whole, List.append_assoc]⟩
  exact begins.isInfix.trans (inside.trans placed)

theorem namedCalls_eq_nil {tree : SyntaxTree source}
    (h : ∀ p ∈ tree.nodes, ContextLoader.ofNode? p = none) : namedCalls tree = [] := by
  have loaders : tree.nodes.filterMap ContextLoader.ofNode? = [] :=
    List.filterMap_eq_nil_iff.mpr h
  rw [namedCalls, loaders, List.filterMap_eq_nil_iff]
  intro p member
  cases hcallee : p.tree.callee? <;> simp [namedCall?, hcallee]

theorem outermostCalls_eq_nil {tree : SyntaxTree source} :
    outermostCalls tree = [] ↔ namedCalls tree = [] := by
  constructor
  · intro h
    cases calls : namedCalls tree with
    | nil => rfl
    | cons c cs =>
      have ordered := (calls ▸ (namedCalls_laminar tree).2 : (c :: cs).Pairwise _)
      have first := (List.pairwise_cons.mp ordered).1
      have kept : c ∈ outermostCalls tree := by
        rw [outermostCalls, calls, List.mem_filter]
        refine ⟨List.mem_cons_self, decide_eq_true fun d member encloses => ?_⟩
        rcases List.mem_cons.mp member with here | later
        · exact here
        · have := (first d later).1
          have := encloses.1
          omega
      rw [h] at kept
      cases kept
  · intro h
    rw [outermostCalls, h]
    rfl

theorem size_lookup (key fallback : Text) :
    (lookup key fallback).size = key.size + fallback.size + 18 := by
  have opened : Text.size "(injections[".toList = 12 := by decide
  have between : Text.size "] || ".toList = 5 := by decide
  have closed : Text.size [')'] = 1 := by decide
  unfold lookup
  rw [Text.size_append, Text.size_append, Text.size_append, Text.size_append, opened, between,
    closed]
  omega

theorem growth_pos {tree : SyntaxTree source} {c : ContextCall} (member : c ∈ outermostCalls tree) :
    0 < c.edit.growth := by
  obtain ⟨p, -, named⟩ := List.mem_filterMap.mp (List.mem_filter.mp member).1
  have call_text : c.call = p.text ∧ c.start = p.start ∧ c.stop = p.stop := by
    simp only [namedCall?, bind, Option.bind_eq_some_iff] at named
    obtain ⟨_, _, _, _, _, _, _, _, result⟩ := named
    cases result
    exact ⟨rfl, rfl, rfl⟩
  obtain ⟨hcall, hstart, hstop⟩ := call_text
  simp only [Edit.growth, ContextCall.edit, ContextCall.replacement, size_lookup, hcall, hstart,
    hstop, Placed.stop, Placed.text, Tree.size]
  omega

/-- Resolving changes a script exactly if it has a call of a declared loader. -/
theorem resolve_eq_self_iff {tree : SyntaxTree source} (parsed : parseScript source = .ok tree) :
    resolveContextCalls source = .ok source ↔ namedCalls tree = [] := by
  rw [resolve_of_parsed parsed, ← outermostCalls_eq_nil]
  have grown := EditCursor.size_splice_of_fit (outermostCalls_fit tree)
  constructor
  · intro h
    have same : source.splice 0 ((outermostCalls tree).map ContextCall.edit) = source := by
      simpa using h
    cases calls : outermostCalls tree with
    | nil => rfl
    | cons c cs =>
      have first : 0 < c.edit.growth := growth_pos (calls ▸ List.mem_cons_self)
      have others : 0 ≤ ((cs.map ContextCall.edit).map Edit.growth).sum := by
        refine List.sum_nonneg fun g member => ?_
        obtain ⟨e, he, rfl⟩ := List.mem_map.mp member
        obtain ⟨d, hd, rfl⟩ := List.mem_map.mp he
        exact Int.le_of_lt (growth_pos (calls ▸ List.mem_cons_of_mem c hd))
      rw [same, calls] at grown
      simp only [List.map_cons, List.sum_cons] at grown others
      omega
  · intro h
    rw [h]
    have whole := Text.splice_nil [] source
    simpa using whole

/-- Where the generated module can be resolved, the result is what the program returns exactly if
the source holds the mark or the module has no call of a declared loader. So it is where every
loader of the module is spelled out and no wrapped call stands directly behind `require.context`. -/
theorem transform_eq_resolved_iff (filters : FilterSet) (source output : Text)
    (resolved : resolveContextCalls
      (injectableModule (wrap (CallPattern.ofFilters filters) source)) = .ok output) :
    ∃ tree, parseScript (injectableModule (wrap (CallPattern.ofFilters filters) source)) =
        .ok tree ∧
      (transform filters source = .ok output ↔
        source.includes contextMark ∨ namedCalls tree = []) ∧
      (LoadersSpelledOut tree → ¬ CallBehindLoaderName (CallPattern.ofFilters filters) source →
        transform filters source = .ok output) := by
  cases parsed : parseScript (injectableModule (wrap (CallPattern.ofFilters filters) source)) with
  | error fault =>
    simp [resolveContextCalls, parsed, bind, Except.bind] at resolved
  | ok tree =>
    -- the pass that is skipped changes nothing exactly if there is nothing to resolve
    have exact_when : transform filters source = .ok output ↔
        source.includes contextMark ∨ namedCalls tree = [] := by
      rw [← resolve_eq_self_iff parsed, transform]
      by_cases marked : source.includes contextMark
      · simp [marked, resolved]
      · simp only [marked, Bool.false_eq_true, if_false, false_or, resolved, Except.ok.injEq]
        exact eq_comm
    refine ⟨tree, rfl, exact_when, fun spelled apart => exact_when.mpr ?_⟩
    by_cases marked : source.includes contextMark
    · exact Or.inl marked
    · refine Or.inr (namedCalls_eq_nil fun p member => ?_)
      cases loader : ContextLoader.ofNode? p with
      | none => rfl
      | some b =>
        rcases mark_of_generated (mark_of_spelled_loader spelled member loader) with held | pasted
        · exact absurd (Text.includes_iff.mpr held) marked
        · exact absurd pasted apart

theorem marked_source_resolved :
    let source : Text := "var req = require.context('./m/'); req('a');"
    ∃ output, transform FilterSet.empty source = .ok output ∧ resolveContextCalls
      (injectableModule (wrap (CallPattern.ofFilters FilterSet.empty) source)) = .ok output := by
  intro source
  have succeeds : (resolveContextCalls
      (injectableModule (wrap (CallPattern.ofFilters FilterSet.empty) source))).isOk = true := by
    decide +kernel
  cases resolved : resolveContextCalls
      (injectableModule (wrap (CallPattern.ofFilters FilterSet.empty) source)) with
  | error fault => simp [resolved, Except.isOk, Except.toBool] at succeeds
  | ok output =>
    obtain ⟨tree, -, exact_when, -⟩ :=
      transform_eq_resolved_iff FilterSet.empty source output resolved
    exact ⟨output, exact_when.mpr (Or.inl (by decide +kernel)), rfl⟩

/-- A blank before the bracket hides a loader, and a call behind `require.context` makes one. -/
theorem hidden_loaders_left :
    let generated (source : Text) :=
      injectableModule (wrap (CallPattern.ofFilters FilterSet.empty) source)
    let spaced : Text := "var req = require.context ('./m/'); req('a');"
    let assembled : Text := "var req = require.contextrequire('./m/'); req('a');"
    ((resolveContextCalls (generated spaced)).isOk = true ∧
        transform FilterSet.empty spaced ≠ resolveContextCalls (generated spaced)) ∧
      (resolveContextCalls (generated assembled)).isOk = true ∧
        transform FilterSet.empty assembled ≠ resolveContextCalls (generated assembled) := by
  decide +kernel

end RequireInjection
