import RequireInjection.Injection
import RequireInjection.Proofs.CallPattern.Pieces
import RequireInjection.Proofs.Script.TallyRun

/-!
What wrapping does to round brackets. A call ends at the first closing bracket, so a wrapped
argument may hold opening brackets that it does not close, and each of them stands in the generated
module once more than its closing bracket does.
-/
namespace RequireInjection

def bracketWeight (c : Char) : Int := if c = '(' then 1 else if c = ')' then -1 else 0

/-- Opening round brackets less closing ones. -/
def Text.depth : Text → Int
  | [] => 0
  | c :: cs => bracketWeight c + depth cs

@[simp] theorem Text.depth_nil : Text.depth [] = 0 := rfl

@[simp] theorem Text.depth_cons (c : Char) (t : Text) :
    Text.depth (c :: t) = bracketWeight c + Text.depth t := rfl

@[simp] theorem Text.depth_append (s t : Text) :
    Text.depth (s ++ t) = Text.depth s + Text.depth t := by
  induction s with
  | nil => simp
  | cons c cs ih => simp only [List.cons_append, depth_cons, ih]; omega

theorem Text.depth_eq_count {t : Text} (h : ')' ∉ t) : t.depth = t.count '(' := by
  induction t with
  | nil => rfl
  | cons c cs ih =>
    have tail := ih fun closing => h (List.mem_cons_of_mem c closing)
    have not_closing : c ≠ ')' := fun closing => h (by simp [closing])
    by_cases opening : c = '('
    · simp [bracketWeight, opening, tail]
      omega
    · simp [bracketWeight, opening, not_closing, tail]

theorem depth_lookup (key fallback : Text) :
    (lookup key fallback).depth = key.depth + fallback.depth := by
  have opened : Text.depth "(injections[".toList = 1 := by decide
  have between : Text.depth "] || ".toList = 0 := by decide
  have closed : Text.depth [')'] = -1 := by decide
  unfold lookup
  rw [Text.depth_append, Text.depth_append, Text.depth_append, Text.depth_append, opened, between,
    closed]
  omega

theorem depth_wrapped (offset : Nat) (ps : List Piece) :
    Text.depth (ps.flatMap Piece.wrapped) = Text.depth (ps.flatMap Piece.text) +
      ((CallPattern.matchesFrom offset ps).map fun m => m.argument.depth).sum := by
  induction ps generalizing offset with
  | nil => rfl
  | cons piece ps ih =>
    cases piece with
    | plain c =>
      simp only [List.flatMap_cons, Text.depth_append, CallPattern.matchesFrom, Piece.wrapped,
        Piece.text]
      rw [ih (offset + c.utf8Size)]
      omega
    | call a =>
      simp only [List.flatMap_cons, Text.depth_append, CallPattern.matchesFrom, Piece.wrapped,
        depth_lookup, List.map_cons, List.sum_cons]
      rw [ih (offset + (Piece.call a).text.size)]
      omega

theorem depth_wrap (p : CallPattern) (source : Text) :
    (wrap p source).depth =
      source.depth + ((p.calls source).map fun m => m.argument.depth).sum := by
  rw [wrap, depth_wrapped 0, CallPattern.pieces_text, CallPattern.calls]

set_option maxRecDepth 2000 in
theorem depth_injectableModule (wrapped : Text) :
    (injectableModule wrapped).depth = wrapped.depth := by
  have before : Text.depth (Text.join ['\n'] header ++ ['\n']) = 0 := by decide
  have behind : Text.depth ('\n' :: Text.join ['\n'] footer) = 0 := by decide
  have parts : injectableModule wrapped =
      (Text.join ['\n'] header ++ ['\n']) ++ (wrapped ++ '\n' :: Text.join ['\n'] footer) := by
    simp [injectableModule, Text.join, header, footer]
  rw [parts, Text.depth_append (_ ++ _), Text.depth_append wrapped, before, behind]
  omega

theorem sum_depth_eq_count {ms : List CallPattern.Match} (h : ∀ m ∈ ms, ')' ∉ m.argument) :
    (ms.map fun m => m.argument.depth).sum = (ms.map fun m => m.argument.count '(').sum := by
  induction ms with
  | nil => rfl
  | cons m ms ih =>
    rw [List.map_cons, List.map_cons, List.sum_cons, List.sum_cons, Int.natCast_add,
      Text.depth_eq_count (h m (by simp)), ih fun m' hm => h m' (by simp [hm])]

theorem module_depth_eq_iff (excluded : List Text) (source : Text) :
    (injectableModule (wrap (.anyArgument excluded) source)).depth = source.depth ↔
      ∀ m ∈ CallPattern.calls (.anyArgument excluded) source, '(' ∉ m.argument := by
  have deeper : (injectableModule (wrap (.anyArgument excluded) source)).depth =
      source.depth + ((CallPattern.calls (.anyArgument excluded) source).map
        fun m => m.argument.count '(').sum := by
    rw [depth_injectableModule, depth_wrap,
      sum_depth_eq_count fun m hm => CallPattern.closing_notMem_argument hm]
  have counts : ((CallPattern.calls (.anyArgument excluded) source).map
      fun m => m.argument.count '(').sum = 0 ↔
        ∀ m ∈ CallPattern.calls (.anyArgument excluded) source, '(' ∉ m.argument := by
    simp [List.sum_eq_zero_iff_forall_eq_nat, List.count_eq_zero]
  rw [deeper, ← counts]
  omega

namespace Script

theorem weight_of_due {t : Tally} {c : Char} {st st' : List Char} (before : t.due = some st)
    (behind : (t.after c).due = some st') :
    bracketWeight c + st.count ')' = st'.count ')' := by
  by_cases opening : c = '('
  · subst opening
    obtain rfl : ')' :: st = st' := by simpa [Tally.after, Tally.opened, before] using behind
    simp [bracketWeight]
    omega
  by_cases square : c = '['
  · subst square
    obtain rfl : ']' :: st = st' := by simpa [Tally.after, Tally.opened, before] using behind
    simp [bracketWeight]
  by_cases brace : c = '\x7b'
  · subst brace
    obtain rfl : '\x7d' :: st = st' := by simpa [Tally.after, Tally.opened, before] using behind
    simp [bracketWeight]
  -- A bracket that closes is the one that is due, so what it takes off weighs as much as it.
  by_cases closing : c = ')' ∨ c = ']' ∨ c = '\x7d'
  · have closed : (t.closed c).due = some st' := by
      simpa [Tally.after, opening, square, brace, closing] using behind
    obtain ⟨first, rfl⟩ : st.head? = some c ∧ st.tail = st' := by
      simpa [Tally.closed, before] using closed
    obtain ⟨rest, rfl⟩ := List.head?_eq_some_iff.mp first
    rcases closing with rfl | rfl | rfl <;> simp [bracketWeight]
  · obtain rfl : st = st' := by
      have same : (t.after c).due = t.due := by
        simp only [Tally.after, opening, square, brace, closing, if_false]
        split <;> simp
      rw [same, before] at behind
      exact Option.some.inj behind
    simp only [not_or] at closing
    simp [bracketWeight, opening, closing]

theorem depth_of_due {t : Tally} {text : Text} {st st' : List Char} (before : t.due = some st)
    (behind : (t.afterAll text).due = some st') :
    text.depth + st.count ')' = st'.count ')' := by
  induction text generalizing t st with
  | nil =>
    rw [Tally.afterAll_nil, before, Option.some.injEq] at behind
    simp [behind]
  | cons c cs ih =>
    rw [Tally.afterAll_cons] at behind
    cases here : (t.after c).due with
    | none =>
      rw [Tally.afterAll_of_none here, here] at behind
      cases behind
    | some st₁ =>
      have one := weight_of_due before here
      have rest := ih here behind
      rw [Text.depth_cons]
      omega

namespace Tree

mutual
theorem depth_text : ∀ x : Tree, x.text.depth = x.marks.depth + x.quiet.depth
  | leaf k t => by by_cases mark : k.isMark <;> simp [quiet, mark]
  | node k cs => by
    rw [text_node, marks_node, quiet]
    exact depth_textOfAll cs
theorem depth_textOfAll : ∀ ts : List Tree,
    (textOfAll ts).depth = (marksOfAll ts).depth + (quietOfAll ts).depth
  | [] => by simp [quietOfAll]
  | x :: xs => by
    simp only [textOfAll_cons, marksOfAll_cons, quietOfAll, Text.depth_append, depth_text x,
      depth_textOfAll xs]
    omega
end

end Tree

theorem parse_depth {source : Text} {tree : SyntaxTree source} (parsed : parse source = .ok tree) :
    source.depth = tree.quiet.depth := by
  have closed := depth_of_due rfl (parse_marks_atTop parsed)
  have whole := Tree.depth_textOfAll tree.items
  rw [tree.text_eq] at whole
  simp at closed
  rw [whole, closed, SyntaxTree.quiet]
  simp

end Script

open Script

theorem depth_eq_zero {t : Text} (opening : '(' ∉ t) (closing : ')' ∉ t) : t.depth = 0 := by
  rw [Text.depth_eq_count closing, List.count_eq_zero_of_not_mem opening]
  rfl

/-- If a source and its module are both scripts, the round brackets that the arguments leave open
have been added outside of the tokens, in strings and comments. Where these hold no round brackets,
no argument that is wrapped holds an opening one. -/
theorem parsed_module_closed (p : CallPattern) {source : Text} {tree : SyntaxTree source}
    (parsed : parse source = .ok tree) {generated : SyntaxTree (injectableModule (wrap p source))}
    (read : parse (injectableModule (wrap p source)) = .ok generated) :
    generated.quiet.depth = tree.quiet.depth + ((p.calls source).map fun m => m.argument.depth).sum ∧
      ∀ excluded, p = .anyArgument excluded →
        (∀ quiet ∈ [tree.quiet, generated.quiet], '(' ∉ quiet ∧ ')' ∉ quiet) →
          ∀ m ∈ p.calls source, '(' ∉ m.argument := by
  have deeper : generated.quiet.depth =
      tree.quiet.depth + ((p.calls source).map fun m => m.argument.depth).sum := by
    rw [← parse_depth read, ← parse_depth parsed, depth_injectableModule, depth_wrap]
  refine ⟨deeper, ?_⟩
  rintro excluded rfl plain
  refine (module_depth_eq_iff excluded source).mp ?_
  obtain ⟨before, behind⟩ : (_ ∧ _) ∧ (_ ∧ _) := by simpa using plain
  rw [parse_depth read, parse_depth parsed, depth_eq_zero before.1 before.2,
    depth_eq_zero behind.1 behind.2]

/-- A module that is a script, and the argument that is looked up in it. -/
theorem closed_argument_parsed :
    let source : Text := "var x = require('a');"
    let p := CallPattern.ofFilters FilterSet.empty
    ∃ tree generated, parse source = .ok tree ∧
      parse (injectableModule (wrap p source)) = .ok generated ∧
      (p.calls source).map (fun m => m.argument) = ["'a'".toList] ∧
      generated.quiet.depth =
        tree.quiet.depth + ((p.calls source).map fun m => m.argument.depth).sum ∧
      ∀ m ∈ p.calls source, '(' ∉ m.argument := by
  intro source p
  have original : (parse source).toOption.map (fun tree =>
      tree.quiet.all fun c => c ≠ '(' && c ≠ ')') = some true := by
    decide +kernel
  have result : (parse (injectableModule (wrap p source))).toOption.map (fun tree =>
      tree.quiet.all fun c => c ≠ '(' && c ≠ ')') = some true := by
    decide +kernel
  have arguments : (p.calls source).map (fun m => m.argument) = ["'a'".toList] := by
    decide +kernel
  have unbracketed : ∀ t : Text, (t.all fun c => c ≠ '(' && c ≠ ')') = true →
      '(' ∉ t ∧ ')' ∉ t := by
    intro t all
    simp only [ne_eq, decide_not, List.all_eq_true, Bool.and_eq_true, Bool.not_eq_true',
      decide_eq_false_iff_not] at all
    exact ⟨fun member => (all _ member).1 rfl, fun member => (all _ member).2 rfl⟩
  cases parsed : parse source with
  | error fault => simp [parsed, Except.toOption] at original
  | ok tree =>
    cases read : parse (injectableModule (wrap p source)) with
    | error fault => simp [read, Except.toOption] at result
    | ok generated =>
      simp only [parsed, Except.toOption, Option.map_some, Option.some.injEq] at original
      simp only [read, Except.toOption, Option.map_some, Option.some.injEq] at result
      obtain ⟨depth, closed⟩ := parsed_module_closed p parsed read
      refine ⟨tree, generated, rfl, rfl, arguments, depth, closed [] rfl ?_⟩
      simp only [List.forall_mem_cons, List.not_mem_nil, false_imp_iff, implies_true, and_true]
      exact ⟨unbracketed _ original, unbracketed _ result⟩

/-- A script whose module is none, since the bracket of the call in the argument stays open. -/
theorem nested_call_breaks_module :
    (Script.parse "var x = require(f('a'));".toList).isOk = true ∧
      (Script.parse (injectableModule (wrap (CallPattern.ofFilters FilterSet.empty)
        "var x = require(f('a'));".toList))).isOk = false := by
  constructor
  · decide +kernel
  · decide +kernel

end RequireInjection
