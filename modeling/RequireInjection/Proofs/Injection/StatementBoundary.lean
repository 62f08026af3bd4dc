import RequireInjection.Proofs.Injection.Brackets
import RequireInjection.Proofs.Script.SemicolonInsertion

/-!
Statements before a call that is replaced. A call begins with a name, so a line break before it ends
the statement on the line before. A look-up begins with a bracket, so it goes on with that statement
on whatever line it stands: in a rewritten script it begins a statement only behind one that closes,
and so never behind a line that ends with anything but a semicolon or a closing bracket.
-/
namespace RequireInjection

namespace Script

/-- A statement may end without a semicolon before this text. -/
def MayEndBefore (rest : Text) : Prop := ∃ afterOperand, endsHere afterOperand rest

def lastSign? (t : Text) : Option Char := (t.reverse.dropWhile isAsciiBlank).head?

theorem lastSign?_concat (t : Text) (c : Char) :
    lastSign? (t ++ [c]) = if isAsciiBlank c then lastSign? t else some c := by
  simp only [lastSign?, List.reverse_append, List.reverse_singleton, List.singleton_append,
    List.dropWhile_cons]
  split <;> rfl

theorem lastSign?_blanks (t : Text) {blanks : Text} (ascii : ∀ c ∈ blanks, isAsciiBlank c) :
    lastSign? (t ++ blanks) = lastSign? t := by
  have reversed : ∀ c ∈ blanks.reverse, isAsciiBlank c :=
    fun c member => ascii c (List.mem_reverse.mp member)
  rw [lastSign?, List.reverse_append, List.dropWhile_append_of_pos reversed, lastSign?]

theorem not_blank_of_closingSign {c : Char} (closing : isClosingSign c) :
    isAsciiBlank c = false := by
  simp only [isClosingSign, Bool.or_eq_true, beq_iff_eq] at closing
  rcases closing with (rfl | rfl) | rfl <;> decide

variable {source : Text}

/-- A statement of a script with nothing but blanks behind it up to the end of a front of it. -/
def SyntaxTree.EndsBefore (tree : SyntaxTree source) (x : Tree) (front : Text) : Prop :=
  ∃ older behind blanks, tree.items = older ++ x :: behind ∧ x.isStatement ∧
    (∀ c ∈ blanks, isAsciiBlank c) ∧ front = Tree.textOfAll (older ++ [x]) ++ blanks

theorem SyntaxTree.EndsBefore.lastSign {tree : SyntaxTree source} {x : Tree} {front : Text}
    (ends : tree.EndsBefore x front) (shut : x.shuts) : (lastSign? front).any isClosingSign := by
  obtain ⟨older, behind, blanks, -, -, ascii, rfl⟩ := ends
  cases own : x.text.getLast? with
  | none => simp [Tree.shuts, own] at shut
  | some c =>
    have closing : isClosingSign c := by simpa [Tree.shuts, own] using shut
    obtain ⟨t, text⟩ := List.getLast?_eq_some_iff.mp own
    have signs : Tree.textOfAll (older ++ [x]) = Tree.textOfAll older ++ t ++ [c] := by
      simp [text]
    rw [lastSign?_blanks _ ascii, signs, lastSign?_concat, not_blank_of_closingSign closing]
    simpa using closing

theorem SyntaxTree.EndsBefore.closes {tree : SyntaxTree source} {x : Tree} {front rest : Text}
    (ends : tree.EndsBefore x front) (parsed : parse source = .ok tree)
    (whole : source = front ++ rest)
    (onward : ∀ blanks, (∀ c ∈ blanks, isAsciiBlank c) → ¬ MayEndBefore (blanks ++ rest)) :
    x.closes ∧ (lastSign? front).any isClosingSign := by
  have last := ends.lastSign
  obtain ⟨older, behind, blanks, items, statement, ascii, rfl⟩ := ends
  simp only [Tree.isStatement, Bool.and_eq_true, Bool.not_eq_true', decide_eq_true_eq] at statement
  have halves : Tree.textOfAll (older ++ [x]) ++ Tree.textOfAll behind =
      Tree.textOfAll (older ++ [x]) ++ (blanks ++ rest) := by
    rw [← Tree.textOfAll_append, ← List.append_assoc, ← whole, ← tree.text_eq, items]
    simp
  have behind_eq := List.append_cancel_left halves
  -- what stands behind the statement are the blanks and the rest
  rcases closes_or_endsHere parsed items statement.1 statement.2 with closes | may
  · exact ⟨closes.1, last closes.2⟩
  · rw [behind_eq] at may
    exact absurd may (onward blanks ascii)

end Script

open Script

theorem opens_of_first {opened tail : Text} {c : Char} (first : opened = c :: tail)
    (key between fallback closing : Text) : opened ++ key ++ between ++ fallback ++ closing =
      c :: (tail ++ key ++ between ++ fallback ++ closing) := by
  rw [first]
  rfl

theorem lookup_opens (key fallback : Text) : ∃ rest, lookup key fallback = '(' :: rest := by
  have opened : "(injections[".toList = '(' :: "injections[".toList := by decide
  exact ⟨_, opens_of_first opened key _ fallback _⟩

theorem lookup_ends (key fallback : Text) : ∃ inner, lookup key fallback = inner ++ [')'] :=
  ⟨_, rfl⟩

theorem lastSign?_wrapped (ps : List Piece) :
    lastSign? (ps.flatMap Piece.wrapped) = lastSign? (ps.flatMap Piece.text) := by
  induction ps using List.reverseRecOn with
  | nil => rfl
  | append_singleton ps piece ih =>
    rw [List.flatMap_append, List.flatMap_append, List.flatMap_singleton, List.flatMap_singleton]
    cases piece with
    | plain c => rw [Piece.wrapped, Piece.text, lastSign?_concat, lastSign?_concat, ih]
    | call argument =>
      obtain ⟨inner, ended⟩ := lookup_ends argument (Piece.call argument).text
      rw [Piece.wrapped, ended, Piece.text, ← List.append_assoc, ← List.append_assoc,
        lastSign?_concat, lastSign?_concat]
      rfl

variable {blanks : Text}

/-- A call begins a statement of its own as soon as it stands on a line of its own. -/
theorem mayEndBefore_call (ascii : ∀ c ∈ blanks, isAsciiBlank c) (argument rest : Text) :
    MayEndBefore (blanks ++ ((Piece.call argument).text ++ rest)) ↔ '\n' ∈ blanks := by
  have opened : Piece.opening = 'r' :: "equire(".toList := by decide
  have begins : BeginsToken 'r' := ⟨by decide, by decide, by decide, by decide⟩
  have token : (Piece.call argument).text ++ rest =
      'r' :: ("equire(".toList ++ (argument ++ ')' :: rest)) := by
    simp [Piece.text, opened]
  have first : ∀ t, beginsStatement ('r' :: t) = true := fun t => by simp [beginsStatement]
  simp [MayEndBefore, token, endsHere_blanks begins ascii, first]

theorem not_mayEndBefore_lookup (key fallback rest : Text) (blanks : Text)
    (ascii : ∀ c ∈ blanks, isAsciiBlank c) :
    ¬ MayEndBefore (blanks ++ (lookup key fallback ++ rest)) := by
  obtain ⟨inner, opened⟩ := lookup_opens key fallback
  rintro ⟨afterOperand, may⟩
  rw [opened, List.cons_append, endsHere_bracket ascii] at may
  cases may

theorem closes_before_wrapped {p : CallPattern} {source argument : Text} {before after : List Piece}
    (split : p.pieces source = before ++ .call argument :: after)
    {tree : SyntaxTree (wrap p source)} (parsed : parse (wrap p source) = .ok tree) {x : Tree}
    (ends : tree.EndsBefore x (before.flatMap Piece.wrapped)) :
    x.closes ∧ (lastSign? (before.flatMap Piece.text)).any isClosingSign := by
  have whole : wrap p source = before.flatMap Piece.wrapped ++
      (lookup argument (Piece.call argument).text ++ after.flatMap Piece.wrapped) := by
    rw [wrap, split, List.flatMap_append, List.flatMap_cons, Piece.wrapped]
  rw [← lastSign?_wrapped]
  exact ends.closes parsed whole (not_mayEndBefore_lookup _ _ _)

theorem closes_before_resolved {c : ContextCall} {front behind : Text}
    {tree : SyntaxTree (front ++ (c.replacement ++ behind))}
    (parsed : parse (front ++ (c.replacement ++ behind)) = .ok tree) {x : Tree}
    (ends : tree.EndsBefore x front) : x.closes ∧ (lastSign? front).any isClosingSign :=
  ends.closes parsed rfl (not_mayEndBefore_lookup _ _ _)

theorem wrapped_sharesEnds {p : CallPattern} {source : Text} {tree : SyntaxTree source}
    (parsed : parse source = .ok tree) (bare : tree.Bare)
    (round : ∀ a, Piece.call a ∈ p.pieces source → '(' ∉ a ∧ ')' ∉ a)
    {wrapped : SyntaxTree (wrap p source)} (read : parse (wrap p source) = .ok wrapped)
    (plain : wrapped.Bare) : tree.SharesEnds wrapped := by
  refine sharesEnds parsed bare read plain ?_
  have whole := CallPattern.pieces_text p source
  have atTop := parse_atTop parsed bare
  have proper : (Tally.start.afterAll ((p.pieces source).flatMap Piece.text)).due ≠ none := by
    rw [whole, atTop]
    exact Option.some_ne_none _
  rw [wrap, afterAll_wrapped round proper, whole]

theorem resolved_sharesEnds {source : Text} {tree : SyntaxTree source}
    (parsed : parse source = .ok tree) (bare : tree.Bare)
    (even : ∀ c ∈ outermostCalls tree, EvensOut c.base ∧ EvensOut c.name ∧ EvensOut c.call)
    {text : Text} (result : resolveContextCalls source = .ok text) {resolved : SyntaxTree text}
    (read : parse text = .ok resolved) (plain : resolved.Bare) : tree.SharesEnds resolved := by
  refine sharesEnds parsed bare read plain ?_
  have script : parseScript source = .ok tree := by simp [parseScript, parsed, Except.mapError]
  have spliced := resolve_of_parsed script
  rw [result, ← keyedEdits_eq, Except.ok.injEq] at spliced
  rw [spliced, afterAll_resolved even]

/-- Before a call that is wrapped, the source may end a statement at every line break. In the
wrapped script no statement ends before the look-up unless it closes by itself, and the line before
ends with a semicolon or a closing bracket. It is the same where context calls are resolved.
Statements that end with semicolons are not lost, as long as brackets and semicolons stand as tokens
only. -/
theorem statement_before_lookup_closes (filters : FilterSet) (source : Text) :
    (∀ before argument after,
      (CallPattern.ofFilters filters).pieces source = before ++ .call argument :: after →
        (∀ front blanks, before.flatMap Piece.text = front ++ blanks →
          (∀ c ∈ blanks, isAsciiBlank c) →
            (MayEndBefore (source.drop front.length) ↔ '\n' ∈ blanks)) ∧
        ∀ tree, parse (wrap (CallPattern.ofFilters filters) source) = .ok tree →
          ∀ x, tree.EndsBefore x (before.flatMap Piece.wrapped) →
            x.closes ∧ (lastSign? (before.flatMap Piece.text)).any isClosingSign) ∧
    (∀ tree, parse source = .ok tree →
      ∀ before c after, outermostCalls tree = before ++ c :: after →
        ∃ front behind, resolveContextCalls source = .ok (front ++ (c.replacement ++ behind)) ∧
          (front.size : Int) = c.start + (before.map fun d => d.edit.growth).sum ∧
          ∀ resolved, parse (front ++ (c.replacement ++ behind)) = .ok resolved →
            ∀ x, resolved.EndsBefore x front →
              x.closes ∧ (lastSign? front).any isClosingSign) ∧
    ∀ tree, parse source = .ok tree → tree.Bare →
      ((∀ a, Piece.call a ∈ (CallPattern.ofFilters filters).pieces source → '(' ∉ a ∧ ')' ∉ a) →
        ∀ wrapped, parse (wrap (CallPattern.ofFilters filters) source) = .ok wrapped →
          wrapped.Bare → tree.SharesEnds wrapped) ∧
      ((∀ c ∈ outermostCalls tree, EvensOut c.base ∧ EvensOut c.name ∧ EvensOut c.call) →
        ∀ text, resolveContextCalls source = .ok text → ∀ resolved : SyntaxTree text,
          parse text = .ok resolved → resolved.Bare → tree.SharesEnds resolved) := by
  refine ⟨?_, ?_, fun tree parsed bare => ⟨fun round wrapped read plain =>
    wrapped_sharesEnds parsed bare round read plain, fun even text result resolved read plain =>
    resolved_sharesEnds parsed bare even result read plain⟩⟩
  · intro before argument after split
    constructor
    · intro front blanks cut ascii
      have whole : source = front ++
          (blanks ++ ((Piece.call argument).text ++ after.flatMap Piece.text)) := by
        rw [← CallPattern.pieces_text (CallPattern.ofFilters filters) source, split,
          List.flatMap_append, List.flatMap_cons, cut, List.append_assoc]
      rw [whole, List.drop_left]
      exact mayEndBefore_call ascii argument _
    · intro tree parsed x ends
      exact closes_before_wrapped split parsed ends
  · intro tree parsed before c after calls
    obtain ⟨front, behind, resolved, place⟩ := resolved_around parsed calls
    exact ⟨front, behind, resolved, place, fun _ read _ ends => closes_before_resolved read ends⟩

/-- A statement with its semicolon stays apart. -/
theorem semicolon_keeps_apart :
    let source : Text := "a;\nrequire('x');"
    let text := wrap (CallPattern.ofFilters FilterSet.empty) source
    ∃ tree wrapped, parse source = .ok tree ∧ parse text = .ok wrapped ∧
      (∃ x, wrapped.EndsBefore x "a;\n".toList ∧ x.closes) ∧
      tree.ended.length = 2 ∧ wrapped.statements.length = 2 ∧ tree.SharesEnds wrapped := by
  intro source text
  have front : [Piece.plain 'a', .plain ';', .plain '\n'].flatMap Piece.wrapped = "a;\n".toList := by
    decide +kernel
  have split : (CallPattern.ofFilters FilterSet.empty).pieces source =
      [.plain 'a', .plain ';', .plain '\n'] ++ .call "'x'".toList :: [.plain ';'] := by
    decide +kernel
  have original : (parse source).toOption.map (fun tree => (tree.quiet, tree.ended.length)) =
      some ("a\nrequire'x'".toList, 2) := by
    decide +kernel
  have items : (parse text).toOption.map (fun tree =>
      (tree.items.map (fun t => (t.kind, t.text)), tree.quiet, tree.statements.length)) =
      some ([(.expressionStatement, "a;".toList), (.blank, "\n".toList),
        (.expressionStatement, "(injections['x'] || require('x'));".toList)],
        "a\ninjections'x'  require'x'".toList, 2) := by
    decide +kernel
  have plain : ∀ quiet ∈ ["a\nrequire'x'".toList, "a\ninjections'x'  require'x'".toList],
      quiet.all Tally.isPlain := by
    decide +kernel
  have round : ∀ a, Piece.call a ∈ (CallPattern.ofFilters FilterSet.empty).pieces source →
      '(' ∉ a ∧ ')' ∉ a := by
    rw [split]
    simp
  cases read : parse source with
  | error fault => simp [read, Except.toOption] at original
  | ok tree =>
    cases parsed : parse text with
    | error fault => simp [parsed, Except.toOption] at items
    | ok wrapped =>
      simp only [read, Except.toOption, Option.map_some, Option.some.injEq,
        Prod.mk.injEq] at original
      simp only [parsed, Except.toOption, Option.map_some, Option.some.injEq,
        Prod.mk.injEq] at items
      obtain ⟨list, quiet, two⟩ := items
      have bare : tree.Bare := List.all_eq_true.mp (original.1 ▸ plain _ (by simp))
      have wrapped_bare : wrapped.Bare := List.all_eq_true.mp (quiet ▸ plain _ (by simp))
      obtain ⟨x, behind, items, here, -⟩ := List.map_eq_cons_iff.mp list
      obtain ⟨kind, own⟩ := Prod.mk.inj here
      -- The first statement, then a line break, and the look-up.
      have ends : wrapped.EndsBefore x "a;\n".toList := by
        refine ⟨[], behind, ['\n'], items, ?_, by simp [isAsciiBlank], ?_⟩
        · simp [Tree.isStatement, Tree.isTrivia, kind, Kind.isTrivia]
        · simp only [List.nil_append, Tree.textOfAll_cons, Tree.textOfAll_nil, own]
          decide +kernel
      obtain ⟨boundary, -, kept⟩ := statement_before_lookup_closes FilterSet.empty source
      refine ⟨tree, wrapped, rfl, rfl, ⟨x, ends, ?_⟩, original.2, two,
        (kept tree read bare).1 round wrapped parsed wrapped_bare⟩
      rw [← front] at ends
      exact ((boundary _ _ _ split).2 wrapped parsed x ends).1

/-- Without a semicolon, wrapping and resolving make one statement of two. -/
theorem bare_line_joined :
    let count (t : Text) : Option Nat := (parse t).toOption.map fun tree => tree.statements.length
    let source : Text := "var a = b\nrequire('x')\n"
    let loading : Text := "var req = require.context('./m/')\nvar a = b\nreq('x')\n"
    (count source = some 2 ∧
        count (wrap (CallPattern.ofFilters FilterSet.empty) source) = some 1) ∧
      count loading = some 3 ∧
        (resolveContextCalls loading).toOption.bind count = some 2 := by
  decide +kernel

end RequireInjection
