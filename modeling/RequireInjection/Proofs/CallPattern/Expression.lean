import RequireInjection.Proofs.CallPattern.Exclusion
import RequireInjection.Proofs.CallPattern.Regex

namespace RequireInjection
namespace CallPattern

open Regex

def quote : Regex := .set false ['\'', '"']

def callOf (argument : Regex) : Regex :=
  ((Regex.empty.spelled Piece.opening).seq (.capture argument)).spelled [')']

def expression : CallPattern → Regex
  | anyArgument _ => callOf (.seq .empty (.repeated true [')']))
  | quotedPath paths =>
    callOf (((Regex.empty.seq quote).seq (Branches.fresh.spell paths).whole).seq quote)

def unguarded : CallPattern → CallPattern
  | anyArgument _ => anyArgument []
  | quotedPath paths => quotedPath paths

theorem reads_opening : Reads ("require\\(" : Text) ⟨.fresh, [], .between⟩
    ⟨{ Branches.fresh with current := Regex.empty.spelled Piece.opening }, [], .between⟩ := by
  have characters : ("require\\(" : Text) = escaped Piece.opening := rfl
  rw [characters]
  exact reads_escaped .fresh [] Piece.opening

theorem reads_closing (g : Branches) : Reads ("\\)" : Text) ⟨g, [], .between⟩
    ⟨{ g with current := g.current.spelled [')'] }, [], .between⟩ := by
  have characters : ("\\)" : Text) = escaped [')'] := rfl
  rw [characters]
  exact reads_escaped g [] [')']

theorem reads_any (g : Branches) : Reads ("([^)]+)" : Text) ⟨g, [], .between⟩
    ⟨g.add (.capture (.seq .empty (.repeated true [')']))), [], .between⟩ := by
  have characters : ("([^)]+)" : Text) = ['(', '[', '^', ')', ']', '+', ')'] := rfl
  rw [characters]
  rfl

theorem reads_quoted (g : Branches) (paths : List Text) :
    Reads (("(['\"](?:" : Text) ++ Text.join ['|'] (paths.map escaped) ++ (")['\"])" : Text))
      ⟨g, [], .between⟩
      ⟨g.add (.capture (((Regex.empty.seq quote).seq (Branches.fresh.spell paths).whole).seq quote)),
        [], .between⟩ := by
  let around : List (Bool × Branches) := [(false, Branches.fresh.add quote), (true, g)]
  have before : Reads ("(['\"](?:" : Text) ⟨g, [], .between⟩ ⟨.fresh, around, .between⟩ := by
    have characters : ("(['\"](?:" : Text) = ['(', '[', '\'', '"', ']', '(', '?', ':'] := rfl
    rw [characters]
    rfl
  have behind : Reads (")['\"])" : Text) ⟨Branches.fresh.spell paths, around, .between⟩
      ⟨g.add (.capture (((Regex.empty.seq quote).seq (Branches.fresh.spell paths).whole).seq quote)),
        [], .between⟩ := by
    have characters : (")['\"])" : Text) = [')', '[', '\'', '"', ']', ')'] := rfl
    rw [characters]
    rfl
  exact (before.append (reads_alternatives .fresh around paths)).append behind

theorem ofText?_regex (p : CallPattern) : Regex.ofText? p.regex = some p.expression := by
  cases p with
  | anyArgument excluded =>
    exact ofText?_of_reads ((reads_opening.append (reads_any _)).append (reads_closing _))
  | quotedPath paths =>
    exact ofText?_of_reads ((reads_opening.append (reads_quoted _ paths)).append (reads_closing _))

def closed? (w : Way) : Option Text := (Text.stripPrefix? [')'] w.rest).map fun _ => w.taken

def taken (argument : Text) : Text × Option Text := ((Piece.call argument).text, some argument)

theorem closed?_eq (w : Way) :
    closed? w = if w.rest.head? = some ')' then some w.taken else none := by
  rw [closed?]
  cases w.rest with
  | nil => rfl
  | cons c t =>
    by_cases closing : c = ')'
    · simp [Text.stripPrefix?, closing]
    · simp [Text.stripPrefix?, closing, Ne.symm closing]

theorem ways_callOf (argument : Regex) (t : Text) :
    ((callOf argument).ways t).map (fun w => (w.taken, w.captured)) =
      match Text.stripPrefix? Piece.opening t with
      | none => []
      | some inner => ((argument.ways inner).filterMap closed?).map taken := by
  rw [callOf, ways_spelled, ways, ways_spelled, ways]
  cases stripped : Text.stripPrefix? Piece.opening t with
  | none => simp only [List.filterMap_cons, stripped, Option.map_none, List.filterMap_nil,
      List.flatMap_nil, List.map_nil]
  | some inner =>
    simp only [List.filterMap_cons, stripped, Option.map_some, List.filterMap_nil,
      List.flatMap_cons, List.flatMap_nil, List.append_nil, ways, List.map_map, List.filterMap_map,
      List.map_filterMap, closed?]
    congr 1
    funext w
    simp only [Function.comp_apply, Way.andThen, Option.map_map]
    cases Text.stripPrefix? [')'] w.rest <;> rfl

theorem ways_quote (e : Regex) (t : Text) :
    (e.seq quote).ways t = (e.ways t).filterMap fun w => (one? isQuote w.rest).map w.andThen := by
  have same : admits false ['\'', '"'] = isQuote := by
    funext c
    simp [admits, isQuote]
  exact ways_seq_of_option fun t => by rw [quote, ways, same]

theorem quote_closed (w : Way) :
    ((one? isQuote w.rest).map w.andThen).bind closed? =
      match w.rest with
      | q :: ')' :: _ => if isQuote q then some (w.taken ++ [q]) else none
      | _ => none := by
  obtain ⟨taken, captured, rest⟩ := w
  cases rest with
  | nil => rfl
  | cons q behind =>
    by_cases quoted : isQuote q
    · have one : one? isQuote (q :: behind) = some ⟨[q], none, behind⟩ := if_pos quoted
      rw [one, Option.map_some, Option.bind_some, closed?_eq]
      cases behind with
      | nil => rfl
      | cons c after =>
        by_cases closing : c = ')'
        · simp [Way.andThen, closing, quoted]
        · simp [Way.andThen, closing]
    · have one : one? isQuote (q :: behind) = none := if_neg quoted
      rw [one]
      split
      · rename_i same
        cases same
        rw [if_neg quoted]
        rfl
      · rfl

theorem ways_quoted {paths : List Text} (nonempty : paths ≠ []) (inner : Text) :
    ((((Regex.empty.seq quote).seq (Branches.fresh.spell paths).whole).seq quote).ways
      inner).filterMap closed? = paths.filterMap (quoted? inner) := by
  rw [ways_quote, ways, ways_quote, ways, List.filterMap_filterMap]
  simp only [quote_closed]
  cases inner with
  | nil => simp [one?, quoted?]
  | cons q rest =>
    by_cases quoted : isQuote q
    · simp only [List.filterMap_cons, List.filterMap_nil, one?, quoted, if_true, Option.map_some,
        List.flatMap_cons, List.flatMap_nil, List.append_nil, ways_alternatives nonempty,
        List.filterMap_map, List.filterMap_filterMap, Way.andThen]
      congr 1
      funext p
      simp only [spelledWay?, quoted?, quoted, if_true]
      cases Text.stripPrefix? p rest with
      | none => rfl
      | some behind =>
        rcases behind with _ | ⟨q', _ | ⟨c, after⟩⟩
        · rfl
        · rfl
        · by_cases closing : c = ')'
          · rw [closing]
            rfl
          · simp [Way.andThen, closing]
    · simp [one?, quoted?, quoted]

theorem anyArgument?_cons {c : Char} (inside : c ≠ ')') (t : Text) :
    anyArgument? (c :: t) =
      if t.head? = some ')' then some [c] else (anyArgument? t).map (c :: ·) := by
  have longer : (c :: t).takeWhile (· ≠ ')') = c :: t.takeWhile (· ≠ ')') :=
    List.takeWhile_cons_of_pos (decide_eq_true inside)
  cases t with
  | nil => simp [anyArgument?, inside]
  | cons d t =>
    by_cases closing : d = ')'
    · simp [anyArgument?, inside, closing]
    · have other : (d :: t).head? ≠ some ')' := by simpa using closing
      have proper : (d :: t).takeWhile (· ≠ ')') ≠ [] := by simp [closing]
      rw [if_neg other]
      simp only [anyArgument?, longer, proper, List.length_cons, Nat.add_right_cancel_iff,
        reduceCtorEq, decide_false, Bool.false_or, decide_eq_true_eq]
      split <;> rfl

/-- Of the ways to take characters that are no closing bracket, the longest one alone has a closing
bracket behind it. -/
theorem longest_closed (t : Text) :
    (oneOrMore (admits true [')']) t).filterMap closed? = (anyArgument? t).toList := by
  induction t with
  | nil => rfl
  | cons c t ih =>
    by_cases closing : c = ')'
    · subst closing
      rfl
    · -- the ways that take more of `t` come first, and taking `c` alone comes last
      have admitted : admits true [')'] c := by simp [admits, closing]
      have longer : closed? ∘ (⟨[c], none, t⟩ : Way).andThen = fun w => (closed? w).map (c :: ·) := by
        funext w
        simp only [Function.comp_apply, closed?, Way.andThen, Option.map_map]
        rfl
      rw [anyArgument?_cons closing, oneOrMore, if_pos admitted, List.filterMap_append,
        List.filterMap_map, longer, ← List.map_filterMap, ih]
      by_cases behind : t.head? = some ')'
      · obtain ⟨rest, rfl⟩ : ∃ rest, t = ')' :: rest := List.head?_eq_some_iff.mp behind
        rfl
      · rw [if_neg behind]
        have last : closed? ⟨[c], none, t⟩ = none := by rw [closed?_eq, if_neg behind]
        rw [List.filterMap_cons_none last]
        cases anyArgument? t <;> rfl

theorem ways_any (inner : Text) :
    ((Regex.empty.seq (.repeated true [')'])).ways inner).filterMap closed? =
      (anyArgument? inner).toList := by
  rw [← longest_closed]
  simp only [ways, List.flatMap_cons, List.flatMap_nil, List.append_nil, List.filterMap_map]
  rfl

theorem first_expression {p : CallPattern} (proper : p ≠ quotedPath []) (t : Text) :
    (p.expression.ways t).head?.map (fun w => (w.taken, w.captured)) =
      (p.unguarded.argumentAt? t).map taken := by
  rw [← List.head?_map]
  cases p with
  | anyArgument excluded =>
    rw [expression, ways_callOf, unguarded, argumentAt?]
    cases Text.stripPrefix? Piece.opening t with
    | none => rfl
    | some inner =>
      have nothing : ∀ a, isExcluded [] a = false := by
        intro a
        cases a <;> simp [isExcluded]
      simp only [ways_any, nothing, Bool.not_false, List.head?_map]
      cases anyArgument? inner <;> rfl
  | quotedPath paths =>
    have nonempty : paths ≠ [] := by
      rintro rfl
      exact proper rfl
    rw [expression, ways_callOf, unguarded, argumentAt?]
    cases Text.stripPrefix? Piece.opening t with
    | none => rfl
    | some inner => simp only [ways_quoted nonempty, List.head?_map, List.head?_filterMap]

end CallPattern

def Regex.Finds (e : Regex) (source : Text) (m : CallPattern.Match) : Prop :=
  ∃ before after way, source = before ++ after ∧ m.start = before.size ∧
    (e.ways after).head? = some way ∧ way.taken = m.text ∧ way.captured = some m.argument

theorem CallPattern.expression_finds_iff {p : CallPattern} (proper : p ≠ quotedPath [])
    {source : Text} {m : Match} : p.expression.Finds source m ↔ p.unguarded.Finds source m := by
  constructor
  · rintro ⟨before, after, way, whole, hstart, first, -, captured⟩
    refine ⟨before, after, whole, hstart, ?_⟩
    have same := first_expression proper after
    rw [first, Option.map_some] at same
    obtain ⟨argument, found, both⟩ := Option.map_eq_some_iff.mp same.symm
    rw [captured, taken, Prod.mk.injEq, Option.some.injEq] at both
    rw [found, both.2]
  · rintro ⟨before, after, whole, hstart, found⟩
    have same := first_expression proper after
    rw [found, Option.map_some] at same
    obtain ⟨way, first, both⟩ := Option.map_eq_some_iff.mp same
    obtain ⟨text, captured⟩ : way.taken = m.text ∧ way.captured = some m.argument := by
      simpa [taken, Match.text] using both
    exact ⟨before, after, way, whole, hstart, first, text, captured⟩

end RequireInjection
