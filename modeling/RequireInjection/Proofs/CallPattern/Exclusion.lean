import RequireInjection.Proofs.CallPattern.Leftmost
import RequireInjection.Proofs.Text.Occurrence

/-!
Excluded paths. A call is refused by a look at its argument, which ends at the first closing
bracket; the pattern that this stands for looks at the text behind the opening bracket. The two
agree on every path that holds no closing bracket, and a path that holds one excludes nothing.
-/
namespace RequireInjection
namespace CallPattern

/-- The opening of a call, not followed by a quote and one of the paths, then one or more characters
that are no closing bracket, and a closing bracket. -/
def LookaheadMatch (paths : List Text) (source : Text) (m : Match) : Prop :=
  ∃ before inner after, source = before ++ (Piece.opening ++ inner) ∧ m.start = before.size ∧
    (∀ path ∈ paths, ∀ q, isQuote q → ¬ (q :: path) <+: inner) ∧
    m.argument ≠ [] ∧ ')' ∉ m.argument ∧ inner = m.argument ++ ')' :: after

theorem isExcluded_iff {excluded : List Text} {argument : Text} :
    isExcluded excluded argument ↔
      ∃ path ∈ excluded, ∃ q, isQuote q ∧ (q :: path) <+: argument := by
  cases argument with
  | nil => simp [isExcluded]
  | cons c rest =>
    simp only [isExcluded, Bool.and_eq_true, List.any_eq_true, Text.startsWith_iff]
    constructor
    · rintro ⟨quote, path, member, begins⟩
      exact ⟨path, member, c, quote, List.cons_prefix_cons.mpr ⟨rfl, begins⟩⟩
    · rintro ⟨path, member, q, quote, begins⟩
      obtain ⟨rfl, tail⟩ := List.cons_prefix_cons.mp begins
      exact ⟨quote, path, member, tail⟩

theorem anyArgument?_eq_some {t a : Text} :
    anyArgument? t = some a ↔ a ≠ [] ∧ ')' ∉ a ∧ ∃ rest, t = a ++ ')' :: rest := by
  constructor
  · intro h
    obtain ⟨no_closing, begins⟩ := anyArgument_begins h
    refine ⟨?_, no_closing, begins⟩
    simp only [anyArgument?] at h
    split at h
    · cases h
    · rename_i proper
      cases h
      intro nothing
      simp only [nothing, decide_true, Bool.true_or, not_true_eq_false] at proper
  · rintro ⟨nonempty, no_closing, rest, rfl⟩
    have taken : List.takeWhile (· ≠ ')') (a ++ ')' :: rest) = a := by
      rw [List.takeWhile_append_of_pos]
      · simp
      · intro c member
        simpa using fun closing : c = ')' => no_closing (closing ▸ member)
    simp only [anyArgument?, taken]
    simp [nonempty]

theorem quote_not_closing {q : Char} (quote : isQuote q) : q ≠ ')' := by
  rintro rfl
  simp [isQuote] at quote

/-- The look at the argument refuses what the look at the text behind the bracket refuses, for the
paths without a closing bracket. -/
theorem not_isExcluded_iff {excluded : List Text} {argument after : Text}
    (no_closing : ')' ∉ argument) :
    isExcluded excluded argument = false ↔
      ∀ path ∈ excluded.filter (')' ∉ ·), ∀ q, isQuote q →
        ¬ (q :: path) <+: argument ++ ')' :: after := by
  rw [← Bool.not_eq_true, isExcluded_iff]
  constructor
  · intro kept path member q quote begins
    obtain ⟨listed, plain⟩ := List.mem_filter.mp member
    have open_path : ')' ∉ q :: path := by
      have := quote_not_closing quote
      simpa [this.symm] using plain
    exact kept ⟨path, listed, q, quote, (Text.prefix_append_cons_iff open_path).mp begins⟩
  · rintro kept ⟨path, listed, q, quote, begins⟩
    -- a path that begins the argument holds no closing bracket, since the argument holds none
    have plain : ')' ∉ path := fun closing =>
      no_closing (begins.subset (List.mem_cons_of_mem q closing))
    exact kept path (List.mem_filter.mpr ⟨listed, by simpa using plain⟩) q quote
      (begins.trans (List.prefix_append _ _))

theorem finds_iff_lookahead {excluded : List Text} {source : Text} {m : Match} :
    (anyArgument excluded).Finds source m ↔
      LookaheadMatch (excluded.filter (')' ∉ ·)) source m := by
  constructor
  · rintro ⟨before, rest, whole, hstart, found⟩
    simp only [argumentAt?] at found
    split at found
    · cases found
    · rename_i inner stripped
      obtain ⟨found, kept⟩ := Option.filter_eq_some_iff.mp found
      obtain ⟨nonempty, no_closing, after, hinner⟩ := anyArgument?_eq_some.mp found
      refine ⟨before, inner, after, ?_, hstart, ?_, nonempty, no_closing, hinner⟩
      · rw [whole, Text.eq_append_of_stripPrefix? stripped]
      · rw [hinner]
        exact (not_isExcluded_iff no_closing).mp (by simpa using kept)
  · rintro ⟨before, inner, after, whole, hstart, kept, nonempty, no_closing, hinner⟩
    refine ⟨before, _, whole, hstart, ?_⟩
    simp only [argumentAt?, Text.stripPrefix?_append]
    rw [hinner] at kept
    refine Option.filter_eq_some_iff.mpr ⟨?_, ?_⟩
    · exact anyArgument?_eq_some.mpr ⟨nonempty, no_closing, after, hinner⟩
    · simpa using (not_isExcluded_iff no_closing).mpr kept

theorem ofFilters_excluding {filters : FilterSet} (nonempty : filters.entries ≠ [])
    (allTrue : ∀ e ∈ filters.entries, e.2 = Json.bool true) :
    ofFilters filters = anyArgument filters.paths := by
  have some_entry : filters.entries.isEmpty = false := by simpa using nonempty
  have flags : (filters.entries.all fun e => e.2.isTrue) = true := by
    rw [List.all_eq_true]
    intro e member
    rw [allTrue e member]
    rfl
  simp [ofFilters, FilterSet.mode, some_entry, flags]

/-- If all flags are `true`, the calls are the leftmost matches of the pattern that looks ahead for
the paths, those with a closing bracket left out. -/
theorem excluding_calls_iff_leftmost (filters : FilterSet) (source : Text) (ms : List Match)
    (nonempty : filters.entries ≠ [])
    (allTrue : ∀ e ∈ filters.entries, e.2 = Json.bool true) :
    Leftmost (LookaheadMatch (filters.paths.filter (')' ∉ ·)) source) 0 ms ↔
      ms = (ofFilters filters).calls source := by
  rw [ofFilters_excluding nonempty allTrue, ← leftmost_iff]
  exact Leftmost.congr fun m => finds_iff_lookahead.symm

theorem excluded_argument_searched :
    Leftmost (LookaheadMatch ["./a".toList] "x(require('./a' + require('b')));".toList) 0
      [⟨18, "'b'".toList⟩] := by
  have found := (excluding_calls_iff_leftmost (FilterSet.empty.insert "./a".toList (.bool true))
    "x(require('./a' + require('b')));".toList [⟨18, "'b'".toList⟩] (by simp [FilterSet.insert,
      FilterSet.empty, Entries.put]) (by simp [FilterSet.insert, FilterSet.empty, Entries.put])).mpr
    (by decide)
  exact found

/-- An excluded path that holds a closing bracket is wrapped, up to that bracket. -/
theorem bracketed_path_found :
    let filters := FilterSet.empty.insert "(group)/a".toList (.bool true)
    (ofFilters filters).calls "require('(group)/a')".toList = [⟨0, "'(group".toList⟩] ∧
      ¬ Leftmost (LookaheadMatch filters.paths "require('(group)/a')".toList) 0
        ((ofFilters filters).calls "require('(group)/a')".toList) := by
  intro filters
  have calls : (ofFilters filters).calls "require('(group)/a')".toList =
      [⟨0, "'(group".toList⟩] := by decide
  refine ⟨calls, ?_⟩
  rw [calls]
  intro leftmost
  cases leftmost with
  | next found _ _ _ =>
    obtain ⟨before, inner, after, whole, hstart, ahead, -, -, -⟩ := found
    have nothing : before = [] := Text.size_eq_zero.mp hstart.symm
    subst nothing
    have behind : inner = "'(group)/a')".toList :=
      (List.append_cancel_left (whole.symm.trans (by rfl : _ = Piece.opening ++ _)))
    exact ahead "(group)/a".toList (by decide) '\'' rfl (by rw [behind]; decide)

end CallPattern
end RequireInjection
