import RequireInjection.Proofs.CallPattern.Candidate
import RequireInjection.Proofs.CallPattern.Expression

/-!
Patterns of quoted paths. A call of a path is the opening, the path between quotes of either kind,
and a closing bracket. Where the calls of several paths begin at one place, the first path decides;
the others may be its front, or go on behind its quote and bracket. The calls found are those that
begin inside no other, and they are the leftmost matches of the regular expression that the
pattern's text spells.
-/
namespace RequireInjection
namespace CallPattern

def QuotedCall (source path : Text) (m : Match) : Prop :=
  ∃ before q q' after, isQuote q ∧ isQuote q' ∧ m.argument = q :: path ++ [q'] ∧
    source = before ++ (Piece.opening ++ (m.argument ++ ')' :: after)) ∧ m.start = before.size

/-- A call of one of the paths, where no call of a path before it begins. -/
def FirstQuotedCall (paths : List Text) (source : Text) (m : Match) : Prop :=
  ∃ earlier path later, paths = earlier ++ path :: later ∧ QuotedCall source path m ∧
    ∀ path' ∈ earlier, ∀ m', QuotedCall source path' m' → m'.start ≠ m.start

theorem quoted?_eq_some {t path a : Text} :
    quoted? t path = some a ↔
      ∃ q q' after, isQuote q ∧ isQuote q' ∧ a = q :: path ++ [q'] ∧ t = a ++ ')' :: after := by
  constructor
  · intro h
    unfold quoted? at h
    split at h
    · cases h
    · rename_i q rest
      split at h
      · rename_i quote
        split at h
        · rename_i q' after stripped
          split at h
          · rename_i quote'
            cases h
            rw [Text.eq_append_of_stripPrefix? stripped]
            exact ⟨q, q', after, quote, quote', rfl, by simp⟩
          · cases h
        · cases h
      · cases h
  · rintro ⟨q, q', after, quote, quote', rfl, rfl⟩
    have inner : q :: path ++ [q'] ++ ')' :: after = q :: (path ++ (q' :: ')' :: after)) := by simp
    simp only [inner, quoted?, quote, if_true, Text.stripPrefix?_append, quote']

theorem quotedCall_iff {source path : Text} {m : Match} :
    QuotedCall source path m ↔ ∃ before inner, source = before ++ (Piece.opening ++ inner) ∧
      m.start = before.size ∧ quoted? inner path = some m.argument := by
  constructor
  · rintro ⟨before, q, q', after, quote, quote', argument, whole, hstart⟩
    exact ⟨before, _, whole, hstart,
      quoted?_eq_some.mpr ⟨q, q', after, quote, quote', argument, rfl⟩⟩
  · rintro ⟨before, inner, whole, hstart, found⟩
    obtain ⟨q, q', after, quote, quote', argument, hinner⟩ := quoted?_eq_some.mp found
    exact ⟨before, q, q', after, quote, quote', argument, hinner ▸ whole, hstart⟩

theorem finds_iff_firstQuotedCall {paths : List Text} {source : Text} {m : Match} :
    (quotedPath paths).Finds source m ↔ FirstQuotedCall paths source m := by
  constructor
  · rintro ⟨before, rest, whole, hstart, found⟩
    simp only [argumentAt?] at found
    split at found
    · cases found
    · rename_i inner stripped
      rw [Text.eq_append_of_stripPrefix? stripped] at whole
      -- The paths are tried in their order, so those before the one that fits have no call here.
      obtain ⟨earlier, path, later, listed, here, others⟩ := List.findSome?_eq_some_iff.mp found
      refine ⟨earlier, path, later, listed, quotedCall_iff.mpr ⟨before, inner, whole, hstart, here⟩,
        ?_⟩
      intro path' member m' call' same
      obtain ⟨before', inner', whole', hstart', found'⟩ := quotedCall_iff.mp call'
      have inners : Piece.opening ++ inner = Piece.opening ++ inner' :=
        Text.append_inj_size (whole.symm.trans whole') (by rw [← hstart, ← hstart', same])
      rw [← List.append_cancel_left inners, others path' member] at found'
      cases found'
  · rintro ⟨earlier, path, later, listed, call, first⟩
    obtain ⟨before, inner, whole, hstart, found⟩ := quotedCall_iff.mp call
    refine ⟨before, _, whole, hstart, ?_⟩
    simp only [argumentAt?, Text.stripPrefix?_append]
    refine List.findSome?_eq_some_iff.mpr ⟨earlier, path, later, listed, found, ?_⟩
    intro path' member
    cases other : quoted? inner path' with
    | none => rfl
    | some a =>
      exact absurd rfl (first path' member ⟨m.start, a⟩
        (quotedCall_iff.mpr ⟨before, inner, whole, hstart, other⟩))

theorem ofFilters_only {filters : FilterSet} (only : filters.mode = .only) :
    ofFilters filters = quotedPath filters.paths ∧ filters.paths ≠ [] := by
  constructor
  · simp only [ofFilters, only]
  · intro nothing
    have empty : filters.entries = [] := List.map_eq_nil_iff.mp nothing
    simp [FilterSet.mode, empty] at only

/-- In a set that includes its paths only, the calls are the leftmost matches of the regular
expression that the pattern's text spells. They stand in order and apart from each other, and they
are the calls of the paths that begin inside no other call; of paths whose calls begin at one place,
the first counts. The flags do not matter. -/
theorem quoted_calls_exact (filters : FilterSet) (source : Text) (only : filters.mode = .only) :
    let found := (ofFilters filters).calls source
    (∃ e, Regex.ofText? (ofFilters filters).regex = some e ∧
        ∀ ms, Leftmost (e.Finds source) 0 ms ↔ ms = found) ∧
      (found.Pairwise fun m m' => m.start < m'.start ∧ m.stop ≤ m'.start) ∧
      (∀ m, m ∈ found ↔ FirstQuotedCall filters.paths source m ∧
        ∀ m' ∈ found, ¬ (m'.start < m.start ∧ m.start < m'.stop)) ∧
      (∀ m ∈ found, source.slice m.start m.stop = m.text ∧
        source.slice (m.start + Piece.opening.size) (m.stop - 1) = m.argument) ∧
      ∀ other : FilterSet, other.mode = .only → other.paths = filters.paths →
        (ofFilters other).calls source = found := by
  intro found
  obtain ⟨pattern, nonempty⟩ := ofFilters_only only
  have leftmost := calls_leftmost (ofFilters filters) source
  refine ⟨?_, leftmost.ascending, ?_, ?_, ?_⟩
  · refine ⟨_, ofText?_regex _, ?_⟩
    intro ms
    -- Such a set has a path; without one the expression would find what the pattern does not.
    have proper : ofFilters filters ≠ quotedPath [] := by
      rw [pattern]
      intro same
      exact nonempty (CallPattern.quotedPath.inj same)
    have unguarded : (ofFilters filters).unguarded = ofFilters filters := by
      rw [pattern, CallPattern.unguarded]
    rw [← leftmost_iff]
    apply Leftmost.congr
    intro m
    rw [expression_finds_iff proper, unguarded]
  · intro m
    rw [leftmost.mem_iff (fun _ _ => Finds.determined) m, pattern, finds_iff_firstQuotedCall]
    simp only [Nat.zero_le, true_and, found, pattern]
  · intro m member
    have here := leftmost.is_match m member
    exact ⟨here.slice_text, here.slice_argument⟩
  · intro other only' same
    simp only [found, pattern, (ofFilters_only only').1, same]

/-- The first path goes on behind the bracket of the second; the third is empty, and the fourth
would fit every character if it stood for more than itself. -/
theorem longer_path_first :
    let filters := FilterSet.ofList [("a')b".toList, .bool true), (['a'], .null), ([], .bool true),
      (['.'], .bool false)]
    let source : Text := "require('a')b\")require(\"a')require('')require('x')"
    filters.mode = .only ∧ ((ofFilters filters).calls source =
        [⟨0, "'a')b\"".toList⟩, ⟨15, "\"a'".toList⟩, ⟨27, "''".toList⟩] ∧
      (∃ e, Regex.ofText? (ofFilters filters).regex = some e ∧
        Leftmost (e.Finds source) 0 ((ofFilters filters).calls source)) ∧
      FirstQuotedCall filters.paths source ⟨0, "'a')b\"".toList⟩) := by
  intro filters source
  have only : filters.mode = .only := by decide
  have calls : (ofFilters filters).calls source =
      [⟨0, "'a')b\"".toList⟩, ⟨15, "\"a'".toList⟩, ⟨27, "''".toList⟩] := by decide
  obtain ⟨⟨e, read, leftmost⟩, -, members, -, -⟩ := quoted_calls_exact filters source only
  refine ⟨only, calls, ⟨e, read, (leftmost _).mpr rfl⟩, ?_⟩
  exact ((members ⟨0, "'a')b\"".toList⟩).mp (by rw [calls]; simp)).1

end CallPattern
end RequireInjection
