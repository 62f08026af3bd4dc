import RequireInjection.Proofs.CallPattern.Candidate
import RequireInjection.Proofs.Text.Splitting

/-!
More paths excluded. A call that is refused only now gives way to calls in its argument, so the two
scans drift apart. They meet again, since candidates that overlap end at the same closing bracket: a
call found anew could only reach over a later one if the refused call had done so before.
-/
namespace RequireInjection
namespace CallPattern

section Overlap

variable {source : Text} {m m' : Match}

theorem Candidate.no_closing (h : Candidate source m) : ')' ∉ m.argument := by
  obtain ⟨-, -, -, -, -, -, no_closing, -⟩ := h
  exact no_closing

theorem Candidate.later_behind (h : Candidate source m) (h' : Candidate source m')
    (later : m.start < m'.start) :
    ∃ gap after after', m'.start = m.start + Piece.opening.size + gap.size ∧
      m.argument ++ ')' :: after = gap ++ (m'.text ++ after') := by
  have opened := h.opening_le h' later
  obtain ⟨before', after', whole', hstart'⟩ := h'.source_eq
  obtain ⟨before, inner, after, whole, hstart, hinner, -, -⟩ := h
  have front : Text.size (before ++ Piece.opening) = m.start + Piece.opening.size := by
    rw [Text.size_append, hstart]
  have cut : source = (before ++ Piece.opening) ++ inner := by rw [whole, List.append_assoc]
  have boundary : Text.IsBoundary ((before ++ Piece.opening) ++ inner) m'.start :=
    Text.isBoundary_iff.mpr ⟨before', m'.text ++ after', by rw [← cut, whole'], hstart'.symm⟩
  obtain ⟨gap, rest, hrest, place⟩ := Text.cut_behind boundary (by omega)
  have same : rest = m'.text ++ after' := by
    have halves : (before ++ Piece.opening ++ gap) ++ rest = before' ++ (m'.text ++ after') := by
      rw [← whole', cut, hrest, List.append_assoc]
    exact Text.append_inj_size halves (by rw [Text.size_append, ← place, hstart'])
  exact ⟨gap, after, after', by omega, by rw [← hinner, hrest, same]⟩

/-- Candidates that overlap end at the same closing bracket. -/
theorem Candidate.stop_eq_of_overlap (h : Candidate source m) (h' : Candidate source m')
    (later : m.start < m'.start) (inside : m'.start < m.stop) : m'.stop = m.stop := by
  obtain ⟨gap, after, after', place, halves⟩ := h.later_behind h' later
  have call : m'.text ++ after' = (Piece.opening ++ m'.argument) ++ ')' :: after' := by
    simp [Match.text, Piece.text]
  simp only [Match.stop, Match.text, Piece.text, Text.size_append, Text.size_cons, Text.size_nil]
    at inside ⊢
  have closing : Char.utf8Size ')' = 1 := rfl
  rcases List.append_eq_append_iff.mp halves with ⟨more, hgap, hrest⟩ | ⟨more, hargument, hrest⟩
  · -- the later one would begin with the bracket that ends the earlier one
    have nothing : more = [] := by
      rw [hgap, Text.size_append] at place
      exact Text.size_eq_zero.mp (by omega)
    obtain ⟨c, cs, opening, other⟩ : ∃ c cs, Piece.opening = c :: cs ∧ ')' ≠ c :=
      ⟨_, _, rfl, by decide⟩
    rw [nothing, call, opening] at hrest
    exact absurd (List.cons.inj hrest).1 other
  · have outside : ')' ∉ more := fun member =>
      h.no_closing (hargument ▸ List.mem_append_right gap member)
    have within : ')' ∉ Piece.opening ++ m'.argument := by
      rw [List.mem_append, not_or]
      exact ⟨by decide, h'.no_closing⟩
    have ends : Text.splitOnce ')' (more ++ ')' :: after) = some (more, after) :=
      Text.splitOnce_append outside
    rw [← hrest, call, Text.splitOnce_append within] at ends
    obtain ⟨same, -⟩ : Piece.opening ++ m'.argument = more ∧ after' = after := by simpa using ends
    have sizes : m.argument.size = gap.size + (Piece.opening.size + m'.argument.size) := by
      rw [hargument, ← same, Text.size_append, Text.size_append]
    omega

end Overlap

theorem ofFilters_allTrue {filters : FilterSet}
    (allTrue : ∀ e ∈ filters.entries, e.2 = Json.bool true) :
    ofFilters filters = anyArgument filters.paths := by
  by_cases nothing : filters.entries = []
  · simp [ofFilters, FilterSet.mode, FilterSet.paths, nothing, Entries.keys]
  · exact ofFilters_excluding nothing allTrue

theorem mem_calls_anyArgument {paths : List Text} {source : Text} {m : Match} :
    m ∈ (anyArgument paths).calls source ↔
      (Candidate source m ∧ ¬ Refuses paths m.argument) ∧
        ∀ m' ∈ (anyArgument paths).calls source, ¬ (m'.start < m.start ∧ m.start < m'.stop) := by
  rw [(calls_leftmost _ source).mem_iff (fun _ _ => Finds.determined) m, finds_iff_candidate]
  simp only [Nat.zero_le, true_and]

theorem Refuses.mono {paths further : List Text} {argument : Text} (contained : paths ⊆ further)
    (h : Refuses paths argument) : Refuses further argument := by
  obtain ⟨path, member, q, quote, begins⟩ := h
  exact ⟨path, contained member, q, quote, begins⟩

/-- Of the calls found when some paths are excluded, those are still found when further ones are
that these do not exclude. -/
theorem larger_exclusion_keeps (filters further : FilterSet) (source : Text)
    (allTrue : ∀ e ∈ filters.entries, e.2 = Json.bool true)
    (furtherTrue : ∀ e ∈ further.entries, e.2 = Json.bool true)
    (contained : filters.paths ⊆ further.paths) :
    ∀ m ∈ (ofFilters filters).calls source,
      (m ∈ (ofFilters further).calls source ↔ ¬ Refuses further.paths m.argument) := by
  rw [ofFilters_allTrue allTrue, ofFilters_allTrue furtherTrue]
  intro m found
  obtain ⟨⟨candidate, -⟩, clear⟩ := mem_calls_anyArgument.mp found
  constructor
  · intro kept
    exact (mem_calls_anyArgument.mp kept).1.2
  · intro allowed
    refine mem_calls_anyArgument.mpr ⟨⟨candidate, allowed⟩, ?_⟩
    rintro m' found' ⟨earlier, inside⟩
    obtain ⟨⟨candidate', allowed'⟩, -⟩ := mem_calls_anyArgument.mp found'
    have stop' := candidate'.stop_eq_of_overlap candidate earlier inside
    -- among the former calls one reached over the start of the call that is found anew
    have hidden : m' ∉ (anyArgument filters.paths).calls source := fun former =>
      clear m' former ⟨earlier, inside⟩
    rw [mem_calls_anyArgument, not_and] at hidden
    have covered := hidden ⟨candidate', fun refuses => allowed' (refuses.mono contained)⟩
    push Not at covered
    obtain ⟨m'', former, before, reaches⟩ := covered
    have candidate'' := (mem_calls_anyArgument.mp former).1.1
    have stop'' := candidate''.stop_eq_of_overlap candidate' before reaches
    exact clear m'' former ⟨by omega, by omega⟩

theorem later_call_kept :
    let filters := FilterSet.empty.insert ['a'] (.bool true)
    let further := filters.insert ['b'] (.bool true)
    let source : Text := "require('b' + require('c')); require('d')"
    (∀ e ∈ filters.entries, e.2 = Json.bool true) ∧
      (∀ e ∈ further.entries, e.2 = Json.bool true) ∧ filters.paths ⊆ further.paths ∧
      (ofFilters filters).calls source =
        [⟨0, "'b' + require('c'".toList⟩, ⟨29, "'d'".toList⟩] ∧
      (⟨0, "'b' + require('c'".toList⟩ : Match) ∉ (ofFilters further).calls source ∧
      (⟨29, "'d'".toList⟩ : Match) ∈ (ofFilters further).calls source := by
  intro filters further source
  have allTrue : ∀ e ∈ filters.entries, e.2 = Json.bool true := by
    simp [filters, FilterSet.insert, FilterSet.empty, Entries.put]
  have furtherTrue : ∀ e ∈ further.entries, e.2 = Json.bool true := by
    simp [further, filters, FilterSet.insert, FilterSet.empty, Entries.put]
  have contained : filters.paths ⊆ further.paths := by decide
  have calls : (ofFilters filters).calls source =
      [⟨0, "'b' + require('c'".toList⟩, ⟨29, "'d'".toList⟩] := by decide
  have kept := larger_exclusion_keeps filters further source allTrue furtherTrue contained
  refine ⟨allTrue, furtherTrue, contained, calls, ?_, ?_⟩
  · rw [kept _ (by rw [calls]; simp), not_not]
    exact ⟨['b'], by decide, '\'', rfl, by decide⟩
  · rw [kept _ (by rw [calls]; simp), Refuses, ← isExcluded_iff]
    decide

end CallPattern
end RequireInjection
