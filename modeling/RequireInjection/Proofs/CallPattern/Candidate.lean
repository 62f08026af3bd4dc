import Mathlib.Data.Nat.Find
import RequireInjection.Proofs.CallPattern.Exclusion

/-!
Patterns that take any argument. Every opening with characters before the next closing bracket is a
candidate. A search takes the first candidate from the place reached and goes on behind it, or
behind its opening alone if it is refused. Such a search comes to an end, it yields the calls, and
what it yields is every candidate that is not refused and does not begin inside an earlier call.
-/
namespace RequireInjection
namespace CallPattern

/-- The opening of a call, one or more characters, and the first closing bracket behind them. -/
def Candidate (source : Text) (m : Match) : Prop :=
  ∃ before inner after, source = before ++ (Piece.opening ++ inner) ∧ m.start = before.size ∧
    inner = m.argument ++ ')' :: after ∧ ')' ∉ m.argument ∧ m.argument ≠ []

/-- The argument begins with a quote and one of the paths. -/
def Refuses (paths : List Text) (argument : Text) : Prop :=
  ∃ path ∈ paths, ∃ q, isQuote q ∧ (q :: path) <+: argument

structure First (source : Text) (place : Nat) (m : Match) : Prop where
  candidate : Candidate source m
  behind : place ≤ m.start
  first : ∀ m', Candidate source m' → place ≤ m'.start → m.start ≤ m'.start

/-- What a search from a place on yields. -/
inductive Search (source : Text) (paths : List Text) : Nat → List Match → Prop where
  | exhausted {place : Nat} (absent : ∀ m, Candidate source m → m.start < place) :
      Search source paths place []
  | accepted {place : Nat} {m : Match} {ms : List Match} (next : First source place m)
      (kept : ¬ Refuses paths m.argument) (rest : Search source paths m.stop ms) :
      Search source paths place (m :: ms)
  | refused {place : Nat} {m : Match} {ms : List Match} (next : First source place m)
      (excluded : Refuses paths m.argument)
      (rest : Search source paths (m.start + Piece.opening.size) ms) :
      Search source paths place ms

section Candidates

variable {source : Text} {paths : List Text} {m m' : Match}

theorem finds_iff_candidate :
    (anyArgument paths).Finds source m ↔ Candidate source m ∧ ¬ Refuses paths m.argument := by
  constructor
  · rintro ⟨before, rest, whole, hstart, found⟩
    simp only [argumentAt?] at found
    split at found
    · cases found
    · rename_i inner stripped
      obtain ⟨found, kept⟩ := Option.filter_eq_some_iff.mp found
      obtain ⟨nonempty, no_closing, after, hinner⟩ := anyArgument?_eq_some.mp found
      have opened := Text.eq_append_of_stripPrefix? stripped
      rw [opened] at whole
      refine ⟨⟨before, inner, after, whole, hstart, hinner, no_closing, nonempty⟩, ?_⟩
      intro refuses
      have excluded := isExcluded_iff.mpr refuses
      simp [excluded] at kept
  · rintro ⟨⟨before, inner, after, whole, hstart, hinner, no_closing, nonempty⟩, kept⟩
    refine ⟨before, _, whole, hstart, ?_⟩
    simp only [argumentAt?, Text.stripPrefix?_append]
    refine Option.filter_eq_some_iff.mpr ⟨?_, ?_⟩
    · exact anyArgument?_eq_some.mpr ⟨nonempty, no_closing, after, hinner⟩
    · have open_argument : isExcluded paths m.argument ≠ true := mt isExcluded_iff.mp kept
      simpa using open_argument

theorem finds_of_candidate (h : Candidate source m) : (anyArgument []).Finds source m := by
  apply finds_iff_candidate.mpr
  exact ⟨h, by simp [Refuses]⟩

theorem Candidate.determined (h : Candidate source m) (h' : Candidate source m')
    (same : m.start = m'.start) : m = m' :=
  (finds_of_candidate h).determined (finds_of_candidate h') same

theorem Candidate.source_eq (h : Candidate source m) :
    ∃ before after, source = before ++ (m.text ++ after) ∧ m.start = before.size :=
  (finds_of_candidate h).source_eq

theorem Match.opening_lt_stop (m : Match) : m.start + Piece.opening.size < m.stop := by
  simp only [Match.stop, Match.text, Piece.text, Text.size_append, Text.size_cons]
  have := Char.utf8Size_pos ')'
  omega

theorem Candidate.stop_le (h : Candidate source m) : m.stop ≤ source.size := by
  obtain ⟨before, after, whole, hstart⟩ := h.source_eq
  rw [whole, Match.stop, hstart]
  simp only [Text.size_append]
  omega

theorem Candidate.slice_argument (h : Candidate source m) :
    source.slice (m.start + Piece.opening.size) (m.stop - 1) = m.argument :=
  (finds_of_candidate h).slice_argument

theorem opening_behind {gap rest rest' : Text}
    (same : Piece.opening ++ rest = gap ++ (Piece.opening ++ rest')) :
    gap = [] ∨ Piece.opening.size ≤ gap.size := by
  rcases List.append_eq_append_iff.mp same with ⟨more, hgap, -⟩ | ⟨back, hopening, hrest⟩
  · rw [hgap, Text.size_append]
    exact Or.inr (Nat.le_add_right _ _)
  · -- An overlap is both an end and a beginning of the opening: a border of it.
    have ends : back ∈ Piece.opening.tails := (List.mem_tails _ _).mpr ⟨gap, hopening.symm⟩
    have begins : back <+: Piece.opening := by
      refine List.prefix_of_prefix_length_le (hrest ▸ List.prefix_append back rest)
        (List.prefix_append _ _) ?_
      rw [hopening, List.length_append]
      omega
    have borders : ∀ tail ∈ Piece.opening.tails, tail <+: Piece.opening →
        tail = [] ∨ tail = Piece.opening := by decide
    rcases borders back ends begins with nothing | whole
    · rw [nothing, List.append_nil] at hopening
      exact Or.inr (by rw [hopening])
    · rw [whole] at hopening
      exact Or.inl (List.append_left_eq_self.mp hopening.symm)

theorem Candidate.opening_le (h : Candidate source m) (h' : Candidate source m')
    (later : m.start < m'.start) : m.start + Piece.opening.size ≤ m'.start := by
  obtain ⟨before, inner, -, whole, hstart, -⟩ := h
  obtain ⟨before', inner', -, whole', hstart', -⟩ := h'
  have boundary : Text.IsBoundary (before ++ (Piece.opening ++ inner)) m'.start :=
    Text.isBoundary_iff.mpr ⟨before', Piece.opening ++ inner', whole ▸ whole', hstart'.symm⟩
  obtain ⟨gap, after, hinner, hgap⟩ := Text.cut_behind boundary (by omega)
  have same : after = Piece.opening ++ inner' := by
    have halves : (before ++ gap) ++ after = before' ++ (Piece.opening ++ inner') := by
      rw [← whole', whole, hinner, List.append_assoc]
    exact Text.append_inj_size halves (by rw [Text.size_append, ← hgap, hstart'])
  rw [same] at hinner
  rcases opening_behind hinner with nothing | far
  · rw [nothing, Text.size_nil] at hgap
    omega
  · omega

end Candidates

section Searches

variable {source : Text} {paths : List Text} {place : Nat} {ms : List Match}

theorem exists_first (h : ∃ m, Candidate source m ∧ place ≤ m.start) :
    ∃ m, First source place m := by
  classical
  have starts : ∃ n m, Candidate source m ∧ place ≤ m.start ∧ m.start = n := by
    obtain ⟨m, candidate, behind⟩ := h
    exact ⟨m.start, m, candidate, behind, rfl⟩
  obtain ⟨m, candidate, behind, least⟩ := Nat.find_spec starts
  refine ⟨m, candidate, behind, ?_⟩
  intro m' candidate' behind'
  rw [least]
  exact Nat.find_min' starts ⟨m', candidate', behind', rfl⟩

theorem exists_search (source : Text) (paths : List Text) (place : Nat) :
    ∃ ms, Search source paths place ms := by
  induction left : source.size - place using Nat.strongRecOn generalizing place with
  | ind left ih =>
    by_cases more : ∃ m, Candidate source m ∧ place ≤ m.start
    · obtain ⟨m, next⟩ := exists_first more
      have inside := next.candidate.stop_le
      have behind := next.behind
      have ahead := m.opening_lt_stop
      have opening : 0 < Piece.opening.size := by decide
      by_cases excluded : Refuses paths m.argument
      · obtain ⟨ms, rest⟩ := ih _ (by omega) (m.start + Piece.opening.size) rfl
        exact ⟨ms, .refused next excluded rest⟩
      · obtain ⟨ms, rest⟩ := ih _ (by omega) m.stop rfl
        exact ⟨m :: ms, .accepted next excluded rest⟩
    · refine ⟨[], .exhausted ?_⟩
      intro m candidate
      by_contra reached
      exact more ⟨m, candidate, by omega⟩

theorem Search.leftmost (h : Search source paths place ms) :
    Leftmost ((anyArgument paths).Finds source) place ms := by
  induction h with
  | exhausted absent =>
    apply Leftmost.none
    intro m found
    exact absent m (finds_iff_candidate.mp found).1
  | accepted next kept rest ih =>
    refine .next (finds_iff_candidate.mpr ⟨next.candidate, kept⟩) next.behind ?_ ih
    intro m' found behind
    exact next.first m' (finds_iff_candidate.mp found).1 behind
  | @refused place m ms next excluded rest ih =>
    have behind := next.behind
    refine ih.from_earlier (by omega) ?_
    intro m' found reached
    obtain ⟨candidate, kept⟩ := finds_iff_candidate.mp found
    have start_le := next.first m' candidate reached
    have differ : m.start ≠ m'.start := by
      intro same
      rw [next.candidate.determined candidate same] at excluded
      exact kept excluded
    exact next.candidate.opening_le candidate (by omega)

theorem search_iff (source : Text) (paths : List Text) (ms : List Match) :
    Search source paths 0 ms ↔ ms = (anyArgument paths).calls source := by
  have found : ∀ ms, Search source paths 0 ms → ms = (anyArgument paths).calls source := by
    intro ms search
    exact (leftmost_iff _ source ms).mp search.leftmost
  constructor
  · exact found ms
  · rintro rfl
    obtain ⟨ms, search⟩ := exists_search source paths 0
    rw [← found ms search]
    exact search

end Searches

section Leftmost

variable {IsMatch : Match → Prop} {place : Nat} {ms : List Match}

theorem Leftmost.ascending (h : Leftmost IsMatch place ms) :
    ms.Pairwise fun m m' => m.start < m'.start ∧ m.stop ≤ m'.start := by
  induction h with
  | none absent => exact List.Pairwise.nil
  | @next place m ms found behind first rest ih =>
    apply List.Pairwise.cons _ ih
    intro m' member
    have reached := rest.behind m' member
    have := m.opening_lt_stop
    exact ⟨by omega, reached⟩

/-- The chosen matches are those that begin inside no earlier chosen one. -/
theorem Leftmost.mem_iff
    (determined : ∀ m m', IsMatch m → IsMatch m' → m.start = m'.start → m = m')
    (h : Leftmost IsMatch place ms) (m : Match) : m ∈ ms ↔
      IsMatch m ∧ place ≤ m.start ∧ ∀ m' ∈ ms, ¬ (m'.start < m.start ∧ m.start < m'.stop) := by
  constructor
  · intro member
    refine ⟨h.is_match m member, h.behind m member, ?_⟩
    rintro m' member' ⟨earlier, inside⟩
    have apart := h.apart member' member earlier
    omega
  · rintro ⟨found, behind, clear⟩
    refine h.mem_of_clear determined found behind ?_
    intro m' member' earlier
    by_contra covered
    exact clear m' member' ⟨earlier, by omega⟩

end Leftmost

theorem paths_of_all {filters : FilterSet} (all : filters.mode = .all) : filters.paths = [] := by
  simp only [FilterSet.mode] at all
  split at all
  · rename_i nothing
    simp [FilterSet.paths, List.isEmpty_iff.mp nothing, Entries.keys]
  · split at all <;> cases all

theorem ofFilters_broad {filters : FilterSet}
    (broad : filters.mode = .all ∨ filters.mode = .allExcept) :
    ofFilters filters = anyArgument filters.paths := by
  rcases broad with all | allExcept
  · simp [ofFilters, all, paths_of_all all]
  · simp [ofFilters, allExcept]

/-- In a set that is empty or excludes its paths, the search ends with the calls. They stand in
order and apart from each other, and they are the candidates that begin inside no other call and, if
paths are excluded, have no argument that begins with a quote and one of these. -/
theorem broad_calls_exact (filters : FilterSet) (source : Text)
    (broad : filters.mode = .all ∨ filters.mode = .allExcept) :
    let found := (ofFilters filters).calls source
    (∀ ms, Search source filters.paths 0 ms ↔ ms = found) ∧
      (found.Pairwise fun m m' => m.start < m'.start ∧ m.stop ≤ m'.start) ∧
      (∀ m, m ∈ found ↔ Candidate source m ∧
        (filters.mode = .allExcept → ¬ Refuses filters.paths m.argument) ∧
        ∀ m' ∈ found, ¬ (m'.start < m.start ∧ m.start < m'.stop)) ∧
      ∀ m ∈ found, source.slice (m.start + Piece.opening.size) (m.stop - 1) = m.argument := by
  intro found
  have pattern : found = (anyArgument filters.paths).calls source := by
    simp only [found, ofFilters_broad broad]
  have leftmost := calls_leftmost (anyArgument filters.paths) source
  rw [← pattern] at leftmost
  -- Where no path is left out the refusals are void, which makes the two modes one pattern.
  have refusals : ∀ m : Match, ¬ Refuses filters.paths m.argument ↔
      (filters.mode = .allExcept → ¬ Refuses filters.paths m.argument) := by
    intro m
    rcases broad with all | allExcept
    · simp [all, paths_of_all all, Refuses]
    · simp [allExcept]
  have members : ∀ m, m ∈ found ↔ Candidate source m ∧
      (filters.mode = .allExcept → ¬ Refuses filters.paths m.argument) ∧
      ∀ m' ∈ found, ¬ (m'.start < m.start ∧ m.start < m'.stop) := by
    intro m
    rw [leftmost.mem_iff (fun _ _ => Finds.determined) m, finds_iff_candidate, ← refusals m]
    constructor
    · rintro ⟨⟨candidate, kept⟩, -, clear⟩
      exact ⟨candidate, kept, clear⟩
    · rintro ⟨candidate, kept, clear⟩
      exact ⟨⟨candidate, kept⟩, Nat.zero_le _, clear⟩
  refine ⟨?_, leftmost.ascending, members, ?_⟩
  · intro ms
    rw [pattern]
    exact search_iff source filters.paths ms
  · intro m member
    exact ((members m).mp member).1.slice_argument

/-- A refused call, an empty one, one across lines inside it, and one without an end. -/
theorem refused_call_searched :
    let filters := FilterSet.empty.insert ['a'] (.bool true)
    let source : Text := "é require('a' + require()require(\nb)) require(c"
    filters.mode = .allExcept ∧ ((ofFilters filters).calls source = [⟨26, "\nb".toList⟩] ∧
      Search source filters.paths 0 [⟨26, "\nb".toList⟩] ∧
      ∀ m, m ∈ (ofFilters filters).calls source ↔ Candidate source m ∧
        (filters.mode = .allExcept → ¬ Refuses filters.paths m.argument) ∧
        ∀ m' ∈ (ofFilters filters).calls source, ¬ (m'.start < m.start ∧ m.start < m'.stop)) := by
  intro filters source
  have mode : filters.mode = .allExcept := by decide
  have calls : (ofFilters filters).calls source = [⟨26, "\nb".toList⟩] := by decide
  obtain ⟨search, -, members, -⟩ := broad_calls_exact filters source (Or.inr mode)
  exact ⟨mode, calls, (search _).mpr calls.symm, members⟩

end CallPattern
end RequireInjection
