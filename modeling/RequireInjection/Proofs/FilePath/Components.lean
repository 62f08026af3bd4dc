import RequireInjection.Proofs.FilePath.Names

namespace RequireInjection.FilePath

inductive Component where
  | root
  | here
  | above
  | name (n : Text)
  deriving DecidableEq, Repr

def Component.ofName (n : Text) : Component := if n = dotDot then above else name n

def components (path : Text) : List Component :=
  let named := (names path).map Component.ofName
  if isAbsolute path then .root :: named
  else if (segments path).head? = some dot then .here :: named
  else named

def below? (directory path : Text) : Option (List Component) :=
  if components directory <+: components path then
    some ((components path).drop (components directory).length)
  else none

def lastName (path : Text) : Location :=
  match (components path).getLast? with
  | some (.name n) => [n]
  | _ => []

/-- What follows the last dot of a name, unless that dot begins the name. -/
def HasExtension (name extension : Text) : Prop :=
  ∃ stem, stem ≠ [] ∧ name = stem ++ '.' :: extension ∧ '.' ∉ extension

variable {path directory n e : Text} {l : Location}

section Extension

theorem extensionOf?_append {stem : Text} (plain : '.' ∉ e) :
    extensionOf? (stem ++ '.' :: e) = if stem = [] then none else some e := by
  have backwards : (stem ++ '.' :: e).reverse = e.reverse ++ '.' :: stem.reverse := by simp
  have after : (stem ++ '.' :: e).reverse.takeWhile (· != '.') = e.reverse := by
    rw [backwards, List.takeWhile_append_of_pos]
    · simp
    · intro c member
      have other : c ≠ '.' := fun dotted => plain (dotted ▸ List.mem_reverse.mp member)
      simpa using other
  have long : (stem ++ '.' :: e).length ≤ e.reverse.length + 1 ↔ stem = [] := by
    rw [← List.length_eq_zero_iff, List.length_append, List.length_cons, List.length_reverse]
    omega
  simp only [extensionOf?, after, long, List.reverse_reverse]

theorem extensionOf?_eq_some : extensionOf? n = some e ↔ HasExtension n e := by
  constructor
  · intro found
    rcases Text.notMem_or_eq_append '.' n.reverse with plain | ⟨last, above, backwards, plain⟩
    · have after : n.reverse.takeWhile (· != '.') = n.reverse := by
        rw [List.takeWhile_eq_self_iff]
        intro c member
        have other : c ≠ '.' := fun dotted => plain (dotted ▸ member)
        simpa using other
      simp [extensionOf?, after] at found
    · have whole : n = above.reverse ++ '.' :: last.reverse := by
        rw [← List.reverse_reverse n, backwards]
        simp
      rw [whole, extensionOf?_append (by simpa using plain)] at found
      split at found
      · cases found
      · rename_i proper
        cases found
        exact ⟨above.reverse, proper, whole, by simpa using plain⟩
  · rintro ⟨stem, proper, rfl, plain⟩
    rw [extensionOf?_append plain, if_neg proper]

end Extension

section Components

theorem map_ofName (named : Named l) : l.map Component.ofName = l.map .name := by
  apply List.map_congr_left
  intro n member
  exact if_neg (named n member).2.2.1

theorem head?_segments_append (front back : Text) :
    (segments (front ++ '/' :: back)).head? = (segments front).head? := by
  obtain ⟨first, rest, parts⟩ : ∃ first rest, segments front = first :: rest := by
    rw [segments_eq]
    exact List.exists_cons_of_ne_nil (List.splitOnP_ne_nil _ _)
  rw [segments_append, parts, List.cons_append, List.head?_cons, List.head?_cons]

theorem head?_segments_join (named : Named l) :
    (segments (join directory (Text.join ['/'] l))).head? = some dot ↔
      (segments directory).head? = some dot := by
  rw [join, if_neg (by simp [not_isAbsolute_join named])]
  by_cases bare : directory = []
  · subst directory
    rw [if_pos (by simp), List.nil_append]
    cases l with
    | nil => rfl
    | cons n ns =>
      rw [segments_join_names named (by simp), List.head?_cons, Option.some.injEq]
      constructor
      · intro dotted
        exact absurd dotted (named n (by simp)).2.1
      · intro dotted
        cases dotted
  · by_cases slashed : directory.getLast? = some '/'
    · obtain ⟨front, rfl⟩ := List.getLast?_eq_some_iff.mp slashed
      have whole : (front ++ ['/']) ++ Text.join ['/'] l = front ++ '/' :: Text.join ['/'] l := by
        simp
      rw [if_pos (by simp), whole, head?_segments_append, head?_segments_append]
    · rw [if_neg (by simpa [slashed] using bare), head?_segments_append]

theorem components_join (named : Named l) :
    components (join directory (Text.join ['/'] l)) = components directory ++ l.map .name := by
  have relative := not_isAbsolute_join named
  simp only [components, isAbsolute_join directory relative, names_join directory relative,
    names_join_names named, head?_segments_join named, List.map_append, map_ofName named]
  split
  · rfl
  · split <;> rfl

theorem below?_eq_some {more : List Component}
    (whole : components path = components directory ++ more) :
    below? directory path = some more := by
  rw [below?, whole, if_pos (List.prefix_append _ _), List.drop_left]

theorem components_eq (path : Text) : ∃ start,
    components path = start ++ (names path).map Component.ofName ∧ ∀ n, .name n ∉ start := by
  rw [components]
  split
  · exact ⟨[.root], rfl, by simp⟩
  · split
    · exact ⟨[.here], rfl, by simp⟩
    · exact ⟨[], rfl, by simp⟩

theorem name_mem_components (forward : n ≠ dotDot) :
    .name n ∈ components path ↔ n ∈ names path := by
  obtain ⟨start, whole, unnamed⟩ := components_eq path
  rw [whole, List.mem_append, List.mem_map]
  constructor
  · rintro (first | ⟨m, member, same⟩)
    · exact absurd first (unnamed n)
    · rw [Component.ofName] at same
      split at same
      · cases same
      · cases same
        exact member
  · intro member
    exact Or.inr ⟨n, member, if_neg forward⟩

theorem lastName_eq (path : Text) : lastName path = (fileName? path).toList := by
  obtain ⟨start, whole, unnamed⟩ := components_eq path
  rw [lastName, fileName?, whole]
  rcases List.eq_nil_or_concat (names path) with none | ⟨above, n, names⟩
  · rw [none, List.map_nil, List.append_nil]
    split
    · rename_i m last
      exact absurd (List.mem_of_getLast? last) (unnamed m)
    · rfl
  · rw [names, List.concat_eq_append, List.map_append, ← List.append_assoc, List.map_singleton,
      List.getLast?_concat, List.getLast?_concat]
    by_cases upward : n = dotDot
    · simp [Component.ofName, upward]
    · simp [Component.ofName, upward, Option.filter]

end Components

end RequireInjection.FilePath
