import RequireInjection.FileTree
import RequireInjection.Proofs.Text.Splitting

namespace RequireInjection

def Named (l : Location) : Prop := ∀ n ∈ l, IsName n

namespace FilePath

variable {path parent front back : Text}

theorem segments_eq (path : Text) : segments path = path.splitOnP (· = '/') :=
  Text.splitBy_eq_splitOnP _ path

theorem segments_of_noSlash (plain : '/' ∉ path) : segments path = [path] := by
  rw [segments_eq]
  refine List.splitOnP_eq_singleton fun c member => ?_
  exact decide_eq_false fun slash => plain (slash ▸ member)

theorem segments_append (front back : Text) :
    segments (front ++ '/' :: back) = segments front ++ segments back := by
  rw [segments_eq, segments_eq, segments_eq]
  exact List.splitOnP_append_cons front back (decide_eq_true rfl)

theorem noSlash_of_mem_segments {segment : Text} (member : segment ∈ segments path) :
    '/' ∉ segment := by
  induction path generalizing segment with
  | nil =>
    have : segment = [] := by simpa [segments, Text.splitBy] using member
    simp [this]
  | cons c cs ih =>
    rw [segments_eq, List.splitOnP_cons_eq_if_modifyHead, ← segments_eq] at member
    by_cases slash : c = '/'
    · rw [if_pos (by simpa using slash)] at member
      rcases List.mem_cons.mp member with rfl | later
      · simp
      · exact ih later
    · rw [if_neg (by simpa using slash)] at member
      cases rest : segments cs with
      | nil => simp [rest] at member
      | cons first others =>
        rw [rest, List.modifyHead_cons] at member
        rcases List.mem_cons.mp member with rfl | later
        · have : '/' ∉ first := ih (by simp [rest])
          simp [Ne.symm slash, this]
        · exact ih (by simp [rest, later])

theorem names_append (front back : Text) :
    names (front ++ '/' :: back) = names front ++ names back := by
  rw [names, segments_append, List.filter_append]
  rfl

theorem names_nil : names [] = [] := rfl

theorem names_slash_behind (path : Text) : names (path ++ ['/']) = names path := by
  rw [names_append, names_nil, List.append_nil]

theorem names_dot_behind (path : Text) : names (path ++ ['/', '.']) = names path := by
  have nothing : names ['.'] = [] := rfl
  rw [names_append path ['.'], nothing, List.append_nil]

theorem names_of_noSlash (plain : '/' ∉ path) (named : path ≠ []) (other : path ≠ dot) :
    names path = [path] := by
  rw [names, segments_of_noSlash plain]
  cases path with
  | nil => exact absurd rfl named
  | cons c cs => simp [other]

theorem mem_names {name : Text} (member : name ∈ names path) :
    name ≠ [] ∧ name ≠ dot ∧ '/' ∉ name := by
  obtain ⟨among, proper⟩ := List.mem_filter.mp member
  have both : name ≠ [] ∧ name ≠ dot := by simpa using proper
  exact ⟨both.1, both.2, noSlash_of_mem_segments among⟩

theorem isName_of_mem_names {name : Text} (member : name ∈ names path) (forward : name ≠ dotDot) :
    IsName name := by
  obtain ⟨named, other, plain⟩ := mem_names member
  exact ⟨named, other, forward, plain⟩

theorem fileName_eq_some {name : Text} :
    fileName? path = some name ↔ (names path).getLast? = some name ∧ name ≠ dotDot := by
  rw [fileName?, Option.filter_eq_some_iff]
  simp

theorem isName_of_fileName {name : Text} (h : fileName? path = some name) : IsName name := by
  obtain ⟨last, forward⟩ := fileName_eq_some.mp h
  exact isName_of_mem_names (List.mem_of_getLast? last) forward

section Join

variable {l : Location}

theorem names_join_names (named : Named l) : names (Text.join ['/'] l) = l := by
  induction l with
  | nil => rfl
  | cons n ns ih =>
    obtain ⟨proper, other, -, plain⟩ := named n (by simp)
    have first := names_of_noSlash plain proper other
    have later := ih fun m member => named m (by simp [member])
    cases ns with
    | nil => exact first
    | cons m ms =>
      have split : Text.join ['/'] (n :: m :: ms) = n ++ '/' :: Text.join ['/'] (m :: ms) := by
        simp [Text.join]
      rw [split, names_append, first, later]
      rfl

theorem not_isAbsolute_join (named : Named l) : isAbsolute (Text.join ['/'] l) = false := by
  cases l with
  | nil => rfl
  | cons n ns =>
    obtain ⟨proper, -, -, plain⟩ := named n (by simp)
    cases n with
    | nil => exact absurd rfl proper
    | cons c cs =>
      have other : c ≠ '/' := fun slash => plain (slash ▸ List.mem_cons_self)
      cases ns <;> simp [Text.join, isAbsolute, other]

theorem names_join (directory : Text) (relative : isAbsolute path = false) :
    names (join directory path) = names directory ++ names path := by
  rw [join, if_neg (by simp [relative])]
  by_cases bare : directory = []
  · simp [bare, names_nil]
  · by_cases slashed : directory.getLast? = some '/'
    · obtain ⟨front, rfl⟩ := List.getLast?_eq_some_iff.mp slashed
      have whole : (front ++ ['/']) ++ path = front ++ '/' :: path := by simp
      rw [if_pos (by simp), whole, names_append, names_slash_behind]
    · rw [if_neg (by simpa [slashed] using bare), names_append]

theorem isAbsolute_join (directory : Text) (relative : isAbsolute path = false) :
    isAbsolute (join directory path) = isAbsolute directory := by
  rw [join, if_neg (by simp [relative])]
  cases directory with
  | nil => simpa [isAbsolute] using relative
  | cons c cs =>
    split
    · rfl
    · rfl

end Join

section LastName

variable {n : Text} {l : Location}

def EndsIn (path n : Text) : Prop := IsName n ∧ ∃ front, segments path = front ++ [n]

theorem EndsIn.dropLast_names (ends : EndsIn path n) : ∃ front, segments path = front ++ [n] ∧
    (names path).dropLast = front.filter fun s => !s.isEmpty && s != dot := by
  obtain ⟨⟨proper, other, -, -⟩, front, parts⟩ := ends
  refine ⟨front, parts, ?_⟩
  rw [names, parts, List.filter_append, List.filter_cons_of_pos (by simp [proper, other])]
  exact List.dropLast_concat

theorem EndsIn.names_eq (ends : EndsIn path n) : names path = (names path).dropLast ++ [n] := by
  obtain ⟨front, parts, above⟩ := ends.dropLast_names
  obtain ⟨⟨proper, other, -, -⟩, -⟩ := ends
  rw [above, names, parts, List.filter_append, List.filter_cons_of_pos (by simp [proper, other])]
  rfl

theorem EndsIn.fileName_eq (ends : EndsIn path n) : fileName? path = some n := by
  refine fileName_eq_some.mpr ⟨?_, ends.1.2.2.1⟩
  rw [ends.names_eq]
  exact List.getLast?_concat

theorem EndsIn.ne_nil (ends : EndsIn path n) : path ≠ [] := by
  rintro rfl
  cases ends.fileName_eq

theorem segments_join_names (named : Named l) (proper : l ≠ []) :
    segments (Text.join ['/'] l) = l := by
  induction l with
  | nil => exact absurd rfl proper
  | cons n ns ih =>
    have first := segments_of_noSlash (named n (by simp)).2.2.2
    cases ns with
    | nil => exact first
    | cons m ms =>
      have split : Text.join ['/'] (n :: m :: ms) = n ++ '/' :: Text.join ['/'] (m :: ms) := by
        simp [Text.join]
      rw [split, segments_append, first, ih (fun k hk => named k (by simp [hk])) (by simp)]
      rfl

theorem segments_join (directory : Text) (relative : isAbsolute path = false) :
    ∃ above, segments (join directory path) = above ++ segments path := by
  rw [join, if_neg (by simp [relative])]
  by_cases bare : directory = []
  · exact ⟨[], by simp [bare]⟩
  · by_cases slashed : directory.getLast? = some '/'
    · obtain ⟨front, rfl⟩ := List.getLast?_eq_some_iff.mp slashed
      have whole : (front ++ ['/']) ++ path = front ++ '/' :: path := by simp
      rw [if_pos (by simp), whole, segments_append]
      exact ⟨_, rfl⟩
    · rw [if_neg (by simpa [slashed] using bare), segments_append]
      exact ⟨_, rfl⟩

theorem endsIn_join (directory : Text) (named : Named (l ++ [n])) :
    EndsIn (join directory (Text.join ['/'] (l ++ [n]))) n := by
  obtain ⟨above, parts⟩ := segments_join directory (not_isAbsolute_join named)
  refine ⟨named n (by simp), above ++ l, ?_⟩
  rw [parts, segments_join_names named (by simp), List.append_assoc]

end LastName

section Parent

theorem trimmed_spec (backwards : Text) :
    names (trimmed backwards).reverse = names backwards.reverse ∧
      isAbsolute (trimmed backwards).reverse = isAbsolute backwards.reverse ∧
      (trimmed backwards).length ≤ backwards.length := by
  fun_induction trimmed backwards with
  | case1 rest ih =>
    have dotted : ('.' :: '/' :: rest).reverse = rest.reverse ++ ['/', '.'] := by simp
    have slashed : ('/' :: rest).reverse = rest.reverse ++ ['/'] := by simp
    rw [slashed, names_slash_behind] at ih
    rw [dotted, names_dot_behind]
    refine ⟨ih.1, ih.2.1.trans ?_, by have := ih.2.2; simp at this ⊢; omega⟩
    cases rest.reverse <;> rfl
  | case2 c rest ih =>
    have slashed : ('/' :: c :: rest).reverse = (c :: rest).reverse ++ ['/'] := by simp
    rw [slashed, names_slash_behind]
    refine ⟨ih.1, ih.2.1.trans ?_, by have := ih.2.2; simp at this ⊢; omega⟩
    cases behind : (c :: rest).reverse with
    | nil => simp at behind
    | cons d ds => rfl
  | case3 path _ _ => exact ⟨rfl, rfl, Nat.le_refl _⟩

theorem trimmed_shape (backwards : Text) :
    trimmed backwards = ['/'] ∨ (∀ rest, trimmed backwards ≠ '/' :: rest) ∧
      ∀ rest, trimmed backwards ≠ '.' :: '/' :: rest := by
  fun_induction trimmed backwards with
  | case1 rest ih => exact ih
  | case2 c rest ih => exact ih
  | case3 path undotted unslashed =>
    by_cases root : path = ['/']
    · exact Or.inl root
    · refine Or.inr ⟨?_, ?_⟩
      · rintro (_ | ⟨c, rest⟩) rfl
        · exact root rfl
        · exact unslashed c rest rfl
      · rintro rest rfl
        exact undotted rest rfl

theorem names_of_parent_none (h : parent? path = none) : names path = [] := by
  have same := (trimmed_spec path.reverse).1
  rw [List.reverse_reverse] at same
  simp only [parent?, ite_eq_left_iff, reduceCtorEq, imp_false, not_not] at h
  rw [← same]
  rcases Bool.or_eq_true_iff.mp h with nothing | root
  · rw [List.isEmpty_iff.mp nothing]
    rfl
  · rw [of_decide_eq_true root]
    rfl

theorem names_of_parent (h : parent? path = some parent) :
    names parent = (names path).dropLast ∧ isAbsolute parent = isAbsolute path ∧
      parent.length < path.length := by
  obtain ⟨same, start, shorter⟩ := trimmed_spec path.reverse
  rw [List.reverse_reverse] at same start
  rw [List.length_reverse] at shorter
  have shape := trimmed_shape path.reverse
  simp only [parent?] at h
  generalize trimmed path.reverse = backwards at same start shorter shape h
  split at h
  · cases h
  · rename_i proper
    have nonempty : backwards ≠ [] ∧ backwards ≠ ['/'] := by simpa using proper
    obtain ⟨unslashed, undotted⟩ := shape.resolve_left nonempty.2
    obtain ⟨names_above, start_above, shorter_above⟩ :=
      trimmed_spec (backwards.dropWhile (· != '/'))
    cases h
    rw [names_above, start_above, ← same, ← start, List.length_reverse]
    rcases Text.notMem_or_eq_append '/' backwards with plain | ⟨last, above, rfl, plain⟩
    · -- the only name of the path; there is nothing above it
      have nothing : backwards.dropWhile (· != '/') = [] := by
        refine List.dropWhile_eq_nil_iff.mpr fun c member => ?_
        simpa using fun slash : c = '/' => plain (slash ▸ member)
      have plain_path : '/' ∉ backwards.reverse := mt List.mem_reverse.mp plain
      rw [nothing] at shorter_above ⊢
      refine ⟨?_, ?_, ?_⟩
      · by_cases dotted : backwards.reverse = dot
        · rw [dotted]
          rfl
        · rw [names_of_noSlash plain_path (by simpa using nonempty.1) dotted]
          rfl
      · cases front : backwards.reverse with
        | nil => rfl
        | cons c cs =>
          rw [front] at plain_path
          have other : c ≠ '/' := fun slash => plain_path (slash ▸ List.mem_cons_self)
          simp [isAbsolute, other]
      · have := List.length_pos_iff.mpr nonempty.1
        simp only [List.length_nil] at shorter_above
        omega
    · have rest : (last ++ '/' :: above).dropWhile (· != '/') = '/' :: above := by
        rw [List.dropWhile_append_of_pos]
        · simp
        · intro c member
          simpa using fun slash : c = '/' => plain (slash ▸ member)
      have named : last ≠ [] := by
        rintro rfl
        exact unslashed above rfl
      have other : last.reverse ≠ dot := by
        intro dotted
        have : last = dot := by simpa [dot] using congrArg List.reverse dotted
        exact undotted above (by rw [this]; rfl)
      have whole : (last ++ '/' :: above).reverse = above.reverse ++ '/' :: last.reverse := by simp
      have slashed : ('/' :: above).reverse = above.reverse ++ ['/'] := by simp
      have last_names : names last.reverse = [last.reverse] :=
        names_of_noSlash (mt List.mem_reverse.mp plain) (by simpa using named) other
      rw [rest] at shorter_above ⊢
      refine ⟨?_, ?_, ?_⟩
      · rw [slashed, names_slash_behind, whole, names_append, last_names, List.dropLast_concat]
      · rw [slashed, whole]
        cases above.reverse <;> rfl
      · have := List.length_pos_iff.mpr named
        simp only [List.length_append, List.length_cons] at shorter shorter_above
        omega

end Parent

end FilePath
end RequireInjection
