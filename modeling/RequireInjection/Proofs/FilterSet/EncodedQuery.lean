import RequireInjection.Proofs.FilterSet.PlainQuery
import RequireInjection.Proofs.Percent.Escaping

namespace RequireInjection
namespace FilterSet

def IsFlat (flag : Json) : Prop :=
  (∃ t, Spelled flag t) ∨ ∃ vs, flag = .array vs ∧ vs ≠ [] ∧ ∀ v ∈ vs, ∃ t, Spelled v t

def Assigns (mark name : Text) (v : Json) (segment : Text) : Prop :=
  ∃ t writtenName written, Spelled v t ∧ Percent.Encodes name writtenName ∧
    Percent.Encodes t written ∧ segment = (writtenName ++ mark) ++ '=' :: written

/-- The segments of an entry: one for a scalar, and one for each member of an array. -/
inductive Segmented (name : Text) : Json → List Text → Prop where
  | scalar {flag : Json} {segment : Text} (assigns : Assigns [] name flag segment) :
      Segmented name flag [segment]
  | array {vs : List Json} {written : List Text} (nonempty : vs ≠ [])
      (assigns : List.Forall₂ (Assigns ['[', ']'] name) vs written) :
      Segmented name (.array vs) written

def separators : List Char := [',', '&']

/-- Segments with one or more separators between neighbours, and any number of them around. -/
inductive Joined : List Text → Text → Prop where
  | nothing : Joined [] []
  | separator {segments : List Text} {body : Text} (c : Char) (separates : c ∈ separators)
      (rest : Joined segments body) : Joined segments (c :: body)
  | last (segment : Text) : Joined [segment] segment
  | next {segments : List Text} {body : Text} (segment : Text) (c : Char)
      (separates : c ∈ separators) (rest : Joined segments body) :
      Joined (segment :: segments) (segment ++ c :: body)

/-- Entries written as the body of a query. -/
def Rendered (entries : Entries Text Json) (body : Text) : Prop :=
  ∃ written : List (List Text),
    List.Forall₂ (fun e segments => Segmented e.1 e.2 segments) entries written ∧
      Joined written.flatten body

section Segments

variable {name t segment body mark : Text} {v flag : Json} {segments : List Text}

theorem means_of_assigns (h : Assigns [] name v segment) : Means segment name (.assign v) := by
  obtain ⟨t, writtenName, written, spelled, names, values, rfl⟩ := h
  rw [List.append_nil]
  have no_bracket : ']' ∉ writtenName :=
    Percent.notMem_encodes names (by decide) (by decide)
  refine .assign (Percent.notMem_encodes names (by decide) (by decide)) ?_
    (Percent.decode_of_encodes names) (Percent.decode_of_encodes values) spelled
  intro ends
  exact no_bracket (ends.subset (by simp))

theorem means_of_appends (h : Assigns ['[', ']'] name v segment) :
    Means segment name (.append v) := by
  obtain ⟨t, writtenName, written, spelled, names, values, rfl⟩ := h
  exact .append (Percent.notMem_encodes names (by decide) (by decide))
    (Percent.decode_of_encodes names) (Percent.decode_of_encodes values) spelled

def readingsOf (name : Text) : Json → List (Text × Setter)
  | .array vs => vs.map fun v => (name, .append v)
  | flag => [(name, .assign flag)]

theorem means_of_segmented (h : Segmented name flag segments) :
    List.Forall₂ (fun segment r => Means segment r.1 r.2) segments (readingsOf name flag) := by
  cases h with
  | scalar assigns =>
    have scalar : readingsOf name flag = [(name, .assign flag)] := by
      obtain ⟨t, -, -, spelled, -⟩ := assigns
      cases spelled <;> rfl
    rw [scalar]
    exact .cons (means_of_assigns assigns) .nil
  | array nonempty assigns =>
    clear nonempty
    rw [readingsOf]
    induction assigns with
    | nil => exact .nil
    | cons assign rest ih => exact .cons (means_of_appends assign) ih

theorem clean_of_assigns (marked : ∀ c ∈ mark, c ∈ ['[', ']']) (h : Assigns mark name v segment) :
    segment ≠ [] ∧ '{' ∉ segment ∧ ∀ c ∈ separators, c ∉ segment := by
  obtain ⟨t, writtenName, written, spelled, names, values, rfl⟩ := h
  have absent : ∀ c, c ≠ '%' → c.isAlphanum = false → c ∉ ['[', ']', '='] →
      c ∉ (writtenName ++ mark) ++ '=' :: written := by
    intro c sign letter other member
    simp only [List.mem_append, List.mem_cons] at member
    rcases member with (inName | inMark) | rfl | inValue
    · exact Percent.notMem_encodes names sign letter inName
    · have bracket := marked c inMark
      simp_all
    · simp at other
    · exact Percent.notMem_encodes values sign letter inValue
  refine ⟨by simp, absent '{' (by decide) (by decide) (by decide), ?_⟩
  intro c separates
  have two : c = ',' ∨ c = '&' := by simpa [separators] using separates
  rcases two with rfl | rfl
  · exact absent ',' (by decide) (by decide) (by decide)
  · exact absent '&' (by decide) (by decide) (by decide)

theorem clean_of_segmented (h : Segmented name flag segments) : ∀ segment ∈ segments,
    segment ≠ [] ∧ '{' ∉ segment ∧ ∀ c ∈ separators, c ∉ segment := by
  cases h with
  | scalar assigns =>
    simpa using clean_of_assigns (by simp) assigns
  | array nonempty assigns =>
    clear nonempty
    induction assigns with
    | nil => simp
    | cons assign rest ih =>
      intro segment member
      rcases List.mem_cons.mp member with rfl | later
      · exact clean_of_assigns (by simp) assign
      · exact ih segment later

theorem clean_of_rendered {entries : Entries Text Json} {written : List (List Text)}
    (h : List.Forall₂ (fun e segments => Segmented e.1 e.2 segments) entries written) :
    ∀ segment ∈ written.flatten,
      segment ≠ [] ∧ '{' ∉ segment ∧ ∀ c ∈ separators, c ∉ segment := by
  induction h with
  | nil => simp
  | cons one rest ih =>
    intro segment member
    rcases List.mem_append.mp (List.flatten_cons ▸ member) with here | later
    · exact clean_of_segmented one segment here
    · exact ih segment later

theorem parts_of_joined (joined : Joined segments body)
    (clean : ∀ segment ∈ segments, segment ≠ [] ∧ ∀ c ∈ separators, c ∉ segment) :
    parts body = segments := by
  have kept : ∀ segment : Text, (∀ c ∈ separators, c ∉ segment) →
      ∀ d ∈ segment, (decide (d = ',') || decide (d = '&')) = false := by
    intro segment absent d member
    have no_comma : d ≠ ',' := fun same => absent ',' (by simp [separators]) (same ▸ member)
    have no_ampersand : d ≠ '&' := fun same => absent '&' (by simp [separators]) (same ▸ member)
    simp [no_comma, no_ampersand]
  have cuts : ∀ c ∈ separators, (decide (c = ',') || decide (c = '&')) = true := by
    intro c separates
    simpa [separators] using separates
  simp only [parts]
  induction joined with
  | nothing => simp
  | separator c separates rest ih =>
    rw [List.splitOnP_cons_eq_if_modifyHead, if_pos (cuts c separates)]
    simpa using ih clean
  | last segment =>
    obtain ⟨nonempty, absent⟩ := clean segment (by simp)
    rw [List.splitOnP_eq_singleton (kept segment absent)]
    simp [nonempty]
  | next segment c separates rest ih =>
    obtain ⟨nonempty, absent⟩ := clean segment (by simp)
    have later := ih fun other member => clean other (List.mem_cons_of_mem _ member)
    rw [List.splitOnP_append_cons_of_forall_mem (kept segment absent) c (cuts c separates)]
    simpa [nonempty] using later

theorem brace_notMem_joined (joined : Joined segments body)
    (clean : ∀ segment ∈ segments, '{' ∉ segment) : '{' ∉ body := by
  have other : ∀ c ∈ separators, '{' ≠ c := by simp [separators]
  induction joined with
  | nothing => simp
  | separator c separates rest ih => simpa using ⟨other c separates, ih clean⟩
  | last segment => exact clean segment (by simp)
  | next segment c separates rest ih =>
    have later := ih fun other member => clean other (List.mem_cons_of_mem _ member)
    simpa using ⟨clean segment (by simp), other c separates, later⟩

theorem exists_assigns (mark name : Text) (h : ∃ t, Spelled v t) :
    ∃ segment, Assigns mark name v segment := by
  obtain ⟨t, spelled⟩ := h
  obtain ⟨writtenName, names⟩ := Percent.exists_encodes name
  obtain ⟨written, values⟩ := Percent.exists_encodes t
  exact ⟨_, t, writtenName, written, spelled, names, values, rfl⟩

theorem exists_segmented (name : Text) (flat : IsFlat flag) :
    ∃ segments, Segmented name flag segments := by
  rcases flat with scalar | ⟨vs, rfl, nonempty, scalars⟩
  · obtain ⟨segment, assigns⟩ := exists_assigns [] name scalar
    exact ⟨[segment], .scalar assigns⟩
  · have all : ∃ written, List.Forall₂ (Assigns ['[', ']'] name) vs written := by
      clear nonempty
      induction vs with
      | nil => exact ⟨[], .nil⟩
      | cons v vs ih =>
        obtain ⟨segment, assigns⟩ := exists_assigns ['[', ']'] name (scalars v (by simp))
        obtain ⟨written, rest⟩ := ih fun w member => scalars w (List.mem_cons_of_mem _ member)
        exact ⟨segment :: written, .cons assigns rest⟩
    obtain ⟨written, assigns⟩ := all
    exact ⟨written, .array nonempty assigns⟩

theorem exists_joined (segments : List Text) : ∃ body, Joined segments body := by
  induction segments with
  | nil => exact ⟨[], .nothing⟩
  | cons segment segments ih =>
    obtain ⟨body, joined⟩ := ih
    exact ⟨_, .next segment '&' (by simp [separators]) joined⟩

theorem exists_rendered {entries : Entries Text Json} (flat : ∀ e ∈ entries, IsFlat e.2) :
    ∃ body, Rendered entries body := by
  have all : ∃ written : List (List Text),
      List.Forall₂ (fun e segments => Segmented e.1 e.2 segments) entries written := by
    induction entries with
    | nil => exact ⟨[], .nil⟩
    | cons e entries ih =>
      obtain ⟨segments, segmented⟩ := exists_segmented e.1 (flat e (by simp))
      obtain ⟨written, rest⟩ := ih fun e' member => flat e' (List.mem_cons_of_mem _ member)
      exact ⟨segments :: written, .cons segmented rest⟩
  obtain ⟨written, segmented⟩ := all
  obtain ⟨body, joined⟩ := exists_joined written.flatten
  exact ⟨body, written, segmented, joined⟩

end Segments

section Reading

variable {entries : Entries Text Json} {s : FilterSet} {name : Text} {v flag : Json}
  {segments : List Text}

theorem entries_appended (fresh : name ∉ entries.keys) (ws vs : List Json)
    (started : s.entries = entries ++ [(name, .array ws)]) :
    ((vs.map fun v => (name, Setter.append v)).foldl (fun s r => s.apply r.1 r.2) s).entries =
      entries ++ [(name, .array (ws ++ vs))] := by
  induction vs generalizing s ws with
  | nil => simpa using started
  | cons v vs ih =>
    have flag : s.get? name = some (.array ws) := by rw [get?, started, Entries.get?_concat fresh]
    have next : (s.apply name (.append v)).entries = entries ++ [(name, .array (ws ++ [v]))] := by
      simp only [apply, flag, insert]
      rw [started, Entries.put_concat fresh]
    simpa using ih (ws ++ [v]) next

theorem entries_read (fresh : name ∉ s.entries.keys) (segmented : Segmented name flag segments) :
    ((readingsOf name flag).foldl (fun s r => s.apply r.1 r.2) s).entries =
      s.entries ++ [(name, flag)] := by
  cases segmented with
  | scalar assigns =>
    obtain ⟨t, -, -, spelled, -⟩ := assigns
    cases spelled <;> exact Entries.put_of_notMem fresh _
  | @array vs _ nonempty _ =>
    cases vs with
    | nil => exact absurd rfl nonempty
    | cons v vs =>
      have flag : s.get? name = none := Entries.get?_of_notMem fresh
      have started : (s.apply name (.append v)).entries =
          s.entries ++ [(name, .array [v])] := by
        simp only [apply, flag, insert]
        exact Entries.put_of_notMem fresh _
      exact entries_appended fresh [v] vs started

theorem readSegments_append {first second : List Text} {s' : FilterSet}
    (read : readSegments s first = .ok s') :
    readSegments s (first ++ second) = readSegments s' second := by
  induction first generalizing s with
  | nil =>
    cases read
    rfl
  | cons segment rest ih =>
    rw [List.cons_append, readSegments]
    rw [readSegments] at read
    cases one : readSegment segment with
    | error fault => simp [one, bind, Except.bind] at read
    | ok r =>
      simp only [one, bind, Except.bind] at read ⊢
      exact ih read

theorem readSegments_rendered {written : List (List Text)}
    (segmented : List.Forall₂ (fun e segments => Segmented e.1 e.2 segments) entries written)
    (distinct : (s.entries.keys ++ entries.keys).Nodup) :
    ∃ s', readSegments s written.flatten = .ok s' ∧ s'.entries = s.entries ++ entries := by
  induction segmented generalizing s with
  | nil => exact ⟨s, rfl, by simp⟩
  | @cons e segments entries written one rest ih =>
    obtain ⟨name, flag⟩ := e
    -- No key is known when its segments come, so they put it behind all others.
    have apart := List.nodup_append.mp distinct
    have fresh : name ∉ s.entries.keys := by
      intro known
      exact apart.2.2 name known name (by simp [Entries.keys]) rfl
    have first := readSegments_of_means (means_of_segmented one) s
    have put := entries_read fresh one
    obtain ⟨s', read, all⟩ := ih (s := (readingsOf name flag).foldl (fun s r => s.apply r.1 r.2) s)
      (by simpa [put, Entries.keys] using distinct)
    refine ⟨s', ?_, ?_⟩
    · rw [List.flatten_cons, readSegments_append first, read]
    · rw [all, put]
      simp

end Reading

/-- A set whose flags are scalars or lists of scalars can be written as a plain query, and every
query so written is read back as that set, entry by entry in the same order. -/
theorem encoded_query_read (entries : Entries Text Json) (distinct : entries.keys.Nodup)
    (flat : ∀ e ∈ entries, IsFlat e.2) :
    (∃ body, Rendered entries body) ∧ ∀ body, Rendered entries body →
      isBraced body = false ∧ ofQuery ('?' :: body) = .ok ⟨entries, distinct⟩ := by
  refine ⟨exists_rendered flat, ?_⟩
  rintro body ⟨written, segmented, joined⟩
  have clean := clean_of_rendered segmented
  have cut : parts body = written.flatten :=
    parts_of_joined joined fun segment member =>
      ⟨(clean segment member).1, (clean segment member).2.2⟩
  have no_brace : '{' ∉ body :=
    brace_notMem_joined joined fun segment member => (clean segment member).2.1
  have plain : isBraced body = false := by
    have other : body.head? ≠ some '{' := by
      intro first
      exact no_brace (List.mem_of_head? first)
    simp [isBraced, other]
  refine ⟨plain, ?_⟩
  obtain ⟨s, read, all⟩ := readSegments_rendered (s := empty) segmented distinct
  simp only [ofQuery, plain, Bool.false_eq_true, if_false, segments_eq_parts, cut]
  rw [read]
  obtain ⟨es, nodup⟩ := s
  obtain rfl : es = entries := all
  rfl

/-- A name with two separators in it, and an array with an empty text. -/
theorem array_written_and_read :
    let entries : Entries Text Json :=
      [(",é".toList, .array [.bool true, .string []]), ([], .string "-".toList)]
    (entries.keys.Nodup ∧ ∀ e ∈ entries, IsFlat e.2) ∧
      Rendered entries "%2C%c3%A9[]=%74%72%75%65,&%2c%C3%A9[]=&=%2D".toList ∧
      ∃ distinct, ofQuery "?%2C%c3%A9[]=%74%72%75%65,&%2c%C3%A9[]=&=%2D".toList =
        .ok ⟨entries, distinct⟩ := by
  intro entries
  have distinct : entries.keys.Nodup := by decide
  have dash : Spelled (.string ['-']) ['-'] := .string (by decide)
  have nothing : Spelled (.string []) [] := .string (by decide)
  have flat : ∀ e ∈ entries, IsFlat e.2 := by
    intro e member
    rcases List.mem_cons.mp member with rfl | later
    · refine Or.inr ⟨_, rfl, by simp, ?_⟩
      intro v among
      rcases List.mem_cons.mp among with rfl | last
      · exact ⟨_, .true⟩
      · rw [List.mem_singleton.mp last]
        exact ⟨_, nothing⟩
    · rw [List.mem_singleton.mp later]
      exact Or.inl ⟨_, dash⟩
  have first : Percent.Encodes ",é".toList "%2C%c3%A9".toList :=
    .cons true 0x2C (.cons false 0xC3 (.cons true 0xA9 .nil))
  have second : Percent.Encodes ",é".toList "%2c%C3%A9".toList :=
    .cons false 0x2C (.cons true 0xC3 (.cons true 0xA9 .nil))
  have word : Percent.Encodes "true".toList "%74%72%75%65".toList :=
    .cons true 0x74 (.cons true 0x72 (.cons true 0x75 (.cons true 0x65 .nil)))
  have minus : Percent.Encodes ['-'] "%2D".toList := .cons true 0x2D .nil
  have rendered : Rendered entries "%2C%c3%A9[]=%74%72%75%65,&%2c%C3%A9[]=&=%2D".toList := by
    refine ⟨_, .cons (.array (by simp) (.cons ⟨_, _, _, .true, first, word, rfl⟩
      (.cons ⟨_, _, _, nothing, second, .nil, rfl⟩ .nil)))
      (.cons (.scalar ⟨_, _, _, dash, .nil, minus, rfl⟩) .nil), ?_⟩
    exact .next _ ',' (by decide) (.separator '&' (by decide) (.next _ '&' (by decide) (.last _)))
  obtain ⟨-, reads⟩ := encoded_query_read entries distinct flat
  exact ⟨⟨distinct, flat⟩, rendered, distinct, (reads _ rendered).2⟩

end FilterSet
end RequireInjection
