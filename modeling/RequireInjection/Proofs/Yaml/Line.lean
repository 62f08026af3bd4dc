import RequireInjection.Yaml.ScalarForm
import RequireInjection.Proofs.Json.Scalar

namespace RequireInjection.Yaml

def IsPrinted (c : Char) : Prop := 0x20 ≤ c.toNat ∧ c.toNat ≤ 0x7E

instance (c : Char) : Decidable (IsPrinted c) :=
  inferInstanceAs (Decidable (0x20 ≤ c.toNat ∧ c.toNat ≤ 0x7E))

instance (t : Text) : Decidable (∀ c ∈ t, IsPrinted c) := List.decidableBAll _ t

def IsWord (t : Text) : Prop := ∀ c ∈ t, isNameChar c

instance (t : Text) : Decidable (IsWord t) := List.decidableBAll _ t

/-- Flags that a line of printable ASCII can hold as scalars. -/
inductive Flag : Json → Prop
  | null : Flag .null
  | bool (b : Bool) : Flag (.bool b)
  | int {n : Int} (low : -(Nat.pow 2 63 : Int) ≤ n) (high : n < (Nat.pow 2 64 : Int)) :
    Flag (.int n)
  | string {t : Text} (printed : ∀ c ∈ t, IsPrinted c) : Flag (.string t)

/-- A member that fits on a line: the key is no longer than a key may be. -/
structure Member (m : Text × Json) : Prop where
  printed : ∀ c ∈ m.1, IsPrinted c
  short : m.1.length ≤ 500
  flag : Flag m.2

namespace Input

def firstLine (rest : Text) (column : Nat) : Input := ⟨rest, ⟨column, 0, column⟩⟩

variable {rest t : Text} {c : Char} {column : Nat}

@[simp] theorem firstLine_rest : (firstLine rest column).rest = rest := rfl

@[simp] theorem firstLine_column : (firstLine rest column).mark.column = column := rfl

@[simp] theorem skip_firstLine :
    (firstLine (c :: rest) column).skip = firstLine rest (column + 1) := rfl

theorem skipWhile_firstLine {p : Char → Bool} (stops : ∀ c ∈ rest.head?, p c = false) :
    (firstLine rest column).skipWhile p = firstLine rest column := by
  cases rest with
  | nil => rfl
  | cons c cs => simp [skipWhile, takeWhile, stops c rfl, skipMany]

theorem skipComment_firstLine (no_comment : c ≠ '#') :
    (firstLine (c :: rest) column).skipComment = firstLine (c :: rest) column := by
  have : (firstLine (c :: rest) column).sees '#' = false := by simpa [sees, test] using no_comment
  simp [skipComment, this]

theorem no_documentMark (later : 0 < column) :
    (firstLine rest column).seesAnyDocumentMark = false := by
  have : (column == 0) = false := by simpa using Nat.ne_of_gt later
  simp [seesAnyDocumentMark, seesDocumentMark, this]

end Input

open Input

section Printed

variable {c : Char}

theorem ne_of_printed (printed : IsPrinted c) {d : Char} (other : ¬ IsPrinted d) : c ≠ d := by
  rintro rfl
  exact other printed

theorem not_isBreak (printed : IsPrinted c) : isBreak c = false := by
  have newline : c ≠ '\n' := ne_of_printed printed (by decide)
  have carriage : c ≠ '\r' := ne_of_printed printed (by decide)
  obtain ⟨low, high⟩ := printed
  simp only [isBreak, Bool.or_eq_false_iff, beq_eq_false_iff_ne]
  exact ⟨⟨⟨⟨newline, carriage⟩, by omega⟩, by omega⟩, by omega⟩

theorem isBlank_iff (printed : IsPrinted c) : isBlank c = true ↔ c = ' ' := by
  have no_tab : c ≠ '\t' := ne_of_printed printed (by decide)
  simp [isBlank, isSpace, isTab, no_tab]

theorem escaped_of_printed (printed : IsPrinted c) :
    (Json.escaped c = [c] ∧ c ≠ '"' ∧ c ≠ '\\') ∨
      (Json.escaped c = ['\\', c] ∧ (c = '"' ∨ c = '\\')) := by
  by_cases quote : c = '"'
  · subst quote
    exact Or.inr ⟨rfl, Or.inl rfl⟩
  by_cases backslash : c = '\\'
  · subst backslash
    exact Or.inr ⟨rfl, Or.inr rfl⟩
  have newline : c ≠ '\n' := ne_of_printed printed (by decide)
  have carriage : c ≠ '\r' := ne_of_printed printed (by decide)
  have tab : c ≠ '\t' := ne_of_printed printed (by decide)
  obtain ⟨low, high⟩ := printed
  refine Or.inl ⟨?_, quote, backslash⟩
  rw [Json.escaped, if_neg quote, if_neg backslash, if_neg newline, if_neg carriage, if_neg tab,
    if_neg (by omega), if_neg (by omega), if_neg (by omega)]

end Printed

section Quoted

variable {s rest : Text} {column : Nat}

theorem quotedPart_escaped {c : Char} (printed : IsPrinted c) (solid : c ≠ ' ') (n : Nat) :
    quotedPart false (n + 1) (firstLine (Json.escaped c ++ rest) column) =
      (quotedPart false n (firstLine rest (column + (Json.escaped c).length))).map
        fun (t, b, i) => (c :: t, b, i) := by
  rcases escaped_of_printed printed with ⟨same, no_quote, no_backslash⟩ | ⟨same, rfl | rfl⟩
  · have no_blank : isBlank c = false := by
      rw [Bool.eq_false_iff, ne_eq, isBlank_iff printed]
      exact solid
    rw [same]
    simp [quotedPart, no_blank, not_isBreak printed, no_quote, no_backslash]
  · have named : simpleEscapes.lookup '"' = some 34 := rfl
    rw [same]
    simp [quotedPart, isBlank, isSpace, isTab, isBreak, Input.test, readEscape, named,
      Nat.add_assoc]
  · have named : simpleEscapes.lookup '\\' = some 92 := rfl
    rw [same]
    simp [quotedPart, isBlank, isSpace, isTab, isBreak, Input.test, readEscape, named,
      Nat.add_assoc]

theorem quotedPart_solid (printed : ∀ c ∈ s, IsPrinted c) (solid : ∀ c ∈ s, c ≠ ' ')
    (ends : ∀ c ∈ rest.head?, c = ' ' ∨ c = '"') {n : Nat} (enough : s.length ≤ n) :
    quotedPart false n (firstLine (s.flatMap Json.escaped ++ rest) column) =
      some (s, false, firstLine rest (column + (s.flatMap Json.escaped).length)) := by
  induction s generalizing n column with
  | nil =>
    cases n with
    | zero => rfl
    | succ n =>
      cases rest with
      | nil => rfl
      | cons d ds =>
        rcases ends d rfl with rfl | rfl
        · simp [quotedPart, isBlank, isSpace]
        · simp [quotedPart, isBlank, isSpace, isTab, isBreak]
  | cons c cs ih =>
    obtain ⟨m, rfl⟩ : ∃ m, n = m + 1 := ⟨n - 1, by simp at enough; omega⟩
    have printed' : ∀ d ∈ cs, IsPrinted d := fun d member => printed d (by simp [member])
    have solid' : ∀ d ∈ cs, d ≠ ' ' := fun d member => solid d (by simp [member])
    rw [List.flatMap_cons, List.append_assoc, quotedPart_escaped (printed c (by simp))
      (solid c (by simp)), ih printed' solid' (by simpa using enough), List.length_append,
      Nat.add_assoc]
    rfl

theorem readGap_blanks (m : Nat) (blanks : Text) {n : Nat} (enough : m ≤ n)
    (ends : ∀ c ∈ rest.head?, isBlank c = false ∧ isBreak c = false) :
    readGap none n { blanks } (firstLine (List.replicate m ' ' ++ rest) column) =
      some ({ blanks := blanks ++ List.replicate m ' ' }, firstLine rest (column + m)) := by
  induction m generalizing blanks n column with
  | zero =>
    cases n with
    | zero => simp [readGap]
    | succ n =>
      cases rest with
      | nil => simp [readGap]
      | cons c cs =>
        obtain ⟨no_blank, no_break⟩ := ends c rfl
        simp [readGap, no_blank, no_break]
  | succ m ih =>
    obtain ⟨k, rfl⟩ : ∃ k, n = k + 1 := ⟨n - 1, by omega⟩
    have sum : column + (m + 1) = column + 1 + m := by omega
    have blanks_cons : blanks ++ List.replicate (m + 1) ' ' =
        blanks ++ [' '] ++ List.replicate m ' ' := by
      simp [List.replicate_succ]
    rw [sum, blanks_cons, ← ih (blanks ++ [' ']) (n := k) (by omega)]
    simp [readGap, List.replicate_succ, isBlank, isSpace]

theorem exists_blanks (s : Text) : (∀ c ∈ s, c ≠ ' ') ∨
    ∃ a m b, s = a ++ (List.replicate (m + 1) ' ' ++ b) ∧ (∀ c ∈ a, c ≠ ' ') ∧
      ∀ c ∈ b.head?, c ≠ ' ' := by
  induction s with
  | nil => exact Or.inl (by simp)
  | cons c cs ih =>
    by_cases blank : c = ' '
    · subst blank
      rcases ih with solid | ⟨a, m, b, rfl, solid, stops⟩
      · refine Or.inr ⟨[], 0, cs, rfl, by simp, ?_⟩
        intro d first
        exact solid d (List.mem_of_mem_head? first)
      · cases a with
        | nil => exact Or.inr ⟨[], m + 1, b, rfl, by simp, stops⟩
        | cons d ds =>
          refine Or.inr ⟨[], 0, _, rfl, by simp, ?_⟩
          intro e first
          exact solid e (List.mem_of_mem_head? (by simpa using first))
    · rcases ih with solid | ⟨a, m, b, rfl, solid, stops⟩
      · exact Or.inl (by simpa [blank] using solid)
      · exact Or.inr ⟨c :: a, m, b, rfl, by simpa [blank] using solid, stops⟩

theorem flatMap_escaped_replicate (m : Nat) :
    (List.replicate m ' ').flatMap Json.escaped = List.replicate m ' ' := by
  induction m with
  | zero => rfl
  | succ m ih =>
    rw [List.replicate_succ, List.flatMap_cons, ih]
    rfl

theorem head_escaped (printed : ∀ c ∈ s, IsPrinted c) (stops : ∀ c ∈ s.head?, c ≠ ' ') :
    ∀ c ∈ (s.flatMap Json.escaped ++ '"' :: rest).head?,
      isBlank c = false ∧ isBreak c = false := by
  intro c first
  cases s with
  | nil =>
    obtain rfl : c = '"' := by simpa using first.symm
    decide
  | cons d ds =>
    have printed := printed d (by simp)
    rcases escaped_of_printed printed with ⟨same, -⟩ | ⟨same, -⟩
    · obtain rfl : c = d := by simpa [same] using first.symm
      refine ⟨?_, not_isBreak printed⟩
      rw [Bool.eq_false_iff, ne_eq, isBlank_iff printed]
      exact stops c rfl
    · obtain rfl : c = '\\' := by simpa [same] using first.symm
      decide

theorem escaped_length_le (printed : ∀ c ∈ s, IsPrinted c) :
    (s.flatMap Json.escaped).length ≤ 2 * s.length := by
  induction s with
  | nil => simp
  | cons c cs ih =>
    have later := ih fun d member => printed d (List.mem_cons_of_mem _ member)
    have few : (Json.escaped c).length ≤ 2 := by
      rcases escaped_of_printed (printed c (by simp)) with ⟨same, -⟩ | ⟨same, -⟩ <;> simp [same]
    simp only [List.flatMap_cons, List.length_append, List.length_cons]
    omega

theorem quotedTail_end (printed : ∀ c ∈ s, IsPrinted c) (solid : ∀ c ∈ s, c ≠ ' ')
    (value : Text) (n : Nat) (later : 0 < column) :
    quotedTail false (n + 1) value (firstLine (s.flatMap Json.escaped ++ '"' :: rest) column) =
      some (value ++ s, firstLine rest (column + (s.flatMap Json.escaped).length + 1)) := by
  have size := Json.length_le_escaped s
  have part : quotedPart false (s.flatMap Json.escaped ++ '"' :: rest).length
      (firstLine (s.flatMap Json.escaped ++ '"' :: rest) column) =
        some (s, false, firstLine ('"' :: rest) (column + (s.flatMap Json.escaped).length)) := by
    apply quotedPart_solid printed solid
    · simp
    · rw [List.length_append]
      omega
  have more : (firstLine (s.flatMap Json.escaped ++ '"' :: rest) column).atEnd = false := by
    simp [atEnd]
  have closed : (firstLine ('"' :: rest) (column + (s.flatMap Json.escaped).length)).sees '"' :=
    rfl
  simp only [quotedTail, no_documentMark later, more, firstLine_rest, part, Option.bind_eq_bind,
    Option.bind_some, Bool.or_self, Bool.false_eq_true, if_false, closed, if_true, skip_firstLine]
  rfl

theorem quotedTail_blanks {a b : Text} (printed : ∀ c ∈ a, IsPrinted c)
    (printed' : ∀ c ∈ b, IsPrinted c) (solid : ∀ c ∈ a, c ≠ ' ') (stops : ∀ c ∈ b.head?, c ≠ ' ')
    (m : Nat) (value : Text) (n : Nat) (later : 0 < column) :
    quotedTail false (n + 1) value (firstLine ((a ++ (List.replicate (m + 1) ' ' ++ b)).flatMap
        Json.escaped ++ '"' :: rest) column) =
      quotedTail false n (value ++ (a ++ List.replicate (m + 1) ' ')) (firstLine
        (b.flatMap Json.escaped ++ '"' :: rest)
        (column + (a.flatMap Json.escaped).length + (m + 1))) := by
  have size := Json.length_le_escaped a
  have text : (a ++ (List.replicate (m + 1) ' ' ++ b)).flatMap Json.escaped ++ '"' :: rest =
      a.flatMap Json.escaped ++ (List.replicate (m + 1) ' ' ++
        (b.flatMap Json.escaped ++ '"' :: rest)) := by
    rw [List.flatMap_append, List.flatMap_append, flatMap_escaped_replicate]
    simp
  rw [text]
  -- One part without blanks, then one gap: the next turn begins behind the gap.
  generalize behind : List.replicate (m + 1) ' ' ++ (b.flatMap Json.escaped ++ '"' :: rest) = t
  have blank : t.head? = some ' ' := by
    rw [← behind]
    rfl
  have part : quotedPart false (a.flatMap Json.escaped ++ t).length
      (firstLine (a.flatMap Json.escaped ++ t) column) =
        some (a, false, firstLine t (column + (a.flatMap Json.escaped).length)) := by
    apply quotedPart_solid printed solid
    · simp [blank]
    · rw [List.length_append]
      omega
  have gap : readGap none t.length {} (firstLine t (column + (a.flatMap Json.escaped).length)) =
      some ({ blanks := List.replicate (m + 1) ' ' },
        firstLine (b.flatMap Json.escaped ++ '"' :: rest)
          (column + (a.flatMap Json.escaped).length + (m + 1))) := by
    rw [← behind]
    exact readGap_blanks (m + 1) [] (by simp) (head_escaped printed' stops)
  have open_ : (firstLine t (column + (a.flatMap Json.escaped).length)).sees '"' = false := by
    rw [← behind]
    rfl
  have more : (firstLine (a.flatMap Json.escaped ++ t) column).atEnd = false := by
    rw [← behind]
    simp [atEnd]
  simp only [quotedTail, no_documentMark later, more, firstLine_rest, part, Option.bind_eq_bind,
    Option.bind_some, Bool.or_self, Bool.false_eq_true, if_false, open_, gap, Gap.text,
    List.append_assoc]

theorem quotedTail_escaped (s : Text) (printed : ∀ c ∈ s, IsPrinted c) (value : Text)
    {n : Nat} (enough : s.length < n) (later : 0 < column) :
    quotedTail false n value (firstLine (s.flatMap Json.escaped ++ '"' :: rest) column) =
      some (value ++ s, firstLine rest (column + (s.flatMap Json.escaped).length + 1)) := by
  -- Each step reads a part and the blanks behind it, so the induction is on what is left.
  induction size : s.length using Nat.strongRecOn generalizing s value n column with
  | ind k ih =>
    obtain ⟨m, rfl⟩ : ∃ m, n = m + 1 := ⟨n - 1, by omega⟩
    rcases exists_blanks s with solid | ⟨a, blanks, b, rfl, solid, stops⟩
    · exact quotedTail_end printed solid value m later
    · have front : ∀ c ∈ a, IsPrinted c := fun c member => printed c (by simp [member])
      have behind : ∀ c ∈ b, IsPrinted c := fun c member => printed c (by simp [member])
      simp only [List.length_append, List.length_replicate] at size enough
      rw [quotedTail_blanks front behind solid stops blanks value m later,
        ih b.length (by omega) b behind _ (by omega) (by omega) rfl]
      simp only [List.flatMap_append, flatMap_escaped_replicate, List.length_append,
        List.length_replicate, List.append_assoc]
      congr 3
      omega

theorem printed_quoted (printed : ∀ c ∈ s, IsPrinted c) : ∀ c ∈ Json.quoted s, IsPrinted c := by
  have escaped : ∀ c ∈ s.flatMap Json.escaped, IsPrinted c := by
    intro c member
    obtain ⟨d, inside, member⟩ := List.mem_flatMap.mp member
    rcases escaped_of_printed (printed d inside) with ⟨same, -⟩ | ⟨same, -⟩
    · rw [same] at member
      rw [List.mem_singleton.mp member]
      exact printed d inside
    · rw [same] at member
      rcases List.mem_cons.mp member with rfl | member
      · decide
      · rw [List.mem_singleton.mp member]
        exact printed d inside
  have quote : IsPrinted '"' := by decide
  simpa [Json.quoted, or_imp, forall_and, quote] using escaped

theorem readQuoted_quoted (s : Text) (printed : ∀ c ∈ s, IsPrinted c) :
    readQuoted false (firstLine (Json.quoted s ++ rest) column) =
      some (s, firstLine rest (column + (Json.quoted s).length)) := by
  have size := Json.length_le_escaped s
  have text : Json.quoted s ++ rest = '"' :: (s.flatMap Json.escaped ++ '"' :: rest) := by
    simp [Json.quoted]
  have sum : column + (Json.quoted s).length =
      column + 1 + (s.flatMap Json.escaped).length + 1 := by
    simp only [Json.quoted, List.length_cons, List.length_append, List.length_nil]
    omega
  rw [text, sum, readQuoted, skip_firstLine]
  apply quotedTail_escaped s printed []
  · simp only [firstLine_rest, List.length_cons, List.length_append]
    omega
  · omega

end Quoted

section Plain

variable {w rest : Text} {inFlow : Bool} {column : Nat}

theorem ne_of_isNameChar {c d : Char} (name : isNameChar c) (other : isNameChar d = false) :
    c ≠ d := by
  rintro rfl
  rw [other] at name
  cases name

theorem printed_of_isNameChar {c : Char} (name : isNameChar c) : IsPrinted c := by
  simp only [isNameChar, isDigit, Bool.or_eq_true, Bool.and_eq_true, decide_eq_true_eq, beq_iff_eq,
    Char.le_def, UInt32.le_iff_toNat_le] at name
  rcases name with (((⟨low, high⟩ | ⟨low, high⟩) | ⟨low, high⟩) | rfl) | rfl
  · exact ⟨Nat.le_trans (by decide) low, Nat.le_trans high (by decide)⟩
  · exact ⟨Nat.le_trans (by decide) low, Nat.le_trans high (by decide)⟩
  · exact ⟨Nat.le_trans (by decide) low, Nat.le_trans high (by decide)⟩
  · decide
  · decide

def Ends (inFlow : Bool) : Text → Prop
  | [] => False
  | c :: cs =>
    match inFlow with
    | true => c = ',' ∨ c = '\x7d'
    | false => c = ':' ∧ cs.head? = some ' '

theorem plainPart_end (ends : Ends inFlow rest) (n : Nat) :
    plainPart inFlow n (firstLine rest column) = some ([], firstLine rest column) := by
  cases n with
  | zero => rfl
  | succ n =>
    cases rest with
    | nil => cases ends
    | cons c cs =>
      cases inFlow with
      | true =>
        rcases ends with rfl | rfl
        · simp [plainPart, isBlank, isSpace, isTab, isBreak]
        · simp [plainPart, isBlank, isSpace, isTab, isBreak]
      | false =>
        obtain ⟨rfl, blank⟩ := ends
        cases cs with
        | nil => cases blank
        | cons d ds =>
          obtain rfl : d = ' ' := by simpa using blank
          simp [plainPart, isBlank, isSpace, isTab, isBreak, blankOrEnd]

theorem plainPart_word (word : IsWord w) (ends : Ends inFlow rest) {n : Nat}
    (enough : w.length ≤ n) : plainPart inFlow n (firstLine (w ++ rest) column) =
      some (w, firstLine rest (column + w.length)) := by
  induction w generalizing n column with
  | nil => exact plainPart_end ends n
  | cons c cs ih =>
    obtain ⟨m, rfl⟩ : ∃ m, n = m + 1 := ⟨n - 1, by simp at enough; omega⟩
    have name : isNameChar c := word c (by simp)
    have other : ∀ d, isNameChar d = false → c ≠ d := fun d => ne_of_isNameChar name
    have later : plainPart inFlow m (firstLine (cs ++ rest) (column + 1)) =
        some (cs, firstLine rest (column + (cs.length + 1))) := by
      rw [ih (fun d member => word d (by simp [member])) (by simpa using enough)]
      congr 3
      omega
    simp [plainPart, isBlank, isSpace, isTab, not_isBreak (printed_of_isNameChar name),
      other ' ' rfl, other '\t' rfl, other ':' rfl, other ',' rfl, other '[' rfl, other ']' rfl,
      other '\x7b' rfl, other '\x7d' rfl, later]

theorem readPlain_word (word : IsWord w) (proper : w ≠ []) (ends : Ends inFlow rest)
    (indent : Nat) (unmarked : (firstLine (w ++ rest) column).seesAnyDocumentMark = false) :
    readPlain inFlow indent (firstLine (w ++ rest) column) =
      some (w, false, firstLine rest (column + w.length)) := by
  have part : plainPart inFlow (w ++ rest).length (firstLine (w ++ rest) column) =
      some (w, firstLine rest (column + w.length)) := plainPart_word word ends (by simp)
  have whole : w.isEmpty = false := by simpa using proper
  have no_comment : (firstLine (w ++ rest) column).sees '#' = false := by
    cases w with
    | nil => exact absurd rfl proper
    | cons c cs => simpa [sees, Input.test] using ne_of_isNameChar (word c (by simp)) rfl
  have stop : ((firstLine rest (column + w.length)).test 0 fun c => isBlank c || isBreak c) =
      false := by
    cases rest with
    | nil => cases ends
    | cons c cs =>
      cases inFlow with
      | true => rcases ends with rfl | rfl <;> rfl
      | false => obtain ⟨rfl, -⟩ := ends; rfl
  simp only [readPlain, firstLine_rest, plainTail, unmarked, no_comment, part, Option.bind_eq_bind,
    Option.bind_some, Bool.or_self, Bool.false_eq_true, if_false, whole, stop, Bool.not_false,
    if_true]
  rfl

end Plain

end RequireInjection.Yaml
