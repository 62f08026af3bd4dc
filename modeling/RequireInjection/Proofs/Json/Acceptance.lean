import Mathlib.Data.List.TakeWhile
import RequireInjection.Proofs.Json.Compact
import RequireInjection.Proofs.Json.NumberText
import RequireInjection.Proofs.Json.StringText

namespace RequireInjection
namespace Json

/-- A text of the phrase that nests no more arrays and objects than the number given and holds no
string or number that is refused. -/
def Admits (limit : Nat) (p : Phrase) (t : Text) : Prop :=
  ∃ depth leaves, Derives p depth leaves t ∧ depth ≤ limit ∧ ∀ leaf ∈ leaves, ¬ leaf.Refused

section Rules

variable {limit : Nat} {t t' gap before after : Text} {p : Phrase}

theorem blank_nil : Blank [] := by simp [Blank]

theorem Blank.append (front : Blank gap) (back : Blank after) : Blank (gap ++ after) := by
  intro c member
  rcases List.mem_append.mp member with early | late
  · exact front c early
  · exact back c late

theorem skipSpace_blank (blank : Blank gap) (t : Text) : skipSpace (gap ++ t) = skipSpace t :=
  List.dropWhile_append_of_pos blank

theorem exists_blank (t : Text) : ∃ gap, Blank gap ∧ t = gap ++ skipSpace t :=
  ⟨t.takeWhile isSpace, fun _ member => List.mem_takeWhile_imp member,
    (List.takeWhile_append_dropWhile).symm⟩

theorem admits_word (named : t = "null".toList ∨ t = "true".toList ∨ t = "false".toList) :
    Admits limit .value t :=
  ⟨0, [], .word named, Nat.zero_le _, by simp⟩

theorem admits_number {n : Numeral} (in_range : ¬ n.OutOfRange) : Admits limit .value n.text :=
  ⟨0, [.number n], .number n, Nat.zero_le _, by simpa [Leaf.Refused] using in_range⟩

theorem admits_string {items : List StringItem} (paired : Paired items) :
    Admits limit .value (stringText items) :=
  ⟨0, [.string items], .string items, Nat.zero_le _, by
    simpa [Leaf.Refused, LoneSurrogate] using paired⟩

theorem admits_emptyArray (blank : Blank gap) :
    Admits (limit + 1) .value ('[' :: (gap ++ [']'])) :=
  ⟨1, [], .emptyArray blank, by omega, by simp⟩

theorem admits_emptyObject (blank : Blank gap) :
    Admits (limit + 1) .value ('{' :: (gap ++ ['}'])) :=
  ⟨1, [], .nested (.emptyObject blank), by omega, by simp⟩

theorem Admits.derive {p q : Phrase} (inner : Admits limit p t)
    (rule : ∀ {depth leaves}, Derives p depth leaves t → Derives q depth leaves t') :
    Admits limit q t' := by
  obtain ⟨depth, leaves, derives, nested, kept⟩ := inner
  exact ⟨depth, leaves, rule derives, nested, kept⟩

theorem Admits.enclose {p q : Phrase} (inner : Admits limit p t)
    (rule : ∀ {depth leaves}, Derives p depth leaves t → Derives q (depth + 1) leaves t') :
    Admits (limit + 1) q t' := by
  obtain ⟨depth, leaves, derives, nested, kept⟩ := inner
  exact ⟨depth + 1, leaves, rule derives, by omega, kept⟩

theorem Admits.join {p q r : Phrase} {whole : Text} (first : Admits limit p t)
    (rest : Admits limit q t')
    (rule : ∀ {depth leaves depth' leaves'}, Derives p depth leaves t →
      Derives q depth' leaves' t' → Derives r (max depth depth') (leaves ++ leaves') whole) :
    Admits limit r whole := by
  obtain ⟨depth, leaves, derives, nested, kept⟩ := first
  obtain ⟨depth', leaves', derives', nested', kept'⟩ := rest
  refine ⟨max depth depth', leaves ++ leaves', rule derives derives', by omega, ?_⟩
  intro leaf member
  rcases List.mem_append.mp member with early | late
  · exact kept leaf early
  · exact kept' leaf late

theorem Admits.array (inner : Admits limit .elements t) :
    Admits (limit + 1) .value ('[' :: (t ++ [']'])) :=
  inner.enclose fun derives => .array derives

theorem Admits.object (inner : Admits limit .members t) :
    Admits (limit + 1) .value ('{' :: (t ++ ['}'])) :=
  inner.enclose fun derives => .nested (.object derives)

theorem Admits.element (front : Blank before) (inner : Admits limit .value t)
    (back : Blank after) : Admits limit .element (before ++ (t ++ after)) :=
  inner.derive fun derives => .element front derives back

theorem Admits.lastElement (last : Admits limit .element t) : Admits limit .elements t :=
  last.derive fun derives => .lastElement derives

theorem Admits.elements (first : Admits limit .element t) (rest : Admits limit .elements t') :
    Admits limit .elements (t ++ ',' :: t') :=
  first.join rest fun derives derives' => .elements derives derives'

theorem Admits.member {key : List StringItem} (front : Blank before) (paired : Paired key)
    (back : Blank after) (inner : Admits limit .element t) :
    Admits limit .member (before ++ (stringText key ++ (after ++ ':' :: t))) := by
  obtain ⟨depth, leaves, derives, nested, kept⟩ := inner
  refine ⟨depth, .string key :: leaves, .member front key back derives, nested, ?_⟩
  intro leaf member
  rcases List.mem_cons.mp member with rfl | later
  · exact not_not_intro paired
  · exact kept leaf later

theorem Admits.lastMember (last : Admits limit .member t) : Admits limit .members t :=
  last.derive fun derives => .lastMember derives

theorem Admits.members (first : Admits limit .member t) (rest : Admits limit .members t') :
    Admits limit .members (t ++ ',' :: t') :=
  first.join rest fun derives derives' => .members derives derives'

end Rules

section Soundness

variable {fuel limit : Nat} {t rest : Text} {v : Json}

theorem readIdent_sound {word : Text} {w : Json} (read : readIdent w word t = .ok (v, rest)) :
    t = word ++ rest := by
  induction word generalizing t with
  | nil => cases read; rfl
  | cons c cs ih =>
    cases t with
    | nil => cases read
    | cons d t =>
      rw [readIdent] at read
      split at read
      · rename_i same
        rw [same, ih read]
        rfl
      · cases read

def Continues (limit : Nat) (p : Phrase) (close : Char) (rest t : Text) : Prop :=
  ∃ gap, Blank gap ∧ (t = gap ++ close :: rest ∨
    ∃ inner, Admits limit p inner ∧ t = gap ++ ',' :: (inner ++ close :: rest))

def ValueSound (fuel : Nat) : Prop :=
  ∀ limit t v rest, value fuel limit t = .ok (v, rest) →
    ∃ gap front, Blank gap ∧ Admits (limit - 1) .value front ∧ t = gap ++ (front ++ rest)

def ItemsSound (fuel : Nat) : Prop :=
  (∀ limit t sofar vs rest, items fuel limit true sofar t = .ok (vs, rest) →
    ∃ inner, (Blank inner ∨ Admits (limit - 1) .elements inner) ∧ t = inner ++ ']' :: rest) ∧
  ∀ limit t sofar vs rest, items fuel limit false sofar t = .ok (vs, rest) →
    Continues (limit - 1) .elements ']' rest t

def MembersSound (fuel : Nat) : Prop :=
  (∀ limit t sofar ms rest, members fuel limit true sofar t = .ok (ms, rest) →
    ∃ inner, (Blank inner ∨ Admits (limit - 1) .members inner) ∧ t = inner ++ '}' :: rest) ∧
  ∀ limit t sofar ms rest, members fuel limit false sofar t = .ok (ms, rest) →
    Continues (limit - 1) .members '}' rest t

def MemberSound (fuel : Nat) : Prop :=
  ∀ limit t sofar ms rest, member fuel limit sofar t = .ok (ms, rest) →
    ∀ gap, Blank gap → ∃ inner, Admits (limit - 1) .members inner ∧
      gap ++ '"' :: t = inner ++ '}' :: rest

theorem value_sound_succ (items_sound : ItemsSound fuel) (members_sound : MembersSound fuel) :
    ValueSound (fuel + 1) := by
  intro limit t v rest read
  obtain ⟨gap, blank, whole⟩ := exists_blank t
  simp only [value] at read
  suffices found : ∃ front, Admits (limit - 1) .value front ∧ skipSpace t = front ++ rest by
    obtain ⟨front, admits, text⟩ := found
    exact ⟨gap, front, blank, admits, by rw [← text]; exact whole⟩
  -- The blanks in front are settled; from here on the first character tells the form.
  clear whole
  generalize skipSpace t = t at read ⊢
  cases t with
  | nil => cases read
  | cons c t =>
    simp only [beq_iff_eq] at read
    split at read
    · rename_i first
      refine ⟨"null".toList, admits_word (.inl rfl), ?_⟩
      rw [first, readIdent_sound read]
      rfl
    split at read
    · rename_i first
      refine ⟨"true".toList, admits_word (.inr (.inl rfl)), ?_⟩
      rw [first, readIdent_sound read]
      rfl
    split at read
    · rename_i first
      refine ⟨"false".toList, admits_word (.inr (.inr rfl)), ?_⟩
      rw [first, readIdent_sound read]
      rfl
    split at read
    · rename_i first
      obtain ⟨n, negative, rfl, in_range⟩ := readNumber_sound read
      exact ⟨n.text, admits_number in_range, by
        simp [first, Numeral.text, Numeral.sign, negative]⟩
    split at read
    · obtain ⟨n, negative, text, in_range⟩ := readNumber_sound read
      exact ⟨n.text, admits_number in_range, by
        simp [text, Numeral.text, Numeral.sign, negative]⟩
    split at read
    · rename_i first
      obtain ⟨⟨s, behind⟩, quoted, read⟩ := bind_eq_ok.mp read
      cases read
      obtain ⟨items, paired, text⟩ := readString_sound quoted
      exact ⟨stringText items, admits_string paired, by rw [first, text]⟩
    split at read
    · rename_i first
      split at read
      · cases read
      · cases read
      · rename_i limit deep
        obtain ⟨⟨vs, behind⟩, inside, read⟩ := bind_eq_ok.mp read
        cases read
        obtain ⟨inner, inner_cases, rfl⟩ := items_sound.1 _ _ _ _ _ inside
        obtain ⟨limit, rfl⟩ := Nat.exists_eq_succ_of_ne_zero deep
        refine ⟨'[' :: (inner ++ [']']), ?_, by simp [first]⟩
        rcases inner_cases with blank | admits
        · exact admits_emptyArray blank
        · exact admits.array
    split at read
    · rename_i first
      split at read
      · cases read
      · cases read
      · rename_i limit deep
        obtain ⟨⟨ms, behind⟩, inside, read⟩ := bind_eq_ok.mp read
        cases read
        obtain ⟨inner, inner_cases, rfl⟩ := members_sound.1 _ _ _ _ _ inside
        obtain ⟨limit, rfl⟩ := Nat.exists_eq_succ_of_ne_zero deep
        refine ⟨'{' :: (inner ++ ['}']), ?_, by simp [first]⟩
        rcases inner_cases with blank | admits
        · exact admits_emptyObject blank
        · exact admits.object
    · cases read

theorem elements_sound (value_sound : ValueSound fuel) (items_sound : ItemsSound fuel) {gap : Text}
    (blank : Blank gap) {sofar vs : List Json}
    (read : (value fuel limit t >>= fun p => items fuel limit false (sofar ++ [p.1]) p.2) =
      .ok (vs, rest)) :
    ∃ inner, Admits (limit - 1) .elements inner ∧ gap ++ t = inner ++ ']' :: rest := by
  obtain ⟨⟨v, behind⟩, first, later⟩ := bind_eq_ok.mp read
  obtain ⟨gap', front, blank', admits, rfl⟩ := value_sound _ _ _ _ first
  obtain ⟨after, back, continues⟩ := items_sound.2 _ _ _ _ _ later
  have element := Admits.element (blank.append blank') admits back
  rcases continues with rfl | ⟨inner, more, rfl⟩
  · exact ⟨_, element.lastElement, by simp⟩
  · exact ⟨_, element.elements more, by simp⟩

theorem items_sound_succ (value_sound : ValueSound fuel) (items_sound : ItemsSound fuel) :
    ItemsSound (fuel + 1) := by
  refine ⟨?_, ?_⟩
  -- In front of the first item the array may end.
  · intro limit t sofar vs rest read
    obtain ⟨gap, blank, whole⟩ := exists_blank t
    simp only [items] at read
    generalize skipSpace t = t' at read whole
    cases t' with
    | nil => cases read
    | cons c t' =>
      simp only [beq_iff_eq, if_true] at read
      split at read
      · rename_i close
        cases read
        exact ⟨gap, .inl blank, by rw [whole, close]⟩
      · obtain ⟨inner, all, text⟩ := elements_sound value_sound items_sound blank read
        exact ⟨inner, .inr all, by rw [whole, text]⟩
  -- Behind an item the array ends, or a comma comes that an item must follow.
  · intro limit t sofar vs rest read
    obtain ⟨gap, blank, whole⟩ := exists_blank t
    simp only [items] at read
    generalize skipSpace t = t' at read whole
    cases t' with
    | nil => cases read
    | cons c t' =>
      simp only [beq_iff_eq, Bool.false_eq_true, if_false] at read
      split at read
      · rename_i close
        cases read
        exact ⟨gap, blank, .inl (by rw [whole, close])⟩
      split at read
      · rename_i comma
        obtain ⟨gap', blank', whole'⟩ := exists_blank t'
        generalize skipSpace t' = t'' at read whole'
        cases t'' with
        | nil => cases read
        | cons d t'' =>
          simp only at read
          split at read
          · cases read
          · obtain ⟨inner, all, text⟩ := elements_sound value_sound items_sound blank' read
            exact ⟨gap, blank, .inr ⟨inner, all, by rw [whole, comma, whole', text]⟩⟩
      · cases read

theorem members_sound_succ (member_sound : MemberSound fuel) : MembersSound (fuel + 1) := by
  refine ⟨?_, ?_⟩
  -- As for items, but a quote has to open the key of every member.
  · intro limit t sofar ms rest read
    obtain ⟨gap, blank, whole⟩ := exists_blank t
    simp only [members] at read
    generalize skipSpace t = t' at read whole
    cases t' with
    | nil => cases read
    | cons c t' =>
      simp only [beq_iff_eq, if_true] at read
      split at read
      · rename_i close
        cases read
        exact ⟨gap, .inl blank, by rw [whole, close]⟩
      split at read
      · rename_i quote
        obtain ⟨inner, all, text⟩ := member_sound _ _ _ _ _ read gap blank
        exact ⟨inner, .inr all, by rw [whole, quote, text]⟩
      · cases read
  · intro limit t sofar ms rest read
    obtain ⟨gap, blank, whole⟩ := exists_blank t
    simp only [members] at read
    generalize skipSpace t = t' at read whole
    cases t' with
    | nil => cases read
    | cons c t' =>
      simp only [beq_iff_eq, Bool.false_eq_true, if_false] at read
      split at read
      · rename_i close
        cases read
        exact ⟨gap, blank, .inl (by rw [whole, close])⟩
      split at read
      · rename_i comma
        obtain ⟨gap', blank', whole'⟩ := exists_blank t'
        generalize skipSpace t' = t'' at read whole'
        cases t'' with
        | nil => cases read
        | cons d t'' =>
          simp only at read
          split at read
          · rename_i quote
            obtain ⟨inner, all, text⟩ := member_sound _ _ _ _ _ read gap' blank'
            exact ⟨gap, blank, .inr ⟨inner, all, by rw [whole, comma, whole', quote, text]⟩⟩
          split at read
          · cases read
          · cases read
      · cases read

theorem member_sound_succ (value_sound : ValueSound fuel) (members_sound : MembersSound fuel) :
    MemberSound (fuel + 1) := by
  intro limit t sofar ms rest read gap blank
  rw [member] at read
  obtain ⟨⟨k, behind⟩, quoted, read⟩ := bind_eq_ok.mp read
  obtain ⟨key, paired, text⟩ := readString_sound quoted
  obtain ⟨after, blank', whole⟩ := exists_blank behind
  simp only at read
  generalize skipSpace behind = t' at read whole
  cases t' with
  | nil => cases read
  | cons c t' =>
    simp only [beq_iff_eq] at read
    split at read
    · rename_i colon
      obtain ⟨⟨v, behind'⟩, first, later⟩ := bind_eq_ok.mp read
      obtain ⟨gap', front, blank'', admits, rfl⟩ := value_sound _ _ _ _ first
      obtain ⟨back, closed, continues⟩ := members_sound.2 _ _ _ _ _ later
      have one := (Admits.element blank'' admits closed).member blank paired blank'
      rw [text, whole, colon]
      rcases continues with rfl | ⟨inner, more, rfl⟩
      · exact ⟨_, one.lastMember, by simp⟩
      · exact ⟨_, one.members more, by simp⟩
    · cases read

theorem reader_sound (fuel : Nat) :
    ValueSound fuel ∧ ItemsSound fuel ∧ MembersSound fuel ∧ MemberSound fuel := by
  induction fuel with
  | zero =>
    refine ⟨?_, ⟨?_, ?_⟩, ⟨?_, ?_⟩, ?_⟩ <;> intro _ _ <;>
      simp [value, items, members, member, stopAhead]
  | succ fuel ih =>
    obtain ⟨value_sound, items_sound, members_sound, member_sound⟩ := ih
    exact ⟨value_sound_succ items_sound members_sound, items_sound_succ value_sound items_sound,
      members_sound_succ member_sound, member_sound_succ value_sound members_sound⟩

end Soundness

section Completeness

variable {fuel limit : Nat} {c : Char} {t gap rest : Text} {v : Json}

theorem until_of_delimited (n : Numeral) (blank : Blank gap) (delimited : Delimited rest) :
    n.Until (gap ++ rest) := by
  have next : ∀ c ∈ (gap ++ rest).head?, isSpace c ∨ c = ',' ∨ c = ']' ∨ c = '}' := by
    intro c first
    cases gap with
    | nil => exact .inr (delimited c first)
    | cons d gap =>
      simp only [List.cons_append, List.head?_cons, Option.mem_some_iff] at first
      exact .inl (first ▸ blank d (by simp))
  have other : ∀ d, isSpace d = false → d ≠ ',' → d ≠ ']' → d ≠ '}' →
      (gap ++ rest).head? ≠ some d := by
    intro d solid no_comma no_bracket no_brace first
    rcases next d first with blank | same | same | same
    · rw [solid] at blank
      cases blank
    · exact no_comma same
    · exact no_bracket same
    · exact no_brace same
  refine ⟨?_, fun _ c first => ⟨?_, ?_⟩, fun _ _ => ?_⟩
  · cases behind : gap ++ rest with
    | nil => rfl
    | cons c t =>
      rw [behind] at next
      rcases next c rfl with blank | rfl | rfl | rfl
      · simp only [isSpace, Bool.or_eq_true, beq_iff_eq] at blank
        rcases blank with ((rfl | rfl) | rfl) | rfl <;> rfl
      all_goals rfl
  · rintro rfl
    exact other 'e' rfl (by decide) (by decide) (by decide) first
  · rintro rfl
    exact other 'E' rfl (by decide) (by decide) (by decide) first
  · exact other '.' rfl (by decide) (by decide) (by decide)

theorem value_blank (blank : Blank gap) (t : Text) :
    value (fuel + 1) limit (gap ++ t) = value (fuel + 1) limit t := by
  simp only [value, skipSpace_blank blank]

theorem items_blank (blank : Blank gap) (first : Bool) (sofar : List Json) (t : Text) :
    items (fuel + 1) limit first sofar (gap ++ t) = items (fuel + 1) limit first sofar t := by
  simp only [items, skipSpace_blank blank]

theorem members_blank (blank : Blank gap) (first : Bool) (sofar : Entries Text Json) (t : Text) :
    members (fuel + 1) limit first sofar (gap ++ t) = members (fuel + 1) limit first sofar t := by
  simp only [members, skipSpace_blank blank]

theorem Numeral.exists_digit (n : Numeral) :
    ∃ c cs, n.digitsText = c :: cs ∧ isDigit c := by
  obtain ⟨c, cs, front⟩ := List.exists_cons_of_ne_nil n.nonempty
  have digit : isDigit c := n.whole_decimal c (by simp [front])
  exact ⟨c, _, by rw [Numeral.digitsText, front, List.cons_append], digit⟩

theorem isSpace_digit (digit : isDigit c) : isSpace c = false := by
  have bounds := digit_bounds.mp digit
  have other : ∀ d : Char, d.toNat < 48 → c ≠ d := by
    rintro d small rfl
    omega
  simp [isSpace, other ' ' (by decide), other '\n' (by decide), other '\t' (by decide),
    other '\r' (by decide)]

theorem Numeral.begins (n : Numeral) :
    ∃ c cs, n.text = c :: cs ∧ (isDigit c ∨ c = '-') := by
  obtain ⟨c, cs, text, digit⟩ := n.exists_digit
  cases negative : n.negative with
  | true => exact ⟨'-', _, by rw [Numeral.text, Numeral.sign, negative]; rfl, .inr rfl⟩
  | false => exact ⟨c, cs, by simp [Numeral.text, Numeral.sign, negative, text], .inl digit⟩

theorem Derives.begins {depth : Nat} {leaves : List Leaf}
    (derives : Derives .value depth leaves t) :
    ∃ c cs, t = c :: cs ∧ isSpace c = false ∧ c ≠ ']' := by
  cases derives with
  | word named =>
    rcases named with rfl | rfl | rfl
    · exact ⟨'n', _, rfl, rfl, by decide⟩
    · exact ⟨'t', _, rfl, rfl, by decide⟩
    · exact ⟨'f', _, rfl, rfl, by decide⟩
  | number n =>
    obtain ⟨c, cs, text, digit | rfl⟩ := n.begins
    · refine ⟨c, cs, text, isSpace_digit digit, ?_⟩
      rintro rfl
      cases digit
    · exact ⟨'-', cs, text, rfl, by decide⟩
  | string items => exact ⟨'"', _, rfl, rfl, by decide⟩
  | emptyArray blank => exact ⟨'[', _, rfl, rfl, by decide⟩
  | array inner => exact ⟨'[', _, rfl, rfl, by decide⟩
  | nested inner =>
    cases inner with
    | emptyObject blank => exact ⟨'{', _, rfl, rfl, by decide⟩
    | object inner => exact ⟨'{', _, rfl, rfl, by decide⟩

theorem Derives.element_begins {depth : Nat} {leaves : List Leaf}
    (derives : Derives .element depth leaves t) :
    ∃ gap c cs, t = gap ++ c :: cs ∧ Blank gap ∧ isSpace c = false ∧ c ≠ ']' := by
  cases derives with
  | element front inner back =>
    obtain ⟨c, cs, rfl, solid, no_end⟩ := inner.begins
    exact ⟨_, c, _, rfl, front, solid, no_end⟩

theorem Derives.elements_begins {depth : Nat} {leaves : List Leaf}
    (derives : Derives .elements depth leaves t) :
    ∃ gap c cs, t = gap ++ c :: cs ∧ Blank gap ∧ isSpace c = false ∧ c ≠ ']' := by
  cases derives with
  | lastElement last => exact last.element_begins
  | elements first rest =>
    obtain ⟨gap, c, cs, rfl, blank, solid, no_end⟩ := first.element_begins
    exact ⟨gap, c, _, List.append_assoc gap (c :: cs) _, blank, solid, no_end⟩

theorem items_value {c : Char} (solid : isSpace c = false) (no_end : c ≠ ']') (sofar : List Json)
    (t : Text) : items (fuel + 1) limit true sofar (c :: t) =
      value fuel limit (c :: t) >>= fun p => items fuel limit false (sofar ++ [p.1]) p.2 := by
  simp only [items, skipSpace_cons solid, beq_iff_eq, if_neg no_end, if_true]

theorem items_comma {c : Char} (blank : Blank gap) (solid : isSpace c = false) (no_end : c ≠ ']')
    (sofar : List Json) (t : Text) : items (fuel + 1) limit false sofar (',' :: (gap ++ c :: t)) =
      value fuel limit (c :: t) >>= fun p => items fuel limit false (sofar ++ [p.1]) p.2 := by
  have comma : isSpace ',' = false := rfl
  simp [items, skipSpace_cons comma, skipSpace_blank blank, skipSpace_cons solid, no_end]

theorem members_quote (sofar : Entries Text Json) (t : Text) :
    members (fuel + 1) limit true sofar ('"' :: t) = member fuel limit sofar t := by
  have quote : isSpace '"' = false := rfl
  simp [members, skipSpace_cons quote]

theorem members_comma (blank : Blank gap) (sofar : Entries Text Json) (t : Text) :
    members (fuel + 1) limit false sofar (',' :: (gap ++ '"' :: t)) =
      member fuel limit sofar t := by
  have comma : isSpace ',' = false := rfl
  have quote : isSpace '"' = false := rfl
  simp [members, skipSpace_cons comma, skipSpace_blank blank, skipSpace_cons quote]

/-- What reading comes to, phrase by phrase. Fuel for two calls a character is enough. Items and
members are read up to the end of what they stand in. -/
def ReadsThrough (depth : Nat) (t : Text) : Phrase → Prop
  | .value | .object => ∀ fuel limit gap rest, 2 * t.length ≤ fuel → depth ≤ limit - 1 → Blank gap →
      Delimited rest → ∃ v, value fuel limit (t ++ (gap ++ rest)) = .ok (v, gap ++ rest)
  | .element => ∀ fuel limit rest, 2 * t.length ≤ fuel → depth ≤ limit - 1 → Delimited rest →
      ∃ v gap, Blank gap ∧ value fuel limit (t ++ rest) = .ok (v, gap ++ rest)
  | .elements => ∀ fuel limit rest, 2 * t.length ≤ fuel → depth ≤ limit - 1 →
      ∃ v behind, value fuel limit (t ++ ']' :: rest) = .ok (v, behind) ∧
        ∀ sofar, ∃ vs, items fuel limit false sofar behind = .ok (vs, rest)
  | .member => ∃ gap tail, Blank gap ∧ t = gap ++ '"' :: tail ∧
      ∀ fuel limit sofar rest, 2 * t.length ≤ fuel + 1 → depth ≤ limit - 1 → Delimited rest →
        ∃ sofar' gap', Blank gap' ∧ member (fuel + 1) limit sofar (tail ++ rest) =
          members fuel limit false sofar' (gap' ++ rest)
  | .members => ∃ gap tail, Blank gap ∧ t = gap ++ '"' :: tail ∧
      ∀ fuel limit sofar rest, 2 * t.length ≤ fuel → depth ≤ limit - 1 →
        ∃ ms, member fuel limit sofar (tail ++ '}' :: rest) = .ok (ms, rest)

theorem value_word {w : Text} (named : w = "null".toList ∨ w = "true".toList ∨ w = "false".toList)
    (t : Text) : ∃ v, value (fuel + 1) limit (w ++ t) = .ok (v, t) := by
  rcases named with rfl | rfl | rfl
  · refine ⟨null, ?_⟩
    have text : "null".toList ++ t = 'n' :: ("ull".toList ++ t) := rfl
    rw [text, ← readIdent_append null "ull".toList t]
    simp [value, skipSpace_cons (show isSpace 'n' = false from rfl)]
  · refine ⟨bool true, ?_⟩
    have text : "true".toList ++ t = 't' :: ("rue".toList ++ t) := rfl
    rw [text, ← readIdent_append (bool true) "rue".toList t]
    simp [value, skipSpace_cons (show isSpace 't' = false from rfl)]
  · refine ⟨bool false, ?_⟩
    have text : "false".toList ++ t = 'f' :: ("alse".toList ++ t) := rfl
    rw [text, ← readIdent_append (bool false) "alse".toList t]
    simp [value, skipSpace_cons (show isSpace 'f' = false from rfl)]

theorem value_number {n : Numeral} (in_range : ¬ n.OutOfRange) (follow : n.Until rest) :
    ∃ v, value (fuel + 1) limit (n.text ++ rest) = .ok (v, rest) := by
  obtain ⟨v, read⟩ := readNumber_complete (!n.negative) in_range follow
  refine ⟨v, ?_⟩
  cases sign : n.negative with
  | true =>
    have minus : isSpace '-' = false := rfl
    simp only [sign, Bool.not_true] at read
    simp [Numeral.text, Numeral.sign, sign, value, skipSpace_cons minus, read]
  | false =>
    obtain ⟨c, cs, text, digit⟩ := n.exists_digit
    have unsigned : n.text = n.digitsText := by simp [Numeral.text, Numeral.sign, sign]
    rw [sign, text] at read
    rw [unsigned, text, List.cons_append, value_digit digit]
    exact read

theorem value_string {items : List StringItem} (paired : Paired items) (rest : Text) :
    ∃ v, value (fuel + 1) limit (stringText items ++ rest) = .ok (v, rest) := by
  obtain ⟨s, read⟩ := readString_complete paired rest
  have quote : isSpace '"' = false := rfl
  have no_digit : isDigit '"' = false := rfl
  have text : stringText items ++ rest = '"' :: (items.flatMap StringItem.text ++ '"' :: rest) := by
    simp [stringText]
  refine ⟨string s, ?_⟩
  rw [text]
  simp [value, skipSpace_cons quote, no_digit, read, bind, Except.bind, pure, Except.pure]

theorem readsThrough_emptyArray (blank : Blank gap) :
    ReadsThrough 1 ('[' :: (gap ++ [']'])) .value := by
  intro fuel limit after rest enough shallow _ _
  simp only [List.length_cons, List.length_append, List.length_nil] at enough
  obtain ⟨m, rfl⟩ : ∃ m, fuel = m + 2 := ⟨fuel - 2, by omega⟩
  obtain ⟨l, rfl⟩ : ∃ l, limit = l + 2 := ⟨limit - 2, by omega⟩
  refine ⟨array [], ?_⟩
  have text : '[' :: (gap ++ [']']) ++ (after ++ rest) =
      '[' :: (gap ++ ']' :: (after ++ rest)) := by simp
  rw [text, value_bracket, items_blank blank, items_end]
  rfl

theorem readsThrough_array {depth : Nat} {leaves : List Leaf}
    (inner : Derives .elements depth leaves t) (ih : ReadsThrough depth t .elements) :
    ReadsThrough (depth + 1) ('[' :: (t ++ [']'])) .value := by
  intro fuel limit after rest enough shallow _ _
  obtain ⟨gap, c, cs, begins, blank, solid, no_end⟩ := inner.elements_begins
  have proper : 1 ≤ t.length := by simp [begins]; omega
  simp only [List.length_cons, List.length_append, List.length_nil] at enough
  obtain ⟨m, rfl⟩ : ∃ m, fuel = m + 3 := ⟨fuel - 3, by omega⟩
  obtain ⟨l, rfl⟩ : ∃ l, limit = l + 2 := ⟨limit - 2, by omega⟩
  obtain ⟨v, behind, read, later⟩ := ih (m + 1) (l + 1) (after ++ rest) (by omega) (by omega)
  obtain ⟨vs, read'⟩ := later [v]
  refine ⟨array vs, ?_⟩
  have text : '[' :: (t ++ [']']) ++ (after ++ rest) = '[' :: (t ++ ']' :: (after ++ rest)) := by
    simp
  rw [begins, List.append_assoc, List.cons_append, value_blank blank] at read
  rw [text, value_bracket, begins, List.append_assoc, List.cons_append, items_blank blank,
    items_value solid no_end, read]
  simp only [bind, Except.bind, List.nil_append, read']
  rfl

theorem readsThrough_emptyObject (blank : Blank gap) :
    ReadsThrough 1 ('{' :: (gap ++ ['}'])) .object := by
  intro fuel limit after rest enough shallow _ _
  simp only [List.length_cons, List.length_append, List.length_nil] at enough
  obtain ⟨m, rfl⟩ : ∃ m, fuel = m + 2 := ⟨fuel - 2, by omega⟩
  obtain ⟨l, rfl⟩ : ∃ l, limit = l + 2 := ⟨limit - 2, by omega⟩
  refine ⟨object [], ?_⟩
  have text : '{' :: (gap ++ ['}']) ++ (after ++ rest) =
      '{' :: (gap ++ '}' :: (after ++ rest)) := by simp
  rw [text, value_brace, members_blank blank, members_end]
  rfl

theorem readsThrough_object {depth : Nat} (ih : ReadsThrough depth t .members) :
    ReadsThrough (depth + 1) ('{' :: (t ++ ['}'])) .object := by
  intro fuel limit after rest enough shallow _ _
  obtain ⟨gap, tail, blank, rfl, read⟩ := ih
  simp only [List.length_cons, List.length_append, List.length_nil] at enough
  obtain ⟨m, rfl⟩ : ∃ m, fuel = m + 2 := ⟨fuel - 2, by omega⟩
  obtain ⟨l, rfl⟩ : ∃ l, limit = l + 2 := ⟨limit - 2, by omega⟩
  obtain ⟨ms, read⟩ := read m (l + 1) [] (after ++ rest)
    (by simp only [List.length_cons, List.length_append]; omega) (by omega)
  refine ⟨object ms, ?_⟩
  have text : '{' :: (gap ++ '"' :: tail ++ ['}']) ++ (after ++ rest) =
      '{' :: (gap ++ '"' :: (tail ++ '}' :: (after ++ rest))) := by simp
  rw [text, value_brace, members_blank blank, members_quote, read]
  rfl

theorem readsThrough_element {depth : Nat} {leaves : List Leaf} {before after : Text}
    (front : Blank before) (inner : Derives .value depth leaves t) (back : Blank after)
    (ih : ReadsThrough depth t .value) :
    ReadsThrough depth (before ++ (t ++ after)) .element := by
  intro fuel limit rest enough shallow delimited
  obtain ⟨c, cs, begins, -⟩ := inner.begins
  have proper : 1 ≤ t.length := by simp [begins]
  simp only [List.length_append] at enough
  obtain ⟨m, rfl⟩ : ∃ m, fuel = m + 1 := ⟨fuel - 1, by omega⟩
  obtain ⟨v, read⟩ := ih (m + 1) limit after rest (by omega) shallow back delimited
  exact ⟨v, after, back, by rw [List.append_assoc, value_blank front, List.append_assoc, read]⟩

theorem readsThrough_lastElement {depth : Nat} {leaves : List Leaf}
    (last : Derives .element depth leaves t) (ih : ReadsThrough depth t .element) :
    ReadsThrough depth t .elements := by
  intro fuel limit rest enough shallow
  obtain ⟨gap, c, cs, begins, -⟩ := last.element_begins
  have proper : 1 ≤ t.length := by simp [begins]; omega
  obtain ⟨m, rfl⟩ : ∃ m, fuel = m + 1 := ⟨fuel - 1, by omega⟩
  obtain ⟨v, gap', blank, read⟩ := ih (m + 1) limit (']' :: rest) enough shallow
    (by simp [Delimited])
  exact ⟨v, _, read, fun sofar => ⟨sofar, by rw [items_blank blank, items_end]⟩⟩

theorem readsThrough_elements {depth depth' : Nat} {leaves' : List Leaf} {t' : Text}
    (rest : Derives .elements depth' leaves' t')
    (ih : ReadsThrough depth t .element) (ih' : ReadsThrough depth' t' .elements) :
    ReadsThrough (max depth depth') (t ++ ',' :: t') .elements := by
  intro fuel limit after enough shallow
  obtain ⟨gap, c, cs, begins, blank, solid, no_end⟩ := rest.elements_begins
  have proper : 1 ≤ t'.length := by simp [begins]; omega
  simp only [List.length_cons, List.length_append] at enough
  obtain ⟨m, rfl⟩ : ∃ m, fuel = m + 2 := ⟨fuel - 2, by omega⟩
  obtain ⟨v, gap', blank', read⟩ := ih (m + 2) limit (',' :: (t' ++ ']' :: after)) (by omega)
    (by omega) (by simp [Delimited])
  obtain ⟨w, behind, read', later⟩ := ih' (m + 1) limit after (by omega) (by omega)
  refine ⟨v, _, by rw [List.append_assoc, List.cons_append, read], fun sofar => ?_⟩
  obtain ⟨vs, read''⟩ := later (sofar ++ [w])
  refine ⟨vs, ?_⟩
  rw [begins, List.append_assoc, List.cons_append, value_blank blank] at read'
  rw [items_blank blank', begins, List.append_assoc, List.cons_append,
    items_comma blank solid no_end, read']
  simp only [bind, Except.bind, read'']

theorem readsThrough_member {depth : Nat} {before after : Text} (front : Blank before)
    {key : List StringItem} (paired : Paired key) (back : Blank after)
    (ih : ReadsThrough depth t .element) :
    ReadsThrough depth (before ++ (stringText key ++ (after ++ ':' :: t))) .member := by
  refine ⟨before, key.flatMap StringItem.text ++ '"' :: (after ++ ':' :: t), front,
    by simp [stringText], ?_⟩
  intro fuel limit sofar rest enough shallow delimited
  obtain ⟨k, quoted⟩ := readString_complete paired (after ++ ':' :: (t ++ rest))
  simp only [List.length_cons, List.length_append, stringText] at enough
  obtain ⟨v, gap, blank, read⟩ := ih fuel limit rest (by omega) shallow delimited
  refine ⟨sofar.put k v, gap, blank, ?_⟩
  have colon : isSpace ':' = false := rfl
  have text : key.flatMap StringItem.text ++ '"' :: (after ++ ':' :: t) ++ rest =
      key.flatMap StringItem.text ++ '"' :: (after ++ ':' :: (t ++ rest)) := by simp
  rw [text, member, quoted]
  simp [skipSpace_blank back, skipSpace_cons colon, read, bind, Except.bind]

theorem readsThrough_lastMember {depth : Nat} (ih : ReadsThrough depth t .member) :
    ReadsThrough depth t .members := by
  obtain ⟨gap, tail, blank, text, reads⟩ := ih
  refine ⟨gap, tail, blank, text, ?_⟩
  intro fuel limit sofar rest enough shallow
  have proper : 1 ≤ t.length := by simp [text]; omega
  obtain ⟨m, rfl⟩ : ∃ m, fuel = m + 2 := ⟨fuel - 2, by omega⟩
  obtain ⟨sofar', gap', blank', read⟩ := reads (m + 1) limit sofar ('}' :: rest) enough shallow
    (by simp [Delimited])
  exact ⟨sofar', by rw [read, members_blank blank', members_end]⟩

theorem readsThrough_members {depth depth' : Nat} {t' : Text}
    (ih : ReadsThrough depth t .member) (ih' : ReadsThrough depth' t' .members) :
    ReadsThrough (max depth depth') (t ++ ',' :: t') .members := by
  obtain ⟨gap, tail, blank, rfl, reads⟩ := ih
  obtain ⟨gap', tail', blank', rfl, reads'⟩ := ih'
  refine ⟨gap, tail ++ ',' :: (gap' ++ '"' :: tail'), blank, by simp, ?_⟩
  intro fuel limit sofar rest enough shallow
  simp only [List.length_cons, List.length_append] at enough
  obtain ⟨m, rfl⟩ : ∃ m, fuel = m + 2 := ⟨fuel - 2, by omega⟩
  obtain ⟨sofar', gap'', blank'', read⟩ := reads (m + 1) limit sofar
    (',' :: (gap' ++ '"' :: (tail' ++ '}' :: rest)))
    (by simp only [List.length_cons, List.length_append]; omega) (by omega) (by simp [Delimited])
  obtain ⟨ms, read'⟩ := reads' m limit sofar' rest
    (by simp only [List.length_cons, List.length_append]; omega) (by omega)
  refine ⟨ms, ?_⟩
  have text : tail ++ ',' :: (gap' ++ '"' :: tail') ++ '}' :: rest =
      tail ++ ',' :: (gap' ++ '"' :: (tail' ++ '}' :: rest)) := by simp
  rw [text, read, members_blank blank'', members_comma blank', read']

theorem Derives.readsThrough {p : Phrase} {depth : Nat} {leaves : List Leaf}
    (derives : Derives p depth leaves t) (kept : ∀ leaf ∈ leaves, ¬ leaf.Refused) :
    ReadsThrough depth t p := by
  -- Each phrase is one rule of the grammar; the fuel for a leaf comes from its own characters.
  induction derives with
  | word named =>
    intro fuel limit gap rest enough _ blank delimited
    obtain ⟨m, rfl⟩ : ∃ m, fuel = m + 1 := ⟨fuel - 1, by
      rcases named with rfl | rfl | rfl <;> simp at enough <;> omega⟩
    exact value_word named _
  | number n =>
    intro fuel limit gap rest enough _ blank delimited
    obtain ⟨c, cs, text, -⟩ := n.exists_digit
    obtain ⟨m, rfl⟩ : ∃ m, fuel = m + 1 := ⟨fuel - 1, by
      simp [Numeral.text, text] at enough; omega⟩
    have in_range : ¬ n.OutOfRange := kept (.number n) (by simp)
    exact value_number in_range (until_of_delimited n blank delimited)
  | string items =>
    intro fuel limit gap rest enough _ blank delimited
    obtain ⟨m, rfl⟩ : ∃ m, fuel = m + 1 := ⟨fuel - 1, by simp [stringText] at enough; omega⟩
    have paired : Paired items := not_not.mp (kept (.string items) (by simp))
    exact value_string paired _
  | emptyArray blank => exact readsThrough_emptyArray blank
  | array inner ih => exact readsThrough_array inner (ih kept)
  | emptyObject blank => exact readsThrough_emptyObject blank
  | object inner ih => exact readsThrough_object (ih kept)
  | nested inner ih => exact ih kept
  | element front inner back ih => exact readsThrough_element front inner back (ih kept)
  | lastElement last ih => exact readsThrough_lastElement last (ih kept)
  | elements first rest ih ih' =>
    exact readsThrough_elements rest (ih fun leaf early => kept leaf (by simp [early]))
      (ih' fun leaf late => kept leaf (by simp [late]))
  | member front key back inner ih =>
    have paired : Paired key := not_not.mp (kept (.string key) (by simp))
    exact readsThrough_member front paired back (ih fun leaf later => kept leaf (by simp [later]))
  | lastMember last ih => exact readsThrough_lastMember (ih kept)
  | members first rest ih ih' =>
    exact readsThrough_members (ih fun leaf early => kept leaf (by simp [early]))
      (ih' fun leaf late => kept leaf (by simp [late]))

end Completeness

section Texts

variable {t : Text}

theorem blank_of_skipSpace (empty : skipSpace t = []) : Blank t := by
  obtain ⟨gap, blank, whole⟩ := exists_blank t
  rw [empty, List.append_nil] at whole
  rw [whole]
  exact blank

/-- A text is read exactly if it is one value between blanks, within all limits. -/
theorem readWith_isOk_iff (limit : Nat) :
    (∃ v, readWith limit t = .ok v) ↔ Admits (limit - 1) .element t := by
  have mapped : ∀ x : Except Stop Json,
      (∃ v, x.mapError (Stop.fault · t) = .ok v) ↔ ∃ v, x = .ok v := by
    intro x
    cases x <;> simp [Except.mapError]
  rw [readWith, mapped]
  constructor
  · rintro ⟨w, whole⟩
    obtain ⟨⟨v, rest⟩, first, read⟩ := bind_eq_ok.mp whole
    obtain ⟨gap, front, blank, admits, rfl⟩ := (reader_sound _).1 _ _ _ _ first
    have after : Blank rest := by
      apply blank_of_skipSpace
      cases behind : skipSpace rest with
      | nil => rfl
      | cons c cs => simp [behind, stopAhead] at read
    exact admits.element blank after
  · rintro ⟨depth, leaves, derives, shallow, kept⟩
    obtain ⟨v, gap, blank, read⟩ := derives.readsThrough kept (4 * t.length + 4) limit []
      (by omega) shallow (by simp [Delimited])
    rw [List.append_nil, List.append_nil] at read
    refine ⟨v, bind_eq_ok.mpr ⟨_, read, ?_⟩⟩
    have empty : skipSpace gap = [] := by
      simpa [skipSpace] using skipSpace_blank blank []
    simp [empty, pure, Except.pure]

end Texts

end Json
end RequireInjection
