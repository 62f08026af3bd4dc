import RequireInjection.Proofs.Json.Acceptance

/-!
The grammar of JSON texts is unambiguous. Two derivations of a phrase at one place agree if neither
could have gone on, so that the depth of a text and the strings and numbers in it are its own. An
object that cannot be read therefore has a reason that does not depend on how it is derived.
-/
namespace RequireInjection
namespace Json

section Strings

variable {t t' : Text}

theorem StringItem.text_unique {item item' : StringItem}
    (same : item.text ++ t = item'.text ++ t') : item = item' ∧ t = t' := by
  have unnamed : 'u' ∉ ['"', '\\', '/', 'b', 'f', 'n', 'r', 't'] := by decide
  cases item with
  | plain c printed no_quote no_backslash =>
    cases item' with
    | plain c' _ _ _ =>
      obtain ⟨rfl, rfl⟩ := List.cons.inj same
      exact ⟨rfl, rfl⟩
    | mark | unit => exact absurd (List.cons.inj same).1 no_backslash
  | mark c named =>
    cases item' with
    | plain c' _ _ no_backslash => exact absurd (List.cons.inj same).1.symm no_backslash
    | mark c' named' =>
      obtain ⟨rfl, rfl⟩ := List.cons.inj (List.cons.inj same).2
      exact ⟨rfl, rfl⟩
    | unit digits four hex =>
      rw [(List.cons.inj (List.cons.inj same).2).1] at named
      exact absurd named unnamed
  | unit digits four hex =>
    cases item' with
    | plain c' _ _ no_backslash => exact absurd (List.cons.inj same).1.symm no_backslash
    | mark c' named' =>
      rw [← (List.cons.inj (List.cons.inj same).2).1] at named'
      exact absurd named' unnamed
    | unit digits' four' hex' =>
      obtain ⟨rfl, rfl⟩ := List.append_inj (List.cons.inj (List.cons.inj same).2).2
        (four.trans four'.symm)
      exact ⟨rfl, rfl⟩

theorem StringItem.no_quote (item : StringItem) (t t' : Text) : item.text ++ t ≠ '"' :: t' := by
  intro same
  cases item with
  | plain c _ no_quote _ => exact no_quote (List.cons.inj same).1
  | mark c _ => cases (List.cons.inj same).1
  | unit digits _ _ => cases (List.cons.inj same).1

theorem items_unique {items items' : List StringItem}
    (same : items.flatMap StringItem.text ++ '"' :: t =
      items'.flatMap StringItem.text ++ '"' :: t') : items = items' ∧ t = t' := by
  induction items generalizing items' with
  | nil =>
    cases items' with
    | nil => exact ⟨rfl, (List.cons.inj same).2⟩
    | cons item' items' =>
      rw [List.flatMap_cons, List.append_assoc] at same
      exact absurd same.symm (item'.no_quote _ _)
  | cons item items ih =>
    rw [List.flatMap_cons, List.append_assoc] at same
    cases items' with
    | nil => exact absurd same (item.no_quote _ _)
    | cons item' items' =>
      rw [List.flatMap_cons, List.append_assoc] at same
      obtain ⟨rfl, later⟩ := StringItem.text_unique same
      obtain ⟨rfl, rfl⟩ := ih later
      exact ⟨rfl, rfl⟩

theorem stringText_unique {items items' : List StringItem}
    (same : stringText items ++ t = stringText items' ++ t') : items = items' ∧ t = t' := by
  apply items_unique
  simpa [stringText] using same

end Strings

section Numbers

variable {ds ds' rest rest' : Text}

theorem digits_unique (digits : ∀ c ∈ ds, isDigit c) (digits' : ∀ c ∈ ds', isDigit c)
    (ends : Ends rest) (ends' : Ends rest') (same : ds ++ rest = ds' ++ rest') :
    ds = ds' ∧ rest = rest' := by
  have behind : rest = rest' := by
    rw [← dropWhile_digits digits ends, same, dropWhile_digits digits' ends']
  subst behind
  exact ⟨List.append_cancel_right same, rfl⟩

theorem sign_unique {sign sign' : Text} (signed : sign = [] ∨ sign = ['+'] ∨ sign = ['-'])
    (signed' : sign' = [] ∨ sign' = ['+'] ∨ sign' = ['-']) (digits : ∀ c ∈ ds, isDigit c)
    (digits' : ∀ c ∈ ds', isDigit c) (nonempty : ds ≠ []) (nonempty' : ds' ≠ [])
    (same : sign ++ (ds ++ rest) = sign' ++ (ds' ++ rest')) :
    sign = sign' ∧ ds ++ rest = ds' ++ rest' := by
  obtain ⟨d, ds, rfl⟩ := List.exists_cons_of_ne_nil nonempty
  obtain ⟨d', ds', rfl⟩ := List.exists_cons_of_ne_nil nonempty'
  have digit : isDigit d := digits d (by simp)
  have digit' : isDigit d' := digits' d' (by simp)
  have unsigned : ∀ c, isDigit c → c ≠ '+' ∧ c ≠ '-' := by
    intro c decimal
    constructor <;> rintro rfl <;> cases decimal
  rcases signed with rfl | rfl | rfl
  · rcases signed' with rfl | rfl | rfl
    · exact ⟨rfl, same⟩
    · exact absurd (List.cons.inj same).1 (unsigned d digit).1
    · exact absurd (List.cons.inj same).1 (unsigned d digit).2
  · rcases signed' with rfl | rfl | rfl
    · exact absurd (List.cons.inj same).1.symm (unsigned d' digit').1
    · exact ⟨rfl, (List.cons.inj same).2⟩
    · cases (List.cons.inj same).1
  · rcases signed' with rfl | rfl | rfl
    · exact absurd (List.cons.inj same).1.symm (unsigned d' digit').2
    · cases (List.cons.inj same).1
    · exact ⟨rfl, (List.cons.inj same).2⟩

theorem Exponent.text_unique {x x' : Exponent} (ends : Ends rest) (ends' : Ends rest')
    (same : x.text ++ rest = x'.text ++ rest') : x = x' ∧ rest = rest' := by
  obtain ⟨mark, sign, digits, marked, signed, nonempty, decimal⟩ := x
  obtain ⟨mark', sign', digits', marked', signed', nonempty', decimal'⟩ := x'
  simp only [Exponent.text, List.cons_append, List.append_assoc] at same
  obtain ⟨rfl, behind⟩ := List.cons.inj same
  obtain ⟨rfl, behind'⟩ := sign_unique signed signed' decimal decimal' nonempty nonempty' behind
  obtain ⟨rfl, rfl⟩ := digits_unique decimal decimal' ends ends' behind'
  exact ⟨rfl, rfl⟩

theorem exponentText_unique {x? x?' : Option Exponent} (ends : Ends rest) (ends' : Ends rest')
    (unmarked : x? = none → Unmarked rest) (unmarked' : x?' = none → Unmarked rest')
    (same : exponentText x? ++ rest = exponentText x?' ++ rest') : x? = x?' ∧ rest = rest' := by
  have clash : ∀ (x : Exponent) (t t' : Text), Unmarked t → t ≠ x.text ++ t' := by
    rintro x t t' plain rfl
    have other := plain x.mark rfl
    rcases x.marked with mark | mark
    · exact other.1 mark
    · exact other.2 mark
  cases x? with
  | none =>
    cases x?' with
    | none => exact ⟨rfl, same⟩
    | some x' => exact absurd same (clash x' _ _ (unmarked rfl))
  | some x =>
    cases x?' with
    | none => exact absurd same.symm (clash x _ _ (unmarked' rfl))
    | some x' =>
      obtain ⟨rfl, rfl⟩ := Exponent.text_unique ends ends' same
      exact ⟨rfl, rfl⟩

theorem fractionText_unique (digits : ∀ c ∈ ds, isDigit c) (digits' : ∀ c ∈ ds', isDigit c)
    (ends : Ends rest) (ends' : Ends rest') (pointless : ds = [] → rest.head? ≠ some '.')
    (pointless' : ds' = [] → rest'.head? ≠ some '.')
    (same : fractionText ds ++ rest = fractionText ds' ++ rest') : ds = ds' ∧ rest = rest' := by
  unfold fractionText at same
  by_cases whole : ds = []
  · by_cases whole' : ds' = []
    · rw [if_pos whole, if_pos whole'] at same
      exact ⟨whole.trans whole'.symm, same⟩
    · rw [if_pos whole, if_neg whole', List.nil_append] at same
      exact absurd (by rw [same]; rfl) (pointless whole)
  · by_cases whole' : ds' = []
    · rw [if_neg whole, if_pos whole', List.nil_append] at same
      exact absurd (by rw [← same]; rfl) (pointless' whole')
    · rw [if_neg whole, if_neg whole'] at same
      exact digits_unique digits digits' ends ends' (List.cons.inj same).2

theorem Numeral.Until.no_point {n : Numeral} (follow : n.Until rest) (whole : n.fraction = []) :
    (exponentText n.exponent ++ rest).head? ≠ some '.' := by
  cases written : n.exponent with
  | none => exact follow.pointless written whole
  | some x =>
    have other : x.mark ≠ '.' := by
      rcases x.marked with mark | mark <;> rw [mark] <;> decide
    simpa [exponentText, Exponent.text] using other

theorem Numeral.digitsText_unique {n n' : Numeral} (follow : n.Until rest)
    (follow' : n'.Until rest') (same : n.digitsText ++ rest = n'.digitsText ++ rest') :
    n.whole = n'.whole ∧ n.fraction = n'.fraction ∧ n.exponent = n'.exponent ∧ rest = rest' := by
  simp only [Numeral.digitsText, List.append_assoc] at same
  obtain ⟨whole, behind⟩ := digits_unique n.whole_decimal n'.whole_decimal
    (ends_fractionText follow.ends) (ends_fractionText follow'.ends) same
  obtain ⟨fraction, behind'⟩ := fractionText_unique n.fraction_decimal n'.fraction_decimal
    (ends_exponentText _ follow.ends) (ends_exponentText _ follow'.ends) follow.no_point
    follow'.no_point behind
  obtain ⟨exponent, behind''⟩ := exponentText_unique follow.ends follow'.ends follow.unmarked
    follow'.unmarked behind'
  exact ⟨whole, fraction, exponent, behind''⟩

theorem Numeral.unique {n n' : Numeral} (follow : n.Until rest) (follow' : n'.Until rest')
    (same : n.text ++ rest = n'.text ++ rest') : n = n' ∧ rest = rest' := by
  have unsigned : ∀ (m : Numeral) t t', m.digitsText ++ t ≠ '-' :: t' := by
    intro m t t' minus
    obtain ⟨c, cs, text, digit⟩ := m.exists_digit
    rw [text] at minus
    rw [(List.cons.inj minus).1] at digit
    cases digit
  have sign : n.negative = n'.negative ∧ n.digitsText ++ rest = n'.digitsText ++ rest' := by
    simp only [Numeral.text, Numeral.sign, List.append_assoc] at same
    cases negative : n.negative with
    | true =>
      cases negative' : n'.negative with
      | true => exact ⟨rfl, by simpa [negative, negative'] using same⟩
      | false => exact absurd (by simpa [negative, negative'] using same.symm) (unsigned n' _ _)
    | false =>
      cases negative' : n'.negative with
      | true => exact absurd (by simpa [negative, negative'] using same) (unsigned n _ _)
      | false => exact ⟨rfl, by simpa [negative, negative'] using same⟩
  obtain ⟨whole, fraction, exponent, behind⟩ := Numeral.digitsText_unique follow follow' sign.2
  refine ⟨?_, behind⟩
  have sign := sign.1
  cases n
  cases n'
  simp_all

end Numbers

section Texts

variable {t t' gap gap' rest rest' : Text} {depth depth' : Nat} {leaves leaves' : List Leaf}

def Solid (t : Text) : Prop := ∀ c ∈ t.head?, isSpace c = false

theorem blank_unique (blank : Blank gap) (blank' : Blank gap') (solid : Solid t) (solid' : Solid t')
    (same : gap ++ t = gap' ++ t') : gap = gap' ∧ t = t' := by
  have kept : ∀ t, Solid t → skipSpace t = t := by
    intro t solid
    cases t with
    | nil => rfl
    | cons c t => exact skipSpace_cons (solid c rfl) t
  have behind : t = t' := by
    rw [← kept t solid, ← skipSpace_blank blank, same, skipSpace_blank blank', kept t' solid']
  subst behind
  exact ⟨List.append_cancel_right same, rfl⟩

theorem Delimited.solid (delimited : Delimited rest) : Solid rest := by
  intro c first
  rcases delimited c first with rfl | rfl | rfl <;> rfl

/-- What follows a phrase and cannot belong to it. -/
def Follows : Phrase → Text → Prop
  | .value, rest | .object, rest => ∃ gap t, Blank gap ∧ Delimited t ∧ rest = gap ++ t
  | .element, rest | .member, rest => Delimited rest
  | .elements, rest => rest.head? = some ']'
  | .members, rest => rest.head? = some '}'

inductive Shape where
  | word | number | string | array | object
  deriving DecidableEq

def shapeOf (c : Char) : Shape :=
  if isDigit c || c == '-' then .number
  else if c == '"' then .string
  else if c == '[' then .array
  else if c == '{' then .object
  else .word

inductive Shaped : Shape → Nat → List Leaf → Text → Prop where
  | word {w : Text} (named : w = "null".toList ∨ w = "true".toList ∨ w = "false".toList) :
      Shaped .word 0 [] w
  | number (n : Numeral) : Shaped .number 0 [.number n] n.text
  | string (items : List StringItem) : Shaped .string 0 [.string items] (stringText items)
  | emptyArray {gap : Text} (blank : Blank gap) : Shaped .array 1 [] ('[' :: (gap ++ [']']))
  | array {depth : Nat} {leaves : List Leaf} {t : Text} (inner : Derives .elements depth leaves t) :
      Shaped .array (depth + 1) leaves ('[' :: (t ++ [']']))
  | object {depth : Nat} {leaves : List Leaf} {t : Text} (inner : Derives .object depth leaves t) :
      Shaped .object depth leaves t

theorem shapeOf_number {c : Char} (first : isDigit c ∨ c = '-') : shapeOf c = .number := by
  rcases first with digit | rfl
  · simp [shapeOf, digit]
  · rfl

theorem Derives.shaped (derives : Derives .value depth leaves t) :
    ∃ c cs, t = c :: cs ∧ Shaped (shapeOf c) depth leaves t := by
  cases derives with
  | word named =>
    rcases named with rfl | rfl | rfl
    · exact ⟨'n', _, rfl, .word (.inl rfl)⟩
    · exact ⟨'t', _, rfl, .word (.inr (.inl rfl))⟩
    · exact ⟨'f', _, rfl, .word (.inr (.inr rfl))⟩
  | number n =>
    obtain ⟨c, cs, text, first⟩ := n.begins
    have shaped : Shaped (shapeOf c) 0 [.number n] n.text := by
      rw [shapeOf_number first]
      exact .number n
    exact ⟨c, cs, text, shaped⟩
  | string items => exact ⟨'"', _, rfl, .string items⟩
  | emptyArray blank => exact ⟨'[', _, rfl, .emptyArray blank⟩
  | array inner => exact ⟨'[', _, rfl, .array inner⟩
  | nested inner =>
    cases inner with
    | emptyObject blank => exact ⟨'{', _, rfl, .object (.emptyObject blank)⟩
    | object inner => exact ⟨'{', _, rfl, .object (.object inner)⟩

theorem Derives.object_of_brace (derives : Derives .value depth leaves t)
    (brace : t.head? = some '{') : Derives .object depth leaves t := by
  obtain ⟨c, cs, rfl, shaped⟩ := derives.shaped
  obtain rfl : c = '{' := by simpa using brace
  cases shaped with
  | object inner => exact inner

theorem Derives.braced (derives : Derives .element depth leaves t) (first : t.head? = some '{')
    (last : t.getLast? = some '}') : Derives .object depth leaves t := by
  cases derives with
  | @element _ _ before t after front inner back =>
    have no_front : before = [] := by
      cases before with
      | nil => rfl
      | cons c before =>
        simp only [List.cons_append, List.head?_cons, Option.some.injEq] at first
        have blank := front c (by simp)
        rw [first] at blank
        cases blank
    have no_back : after = [] := by
      rcases List.eq_nil_or_concat after with empty | ⟨early, c, rfl⟩
      · exact empty
      · rw [List.concat_eq_append, ← List.append_assoc, ← List.append_assoc,
          List.getLast?_concat, Option.some.injEq] at last
        have blank := back c (by simp)
        rw [last] at blank
        cases blank
    subst no_front no_back
    rw [List.nil_append, List.append_nil] at first ⊢
    exact inner.object_of_brace first

theorem Derives.shaped_of_append {c : Char} (derives : Derives .value depth leaves t)
    (same : c :: t' = t ++ rest) : Shaped (shapeOf c) depth leaves t := by
  obtain ⟨d, ds, text, shaped⟩ := derives.shaped
  rw [text] at same
  rw [(List.cons.inj same).1]
  exact shaped

theorem Derives.members_begins (derives : Derives .members depth leaves t) :
    ∃ gap cs, t = gap ++ '"' :: cs ∧ Blank gap := by
  have member : ∀ {depth leaves t}, Derives .member depth leaves t →
      ∃ gap cs, t = gap ++ '"' :: cs ∧ Blank gap := by
    intro depth leaves t derives
    cases derives with
    | member front key back inner => exact ⟨_, _, rfl, front⟩
  cases derives with
  | lastMember last => exact member last
  | members first rest =>
    obtain ⟨gap, cs, rfl, blank⟩ := member first
    exact ⟨gap, _, List.append_assoc gap ('"' :: cs) _, blank⟩

/-- Any derivation at the same place is the same as far as depth, leaves and extent go. -/
def Unique (p : Phrase) (depth : Nat) (leaves : List Leaf) (t : Text) : Prop :=
  ∀ depth' leaves' t' rest rest', Derives p depth' leaves' t' → Follows p rest → Follows p rest' →
    t ++ rest = t' ++ rest' → depth = depth' ∧ leaves = leaves' ∧ t = t'

theorem unique_word {w : Text}
    (named : w = "null".toList ∨ w = "true".toList ∨ w = "false".toList) :
    Unique .value 0 [] w := by
  intro depth' leaves' t' rest rest' other _ _ same
  rcases named with rfl | rfl | rfl
  · cases other.shaped_of_append same with
    | word named' =>
      rcases named' with rfl | rfl | rfl
      · exact ⟨rfl, rfl, rfl⟩
      · cases (List.cons.inj same).1
      · cases (List.cons.inj same).1
  · cases other.shaped_of_append same with
    | word named' =>
      rcases named' with rfl | rfl | rfl
      · cases (List.cons.inj same).1
      · exact ⟨rfl, rfl, rfl⟩
      · cases (List.cons.inj same).1
  · cases other.shaped_of_append same with
    | word named' =>
      rcases named' with rfl | rfl | rfl
      · cases (List.cons.inj same).1
      · cases (List.cons.inj same).1
      · exact ⟨rfl, rfl, rfl⟩

theorem unique_number (n : Numeral) : Unique .value 0 [.number n] n.text := by
  intro depth' leaves' t' rest rest' other follows follows' same
  obtain ⟨gap, behind, blank, delimited, rfl⟩ := follows
  obtain ⟨gap', behind', blank', delimited', rfl⟩ := follows'
  obtain ⟨c, cs, text, first⟩ := n.begins
  have shaped := other.shaped_of_append (c := c) (by rw [← List.cons_append, ← text]; exact same)
  rw [shapeOf_number first] at shaped
  cases shaped with
  | number n' =>
    obtain ⟨rfl, -⟩ := Numeral.unique (until_of_delimited n blank delimited)
      (until_of_delimited n' blank' delimited') same
    exact ⟨rfl, rfl, rfl⟩

theorem unique_string (items : List StringItem) :
    Unique .value 0 [.string items] (stringText items) := by
  intro depth' leaves' t' rest rest' other _ _ same
  cases other.shaped_of_append same with
  | string items' =>
    obtain ⟨rfl, -⟩ := stringText_unique same
    exact ⟨rfl, rfl, rfl⟩

theorem not_blank_elements (blank : Blank gap) (derives : Derives .elements depth leaves t)
    (rest rest' : Text) :
    gap ++ ']' :: rest ≠ t ++ ']' :: rest' := by
  intro same
  obtain ⟨gap', c, cs, rfl, blank', solid, no_end⟩ := derives.elements_begins
  rw [List.append_assoc] at same
  obtain ⟨-, behind⟩ := blank_unique blank blank' (by simp [Solid, isSpace])
    (by simpa [Solid] using solid) same
  exact no_end (List.cons.inj behind).1.symm

theorem not_blank_members (blank : Blank gap) (derives : Derives .members depth leaves t)
    (rest rest' : Text) :
    gap ++ '}' :: rest ≠ t ++ '}' :: rest' := by
  intro same
  obtain ⟨gap', cs, rfl, blank'⟩ := derives.members_begins
  rw [List.append_assoc] at same
  obtain ⟨-, behind⟩ := blank_unique blank blank' (by simp [Solid, isSpace])
    (by simp [Solid, isSpace]) same
  cases (List.cons.inj behind).1

theorem unique_emptyArray (blank : Blank gap) : Unique .value 1 [] ('[' :: (gap ++ [']'])) := by
  intro depth' leaves' t' rest rest' other _ _ same
  cases other.shaped_of_append same with
  | @emptyArray gap' blank' =>
    have behind : gap ++ ']' :: rest = gap' ++ ']' :: rest' := by simpa using same
    obtain ⟨rfl, -⟩ := blank_unique blank blank' (by simp [Solid, isSpace])
      (by simp [Solid, isSpace]) behind
    exact ⟨rfl, rfl, rfl⟩
  | array inner =>
    exact absurd (by simpa using same) (not_blank_elements blank inner rest rest')

theorem unique_array (inner : Derives .elements depth leaves t)
    (ih : Unique .elements depth leaves t) :
    Unique .value (depth + 1) leaves ('[' :: (t ++ [']'])) := by
  intro depth' leaves' t' rest rest' other _ _ same
  cases other.shaped_of_append same with
  | emptyArray blank' =>
    exact absurd (by simpa using same.symm)
      (not_blank_elements blank' inner rest' rest)
  | array inner' =>
    obtain ⟨rfl, rfl, rfl⟩ := ih _ _ _ (']' :: rest) (']' :: rest') inner' rfl rfl
      (by simpa using same)
    exact ⟨rfl, rfl, rfl⟩

theorem unique_emptyObject (blank : Blank gap) : Unique .object 1 [] ('{' :: (gap ++ ['}'])) := by
  intro depth' leaves' t' rest rest' other _ _ same
  cases other with
  | @emptyObject gap' blank' =>
    have behind : gap ++ '}' :: rest = gap' ++ '}' :: rest' := by simpa using same
    obtain ⟨rfl, -⟩ := blank_unique blank blank' (by simp [Solid, isSpace])
      (by simp [Solid, isSpace]) behind
    exact ⟨rfl, rfl, rfl⟩
  | object inner =>
    exact absurd (by simpa using same) (not_blank_members blank inner rest rest')

theorem unique_object (inner : Derives .members depth leaves t)
    (ih : Unique .members depth leaves t) :
    Unique .object (depth + 1) leaves ('{' :: (t ++ ['}'])) := by
  intro depth' leaves' t' rest rest' other _ _ same
  cases other with
  | emptyObject blank' =>
    exact absurd (by simpa using same.symm)
      (not_blank_members blank' inner rest' rest)
  | object inner' =>
    obtain ⟨rfl, rfl, rfl⟩ := ih _ _ _ ('}' :: rest) ('}' :: rest') inner' rfl rfl
      (by simpa using same)
    exact ⟨rfl, rfl, rfl⟩

theorem unique_nested (inner : Derives .object depth leaves t)
    (ih : Unique .object depth leaves t) : Unique .value depth leaves t := by
  intro depth' leaves' t' rest rest' other follows follows' same
  obtain ⟨cs, rfl⟩ : ∃ cs, t = '{' :: cs := by
    cases inner <;> exact ⟨_, rfl⟩
  cases other.shaped_of_append same with
  | object inner' => exact ih _ _ _ _ _ inner' follows follows' same

theorem Derives.solid (derives : Derives .value depth leaves t) (rest : Text) :
    Solid (t ++ rest) := by
  obtain ⟨c, cs, rfl, solid, -⟩ := derives.begins
  simpa [Solid] using solid

theorem unique_element {before after : Text} (front : Blank before)
    (inner : Derives .value depth leaves t) (back : Blank after)
    (ih : Unique .value depth leaves t) :
    Unique .element depth leaves (before ++ (t ++ after)) := by
  intro depth' leaves' t' rest rest' other follows follows' same
  cases other with
  | @element _ _ before' t' after' front' inner' back' =>
    simp only [List.append_assoc] at same
    obtain ⟨rfl, behind⟩ := blank_unique front front' (inner.solid _) (inner'.solid _) same
    obtain ⟨rfl, rfl, rfl⟩ := ih _ _ _ (after ++ rest) (after' ++ rest') inner'
      ⟨after, rest, back, follows, rfl⟩ ⟨after', rest', back', follows', rfl⟩ behind
    obtain ⟨rfl, -⟩ := blank_unique back back' follows.solid follows'.solid
      (List.append_cancel_left behind)
    exact ⟨rfl, rfl, rfl⟩

theorem delimited_comma (t : Text) : Delimited (',' :: t) := by simp [Delimited]

theorem delimited_of_head {c : Char} (close : c = ']' ∨ c = '}') (first : t.head? = some c) :
    Delimited t := by
  intro d member
  rw [first, Option.mem_some_iff] at member
  subst member
  exact .inr close

/-- A list is one phrase or begins with one and a comma. -/
inductive Listed (one many : Phrase) : Nat → List Leaf → Text → Prop where
  | last {depth : Nat} {leaves : List Leaf} {t : Text} (last : Derives one depth leaves t) :
      Listed one many depth leaves t
  | more {depth depth' : Nat} {leaves leaves' : List Leaf} {t t' : Text}
      (first : Derives one depth leaves t) (rest : Derives many depth' leaves' t') :
      Listed one many (max depth depth') (leaves ++ leaves') (t ++ ',' :: t')

structure Lists (one many : Phrase) (close : Char) : Prop where
  closing : close = ']' ∨ close = '}'
  listed : ∀ {depth leaves t}, Derives many depth leaves t → Listed one many depth leaves t
  one_follows : ∀ {rest}, Delimited rest → Follows one rest
  many_follows : ∀ {rest}, Follows many rest → rest.head? = some close

theorem lists_elements : Lists .element .elements ']' where
  closing := .inl rfl
  listed
    | .lastElement last => .last last
    | .elements first rest => .more first rest
  one_follows delimited := delimited
  many_follows first := first

theorem lists_members : Lists .member .members '}' where
  closing := .inr rfl
  listed
    | .lastMember last => .last last
    | .members first rest => .more first rest
  one_follows delimited := delimited
  many_follows first := first

section Lists

variable {one many : Phrase} {close : Char}

theorem Lists.one_before_close (lists : Lists one many close) (follows : Follows many rest) :
    Follows one rest :=
  lists.one_follows (delimited_of_head lists.closing (lists.many_follows follows))

theorem Lists.one_before_comma (lists : Lists one many close) (t : Text) :
    Follows one (',' :: t) :=
  lists.one_follows (delimited_comma t)

theorem Lists.no_comma (lists : Lists one many close) (t : Text) : ¬ Follows many (',' :: t) := by
  intro follows
  obtain rfl : ',' = close := Option.some.inj (lists.many_follows follows)
  rcases lists.closing with comma | comma <;> cases comma

theorem unique_last (lists : Lists one many close) (ih : Unique one depth leaves t) :
    Unique many depth leaves t := by
  intro depth' leaves' t' rest rest' other follows follows' same
  cases lists.listed other with
  | last last' =>
    exact ih _ _ _ rest rest' last' (lists.one_before_close follows)
      (lists.one_before_close follows') same
  | @more _ _ _ _ t₁ t₂ first' more =>
    rw [List.append_assoc] at same
    obtain ⟨-, -, rfl⟩ := ih _ _ _ rest (',' :: (t₂ ++ rest')) first'
      (lists.one_before_close follows) (lists.one_before_comma _) same
    rw [List.append_cancel_left same] at follows
    exact absurd follows (lists.no_comma _)

theorem unique_more (lists : Lists one many close) (ih : Unique one depth leaves t)
    (ih' : Unique many depth' leaves' t') :
    Unique many (max depth depth') (leaves ++ leaves') (t ++ ',' :: t') := by
  intro depth'' leaves'' t'' rest rest' other follows follows' same
  rw [List.append_assoc] at same
  cases lists.listed other with
  | last last' =>
    obtain ⟨-, -, rfl⟩ := ih _ _ _ (',' :: (t' ++ rest)) rest' last' (lists.one_before_comma _)
      (lists.one_before_close follows') same
    rw [← List.append_cancel_left same] at follows'
    exact absurd follows' (lists.no_comma _)
  | @more _ _ _ _ t₁ t₂ first' more =>
    rw [List.append_assoc] at same
    obtain ⟨rfl, rfl, rfl⟩ := ih _ _ _ (',' :: (t' ++ rest)) (',' :: (t₂ ++ rest')) first'
      (lists.one_before_comma _) (lists.one_before_comma _) same
    obtain ⟨rfl, rfl, rfl⟩ := ih' _ _ _ rest rest' more follows follows'
      (List.cons.inj (List.append_cancel_left same)).2
    exact ⟨rfl, rfl, rfl⟩

end Lists

theorem unique_member {before after : Text} (front : Blank before) (key : List StringItem)
    (back : Blank after) (ih : Unique .element depth leaves t) :
    Unique .member depth (.string key :: leaves)
      (before ++ (stringText key ++ (after ++ ':' :: t))) := by
  intro depth' leaves' t' rest rest' other follows follows' same
  cases other with
  | @member _ _ before' after' t' front' key' back' inner' =>
    have quote : ∀ key t, Solid (stringText key ++ t) := by simp [Solid, stringText, isSpace]
    have colon : ∀ t, Solid (':' :: t) := by simp [Solid, isSpace]
    simp only [List.append_assoc, List.cons_append] at same
    obtain ⟨rfl, quoted⟩ := blank_unique front front' (quote _ _) (quote _ _) same
    obtain ⟨rfl, behind⟩ := stringText_unique quoted
    obtain ⟨rfl, valued⟩ := blank_unique back back' (colon _) (colon _) behind
    obtain ⟨rfl, rfl, rfl⟩ := ih _ _ _ rest rest' inner' follows follows' (List.cons.inj valued).2
    exact ⟨rfl, rfl, rfl⟩

theorem Derives.unique {p : Phrase} (derives : Derives p depth leaves t) :
    Unique p depth leaves t := by
  induction derives with
  | word named => exact unique_word named
  | number n => exact unique_number n
  | string items => exact unique_string items
  | emptyArray blank => exact unique_emptyArray blank
  | array inner ih => exact unique_array inner ih
  | emptyObject blank => exact unique_emptyObject blank
  | object inner ih => exact unique_object inner ih
  | nested inner ih => exact unique_nested inner ih
  | element front inner back ih => exact unique_element front inner back ih
  | lastElement last ih => exact unique_last lists_elements ih
  | elements first rest ih ih' => exact unique_more lists_elements ih ih'
  | member front key back inner ih => exact unique_member front key back ih
  | lastMember last ih => exact unique_last lists_members ih
  | members first rest ih ih' => exact unique_more lists_members ih ih'

theorem Derives.object_unique (derives : Derives .object depth leaves t)
    (other : Derives .object depth' leaves' t) : depth = depth' ∧ leaves = leaves' := by
  have follows : Follows .object [] := ⟨[], [], blank_nil, by simp [Delimited], rfl⟩
  obtain ⟨same, same', -⟩ := derives.unique _ _ _ [] [] other follows follows rfl
  exact ⟨same, same'⟩

/-- Why a text is no object that can be read if so many arrays and objects may be nested. -/
inductive Unreadable (most : Nat) (t : Text) : Prop where
  | noObject (none : ∀ depth leaves, ¬ Derives .object depth leaves t)
  | loneSurrogate {depth : Nat} {leaves : List Leaf} {items : List StringItem}
      (derives : Derives .object depth leaves t) (holds : .string items ∈ leaves)
      (lone : LoneSurrogate items)
  | outOfRange {depth : Nat} {leaves : List Leaf} {n : Numeral}
      (derives : Derives .object depth leaves t) (holds : .number n ∈ leaves)
      (beyond : n.OutOfRange)
  | tooDeep {depth : Nat} {leaves : List Leaf} (derives : Derives .object depth leaves t)
      (deep : most < depth)

theorem unreadable_iff (most : Nat) : Unreadable most t ↔ ¬ Admits most .object t := by
  constructor
  · rintro reason ⟨depth, leaves, admitted, shallow, kept⟩
    cases reason with
    | noObject none => exact none depth leaves admitted
    | loneSurrogate derives holds lone =>
      obtain ⟨-, rfl⟩ := derives.object_unique admitted
      exact kept _ holds lone
    | outOfRange derives holds beyond =>
      obtain ⟨-, rfl⟩ := derives.object_unique admitted
      exact kept _ holds beyond
    | tooDeep derives deep =>
      obtain ⟨rfl, -⟩ := derives.object_unique admitted
      omega
  · intro refused
    by_contra readable
    have object : ∃ depth leaves, Derives .object depth leaves t := by
      by_contra none
      exact readable (.noObject fun depth leaves derives => none ⟨depth, leaves, derives⟩)
    obtain ⟨depth, leaves, derives⟩ := object
    refine refused ⟨depth, leaves, derives, ?_, ?_⟩
    · by_contra deep
      exact readable (.tooDeep derives (by omega))
    · intro leaf holds beyond
      cases leaf with
      | string items => exact readable (.loneSurrogate derives holds beyond)
      | number n => exact readable (.outOfRange derives holds beyond)

theorem read_object_error_iff (first : t.head? = some '{') (last : t.getLast? = some '}') :
    (∃ fault, read t = .error fault) ↔ Unreadable 127 t := by
  have alone : Admits 127 .element t ↔ Admits 127 .object t := by
    constructor
    · rintro ⟨depth, leaves, derives, within⟩
      exact ⟨depth, leaves, derives.braced first last, within⟩
    · rintro ⟨depth, leaves, derives, within⟩
      have element := Derives.element blank_nil (.nested derives) blank_nil
      rw [List.nil_append, List.append_nil] at element
      exact ⟨depth, leaves, element, within⟩
  have refused : (∃ fault, read t = .error fault) ↔ ¬ ∃ v, read t = .ok v := by
    cases read t <;> simp
  rw [refused, read, readWith_isOk_iff, depthLimit, unreadable_iff, alone]

end Texts

end Json
end RequireInjection
