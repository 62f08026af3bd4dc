import RequireInjection.Json.Printer
import RequireInjection.Json.Reader
import RequireInjection.Proofs.Text.Numeral

namespace RequireInjection
namespace Json

section Strings

theorem hexEscape_digits {a b : Nat} (small : a < 2) (small' : b < 16) (rest : Text) :
    hexEscape ('0' :: '0' :: hexDigit a :: hexDigit b :: rest) = .ok (16 * a + b, rest) := by
  have long : ¬ Text.size ('0' :: '0' :: hexDigit a :: hexDigit b :: rest) < 4 := by
    have := Char.utf8Size_pos '0'
    have := Char.utf8Size_pos (hexDigit a)
    have := Char.utf8Size_pos (hexDigit b)
    simp only [Text.size_cons]
    omega
  have values : ∀ n < 16, (if '0' ≤ hexDigit n && hexDigit n ≤ '9' then
        some ((hexDigit n).toNat - 48)
      else if 'a' ≤ hexDigit n && hexDigit n ≤ 'f' then some ((hexDigit n).toNat - 87)
      else if 'A' ≤ hexDigit n && hexDigit n ≤ 'F' then some ((hexDigit n).toNat - 55)
      else none) = some n := by decide
  have zero := values 0 (by decide)
  have first := values a (by omega)
  have second := values b small'
  have nought : hexDigit 0 = '0' := rfl
  have sum : ((0 * 16 + 0) * 16 + a) * 16 + b = 16 * a + b := by omega
  rw [nought] at zero
  simp only [hexEscape, if_neg long, zero, first, second, sum]

theorem unicodeEscape_control {c : Char} (control : c.toNat < 32) (rest : Text) :
    unicodeEscape ('0' :: '0' :: hexDigit (c.toNat / 16) :: hexDigit (c.toNat % 16) :: rest) =
      .ok (c, rest) := by
  have digits := hexEscape_digits (a := c.toNat / 16) (b := c.toNat % 16) (by omega) (by omega) rest
  rw [Nat.div_add_mod] at digits
  have no_low : ¬ (0xDC00 ≤ c.toNat && c.toNat ≤ 0xDFFF) = true := by simp; omega
  have no_high : ¬ (0xD800 ≤ c.toNat && c.toNat ≤ 0xDBFF) = true := by simp; omega
  simp only [unicodeEscape, digits, bind, Except.bind, if_neg no_low, if_neg no_high, pure,
    Except.pure, Char.ofNat_toNat]

theorem escaped_cases (c : Char) :
    (escaped c = [c] ∧ c ≠ '"' ∧ c ≠ '\\' ∧ ¬ c.toNat < 32) ∨
      ∃ mark, escaped c = '\\' :: mark ∧ ∀ t, escape (mark ++ t) = .ok (c, t) := by
  have named : ∀ n, c.toNat = n → c = Char.ofNat n := by
    rintro n rfl
    exact (Char.ofNat_toNat c).symm
  unfold escaped
  split
  · rename_i same
    subst same
    exact Or.inr ⟨['"'], rfl, fun t => rfl⟩
  split
  · rename_i same
    subst same
    exact Or.inr ⟨['\\'], rfl, fun t => rfl⟩
  split
  · rename_i same
    subst same
    exact Or.inr ⟨['n'], rfl, fun t => rfl⟩
  split
  · rename_i same
    subst same
    exact Or.inr ⟨['r'], rfl, fun t => rfl⟩
  split
  · rename_i same
    subst same
    exact Or.inr ⟨['t'], rfl, fun t => rfl⟩
  split
  · rename_i eight
    exact Or.inr ⟨['b'], rfl, fun t => named 8 eight ▸ rfl⟩
  split
  · rename_i twelve
    exact Or.inr ⟨['f'], rfl, fun t => named 12 twelve ▸ rfl⟩
  split
  · rename_i control
    exact Or.inr ⟨_, rfl, fun t => unicodeEscape_control control t⟩
  · rename_i no_quote no_backslash _ _ _ _ _ printed
    exact Or.inl ⟨rfl, no_quote, no_backslash, printed⟩

theorem stringTail_escaped (n : Nat) (c : Char) (t : Text) :
    stringTail (n + 1) (escaped c ++ t) = (stringTail n t).map fun (s, rest) => (c :: s, rest) := by
  rcases escaped_cases c with ⟨same, no_quote, no_backslash, printed⟩ | ⟨mark, same, read⟩
  · rw [same]
    simp only [List.cons_append, List.nil_append, stringTail, beq_iff_eq, if_neg no_quote,
      if_neg no_backslash, if_neg printed, bind, Except.bind]
    cases stringTail n t <;> rfl
  · rw [same]
    simp only [List.cons_append, stringTail, read, bind, Except.bind]
    cases stringTail n t <;> rfl

theorem stringTail_quoted (s rest : Text) {n : Nat} (enough : s.length < n) :
    stringTail n (s.flatMap escaped ++ '"' :: rest) = .ok (s, rest) := by
  induction s generalizing n with
  | nil =>
    obtain ⟨m, rfl⟩ : ∃ m, n = m + 1 := ⟨n - 1, by simp at enough; omega⟩
    simp [stringTail]
  | cons c cs ih =>
    obtain ⟨m, rfl⟩ : ∃ m, n = m + 1 := ⟨n - 1, by simp at enough; omega⟩
    have later := ih (n := m) (by simpa using enough)
    rw [List.flatMap_cons, List.append_assoc, stringTail_escaped, later]
    rfl

theorem length_le_escaped (s : Text) : s.length ≤ (s.flatMap escaped).length := by
  induction s with
  | nil => simp
  | cons c cs ih =>
    have one : 1 ≤ (escaped c).length := by
      rcases escaped_cases c with ⟨same, -⟩ | ⟨mark, same, -⟩ <;> simp [same]
    simp only [List.length_cons, List.flatMap_cons, List.length_append]
    omega

theorem readString_quoted (s rest : Text) :
    readString (s.flatMap escaped ++ '"' :: rest) = .ok (s, rest) := by
  apply stringTail_quoted
  have := length_le_escaped s
  simp only [List.length_append, List.length_cons]
  omega

end Strings

section Integers

variable {positive : Bool} {rest : Text}

/-- Nothing follows, or a character that can only follow a whole value. -/
def Delimited (rest : Text) : Prop := ∀ c ∈ rest.head?, c = ',' ∨ c = ']' ∨ c = '}'

theorem isDigit_iff {c : Char} : isDigit c ↔ Text.IsDecimal c := by
  simp [isDigit, Text.IsDecimal]

theorem Delimited.not_digit (delimited : Delimited rest) : startsWithDigit rest = false := by
  cases rest with
  | nil => rfl
  | cons c cs =>
    rcases delimited c rfl with rfl | rfl | rfl <;> rfl

theorem afterInteger_positive (delimited : Delimited rest) (n : Nat) :
    afterInteger true n rest = .ok (int n, rest) := by
  cases rest with
  | nil => rfl
  | cons c cs =>
    rcases delimited c rfl with rfl | rfl | rfl <;> rfl

theorem afterInteger_negative (delimited : Delimited rest) {n : Nat} (proper : 0 < n)
    (small : n ≤ Nat.pow 2 63) : afterInteger false n rest = .ok (int (-n), rest) := by
  have kept : ¬ (n = 0 || Nat.pow 2 63 < n) = true := by
    simp only [Bool.or_eq_true, decide_eq_true_eq]
    omega
  cases rest with
  | nil => simp only [afterInteger, if_neg kept]; rfl
  | cons c cs =>
    rcases delimited c rfl with rfl | rfl | rfl
    · simp only [afterInteger, if_neg kept]; rfl
    · simp only [afterInteger, if_neg kept]; rfl
    · simp only [afterInteger, if_neg kept]; rfl

theorem integerDigits_append (delimited : Delimited rest) {ds : Text}
    (decimal : ∀ d ∈ ds, Text.IsDecimal d) (sofar : Nat)
    (fits : Nat.ofDigitChars 10 ds sofar ≤ maxWord) :
    integerDigits positive sofar (ds ++ rest) =
      afterInteger positive (Nat.ofDigitChars 10 ds sofar) rest := by
  induction ds generalizing sofar with
  | nil =>
    rw [List.nil_append, Nat.ofDigitChars_nil]
    cases rest with
    | nil => rfl
    | cons c cs =>
      have no_digit : isDigit c = false := delimited.not_digit
      simp [integerDigits, no_digit]
  | cons d ds ih =>
    have digit : isDigit d := isDigit_iff.mpr (decimal d (by simp))
    have next : sofar * 10 + (d.toNat - 48) = 10 * sofar + (d.toNat - '0'.toNat) := by
      rw [Nat.mul_comm]
      rfl
    rw [Nat.ofDigitChars_cons] at fits ⊢
    have bound := Text.le_ofDigitChars ds (10 * sofar + (d.toNat - '0'.toNat))
    have word : sofar * 10 + (d.toNat - 48) ≤ maxWord := by omega
    rw [List.cons_append, integerDigits, if_pos digit, if_pos word, next]
    exact ih (fun e member => decimal e (List.mem_cons_of_mem _ member)) _ fits

theorem readNumber_ofNat (delimited : Delimited rest) {n : Nat} (fits : n ≤ maxWord) :
    readNumber positive (Text.ofNat n ++ rest) = afterInteger positive n rest := by
  have decimal : ∀ c ∈ Text.ofNat n, Text.IsDecimal c := fun c => Text.isDecimal_of_mem_ofNat
  have whole := Text.ofDigitChars_ofNat n
  rcases Text.ofNat_cases n with ⟨zero, single⟩ | ⟨d, ds, front, proper, -⟩
  · rw [single, zero]
    simp [readNumber, delimited.not_digit]
  · have digit : isDigit d := isDigit_iff.mpr (decimal d (by simp [front]))
    rw [front, Nat.ofDigitChars_cons, Nat.mul_zero, Nat.zero_add] at whole
    have start : d.toNat - 48 = d.toNat - '0'.toNat := rfl
    have later : ∀ e ∈ ds, Text.IsDecimal e := fun e member => decimal e (by simp [front, member])
    rw [front, List.cons_append, readNumber, if_neg (by simpa using proper), if_pos digit, start,
      integerDigits_append delimited later _ (by omega), whole]

end Integers

end Json
end RequireInjection
