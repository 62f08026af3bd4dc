import RequireInjection.Proofs.Json.Grammar
import RequireInjection.Proofs.Text.Numeral

namespace RequireInjection
namespace Json

section Digits

variable {ds rest t : Text} {c : Char} {positive : Bool} {s n : Nat} {e : Int}

def Ends (rest : Text) : Prop := startsWithDigit rest = false

theorem digit_bounds : isDigit c ↔ 48 ≤ c.toNat ∧ c.toNat ≤ 57 := by
  simp [isDigit, Char.le_def, UInt32.le_iff_toNat_le]

theorem exists_digits (t : Text) :
    ∃ ds rest, t = ds ++ rest ∧ (∀ c ∈ ds, isDigit c) ∧ Ends rest := by
  induction t with
  | nil => exact ⟨[], [], rfl, by simp, rfl⟩
  | cons c t ih =>
    by_cases digit : isDigit c
    · obtain ⟨ds, rest, rfl, digits, ends⟩ := ih
      exact ⟨c :: ds, rest, rfl, by simpa [digit] using digits, ends⟩
    · exact ⟨[], c :: t, rfl, by simp, by simpa [Ends, startsWithDigit] using digit⟩

theorem Ends.not_digit (ends : Ends (c :: t)) : ¬ isDigit c = true := by
  simpa [Ends, startsWithDigit] using ends

theorem dropWhile_digits (digits : ∀ c ∈ ds, isDigit c) (ends : Ends rest) :
    (ds ++ rest).dropWhile isDigit = rest := by
  rw [List.dropWhile_append_of_pos digits]
  cases rest with
  | nil => rfl
  | cons c t => exact List.dropWhile_cons_of_neg ends.not_digit

def afterWhole (positive : Bool) (s left : Nat) (t : Text) : Except Stop (Json × Text) :=
  if left = 0 then afterInteger positive s t else longInteger positive s left t

theorem longInteger_append (digits : ∀ c ∈ ds, isDigit c) (left : Nat) :
    longInteger positive s left (ds ++ rest) = longInteger positive s (left + ds.length) rest := by
  induction ds generalizing left with
  | nil => rfl
  | cons c ds ih =>
    rw [List.cons_append, longInteger, if_pos (digits c (by simp)),
      ih fun d member => digits d (by simp [member]), List.length_cons, Nat.add_right_comm,
      Nat.add_assoc]

theorem length_fit_le (s : Nat) (ds : Text) : (fit s ds).2.length ≤ ds.length := by
  induction ds generalizing s with
  | nil => exact Nat.le_refl _
  | cons c ds ih =>
    rw [fit]
    split
    · exact Nat.le_succ_of_le (ih _)
    · exact Nat.le_refl _

theorem integerDigits_fit (digits : ∀ c ∈ ds, isDigit c) (ends : Ends rest) :
    integerDigits positive s (ds ++ rest) =
      afterWhole positive (fit s ds).1 (fit s ds).2.length rest := by
  induction ds generalizing s with
  | nil =>
    cases rest with
    | nil => rfl
    | cons c t => rw [List.nil_append, integerDigits, if_neg ends.not_digit]; rfl
  | cons c ds ih =>
    have later : ∀ d ∈ ds, isDigit d := fun d member => digits d (by simp [member])
    rw [List.cons_append, integerDigits, if_pos (digits c (by simp)), fit]
    by_cases fits : s * 10 + (c.toNat - 48) ≤ maxWord
    · rw [if_pos fits, if_pos fits, ih later]
    · rw [if_neg fits, if_neg fits, longInteger_append later]
      simp [afterWhole, Nat.add_comm]

theorem fractionDigits_fit (positive : Bool) (s : Nat) (digits : ∀ c ∈ ds, isDigit c)
    (ends : Ends rest) (before : Int) (count : Nat) (proper : ds ≠ [] ∨ count ≠ 0) :
    fractionDigits positive s before count (ds ++ rest) =
      afterDigits positive (fit s ds).1 (before - (count + (ds.length - (fit s ds).2.length) : Nat))
        rest := by
  induction ds generalizing s count with
  | nil =>
    have some : ¬ count = 0 := by simpa using proper
    cases rest with
    | nil => simp [fractionDigits, some, fit]
    | cons c t => simp [fractionDigits, some, fit, ends.not_digit]
  | cons c ds ih =>
    have later : ∀ d ∈ ds, isDigit d := fun d member => digits d (by simp [member])
    rw [List.cons_append, fractionDigits, if_pos (digits c (by simp)), fit]
    by_cases fits : s * 10 + (c.toNat - 48) ≤ maxWord
    · rw [if_pos fits, if_pos fits, ih _ later _ (.inr (by omega))]
      have bound := length_fit_le (s * 10 + (c.toNat - 48)) ds
      have taken : count + 1 + (ds.length - (fit (s * 10 + (c.toNat - 48)) ds).2.length) =
          count + ((c :: ds).length - (fit (s * 10 + (c.toNat - 48)) ds).2.length) := by
        rw [List.length_cons]
        omega
      rw [taken]
    · rw [if_neg fits, if_neg fits, dropWhile_digits later ends]
      simp

end Digits

section Outcomes

variable {ds rest t : Text} {c : Char} {positive down : Bool} {s : Nat} {e : Int}

def Stops (result : Except Stop (Json × Text)) (rest : Text) (refused : Prop) : Prop :=
  (refused ∧ ∃ stop, result = .error stop) ∨ (¬ refused ∧ ∃ v, result = .ok (v, rest))

theorem scale_eq_none : scale s e = none ↔ Overflows s e := by
  unfold scale Overflows
  by_cases zero : s = 0
  · simp [zero]
  by_cases large : 308 < e
  · simp [zero, large]
  by_cases upward : 0 ≤ e
  · simp [zero, large, upward]
  · simp only [zero, large, upward, if_false]
    split <;> simp

theorem finish_stops (positive : Bool) (s : Nat) (e : Int) (rest : Text) :
    Stops (finish positive s e rest) rest (Overflows s e) := by
  unfold finish
  cases scaled : scale s e with
  | none => exact .inl ⟨scale_eq_none.mp scaled, _, rfl⟩
  | some f =>
    refine .inr ⟨fun overflows => ?_, _, rfl⟩
    rw [scale_eq_none.mpr overflows] at scaled
    cases scaled

/-- An exponent of more than 31 bits is not looked at any further. -/
theorem exponentDigits_stops (digits : ∀ c ∈ ds, isDigit c) (ends : Ends rest) {sofar : Nat}
    (small : sofar < Nat.pow 2 31) :
    Stops (exponentDigits positive down s e sofar (ds ++ rest)) rest
      (if Nat.ofDigitChars 10 ds sofar < Nat.pow 2 31 then
        Overflows s (if down then e - (Nat.ofDigitChars 10 ds sofar : Nat)
          else e + (Nat.ofDigitChars 10 ds sofar : Nat))
      else s ≠ 0 ∧ ¬ down) := by
  induction ds generalizing sofar with
  | nil =>
    rw [Nat.ofDigitChars_nil, if_pos small]
    cases rest with
    | nil => exact finish_stops _ _ _ _
    | cons c t =>
      rw [List.nil_append, exponentDigits, if_neg ends.not_digit]
      exact finish_stops _ _ _ _
  | cons c ds ih =>
    have later : ∀ d ∈ ds, isDigit d := fun d member => digits d (by simp [member])
    have next : sofar * 10 + (c.toNat - 48) = 10 * sofar + (c.toNat - '0'.toNat) := by
      rw [Nat.mul_comm]
      rfl
    rw [Nat.ofDigitChars_cons, ← next, List.cons_append, exponentDigits,
      if_pos (digits c (by simp))]
    -- Past the bound no digit is counted; significand and sign alone tell whether it fails.
    by_cases fits : sofar * 10 + (c.toNat - 48) < Nat.pow 2 31
    · simp only [if_pos fits]
      exact ih later fits
    · have bound := Text.le_ofDigitChars ds (sofar * 10 + (c.toNat - 48))
      have long : ¬ Nat.ofDigitChars 10 ds (sofar * 10 + (c.toNat - 48)) < Nat.pow 2 31 := by
        omega
      simp only [if_neg fits, if_neg long]
      split
      · rename_i refused
        exact .inl ⟨by simpa using refused, _, rfl⟩
      · rename_i kept
        rw [dropWhile_digits later ends]
        exact .inr ⟨by simpa using kept, _, rfl⟩

theorem readExponent_stops (positive : Bool) (s : Nat) (e : Int) (x : Exponent)
    (ends : Ends rest) :
    Stops (readExponent positive s e (x.sign ++ (x.digits ++ rest))) rest
      (Exceeds s e (some x)) := by
  obtain ⟨mark, sign, digits, marked, signed, nonempty, decimal⟩ := x
  cases digits with
  | nil => exact absurd rfl nonempty
  | cons d ds =>
    have digit : isDigit d := decimal d (by simp)
    have later : ∀ c ∈ ds, isDigit c := fun c member => decimal c (by simp [member])
    have value : Nat.ofDigitChars 10 (d :: ds) 0 = Nat.ofDigitChars 10 ds (d.toNat - 48) := by
      simp [Nat.ofDigitChars_cons]
    have outcome : ∀ down, Stops (exponentDigits positive down s e (d.toNat - 48) (ds ++ rest)) rest
        (if Nat.ofDigitChars 10 (d :: ds) 0 < Nat.pow 2 31 then
          Overflows s (if down then e - (Nat.ofDigitChars 10 (d :: ds) 0 : Nat)
            else e + (Nat.ofDigitChars 10 (d :: ds) 0 : Nat))
        else s ≠ 0 ∧ ¬ down) := by
      intro down
      rw [value]
      have bounds := digit_bounds.mp digit
      exact exponentDigits_stops later ends (by simp only [Nat.pow_eq]; omega)
    rcases signed with rfl | rfl | rfl
    · have plus : d ≠ '+' := by rintro rfl; cases digit
      have minus : d ≠ '-' := by rintro rfl; cases digit
      simpa [readExponent, plus, minus, digit, Exceeds, Exponent.magnitude, Exponent.raise,
        Exponent.IsNegative] using outcome false
    · simpa [readExponent, digit, Exceeds, Exponent.magnitude, Exponent.raise,
        Exponent.IsNegative] using outcome false
    · simpa [readExponent, digit, Exceeds, Exponent.magnitude, Exponent.raise,
        Exponent.IsNegative] using outcome true

def Unmarked (rest : Text) : Prop := ∀ c ∈ rest.head?, c ≠ 'e' ∧ c ≠ 'E'

theorem afterDigits_stops (positive : Bool) (s : Nat) (e : Int) (x? : Option Exponent)
    (ends : Ends rest) (unmarked : x? = none → Unmarked rest) :
    Stops (afterDigits positive s e (exponentText x? ++ rest)) rest (Exceeds s e x?) := by
  cases x? with
  | none =>
    cases rest with
    | nil => exact finish_stops _ _ _ _
    | cons c t =>
      have other := unmarked rfl c rfl
      simpa [exponentText, afterDigits, other, Exceeds] using finish_stops positive s e (c :: t)
  | some x =>
    have marked := x.marked
    have read := readExponent_stops positive s e x ends
    simpa [exponentText, Exponent.text, afterDigits, marked] using read

theorem ends_exponentText (x? : Option Exponent) (ends : Ends rest) :
    Ends (exponentText x? ++ rest) := by
  cases x? with
  | none => exact ends
  | some x =>
    have marked := x.marked
    rcases marked with mark | mark
    · simp [exponentText, Exponent.text, mark, Ends, startsWithDigit, isDigit]
    · simp [exponentText, Exponent.text, mark, Ends, startsWithDigit, isDigit]

theorem afterWhole_point (positive : Bool) (s left : Nat) (t : Text) :
    afterWhole positive s left ('.' :: t) = fractionDigits positive s left 0 t := by
  unfold afterWhole
  split
  · rename_i whole
    rw [whole]
    rfl
  · rfl

theorem afterWhole_mark (marked : c = 'e' ∨ c = 'E') (positive : Bool) (s left : Nat) (t : Text) :
    afterWhole positive s left (c :: t) = readExponent positive s left t := by
  unfold afterWhole
  rcases marked with rfl | rfl
  · split
    · rename_i whole
      rw [whole]
      rfl
    · rfl
  · split
    · rename_i whole
      rw [whole]
      rfl
    · rfl

structure Numeral.Until (n : Numeral) (rest : Text) : Prop where
  ends : Ends rest
  unmarked : n.exponent = none → Unmarked rest
  pointless : n.exponent = none → n.fraction = [] → rest.head? ≠ some '.'

theorem afterInteger_end (positive : Bool) (s : Nat) (unmarked : Unmarked rest)
    (pointless : rest.head? ≠ some '.') :
    ∃ v, afterInteger positive s rest = .ok (v, rest) := by
  have mark : ((rest.head?.map fun c => c == 'e' || c == 'E').getD false) = false := by
    cases rest with
    | nil => rfl
    | cons c t =>
      have other := unmarked c rfl
      simp [other]
  unfold afterInteger
  split
  · simp at pointless
  · rw [mark, if_neg Bool.false_ne_true]
    split
    · exact ⟨_, rfl⟩
    · split
      · exact ⟨_, rfl⟩
      · exact ⟨_, rfl⟩

theorem longInteger_end (ends : Ends rest) (unmarked : Unmarked rest)
    (pointless : rest.head? ≠ some '.') (left : Nat) :
    longInteger positive s left rest = finish positive s left rest := by
  cases rest with
  | nil => rfl
  | cons c t =>
    have other := unmarked c rfl
    have no_point : c ≠ '.' := by simpa using pointless
    simp [longInteger, ends.not_digit, no_point, afterDigits, other]

theorem afterWhole_stops (positive : Bool) (s : Nat) {n : Numeral} (follow : n.Until rest)
    (left : Nat) :
    Stops (afterWhole positive s left
        (fractionText n.fraction ++ (exponentText n.exponent ++ rest))) rest
      (¬ (n.fraction = [] ∧ n.exponent = none ∧ left = 0) ∧
        Exceeds (fit s n.fraction).1
          (left - (n.fraction.length - (fit s n.fraction).2.length : Nat)) n.exponent) := by
  by_cases whole : n.fraction = []
  · cases written : n.exponent with
    | none =>
      have unmarked := follow.unmarked written
      have pointless := follow.pointless written whole
      by_cases none_left : left = 0
      · obtain ⟨v, read⟩ := afterInteger_end positive s unmarked pointless
        refine .inr ⟨by simp [whole, none_left], v, ?_⟩
        simpa [fractionText, whole, exponentText, afterWhole, none_left] using read
      · have read := finish_stops positive s left rest
        rw [← longInteger_end follow.ends unmarked pointless] at read
        simpa [fractionText, whole, exponentText, afterWhole, none_left, fit, Exceeds]
          using read
    | some x =>
      have read := readExponent_stops positive s left x follow.ends
      rw [← afterWhole_mark x.marked] at read
      simpa [fractionText, whole, exponentText, Exponent.text, fit] using read
  · have read := afterDigits_stops positive (fit s n.fraction).1
      (left - (n.fraction.length - (fit s n.fraction).2.length : Nat)) n.exponent follow.ends
      follow.unmarked
    have taken := fractionDigits_fit positive s n.fraction_decimal
      (ends_exponentText n.exponent follow.ends) left 0 (.inl whole)
    rw [Nat.zero_add] at taken
    rw [← taken, ← afterWhole_point] at read
    simpa [fractionText, whole] using read

theorem ends_fractionText {n : Numeral} (ends : Ends rest) :
    Ends (fractionText n.fraction ++ (exponentText n.exponent ++ rest)) := by
  by_cases whole : n.fraction = []
  · simpa [fractionText, whole] using ends_exponentText n.exponent ends
  · simp [fractionText, whole, Ends, startsWithDigit, isDigit]

theorem readNumber_whole {whole : Text} (nonempty : whole ≠ [])
    (no_leading_zero : whole.head? = some '0' → whole = ['0']) (digits : ∀ c ∈ whole, isDigit c)
    (ends : Ends rest) : readNumber positive (whole ++ rest) =
      afterWhole positive (fit 0 whole).1 (fit 0 whole).2.length rest := by
  cases whole with
  | nil => exact absurd rfl nonempty
  | cons c ds =>
    by_cases zero : c = '0'
    · subst zero
      obtain ⟨-, rfl⟩ := List.cons.inj (no_leading_zero rfl)
      have next : startsWithDigit rest = false := ends
      simp [readNumber, next, fit, maxWord, afterWhole]
    · have digit : isDigit c := digits c (by simp)
      have bounds := digit_bounds.mp digit
      have fits : 0 * 10 + (c.toNat - 48) ≤ maxWord := by
        simp only [maxWord, Nat.pow_eq]
        omega
      have later : ∀ d ∈ ds, isDigit d := fun d member => digits d (by simp [member])
      have first : 0 * 10 + (c.toNat - 48) = c.toNat - 48 := by omega
      rw [fit, if_pos fits, first, ← integerDigits_fit later ends]
      simp [readNumber, zero, digit]

theorem readNumber_stops (positive : Bool) {n : Numeral} (follow : n.Until rest) :
    Stops (readNumber positive (n.digitsText ++ rest)) rest n.OutOfRange := by
  have read := afterWhole_stops positive (fit 0 n.whole).1 follow
    (fit 0 n.whole).2.length
  rw [← readNumber_whole n.nonempty n.no_leading_zero n.whole_decimal
    (ends_fractionText follow.ends)] at read
  simpa [Numeral.digitsText, Numeral.OutOfRange, Numeral.IsWord, Numeral.significand,
    Numeral.power] using read

theorem exists_sign (t : Text) :
    ∃ sign t', t = sign ++ t' ∧ (sign = [] ∨ sign = ['+'] ∨ sign = ['-']) ∧
      (sign = [] → t'.head? ≠ some '+' ∧ t'.head? ≠ some '-') := by
  cases t with
  | nil => exact ⟨[], [], rfl, .inl rfl, by simp⟩
  | cons c t =>
    by_cases plus : c = '+'
    · exact ⟨['+'], t, by rw [plus]; rfl, .inr (.inl rfl), by simp⟩
    by_cases minus : c = '-'
    · exact ⟨['-'], t, by rw [minus]; rfl, .inr (.inr rfl), by simp⟩
    · exact ⟨[], c :: t, rfl, .inl rfl, by simp [plus, minus]⟩

theorem readExponent_fault {sign : Text} (signed : sign = [] ∨ sign = ['+'] ∨ sign = ['-'])
    (unsigned : sign = [] → t.head? ≠ some '+' ∧ t.head? ≠ some '-') (ends : Ends t) :
    ∃ stop, readExponent positive s e (sign ++ t) = .error stop := by
  cases t with
  | nil => rcases signed with rfl | rfl | rfl <;> exact ⟨_, rfl⟩
  | cons c t =>
    have no_digit := ends.not_digit
    rcases signed with rfl | rfl | rfl
    · have other := unsigned rfl
      simp only [List.head?_cons, ne_eq, Option.some.injEq] at other
      simp [readExponent, other, no_digit, stopAhead]
    · simp [readExponent, no_digit, stopAhead]
    · simp [readExponent, no_digit, stopAhead]

theorem readExponent_cases (marked : c = 'e' ∨ c = 'E') (positive : Bool) (s : Nat) (e : Int)
    (t : Text) : (∃ stop, readExponent positive s e t = .error stop) ∨
      ∃ (x : Exponent) (rest : Text), c :: t = x.text ++ rest ∧ Ends rest := by
  obtain ⟨sign, t, rfl, signed, unsigned⟩ := exists_sign t
  obtain ⟨ds, rest, rfl, digits, ends⟩ := exists_digits t
  by_cases nonempty : ds = []
  · subst nonempty
    exact .inl (readExponent_fault signed unsigned ends)
  · exact .inr ⟨⟨c, sign, ds, marked, signed, nonempty, digits⟩, rest, by simp [Exponent.text],
      ends⟩

theorem afterDigits_cases (positive : Bool) (s : Nat) (e : Int) (ends : Ends t) :
    (∃ stop, afterDigits positive s e t = .error stop) ∨
      ∃ x? rest, t = exponentText x? ++ rest ∧ Ends rest ∧ (x? = none → Unmarked rest) := by
  cases t with
  | nil => exact .inr ⟨none, [], rfl, rfl, fun _ => by simp [Unmarked]⟩
  | cons c t =>
    by_cases marked : c = 'e' ∨ c = 'E'
    · have read : afterDigits positive s e (c :: t) = readExponent positive s e t := by
        simp [afterDigits, marked]
      rw [read]
      rcases readExponent_cases marked positive s e t with fault | ⟨x, rest, text, behind⟩
      · exact .inl fault
      · exact .inr ⟨some x, rest, text, behind, by simp⟩
    · refine .inr ⟨none, c :: t, rfl, ends, fun _ => ?_⟩
      simpa [Unmarked, not_or] using marked

theorem fractionDigits_fault (ends : Ends t) (before : Int) :
    ∃ stop, fractionDigits positive s before 0 t = .error stop := by
  cases t with
  | nil => exact ⟨_, rfl⟩
  | cons c t => simp [fractionDigits, ends.not_digit, stopAhead]

theorem afterWhole_cases (positive : Bool) (s left : Nat) (ends : Ends t) :
    (∃ stop, afterWhole positive s left t = .error stop) ∨
      ∃ fraction x? rest, t = fractionText fraction ++ (exponentText x? ++ rest) ∧
        (∀ c ∈ fraction, isDigit c) ∧ Ends rest ∧ (x? = none → Unmarked rest) ∧
        (x? = none → fraction = [] → rest.head? ≠ some '.') := by
  cases t with
  | nil => exact .inr ⟨[], none, [], rfl, by simp, rfl, fun _ => by simp [Unmarked], by simp⟩
  | cons c t =>
    by_cases point : c = '.'
    · subst point
      rw [afterWhole_point]
      obtain ⟨ds, t, rfl, digits, behind⟩ := exists_digits t
      by_cases nonempty : ds = []
      · subst nonempty
        exact .inl (fractionDigits_fault behind _)
      rw [fractionDigits_fit _ _ digits behind _ _ (.inl nonempty)]
      rcases afterDigits_cases positive _ _ behind with fault | ⟨x?, rest, rfl, ends, unmarked⟩
      · exact .inl fault
      · exact .inr ⟨ds, x?, rest, by simp [fractionText, nonempty], digits, ends, unmarked,
          fun _ empty => absurd empty nonempty⟩
    · by_cases marked : c = 'e' ∨ c = 'E'
      · rw [afterWhole_mark marked]
        rcases readExponent_cases marked positive s left t with fault | ⟨x, rest, text, ends⟩
        · exact .inl fault
        · exact .inr ⟨[], some x, rest, text, by simp, ends, by simp, by simp⟩
      · refine .inr ⟨[], none, c :: t, rfl, by simp, ends, fun _ => ?_, by simpa using point⟩
        simpa [Unmarked, not_or] using marked

theorem readNumber_fault {whole : Text} (digits : ∀ c ∈ whole, isDigit c) (ends : Ends t)
    (refused : whole = [] ∨ (whole.head? = some '0' ∧ whole ≠ ['0'])) :
    ∃ stop, readNumber positive (whole ++ t) = .error stop := by
  rcases refused with rfl | ⟨zero, longer⟩
  · cases t with
    | nil => exact ⟨_, rfl⟩
    | cons c t =>
      have no_digit := ends.not_digit
      have no_zero : c ≠ '0' := by rintro rfl; exact no_digit rfl
      simp [readNumber, no_digit, no_zero, stopAhead]
  · obtain ⟨ds, rfl⟩ := List.head?_eq_some_iff.mp zero
    cases ds with
    | nil => exact absurd rfl longer
    | cons d ds =>
      have next : isDigit d := digits d (by simp)
      simp [readNumber, startsWithDigit, next, stopAhead]

theorem readNumber_cases (positive : Bool) (t : Text) :
    (∃ stop, readNumber positive t = .error stop) ∨
      ∃ (n : Numeral) (rest : Text), n.negative = !positive ∧ t = n.digitsText ++ rest ∧
        n.Until rest := by
  obtain ⟨whole, t, rfl, digits, ends⟩ := exists_digits t
  by_cases refused : whole = [] ∨ (whole.head? = some '0' ∧ whole ≠ ['0'])
  · exact .inl (readNumber_fault digits ends refused)
  obtain ⟨nonempty, no_leading_zero⟩ := not_or.mp refused
  have no_leading_zero : whole.head? = some '0' → whole = ['0'] := by
    simpa using no_leading_zero
  rw [readNumber_whole nonempty no_leading_zero digits ends]
  rcases afterWhole_cases positive _ _ ends with fault | ⟨fraction, x?, rest, rfl, decimal, behind,
    unmarked, pointless⟩
  · exact .inl fault
  · refine .inr ⟨⟨!positive, whole, fraction, x?, nonempty, no_leading_zero, digits, decimal⟩, rest,
      rfl, by simp [Numeral.digitsText], ⟨behind, unmarked, pointless⟩⟩

theorem readNumber_sound {v : Json} (read : readNumber positive t = .ok (v, rest)) :
    ∃ n : Numeral, n.negative = !positive ∧ t = n.digitsText ++ rest ∧ ¬ n.OutOfRange := by
  rcases readNumber_cases positive t with ⟨stop, fault⟩ | ⟨n, behind, sign, rfl, follow⟩
  · rw [fault] at read
    cases read
  · rcases readNumber_stops positive follow with ⟨-, stop, fault⟩ |
      ⟨in_range, w, stops⟩
    · rw [fault] at read
      cases read
    · rw [stops] at read
      cases read
      exact ⟨n, sign, rfl, in_range⟩

theorem readNumber_complete (positive : Bool) {n : Numeral} (in_range : ¬ n.OutOfRange)
    (follow : n.Until rest) :
    ∃ v, readNumber positive (n.digitsText ++ rest) = .ok (v, rest) := by
  rcases readNumber_stops positive follow with ⟨refused, -⟩ | ⟨-, read⟩
  · exact absurd refused in_range
  · exact read

end Outcomes

end Json
end RequireInjection
