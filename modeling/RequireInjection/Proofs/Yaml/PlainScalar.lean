import RequireInjection.Yaml.CoreSchema
import RequireInjection.Proofs.Text.Numeral

namespace RequireInjection.Yaml
namespace Scalar

open Text (IsDecimal)

theorem digitValue?_decimal {c : Char} (decimal : IsDecimal c) :
    digitValue? c = some (c.toNat - '0'.toNat) := by
  obtain ⟨low, high⟩ := decimal
  simp [digitValue?, low, high]

theorem decimal_lt {c : Char} (decimal : IsDecimal c) : c.toNat - '0'.toNat < 10 := by
  have high : c.toNat ≤ '9'.toNat := decimal.2
  have nine : '9'.toNat = 57 := rfl
  have zero : '0'.toNat = 48 := rfl
  omega

theorem foldlM_decimal {ds : Text} (decimal : ∀ d ∈ ds, IsDecimal d) (sofar : Nat) :
    ds.foldlM (fun n c => (digitValue? c).bind fun d =>
      if d < 10 then some (10 * n + d) else none) sofar = some (Nat.ofDigitChars 10 ds sofar) := by
  induction ds generalizing sofar with
  | nil => rfl
  | cons d ds ih =>
    have digit : IsDecimal d := decimal d (by simp)
    rw [List.foldlM_cons, digitValue?_decimal digit, Option.bind_some, if_pos (decimal_lt digit),
      Nat.ofDigitChars_cons]
    exact ih (fun e member => decimal e (by simp [member])) _

theorem natural?_ofNat (n : Nat) : natural? 10 (Text.ofNat n) = some n := by
  have full : (Text.ofNat n).isEmpty = false := List.isEmpty_eq_false_iff.mpr Nat.toDigits_ne_nil
  rw [natural?, if_neg (by simp [full]),
    foldlM_decimal (fun d member => Text.isDecimal_of_mem_ofNat member), Text.ofDigitChars_ofNat]

theorem ne_of_decimal {c d : Char} (decimal : IsDecimal c) (other : ¬ IsDecimal d) : c ≠ d := by
  rintro rfl
  exact other decimal

theorem magnitude?_ofNat (n : Nat) : magnitude? (Text.ofNat n) = some n := by
  have value := natural?_ofNat n
  rcases Text.ofNat_cases n with ⟨rfl, -⟩ | ⟨c, cs, front, proper, -⟩
  · rfl
  · have decimal : IsDecimal c := Text.isDecimal_of_mem_ofNat (by rw [front]; simp)
    have no_minus : c ≠ '-' := ne_of_decimal decimal (by decide)
    have no_plus : c ≠ '+' := ne_of_decimal decimal (by decide)
    have whole : hasLeadingZero (c :: cs) = false := by
      simp [hasLeadingZero, no_minus, no_plus, proper]
    rw [front] at value ⊢
    simp [magnitude?, proper, whole, value]

theorem no_word {c : Char} (cs : Text) (first : c = '-' ∨ IsDecimal c) :
    isNullWord (c :: cs) = false ∧ truthValue? (c :: cs) = none := by
  have letters : ((["null", "Null", "NULL", "~"] ++
      (["true", "True", "TRUE"] ++ ["false", "False", "FALSE"])).all fun w =>
        w.toList.head?.all fun d => d ≠ '-' ∧ ¬ IsDecimal d) = true := by decide
  have other : String.ofList (c :: cs) ∉ ["null", "Null", "NULL", "~"] ++
      (["true", "True", "TRUE"] ++ ["false", "False", "FALSE"]) := by
    intro member
    obtain ⟨no_minus, no_digit⟩ : c ≠ '-' ∧ ¬ IsDecimal c := by
      simpa using List.all_eq_true.mp letters _ member
    rcases first with minus | digit
    · exact no_minus minus
    · exact no_digit digit
  simp only [List.mem_append, not_or] at other
  obtain ⟨no_null, no_true, no_false⟩ := other
  constructor
  · rw [Bool.eq_false_iff, isNullWord, ne_eq, List.contains_iff_mem]
    exact no_null
  · rw [truthValue?, if_neg (by rwa [List.contains_iff_mem]),
      if_neg (by rwa [List.contains_iff_mem])]

theorem integer?_ofInt {n : Int} (low : -(Nat.pow 2 63 : Int) ≤ n)
    (high : n < (Nat.pow 2 64 : Int)) : integer? (Text.ofInt n) = some n := by
  cases n with
  | ofNat n =>
    have small : n < Nat.pow 2 128 := by
      simp only [Nat.pow_eq, Int.ofNat_eq_natCast] at high ⊢
      omega
    have value := magnitude?_ofNat n
    obtain ⟨c, cs, front, decimal⟩ := Text.exists_front n
    have no_minus : c ≠ '-' := ne_of_decimal decimal (by decide)
    have no_plus : c ≠ '+' := ne_of_decimal decimal (by decide)
    rw [front] at value
    simp [Text.ofInt, front, integer?, no_minus, no_plus, value, small]
  | negSucc n =>
    have small : n + 1 ≤ Nat.pow 2 127 := by
      rw [Int.negSucc_eq] at low
      simp only [Nat.pow_eq] at low ⊢
      omega
    simp [Text.ofInt, integer?, magnitude?_ofNat, small, Int.negSucc_eq]

theorem ofPlain_ofInt {n : Int} (low : -(Nat.pow 2 63 : Int) ≤ n)
    (high : n < (Nat.pow 2 64 : Int)) : ofPlain (Text.ofInt n) = .int n := by
  have value := integer?_ofInt low high
  obtain ⟨c, cs, front, first⟩ : ∃ c cs, Text.ofInt n = c :: cs ∧ (c = '-' ∨ IsDecimal c) := by
    cases n with
    | ofNat n =>
      obtain ⟨c, cs, front, decimal⟩ := Text.exists_front n
      exact ⟨c, cs, front, Or.inr decimal⟩
    | negSucc n => exact ⟨'-', _, rfl, Or.inl rfl⟩
  obtain ⟨no_null, no_truth⟩ := no_word cs first
  rw [front] at value ⊢
  simp [ofPlain, no_null, no_truth, value]

end Scalar
end RequireInjection.Yaml
