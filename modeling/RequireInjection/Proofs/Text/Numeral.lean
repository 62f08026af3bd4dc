import RequireInjection.Text

namespace RequireInjection
namespace Text

def IsDecimal (c : Char) : Prop := '0' ≤ c ∧ c ≤ '9'

instance (c : Char) : Decidable (IsDecimal c) := inferInstanceAs (Decidable ('0' ≤ c ∧ c ≤ '9'))

theorem isDecimal_iff {c : Char} : IsDecimal c ↔ c.isDigit := by
  simp [IsDecimal, Char.isDigit, Char.le_def]

theorem isDecimal_of_mem_ofNat {n : Nat} {c : Char} (member : c ∈ ofNat n) : IsDecimal c :=
  isDecimal_iff.mpr (Nat.isDigit_of_mem_toDigits (by decide) (by decide) member)

theorem exists_front (n : Nat) : ∃ c cs, ofNat n = c :: cs ∧ IsDecimal c := by
  cases front : ofNat n with
  | nil => exact absurd front Nat.toDigits_ne_nil
  | cons c cs => exact ⟨c, cs, rfl, isDecimal_of_mem_ofNat (by rw [front]; simp)⟩

theorem ofDigitChars_ofNat (n : Nat) : Nat.ofDigitChars 10 (ofNat n) 0 = n :=
  Nat.ofDigitChars_ten_toDigits

theorem ofNat_cases (n : Nat) :
    (n = 0 ∧ ofNat n = ['0']) ∨ ∃ c cs, ofNat n = c :: cs ∧ c ≠ '0' ∧ 0 < n := by
  induction n using Nat.strongRecOn with
  | ind n ih =>
    by_cases small : n < 10
    · have single : ofNat n = [n.digitChar] := Nat.toDigits_of_lt_base small
      by_cases zero : n = 0
      · subst zero
        exact Or.inl ⟨rfl, rfl⟩
      · refine Or.inr ⟨n.digitChar, [], single, ?_, by omega⟩
        rw [ne_eq, Nat.digitChar_eq_zero]
        exact zero
    · have cut : ofNat n = ofNat (n / 10) ++ [(n % 10).digitChar] :=
        Nat.toDigits_of_base_le (by decide) (by omega)
      rcases ih (n / 10) (by omega) with ⟨zero, -⟩ | ⟨c, cs, front, proper, -⟩
      · omega
      · refine Or.inr ⟨c, cs ++ [(n % 10).digitChar], ?_, proper, by omega⟩
        rw [cut, front, List.cons_append]

theorem le_ofDigitChars (ds : Text) (sofar : Nat) : sofar ≤ Nat.ofDigitChars 10 ds sofar := by
  induction ds generalizing sofar with
  | nil => simp
  | cons d ds ih =>
    rw [Nat.ofDigitChars_cons]
    have := ih (10 * sofar + (d.toNat - '0'.toNat))
    omega

end Text
end RequireInjection
