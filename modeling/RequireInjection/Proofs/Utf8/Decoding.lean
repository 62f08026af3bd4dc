import RequireInjection.Utf8

namespace RequireInjection
namespace Utf8

variable {a b c d : UInt8}

theorem isContinuation_iff : isContinuation b ↔ 0x80 ≤ b.toNat ∧ b.toNat ≤ 0xBF := by
  simp [isContinuation, UInt8.le_iff_toNat_le]

theorem begins3_iff : begins3 a b ↔ 0x80 ≤ b.toNat ∧ b.toNat ≤ 0xBF ∧
    (a.toNat = 0xE0 → 0xA0 ≤ b.toNat) ∧ (a.toNat = 0xED → b.toNat ≤ 0x9F) := by
  simp only [begins3, isContinuation, beq_iff_eq, UInt8.le_iff_toNat_le, ← UInt8.toNat_inj]
  split
  · simp_all
    omega
  · split
    · simp_all
      omega
    · simp_all

theorem begins4_iff : begins4 a b ↔ 0x80 ≤ b.toNat ∧ b.toNat ≤ 0xBF ∧
    (a.toNat = 0xF0 → 0x90 ≤ b.toNat) ∧ (a.toNat = 0xF4 → b.toNat ≤ 0x8F) := by
  simp only [begins4, isContinuation, beq_iff_eq, UInt8.le_iff_toNat_le, ← UInt8.toNat_inj]
  split
  · simp_all
    omega
  · split
    · simp_all
      omega
    · simp_all

theorem decodeFrom_one (index : Nat) (rest : List UInt8) (ha : a.toNat < 0x80) :
    decodeFrom index (a :: rest) = (decodeFrom (index + 1) rest).map (Char.ofNat a.toNat :: ·) := by
  have single : a < 0x80 := UInt8.lt_iff_toNat_lt.mpr ha
  rw [decodeFrom.eq_def]
  exact if_pos single

theorem decodeFrom_two (index : Nat) (rest : List UInt8) (ha : 0xC2 ≤ a.toNat)
    (ha' : a.toNat ≤ 0xDF) (hb : isContinuation b) :
    decodeFrom index (a :: b :: rest) =
      (decodeFrom (index + 2) rest).map (Char.ofNat (low a 5 * 64 + low b 6) :: ·) := by
  have not_single : ¬ a < 0x80 := by
    rw [UInt8.lt_iff_toNat_lt]
    exact Nat.not_lt.mpr (Nat.le_trans (by decide) ha)
  have double : (0xC2 ≤ a && a ≤ 0xDF) = true := by
    simpa [UInt8.le_iff_toNat_le] using ⟨ha, ha'⟩
  rw [decodeFrom.eq_def]
  simp only [if_neg not_single, if_pos double, if_pos hb]

theorem decodeFrom_three (index : Nat) (rest : List UInt8) (ha : 0xE0 ≤ a.toNat)
    (ha' : a.toNat ≤ 0xEF) (hb : begins3 a b) (hc : isContinuation c) :
    decodeFrom index (a :: b :: c :: rest) = (decodeFrom (index + 3) rest).map
      (Char.ofNat (low a 4 * 4096 + low b 6 * 64 + low c 6) :: ·) := by
  have not_single : ¬ a < 0x80 := by
    rw [UInt8.lt_iff_toNat_lt]
    exact Nat.not_lt.mpr (Nat.le_trans (by decide) ha)
  have not_double : ¬ (0xC2 ≤ a && a ≤ 0xDF) = true := by
    simp [UInt8.le_iff_toNat_le]
    omega
  have triple : (0xE0 ≤ a && a ≤ 0xEF) = true := by
    simpa [UInt8.le_iff_toNat_le] using ⟨ha, ha'⟩
  rw [decodeFrom.eq_def]
  simp only [if_neg not_single, if_neg not_double, if_pos triple, if_pos hb, if_pos hc]

theorem decodeFrom_four (index : Nat) (rest : List UInt8) (ha : 0xF0 ≤ a.toNat)
    (ha' : a.toNat ≤ 0xF4) (hb : begins4 a b) (hc : isContinuation c) (hd : isContinuation d) :
    decodeFrom index (a :: b :: c :: d :: rest) = (decodeFrom (index + 4) rest).map
      (Char.ofNat (low a 3 * 262144 + low b 6 * 4096 + low c 6 * 64 + low d 6) :: ·) := by
  have not_single : ¬ a < 0x80 := by
    rw [UInt8.lt_iff_toNat_lt]
    exact Nat.not_lt.mpr (Nat.le_trans (by decide) ha)
  have not_double : ¬ (0xC2 ≤ a && a ≤ 0xDF) = true := by
    simp [UInt8.le_iff_toNat_le]
    omega
  have not_triple : ¬ (0xE0 ≤ a && a ≤ 0xEF) = true := by
    simp [UInt8.le_iff_toNat_le]
    omega
  have quadruple : (0xF0 ≤ a && a ≤ 0xF4) = true := by
    simpa [UInt8.le_iff_toNat_le] using ⟨ha, ha'⟩
  rw [decodeFrom.eq_def]
  simp only [if_neg not_single, if_neg not_double, if_neg not_triple, if_pos quadruple,
    if_pos hb, if_pos hc, if_pos hd]

theorem char_bounds (c : Char) : c.toNat < 0x110000 ∧ ¬ (0xD800 ≤ c.toNat ∧ c.toNat ≤ 0xDFFF) := by
  have valid : c.toNat < 0xD800 ∨ (0xDFFF < c.toNat ∧ c.toNat < 0x110000) := c.valid
  omega

theorem decodeFrom_encodeChar (index : Nat) (c : Char) (rest : List UInt8) :
    decodeFrom index (String.utf8EncodeChar c ++ rest) =
      (decodeFrom (index + (String.utf8EncodeChar c).length) rest).map (c :: ·) := by
  obtain ⟨inside, no_surrogate⟩ := char_bounds c
  have value : c.val.toNat = c.toNat := rfl
  have whole : ∀ n, n = c.toNat → Char.ofNat n = c := by
    rintro n rfl
    exact Char.ofNat_toNat c
  simp only [String.utf8EncodeChar, value]
  split
  · -- one byte
    have byte : (UInt8.ofNat c.toNat).toNat = c.toNat := by simp; omega
    rw [List.cons_append, List.nil_append, decodeFrom_one _ _ (by omega), byte,
      Char.ofNat_toNat]
    rfl
  · split
    · -- two bytes
      have first : (UInt8.ofNat (c.toNat / 64 % 32 + 192)).toNat = c.toNat / 64 + 192 := by
        simp; omega
      have second : (UInt8.ofNat (c.toNat % 64 + 128)).toNat = c.toNat % 64 + 128 := by
        simp; omega
      simp only [List.cons_append, List.nil_append]
      rw [decodeFrom_two _ _ (by omega) (by omega) (isContinuation_iff.mpr (by omega)), whole]
      · rfl
      · simp only [low, first, second, Nat.pow_eq]
        omega
    · split
      · -- three bytes
        have first : (UInt8.ofNat (c.toNat / 4096 % 16 + 224)).toNat = c.toNat / 4096 + 224 := by
          simp; omega
        have second : (UInt8.ofNat (c.toNat / 64 % 64 + 128)).toNat = c.toNat / 64 % 64 + 128 := by
          simp; omega
        have third : (UInt8.ofNat (c.toNat % 64 + 128)).toNat = c.toNat % 64 + 128 := by
          simp; omega
        simp only [List.cons_append, List.nil_append]
        rw [decodeFrom_three _ _ (by omega) (by omega) (begins3_iff.mpr (by omega))
          (isContinuation_iff.mpr (by omega)), whole]
        · rfl
        · simp only [low, first, second, third, Nat.pow_eq]
          omega
      · -- four bytes
        have first : (UInt8.ofNat (c.toNat / 262144 % 8 + 240)).toNat = c.toNat / 262144 + 240 := by
          simp; omega
        have second : (UInt8.ofNat (c.toNat / 4096 % 64 + 128)).toNat =
            c.toNat / 4096 % 64 + 128 := by
          simp; omega
        have third : (UInt8.ofNat (c.toNat / 64 % 64 + 128)).toNat = c.toNat / 64 % 64 + 128 := by
          simp; omega
        have fourth : (UInt8.ofNat (c.toNat % 64 + 128)).toNat = c.toNat % 64 + 128 := by
          simp; omega
        simp only [List.cons_append, List.nil_append]
        rw [decodeFrom_four _ _ (by omega) (by omega) (begins4_iff.mpr (by omega))
          (isContinuation_iff.mpr (by omega)) (isContinuation_iff.mpr (by omega)), whole]
        · rfl
        · simp only [low, first, second, third, fourth, Nat.pow_eq]
          omega

/-- What is read back does not depend on the place where the bytes are said to start. -/
theorem decodeFrom_encode (index : Nat) (t : Text) : decodeFrom index (encode t) = .ok t := by
  induction t generalizing index with
  | nil => rfl
  | cons c cs ih =>
    rw [encode, List.flatMap_cons, decodeFrom_encodeChar]
    rw [encode] at ih
    rw [ih]
    rfl

theorem decode_encode (t : Text) : decode (encode t) = .ok t := decodeFrom_encode 0 t

end Utf8
end RequireInjection
