import RequireInjection.Proofs.Utf8.LongestPrefix

namespace RequireInjection.Utf8

variable {m n : Nat} {p q : List UInt8}

theorem encodeChar_cases (c : Char) :
    (c.toNat < 0x80 ∧ String.utf8EncodeChar c = [UInt8.ofNat c.toNat]) ∨
    (0x80 ≤ c.toNat ∧ c.toNat < 0x800 ∧ String.utf8EncodeChar c =
      [UInt8.ofNat (c.toNat / 64 + 192), UInt8.ofNat (c.toNat % 64 + 128)]) ∨
    (0x800 ≤ c.toNat ∧ c.toNat < 0x10000 ∧ String.utf8EncodeChar c =
      [UInt8.ofNat (c.toNat / 64 / 64 + 224), UInt8.ofNat (c.toNat / 64 % 64 + 128),
        UInt8.ofNat (c.toNat % 64 + 128)]) ∨
    (0x10000 ≤ c.toNat ∧ c.toNat < 0x110000 ∧ String.utf8EncodeChar c =
      [UInt8.ofNat (c.toNat / 64 / 64 / 64 + 240), UInt8.ofNat (c.toNat / 64 / 64 % 64 + 128),
        UInt8.ofNat (c.toNat / 64 % 64 + 128), UInt8.ofNat (c.toNat % 64 + 128)]) := by
  have inside := (char_bounds c).1
  have value : c.val.toNat = c.toNat := rfl
  simp only [String.utf8EncodeChar, value, Nat.div_div_eq_div_mul, Nat.reduceMul]
  split
  · exact Or.inl ⟨by omega, rfl⟩
  · split
    · have first : c.toNat / 64 % 32 = c.toNat / 64 := Nat.mod_eq_of_lt (by omega)
      exact Or.inr (Or.inl ⟨by omega, by omega, by rw [first]⟩)
    · split
      · have first : c.toNat / 4096 % 16 = c.toNat / 4096 := Nat.mod_eq_of_lt (by omega)
        exact Or.inr (Or.inr (Or.inl ⟨by omega, by omega, by rw [first]⟩))
      · have first : c.toNat / 262144 % 8 = c.toNat / 262144 := Nat.mod_eq_of_lt (by omega)
        exact Or.inr (Or.inr (Or.inr ⟨by omega, inside, by rw [first]⟩))

theorem lead_lt (mark : Nat) (inside : n + mark < 256) (before : m < n ∨ m = n ∧ p < q) :
    UInt8.ofNat (m + mark) :: p < UInt8.ofNat (n + mark) :: q := by
  rw [List.cons_lt_cons_iff, UInt8.lt_iff_toNat_lt, ← UInt8.toNat_inj]
  rcases before with lower | ⟨rfl, rest⟩
  · left
    simp only [UInt8.toNat_ofNat']
    omega
  · exact Or.inr ⟨rfl, rest⟩

theorem digit_lt (before : m < n ∨ m = n ∧ p < q) : m / 64 < n / 64 ∨ m / 64 = n / 64 ∧
    UInt8.ofNat (m % 64 + 128) :: p < UInt8.ofNat (n % 64 + 128) :: q := by
  rcases before with lower | ⟨rfl, rest⟩
  · by_cases same : m / 64 = n / 64
    · exact Or.inr ⟨same, lead_lt 128 (by omega) (Or.inl (by omega))⟩
    · exact Or.inl (by omega)
  · exact Or.inr ⟨rfl, lead_lt 128 (by omega) (Or.inr ⟨rfl, rest⟩)⟩

theorem first_lt (inside : n < 256) (lower : m < n) : UInt8.ofNat m :: p < UInt8.ofNat n :: q :=
  lead_lt 0 inside (Or.inl lower)

theorem encodeChar_lt {a b : Char} (before : a < b) (p q : List UInt8) :
    String.utf8EncodeChar a ++ p < String.utf8EncodeChar b ++ q := by
  have lower : a.toNat < b.toNat := UInt32.lt_iff_toNat_lt.mp before
  have before : a.toNat < b.toNat ∨ a.toNat = b.toNat ∧ p < q := Or.inl lower
  rcases encodeChar_cases a with ⟨_, ha⟩ | ⟨_, _, ha⟩ | ⟨_, _, ha⟩ | ⟨_, _, ha⟩
  all_goals rcases encodeChar_cases b with ⟨_, hb⟩ | ⟨_, _, hb⟩ | ⟨_, _, hb⟩ | ⟨_, _, hb⟩
  -- forms of one length are compared digit by digit, others by their first byte
  case inl.inl => exact ha ▸ hb ▸ first_lt (by omega) lower
  case inr.inl.inr.inl => exact ha ▸ hb ▸ lead_lt 192 (by omega) (digit_lt before)
  case inr.inr.inl.inr.inr.inl =>
    exact ha ▸ hb ▸ lead_lt 224 (by omega) (digit_lt (digit_lt before))
  case inr.inr.inr.inr.inr.inr =>
    exact ha ▸ hb ▸ lead_lt 240 (by omega) (digit_lt (digit_lt (digit_lt before)))
  all_goals first
    | omega
    | exact ha ▸ hb ▸ first_lt (by omega) (by omega)

theorem encode_lt_encode {s t : Text} (before : s < t) : encode s < encode t := by
  induction s generalizing t with
  | nil =>
    cases t with
    | nil => exact absurd before (List.lt_irrefl [])
    | cons b bs =>
      rw [encode_nil, encode_cons]
      cases bytes : String.utf8EncodeChar b with
      | nil => exact absurd bytes (sequence_encodeChar b).ne_nil
      | cons c cs => exact List.nil_lt_cons c _
  | cons a as ih =>
    cases t with
    | nil => exact absurd before (List.not_lt_nil _)
    | cons b bs =>
      rw [encode_cons, encode_cons]
      rcases List.cons_lt_cons_iff.mp before with lower | ⟨rfl, rest⟩
      · exact encodeChar_lt lower _ _
      · exact List.append_left_lt (ih rest)

end RequireInjection.Utf8
