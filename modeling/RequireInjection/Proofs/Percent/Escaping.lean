import RequireInjection.Percent
import RequireInjection.Proofs.Utf8.Decoding

namespace RequireInjection
namespace Percent

def digit (large : Bool) (n : Nat) : Char :=
  if large then (Nat.digitChar n).toUpper else Nat.digitChar n

def escape (large : Bool) (b : UInt8) : Text :=
  ['%', digit large (b.toNat / 16), digit large (b.toNat % 16)]

inductive Escaped : List UInt8 → Text → Prop where
  | nil : Escaped [] []
  | cons {bs : List UInt8} {t : Text} (large : Bool) (b : UInt8) (rest : Escaped bs t) :
      Escaped (b :: bs) (escape large b ++ t)

/-- The second text is the first with every byte escaped. -/
def Encodes (t written : Text) : Prop := Escaped (Utf8.encode t) written

variable {bs : List UInt8} {t written : Text}

theorem hexValue?_digit (large : Bool) {n : Nat} (small : n < 16) :
    hexValue? (digit large n) = some n := by
  have values : ∀ large, ∀ n < 16, hexValue? (digit large n) = some n := by decide
  exact values large n small

theorem isAlphanum_digit (large : Bool) {n : Nat} (small : n < 16) :
    (digit large n).isAlphanum := by
  have letters : ∀ large, ∀ n < 16, (digit large n).isAlphanum := by decide
  exact letters large n small

theorem bytes_escape (large : Bool) (b : UInt8) (t : Text) :
    bytes (escape large b ++ t) = b :: bytes t := by
  have bound := b.toNat_lt
  have high := hexValue?_digit large (n := b.toNat / 16) (by omega)
  have low := hexValue?_digit large (n := b.toNat % 16) (by omega)
  have whole : 16 * (b.toNat / 16) + b.toNat % 16 = b.toNat := Nat.div_add_mod b.toNat 16
  simp only [escape, List.cons_append, List.nil_append, bytes, high, low, whole]
  rw [UInt8.ofNat_toNat]

theorem bytes_escaped (h : Escaped bs t) : bytes t = bs := by
  induction h with
  | nil => rfl
  | cons large b rest ih => rw [bytes_escape, ih]

theorem decode_of_encodes (h : Encodes t written) : decode written = .ok t := by
  rw [decode, bytes_escaped h, Utf8.decode_encode]

theorem exists_escaped (bs : List UInt8) : ∃ t, Escaped bs t := by
  induction bs with
  | nil => exact ⟨[], .nil⟩
  | cons b bs ih =>
    obtain ⟨t, rest⟩ := ih
    exact ⟨_, .cons true b rest⟩

theorem exists_encodes (t : Text) : ∃ written, Encodes t written := exists_escaped _

theorem mem_escaped (h : Escaped bs t) : ∀ c ∈ t, c = '%' ∨ c.isAlphanum := by
  induction h with
  | nil => simp
  | cons large b rest ih =>
    have bound := b.toNat_lt
    intro c member
    rcases List.mem_append.mp member with here | later
    · have places : c = '%' ∨ c = digit large (b.toNat / 16) ∨ c = digit large (b.toNat % 16) := by
        simpa [escape] using here
      rcases places with rfl | rfl | rfl
      · exact Or.inl rfl
      · exact Or.inr (isAlphanum_digit large (by omega))
      · exact Or.inr (isAlphanum_digit large (by omega))
    · exact ih c later

theorem notMem_encodes (h : Encodes t written) {c : Char} (sign : c ≠ '%')
    (no_letter : c.isAlphanum = false) : c ∉ written := by
  intro member
  rcases mem_escaped h c member with percent | letter
  · exact sign percent
  · rw [no_letter] at letter
    cases letter

end Percent
end RequireInjection
