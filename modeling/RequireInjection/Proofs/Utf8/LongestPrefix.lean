import RequireInjection.Proofs.Utf8.Decoding

/-!
Where bytes stop being the form of a text. The index of a fault is the length of the longest
beginning that is one, and a fault is told apart as incomplete when what stands there could still
become a character.
-/
namespace RequireInjection
namespace Utf8

def Valid (bytes : List UInt8) : Prop := ∃ t, encode t = bytes

/-- Some bytes of a character, from its first one on, but not all of them. -/
def BeginsCharacter (bytes : List UInt8) : Prop :=
  bytes ≠ [] ∧ ∃ c, bytes <+: String.utf8EncodeChar c ∧ bytes ≠ String.utf8EncodeChar c

def Fault.index : Fault → Nat
  | .invalid index _ => index
  | .incomplete index => index

/-- The well-formed sequences: how many bytes follow the first one is told by it, and it limits the
second. -/
inductive Sequence : List UInt8 → Prop where
  | one {a : UInt8} (ha : a.toNat < 0x80) : Sequence [a]
  | two {a b : UInt8} (ha : 0xC2 ≤ a.toNat) (ha' : a.toNat ≤ 0xDF) (hb : isContinuation b) :
      Sequence [a, b]
  | three {a b c : UInt8} (ha : 0xE0 ≤ a.toNat) (ha' : a.toNat ≤ 0xEF) (hb : begins3 a b)
      (hc : isContinuation c) : Sequence [a, b, c]
  | four {a b c d : UInt8} (ha : 0xF0 ≤ a.toNat) (ha' : a.toNat ≤ 0xF4) (hb : begins4 a b)
      (hc : isContinuation c) (hd : isContinuation d) : Sequence [a, b, c, d]

section Characters

variable {a : UInt8} {p q bytes rest : List UInt8}

theorem sequence_encodeChar (c : Char) : Sequence (String.utf8EncodeChar c) := by
  obtain ⟨inside, no_surrogate⟩ := char_bounds c
  have value : c.val.toNat = c.toNat := rfl
  simp only [String.utf8EncodeChar, value]
  split
  · exact .one (by simp; omega)
  · split
    · exact .two (by simp; omega) (by simp; omega) (isContinuation_iff.mpr (by simp; omega))
    · split
      · exact .three (by simp; omega) (by simp; omega) (begins3_iff.mpr (by simp; omega))
          (isContinuation_iff.mpr (by simp; omega))
      · exact .four (by simp; omega) (by simp; omega) (begins4_iff.mpr (by simp; omega))
          (isContinuation_iff.mpr (by simp; omega)) (isContinuation_iff.mpr (by simp; omega))

theorem toNat_ofNat {n : Nat} (inside : n < 0x110000)
    (no_surrogate : ¬ (0xD800 ≤ n ∧ n ≤ 0xDFFF)) : (Char.ofNat n).toNat = n := by
  have valid : n.isValidChar := by
    unfold Nat.isValidChar
    omega
  rw [Char.ofNat, dif_pos valid]
  rfl

theorem Sequence.exists_char (sequence : Sequence bytes) :
    ∃ c, String.utf8EncodeChar c = bytes := by
  cases sequence with
  | @one a ha =>
    refine ⟨Char.ofNat a.toNat, ?_⟩
    have value : (Char.ofNat a.toNat).val.toNat = a.toNat :=
      toNat_ofNat (by omega) (by omega)
    simp only [String.utf8EncodeChar, value]
    rw [if_pos (by omega), UInt8.ofNat_toNat]
  | @two a b ha ha' hb =>
    rw [isContinuation_iff] at hb
    refine ⟨Char.ofNat (a.toNat % 32 * 64 + b.toNat % 64), ?_⟩
    have value : (Char.ofNat (a.toNat % 32 * 64 + b.toNat % 64)).val.toNat =
        a.toNat % 32 * 64 + b.toNat % 64 := toNat_ofNat (by omega) (by omega)
    simp only [String.utf8EncodeChar, value]
    rw [if_neg (by omega), if_pos (by omega)]
    simp only [← UInt8.toNat_inj, List.cons.injEq, UInt8.toNat_ofNat', and_true]
    omega
  | @three a b c ha ha' hb hc =>
    rw [begins3_iff] at hb
    rw [isContinuation_iff] at hc
    refine ⟨Char.ofNat (a.toNat % 16 * 4096 + b.toNat % 64 * 64 + c.toNat % 64), ?_⟩
    have value : (Char.ofNat (a.toNat % 16 * 4096 + b.toNat % 64 * 64 + c.toNat % 64)).val.toNat =
        a.toNat % 16 * 4096 + b.toNat % 64 * 64 + c.toNat % 64 :=
      toNat_ofNat (by omega) (by omega)
    simp only [String.utf8EncodeChar, value]
    rw [if_neg (by omega), if_neg (by omega), if_pos (by omega)]
    simp only [← UInt8.toNat_inj, List.cons.injEq, UInt8.toNat_ofNat', and_true]
    omega
  | @four a b c d ha ha' hb hc hd =>
    rw [begins4_iff] at hb
    rw [isContinuation_iff] at hc hd
    refine ⟨Char.ofNat (a.toNat % 8 * 262144 + b.toNat % 64 * 4096 + c.toNat % 64 * 64 +
      d.toNat % 64), ?_⟩
    have value : (Char.ofNat (a.toNat % 8 * 262144 + b.toNat % 64 * 4096 + c.toNat % 64 * 64 +
        d.toNat % 64)).val.toNat = a.toNat % 8 * 262144 + b.toNat % 64 * 4096 +
          c.toNat % 64 * 64 + d.toNat % 64 := toNat_ofNat (by omega) (by omega)
    simp only [String.utf8EncodeChar, value]
    rw [if_neg (by omega), if_neg (by omega), if_neg (by omega)]
    simp only [← UInt8.toNat_inj, List.cons.injEq, UInt8.toNat_ofNat', and_true]
    omega

theorem Sequence.eq_of_front (hp : Sequence p) (hq : Sequence q) (front : p <+: q) : p = q := by
  cases hp <;> cases hq <;> simp_all <;> omega

theorem Sequence.tail_two (sequence : Sequence (a :: p)) (ha : 0xC2 ≤ a.toNat)
    (ha' : a.toNat ≤ 0xDF) : ∃ b, p = [b] ∧ isContinuation b := by
  cases sequence with
  | two _ _ hb => exact ⟨_, rfl, hb⟩
  | one | three | four => omega

theorem Sequence.tail_three (sequence : Sequence (a :: p)) (ha : 0xE0 ≤ a.toNat)
    (ha' : a.toNat ≤ 0xEF) : ∃ b c, p = [b, c] ∧ begins3 a b ∧ isContinuation c := by
  cases sequence with
  | three _ _ hb hc => exact ⟨_, _, rfl, hb, hc⟩
  | one | two | four => omega

theorem Sequence.tail_four (sequence : Sequence (a :: p)) (ha : 0xF0 ≤ a.toNat)
    (ha' : a.toNat ≤ 0xF4) :
    ∃ b c d, p = [b, c, d] ∧ begins4 a b ∧ isContinuation c ∧ isContinuation d := by
  cases sequence with
  | four _ _ hb hc hd => exact ⟨_, _, _, rfl, hb, hc, hd⟩
  | one | two | three => omega

def Agree (p q : List UInt8) : Prop := p <+: q ∨ q <+: p

theorem agree_cons {b : UInt8} : Agree (a :: p) (b :: q) ↔ a = b ∧ Agree p q := by
  simp only [Agree, List.cons_prefix_cons]
  grind

theorem exists_begins3 (a : UInt8) : ∃ b, begins3 a b := by
  by_cases narrow : a.toNat = 0xED
  · exact ⟨0x80, begins3_iff.mpr (by simp [narrow])⟩
  · exact ⟨0xA0, begins3_iff.mpr (by simp [narrow])⟩

theorem exists_begins4 (a : UInt8) : ∃ b, begins4 a b := by
  by_cases narrow : a.toNat = 0xF4
  · exact ⟨0x80, begins4_iff.mpr (by simp [narrow])⟩
  · exact ⟨0x90, begins4_iff.mpr (by simp [narrow])⟩

theorem Sequence.ne_nil (sequence : Sequence p) : p ≠ [] := by
  cases sequence <;> simp

/-- What stands behind a first byte makes no character with it, and it is told apart whether more
bytes could. -/
inductive Stuck (a : UInt8) (rest : List UInt8) : Fault → Prop where
  | invalid (index count : Nat) (apart : ∀ p, Sequence (a :: p) → ¬ Agree p rest) :
      Stuck a rest (.invalid index count)
  | incomplete (index : Nat) (short : ∀ p, Sequence (a :: p) → rest.length < p.length)
      (begun : ∃ p, Sequence (a :: p) ∧ rest <+: p) : Stuck a rest (.incomplete index)

def Steps (index : Nat) (a : UInt8) (rest : List UInt8) : Prop :=
  (∃ p q, a :: rest = p ++ q ∧ Sequence p) ∨
  ∃ fault, decodeFrom index (a :: rest) = .error fault ∧ fault.index = index ∧ Stuck a rest fault

theorem steps_two (index : Nat) (rest : List UInt8) (ha : 0xC2 ≤ a.toNat) (ha' : a.toNat ≤ 0xDF) :
    Steps index a rest := by
  unfold Steps
  rw [decodeFrom.eq_def]
  simp only [UInt8.lt_iff_toNat_lt, UInt8.le_iff_toNat_le, Bool.and_eq_true, decide_eq_true_eq,
    UInt8.reduceToNat]
  rw [if_neg (by omega), if_pos ⟨ha, ha'⟩]
  cases rest with
  | nil =>
    refine .inr ⟨_, rfl, rfl, .incomplete _ (fun p sequence => ?_) ⟨[0x80], .two ha ha' rfl,
      List.nil_prefix⟩⟩
    obtain ⟨b, rfl, -⟩ := sequence.tail_two ha ha'
    simp
  | cons b rest =>
    simp only
    split
    · rename_i hb
      exact .inl ⟨[a, b], rest, rfl, .two ha ha' hb⟩
    · rename_i hb
      refine .inr ⟨_, rfl, rfl, .invalid _ _ fun p sequence => ?_⟩
      obtain ⟨b', rfl, hb'⟩ := sequence.tail_two ha ha'
      rw [agree_cons]
      rintro ⟨rfl, -⟩
      exact hb hb'

theorem steps_three (index : Nat) (rest : List UInt8) (ha : 0xE0 ≤ a.toNat)
    (ha' : a.toNat ≤ 0xEF) : Steps index a rest := by
  unfold Steps
  rw [decodeFrom.eq_def]
  simp only [UInt8.lt_iff_toNat_lt, UInt8.le_iff_toNat_le, Bool.and_eq_true, decide_eq_true_eq,
    UInt8.reduceToNat]
  rw [if_neg (by omega), if_neg (by omega), if_pos ⟨ha, ha'⟩]
  have short : ∀ p, Sequence (a :: p) → p.length = 2 := by
    intro p sequence
    obtain ⟨b, c, rfl, -⟩ := sequence.tail_three ha ha'
    rfl
  -- Where the bytes end, a sequence goes on with the least bytes that may follow; where one
  -- is wrong, no sequence has it at its place.
  cases rest with
  | nil =>
    obtain ⟨b, hb⟩ := exists_begins3 a
    exact .inr ⟨_, rfl, rfl, .incomplete _ (fun p sequence => by simp [short p sequence])
      ⟨[b, 0x80], .three ha ha' hb rfl, List.nil_prefix⟩⟩
  | cons b rest =>
    by_cases hb : begins3 a b
    · simp only [if_pos hb]
      cases rest with
      | nil =>
        exact .inr ⟨_, rfl, rfl, .incomplete _ (fun p sequence => by simp [short p sequence])
          ⟨[b, 0x80], .three ha ha' hb rfl, by simp⟩⟩
      | cons c rest =>
        by_cases hc : isContinuation c
        · simp only [if_pos hc]
          exact .inl ⟨[a, b, c], rest, rfl, .three ha ha' hb hc⟩
        · simp only [if_neg hc]
          refine .inr ⟨_, rfl, rfl, .invalid _ _ fun p sequence => ?_⟩
          obtain ⟨b', c', rfl, -, hc'⟩ := sequence.tail_three ha ha'
          rw [agree_cons, agree_cons]
          rintro ⟨-, rfl, -⟩
          exact hc hc'
    · simp only [if_neg hb]
      refine .inr ⟨_, rfl, rfl, .invalid _ _ fun p sequence => ?_⟩
      obtain ⟨b', c', rfl, hb', -⟩ := sequence.tail_three ha ha'
      rw [agree_cons]
      rintro ⟨rfl, -⟩
      exact hb hb'

theorem steps_four (index : Nat) (rest : List UInt8) (ha : 0xF0 ≤ a.toNat)
    (ha' : a.toNat ≤ 0xF4) : Steps index a rest := by
  unfold Steps
  rw [decodeFrom.eq_def]
  simp only [UInt8.lt_iff_toNat_lt, UInt8.le_iff_toNat_le, Bool.and_eq_true, decide_eq_true_eq,
    UInt8.reduceToNat]
  rw [if_neg (by omega), if_neg (by omega), if_neg (by omega), if_pos ⟨ha, ha'⟩]
  have short : ∀ p, Sequence (a :: p) → p.length = 3 := by
    intro p sequence
    obtain ⟨b, c, d, rfl, -⟩ := sequence.tail_four ha ha'
    rfl
  cases rest with
  | nil =>
    obtain ⟨b, hb⟩ := exists_begins4 a
    exact .inr ⟨_, rfl, rfl, .incomplete _ (fun p sequence => by simp [short p sequence])
      ⟨[b, 0x80, 0x80], .four ha ha' hb rfl rfl, List.nil_prefix⟩⟩
  | cons b rest =>
    by_cases hb : begins4 a b
    · simp only [if_pos hb]
      cases rest with
      | nil =>
        exact .inr ⟨_, rfl, rfl, .incomplete _ (fun p sequence => by simp [short p sequence])
          ⟨[b, 0x80, 0x80], .four ha ha' hb rfl rfl, by simp⟩⟩
      | cons c rest =>
        by_cases hc : isContinuation c
        · simp only [if_pos hc]
          cases rest with
          | nil =>
            exact .inr ⟨_, rfl, rfl, .incomplete _ (fun p sequence => by simp [short p sequence])
              ⟨[b, c, 0x80], .four ha ha' hb hc rfl, by simp⟩⟩
          | cons d rest =>
            by_cases hd : isContinuation d
            · simp only [if_pos hd]
              exact .inl ⟨[a, b, c, d], rest, rfl, .four ha ha' hb hc hd⟩
            · simp only [if_neg hd]
              refine .inr ⟨_, rfl, rfl, .invalid _ _ fun p sequence => ?_⟩
              obtain ⟨b', c', d', rfl, -, -, hd'⟩ := sequence.tail_four ha ha'
              rw [agree_cons, agree_cons, agree_cons]
              rintro ⟨-, -, rfl, -⟩
              exact hd hd'
        · simp only [if_neg hc]
          refine .inr ⟨_, rfl, rfl, .invalid _ _ fun p sequence => ?_⟩
          obtain ⟨b', c', d', rfl, -, hc', -⟩ := sequence.tail_four ha ha'
          rw [agree_cons, agree_cons]
          rintro ⟨-, rfl, -⟩
          exact hc hc'
    · simp only [if_neg hb]
      refine .inr ⟨_, rfl, rfl, .invalid _ _ fun p sequence => ?_⟩
      obtain ⟨b', c', d', rfl, hb', -⟩ := sequence.tail_four ha ha'
      rw [agree_cons]
      rintro ⟨rfl, -⟩
      exact hb hb'

theorem steps (index : Nat) (a : UInt8) (rest : List UInt8) : Steps index a rest := by
  by_cases single : a.toNat < 0x80
  · exact .inl ⟨[a], rest, rfl, .one single⟩
  by_cases double : 0xC2 ≤ a.toNat ∧ a.toNat ≤ 0xDF
  · exact steps_two index rest double.1 double.2
  by_cases triple : 0xE0 ≤ a.toNat ∧ a.toNat ≤ 0xEF
  · exact steps_three index rest triple.1 triple.2
  by_cases quadruple : 0xF0 ≤ a.toNat ∧ a.toNat ≤ 0xF4
  · exact steps_four index rest quadruple.1 quadruple.2
  -- no sequence begins with such a byte
  refine .inr ⟨.invalid index 1, ?_, rfl, .invalid _ _ fun p sequence => ?_⟩
  · rw [decodeFrom.eq_def]
    simp only [UInt8.lt_iff_toNat_lt, UInt8.le_iff_toNat_le, Bool.and_eq_true, decide_eq_true_eq,
      UInt8.reduceToNat]
    rw [if_neg single, if_neg double, if_neg triple, if_neg quadruple]
  · cases sequence <;> omega

end Characters

section Prefixes

variable {index : Nat} {a : UInt8} {bytes rest : List UInt8} {fault : Fault} {t : Text}

@[simp] theorem encode_nil : encode [] = [] := rfl

@[simp] theorem encode_cons (c : Char) (t : Text) :
    encode (c :: t) = String.utf8EncodeChar c ++ encode t := rfl

theorem decodeFrom_cases (index : Nat) (bytes : List UInt8) :
    (∃ t, bytes = encode t ∧ decodeFrom index bytes = .ok t) ∨
    ∃ front a rest fault, bytes = encode front ++ a :: rest ∧
      decodeFrom index bytes = .error fault ∧ fault.index = index + (encode front).length ∧
      Stuck a rest fault := by
  induction size : bytes.length using Nat.strongRecOn generalizing index bytes with
  | ind n ih =>
    subst size
    cases bytes with
    | nil => exact .inl ⟨[], rfl, rfl⟩
    | cons a rest =>
      rcases steps index a rest with ⟨p, q, whole, sequence⟩ | ⟨fault, faulty, here, stuck⟩
      · obtain ⟨c, rfl⟩ := sequence.exists_char
        have shorter : q.length < (a :: rest).length := by
          have proper := List.length_pos_iff.mpr sequence.ne_nil
          rw [whole, List.length_append]
          omega
        have read := decodeFrom_encodeChar index c q
        rw [whole]
        rcases ih q.length shorter _ q rfl with ⟨t, rfl, ok⟩ | ⟨front, b, rest, fault, rfl, faulty,
          place, stuck⟩
        · exact .inl ⟨c :: t, rfl, by rw [read, ok]; rfl⟩
        · refine .inr ⟨c :: front, b, rest, fault, by simp, by rw [read, faulty]; rfl, ?_, stuck⟩
          rw [place, encode_cons, List.length_append, Nat.add_assoc]
      · exact .inr ⟨[], a, rest, fault, rfl, faulty, here, stuck⟩

theorem decode_eq_ok : decode bytes = .ok t ↔ encode t = bytes := by
  constructor
  · intro ok
    rcases decodeFrom_cases 0 bytes with ⟨s, rfl, read⟩ | ⟨_, _, _, fault, _, faulty, -⟩
    · rw [← decode, ok] at read
      rw [Except.ok.inj read]
    · rw [← decode, ok] at faulty
      cases faulty
  · rintro rfl
    exact decode_encode t

theorem isOk_decode : (decode bytes).isOk ↔ Valid bytes := by
  constructor
  · intro ok
    cases read : decode bytes with
    | ok t => exact ⟨t, decode_eq_ok.mp read⟩
    | error fault => rw [read] at ok; cases ok
  · rintro ⟨t, rfl⟩
    rw [decode_encode]
    rfl

theorem Stuck.not_prefix (stuck : Stuck a rest fault) {p : List UInt8} (sequence : Sequence p) :
    ¬ p <+: a :: rest := by
  intro whole
  cases p with
  | nil => exact sequence.ne_nil rfl
  | cons b p =>
    obtain ⟨rfl, front⟩ := List.cons_prefix_cons.mp whole
    cases stuck with
    | invalid index count apart => exact apart p sequence (.inl front)
    | incomplete index short begun =>
      have longer := short p sequence
      have fits := front.length_le
      omega

theorem Stuck.longest (stuck : Stuck a rest fault) (front t : Text)
    (begins : encode t <+: encode front ++ a :: rest) :
    (encode t).length ≤ (encode front).length := by
  induction front generalizing t with
  | nil =>
    cases t with
    | nil => exact Nat.le_refl _
    | cons c t =>
      have first : String.utf8EncodeChar c <+: a :: rest := (List.prefix_append _ _).trans begins
      exact absurd first (stuck.not_prefix (sequence_encodeChar c))
  | cons c front ih =>
    cases t with
    | nil => exact Nat.zero_le _
    | cons d t =>
      rw [encode_cons, encode_cons, List.append_assoc] at begins
      have same : String.utf8EncodeChar d = String.utf8EncodeChar c := by
        rcases List.prefix_or_prefix_of_prefix ((List.prefix_append _ _).trans begins)
          (List.prefix_append _ _) with first | first
        · exact (sequence_encodeChar d).eq_of_front (sequence_encodeChar c) first
        · exact ((sequence_encodeChar c).eq_of_front (sequence_encodeChar d) first).symm
      rw [same, List.prefix_append_right_inj] at begins
      simpa [same] using ih t begins

theorem Stuck.incomplete_iff (stuck : Stuck a rest fault) :
    fault = .incomplete fault.index ↔ BeginsCharacter (a :: rest) := by
  cases stuck with
  | invalid index count apart =>
    refine ⟨(nomatch ·), ?_⟩
    rintro ⟨-, c, front, -⟩
    obtain ⟨p, whole⟩ := front
    have sequence := sequence_encodeChar c
    rw [← whole] at sequence
    exact absurd (.inr (List.prefix_append _ _)) (apart _ sequence)
  | incomplete index short begun =>
    refine ⟨fun _ => ⟨by simp, ?_⟩, fun _ => rfl⟩
    obtain ⟨p, sequence, front⟩ := begun
    obtain ⟨c, form⟩ := sequence.exists_char
    refine ⟨c, by rw [form]; exact List.cons_prefix_cons.mpr ⟨rfl, front⟩, ?_⟩
    rw [form]
    intro whole
    have shorter := short p sequence
    rw [(List.cons.inj whole).2] at shorter
    omega

/-- A fault tells the length of the longest beginning that is the form of a text, and whether the
bytes behind it are the beginning of a character. -/
theorem decode_fault (faulty : decode bytes = .error fault) :
    Valid (bytes.take fault.index) ∧ (∀ t, encode t <+: bytes → (encode t).length ≤ fault.index) ∧
      (fault = .incomplete fault.index ↔ BeginsCharacter (bytes.drop fault.index)) := by
  rcases decodeFrom_cases 0 bytes with ⟨t, -, read⟩ | ⟨front, a, rest, fault', rfl, read, place,
    stuck⟩
  · rw [← decode, faulty] at read
    cases read
  · rw [← decode, faulty] at read
    cases Except.error.inj read
    rw [Nat.zero_add] at place
    rw [place, List.take_left, List.drop_left, ← place]
    refine ⟨⟨front, rfl⟩, fun t begins => ?_, stuck.incomplete_iff⟩
    rw [place]
    exact stuck.longest front t begins

end Prefixes

end Utf8
end RequireInjection
